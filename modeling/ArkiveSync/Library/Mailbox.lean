import ArkiveSync.Library.Runs
import Mathlib.Data.Set.Basic

/-!
# Mailboxes

Work is noted under a key and is taken by its key.  Notes for one key may be
merged, and a key may be taken again after it has been taken; the only thing
that a mailbox promises is that a key that waits goes on waiting until it is
taken.

## Main results

* `Mailbox.met_of_run`: what waits at one point of a run still waits at the
  end of it, or has been taken since.
* `Mailbox.met_of_simulates`: the same for a system whose steps are steps of a
  mailbox.
-/

namespace ArkiveSync.Library

/-- The keys that wait, and those that have been taken, the latest one last. -/
structure Mailbox (κ : Type) where
  waiting : Set κ
  taken : List κ

namespace Mailbox

variable {κ : Type} {k : κ} {since : Nat} {a b : Mailbox κ}

/-- A step notes keys, or takes one; every other key that waits goes on
waiting. -/
inductive Step (a b : Mailbox κ) : Prop where
  | noted (hmore : a.waiting ⊆ b.waiting) (hlog : b.taken = a.taken)
  | took (k : κ) (hothers : ∀ j ∈ a.waiting, j ≠ k → j ∈ b.waiting)
      (hlog : b.taken = a.taken ++ [k])

/-- The key waits, or has been taken since the log had this length. -/
def Met (k : κ) (since : Nat) (a : Mailbox κ) : Prop :=
  since ≤ a.taken.length ∧ (k ∈ a.waiting ∨ k ∈ a.taken.drop since)

theorem Met.step (h : Met k since a) (hstep : Step a b) : Met k since b := by
  obtain ⟨hsince, hmet⟩ := h
  cases hstep with
  | noted hmore hlog =>
      unfold Met
      rw [hlog]
      exact ⟨hsince, hmet.imp_left (fun hk => hmore hk)⟩
  | took j hothers hlog =>
      unfold Met
      rw [hlog, List.length_append, List.drop_append_of_le_length hsince,
        List.mem_append, List.mem_singleton]
      refine ⟨by omega, ?_⟩
      rcases hmet with hwaits | htaken
      · by_cases hsame : k = j
        · exact Or.inr (Or.inr hsame)
        · exact Or.inl (hothers k hwaits hsame)
      · exact Or.inr (Or.inl htaken)

/-- What waits is taken before it stops waiting. -/
theorem met_of_run (hk : k ∈ a.waiting) (hrun : Run Step a b) :
    Met k a.taken.length b := by
  have hkeep : Preserves Step (Met k a.taken.length) :=
    fun _ _ hstep h => h.step hstep
  exact hkeep.run hrun ⟨le_rfl, Or.inl hk⟩

/-- A system that is a mailbox, seen through `view`, as long as its invariant
holds. -/
theorem met_of_simulates {σ : Type} {step : σ → σ → Prop} {Inv : σ → Prop}
    {view : σ → Mailbox κ} (hinv : Preserves step Inv)
    (hview : ∀ ⦃s t⦄, step s t → Inv s → Step (view s) (view t)) {s t : σ}
    (hs : Inv s) (hk : k ∈ (view s).waiting) (hrun : Run step s t) :
    Met k (view s).taken.length (view t) := by
  have hkeep : Preserves step
      (fun u => Inv u ∧ Met k (view s).taken.length (view u)) := by
    intro u v hstep ⟨hu, hmet⟩
    exact ⟨hinv hstep hu, hmet.step (hview hstep hu)⟩
  exact (hkeep.run hrun ⟨hs, le_rfl, Or.inl hk⟩).2

end Mailbox

end ArkiveSync.Library
