import Mathlib.Data.List.Basic
import Mathlib.Data.List.Nodup

/-!
# First occurrences

`List.eraseDups` keeps the first occurrence of every element.  Here is what a
loop that keeps a set of the elements it has seen relies on, and the order in
which the elements are left.

## Main results

* `unseen_cons_of_mem`, `unseen_cons_of_not_mem`: one step of such a loop.
* `pairwise_idxOf_eraseDups`: the elements are in the order in which they
  first occur.
-/

namespace ArkiveSync.Library

variable {α : Type} [BEq α]

/-- The induction of `eraseDups`: from the rest of a list without the first
element to the list. -/
theorem firstOccurrence_induction {P : List α → Prop} (nil : P [])
    (cons : ∀ a l, P (l.filter (!· == a)) → P (a :: l)) : ∀ l, P l
  | [] => nil
  | a :: l => cons a l (firstOccurrence_induction nil cons _)
termination_by l => l.length
decreasing_by
  have hle := List.length_filter_le (!· == a) l
  rw [List.length_cons]
  omega

variable [LawfulBEq α]

theorem nodup_eraseDups (l : List α) : l.eraseDups.Nodup := by
  induction l using firstOccurrence_induction with
  | nil => simp
  | cons a rest ih =>
      rw [List.eraseDups_cons, List.nodup_cons]
      exact ⟨by simp [List.mem_eraseDups], ih⟩

/-- In a filtered list the elements occur in the same order. -/
theorem idxOf_lt_of_filter {p : α → Bool} {l : List α} {a b : α}
    (ha : p a = true) (hb : p b = true)
    (h : (l.filter p).idxOf a < (l.filter p).idxOf b) :
    l.idxOf a < l.idxOf b := by
  induction l with
  | nil => exact h
  | cons c rest ih =>
      by_cases hca : c = a
      · subst hca
        have hcb : c ≠ b := by
          rintro rfl
          exact Nat.lt_irrefl _ h
        rw [List.idxOf_cons_self, List.idxOf_cons_ne _ hcb]
        exact Nat.succ_pos _
      by_cases hcb : c = b
      · subst hcb
        rw [List.filter_cons_of_pos hb, List.idxOf_cons_self] at h
        exact absurd h (Nat.not_lt_zero _)
      rw [List.idxOf_cons_ne _ hca, List.idxOf_cons_ne _ hcb]
      apply Nat.succ_lt_succ
      apply ih
      by_cases hc : p c = true
      · rw [List.filter_cons_of_pos hc, List.idxOf_cons_ne _ hca,
          List.idxOf_cons_ne _ hcb] at h
        exact Nat.lt_of_succ_lt_succ h
      · rwa [List.filter_cons_of_neg hc] at h

theorem pairwise_idxOf_eraseDups (l : List α) :
    l.eraseDups.Pairwise (fun a b => l.idxOf a < l.idxOf b) := by
  induction l using firstOccurrence_induction with
  | nil => simp
  | cons a rest ih =>
      rw [List.eraseDups_cons, List.pairwise_cons]
      have hne : ∀ b ∈ (rest.filter (!· == a)).eraseDups, b ≠ a := by
        intro b hb
        have hfilter := List.mem_filter.mp (List.mem_eraseDups.mp hb)
        simpa using hfilter.2
      refine ⟨fun b hb => ?_, ?_⟩
      · rw [List.idxOf_cons_self, List.idxOf_cons_ne _ (hne b hb).symm]
        exact Nat.succ_pos _
      · refine List.Pairwise.imp_of_mem ?_ ih
        intro b c hb hc hlt
        rw [List.idxOf_cons_ne _ (hne b hb).symm,
          List.idxOf_cons_ne _ (hne c hc).symm]
        exact Nat.succ_lt_succ (idxOf_lt_of_filter (by simpa using hne b hb)
          (by simpa using hne c hc) hlt)

/-- The elements of a list that a loop has not seen yet, each once. -/
def unseen (seen l : List α) : List α :=
  (l.filter (· ∉ seen)).eraseDups

theorem unseen_nil_left (l : List α) : unseen [] l = l.eraseDups := by
  unfold unseen
  rw [List.filter_eq_self.mpr (fun a _ => by simp)]

@[simp] theorem unseen_nil_right (seen : List α) : unseen seen [] = [] := rfl

theorem unseen_cons_of_mem {seen : List α} {a : α} (h : a ∈ seen)
    (l : List α) : unseen seen (a :: l) = unseen seen l := by
  unfold unseen
  rw [List.filter_cons_of_neg (by simpa using h)]

theorem unseen_cons_of_not_mem {seen : List α} {a : α} (h : a ∉ seen)
    (l : List α) : unseen seen (a :: l) = a :: unseen (a :: seen) l := by
  unfold unseen
  rw [List.filter_cons_of_pos (by simpa using h), List.eraseDups_cons,
    List.filter_filter]
  congr 2
  apply List.filter_congr
  intro b _
  simp [List.mem_cons, not_or]

end ArkiveSync.Library
