import Mathlib.Algebra.BigOperators.Group.List.Basic
import Mathlib.Algebra.Ring.Nat

/-!
# Spans

Half-open intervals of natural numbers, as a list of pieces of something
longer: pieces that follow one another, pieces whose starts are computed in a
machine word, and pieces that cover an initial segment once.

## Main results

* `Consecutive.tiles_iff`: pieces that follow one another from 0 on cover
  exactly their total length.
* `Wraps.tiles_iff`: so do pieces whose starts wrap, as long as the length to
  be covered fits the word.
-/

namespace ArkiveSync.Library

/-- The positions from `start` on, `length` of them. -/
structure Span where
  start : Nat
  length : Nat
  deriving DecidableEq, Repr

namespace Span

/-- The position lies in the span. -/
def Contains (p : Nat) (s : Span) : Prop :=
  s.start ≤ p ∧ p < s.start + s.length

instance (p : Nat) : DecidablePred (Contains p) := fun s => by
  unfold Contains
  infer_instance

end Span

/-- How long the spans are together. -/
def total (spans : List Span) : Nat := (spans.map Span.length).sum

@[simp] theorem total_nil : total [] = 0 := rfl

@[simp] theorem total_cons (s : Span) (rest : List Span) :
    total (s :: rest) = s.length + total rest := rfl

/-- The first span begins at the given position, and each of the others where
the one before it ends. -/
def Consecutive : Nat → List Span → Prop
  | _, [] => True
  | start, s :: rest => s.start = start ∧ Consecutive (start + s.length) rest

/-- The same with starts that are computed modulo `w`. -/
def Wraps (w : Nat) : Nat → List Span → Prop
  | _, [] => True
  | start, s :: rest => s.start = start % w ∧ Wraps w (start + s.length) rest

/-- No span leaves `[0, size)`, and every position in it lies in exactly one
span. -/
structure Tiles (spans : List Span) (size : Nat) : Prop where
  inside : ∀ s ∈ spans, s.start + s.length ≤ size
  once : ∀ p < size, spans.countP (Span.Contains p) = 1

/-! ## Spans that follow one another -/

/-- A position lies in one of them if it lies between the ends, and in none
otherwise. -/
theorem Consecutive.countP_eq {start : Nat} {spans : List Span}
    (h : Consecutive start spans) (p : Nat) :
    spans.countP (Span.Contains p) =
      if start ≤ p ∧ p < start + total spans then 1 else 0 := by
  induction spans generalizing start with
  | nil =>
      rw [List.countP_nil, if_neg]
      rintro ⟨hlow, hhigh⟩
      exact absurd hhigh (by simpa using hlow)
  | cons first rest ih =>
      obtain ⟨hfirst, hrest⟩ := h
      rw [List.countP_cons, ih hrest, total_cons]
      by_cases hin : Span.Contains p first
      · rw [if_pos (decide_eq_true hin)]
        obtain ⟨hlow, hhigh⟩ := hin
        rw [if_neg (by omega), if_pos (by omega)]
      · rw [decide_eq_false hin, if_neg Bool.false_ne_true, Nat.add_zero]
        unfold Span.Contains at hin
        split
        next hrange => rw [if_pos (by omega)]
        next hrange => rw [if_neg (by omega)]

/-- They end at their total length. -/
theorem Consecutive.inside {start : Nat} {spans : List Span}
    (h : Consecutive start spans) :
    ∀ s ∈ spans, s.start + s.length ≤ start + total spans := by
  induction spans generalizing start with
  | nil =>
      intro s hs
      cases hs
  | cons first rest ih =>
      obtain ⟨hfirst, hrest⟩ := h
      intro s hs
      rw [total_cons]
      rcases List.mem_cons.mp hs with rfl | hs
      · omega
      · have hinside := ih hrest s hs
        omega

/-- Some span reaches the end, or there is nothing to reach. -/
theorem Consecutive.reaches {start : Nat} {spans : List Span}
    (h : Consecutive start spans) :
    spans = [] ∨ ∃ s ∈ spans, s.start + s.length = start + total spans := by
  induction spans generalizing start with
  | nil => exact Or.inl rfl
  | cons first rest ih =>
      obtain ⟨hfirst, hrest⟩ := h
      refine Or.inr ?_
      rcases ih hrest with rfl | ⟨s, hs, hend⟩
      · exact ⟨first, List.mem_cons_self, by simp [hfirst]⟩
      · refine ⟨s, List.mem_cons_of_mem _ hs, ?_⟩
        rw [hend, total_cons]
        omega

/-- What they cover is an initial segment as long as they are together. -/
theorem Consecutive.tiles_iff {spans : List Span} (h : Consecutive 0 spans)
    (size : Nat) : Tiles spans size ↔ total spans = size := by
  constructor
  · intro htiles
    have hle : total spans ≤ size := by
      rcases h.reaches with rfl | ⟨s, hs, hend⟩
      · exact Nat.zero_le _
      · have hinside := htiles.inside s hs
        omega
    by_contra hne
    have honce := htiles.once (total spans) (by omega)
    rw [h.countP_eq, if_neg (by omega)] at honce
    exact absurd honce (by decide)
  · rintro rfl
    refine ⟨?_, ?_⟩
    · intro s hs
      have hinside := h.inside s hs
      omega
    · intro p hp
      rw [h.countP_eq, if_pos (by omega)]

/-! ## Starts in a machine word -/

/-- Only the residue of the start matters. -/
theorem Wraps.congr {w start start' : Nat} {spans : List Span}
    (h : Wraps w start spans) (hsame : start % w = start' % w) :
    Wraps w start' spans := by
  induction spans generalizing start start' with
  | nil => trivial
  | cons first rest ih =>
      obtain ⟨hfirst, hrest⟩ := h
      refine ⟨hfirst.trans hsame, ih hrest ?_⟩
      rw [Nat.add_mod, hsame, ← Nat.add_mod]

/-- Starts do not wrap while the spans stay below the word size. -/
theorem Wraps.consecutive_of_inside {w size start : Nat} {spans : List Span}
    (h : Wraps w start spans) (hstart : start ≤ size) (hsize : size < w)
    (hinside : ∀ s ∈ spans, s.start + s.length ≤ size) :
    Consecutive start spans := by
  induction spans generalizing start with
  | nil => trivial
  | cons first rest ih =>
      obtain ⟨hfirst, hrest⟩ := h
      rw [Nat.mod_eq_of_lt (by omega)] at hfirst
      have hend := hinside first List.mem_cons_self
      refine ⟨hfirst, ih hrest (by omega) ?_⟩
      intro s hs
      exact hinside s (List.mem_cons_of_mem _ hs)

theorem Wraps.consecutive {w start : Nat} {spans : List Span}
    (h : Wraps w start spans) (hfits : start + total spans < w) :
    Consecutive start spans := by
  induction spans generalizing start with
  | nil => trivial
  | cons first rest ih =>
      obtain ⟨hfirst, hrest⟩ := h
      rw [total_cons] at hfits
      rw [Nat.mod_eq_of_lt (by omega)] at hfirst
      exact ⟨hfirst, ih hrest (by omega)⟩

theorem Wraps.tiles_iff {w size : Nat} {spans : List Span}
    (h : Wraps w 0 spans) (hsize : size < w) :
    Tiles spans size ↔ total spans = size := by
  constructor
  · intro htiles
    have hconsecutive :=
      h.consecutive_of_inside (Nat.zero_le _) hsize htiles.inside
    exact (hconsecutive.tiles_iff size).mp htiles
  · intro htotal
    have hconsecutive : Consecutive 0 spans := h.consecutive (by omega)
    exact (hconsecutive.tiles_iff size).mpr htotal

end ArkiveSync.Library
