import Mathlib.Data.Set.Basic

/-!
# Reading again what a flag says has changed

Something with many parts is read as a whole, one part after the other, while it
may change.  Whoever changes a part leaves a notification, which some time
later sets a flag.  The reader clears the flag before it begins to read, and
what it reads of a part that changes meanwhile may be anything.

No change is lost by this: as long as a part and the last reading of it differ,
the flag is set or a notification is on its way, unless nobody was watching when
the part changed.

## Main results

* `Kept.change`, `Kept.notify`, `Kept.take`, `Kept.finish` and the others: every
  step of the protocol keeps the invariant.
* `Kept.agrees`: when all is quiet, the last reading is right.
-/

namespace ArkiveSync.Library.DirtyFlag

variable {σ κ β : Type}

/-- The flag with what is known of the changes: those whose notification is on
its way, those that nobody watched, and during a reading those since it has
begun. -/
structure FlagState (κ : Type) where
  dirty : Bool
  watching : Bool
  undelivered : Set κ
  overlooked : Set κ
  reading : Option (Set κ)

namespace FlagState

variable (f : FlagState κ)

/-- Before anything is watched. -/
def start : FlagState κ :=
  { dirty := false, watching := false, undelivered := ∅, overlooked := ∅
    reading := none }

/-- Parts change. -/
def change (keys : Set κ) : FlagState κ :=
  { f with
    undelivered := if f.watching then f.undelivered ∪ keys else f.undelivered
    overlooked := if f.watching then f.overlooked else f.overlooked ∪ keys
    reading := f.reading.map (· ∪ keys) }

/-- Notifications arrive, all but some. -/
def notify (kept : Set κ) : FlagState κ :=
  { f with dirty := true, undelivered := f.undelivered ∩ kept }

/-- From now on changes leave notifications. -/
def watch : FlagState κ := { f with watching := true }

/-- They do so no more, and those on their way are gone; the flag is set. -/
def unwatch : FlagState κ :=
  { f with watching := false, dirty := true, undelivered := ∅ }

/-- The reader takes the flag and begins. -/
def take : FlagState κ :=
  { f with dirty := false, overlooked := ∅, reading := some ∅ }

/-- The reader is done. -/
def finish : FlagState κ := { f with reading := none }

/-- No flag, no notification and no reading. -/
structure Quiet : Prop where
  dirty : f.dirty = false
  undelivered : f.undelivered = ∅
  reading : f.reading = none

end FlagState

/-- The parts at which two states of the whole differ. -/
def changedKeys (view : σ → κ → β) (a b : σ) : Set κ :=
  {k | view a k ≠ view b k}

/-- A reading is right about the parts that did not change since it began. -/
def Reads (view : σ → κ → β) (f : FlagState κ) (actual next : σ) : Prop :=
  ∀ touched, f.reading = some touched →
    ∀ k, k ∉ touched → view next k = view actual k

/-- Each part is as it was last read, or it is known that it might not be. -/
def Kept (view : σ → κ → β) (f : FlagState κ) (actual seen : σ) : Prop :=
  ∀ k, f.dirty = true ∨ k ∈ f.undelivered ∨ k ∈ f.overlooked ∨
    match f.reading with
    | none => view seen k = view actual k
    | some touched => k ∉ touched

namespace Kept

variable {view : σ → κ → β} {f : FlagState κ} {actual actual' seen next : σ}

theorem start (view : σ → κ → β) (s : σ) : Kept view FlagState.start s s := by
  intro k
  exact Or.inr (Or.inr (Or.inr rfl))

theorem change (h : Kept view f actual seen) (actual' : σ) :
    Kept view (f.change (changedKeys view actual actual')) actual' seen := by
  intro k
  by_cases hk : k ∈ changedKeys view actual actual'
  · cases hwatching : f.watching with
    | true =>
        refine Or.inr (Or.inl ?_)
        simp [FlagState.change, hwatching, hk]
    | false =>
        refine Or.inr (Or.inr (Or.inl ?_))
        simp [FlagState.change, hwatching, hk]
  · have hsame : view actual k = view actual' k := by
      simpa [changedKeys] using hk
    rcases h k with hdirty | hpending | hmissed | hread
    · exact Or.inl hdirty
    · refine Or.inr (Or.inl ?_)
      simp only [FlagState.change]
      split
      · exact Or.inl hpending
      · exact hpending
    · refine Or.inr (Or.inr (Or.inl ?_))
      simp only [FlagState.change]
      split
      · exact hmissed
      · exact Or.inl hmissed
    · refine Or.inr (Or.inr (Or.inr ?_))
      cases hreading : f.reading with
      | none =>
          simp only [hreading] at hread
          simp only [FlagState.change, hreading, Option.map_none]
          exact hread.trans hsame
      | some touched =>
          simp only [hreading] at hread
          simp only [FlagState.change, hreading, Option.map_some]
          intro hin
          rcases hin with hin | hin
          · exact hread hin
          · exact hk hin

theorem notify (view : σ → κ → β) (f : FlagState κ) (kept : Set κ)
    (actual seen : σ) : Kept view (f.notify kept) actual seen := by
  intro k
  exact Or.inl rfl

theorem watch (h : Kept view f actual seen) : Kept view f.watch actual seen :=
  h

theorem unwatch (view : σ → κ → β) (f : FlagState κ) (actual seen : σ) :
    Kept view f.unwatch actual seen := by
  intro k
  exact Or.inl rfl

/-- What was read before counts no more. -/
theorem take (view : σ → κ → β) (f : FlagState κ) (actual seen : σ) :
    Kept view f.take actual seen := by
  intro k
  exact Or.inr (Or.inr (Or.inr (Set.notMem_empty k)))

theorem finish (h : Kept view f actual seen) (hreading : f.reading ≠ none)
    (hreads : Reads view f actual next) : Kept view f.finish actual next := by
  intro k
  obtain ⟨touched, htouched⟩ := Option.ne_none_iff_exists'.mp hreading
  rcases h k with hdirty | hpending | hmissed | hread
  · exact Or.inl hdirty
  · exact Or.inr (Or.inl hpending)
  · exact Or.inr (Or.inr (Or.inl hmissed))
  · rw [htouched] at hread
    exact Or.inr (Or.inr (Or.inr (hreads touched htouched k hread)))

/-- When all is quiet, what was last read of a part is what it is. -/
theorem agrees (h : Kept view f actual seen) (hquiet : f.Quiet) {k : κ}
    (hk : k ∉ f.overlooked) : view seen k = view actual k := by
  rcases h k with hdirty | hpending | hmissed | hread
  · rw [hquiet.dirty] at hdirty
    cases hdirty
  · rw [hquiet.undelivered] at hpending
    exact absurd hpending (Set.notMem_empty k)
  · exact absurd hmissed hk
  · rw [hquiet.reading] at hread
    exact hread

end Kept

end ArkiveSync.Library.DirtyFlag
