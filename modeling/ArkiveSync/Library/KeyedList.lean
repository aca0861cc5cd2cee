import Mathlib.Data.List.Basic
import Mathlib.Data.List.Nodup

/-!
# Lists of records with a key

Records in a list that are looked up and overwritten by a key: both find the
first record that has it.  A list may also be gone through in pages.

## Main results

* `find_modifyFirst`: what is found behind an overwriting.
* `find_foldl_modify_of_mem`, `find_foldl_modify_of_not_mem`: what is found
  behind a loop of overwritings with different keys.
* `perm_eraseKey`: what is found and what is left are the whole list.
* `flatten_pages`: the pages make up the list.
-/

namespace ArkiveSync.Library

section Keyed

variable {α β κ υ : Type} [DecidableEq κ] (key : α → κ)

/-- The first record with a key. -/
def findKey (k : κ) (xs : List α) : Option α :=
  xs.find? (fun x => decide (key x = k))

/-- The list with the first record of a key overwritten. -/
def modifyFirst (k : κ) (f : α → α) : List α → List α
  | [] => []
  | x :: xs => if key x = k then f x :: xs else x :: modifyFirst k f xs

/-- The list without the first record of a key. -/
def eraseKey (k : κ) (xs : List α) : List α :=
  xs.eraseP (fun x => decide (key x = k))

variable {key}

theorem findKey_cons (k : κ) (x : α) (xs : List α) :
    findKey key k (x :: xs) =
      if key x = k then some x else findKey key k xs := by
  unfold findKey
  by_cases h : key x = k
  · rw [if_pos h, List.find?_cons_of_pos (by simpa using h)]
  · rw [if_neg h, List.find?_cons_of_neg (by simpa using h)]

/-- What is found and what is left are the whole list. -/
theorem perm_eraseKey {k : κ} {x : α} {xs : List α}
    (h : findKey key k xs = some x) : xs.Perm (x :: eraseKey key k xs) := by
  induction xs with
  | nil => cases h
  | cons y ys ih =>
      rw [findKey_cons] at h
      unfold eraseKey
      split at h
      next hsame =>
          cases h
          rw [List.eraseP_cons_of_pos (by simpa using hsame)]
      next hother =>
          rw [List.eraseP_cons_of_neg (by simpa using hother)]
          exact ((ih h).cons y).trans (List.Perm.swap x y _)

/-- With different keys, a record of the list is the one that is found. -/
theorem findKey_of_mem {xs : List α} (hnodup : (xs.map key).Nodup) {x : α}
    (hx : x ∈ xs) : findKey key (key x) xs = some x := by
  induction xs with
  | nil => cases hx
  | cons y ys ih =>
      rw [List.map_cons, List.nodup_cons] at hnodup
      rw [findKey_cons]
      rcases List.mem_cons.mp hx with hsame | hin
      · rw [if_pos (by rw [hsame]), hsame]
      · have hne : key y ≠ key x := by
          intro heq
          exact hnodup.1 (heq ▸ List.mem_map_of_mem hin)
        rw [if_neg hne]
        exact ih hnodup.2 hin

theorem map_modifyFirst {f : α → α} {g : α → β} (hg : ∀ x, g (f x) = g x)
    (k : κ) (xs : List α) : (modifyFirst key k f xs).map g = xs.map g := by
  induction xs with
  | nil => rfl
  | cons x xs ih =>
      unfold modifyFirst
      split
      · simp [hg]
      · simp [ih]

/-- What is found behind an overwriting. -/
theorem find_modifyFirst {f : α → α} (hf : ∀ x, key (f x) = key x) (k l : κ)
    (xs : List α) :
    findKey key l (modifyFirst key k f xs) =
      if l = k then (findKey key l xs).map f else findKey key l xs := by
  induction xs with
  | nil => simp [modifyFirst, findKey]
  | cons x xs ih =>
      unfold modifyFirst
      by_cases hk : key x = k
      · rw [if_pos hk, findKey_cons, findKey_cons, hf, hk]
        by_cases hl : k = l
        · subst hl
          simp
        · rw [if_neg hl, if_neg hl, if_neg (Ne.symm hl)]
      · rw [if_neg hk, findKey_cons, findKey_cons, ih]
        by_cases hx : key x = l
        · have hlk : l ≠ k := fun h => hk (hx.trans h)
          rw [if_pos hx, if_neg hlk, if_pos hx]
        · rw [if_neg hx, if_neg hx]

/-! ## Loops of overwritings -/

variable {target : υ → κ} {f : υ → α → α}

theorem map_foldl_modify {g : α → β} (hg : ∀ u x, g (f u x) = g x)
    (us : List υ) (xs : List α) :
    (us.foldl (fun xs u => modifyFirst key (target u) (f u) xs) xs).map g =
      xs.map g := by
  induction us generalizing xs with
  | nil => rfl
  | cons u us ih =>
      rw [List.foldl_cons, ih]
      exact map_modifyFirst (hg u) _ _

/-- A key that no overwriting is for. -/
theorem find_foldl_modify_of_not_mem (hf : ∀ u x, key (f u x) = key x) {k : κ}
    {us : List υ} (hk : k ∉ us.map target) (xs : List α) :
    findKey key k
      (us.foldl (fun xs u => modifyFirst key (target u) (f u) xs) xs) =
      findKey key k xs := by
  induction us generalizing xs with
  | nil => rfl
  | cons u us ih =>
      rw [List.map_cons, List.mem_cons, not_or] at hk
      rw [List.foldl_cons, ih hk.2, find_modifyFirst (hf u), if_neg hk.1]

/-- The overwriting of a key, when every key is overwritten once at most. -/
theorem find_foldl_modify_of_mem (hf : ∀ u x, key (f u x) = key x)
    {us : List υ} (hnodup : (us.map target).Nodup) {u : υ} (hu : u ∈ us)
    (xs : List α) :
    findKey key (target u)
      (us.foldl (fun xs u => modifyFirst key (target u) (f u) xs) xs) =
      (findKey key (target u) xs).map (f u) := by
  induction us generalizing xs with
  | nil => cases hu
  | cons v vs ih =>
      rw [List.map_cons, List.nodup_cons] at hnodup
      rw [List.foldl_cons]
      rcases List.mem_cons.mp hu with hsame | hin
      · subst hsame
        rw [find_foldl_modify_of_not_mem hf hnodup.1, find_modifyFirst (hf u),
          if_pos rfl]
      · have hne : target u ≠ target v := by
          intro heq
          exact hnodup.1 (heq ▸ List.mem_map_of_mem hin)
        rw [ih hnodup.2 hin, find_modifyFirst (hf v), if_neg hne]

/-- What no overwriting changes. -/
theorem find_foldl_modify_map {g : α → β} (hf : ∀ u x, key (f u x) = key x)
    (hg : ∀ u x, g (f u x) = g x) (k : κ) (us : List υ) (xs : List α) :
    (findKey key k
      (us.foldl (fun xs u => modifyFirst key (target u) (f u) xs) xs)).map g =
      (findKey key k xs).map g := by
  induction us generalizing xs with
  | nil => rfl
  | cons u us ih =>
      rw [List.foldl_cons, ih, find_modifyFirst (hf u)]
      split
      · rw [Option.map_map]
        congr 1
        funext x
        exact hg u x
      · rfl

omit [DecidableEq κ] in
/-- What is made of some of the records, under the same keys. -/
theorem map_filterMap_sublist {f : α → Option β} {key' : β → κ} (xs : List α)
    (hf : ∀ x ∈ xs, ∀ y, f x = some y → key' y = key x) :
    List.Sublist ((xs.filterMap f).map key') (xs.map key) := by
  induction xs with
  | nil => exact List.Sublist.refl _
  | cons x xs ih =>
      have hrest := ih (fun y hy => hf y (List.mem_cons_of_mem _ hy))
      cases hx : f x with
      | none =>
          rw [List.filterMap_cons_none hx, List.map_cons]
          exact hrest.cons _
      | some y =>
          rw [List.filterMap_cons_some hx, List.map_cons, List.map_cons,
            hf x List.mem_cons_self y hx]
          exact hrest.cons_cons _

end Keyed

/-! ## Pages -/

section Pages

variable {α : Type}

/-- Pages of a size, at most a number of them. -/
def pagesUpTo (size : Nat) : Nat → List α → List (List α)
  | 0, _ => []
  | _ + 1, [] => []
  | n + 1, x :: xs =>
      (x :: xs).take size :: pagesUpTo size n ((x :: xs).drop size)

/-- A list in pages of a size. -/
def pages (size : Nat) (xs : List α) : List (List α) :=
  pagesUpTo size xs.length xs

theorem flatten_pagesUpTo {size : Nat} (hsize : 0 < size) (n : Nat) :
    ∀ xs : List α, xs.length ≤ n → (pagesUpTo size n xs).flatten = xs := by
  induction n with
  | zero =>
      intro xs hlen
      have hnil : xs = [] := List.length_eq_zero_iff.mp (by omega)
      rw [hnil]
      rfl
  | succ n ih =>
      intro xs hlen
      cases xs with
      | nil => rfl
      | cons x xs =>
          have hrest : ((x :: xs).drop size).length ≤ n := by
            rw [List.length_drop]
            simp only [List.length_cons] at hlen ⊢
            omega
          show (x :: xs).take size ++ (pagesUpTo size n _).flatten = _
          rw [ih _ hrest, List.take_append_drop]

/-- The pages make up the list. -/
theorem flatten_pages {size : Nat} (hsize : 0 < size) (xs : List α) :
    (pages size xs).flatten = xs :=
  flatten_pagesUpTo hsize _ xs (Nat.le_refl _)

end Pages

end ArkiveSync.Library
