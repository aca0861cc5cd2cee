import Mathlib.Data.List.Basic
import Mathlib.Order.Lattice

/-!
# Pages behind a key

Reading a list that is sorted by a key in pages: a page is the first elements
behind the key at which the page before it ended.  The list may change between
two pages; a walk then visits what it should as long as the changes stay behind
the mark it has reached.

## Main results

* `mem_page_of_le_last`: nothing behind the old key and up to the last element
  of a page is left out.
* `mem_page_of_short`: a page that is not full leaves nothing out.
* `behind_eq_append`: over a list that stays, a page and what is behind its last
  element are all that was behind the mark.
* `Visited.page`, `Visited.changed`, `Visited.all_of_short`: the invariant of
  a walk, kept by its pages and by the changes behind its mark, and what it
  says at the end.
-/

namespace ArkiveSync.Library.KeysetPage

variable {α κ : Type} [LinearOrder κ]

/-- The key is behind the mark; without a mark every key is. -/
def Behind (after : Option κ) (k : κ) : Prop := ∀ c, after = some c → c < k

instance (after : Option κ) (k : κ) : Decidable (Behind after k) :=
  match after with
  | none => isTrue (fun _ h => by cases h)
  | some c =>
      if h : c < k then isTrue (fun _ hc => Option.some.inj hc ▸ h)
      else isFalse (fun hall => h (hall c rfl))

/-- Everything behind the mark. -/
def behind (key : α → κ) (l : List α) (after : Option κ) : List α :=
  l.filter (fun x => decide (Behind after (key x)))

/-- The first elements behind the mark. -/
def page (key : α → κ) (l : List α) (after : Option κ) (limit : Nat) : List α :=
  (l.filter (fun x => decide (Behind after (key x)))).take limit

variable {key : α → κ} {l : List α} {after : Option κ} {limit : Nat} {x y : α}

theorem not_behind_iff (k : κ) :
    ¬Behind after k ↔ ∃ c, after = some c ∧ k ≤ c := by
  constructor
  · intro h
    by_contra hnone
    apply h
    intro c hc
    by_contra hle
    exact hnone ⟨c, hc, not_lt.mp hle⟩
  · rintro ⟨c, hc, hle⟩ h
    exact absurd (h c hc) (not_lt.mpr hle)

/-- A page that is not full leaves nothing out. -/
theorem mem_page_of_short (hshort : (page key l after limit).length < limit)
    (hx : x ∈ l) (hbehind : Behind after (key x)) :
    x ∈ page key l after limit := by
  have hmem : x ∈ l.filter (fun x => decide (Behind after (key x))) :=
    List.mem_filter.mpr ⟨hx, decide_eq_true hbehind⟩
  unfold page at hshort ⊢
  rw [List.length_take] at hshort
  rw [List.take_of_length_le (by omega)]
  exact hmem

/-- Nothing up to the last element of a page is left out. -/
theorem mem_page_of_le_last
    (hsorted : l.Pairwise (fun a b => key a < key b))
    (hlast : (page key l after limit).getLast? = some y) (hx : x ∈ l)
    (hbehind : Behind after (key x)) (hle : key x ≤ key y) :
    x ∈ page key l after limit := by
  have hfiltered := hsorted.filter (fun x => decide (Behind after (key x)))
  have hmem : x ∈ l.filter (fun x => decide (Behind after (key x))) :=
    List.mem_filter.mpr ⟨hx, decide_eq_true hbehind⟩
  rw [← List.take_append_drop limit
    (l.filter (fun x => decide (Behind after (key x))))] at hfiltered hmem
  rcases List.mem_append.mp hmem with hin | hout
  · exact hin
  · have hy : y ∈ page key l after limit := List.mem_of_getLast? hlast
    have hlt := (List.pairwise_append.mp hfiltered).2.2 y hy x hout
    exact absurd hle (not_le.mpr hlt)

/-! ## A walk over a list that stays -/

theorem page_eq_take : page key l after limit = (behind key l after).take limit :=
  rfl

@[simp] theorem behind_none : behind key l none = l := by
  unfold behind
  rw [List.filter_eq_self]
  intro x _
  exact decide_eq_true (fun c hc => by cases hc)

/-- A page that is not full is all there is. -/
theorem page_of_short (hshort : (page key l after limit).length < limit) :
    page key l after limit = behind key l after := by
  rw [page_eq_take, List.length_take] at hshort
  rw [page_eq_take, List.take_of_length_le (by omega)]

/-- A page and what is behind its last element. -/
theorem behind_eq_append (hsorted : l.Pairwise (fun a b => key a < key b))
    (hlast : (page key l after limit).getLast? = some y) :
    behind key l after =
      page key l after limit ++ behind key l (some (key y)) := by
  have hy : y ∈ page key l after limit := List.mem_of_getLast? hlast
  have hafter : Behind after (key y) := by
    simpa using (List.mem_filter.mp (List.mem_of_mem_take hy)).2
  have hfront : ∀ x ∈ page key l after limit, key x ≤ key y := by
    intro x hx
    obtain ⟨before, hsplit⟩ := List.getLast?_eq_some_iff.mp hlast
    have hordered : (page key l after limit).Pairwise
        (fun a b => key a < key b) := (hsorted.filter _).take
    rw [hsplit] at hx hordered
    rcases List.mem_append.mp hx with hin | hin
    · exact le_of_lt ((List.pairwise_append.mp hordered).2.2 x hin y
        List.mem_cons_self)
    · rw [List.mem_singleton.mp hin]
  have hback : ∀ x ∈ (behind key l after).drop limit, key y < key x := by
    intro x hx
    have hordered := hsorted.filter (fun x => decide (Behind after (key x)))
    rw [← List.take_append_drop limit
      (l.filter (fun x => decide (Behind after (key x))))] at hordered
    exact (List.pairwise_append.mp hordered).2.2 y hy x hx
  have hagain : behind key l (some (key y)) =
      (behind key l after).filter
        (fun x => decide (Behind (some (key y)) (key x))) := by
    unfold behind
    rw [List.filter_filter]
    apply List.filter_congr
    intro x _
    have htrans : Behind (some (key y)) (key x) → Behind after (key x) :=
      fun h c hc => lt_trans (hafter c hc) (h (key y) rfl)
    by_cases h : Behind (some (key y)) (key x)
    · simp [h, htrans h]
    · simp [h]
  rw [hagain]
  conv => lhs; rw [← List.take_append_drop limit (behind key l after)]
  rw [← page_eq_take]
  congr 1
  conv => rhs; rw [← List.take_append_drop limit (behind key l after)]
  rw [List.filter_append, ← page_eq_take]
  have hnone : (page key l after limit).filter
      (fun x => decide (Behind (some (key y)) (key x))) = [] := by
    rw [List.filter_eq_nil_iff]
    intro x hx hlt
    have hlt : Behind (some (key y)) (key x) := by simpa using hlt
    exact absurd (hlt (key y) rfl) (not_lt.mpr (hfront x hx))
  have hall : ((behind key l after).drop limit).filter
      (fun x => decide (Behind (some (key y)) (key x))) =
        (behind key l after).drop limit := by
    rw [List.filter_eq_self]
    intro x hx
    refine decide_eq_true ?_
    intro c hc
    cases hc
    exact hback x hx
  rw [hnone, hall, List.nil_append]

/-! ## A walk over a changing list -/

/-- Every element up to the mark has been visited. -/
def Visited (key : α → κ) (l : List α) (after : Option κ)
    (visited : α → Prop) : Prop :=
  ∀ x ∈ l, ¬Behind after (key x) → visited x

variable {visited visited' : α → Prop}

/-- A walk starts without a mark. -/
theorem Visited.start : Visited key l none visited := by
  intro x _ hnot
  exact absurd (fun c hc => by cases hc) hnot

/-- A page takes the walk to its last element. -/
theorem Visited.page (h : Visited key l after visited)
    (hsorted : l.Pairwise (fun a b => key a < key b))
    (hlast : (page key l after limit).getLast? = some y)
    (hold : ∀ x ∈ l, visited x → visited' x)
    (hnew : ∀ x ∈ KeysetPage.page key l after limit, visited' x) :
    Visited key l (some (key y)) visited' := by
  intro x hx hnot
  by_cases hbehind : Behind after (key x)
  · obtain ⟨c, hc, hle⟩ := (not_behind_iff (key x)).mp hnot
    cases hc
    exact hnew x (mem_page_of_le_last hsorted hlast hx hbehind hle)
  · exact hold x hx (h x hx hbehind)

/-- The list may change behind the mark. -/
theorem Visited.changed {l' : List α} (h : Visited key l after visited)
    (hchange : ∀ x ∈ l', Behind after (key x) ∨
      ∃ y ∈ l, key y = key x ∧ (visited y → visited' x)) :
    Visited key l' after visited' := by
  intro x hx hnot
  rcases hchange x hx with hbehind | ⟨y, hy, hkey, himp⟩
  · exact absurd hbehind hnot
  · rw [← hkey] at hnot
    exact himp (h y hy hnot)

/-- With a page that is not full the walk has visited everything. -/
theorem Visited.all_of_short (h : Visited key l after visited)
    (hshort : (KeysetPage.page key l after limit).length < limit)
    (hold : ∀ x ∈ l, visited x → visited' x)
    (hnew : ∀ x ∈ KeysetPage.page key l after limit, visited' x) :
    ∀ x ∈ l, visited' x := by
  intro x hx
  by_cases hbehind : Behind after (key x)
  · exact hnew x (mem_page_of_short hshort hx hbehind)
  · exact hold x hx (h x hx hbehind)

end ArkiveSync.Library.KeysetPage
