import ArkiveSync.Model.LocalEntryRepo

/-!
# Marking a subtree deleted

The statements that mark the rows at a path and below it compare paths with
`LIKE`, and the pattern is made of the path itself.  A `%` or `_` in it stands
for other characters, and letters for those of either case, so that a file
elsewhere in the root can be taken for one below the path.

## Main results

* `atOrUnder_iff`: the paths the statements select.
* `marks_exactly_iff`: they mark the subtree and nothing else exactly when no
  live row lies below a lookalike of the path.
* `marks_always_iff`: a path of which that is true in every table has no
  letter and no wildcard.
-/

namespace ArkiveSync.SubtreeMarks

open Library LocalEntryRepo

/-- The path is `p` or begins with `p/`. -/
def inSubtree (p path : String) : Bool :=
  path == p || (p ++ "/").toList.isPrefixOf path.toList

/-- What a subtree deletion leaves, with the rows that `sel` selects. -/
def markedRows (t : EntryTable) (sel : Entry → Bool) : List Entry :=
  t.rows.map (fun e => if sel e then { e with syncState := .deleted } else e)

/-- A path below `q` is below `p`, whenever `p` as a pattern matches `q`. -/
def NoLookalike (p path : String) : Prop :=
  ∀ q rest, path = q ++ "/" ++ rest → sqlLike q p = true →
    inSubtree p path = true

/-! ## The pattern -/

theorem inSubtree_iff {p path : String} :
    inSubtree p path = true ↔
      path = p ∨ ∃ rest, path = p ++ "/" ++ rest := by
  unfold inSubtree
  rw [Bool.or_eq_true, beq_iff_eq, List.isPrefixOf_iff_prefix]
  constructor
  · rintro (hsame | ⟨rest, hrest⟩)
    · exact Or.inl hsame
    · refine Or.inr ⟨String.ofList rest, ?_⟩
      apply String.toList_inj.mp
      simp [← hrest]
  · rintro (hsame | ⟨rest, hrest⟩)
    · exact Or.inl hsame
    · refine Or.inr ⟨rest.toList, ?_⟩
      rw [hrest]
      simp

theorem isUpper_iff (c : Char) : c.isUpper = true ↔ 'A' ≤ c ∧ c ≤ 'Z' := by
  show decide (c.val ≥ 'A'.val ∧ c.val ≤ 'Z'.val) = true ↔ _
  exact decide_eq_true_iff

theorem isLower_iff (c : Char) :
    c.isLower = true ↔ 97 ≤ c.toNat ∧ c.toNat ≤ 122 := by
  show (decide (c.val ≥ 'a'.val) && decide (c.val ≤ 'z'.val)) = true ↔ _
  rw [Bool.and_eq_true, decide_eq_true_iff, decide_eq_true_iff]
  rfl

theorem isAlpha_iff (c : Char) :
    c.isAlpha = true ↔ c.isUpper = true ∨ c.isLower = true := by
  show (c.isUpper || c.isLower) = true ↔ _
  rw [Bool.or_eq_true]

/-- A folded capital is a small letter, and not the capital. -/
theorem foldAscii_capital {c : Char} (hlow : 'A' ≤ c) (hhigh : c ≤ 'Z') :
    (foldAscii c).isAlpha = true ∧ foldAscii c ≠ c ∧
      foldAscii (foldAscii c) = foldAscii c := by
  have hbounds : 65 ≤ c.toNat ∧ c.toNat ≤ 90 := ⟨hlow, hhigh⟩
  have hall : ∀ n, n ≤ 90 → 65 ≤ n →
      (foldAscii (Char.ofNat n)).isAlpha = true ∧
        foldAscii (Char.ofNat n) ≠ Char.ofNat n ∧
        foldAscii (foldAscii (Char.ofNat n)) = foldAscii (Char.ofNat n) := by
    decide
  have hc := hall c.toNat hbounds.2 hbounds.1
  rwa [Char.ofNat_toNat] at hc

theorem foldAscii_of_not_capital {c : Char} (h : ¬('A' ≤ c ∧ c ≤ 'Z')) :
    foldAscii c = c := by
  unfold foldAscii
  rw [if_neg h]

/-- A character that is no letter is folded from itself only. -/
theorem eq_of_foldAscii {a c : Char} (ha : a.isAlpha = false)
    (h : foldAscii a = foldAscii c) : a = c := by
  have hsame : foldAscii a = a := by
    apply foldAscii_of_not_capital
    intro hcapital
    have hletter := (isAlpha_iff a).mpr (Or.inl ((isUpper_iff a).mpr hcapital))
    rw [ha] at hletter
    cases hletter
  rw [hsame] at h
  by_cases hc : 'A' ≤ c ∧ c ≤ 'Z'
  · have hletter := (foldAscii_capital hc.1 hc.2).1
    rw [← h, ha] at hletter
    cases hletter
  · rw [h, foldAscii_of_not_capital hc]

/-- Whether a character of a pattern, `%` apart, stands for `c`. -/
def stands (p c : Char) : Bool :=
  p = '_' || foldAscii p == foldAscii c

theorem likeMatch_nil_iff (s : List Char) :
    likeMatch [] s = true ↔ s = [] := by
  unfold likeMatch
  exact List.isEmpty_iff

theorem likeMatch_percent_iff (ps s : List Char) :
    likeMatch ('%' :: ps) s = true ↔
      ∃ w u, s = w ++ u ∧ likeMatch ps u = true := by
  have htails : likeMatch ('%' :: ps) s = s.tails.any (likeMatch ps) := by
    rw [likeMatch.eq_def]
    rfl
  rw [htails, List.any_eq_true]
  constructor
  · rintro ⟨u, hu, hmatch⟩
    obtain ⟨w, rfl⟩ := (List.mem_tails u s).mp hu
    exact ⟨w, u, rfl, hmatch⟩
  · rintro ⟨w, u, rfl, hmatch⟩
    exact ⟨u, (List.mem_tails u _).mpr (List.suffix_append w u), hmatch⟩

theorem likeMatch_cons_iff {p : Char} (hp : p ≠ '%') (ps s : List Char) :
    likeMatch (p :: ps) s = true ↔
      ∃ c cs, s = c :: cs ∧ stands p c = true ∧ likeMatch ps cs = true := by
  cases s with
  | nil =>
      rw [likeMatch.eq_def]
      simp [hp]
  | cons c cs =>
      have hfirst : likeMatch (p :: ps) (c :: cs) =
          (stands p c && likeMatch ps cs) := by
        rw [likeMatch.eq_def]
        exact if_neg hp
      rw [hfirst, Bool.and_eq_true]
      constructor
      · rintro ⟨hc, hcs⟩
        exact ⟨c, cs, rfl, hc, hcs⟩
      · rintro ⟨_, _, hs, hc, hcs⟩
        cases hs
        exact ⟨hc, hcs⟩

theorem stands_slash_iff (c : Char) : stands '/' c = true ↔ c = '/' := by
  unfold stands
  rw [Bool.or_eq_true, beq_iff_eq]
  constructor
  · rintro (h | h)
    · simp at h
    · exact (eq_of_foldAscii (by decide) h).symm
  · rintro rfl
    exact Or.inr rfl

/-- The pattern of the statements: a `/` behind a match of the path. -/
theorem likeMatch_below (ps s : List Char) :
    likeMatch (ps ++ ['/', '%']) s = true ↔
      ∃ u v, s = u ++ '/' :: v ∧ likeMatch ps u = true := by
  induction ps generalizing s with
  | nil =>
      rw [List.nil_append, likeMatch_cons_iff (by decide)]
      constructor
      · rintro ⟨c, v, hs, hc, -⟩
        rw [stands_slash_iff] at hc
        exact ⟨[], v, by rw [hs, hc, List.nil_append], rfl⟩
      · rintro ⟨u, v, hs, hu⟩
        rw [likeMatch_nil_iff] at hu
        rw [hu, List.nil_append] at hs
        exact ⟨'/', v, hs, (stands_slash_iff _).mpr rfl, likeMatch_prefix [] v⟩
  | cons p ps ih =>
      rw [List.cons_append]
      by_cases hp : p = '%'
      · subst hp
        rw [likeMatch_percent_iff]
        constructor
        · rintro ⟨w, t, hs, ht⟩
          obtain ⟨u, v, htail, hu⟩ := (ih t).mp ht
          refine ⟨w ++ u, v, by rw [hs, htail, List.append_assoc], ?_⟩
          exact (likeMatch_percent_iff ps _).mpr ⟨w, u, rfl, hu⟩
        · rintro ⟨u, v, hs, hu⟩
          obtain ⟨w, u', hsplit, hu'⟩ := (likeMatch_percent_iff ps u).mp hu
          refine ⟨w, u' ++ '/' :: v, by rw [hs, hsplit, List.append_assoc], ?_⟩
          exact (ih _).mpr ⟨u', v, rfl, hu'⟩
      · rw [likeMatch_cons_iff hp]
        constructor
        · rintro ⟨c, cs, hs, hc, hcs⟩
          obtain ⟨u, v, htail, hu⟩ := (ih cs).mp hcs
          refine ⟨c :: u, v, by rw [hs, htail, List.cons_append], ?_⟩
          exact (likeMatch_cons_iff hp ps _).mpr ⟨c, u, rfl, hc, hu⟩
        · rintro ⟨u, v, hs, hu⟩
          obtain ⟨c, cs, hsplit, hc, hcs⟩ := (likeMatch_cons_iff hp ps u).mp hu
          refine ⟨c, cs ++ '/' :: v, by rw [hs, hsplit, List.cons_append], hc, ?_⟩
          exact (ih _).mpr ⟨cs, v, rfl, hcs⟩

/-- What the statements select: the path itself, and what lies below a path
that it matches as a pattern. -/
theorem atOrUnder_iff (e : Entry) (p : String) :
    atOrUnder e p = true ↔ e.relativePath = p ∨
      ∃ q rest, e.relativePath = q ++ "/" ++ rest ∧ sqlLike q p = true := by
  have hpattern : (p ++ "/%").toList = p.toList ++ ['/', '%'] := by
    rw [String.toList_append]
    rfl
  unfold atOrUnder sqlLike
  rw [Bool.or_eq_true, beq_iff_eq, hpattern, likeMatch_below]
  apply or_congr_right
  constructor
  · rintro ⟨u, v, hs, hu⟩
    refine ⟨String.ofList u, String.ofList v, ?_, ?_⟩
    · apply String.toList_inj.mp
      simp [hs]
    · simpa using hu
  · rintro ⟨q, rest, hs, hq⟩
    refine ⟨q.toList, rest.toList, ?_, hq⟩
    rw [hs]
    simp

/-- The rows the statements select are those of the subtree, unless the path
has a lookalike. -/
theorem atOrUnder_eq_inSubtree_iff (e : Entry) (p : String) :
    atOrUnder e p = inSubtree p e.relativePath ↔
      NoLookalike p e.relativePath := by
  constructor
  · intro h q rest hbelow hlike
    rw [← h]
    exact (atOrUnder_iff e p).mpr (Or.inr ⟨q, rest, hbelow, hlike⟩)
  · intro h
    rw [Bool.eq_iff_iff]
    constructor
    · intro hunder
      rcases (atOrUnder_iff e p).mp hunder with hsame | ⟨q, rest, hbelow, hlike⟩
      · exact inSubtree_iff.mpr (Or.inl hsame)
      · exact h q rest hbelow hlike
    · intro hin
      exact atOrUnder_of_below (inSubtree_iff.mp hin)

/-! ## The marks -/

/-- Two selections of rows are marked alike exactly when they agree on the
live ones. -/
theorem markedRows_eq_iff (t : EntryTable) (sel sel' : Entry → Bool) :
    markedRows t sel = markedRows t sel' ↔
      ∀ e ∈ t.rows, e.deleted = false → sel e = sel' e := by
  unfold markedRows
  rw [List.map_inj_left]
  apply forall₂_congr
  intro e _
  constructor
  · intro h hlive
    have hne : { e with syncState := .deleted } ≠ e := by
      intro hsame
      have hstate := congrArg Entry.syncState hsame
      simp [Entry.deleted, ← hstate] at hlive
    by_contra hdiffer
    cases hsel : sel e with
    | false =>
        have hsel' : sel' e = true := by
          simpa [hsel] using hdiffer
        rw [if_neg (by simp [hsel]), if_pos hsel'] at h
        exact hne h.symm
    | true =>
        have hsel' : ¬sel' e = true := by
          intro hboth
          exact hdiffer (hsel.trans hboth.symm)
        rw [if_pos hsel, if_neg hsel'] at h
        exact hne h
  · intro h
    by_cases hlive : e.deleted = false
    · rw [h hlive]
    · have hstate : e.syncState = .deleted := by
        simpa [Entry.deleted] using hlive
      have hsame : { e with syncState := .deleted } = e := by
        rw [← hstate]
      rw [hsame]
      simp

theorem markPath_rows_iff (t : EntryTable) (root p : String) :
    (markPathDeleted t root p).rows = markedRows t (fun e =>
        e.syncRootId == root && inSubtree p e.relativePath) ↔
      ∀ e ∈ t.rows, e.syncRootId = root → e.deleted = false →
        NoLookalike p e.relativePath := by
  refine (markedRows_eq_iff t _ _).trans ?_
  apply forall₂_congr
  intro e _
  rw [← atOrUnder_eq_inSubtree_iff e p]
  by_cases hroot : e.syncRootId = root
  · by_cases hlive : e.deleted = false
    · simp [hroot, hlive]
    · simp [hlive]
  · simp [hroot, beq_false_of_ne hroot]

theorem markUnseen_rows_iff (t : EntryTable) (root p : String) (job : Nat) :
    (markSubtreeEntriesNotSeenInScanDeleted t root p job).rows =
        markedRows t (fun e => e.syncRootId == root &&
          inSubtree p e.relativePath && notSeenIn e job) ↔
      ∀ e ∈ t.rows, e.syncRootId = root → e.deleted = false →
        notSeenIn e job = true → NoLookalike p e.relativePath := by
  refine (markedRows_eq_iff t _ _).trans ?_
  apply forall₂_congr
  intro e _
  rw [← atOrUnder_eq_inSubtree_iff e p]
  by_cases hroot : e.syncRootId = root
  · by_cases hlive : e.deleted = false
    · by_cases hseen : notSeenIn e job = true
      · simp [hroot, hlive, hseen]
      · simp [hseen]
    · simp [hlive]
  · simp [hroot, beq_false_of_ne hroot]

/-- Subtree deletion marks exactly the subtree, and of it exactly the rows
without the stamp, where no live row lies below a lookalike of the path. -/
theorem marks_exactly_iff (t : EntryTable) (root p : String) (job : Nat) :
    ((markPathDeleted t root p).rows =
        markedRows t (fun e =>
          e.syncRootId == root && inSubtree p e.relativePath) ↔
      ∀ e ∈ t.rows, e.syncRootId = root → e.deleted = false →
        NoLookalike p e.relativePath) ∧
    ((markSubtreeEntriesNotSeenInScanDeleted t root p job).rows =
        markedRows t (fun e => e.syncRootId == root &&
          inSubtree p e.relativePath && notSeenIn e job) ↔
      ∀ e ∈ t.rows, e.syncRootId = root → e.deleted = false →
        notSeenIn e job = true → NoLookalike p e.relativePath) :=
  ⟨markPath_rows_iff t root p, markUnseen_rows_iff t root p job⟩

/-- The row of a file the scan has not seen. -/
def fileAt (root path : String) (job : Nat) : EntryTable :=
  upsertFileEntry KeyedTable.empty
    { syncRootId := root, relativePath := path, size := 1, mtime := 0
      contentHash := "h", syncState := .unchanged, lastSeenScanId := job }

/-- The removal of `docs` marks a file in `Docs`. -/
theorem not_marks_exactly :
    ¬∀ (t : EntryTable) (root p : String),
      (markPathDeleted t root p).rows = markedRows t (fun e =>
        e.syncRootId == root && inSubtree p e.relativePath) := by
  intro h
  have hmarks := h (fileAt "root" "Docs/a" 0) "root" "docs"
  have hdeleted : ((markPathDeleted (fileAt "root" "Docs/a" 0) "root"
      "docs").rows.map Entry.deleted) = [true] := by
    decide
  rw [hmarks] at hdeleted
  cases hdeleted

/-! ## Paths without lookalikes -/

/-- No character of the path stands for another one. -/
def Plain (p : String) : Prop :=
  ∀ c ∈ p.toList, c ≠ '%' ∧ c ≠ '_' ∧ c.isAlpha = false

theorem likeMatch_plain {ps s : List Char}
    (hplain : ∀ c ∈ ps, c ≠ '%' ∧ c ≠ '_' ∧ c.isAlpha = false)
    (h : likeMatch ps s = true) : s = ps := by
  induction ps generalizing s with
  | nil => exact (likeMatch_nil_iff s).mp h
  | cons p ps ih =>
      obtain ⟨hpercent, hone, hletter⟩ := hplain p List.mem_cons_self
      obtain ⟨c, cs, rfl, hc, hcs⟩ := (likeMatch_cons_iff hpercent ps s).mp h
      have hsame : p = c := by
        unfold stands at hc
        rw [Bool.or_eq_true, beq_iff_eq] at hc
        rcases hc with hc | hc
        · exact absurd (of_decide_eq_true hc) hone
        · exact eq_of_foldAscii hletter hc
      rw [hsame, ih (fun c hc => hplain c (List.mem_cons_of_mem _ hc)) hcs]

/-- In front of equal characters a match stays one. -/
theorem likeMatch_append_left (w : List Char) {ps s : List Char}
    (h : likeMatch ps s = true) : likeMatch (w ++ ps) (w ++ s) = true := by
  induction w with
  | nil => exact h
  | cons c w ih =>
      by_cases hc : c = '%'
      · subst hc
        exact (likeMatch_percent_iff _ _).mpr ⟨['%'], w ++ s, rfl, ih⟩
      · refine (likeMatch_cons_iff hc _ _).mpr ⟨c, w ++ s, rfl, ?_, ih⟩
        simp [stands]

theorem likeMatch_self (s : List Char) : likeMatch s s = true := by
  have h : likeMatch (s ++ []) (s ++ []) = true := likeMatch_append_left s rfl
  rwa [List.append_nil] at h

/-- A wildcard and a letter stand for another character. -/
theorem exists_other {c : Char}
    (hc : ¬(c ≠ '%' ∧ c ≠ '_' ∧ c.isAlpha = false)) :
    ∃ d, d ≠ c ∧ ∀ v, likeMatch (c :: v) (d :: v) = true := by
  by_cases hpercent : c = '%'
  · subst hpercent
    exact ⟨'x', by decide, fun v => (likeMatch_percent_iff v _).mpr
      ⟨['x'], v, rfl, likeMatch_self v⟩⟩
  · suffices h : ∃ d, d ≠ c ∧ stands c d = true by
      obtain ⟨d, hne, hd⟩ := h
      exact ⟨d, hne, fun v => (likeMatch_cons_iff hpercent v _).mpr
        ⟨d, v, rfl, hd, likeMatch_self v⟩⟩
    by_cases hone : c = '_'
    · subst hone
      exact ⟨'x', by decide, rfl⟩
    · have hletter : c.isAlpha = true := by
        by_contra h
        exact hc ⟨hpercent, hone, by simpa using h⟩
      by_cases hcapital : 'A' ≤ c ∧ c ≤ 'Z'
      · obtain ⟨-, hne, hfold⟩ := foldAscii_capital hcapital.1 hcapital.2
        refine ⟨foldAscii c, hne, ?_⟩
        simp [stands, hfold]
      · -- a small letter, of which the capital is the lookalike
        have hlower : 97 ≤ c.toNat ∧ c.toNat ≤ 122 := by
          have hsmall : c.isLower = true := by
            rcases (isAlpha_iff c).mp hletter with hupper | hlower
            · exact absurd ((isUpper_iff c).mp hupper) hcapital
            · exact hlower
          exact (isLower_iff c).mp hsmall
        have hall : ∀ n, n ≤ 122 → 97 ≤ n →
            Char.ofNat (n - 32) ≠ Char.ofNat n ∧
              stands (Char.ofNat n) (Char.ofNat (n - 32)) = true := by
          decide
        have hother := hall c.toNat hlower.2 hlower.1
        rw [Char.ofNat_toNat] at hother
        exact ⟨Char.ofNat (c.toNat - 32), hother⟩

/-- A file below a lookalike is not below the path. -/
theorem exists_lookalike {p : String} (hp : ¬Plain p) :
    ∃ path, ¬NoLookalike p path := by
  unfold Plain at hp
  simp only [not_forall] at hp
  obtain ⟨c, hmem, hc⟩ := hp
  obtain ⟨u, v, hsplit⟩ := List.append_of_mem hmem
  obtain ⟨d, hne, hmatch⟩ := exists_other hc
  refine ⟨String.ofList (u ++ d :: v) ++ "/" ++ "x", ?_⟩
  intro hnone
  have hlike : sqlLike (String.ofList (u ++ d :: v)) p = true := by
    unfold sqlLike
    rw [hsplit, String.toList_ofList]
    exact likeMatch_append_left u (hmatch v)
  rcases inSubtree_iff.mp (hnone _ "x" rfl hlike) with hsame | ⟨rest, hbelow⟩
  · have hlength := congrArg (fun s => s.toList.length) hsame
    simp [hsplit] at hlength
  · have hlists := congrArg String.toList hbelow
    simp only [String.toList_append, String.toList_ofList, hsplit,
      List.append_assoc] at hlists
    have hrest := List.append_cancel_left hlists
    rw [List.cons_append, List.cons_append, List.cons.injEq] at hrest
    exact hne hrest.1

/-- A path of which the statements mark the subtree in every table is one
without letters and wildcards. -/
theorem marks_always_iff (p : String) :
    (∀ (t : EntryTable) (root : String), (markPathDeleted t root p).rows =
      markedRows t (fun e =>
        e.syncRootId == root && inSubtree p e.relativePath)) ↔ Plain p := by
  constructor
  · intro h
    by_contra hp
    obtain ⟨path, hlookalike⟩ := exists_lookalike hp
    apply hlookalike
    have hmarks := (markPath_rows_iff (fileAt "root" path 0) "root" p).mp
      (h _ "root")
    exact hmarks _ (List.mem_singleton.mpr rfl) rfl rfl
  · intro hp t root
    rw [markPath_rows_iff]
    intro e _ _ _ q rest hbelow hlike
    have hsame : q = p := String.toList_inj.mp (likeMatch_plain hp hlike)
    rw [hsame] at hbelow
    exact inSubtree_iff.mpr (Or.inr ⟨rest, hbelow⟩)

end ArkiveSync.SubtreeMarks
