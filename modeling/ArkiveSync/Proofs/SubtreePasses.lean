import ArkiveSync.Proofs.ScanResume

/-!
# The passes of a subtree scan

`scanSubtree` writes a subtree in batches.  For each batch it makes a new
iterator and looks for the cursor: the relative path of the last row it wrote.
The relative path of a link is that of what it resolves to, so a link may be
taken for an entry behind it, and the new pass then begins behind the link.

The subtree stays as it is: every iterator yields the same items.

## Main results

* `batchEnd_cases`: where a batch ends.
* `Begins.of_run`: where the passes of a call begin depends on the items alone.
* `advances_iff`: each pass gets further than the last, and the call ends, if
  and only if fewer items than a batch takes lie between the first item with
  the text of a cursor and the end of the batch that stored it.
-/

namespace ArkiveSync.SubtreePasses

open Library RootScanner

/-! ## Where a batch ends -/

/-- `handleFileEntry` does not refuse the file. -/
def isAccepted (probe : FileProbe) : Bool :=
  match probe.size, probe.mtime with
  | some fileSize, some _ => decide (fileSize ≤ int64Max)
  | _, _ => false

/-- The item gets a row, unless hashing it throws. -/
def isScanned (item : DirItem) : Bool :=
  match item.relative, item.kind with
  | some _, some .directory => true
  | some _, some (.regularFile probe) => isAccepted probe
  | _, _ => false

/-- The number of items that get a row. -/
def scanCount (items : List DirItem) : Nat := items.countP isScanned

/-- What a batch leaves as the last cursor, and as the rest. -/
def batchEnd : List DirItem → Nat → Option String →
    Option String × List DirItem
  | [], _, last => (last, [])
  | item :: items, 0, last => (last, item :: items)
  | item :: items, budget + 1, last =>
      if isScanned item then batchEnd items budget item.relative
      else batchEnd items (budget + 1) last

/-- A batch either takes all items, or stops behind the one that used up its
budget. -/
theorem batchEnd_cases (items : List DirItem) (budget : Nat)
    (last : Option String) :
    ∃ front, items = front ++ (batchEnd items budget last).2 ∧
      ((batchEnd items budget last).2 = [] ∧ scanCount front < budget ∨
        scanCount front = budget ∧
          (budget = 0 ∨ ∃ before item, front = before ++ [item] ∧
            isScanned item = true ∧
            (batchEnd items budget last).1 = item.relative)) := by
  induction items generalizing budget last with
  | nil =>
      refine ⟨[], rfl, ?_⟩
      cases budget with
      | zero => exact Or.inr ⟨rfl, Or.inl rfl⟩
      | succ budget =>
          exact Or.inl ⟨rfl, by rw [scanCount, List.countP_nil]; omega⟩
  | cons item items ih =>
      cases budget with
      | zero => exact ⟨[], rfl, Or.inr ⟨rfl, Or.inl rfl⟩⟩
      | succ budget =>
          by_cases hitem : isScanned item = true
          · obtain ⟨front, hfront, hcases⟩ := ih budget item.relative
            have hend : batchEnd (item :: items) (budget + 1) last =
                batchEnd items budget item.relative := by
              rw [batchEnd, if_pos hitem]
            have hcount : scanCount (item :: front) = scanCount front + 1 := by
              simp [scanCount, hitem]
            rw [hend]
            refine ⟨item :: front, by rw [List.cons_append, ← hfront], ?_⟩
            rw [hcount]
            rcases hcases with ⟨hrest, hless⟩ | ⟨hfull, hlast⟩
            · exact Or.inl ⟨hrest, by omega⟩
            · refine Or.inr ⟨by omega, Or.inr ?_⟩
              rcases hlast with hzero | ⟨before, x, hx, hscanned, htext⟩
              · -- the budget was one, and this item used it up
                subst hzero
                have hfirst : (batchEnd items 0 item.relative).1 =
                    item.relative := by cases items <;> rfl
                have hnone : front = [] := by
                  have hrest : (batchEnd items 0 item.relative).2 = items := by
                    cases items <;> rfl
                  rw [hrest] at hfront
                  simpa using hfront.symm
                exact ⟨[], item, by rw [hnone]; rfl, hitem, hfirst⟩
              · exact ⟨item :: before, x, by rw [hx]; rfl, hscanned, htext⟩
          · obtain ⟨front, hfront, hcases⟩ := ih (budget + 1) last
            have hend : batchEnd (item :: items) (budget + 1) last =
                batchEnd items (budget + 1) last := by
              rw [batchEnd, if_neg hitem]
            have hcount : scanCount (item :: front) = scanCount front := by
              simp [scanCount, hitem]
            rw [hend]
            refine ⟨item :: front, by rw [List.cons_append, ← hfront], ?_⟩
            rw [hcount]
            rcases hcases with hshort | ⟨hfull, hlast⟩
            · exact Or.inl hshort
            · refine Or.inr ⟨hfull, Or.inr ?_⟩
              rcases hlast with hzero | ⟨before, x, hx, hscanned, htext⟩
              · omega
              · exact ⟨item :: before, x, by rw [hx]; rfl, hscanned, htext⟩

/-- A batch that leaves items has written as many rows as it may. -/
theorem batchEnd_full {items rest : List DirItem} {last : Option String}
    (h : batchEnd items kMaxScanBatchSize none = (last, rest))
    (hrest : rest ≠ []) :
    ∃ before item, items = before ++ item :: rest ∧ isScanned item = true ∧
      last = item.relative ∧
      scanCount items = kMaxScanBatchSize + scanCount rest := by
  have hsize : kMaxScanBatchSize = 500 := rfl
  obtain ⟨front, hfront, hcases⟩ :=
    batchEnd_cases items kMaxScanBatchSize none
  rw [h] at hfront hcases
  rcases hcases with ⟨hempty, _⟩ | ⟨hfull, hlast⟩
  · exact absurd hempty hrest
  · rcases hlast with hzero | ⟨before, item, hitem, hscanned, htext⟩
    · omega
    · refine ⟨before, item, ?_, hscanned, htext, ?_⟩
      · rw [hfront, hitem]
        simp
      · rw [hfront, scanCount, List.countP_append]
        exact congrArg (· + scanCount rest) hfull

theorem isScanned_relative {item : DirItem} (h : isScanned item = true) :
    ∃ rel, item.relative = some rel := by
  unfold isScanned at h
  cases hrel : item.relative with
  | none =>
      rw [hrel] at h
      cases h
  | some rel => exact ⟨rel, rfl⟩

/-- A batch over items that all get a row. -/
theorem batchEnd_append {items : List DirItem}
    (h : ∀ item ∈ items, isScanned item = true) {item : DirItem}
    (hitem : isScanned item = true) (rest : List DirItem)
    (last : Option String) :
    batchEnd (items ++ item :: rest) (items.length + 1) last =
      (item.relative, rest) := by
  induction items generalizing last with
  | nil =>
      rw [List.nil_append, List.length_nil, batchEnd, if_pos hitem]
      cases rest <;> rfl
  | cons first items ih =>
      rw [List.cons_append, List.length_cons, batchEnd,
        if_pos (h first (by simp))]
      exact ih (fun i hi => h i (by simp [hi])) _

/-! ## Batches of the scanner -/

/-- A row with a size has a hash. -/
def Hashed (t : EntryTable) : Prop :=
  ∀ e ∈ t.rows, e.size.isSome = true → e.contentHash.isSome = true

/-- Every regular file can be read. -/
def Readable (items : List DirItem) : Prop :=
  ∀ item ∈ items, ∀ probe, item.kind = some (.regularFile probe) →
    probe.hash.isSome = true

theorem Hashed.upsertDirectory {t : EntryTable} (h : Hashed t)
    (u : DirectoryEntryUpsert) :
    Hashed (LocalEntryRepo.upsertDirectoryEntry t u) := by
  intro e he
  rcases (t.mem_upsert _ _ _ _ _ _ _ e).mp he with rfl | ⟨hold, _⟩
  · cases hfound : t.lookup (u.syncRootId, u.relativePath) with
    | none =>
        rw [KeyedTable.upserted_of_none hfound]
        simp [LocalEntryRepo.newDirectory]
    | some old =>
        rw [KeyedTable.upserted_of_some hfound]
        exact h old (KeyedTable.mem_of_lookup hfound)
  · exact h e hold

theorem Hashed.upsertFile {t : EntryTable} (h : Hashed t)
    (u : FileEntryUpsert) : Hashed (LocalEntryRepo.upsertFileEntry t u) := by
  intro e he
  rcases (t.mem_upsert _ _ _ _ _ _ _ e).mp he with rfl | ⟨hold, _⟩
  · cases hfound : t.lookup (u.syncRootId, u.relativePath) with
    | none =>
        rw [KeyedTable.upserted_of_none hfound]
        simp [LocalEntryRepo.newFile]
    | some old =>
        rw [KeyedTable.upserted_of_some hfound]
        simp [LocalEntryRepo.updateFile]
  · exact h e hold

/-- Hashing a readable file over a table of hashed rows does not throw. -/
theorem handleFileEntry_hashed {t : EntryTable} (ht : Hashed t)
    (syncRootId rel : String) (jobId : Nat) {probe : FileProbe}
    (hprobe : probe.hash.isSome = true) :
    handleFileEntry t syncRootId jobId rel probe ≠ .threw := by
  obtain ⟨hash, hhash⟩ := Option.isSome_iff_exists.mp hprobe
  unfold handleFileEntry
  split
  next size mtime hsize hmtime =>
      split
      · simp
      · simp only
        split
        next hnone =>
            exfalso
            split at hnone
            · rw [hhash] at hnone
              cases hnone
            next hlooks =>
                -- the row looks recorded, so it has a size and hence a hash
                cases hrow : EntryRepo.findEntryByPath t syncRootId rel with
                | none => simp [hrow, looksRecorded] at hlooks
                | some e =>
                    have hmem := KeyedTable.mem_of_lookup hrow
                    have hrowSize : e.size.isSome = true := by
                      simp only [hrow, looksRecorded, Bool.not_eq_true',
                        Bool.not_eq_false, Bool.and_eq_true, beq_iff_eq]
                        at hlooks
                      simp [hlooks.1.2]
                    have hrowHash := ht e hmem hrowSize
                    rw [hrow] at hnone
                    simp only [Option.bind_some] at hnone
                    rw [hnone] at hrowHash
                    cases hrowHash
        · simp
  · simp

theorem isAccepted_of_stored {t t' : EntryTable} {syncRootId rel : String}
    {jobId : Nat} {probe : FileProbe}
    (h : handleFileEntry t syncRootId jobId rel probe = .stored t') :
    isAccepted probe = true := by
  obtain ⟨size, mtime, _, _, hsize, hmtime, hfits, _⟩ :=
    handleFileEntry_stored h
  simp [isAccepted, hsize, hmtime, hfits]

theorem isAccepted_of_skipped {t : EntryTable} {syncRootId rel : String}
    {jobId : Nat} {probe : FileProbe}
    (h : handleFileEntry t syncRootId jobId rel probe = .skipped) :
    isAccepted probe = false := by
  unfold isAccepted
  unfold handleFileEntry at h
  cases hsize : probe.size with
  | none => rfl
  | some size =>
      cases hmtime : probe.mtime with
      | none => rfl
      | some mtime =>
          simp only [hsize, hmtime] at h
          split at h
          next hbig => simpa using hbig
          next =>
              split at h
              · cases h
              · cases h

/-- Neither a directory nor a file gets no row. -/
theorem isScanned_of_other {item : DirItem}
    (hdirectory : ∀ rel, item.relative = some rel →
      item.kind ≠ some .directory)
    (hfile : ∀ rel probe, item.relative = some rel →
      item.kind ≠ some (.regularFile probe)) : isScanned item = false := by
  unfold isScanned
  split
  next rel hrel hkind => exact absurd hkind (hdirectory rel hrel)
  next rel probe hrel hkind => exact absurd hkind (hfile rel probe hrel)
  next => rfl

/-- The scanner's batch ends where `batchEnd` says. -/
theorem scanItems_batchEnd {syncRootId : String} {jobId : Nat}
    {items : List DirItem} {budget : Nat} {t : EntryTable}
    {last : Option String} {batch : Batch}
    (h : scanItems syncRootId jobId items budget t last = some batch) :
    batchEnd items budget last = (batch.lastCursor, batch.rest) := by
  induction items generalizing budget t last with
  | nil =>
      cases h
      rfl
  | cons item items ih =>
      cases budget with
      | zero =>
          cases h
          rfl
      | succ budget =>
          unfold scanItems at h
          rw [batchEnd]
          split at h
          next rel hrel hkind =>
              have hscanned : isScanned item = true := by
                simp [isScanned, hrel, hkind]
              rw [if_pos hscanned, hrel]
              exact ih h
          next rel probe hrel hkind =>
              have hsame : isScanned item = isAccepted probe := by
                simp [isScanned, hrel, hkind]
              split at h
              next => cases h
              next hskipped =>
                  have hnot := hsame.trans (isAccepted_of_skipped hskipped)
                  rw [if_neg (by rw [hnot]; simp)]
                  exact ih h
              next t' hstored =>
                  rw [if_pos (hsame.trans (isAccepted_of_stored hstored)), hrel]
                  exact ih h
          next hdirectory hfile =>
              have hnot := isScanned_of_other hdirectory hfile
              rw [if_neg (by rw [hnot]; simp)]
              exact ih h

/-- Over readable items and hashed rows a batch does not throw. -/
theorem scanItems_hashed (syncRootId : String) (jobId : Nat)
    {items : List DirItem} (hitems : Readable items) (budget : Nat)
    (last : Option String) {t : EntryTable} (ht : Hashed t) :
    ∃ batch, scanItems syncRootId jobId items budget t last = some batch ∧
      Hashed batch.entries := by
  induction items generalizing budget t last with
  | nil => exact ⟨_, rfl, ht⟩
  | cons item items ih =>
      have hrest : Readable items :=
        fun i hi => hitems i (List.mem_cons_of_mem _ hi)
      cases budget with
      | zero => exact ⟨_, rfl, ht⟩
      | succ budget =>
          unfold scanItems
          split
          next => exact ih hrest _ _ (ht.upsertDirectory _)
          next rel probe hrel hkind =>
              have hprobe := hitems item List.mem_cons_self probe hkind
              split
              next hthrew =>
                  exact absurd hthrew (handleFileEntry_hashed ht _ _ _ hprobe)
              next => exact ih hrest _ _ ht
              next t' hstored =>
                  obtain ⟨_, _, _, _, _, _, _, _, _, _, rfl⟩ :=
                    handleFileEntry_stored hstored
                  exact ih hrest _ _ (ht.upsertFile _)
          next => exact ih hrest _ _ ht

/-! ## Passes -/

/-- The loop of `scanSubtree` between two passes: the cursor, the rows, and
what lay behind the end of the last batch. -/
structure PassState where
  cursor : Option String
  entries : EntryTable
  rest : List DirItem

section Passes

variable (syncRootId relativePath : String) (jobId : Nat)
  (listing : DirStream)

/-- One pass that does not reach the end. -/
inductive Pass : PassState → PassState → Prop where
  | store (s : PassState) (items : List DirItem) (batch : Batch)
      (last : String)
      (hitems : positionAfterCursor s.cursor listing = some items)
      (hbatch : scanItems syncRootId jobId items kMaxScanBatchSize s.entries
        none = some batch)
      (hrest : batch.rest ≠ [])
      (hlast : batch.lastCursor = some last) :
      Pass s
        { cursor := some last, entries := batch.entries, rest := batch.rest }

/-- Before the first pass. -/
def firstState (t : EntryTable) : PassState :=
  { cursor := none
    entries := LocalEntryRepo.upsertDirectoryEntry t
      { syncRootId := syncRootId
        relativePath := relativePath
        lastSeenScanId := jobId }
    rest := listing.items }

/-- The call ends, and each pass that does not reach the end stores a cursor
behind the last one. -/
structure Advances (t : EntryTable) : Prop where
  ends : ∃ n, (scanSubtree syncRootId relativePath jobId
    (List.replicate n (some listing)) t).2 ≠ .unfinished
  later : ∀ s s',
    Run (Pass syncRootId jobId listing)
      (firstState syncRootId relativePath jobId listing t) s →
    Pass syncRootId jobId listing s s' → s'.rest.length < s.rest.length

/-- The items at which passes begin, read off the items alone. -/
inductive Begins : List DirItem → Prop where
  | first : Begins listing.items
  | next (start rest start' : List DirItem) (c : String)
      (hstart : Begins start)
      (hbatch : batchEnd start kMaxScanBatchSize none = (some c, rest))
      (hrest : rest ≠ [])
      (hstart' : positionAfterCursor (some c) listing = some start') :
      Begins start'

/-- Where a batch stores a cursor, fewer items than a batch takes lie from
behind the first item with the text of the cursor to the end of the batch. -/
def CursorsNear : Prop :=
  ∀ start rest start' c, Begins listing start →
    batchEnd start kMaxScanBatchSize none = (some c, rest) → rest ≠ [] →
    positionAfterCursor (some c) listing = some start' →
    scanCount start' < scanCount rest + kMaxScanBatchSize

end Passes

variable {syncRootId relativePath : String} {jobId : Nat}
  {listing : DirStream}

theorem Begins.suffix {start : List DirItem} (h : Begins listing start) :
    start <:+ listing.items := by
  cases h with
  | first => exact List.suffix_refl _
  | next _ _ _ _ _ _ _ hstart' => exact positionAfterCursor_suffix hstart'

/-- Of two ends of one list, the one with fewer rows to write is shorter. -/
theorem length_lt_of_scanCount {l a b : List DirItem} (ha : a <:+ l)
    (hb : b <:+ l) (h : scanCount a < scanCount b) : a.length < b.length := by
  by_contra hle
  have hsuffix := List.suffix_of_suffix_length_le hb ha (by omega)
  have hcount := hsuffix.sublist.countP_le (p := isScanned)
  unfold scanCount at h
  omega

/-- Where a pass begins that a run comes to, and what the run has left there:
before the first pass all items, later the rest of a batch. -/
theorem Begins.of_run {t : EntryTable} {s : PassState}
    (h : Run (Pass syncRootId jobId listing)
      (firstState syncRootId relativePath jobId listing t) s) :
    s.rest <:+ listing.items ∧
    ∀ items, positionAfterCursor s.cursor listing = some items →
      Begins listing items ∧
      (CursorsNear listing →
        scanCount items < scanCount s.rest + kMaxScanBatchSize) := by
  have hsize : kMaxScanBatchSize = 500 := rfl
  induction h with
  | refl =>
      refine ⟨List.suffix_refl _, ?_⟩
      intro items hitems
      cases hitems
      refine ⟨.first, fun _ => ?_⟩
      show scanCount listing.items < scanCount listing.items + _
      omega
  | tail _ hpass ih =>
      obtain ⟨items, batch, last, hitems, hbatch, hrest, hlast⟩ := hpass
      obtain ⟨hbegins, _⟩ := ih.2 items hitems
      have hend := scanItems_batchEnd hbatch
      rw [hlast] at hend
      refine ⟨(scanItems_rest hbatch).trans hbegins.suffix, ?_⟩
      intro items' hitems'
      exact ⟨.next items batch.rest items' last hbegins hend hrest hitems',
        fun hnear => hnear items batch.rest items' last hbegins hend hrest
          hitems'⟩

/-- A pass gets further when the cursors are near. -/
theorem later_of_near (hnear : CursorsNear listing) {t : EntryTable}
    {s s' : PassState}
    (hrun : Run (Pass syncRootId jobId listing)
      (firstState syncRootId relativePath jobId listing t) s)
    (hpass : Pass syncRootId jobId listing s s') :
    s'.rest.length < s.rest.length := by
  obtain ⟨hsuffix, hbegins⟩ := Begins.of_run hrun
  obtain ⟨items, batch, last, hitems, hbatch, hrest, hlast⟩ := hpass
  obtain ⟨hstart, hcount⟩ := hbegins items hitems
  obtain ⟨_, _, _, _, _, hfull⟩ :=
    batchEnd_full (scanItems_batchEnd hbatch) hrest
  have hless := hcount hnear
  apply length_lt_of_scanCount ((scanItems_rest hbatch).trans hstart.suffix)
    hsuffix
  show scanCount batch.rest < scanCount s.rest
  omega

/-- A call all of whose passes get further comes to its end. -/
theorem ends_of_later {t : EntryTable}
    (hlater : ∀ s s',
      Run (Pass syncRootId jobId listing)
        (firstState syncRootId relativePath jobId listing t) s →
      Pass syncRootId jobId listing s s' → s'.rest.length < s.rest.length) :
    ∃ n, (scanSubtree syncRootId relativePath jobId
      (List.replicate n (some listing)) t).2 ≠ .unfinished := by
  have hends : ∀ m s, s.rest.length = m →
      Run (Pass syncRootId jobId listing)
        (firstState syncRootId relativePath jobId listing t) s →
      ∃ n, (subtreeRounds syncRootId relativePath jobId
        (List.replicate n (some listing)) s.cursor s.entries).2 ≠
          .unfinished := by
    intro m
    induction m using Nat.strong_induction_on with
    | _ m ih =>
        intro s hs hrun
        by_cases hpass : ∃ s', Pass syncRootId jobId listing s s'
        · obtain ⟨s', hpass⟩ := hpass
          have hless := hlater s s' hrun hpass
          obtain ⟨n, hn⟩ := ih s'.rest.length (by omega) s' rfl
            (hrun.tail hpass)
          refine ⟨n + 1, ?_⟩
          obtain ⟨items, batch, last, hitems, hbatch, hrest, hlast⟩ := hpass
          rw [List.replicate_succ, subtreeRounds, hitems]
          simp only [hbatch, List.isEmpty_iff, if_neg hrest, hlast]
          exact hn
        · refine ⟨1, ?_⟩
          rw [List.replicate_one, subtreeRounds]
          split
          · simp
          next items hitems =>
              split
              · simp
              next batch hbatch =>
                  split
                  · split <;> simp
                  next hrest =>
                      split
                      · simp
                      next last hlast =>
                          exact absurd ⟨_, .store s items batch last hitems
                            hbatch (by simpa using hrest) hlast⟩ hpass
  exact hends _ _ rfl .refl

/-! ## Calls that nothing stops -/

variable (listing) in
/-- Over readable items and hashed rows every batch with an end becomes a
pass. -/
theorem exists_pass (syncRootId : String) (jobId : Nat)
    (hread : Readable listing.items) {s : PassState}
    (hs : Hashed s.entries) {items rest : List DirItem} {c : String}
    (hitems : positionAfterCursor s.cursor listing = some items)
    (hend : batchEnd items kMaxScanBatchSize none = (some c, rest))
    (hrest : rest ≠ []) :
    ∃ s', Pass syncRootId jobId listing s s' ∧ s'.cursor = some c ∧
      s'.rest = rest ∧ Hashed s'.entries := by
  have hreadItems : Readable items := fun i hi =>
    hread i ((positionAfterCursor_suffix hitems).subset hi)
  obtain ⟨batch, hbatch, hhashed⟩ :=
    scanItems_hashed syncRootId jobId hreadItems kMaxScanBatchSize none hs
  have hsame := scanItems_batchEnd hbatch
  rw [hend] at hsame
  have hlast : batch.lastCursor = some c := (congrArg Prod.fst hsame).symm
  have hleft : batch.rest = rest := (congrArg Prod.snd hsame).symm
  refine ⟨_, .store s items batch c hitems hbatch (by rwa [hleft]) hlast, rfl,
    hleft, hhashed⟩

/-- Over readable items a call comes to every place where a pass begins. -/
theorem exists_run (syncRootId relativePath : String) (jobId : Nat)
    (hread : Readable listing.items) {t : EntryTable}
    (ht : Hashed t) {start : List DirItem} (h : Begins listing start) :
    ∃ s, Run (Pass syncRootId jobId listing)
        (firstState syncRootId relativePath jobId listing t) s ∧
      positionAfterCursor s.cursor listing = some start ∧ Hashed s.entries := by
  induction h with
  | first => exact ⟨_, .refl, rfl, ht.upsertDirectory _⟩
  | next start rest start' c hstart hbatch hrest hstart' ih =>
      obtain ⟨s, hrun, hposition, hhashed⟩ := ih
      obtain ⟨s', hpass, hcursor, _, hhashed'⟩ :=
        exists_pass listing syncRootId jobId hread hhashed hposition hbatch hrest
      exact ⟨s', hrun.tail hpass, by rwa [hcursor], hhashed'⟩

/-- A batch over enough items ends no later than `rest` begins. -/
theorem batchEnd_before {l start rest : List DirItem}
    (hstart : start <:+ l) (hrest : rest <:+ l) (hne : rest ≠ [])
    (hcount : scanCount rest + kMaxScanBatchSize ≤ scanCount start) :
    ∃ c rest', batchEnd start kMaxScanBatchSize none = (some c, rest') ∧
      rest' ≠ [] ∧ rest.length ≤ rest'.length := by
  have hsize : kMaxScanBatchSize = 500 := rfl
  obtain ⟨front, hfront, hcases⟩ := batchEnd_cases start kMaxScanBatchSize none
  generalize hend : batchEnd start kMaxScanBatchSize none = result
    at hfront hcases
  obtain ⟨last, rest'⟩ := result
  simp only at hfront hcases
  have hsplit : scanCount start = scanCount front + scanCount rest' := by
    rw [hfront, scanCount, List.countP_append]
    rfl
  rcases hcases with ⟨hempty, hless⟩ |
    ⟨hfull, hzero | ⟨before, x, hx, hscanned, hlast⟩⟩
  · have hnone : scanCount rest' = 0 := by rw [hempty]; rfl
    omega
  · omega
  · obtain ⟨c, hc⟩ := isScanned_relative hscanned
    have hlong : rest.length ≤ rest'.length := by
      by_contra hshort
      -- the item that ended the batch would be one of `rest`
      have hlast : x :: rest' <:+ l := by
        refine List.IsSuffix.trans ⟨before, ?_⟩ hstart
        rw [hfront, hx]
        simp
      have hinside := List.suffix_of_suffix_length_le hlast hrest
        (by rw [List.length_cons]; omega)
      have hmore := hinside.sublist.countP_le (p := isScanned)
      rw [List.countP_cons_of_pos hscanned] at hmore
      unfold scanCount at hcount hsplit hfull
      omega
    refine ⟨c, rest', by rw [hlast, hc], ?_, hlong⟩
    intro hempty
    rw [hempty, List.length_nil] at hlong
    exact hne (List.length_eq_zero_iff.mp (by omega))

/-- When every pass gets further, the cursors are near. -/
theorem near_of_later (hread : Readable listing.items)
    (hlater : ∀ s s',
      Run (Pass syncRootId jobId listing)
        (firstState syncRootId relativePath jobId listing KeyedTable.empty) s →
      Pass syncRootId jobId listing s s' → s'.rest.length < s.rest.length) :
    CursorsNear listing := by
  intro start rest start' c hstart hbatch hrest hstart'
  by_contra hfar
  have hempty : Hashed KeyedTable.empty := by
    intro e he
    cases he
  obtain ⟨s, hrun, hposition, hhashed⟩ :=
    exists_run syncRootId relativePath jobId hread hempty hstart
  obtain ⟨s₁, hpass₁, hcursor₁, hrest₁, hhashed₁⟩ :=
    exists_pass listing syncRootId jobId hread hhashed hposition hbatch hrest
  have hsuffix : rest <:+ listing.items := by
    rw [← hrest₁]
    exact (Begins.of_run (hrun.tail hpass₁)).1
  obtain ⟨c', rest', hbatch', hrest', hlong⟩ :=
    batchEnd_before (positionAfterCursor_suffix hstart') hsuffix hrest
      (by omega)
  obtain ⟨s₂, hpass₂, _, hrest₂, _⟩ :=
    exists_pass listing syncRootId jobId hread hhashed₁ (by rwa [hcursor₁]) hbatch'
      hrest'
  have hless := hlater s₁ s₂ (hrun.tail hpass₁) hpass₂
  rw [hrest₁, hrest₂] at hless
  omega

/-- If the cursors of the items are near, every call over them ends, each of
its passes behind the last; and if the files can be read, only then. -/
theorem advances_iff (listing : DirStream) :
    (CursorsNear listing → ∀ syncRootId relativePath jobId t,
      Advances syncRootId relativePath jobId listing t) ∧
    (Readable listing.items →
      (∀ syncRootId relativePath jobId t,
        Advances syncRootId relativePath jobId listing t) →
      CursorsNear listing) := by
  constructor
  · intro hnear syncRootId relativePath jobId t
    have hlater : ∀ s s',
        Run (Pass syncRootId jobId listing)
          (firstState syncRootId relativePath jobId listing t) s →
        Pass syncRootId jobId listing s s' → s'.rest.length < s.rest.length :=
      fun s s' hrun hpass => later_of_near hnear hrun hpass
    exact { ends := ends_of_later hlater, later := hlater }
  · intro hread hadvances
    exact near_of_later hread (hadvances "" "" 0 KeyedTable.empty).later

/-! ## A link in front of its file -/

namespace LinkedFile

open LocalTree ScanMirror ScanResume.DeletedFile

/-- The path of a file in the directory `d`. -/
def pathOf (i : Nat) : String := FsPath.relativeText ["d", fileName i]

/-- The number of the file that ends the first batch. -/
def lastFile : Nat := kMaxScanBatchSize - 1

/-- A directory that lists a link to that file, and then files. -/
def linkAnd (is : List Nat) : Forest LocalLeaf :=
  .leaf "l" (.symlink (some (pathOf lastFile))) (files is)

theorem link_distinct {is : List Nat} (hlt : ∀ i ∈ is, i < 512) :
    "l" ∉ (files is).names := by
  rw [names_files]
  intro hmem
  obtain ⟨i, hi, hname⟩ := List.mem_map.mp hmem
  have hchars : Char.ofNat (256 + i) = 'l' := by
    have hlists := congrArg String.toList hname
    simpa [fileName] using hlists
  have hvalues := congrArg Char.toNat hchars
  rw [toNat_fileName (hlt i hi)] at hvalues
  change 256 + i = 108 at hvalues
  omega

/-- The tree of that directory. -/
def linkTree (is : List Nat) (hnodup : is.Nodup) (hlt : ∀ i ∈ is, i < 512) :
    LocalTree where
  forest := .directory "d" (linkAnd is) .empty
  distinct := ⟨by simp [Forest.names],
    ⟨link_distinct hlt, files_distinct hnodup hlt⟩, trivial⟩
  plain := ⟨by decide, ⟨by decide, files_plain hlt⟩, trivial⟩

/-- One file more than a batch takes. -/
def numbers : List Nat := List.range (kMaxScanBatchSize + 1)

def tree : LocalTree :=
  linkTree numbers nodup_numbers lt_of_mem_range

/-- What the iterators yield for the link. -/
def link : DirItem :=
  { relative := some (pathOf lastFile), kind := some .symlink }

/-- What they yield for a file. -/
def fileItem (i : Nat) : DirItem :=
  scannedItem (pathOf i) (.file SmallScan.file)

/-- What they yield for the files. -/
def fileItems : List DirItem :=
  (List.range lastFile).map fileItem ++
    [fileItem lastFile, fileItem kMaxScanBatchSize]

def walk : DirStream :=
  { items := itemsAt ["d"] (linkAnd numbers), failed := false }

theorem items_below (is : List Nat) :
    itemsAt ["d"] (files is) = is.map fileItem := by
  induction is with
  | nil => rfl
  | cons i is ih =>
      rw [List.map_cons, ← ih]
      rfl

theorem items_linkAnd (is : List Nat) :
    itemsAt ["d"] (linkAnd is) = link :: is.map fileItem := by
  rw [← items_below]
  rfl

theorem items_eq : walk.items = link :: fileItems := by
  have hrange : numbers =
      List.range lastFile ++ [lastFile, kMaxScanBatchSize] := by
    have hsize : kMaxScanBatchSize = lastFile + 1 := rfl
    unfold numbers
    rw [List.range_succ, hsize, List.range_succ, List.append_assoc]
    rfl
  unfold walk
  simp only
  rw [items_linkAnd, hrange, List.map_append]
  rfl

theorem fileItem_scanned (i : Nat) : isScanned (fileItem i) = true := rfl

theorem batchEnd_files :
    batchEnd fileItems kMaxScanBatchSize none =
      (some (pathOf lastFile), [fileItem kMaxScanBatchSize]) := by
  have hall : ∀ item ∈ (List.range lastFile).map fileItem,
      isScanned item = true := by
    intro item hitem
    obtain ⟨i, _, rfl⟩ := List.mem_map.mp hitem
    exact fileItem_scanned i
  have hend := batchEnd_append hall (fileItem_scanned lastFile)
    [fileItem kMaxScanBatchSize] none
  rw [List.length_map, List.length_range] at hend
  exact hend

theorem batchEnd_items :
    batchEnd walk.items kMaxScanBatchSize none =
      (some (pathOf lastFile), [fileItem kMaxScanBatchSize]) := by
  have hlink : isScanned link = false := rfl
  have hskip : batchEnd (link :: fileItems) (lastFile + 1) none =
      batchEnd fileItems (lastFile + 1) none := by
    rw [batchEnd, if_neg (by rw [hlink]; simp)]
  rw [items_eq]
  exact hskip.trans batchEnd_files

theorem readable : Readable walk.items := by
  intro item hitem probe hprobe
  rw [items_eq] at hitem
  have hfile : ∀ i, item = fileItem i → probe.hash.isSome = true := by
    intro i hi
    rw [hi] at hprobe
    cases hprobe
    rfl
  rcases List.mem_cons.mp hitem with rfl | hitem
  · cases hprobe
  · rcases List.mem_append.mp hitem with hitem | hitem
    · obtain ⟨i, _, hi⟩ := List.mem_map.mp hitem
      exact hfile i hi.symm
    · rcases List.mem_cons.mp hitem with hi | hitem
      · exact hfile lastFile hi
      · exact hfile kMaxScanBatchSize (List.mem_singleton.mp hitem)

/-- The second pass begins behind the link. -/
theorem position_link :
    positionAfterCursor (some (pathOf lastFile)) walk = some fileItems := by
  have hfailed : walk.failed = false := rfl
  have hne : fileItems.isEmpty = false := by simp [fileItems]
  have hdrop : dropThrough (pathOf lastFile) walk.failed walk.items =
      some fileItems := by
    rw [items_eq, hfailed, dropThrough]
    simp [link]
  unfold positionAfterCursor
  simp only [hdrop, Option.map_some, hne]
  rfl

end LinkedFile

/-- Over a link and the file it resolves to, with a batch of files up to it,
the scan of the directory does not get further. -/
theorem not_advances :
    ¬ ∀ (tree : LocalTree) (names : List String) (children : Forest LocalLeaf),
      tree.forest.descend names = some children →
      ∀ syncRootId jobId t,
        Advances syncRootId (FsPath.relativeText names) jobId
          { items := LocalTree.itemsAt names children, failed := false } t := by
  intro h
  have hadvances := h LinkedFile.tree ["d"]
    (LinkedFile.linkAnd LinkedFile.numbers) rfl "root" 0
    KeyedTable.empty
  have hempty : Hashed KeyedTable.empty := by
    intro e he
    cases he
  obtain ⟨s₁, hpass₁, hcursor₁, hrest₁, hhashed₁⟩ :=
    exists_pass LinkedFile.walk "root" 0
      (s := firstState "root" (FsPath.relativeText ["d"]) 0 LinkedFile.walk
        KeyedTable.empty) LinkedFile.readable (hempty.upsertDirectory _) rfl
      LinkedFile.batchEnd_items (by simp)
  obtain ⟨s₂, hpass₂, _, hrest₂, _⟩ :=
    exists_pass LinkedFile.walk "root" 0 LinkedFile.readable hhashed₁
      (by rw [hcursor₁]; exact LinkedFile.position_link)
      LinkedFile.batchEnd_files (by simp)
  have hless := hadvances.later s₁ s₂ (.single hpass₁) hpass₂
  rw [hrest₁, hrest₂] at hless
  omega

end ArkiveSync.SubtreePasses
