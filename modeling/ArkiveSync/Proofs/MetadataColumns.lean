import ArkiveSync.Model.RootScanner
import ArkiveSync.Proofs.RowKinds

/-!
# The columns of local metadata

A local scan writes the size, the time and the hash of a file together, and so
does a download; no other statement assigns any of the three.  A row therefore
has all of them or none, and a scan that trusts the recorded size and time finds
a recorded hash.

## Main results

* `setTogether_after`: every statement keeps the three columns together.
* `columns_set_together`: so do all runs of statements, and the scanner never
  reads a hash that is not there.
-/

namespace ArkiveSync.MetadataColumns

open Library LocalEntryRepo RemoteEntryRepo RowKinds

/-- `local_size`, `local_mtime` and `local_content_hash` are all set or all
`NULL`. -/
def SetTogether (e : Entry) : Prop :=
  (e.size = none ∧ e.mtime = none ∧ e.contentHash = none) ∨
    (e.size.isSome = true ∧ e.mtime.isSome = true ∧
      e.contentHash.isSome = true)

section Columns

variable {e f : Entry}

theorem SetTogether.of_same (h : SetTogether e) (hsize : f.size = e.size)
    (hmtime : f.mtime = e.mtime) (hhash : f.contentHash = e.contentHash) :
    SetTogether f := by
  unfold SetTogether
  rw [hsize, hmtime, hhash]
  exact h

theorem setTogether_of_none (hsize : e.size = none) (hmtime : e.mtime = none)
    (hhash : e.contentHash = none) : SetTogether e :=
  Or.inl ⟨hsize, hmtime, hhash⟩

theorem setTogether_of_some {size mtime : Int} {hash : String}
    (hsize : e.size = some size) (hmtime : e.mtime = some mtime)
    (hhash : e.contentHash = some hash) : SetTogether e := by
  refine Or.inr ⟨?_, ?_, ?_⟩
  · rw [hsize]
    rfl
  · rw [hmtime]
    rfl
  · rw [hhash]
    rfl

/-- A row with a recorded size has a recorded hash. -/
theorem SetTogether.contentHash_of_size (h : SetTogether e) {size : Int}
    (hsize : e.size = some size) : ∃ hash, e.contentHash = some hash := by
  rcases h with ⟨hnone, -, -⟩ | ⟨-, -, hhash⟩
  · rw [hnone] at hsize
    cases hsize
  · exact Option.isSome_iff_exists.mp hhash

end Columns

/-! ## One statement -/

variable {t : EntryTable}

/-- Every statement keeps the columns together, whatever its arguments are. -/
theorem setTogether_after (h : ∀ e ∈ t.rows, SetTogether e) (step : RowStep) :
    ∀ e ∈ (after t step).rows, SetTogether e := by
  cases step with
  | upsertDirectoryEntry u =>
      unfold after LocalEntryRepo.upsertDirectoryEntry
      refine rows_upsert h ?_ ?_
      · intro n
        exact setTogether_of_none rfl rfl rfl
      · intro e he
        exact (h e (KeyedTable.mem_of_lookup he)).of_same rfl rfl rfl
  | upsertFileEntry u =>
      unfold after LocalEntryRepo.upsertFileEntry
      refine rows_upsert h ?_ ?_
      · intro n
        exact setTogether_of_some rfl rfl rfl
      · intro e _
        exact setTogether_of_some rfl rfl rfl
  | markEntriesNotSeenInScanDeleted syncRootId scanJobId =>
      exact rows_markDeleted _ h (fun e he => (h e he).of_same rfl rfl rfl)
  | markPathDeleted syncRootId relativePath =>
      exact rows_markDeleted _ h (fun e he => (h e he).of_same rfl rfl rfl)
  | markSubtreeEntriesNotSeenInScanDeleted syncRootId relativePath scanJobId =>
      exact rows_markDeleted _ h (fun e he => (h e he).of_same rfl rfl rfl)
  | markRootRemoteDeleted syncRootId now =>
      unfold after RemoteEntryRepo.markRootRemoteDeleted
      refine rows_modify h ?_
      intro e he _
      exact (h e he).of_same rfl rfl rfl
  | upsertRemoteEntry u =>
      refine rows_upsertRemoteEntry h ?_ ?_ ?_
      · intro e he _
        exact (h e he).of_same rfl rfl rfl
      · intro n
        exact setTogether_of_none rfl rfl rfl
      · intro e he
        exact (h e he).of_same rfl rfl rfl
  | markEntryUploaded entryId fileId parentFolderId =>
      unfold after RemoteEntryRepo.markEntryUploaded
      refine rows_updateById h ?_
      intro e he _
      exact (h e he).of_same rfl rfl rfl
  | markFolderCreated entryId folderId parentFolderId =>
      unfold after RemoteEntryRepo.markFolderCreated
      refine rows_updateById h ?_
      intro e he _
      exact (h e he).of_same rfl rfl rfl
  | markEntryDownloaded entryId =>
      unfold after RemoteEntryRepo.markEntryDownloaded
      refine rows_updateById h ?_
      intro e he _
      exact (h e he).of_same rfl rfl rfl
  | markEntryDownloadedAs entryId size mtime contentHash =>
      unfold after RemoteEntryRepo.markEntryDownloadedAs
      refine rows_updateById h ?_
      intro e _ _
      exact setTogether_of_some rfl rfl rfl
  | markConflict entryId state =>
      unfold after ConflictRepo.markConflict
      refine rows_updateById h ?_
      intro e he _
      exact (h e he).of_same rfl rfl rfl
  | reconcile root => exact h
  | upload root relativePath => exact h

/-! ## The scanner -/

theorem looksRecorded_some {existing : Option Entry} {size : Nat} {mtime : Int}
    (h : RootScanner.looksRecorded existing size mtime = true) :
    ∃ e, existing = some e ∧ e.size = some (size : Int) := by
  unfold RootScanner.looksRecorded at h
  split at h
  · cases h
  · rename_i e
    simp only [Bool.and_eq_true, beq_iff_eq] at h
    exact ⟨e, rfl, h.1.2⟩

/-- A file that is not hashed again has a row with a hash. -/
theorem recorded_hash (h : ∀ e ∈ t.rows, SetTogether e)
    {syncRootId relativePath : String} {size : Nat} {mtime : Int}
    (hrecorded : RootScanner.looksRecorded
      (EntryRepo.findEntryByPath t syncRootId relativePath) size mtime =
        true) :
    ∃ e hash, EntryRepo.findEntryByPath t syncRootId relativePath = some e ∧
      e.contentHash = some hash := by
  obtain ⟨e, he, hsize⟩ := looksRecorded_some hrecorded
  obtain ⟨hash, hhash⟩ :=
    (h e (KeyedTable.mem_of_lookup he)).contentHash_of_size hsize
  exact ⟨e, hash, he, hhash⟩

/-- What is left to throw is the hashing of the file. -/
theorem hash_none_of_threw (h : ∀ e ∈ t.rows, SetTogether e)
    {syncRootId relativePath : String} {jobId : Nat} {probe : FileProbe}
    (hthrew : RootScanner.handleFileEntry t syncRootId jobId relativePath
      probe = .threw) : probe.hash = none := by
  unfold RootScanner.handleFileEntry at hthrew
  split at hthrew
  next size mtime hsize hmtime =>
      split at hthrew
      · cases hthrew
      · dsimp only at hthrew
        split at hthrew
        next hcontent =>
            cases hrecorded : RootScanner.looksRecorded
                (EntryRepo.findEntryByPath t syncRootId relativePath) size
                mtime with
            | false =>
                rw [hrecorded] at hcontent
                simpa using hcontent
            | true =>
                obtain ⟨e, hash, he, hhash⟩ := recorded_hash h hrecorded
                rw [hrecorded, he] at hcontent
                simp [hhash] at hcontent
        next => cases hthrew
  next => cases hthrew

/-! ## Runs -/

theorem setTogether_run (steps : List RowStep)
    (h : ∀ e ∈ t.rows, SetTogether e) :
    ∀ e ∈ (steps.foldl after t).rows, SetTogether e := by
  induction steps generalizing t with
  | nil => exact h
  | cons step steps ih => exact ih (setTogether_after h step)

/-- Behind any statements on the empty table, every row has its three columns
set together; so a file whose size and time are the recorded ones has a
recorded hash, and the scanner throws for a file only when it cannot be
hashed. -/
theorem columns_set_together (steps : List RowStep) :
    (∀ e ∈ (steps.foldl after KeyedTable.empty).rows, SetTogether e) ∧
      (∀ (syncRootId relativePath : String) (size : Nat) (mtime : Int),
        RootScanner.looksRecorded
            (EntryRepo.findEntryByPath (steps.foldl after KeyedTable.empty)
              syncRootId relativePath) size mtime = true →
          ∃ e hash,
            EntryRepo.findEntryByPath (steps.foldl after KeyedTable.empty)
              syncRootId relativePath = some e ∧
            e.contentHash = some hash) ∧
      ∀ (syncRootId relativePath : String) (jobId : Nat) (probe : FileProbe),
        RootScanner.handleFileEntry (steps.foldl after KeyedTable.empty)
            syncRootId jobId relativePath probe = .threw →
          probe.hash = none := by
  have hrows := setTogether_run (t := KeyedTable.empty) steps
    (fun e he => by cases he)
  exact ⟨hrows, fun _ _ _ _ => recorded_hash hrows,
    fun _ _ _ _ => hash_none_of_threw hrows⟩

/-- A file that has been scanned, and a file whose hash is not available. -/
theorem columns_set_together_scanned :
    (∃ e hash,
      EntryRepo.findEntryByPath
        ([RowStep.upsertFileEntry
          { syncRootId := "r", relativePath := "a", size := 3, mtime := 5
            contentHash := "h", syncState := .pendingUpload
            lastSeenScanId := 1 }].foldl after KeyedTable.empty) "r" "a" =
          some e ∧ e.contentHash = some hash) ∧
      (⟨some 3, some 5000000, none⟩ : FileProbe).hash = none := by
  refine ⟨(columns_set_together _).2.1 "r" "a" 3 5000000 (by decide), ?_⟩
  exact (columns_set_together []).2.2 "r" "a" 1
    ⟨some 3, some 5000000, none⟩ rfl

end ArkiveSync.MetadataColumns
