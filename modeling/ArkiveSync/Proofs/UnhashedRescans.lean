import ArkiveSync.Model.RemoteEntryRepo
import ArkiveSync.Model.StoredTimes
import ArkiveSync.Proofs.ScanMirror

/-!
# Scanning a file again

A scan does not read a file whose size and time are the ones of its row.  The
row has the time in milliseconds, and the comparison is made in nanoseconds:
whether the second scan is spared the hash depends on the last six digits of
the time.

## Main results

* `looksRecorded_iff_unhashed`: the comparison is what decides.
* `rescan_unhashed_iff`: the files whose next scan takes the way without a
  hash.
-/

namespace ArkiveSync.UnhashedRescans

open Library RootScanner

/-- What the file system says about a regular file. -/
structure FileStamp where
  size : Nat
  mtime : FileTime
  fits : size ≤ int64Max

/-- The file as a scan reads it; the hash is what `hashFile` would give. -/
def FileStamp.probe (f : FileStamp) (hash : Option String) : FileProbe :=
  { size := some f.size, mtime := some f.mtime.ns, hash := hash }

variable {syncRootId rel : String} {f : FileStamp} {t t' t'' : EntryTable}

/-- The row of the file is written: by a scan, or after a download. -/
inductive Stamps (syncRootId rel : String) (f : FileStamp) :
    EntryTable → EntryTable → Prop
  | scanned {t t' : EntryTable} (jobId : Nat) (hash : Option String)
      (h : handleFileEntry t syncRootId jobId rel (f.probe hash) =
        .stored t') : Stamps syncRootId rel f t t'
  | downloaded {t : EntryTable} {e : Entry}
      (h : EntryRepo.findEntryByPath t syncRootId rel = some e)
      (contentHash : String) :
      Stamps syncRootId rel f t
        (RemoteEntryRepo.markEntryDownloadedAs t e.id f.size
          (toMtimeMs f.mtime.ns) contentHash)

/-- The columns that describe the content of a file. -/
def contentColumns (e : Entry) : Option Int × Option Int × Option String :=
  (e.size, e.mtime, e.contentHash)

/-- The row is still there, with the same description of the content. -/
def KeepsContent (syncRootId rel : String) (t t' : EntryTable) : Prop :=
  (EntryRepo.findEntryByPath t' syncRootId rel).map contentColumns =
    (EntryRepo.findEntryByPath t syncRootId rel).map contentColumns

/-- The row is not marked as deleted. -/
def NotDeleted (syncRootId rel : String) (t : EntryTable) : Prop :=
  ∀ e, EntryRepo.findEntryByPath t syncRootId rel = some e → e.deleted = false

/-- A scan finds the size and the time of the file in its row, and handles it
without looking at the content. -/
structure RescansUnhashed (syncRootId rel : String) (f : FileStamp)
    (t : EntryTable) : Prop where
  row : ∃ e, EntryRepo.findEntryByPath t syncRootId rel = some e ∧
    e.size = some (f.size : Int) ∧
    e.mtime.map (· * 1000000) = some f.mtime.ns
  unread : ∀ jobId, ∃ t', ∀ hash,
    handleFileEntry t syncRootId jobId rel (f.probe hash) = .stored t'

/-! ## The row that is written -/

/-- Both writers record the size, and the time in milliseconds. -/
theorem Stamps.row (h : Stamps syncRootId rel f t t') :
    ∃ e, EntryRepo.findEntryByPath t' syncRootId rel = some e ∧
      e.size = some (f.size : Int) ∧
      e.mtime = some (toMtimeMs f.mtime.ns) ∧ e.contentHash.isSome = true ∧
      e.deleted = false := by
  cases h with
  | scanned jobId hash h =>
      obtain ⟨size, mtime, contentHash, hashed, hsize, hmtime, -, -, -, -, rfl⟩ :=
        handleFileEntry_stored h
      cases hsize
      cases hmtime
      refine ⟨_, LocalEntryRepo.findEntryByPath_upsertFile_self t _, ?_⟩
      cases hold : t.lookup (syncRootId, rel) with
      | none =>
          rw [KeyedTable.upserted_of_none hold]
          refine ⟨rfl, rfl, rfl, ?_⟩
          rw [Entry.deleted, beq_eq_false_iff_ne]
          exact ScanMirror.scannedState_ne _ _ _
      | some e =>
          rw [KeyedTable.upserted_of_some hold]
          refine ⟨rfl, rfl, rfl, ?_⟩
          rw [Entry.deleted, beq_eq_false_iff_ne]
          show (if _ then EntrySyncState.pendingUpload else _) ≠ _
          split
          · simp
          · exact ScanMirror.scannedState_ne _ _ _
  | downloaded h contentHash =>
      exact ⟨_, RemoteEntryRepo.findEntryByPath_updateById_self h rfl, rfl, rfl,
        rfl, rfl⟩

/-- What is left of it after statements that keep the content. -/
theorem KeepsContent.row (hkeeps : KeepsContent syncRootId rel t t')
    {e : Entry} (he : EntryRepo.findEntryByPath t syncRootId rel = some e) :
    ∃ e', EntryRepo.findEntryByPath t' syncRootId rel = some e' ∧
      e'.size = e.size ∧ e'.mtime = e.mtime ∧
      e'.contentHash = e.contentHash := by
  unfold KeepsContent at hkeeps
  rw [he, Option.map_some, Option.map_eq_some_iff] at hkeeps
  obtain ⟨e', he', hsame⟩ := hkeeps
  simp only [contentColumns, Prod.mk.injEq] at hsame
  exact ⟨e', he', hsame⟩

/-! ## The comparison -/

/-- A row with a hash: the file is not read exactly if the row looks
recorded. -/
theorem looksRecorded_iff_unhashed {e : Entry}
    (he : EntryRepo.findEntryByPath t syncRootId rel = some e)
    (hhash : e.contentHash.isSome = true) :
    looksRecorded (some e) f.size f.mtime.ns = true ↔
      ∀ jobId, ∃ t', ∀ hash,
        handleFileEntry t syncRootId jobId rel (f.probe hash) =
          .stored t' := by
  have hfits := f.fits
  constructor
  · intro hlooks jobId
    obtain ⟨contentHash, hcontent⟩ := Option.isSome_iff_exists.mp hhash
    refine ⟨LocalEntryRepo.upsertFileEntry t
      { syncRootId := syncRootId
        relativePath := rel
        size := f.size
        mtime := toMtimeMs f.mtime.ns
        contentHash := contentHash
        syncState := scannedState (some e) false contentHash
        lastSeenScanId := jobId }, ?_⟩
    intro hash
    unfold handleFileEntry
    simp only [FileStamp.probe]
    rw [if_neg (by omega), he, hlooks, Option.bind_some, hcontent]
    rfl
  · intro hunread
    obtain ⟨t', ht'⟩ := hunread 0
    have hnone := ht' none
    unfold handleFileEntry at hnone
    simp only [FileStamp.probe] at hnone
    rw [if_neg (by omega), he] at hnone
    cases hlooks : looksRecorded (some e) f.size f.mtime.ns with
    | true => rfl
    | false =>
        -- Without a hash the call can only throw.
        rw [hlooks] at hnone
        cases hnone

theorem looksRecorded_eq_true {e : Entry} {size : Nat} {mtime : Int} :
    looksRecorded (some e) size mtime = true ↔
      e.deleted = false ∧ e.size = some (size : Int) ∧
        e.mtime.map (· * 1000000) = some mtime := by
  simp only [looksRecorded, Bool.and_eq_true, Bool.not_eq_true', beq_iff_eq,
    and_assoc]

/-! ## The next scan -/

/-- A file keeps its row as long as nothing writes the content columns.  The
next scan of it does without the hash exactly if its time is a whole number of
milliseconds and no scan has marked the row in the meantime; the time by itself
decides whether the text of it reads back as it was. -/
theorem rescan_unhashed_iff (hstamps : Stamps syncRootId rel f t t')
    (hkeeps : KeepsContent syncRootId rel t' t'') :
    (RescansUnhashed syncRootId rel f t'' ∧
        parseMtime (toMtimeString f.mtime) = some f.mtime.ns) ↔
      f.mtime.ns % 1000000 = 0 ∧ NotDeleted syncRootId rel t'' := by
  obtain ⟨e, he, hsize, hmtime, hhash, -⟩ := hstamps.row
  obtain ⟨e', he', hsize', hmtime', hhash'⟩ := hkeeps.row he
  rw [hsize] at hsize'
  rw [hmtime] at hmtime'
  rw [← hhash'] at hhash
  have hread : e'.mtime.map (· * 1000000) = some f.mtime.ns ↔
      f.mtime.ns % 1000000 = 0 := by
    rw [hmtime', Option.map_some, Option.some.injEq]
    exact toMtimeMs_mul_eq_iff _
  constructor
  · rintro ⟨hrescan, -⟩
    obtain ⟨hlive, -, htime⟩ := looksRecorded_eq_true.mp
      ((looksRecorded_iff_unhashed he' hhash).mpr hrescan.unread)
    refine ⟨hread.mp htime, ?_⟩
    intro e'' he''
    rw [he'] at he''
    cases he''
    exact hlive
  · rintro ⟨hwhole, hlive⟩
    have htime := hread.mpr hwhole
    refine ⟨⟨⟨e', he', hsize', htime⟩, ?_⟩, ?_⟩
    · exact (looksRecorded_iff_unhashed he' hhash).mp
        (looksRecorded_eq_true.mpr ⟨hlive e' he', hsize', htime⟩)
    · rw [parseMtime_toMtimeString, (toMtimeMs_mul_eq_iff _).mpr hwhole]

/-- A file of three bytes, written a little after a full millisecond. -/
def touched : FileStamp :=
  { size := 3
    mtime := { ns := -4700000000000000001, fits := by decide }
    fits := ScanMirror.SmallScan.file.fits }

/-- The same file, written on the millisecond. -/
def aligned : FileStamp :=
  { touched with mtime := { ns := -4700000000000000000, fits := by decide } }

/-- The first scan of the file, in an empty table. -/
def scannedOnce (f : FileStamp) : EntryTable :=
  LocalEntryRepo.upsertFileEntry KeyedTable.empty
    { syncRootId := "r"
      relativePath := "a.txt"
      size := f.size
      mtime := toMtimeMs f.mtime.ns
      contentHash := "h"
      syncState := .pendingUpload
      lastSeenScanId := 0 }

theorem scannedOnce_stamps (f : FileStamp) :
    Stamps "r" "a.txt" f KeyedTable.empty (scannedOnce f) := by
  refine .scanned 0 (some "h") ?_
  have hfits := f.fits
  unfold handleFileEntry
  simp only [FileStamp.probe]
  rw [if_neg (by omega)]
  rfl

theorem scannedOnce_notDeleted (f : FileStamp) :
    NotDeleted "r" "a.txt" (scannedOnce f) := by
  intro e he
  obtain ⟨e', he', -, -, -, hlive⟩ := (scannedOnce_stamps f).row
  rw [he'] at he
  cases he
  exact hlive

/-- The next scan of the aligned file reads no content. -/
theorem aligned_rescan :
    RescansUnhashed "r" "a.txt" aligned (scannedOnce aligned) ∧
      parseMtime (toMtimeString aligned.mtime) = some aligned.mtime.ns :=
  (rescan_unhashed_iff (scannedOnce_stamps aligned) rfl).mpr
    ⟨by decide, scannedOnce_notDeleted aligned⟩

/-- A file may lie still, and be read again all the same. -/
theorem touched_rescan : ¬ ∀ (syncRootId rel : String) (f : FileStamp)
    (t t' t'' : EntryTable), Stamps syncRootId rel f t t' →
    KeepsContent syncRootId rel t' t'' → NotDeleted syncRootId rel t'' →
    RescansUnhashed syncRootId rel f t'' ∧
      parseMtime (toMtimeString f.mtime) = some f.mtime.ns := by
  intro h
  obtain ⟨-, htime⟩ := h "r" "a.txt" touched _ _ _ (scannedOnce_stamps touched)
    rfl (scannedOnce_notDeleted touched)
  rw [parseMtime_toMtimeString] at htime
  revert htime
  decide

end ArkiveSync.UnhashedRescans
