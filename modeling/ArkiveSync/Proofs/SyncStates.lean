import ArkiveSync.Library.Runs
import ArkiveSync.Model.SyncStatements

/-!
# The stored state and the decision

`sync_state` is computed by each statement on its own, from what the statement
knows; `decide` reads the hashes and the remote columns.  A row whose content
has been edited is `pending_upload` after the scan that finds the edit.  The
next scan finds the content as it is recorded, and a listing does not look at
the content at all: both write `unchanged` while the upload is still due.

## Main results

* `upload_iff_owed`: the columns of the rows that are to be uploaded.
* `performs_after`: what the operations of the client leave of the rows is left
  by a run of these statements.
* `agree_after_iff`: what a statement must find so that the states agree with
  the decisions behind it.
* `sync_states_agree_iff`: a run keeps them in agreement exactly when all of
  its statements find that.
* `not_sync_states_agree`: an edited file is scanned twice.
-/

namespace ArkiveSync.SyncStates

open Library RootScanner

/-! ## Decisions in terms of columns -/

/-- The content is not the one last synchronised. -/
def Differs (e : Entry) : Prop := e.contentHash ≠ e.syncedContentHash

/-- An upload is owed to a row that is present here and not in conflict, if the
remote lacks something; in a two-way root, if the remote has not changed
besides. -/
structure Owed (mode : SyncMode) (lacks quiet : Prop) (e : Entry) : Prop where
  present : e.localDeletedAt = none
  noConflict : (classify e).hasConflict = false
  lacks : lacks
  quiet : mode = .twoWay → quiet

theorem decideUploadOnly_eq_upload_iff {s : SyncEntryState}
    (hs : s.Consistent) :
    SyncPolicy.decideUploadOnly s = .upload ↔
      s.localDeleted = false ∧ s.hasConflict = false ∧
        (s.remoteExists = false ∨ s.localDirty = true) := by
  obtain ⟨le, re, ld, rd, lDirty, rDirty, dir, conf⟩ := s
  obtain ⟨h1, h2, h3, h4⟩ := hs
  dsimp only at h1 h2 h3 h4 ⊢
  subst h1
  revert re ld rd lDirty rDirty conf dir
  decide

theorem decideTwoWay_eq_upload_iff {s : SyncEntryState} (hs : s.Consistent) :
    SyncPolicy.decideTwoWay s = .upload ↔
      s.localDeleted = false ∧ s.hasConflict = false ∧
        (s.remoteExists = false ∨ s.localDirty = true) ∧
        s.remoteDeleted = false ∧ (s.localDirty && s.remoteDirty) = false := by
  obtain ⟨le, re, ld, rd, lDirty, rDirty, dir, conf⟩ := s
  obtain ⟨h1, h2, h3, h4⟩ := hs
  dsimp only at h1 h2 h3 h4 ⊢
  subst h1
  cases ld with
  | true =>
      refine iff_of_false ?_ (by simp)
      revert re rd lDirty rDirty conf dir
      decide
  | false =>
      revert re rd lDirty rDirty conf dir
      decide

/-- The rows that are to be uploaded. -/
theorem upload_iff_owed {mode : SyncMode} (hmode : mode ≠ .remoteMirror)
    (e : Entry) :
    decideEntry mode e = .upload ↔
      Owed mode
        (e.remoteId = none ∨ e.remoteDeletedAt.isSome = true ∨ Differs e)
        (e.remoteDeletedAt = none ∧
          (Differs e → e.remoteUpdatedAt = e.syncedRemoteUpdatedAt)) e := by
  have hs := classify_consistent e
  have hdeleted : (classify e).localDeleted = false ↔
      e.localDeletedAt = none := by
    simp [classify]
  have hlacks : e.localDeletedAt = none →
      ((classify e).remoteExists = false ∨ (classify e).localDirty = true ↔
        e.remoteId = none ∨ e.remoteDeletedAt.isSome = true ∨ Differs e) := by
    intro hpresent
    cases hid : e.remoteId <;> cases hdel : e.remoteDeletedAt <;>
      simp [classify, Differs, hpresent, hid, hdel]
  have hquiet : e.localDeletedAt = none →
      ((classify e).remoteDeleted = false ∧
        ((classify e).localDirty && (classify e).remoteDirty) = false ↔
        e.remoteDeletedAt = none ∧
          (Differs e → e.remoteUpdatedAt = e.syncedRemoteUpdatedAt)) := by
    intro hpresent
    cases hdel : e.remoteDeletedAt <;>
      simp [classify, Differs, hpresent, hdel]
  cases mode with
  | remoteMirror => exact absurd rfl hmode
  | uploadOnly =>
      show SyncPolicy.decideUploadOnly _ = _ ↔ _
      rw [decideUploadOnly_eq_upload_iff hs, hdeleted]
      constructor
      · rintro ⟨hpresent, hconflict, h⟩
        exact ⟨hpresent, hconflict, (hlacks hpresent).mp h,
          fun hmode => by cases hmode⟩
      · rintro ⟨hpresent, hconflict, h, -⟩
        exact ⟨hpresent, hconflict, (hlacks hpresent).mpr h⟩
  | twoWay =>
      show SyncPolicy.decideTwoWay _ = _ ↔ _
      rw [decideTwoWay_eq_upload_iff hs, hdeleted]
      constructor
      · rintro ⟨hpresent, hconflict, h, hremote⟩
        exact ⟨hpresent, hconflict, (hlacks hpresent).mp h,
          fun _ => (hquiet hpresent).mp hremote⟩
      · rintro ⟨hpresent, hconflict, h, hremote⟩
        exact ⟨hpresent, hconflict, (hlacks hpresent).mpr h,
          (hquiet hpresent).mpr (hremote rfl)⟩

/-! ## Statements -/

/-- The statements of scans, remote scans, uploads and downloads.  A scanned
file is handled by `handleFileEntry`, which computes the state it writes; the
three statements of a scan that mark rows as deleted are one kind. -/
inductive RowStatement where
  | file (syncRootId : String) (jobId : Nat) (relativePath : String)
      (probe : FileProbe)
  | directory (u : DirectoryEntryUpsert)
  | unseen (p : Entry → Bool)
  | listed (u : RemoteEntryUpsert)
  | rootDeleted (syncRootId now : String)
  | uploaded (entryId : Nat) (remoteId : String) (parent : Option String)
  | folderCreated (entryId : Nat) (remoteId : String) (parent : Option String)
  | conflict (entryId : Nat)
  | downloaded (entryId : Nat)
  | downloadedAs (entryId : Nat) (size mtime : Int) (contentHash : String)

/-- The rows behind a statement; a file that is refused and a listing that the
index rejects leave them as they are. -/
def after (t : EntryTable) : RowStatement → EntryTable
  | .file syncRootId jobId relativePath probe =>
      match handleFileEntry t syncRootId jobId relativePath probe with
      | .stored entries => entries
      | _ => t
  | .directory u => LocalEntryRepo.upsertDirectoryEntry t u
  | .unseen p => LocalEntryRepo.markDeleted t p
  | .listed u => (RemoteEntryRepo.upsertRemoteEntry t u).getD t
  | .rootDeleted syncRootId now =>
      RemoteEntryRepo.markRootRemoteDeleted t syncRootId now
  | .uploaded entryId remoteId parent =>
      RemoteEntryRepo.markEntryUploaded t entryId remoteId parent
  | .folderCreated entryId remoteId parent =>
      RemoteEntryRepo.markFolderCreated t entryId remoteId parent
  | .conflict entryId =>
      ConflictRepo.markConflict t entryId "local_remote_modified"
  | .downloaded entryId => RemoteEntryRepo.markEntryDownloaded t entryId
  | .downloadedAs entryId size mtime contentHash =>
      RemoteEntryRepo.markEntryDownloadedAs t entryId size mtime contentHash

/-- What the client executes on its rows are these statements. -/
theorem executes_after {t t' : EntryTable} {st : Statement}
    (h : Statement.Executes t st t') : ∃ step, after t step = t' := by
  cases h with
  | scanned hstep =>
      cases hstep with
      | directory rel hitem => exact ⟨.directory _, rfl⟩
      | file _ rel probe hitem hstored =>
          rename_i syncRootId jobId _
          refine ⟨.file syncRootId jobId rel probe, ?_⟩
          unfold after
          dsimp only
          rw [hstored]
      | mark p hroot => exact ⟨.unseen p, rfl⟩
  | listed hu =>
      rename_i u
      refine ⟨.listed u, ?_⟩
      unfold after
      dsimp only
      rw [hu, Option.getD_some]
  | rootDeleted id now => exact ⟨.rootDeleted id now, rfl⟩
  | uploaded n remoteId parent => exact ⟨.uploaded n remoteId parent, rfl⟩
  | folderCreated n remoteId parent =>
      exact ⟨.folderCreated n remoteId parent, rfl⟩
  | conflict n => exact ⟨.conflict n, rfl⟩
  | downloaded n => exact ⟨.downloaded n, rfl⟩
  | downloadedAs n size mtime hash => exact ⟨.downloadedAs n size mtime hash, rfl⟩

/-- The rows behind any operation of the client are those behind a run of
statements. -/
theorem perform_after (s : SyncSystem) (op : Operation) :
    ∃ steps : List RowStatement,
      steps.foldl after s.entries = (s.perform op).entries := by
  have hruns := SyncSystem.perform_statements s op
  generalize (s.perform op).entries = t at hruns
  induction hruns with
  | refl => exact ⟨[], rfl⟩
  | tail _ hlast ih =>
      obtain ⟨steps, hsteps⟩ := ih
      obtain ⟨st, hst, -⟩ := hlast
      obtain ⟨step, hstep⟩ := executes_after hst
      refine ⟨steps ++ [step], ?_⟩
      rw [List.foldl_append, hsteps]
      exact hstep

theorem performs_after (s : SyncSystem) (ops : List Operation) :
    ∃ steps : List RowStatement,
      steps.foldl after s.entries =
        (ops.foldl SyncSystem.perform s).entries := by
  induction ops generalizing s with
  | nil => exact ⟨[], rfl⟩
  | cons op ops ih =>
      obtain ⟨first, hfirst⟩ := perform_after s op
      obtain ⟨rest, hrest⟩ := ih (s.perform op)
      refine ⟨first ++ rest, ?_⟩
      rw [List.foldl_append, hfirst]
      exact hrest

/-! ## Agreement -/

/-- What the stored state of a row says about its decision. -/
structure Agrees (mode : SyncMode) (e : Entry) : Prop where
  pending : e.deleted = false → e.lastSeenScanJobId.isSome = true →
    decideEntry mode e = .upload → e.syncState = .pendingUpload
  unchanged : e.syncState = .unchanged → decideEntry mode e ≠ .upload

/-- The rows of the root agree. -/
def AllAgree (syncRootId : String) (mode : SyncMode) (t : EntryTable) : Prop :=
  Statement.OfRoot syncRootId (Agrees mode) t

/-- A state that is neither `unchanged` nor `deleted` is `pending_upload`. -/
theorem agrees_iff {mode : SyncMode} {e : Entry} :
    Agrees mode e ↔ (e.syncState = .unchanged → decideEntry mode e ≠ .upload) := by
  constructor
  · intro h
    exact h.unchanged
  · intro h
    refine ⟨?_, h⟩
    intro hlive _ hupload
    cases hstate : e.syncState with
    | unchanged => exact absurd hupload (h hstate)
    | pendingUpload => rfl
    | deleted => simp [Entry.deleted, hstate] at hlive

/-- The scan finds the content that the row has: by its size and time, or by
its hash. -/
def FoundAsRecorded (e : Entry) (probe : FileProbe) : Prop :=
  ∃ size mtime, probe.size = some size ∧ probe.mtime = some mtime ∧
    size ≤ int64Max ∧ e.contentHash.isSome = true ∧
      (looksRecorded (some e) size mtime = true ∨ probe.hash = e.contentHash)

/-- What a statement must find.  Where it writes `unchanged` on a row, no upload
is owed to the row: as it is, when a scan finds nothing new about it; with its
content, when the remote object is listed; and with what the statement does not
write, when an upload of a folder or a download is recorded. -/
def Fits (syncRootId : String) (mode : SyncMode) (t : EntryTable) :
    RowStatement → Prop
  | .file root _ relativePath probe => ∀ e,
      EntryRepo.findEntryByPath t root relativePath = some e →
      e.syncRootId = syncRootId → e.remoteId.isSome = true →
      e.deleted = false → FoundAsRecorded e probe →
      decideEntry mode e ≠ .upload
  | .directory u => ∀ e,
      EntryRepo.findEntryByPath t u.syncRootId u.relativePath = some e →
      e.syncRootId = syncRootId → e.remoteId.isSome = true →
      e.deleted = false → decideEntry mode e ≠ .upload
  | .listed u => u.remoteDeletedAt = none →
      (RemoteEntryRepo.upsertRemoteEntry t u).isSome = true →
      ∀ e ∈ t.rows, e.syncRootId = syncRootId → Statement.TakesListing t u e →
      ¬Owed mode (Differs e)
        (e.syncedRemoteUpdatedAt = some u.remoteUpdatedAt) e
  | .folderCreated entryId _ _ =>
      ∀ e ∈ t.rows, e.syncRootId = syncRootId → e.id = entryId →
      ¬Owed mode (e.remoteDeletedAt.isSome = true ∨ Differs e)
        (e.remoteDeletedAt = none ∧
          e.remoteUpdatedAt = e.syncedRemoteUpdatedAt) e
  | .downloaded entryId =>
      ∀ e ∈ t.rows, e.syncRootId = syncRootId → e.id = entryId →
      ¬Owed mode
        (e.remoteId = none ∨ e.remoteDeletedAt.isSome = true ∨ Differs e)
        (e.remoteDeletedAt = none) e
  | .downloadedAs entryId _ _ _ =>
      ∀ e ∈ t.rows, e.syncRootId = syncRootId → e.id = entryId →
      ¬Owed mode (e.remoteId = none ∨ e.remoteDeletedAt.isSome = true)
        (e.remoteDeletedAt = none) e
  | _ => True

/-! ## What the statements leave -/

section Rows

variable {mode : SyncMode} {e : Entry}

theorem decide_isDirectory (s : SyncEntryState) (isDirectory : Bool) :
    SyncPolicy.decide { s with isDirectory := isDirectory } mode =
      SyncPolicy.decide s mode := by
  cases mode <;> rfl

theorem present_of_upload (hmode : mode ≠ .remoteMirror)
    (h : decideEntry mode e = .upload) : e.localDeletedAt = none :=
  ((upload_iff_owed hmode e).mp h).present

theorem agrees_of_ne {f : Entry} (h : f.syncState ≠ .unchanged) :
    Agrees mode f :=
  agrees_iff.mpr (fun hstate => absurd hstate h)

/-- The decision about a directory that is still there. -/
theorem decide_updateDirectory (u : DirectoryEntryUpsert)
    (hpresent : e.localDeletedAt = none) :
    decideEntry mode (LocalEntryRepo.updateDirectory u e) =
      decideEntry mode e := by
  have hsame : classify (LocalEntryRepo.updateDirectory u e) =
      { classify e with isDirectory := true } := by
    simp [classify, LocalEntryRepo.updateDirectory,
      LocalEntryRepo.unlessDeleted, hpresent]
  unfold decideEntry
  rw [hsame, decide_isDirectory]

/-- The decision about a file with the content that is recorded. -/
theorem decide_updateFile {u : FileEntryUpsert}
    (hpresent : e.localDeletedAt = none)
    (hcontent : e.contentHash = some u.contentHash) :
    decideEntry mode (LocalEntryRepo.updateFile u e) = decideEntry mode e := by
  have hsame : classify (LocalEntryRepo.updateFile u e) =
      { classify e with isDirectory := false } := by
    simp [classify, LocalEntryRepo.updateFile, LocalEntryRepo.unlessDeleted,
      hpresent, hcontent]
  unfold decideEntry
  rw [hsame, decide_isDirectory]

theorem agrees_updateDirectory_iff (hmode : mode ≠ .remoteMirror)
    (u : DirectoryEntryUpsert) :
    Agrees mode (LocalEntryRepo.updateDirectory u e) ↔
      (e.remoteId.isSome = true → e.deleted = false →
        decideEntry mode e ≠ .upload) := by
  rw [agrees_iff]
  constructor
  · intro h hid hlive hupload
    have hpresent := present_of_upload hmode hupload
    refine h ?_ ((decide_updateDirectory u hpresent).trans hupload)
    simp [LocalEntryRepo.updateDirectory, hpresent, hlive,
      Option.isSome_iff_ne_none.mp hid]
  · intro h hstate hupload
    simp only [LocalEntryRepo.updateDirectory] at hstate
    split at hstate
    · cases hstate
    · rename_i hkept
      simp only [Bool.or_eq_true, not_or, Bool.not_eq_true,
        Option.isSome_eq_false_iff, Option.isNone_iff_eq_none] at hkept
      obtain ⟨⟨hpresent, hid⟩, hlive⟩ := hkept
      exact h (Option.isSome_iff_ne_none.mpr hid) hlive
        ((decide_updateDirectory u hpresent).symm.trans hupload)

/-- The states in which a scanned file is taken as unchanged. -/
theorem scannedState_eq_unchanged_iff {shouldHash : Bool} {contentHash : String} :
    scannedState (some e) shouldHash contentHash = .unchanged ↔
      e.deleted = false ∧ e.remoteId.isSome = true ∧
        (shouldHash = true → e.contentHash = some contentHash) := by
  unfold scannedState
  dsimp only
  split
  next h =>
      refine iff_of_false (by simp) ?_
      rintro ⟨hlive, hid, hsame⟩
      simp only [Bool.or_eq_true, Bool.and_eq_true, bne_iff_ne, ne_eq] at h
      rcases h with (hdeleted | hnone) | ⟨hhash, hnew⟩
      · rw [hlive] at hdeleted
        cases hdeleted
      · rw [Option.isNone_iff_eq_none.mp hnone] at hid
        cases hid
      · exact hnew (hsame hhash)
  next h =>
      simp only [Bool.or_eq_true, Bool.and_eq_true, bne_iff_ne, ne_eq, not_or,
        not_and, not_not, Bool.not_eq_true, Option.isNone_eq_false_iff] at h
      exact iff_of_true rfl ⟨h.1.1, h.1.2, h.2⟩

theorem agrees_updateFile_iff (hmode : mode ≠ .remoteMirror)
    {u : FileEntryUpsert} {hashed : Bool}
    (hstate : u.syncState = scannedState (some e) hashed u.contentHash)
    (hrecorded : hashed = false → e.contentHash = some u.contentHash) :
    Agrees mode (LocalEntryRepo.updateFile u e) ↔
      (e.remoteId.isSome = true → e.deleted = false →
        e.contentHash = some u.contentHash → decideEntry mode e ≠ .upload) := by
  rw [agrees_iff]
  constructor
  · intro h hid hlive hcontent hupload
    have hpresent := present_of_upload hmode hupload
    refine h ?_ ((decide_updateFile hpresent hcontent).trans hupload)
    simp only [LocalEntryRepo.updateFile, hpresent, Option.isSome_none,
      Bool.false_eq_true, if_false]
    rw [hstate]
    exact scannedState_eq_unchanged_iff.mpr ⟨hlive, hid, fun _ => hcontent⟩
  · intro h hafter hupload
    simp only [LocalEntryRepo.updateFile] at hafter
    split at hafter
    · cases hafter
    · rename_i hpresent
      have hpresent := Option.not_isSome_iff_eq_none.mp hpresent
      rw [hstate, scannedState_eq_unchanged_iff] at hafter
      obtain ⟨hlive, hid, hsame⟩ := hafter
      have hcontent : e.contentHash = some u.contentHash := by
        cases hashed with
        | false => exact hrecorded rfl
        | true => exact hsame rfl
      exact h hid hlive hcontent
        ((decide_updateFile hpresent hcontent).symm.trans hupload)

/-- What a scan finds is as it is recorded, if what it writes is. -/
theorem foundAsRecorded_iff {probe : FileProbe} {size : Nat} {mtime : Int}
    {contentHash : String} {hashed : Bool} (hsize : probe.size = some size)
    (hmtime : probe.mtime = some mtime) (hfits : size ≤ int64Max)
    (hhashed : hashed = !looksRecorded (some e) size mtime)
    (hread : hashed = true → probe.hash = some contentHash)
    (hrecorded : hashed = false → e.contentHash = some contentHash) :
    FoundAsRecorded e probe ↔ e.contentHash = some contentHash := by
  constructor
  · rintro ⟨size', mtime', hsize', hmtime', -, -, hfound⟩
    cases hsize.symm.trans hsize'
    cases hmtime.symm.trans hmtime'
    rcases hfound with hlooks | hhash
    · refine hrecorded ?_
      rw [hhashed, hlooks]
      rfl
    · cases hcase : hashed with
      | false => exact hrecorded hcase
      | true => exact hhash.symm.trans (hread hcase)
  · intro hcontent
    refine ⟨size, mtime, hsize, hmtime, hfits, ?_, ?_⟩
    · rw [hcontent]
      rfl
    · cases hcase : hashed with
      | false =>
          rw [hcase] at hhashed
          exact Or.inl (by simpa using hhashed.symm)
      | true => exact Or.inr ((hread hcase).trans hcontent.symm)

/-- A file that is found as it is recorded is neither refused nor does it end
the scan. -/
theorem stored_of_recorded {t : EntryTable} {root relativePath : String}
    {jobId : Nat} {probe : FileProbe}
    (he : EntryRepo.findEntryByPath t root relativePath = some e)
    (h : FoundAsRecorded e probe) :
    handleFileEntry t root jobId relativePath probe ≠ .skipped ∧
      handleFileEntry t root jobId relativePath probe ≠ .threw := by
  obtain ⟨size, mtime, hsize, hmtime, hfits, hhash, hfound⟩ := h
  obtain ⟨contentHash, hcontent⟩ := Option.isSome_iff_exists.mp hhash
  unfold handleFileEntry
  rw [hsize, hmtime]
  dsimp only
  rw [if_neg (Nat.not_lt.mpr hfits), he]
  cases hlooks : looksRecorded (some e) size mtime with
  | true =>
      rw [Bool.not_true, if_neg (by simp), Option.bind_some, hcontent]
      exact ⟨by simp, by simp⟩
  | false =>
      have hprobe : probe.hash = e.contentHash := by
        rcases hfound with hyes | hsame
        · rw [hlooks] at hyes
          cases hyes
        · exact hsame
      rw [Bool.not_false, if_pos rfl, hprobe, hcontent]
      exact ⟨by simp, by simp⟩

/-- A listing of an object that is not deleted, on the row of the object or on
the row at its path. -/
theorem agrees_listed_iff (hmode : mode ≠ .remoteMirror) {u : RemoteEntryUpsert}
    {f : Entry} (hstate : f.syncState = RemoteEntryRepo.remoteSyncState u)
    (hid : f.remoteId ≠ none) (hremote : f.remoteDeletedAt = u.remoteDeletedAt)
    (hupdated : f.remoteUpdatedAt = some u.remoteUpdatedAt)
    (hlocal : f.localDeletedAt = e.localDeletedAt)
    (hcontent : f.contentHash = e.contentHash)
    (hsynced : f.syncedContentHash = e.syncedContentHash)
    (hsyncedUpdated : Differs e →
      f.syncedRemoteUpdatedAt = e.syncedRemoteUpdatedAt)
    (hconflict : f.conflictState = e.conflictState) :
    Agrees mode f ↔
      (u.remoteDeletedAt = none → ¬Owed mode (Differs e)
        (e.syncedRemoteUpdatedAt = some u.remoteUpdatedAt) e) := by
  have hdiffers : Differs f ↔ Differs e := by
    unfold Differs
    rw [hcontent, hsynced]
  have hconflicts : (classify f).hasConflict = (classify e).hasConflict := by
    simp only [classify, hconflict]
  rw [agrees_iff, hstate]
  unfold RemoteEntryRepo.remoteSyncState
  cases hdel : u.remoteDeletedAt with
  | some at_ => simp
  | none =>
      rw [hdel] at hremote
      simp only [Option.isSome_none, Bool.false_eq_true, if_false,
        forall_const]
      rw [Ne, upload_iff_owed hmode f, not_iff_not]
      constructor
      · intro h
        have hlacks : Differs e := by
          rcases h.lacks with hnone | hdeleted | hdiff
          · exact absurd hnone hid
          · rw [hremote] at hdeleted
            cases hdeleted
          · exact hdiffers.mp hdiff
        refine ⟨hlocal.symm.trans h.present, hconflicts.symm.trans h.noConflict,
          hlacks, ?_⟩
        intro htwoWay
        have hsame := (h.quiet htwoWay).2 (hdiffers.mpr hlacks)
        rw [← hsyncedUpdated hlacks, ← hsame, hupdated]
      · intro h
        refine ⟨hlocal.trans h.present, hconflicts.trans h.noConflict,
          Or.inr (Or.inr (hdiffers.mpr h.lacks)), ?_⟩
        intro htwoWay
        refine ⟨hremote, fun _ => ?_⟩
        rw [hsyncedUpdated h.lacks, h.quiet htwoWay, hupdated]

/-- The row that takes a listing. -/
theorem agrees_listing_iff (hmode : mode ≠ .remoteMirror)
    (u : RemoteEntryUpsert) :
    Agrees mode (if RemoteEntryRepo.carries u e then
        RemoteEntryRepo.updateCarrier u e
      else RemoteEntryRepo.takeOver u e) ↔
      (u.remoteDeletedAt = none → ¬Owed mode (Differs e)
        (e.syncedRemoteUpdatedAt = some u.remoteUpdatedAt) e) := by
  by_cases hcarries : RemoteEntryRepo.carries u e = true
  · rw [if_pos hcarries]
    have hid := ((RemoteEntryRepo.carries_iff u e).mp hcarries).2
    refine agrees_listed_iff hmode rfl ?_ rfl rfl rfl rfl rfl ?_ rfl
    · show e.remoteId ≠ none
      rw [hid]
      simp
    · -- only a row with the synchronised content takes over the timestamp
      intro hdiffers
      show (if _ then _ else e.syncedRemoteUpdatedAt) = _
      refine if_neg ?_
      intro hclean
      simp only [Bool.and_eq_true, beq_iff_eq] at hclean
      exact hdiffers hclean.2
  · rw [if_neg hcarries]
    refine agrees_listed_iff hmode rfl ?_ rfl rfl rfl rfl rfl (fun _ => rfl) rfl
    simp [RemoteEntryRepo.takeOver]

theorem agrees_newRemote (hmode : mode ≠ .remoteMirror) (u : RemoteEntryUpsert)
    (n : Nat) : Agrees mode (RemoteEntryRepo.newRemote u n) := by
  rw [agrees_iff]
  intro hstate hupload
  have howed := (upload_iff_owed hmode _).mp hupload
  have hlive : u.remoteDeletedAt = none := by
    cases hdel : u.remoteDeletedAt with
    | none => rfl
    | some at_ =>
        simp [RemoteEntryRepo.newRemote, RemoteEntryRepo.remoteSyncState, hdel]
          at hstate
  rcases howed.lacks with hnone | hdeleted | hdiffers
  · cases hnone
  · simp [RemoteEntryRepo.newRemote, hlive] at hdeleted
  · exact hdiffers rfl

/-- A row behind a statement that names it by its id and writes `unchanged`. -/
theorem agrees_marked_iff (hmode : mode ≠ .remoteMirror) {f : Entry}
    {lacks quiet : Prop} (hstate : f.syncState = .unchanged)
    (hlocal : f.localDeletedAt = e.localDeletedAt)
    (hconflict : f.conflictState = e.conflictState)
    (hlacks : f.remoteId = none ∨ f.remoteDeletedAt.isSome = true ∨ Differs f ↔
      lacks)
    (hquiet : lacks → ((f.remoteDeletedAt = none ∧
      (Differs f → f.remoteUpdatedAt = f.syncedRemoteUpdatedAt)) ↔ quiet)) :
    Agrees mode f ↔ ¬Owed mode lacks quiet e := by
  have hconflicts : (classify f).hasConflict = (classify e).hasConflict := by
    simp only [classify, hconflict]
  rw [agrees_iff, hstate]
  simp only [forall_const]
  rw [Ne, upload_iff_owed hmode f, not_iff_not]
  constructor
  · intro h
    have hlack := hlacks.mp h.lacks
    exact ⟨hlocal.symm.trans h.present, hconflicts.symm.trans h.noConflict,
      hlack, fun htwoWay => (hquiet hlack).mp (h.quiet htwoWay)⟩
  · intro h
    exact ⟨hlocal.trans h.present, hconflicts.trans h.noConflict,
      hlacks.mpr h.lacks,
      fun htwoWay => (hquiet h.lacks).mpr (h.quiet htwoWay)⟩

end Rows

/-! ## One statement -/

section Statements

variable {syncRootId : String} {mode : SyncMode} {t : EntryTable}

/-- A file that is scanned. -/
theorem agree_file_iff (hmode : mode ≠ .remoteMirror)
    (h : AllAgree syncRootId mode t) (root : String) (jobId : Nat)
    (relativePath : String) (probe : FileProbe) :
    AllAgree syncRootId mode (after t (.file root jobId relativePath probe)) ↔
      Fits syncRootId mode t (.file root jobId relativePath probe) := by
  cases hout : handleFileEntry t root jobId relativePath probe with
  | stored t' =>
      obtain ⟨size, mtime, contentHash, hashed, hsize, hmtime, hfits, hhashed,
        hread, hkept, rfl⟩ := handleFileEntry_stored hout
      unfold after AllAgree
      dsimp only
      rw [hout]
      dsimp only
      unfold LocalEntryRepo.upsertFileEntry
      refine (Statement.ofRoot_upsert_iff h ?_).trans ?_
      · intro hnone
        rw [show EntryRepo.findEntryByPath t root relativePath = none from hnone]
        exact agrees_of_ne (by simp [LocalEntryRepo.newFile, scannedState])
      · refine forall_congr' fun e => forall_congr' fun he => ?_
        have hfound : EntryRepo.findEntryByPath t root relativePath = some e := he
        rw [hfound] at hhashed hkept ⊢
        have hrecorded : hashed = false → e.contentHash = some contentHash := by
          intro hh
          obtain ⟨f, hf, hhash⟩ := hkept hh
          cases hf
          exact hhash
        refine forall_congr' fun _ => ?_
        rw [agrees_updateFile_iff hmode rfl hrecorded,
          foundAsRecorded_iff hsize hmtime hfits hhashed hread hrecorded]
  | skipped =>
      refine iff_of_true ?_ ?_
      · unfold after
        dsimp only
        rw [hout]
        exact h
      · intro e he _ _ _ hrecorded
        exact absurd hout (stored_of_recorded he hrecorded).1
  | threw =>
      refine iff_of_true ?_ ?_
      · unfold after
        dsimp only
        rw [hout]
        exact h
      · intro e he _ _ _ hrecorded
        exact absurd hout (stored_of_recorded he hrecorded).2

/-- The states agree with the decisions behind a statement exactly when it finds
what it must find. -/
theorem agree_after_iff (hmode : mode ≠ .remoteMirror)
    (h : AllAgree syncRootId mode t) (step : RowStatement) :
    AllAgree syncRootId mode (after t step) ↔ Fits syncRootId mode t step := by
  cases step with
  | file root jobId relativePath probe =>
      exact agree_file_iff hmode h root jobId relativePath probe
  | directory u =>
      unfold after AllAgree LocalEntryRepo.upsertDirectoryEntry
      refine (Statement.ofRoot_upsert_iff h ?_).trans ?_
      · intro _
        exact agrees_of_ne (by simp [LocalEntryRepo.newDirectory])
      · refine forall_congr' fun e => forall_congr' fun _ =>
          forall_congr' fun _ => ?_
        exact agrees_updateDirectory_iff hmode u
  | unseen p =>
      refine iff_of_true ?_ trivial
      unfold after LocalEntryRepo.markDeleted
      refine Statement.ofRoot_modify h ?_
      intro e _ _ _ _
      exact agrees_of_ne (by simp)
  | listed u =>
      cases hu : RemoteEntryRepo.upsertRemoteEntry t u with
      | none =>
          refine iff_of_true ?_ ?_
          · unfold after
            dsimp only
            rw [hu]
            exact h
          · intro _ hsome
            rw [hu] at hsome
            cases hsome
      | some t' =>
          have hafter : after t (.listed u) = t' := by
            unfold after
            dsimp only
            rw [hu, Option.getD_some]
          rw [hafter]
          refine (Statement.ofRoot_listed_iff hu h
            (agrees_newRemote hmode u)).trans ?_
          unfold Fits
          dsimp only
          rw [hu]
          constructor
          · intro hrows hlive _ e he hroot htakes
            exact (agrees_listing_iff hmode u).mp (hrows e he hroot htakes)
              hlive
          · intro hfits e he hroot htakes
            refine (agrees_listing_iff hmode u).mpr ?_
            intro hlive
            exact hfits hlive rfl e he hroot htakes
  | rootDeleted root now =>
      refine iff_of_true ?_ trivial
      unfold after RemoteEntryRepo.markRootRemoteDeleted
      refine Statement.ofRoot_modify h ?_
      intro e _ _ _ _
      exact agrees_of_ne (by simp)
  | uploaded entryId remoteId parent =>
      refine iff_of_true ?_ trivial
      unfold after RemoteEntryRepo.markEntryUploaded
      refine Statement.ofRoot_updateById h ?_
      intro e _ _ _ _
      refine agrees_iff.mpr (fun _ hupload => ?_)
      rcases ((upload_iff_owed hmode _).mp hupload).lacks with
        hnone | hdeleted | hdiffers
      · cases hnone
      · cases hdeleted
      · exact hdiffers rfl
  | folderCreated entryId remoteId parent =>
      unfold after RemoteEntryRepo.markFolderCreated
      refine (Statement.ofRoot_updateById_iff h).trans ?_
      refine forall_congr' fun e => forall_congr' fun _ =>
        forall_congr' fun _ => forall_congr' fun _ => ?_
      refine agrees_marked_iff hmode rfl rfl rfl ?_ ?_
      · simp [Differs]
      · intro hlacks
        refine and_congr_right fun hlive => ?_
        have hdiffers : Differs e := by
          rcases hlacks with hdeleted | hdiffers
          · rw [show e.remoteDeletedAt = none from hlive] at hdeleted
            cases hdeleted
          · exact hdiffers
        exact forall_prop_of_true hdiffers
  | conflict entryId =>
      refine iff_of_true ?_ trivial
      unfold after ConflictRepo.markConflict
      refine Statement.ofRoot_updateById h ?_
      intro e _ _ _ _
      refine agrees_iff.mpr (fun _ hupload => ?_)
      have hconflict := ((upload_iff_owed hmode _).mp hupload).noConflict
      simp [classify] at hconflict
  | downloaded entryId =>
      unfold after RemoteEntryRepo.markEntryDownloaded
      refine (Statement.ofRoot_updateById_iff h).trans ?_
      refine forall_congr' fun e => forall_congr' fun _ =>
        forall_congr' fun _ => forall_congr' fun _ => ?_
      refine agrees_marked_iff hmode rfl rfl rfl Iff.rfl ?_
      intro _
      exact and_iff_left (fun _ => rfl)
  | downloadedAs entryId size mtime contentHash =>
      unfold after RemoteEntryRepo.markEntryDownloadedAs
      refine (Statement.ofRoot_updateById_iff h).trans ?_
      refine forall_congr' fun e => forall_congr' fun _ =>
        forall_congr' fun _ => forall_congr' fun _ => ?_
      refine agrees_marked_iff hmode rfl rfl rfl ?_ ?_
      · simp [Differs]
      · intro _
        exact and_iff_left (fun _ => rfl)

end Statements

/-! ## Runs -/

theorem allAgree_empty (syncRootId : String) (mode : SyncMode) :
    AllAgree syncRootId mode KeyedTable.empty := by
  intro e he
  cases he

/-- From the empty table, the stored states of a two-way or upload-only root
agree with the decisions behind every statement of a run exactly when every
statement finds what it must find. -/
theorem sync_states_agree_iff (syncRootId : String) (mode : SyncMode)
    (hmode : mode = .twoWay ∨ mode = .uploadOnly) (steps : List RowStatement) :
    Along after (fun t step => AllAgree syncRootId mode (after t step))
        KeyedTable.empty steps ↔
      Along after (Fits syncRootId mode) KeyedTable.empty steps := by
  have hwrites : mode ≠ .remoteMirror := by
    rcases hmode with h | h
    · rw [h]
      simp
    · rw [h]
      simp
  refine safe_iff_meets (P := AllAgree syncRootId mode) ?_ ?_ _
    (allAgree_empty syncRootId mode)
  · intro step _ t h
    exact agree_after_iff hwrites h step
  · intro step _ t _ hafter
    exact hafter

/-! ## An edited file -/

/-- The file as it was first, and as it has been edited. -/
def written : FileProbe :=
  { size := some 5, mtime := some 1000000, hash := some "hello" }

def edited : FileProbe :=
  { size := some 7, mtime := some 2000000, hash := some "changed" }

/-- A file is scanned, uploaded, edited and scanned. -/
def editScanned : List RowStatement :=
  [.file "r" 1 "a" written, .uploaded 0 "F" none, .file "r" 2 "a" edited]

theorem sync_states_agree_editScanned :
    Along after (fun t step => AllAgree "r" .twoWay (after t step))
      KeyedTable.empty editScanned := by
  refine (sync_states_agree_iff "r" .twoWay (Or.inl rfl) _).mpr ?_
  unfold editScanned
  rw [along_cons, along_cons, along_cons]
  refine ⟨?_, trivial, ?_, along_nil _⟩
  · intro e he
    cases he
  · -- the row is that of the upload, which nothing is owed to
    intro e he _ _ _ _ hupload
    cases Option.some.inj he
    exact absurd hupload (by decide)

/-- The next scan finds nothing new, and writes `unchanged`. -/
theorem not_sync_states_agree :
    ¬∀ (syncRootId : String) (mode : SyncMode),
      mode = .twoWay ∨ mode = .uploadOnly →
      ∀ steps, Along after
        (fun t step => AllAgree syncRootId mode (after t step))
        KeyedTable.empty steps := by
  intro hall
  have halong := hall "r" .twoWay (Or.inl rfl)
    (editScanned ++ [.file "r" 3 "a" edited])
  unfold editScanned at halong
  rw [List.cons_append, List.cons_append, List.cons_append, List.nil_append,
    along_cons, along_cons, along_cons, along_cons] at halong
  have hrow := halong.2.2.2.1 _ (List.mem_singleton.mpr rfl) rfl
  exact hrow.unchanged rfl (by decide)

end ArkiveSync.SyncStates
