import ArkiveSync.Library.Runs
import ArkiveSync.Model.LocalEntryRepo
import ArkiveSync.Model.QueueService

/-!
# Kinds of rows and kinds of remote ids

A remote id is the id of a folder or of a file.  A row has one remote id and
says of itself whether it is a directory.  The statements of local scans and
those after an upload or a new folder assign one of the two and leave the other
alone; a remote upsert assigns both.

## Main results

* `safe_iff_fits`: what a statement, or a request to the server, finds when it
  leaves rows and ids in agreement.
* `kinds_agree_iff`: a run keeps them in agreement exactly when all of its
  steps find that.
* `not_kinds_agree`: a directory is made where a remote file was.
-/

namespace ArkiveSync.RowKinds

open Library LocalEntryRepo RemoteEntryRepo QueueService

/-- What a remote id is the id of. -/
inductive RemoteKind where
  | folder
  | file
  deriving DecidableEq, Repr

/-! ## Statements and requests -/

/-- The statements on the rows, and the two places where the id of a row is
sent to the server: a reconciliation asks for files, and the upload of a row
names the folder above it. -/
inductive RowStep where
  | upsertDirectoryEntry (u : DirectoryEntryUpsert)
  | upsertFileEntry (u : FileEntryUpsert)
  | markEntriesNotSeenInScanDeleted (syncRootId : String) (scanJobId : Nat)
  | markPathDeleted (syncRootId relativePath : String)
  | markSubtreeEntriesNotSeenInScanDeleted (syncRootId relativePath : String)
      (scanJobId : Nat)
  | markRootRemoteDeleted (syncRootId now : String)
  | upsertRemoteEntry (u : RemoteEntryUpsert)
  | markEntryUploaded (entryId : Nat) (fileId : String)
      (parentFolderId : Option String)
  | markFolderCreated (entryId : Nat) (folderId : String)
      (parentFolderId : Option String)
  | markEntryDownloaded (entryId : Nat)
  | markEntryDownloadedAs (entryId : Nat) (size mtime : Int)
      (contentHash : String)
  | markConflict (entryId : Nat) (state : String)
  | reconcile (root : SyncRoot)
  | upload (root : SyncRoot) (relativePath : String)

/-- The rows behind a step; a remote upsert that the index rejects leaves them
as they are. -/
def after (t : EntryTable) : RowStep → EntryTable
  | .upsertDirectoryEntry u => LocalEntryRepo.upsertDirectoryEntry t u
  | .upsertFileEntry u => LocalEntryRepo.upsertFileEntry t u
  | .markEntriesNotSeenInScanDeleted syncRootId scanJobId =>
      LocalEntryRepo.markEntriesNotSeenInScanDeleted t syncRootId scanJobId
  | .markPathDeleted syncRootId relativePath =>
      LocalEntryRepo.markPathDeleted t syncRootId relativePath
  | .markSubtreeEntriesNotSeenInScanDeleted syncRootId relativePath
      scanJobId =>
      LocalEntryRepo.markSubtreeEntriesNotSeenInScanDeleted t syncRootId
        relativePath scanJobId
  | .markRootRemoteDeleted syncRootId now =>
      RemoteEntryRepo.markRootRemoteDeleted t syncRootId now
  | .upsertRemoteEntry u => (RemoteEntryRepo.upsertRemoteEntry t u).getD t
  | .markEntryUploaded entryId fileId parentFolderId =>
      RemoteEntryRepo.markEntryUploaded t entryId fileId parentFolderId
  | .markFolderCreated entryId folderId parentFolderId =>
      RemoteEntryRepo.markFolderCreated t entryId folderId parentFolderId
  | .markEntryDownloaded entryId =>
      RemoteEntryRepo.markEntryDownloaded t entryId
  | .markEntryDownloadedAs entryId size mtime contentHash =>
      RemoteEntryRepo.markEntryDownloadedAs t entryId size mtime contentHash
  | .markConflict entryId state => ConflictRepo.markConflict t entryId state
  | .reconcile _ => t
  | .upload _ _ => t

/-- The file that a reconciliation asks for when it comes to a row. -/
def asksFile (root : SyncRoot) (e : Entry) : Option String :=
  match decideEntry root.mode e with
  | .download => if e.isDirectory then none else e.remoteFileId
  | .conflict =>
      if e.isDirectory || e.remoteDeletedAt.isSome then none
      else e.remoteFileId
  | _ => none

/-- The folder that a row is uploaded to. -/
def asksParent (t : EntryTable) (root : SyncRoot) (e : Entry) :
    Option String :=
  if decideEntry root.mode e = .upload then resolveRemoteFolderId t root e
  else none

/-- The ids that a step sends, each with the kind it is sent as. -/
def asks (t : EntryTable) : RowStep → List (RemoteKind × String)
  | .reconcile root =>
      (EntryRepo.listEntriesBySyncRootId t root.id).filterMap (fun e =>
        (asksFile root e).map (fun id => (.file, id)))
  | .upload root relativePath =>
      match EntryRepo.findEntryByPath t root.id relativePath with
      | none => []
      | some e => (asksParent t root e).toList.map (fun id => (.folder, id))
  | _ => []

/-! ## Agreement -/

section Agreement

variable (kind : String → RemoteKind)

/-- What the server tells about an id has its kind, and so has the folder of a
root. -/
def Truthful : RowStep → Prop
  | .upsertRemoteEntry u =>
      (u.remoteType = "folder" ∧ kind u.remoteId = .folder ∧
        u.remoteFileId = none) ∨
      (u.remoteType = "file" ∧ kind u.remoteId = .file ∧
        u.remoteFileId = some u.remoteId)
  | .markEntryUploaded _ fileId _ => kind fileId = .file
  | .markFolderCreated _ folderId _ => kind folderId = .folder
  | .upload root _ => root.folderId ≠ "" → kind root.folderId = .folder
  | _ => True

/-- The remote id of a row is that of a folder or of a file, as the row is. -/
structure Agrees (e : Entry) : Prop where
  folder : ∀ id, e.remoteId = some id → e.isDirectory = true →
    kind id = .folder
  file : ∀ id, e.remoteId = some id → e.isDirectory = false →
    kind id = .file ∧ e.remoteFileId = some id

/-- A `remote_file_id` is the id of a file, also on a row that has become a
directory. -/
def OwnFile (e : Entry) : Prop :=
  ∀ id, e.remoteFileId = some id → kind id = .file

/-- All rows agree behind the step, and the ids it sends are of their kinds. -/
structure Safe (t : EntryTable) (step : RowStep) : Prop where
  rows : ∀ e ∈ (after t step).rows, Agrees kind e
  sent : ∀ x ∈ asks t step, kind x.2 = x.1

/-- The invariant of a run. -/
structure Inv (t : EntryTable) : Prop where
  rows : ∀ e ∈ t.rows, Agrees kind e
  files : ∀ e ∈ t.rows, OwnFile kind e

end Agreement

/-- A local scan may change what a row is: it has no remote id, or it loses it
with its deletion mark. -/
def Free (e : Entry) : Prop :=
  e.remoteId = none ∨ e.localDeletedAt.isSome = true

/-- What a step must find.  A path changes its kind only while its row is free;
an id goes to a row of its kind; and a row is uploaded below a directory. -/
def Fits (t : EntryTable) : RowStep → Prop
  | .upsertDirectoryEntry u => ∀ e,
      EntryRepo.findEntryByPath t u.syncRootId u.relativePath = some e →
      e.isDirectory = true ∨ Free e
  | .upsertFileEntry u => ∀ e,
      EntryRepo.findEntryByPath t u.syncRootId u.relativePath = some e →
      e.isDirectory = false ∨ Free e
  | .markEntryUploaded entryId _ _ => ∀ e ∈ t.rows, e.id = entryId →
      e.isDirectory = false
  | .markFolderCreated entryId _ _ => ∀ e ∈ t.rows, e.id = entryId →
      e.isDirectory = true
  | .upload root relativePath => ∀ e,
      EntryRepo.findEntryByPath t root.id relativePath = some e →
      decideEntry root.mode e = .upload →
      (FsPath.parse e.relativePath).parentPath.isEmpty = false →
      ∀ parent, EntryRepo.findEntryByPath t root.id
        (FsPath.parse e.relativePath).parentPath.genericString = some parent →
      parent.isDirectory = true ∨ parent.remoteId = none
  | _ => True

/-! ## The requests are those of the code -/

/-- A download puts the file in place that was asked for. -/
theorem asksFile_of_replace {env : ReconcileEnv} {root : SyncRoot} {e : Entry}
    {w : World} {fileId : String} {path : FsPath}
    (h : .replace fileId path ∈
      (SyncReconciler.reconcileEntry env root e w).effects) :
    asksFile root e = some fileId := by
  have hown : ∀ {own : String} {transfer : Transfer} {target : FsPath}
      {disk : Disk}, e.remoteFileId = some own →
      .replace fileId path ∈
        (SyncReconciler.downloadFile env e.id transfer own target
          disk).effects → e.remoteFileId = some fileId := by
    intro own transfer target disk hsome hmem
    rw [hsome, ((SyncReconciler.downloadFile_fetched env e.id transfer own
      target disk).target_of_replace hmem).1]
  unfold SyncReconciler.reconcileEntry at h
  unfold asksFile
  split at h
  · cases h
  split at h
  next hdec =>
      unfold SyncReconciler.applyDeleteLocal at h
      split at h
      · simp at h
      · simp at h
  next hdec =>
      rw [hdec]
      unfold SyncReconciler.applyConflict at h
      dsimp only at h ⊢
      split at h
      · cases h
      rename_i hfile
      split at h
      · cases h
      rename_i hlive
      rw [if_neg (by simpa [hfile] using hlive)]
      split at h
      next download own hdownload hsome =>
          split at h
          · cases h
          · exact hown hsome h
      next => cases h
  next hdec =>
      rw [hdec]
      unfold SyncReconciler.applyDownload at h
      dsimp only at h ⊢
      split at h
      · cases h
      rename_i hfile
      rw [if_neg hfile]
      split at h
      next download own hdownload hsome => exact hown hsome h
      next => cases h
  next => cases h

/-- A job that passing a row to the queue adds names the folder. -/
theorem asksParent_of_enqueue {root : SyncRoot} {e : Entry} {s : SyncStore}
    {j : TransferJob} (hj : j ∈ (enqueueEntry root e s).queue.jobs) :
    j ∈ s.queue.jobs ∨ j.remoteFolderId = asksParent s.entries root e := by
  rcases job_of_enqueueEntry hj with hold | hnew
  · exact Or.inl hold
  · unfold asksParent
    rw [if_pos hnew.upload]
    exact Or.inr hnew.resolved

/-- The item of a job names it, too. -/
theorem asksParent_of_prepare {cwd : FsPath} {disk : Disk} {s : SyncStore}
    {job : TransferJob} {e : Entry}
    (h : UploadJobRunner.prepareUploadItem cwd disk s job = .item e) :
    ∃ row root, EntryRepo.getEntryById s.entries job.entryId = some row ∧
      SyncRepo.findSyncRootById s.roots row.syncRootId = some root ∧
      e.parentFolderId = asksParent s.entries root row := by
  unfold UploadJobRunner.prepareUploadItem at h
  split at h
  · cases h
  rename_i row hrow
  split at h
  · cases h
  rename_i root hroot
  refine ⟨row, root, hrow, hroot, ?_⟩
  split at h
  · cases h
  rename_i hdec
  rw [not_not] at hdec
  unfold asksParent resolveRemoteFolderId
  rw [if_pos hdec, SyncRepo.id_of_find hroot]
  dsimp only at h ⊢
  split at h
  · cases h
  split at h
  · cases h
  split at h
  · rename_i hempty
    cases h
    rw [if_pos hempty]
  · rename_i hempty
    rw [if_neg hempty]
    split at h
    · cases h
    rename_i parent hparent
    cases h
    exact hparent.symm

/-! ## What the statements make of the rows -/

section Rows

variable {P : Entry → Prop} {t t' : EntryTable}

theorem rows_modify {p : Entry → Bool} {f : Entry → Entry}
    {hpk : ∀ e, (f e).id = e.id} {hkey : ∀ e, (f e).key = e.key}
    (h : ∀ e ∈ t.rows, P e) (hf : ∀ e ∈ t.rows, p e = true → P (f e)) :
    ∀ e ∈ (t.modify p f hpk hkey).rows, P e := by
  intro e he
  obtain ⟨g, hg, hsame⟩ := (t.mem_modify p f hpk hkey e).mp he
  rw [hsame]
  by_cases hp : p g = true
  · rw [if_pos hp]
    exact hf g hg hp
  · rw [if_neg hp]
    exact h g hg

theorem rows_markDeleted (p : Entry → Bool) (h : ∀ e ∈ t.rows, P e)
    (hf : ∀ e ∈ t.rows, P { e with syncState := .deleted }) :
    ∀ e ∈ (markDeleted t p).rows, P e := by
  intro e he
  obtain ⟨g, hg, hsame⟩ := (mem_markDeleted t p e).mp he
  rw [hsame]
  split
  · exact hf g hg
  · exact h g hg

theorem rows_updateById {entryId : Nat} {f : Entry → Entry}
    {hid : ∀ e, (f e).id = e.id} {hkey : ∀ e, (f e).key = e.key}
    (h : ∀ e ∈ t.rows, P e) (hf : ∀ e ∈ t.rows, e.id = entryId → P (f e)) :
    ∀ e ∈ (updateById t entryId f hid hkey).rows, P e := by
  refine rows_modify h ?_
  intro e he hsame
  exact hf e he (by simpa using hsame)

/-- An upsert at a path of a root. -/
theorem rows_upsert {root path : String} {new : Nat → Entry}
    {f : Entry → Entry} {hnewPk : ∀ n, (new n).id = n}
    {hnewKey : ∀ n, (new n).key = (root, path)}
    {hpk : ∀ e, (f e).id = e.id} {hkey : ∀ e, (f e).key = e.key}
    (h : ∀ e ∈ t.rows, P e) (hnew : ∀ n, P (new n))
    (hf : ∀ e, EntryRepo.findEntryByPath t root path = some e → P (f e)) :
    ∀ e ∈ (t.upsert (root, path) new f hnewPk hnewKey hpk hkey).rows, P e := by
  intro e he
  rcases (t.mem_upsert _ _ _ _ _ _ _ e).mp he with hsame | hold
  · rw [hsame]
    cases hl : t.lookup (root, path) with
    | none =>
        rw [KeyedTable.upserted_of_none hl]
        exact hnew _
    | some g =>
        rw [KeyedTable.upserted_of_some hl]
        exact hf g hl
  · exact h e hold.1

theorem rows_upsertRemoteEntry {u : RemoteEntryUpsert}
    (h : ∀ e ∈ t.rows, P e)
    (hupdate : ∀ e ∈ t.rows, e.remoteId = some u.remoteId →
      P (updateCarrier u e))
    (hnew : ∀ n, P (newRemote u n))
    (htake : ∀ e ∈ t.rows, P (takeOver u e)) :
    ∀ e ∈ ((RemoteEntryRepo.upsertRemoteEntry t u).getD t).rows, P e := by
  cases hu : RemoteEntryRepo.upsertRemoteEntry t u with
  | none => exact h
  | some t' =>
      intro e he
      rcases mem_upsertRemoteEntry hu e he with
        hcarried | htaken | hadded | hkept
      · obtain ⟨f, hf, hcarries, hsame⟩ := hcarried
        rw [hsame]
        exact hupdate f hf ((carries_iff u f).mp hcarries).2
      · obtain ⟨f, hf, -, hsame⟩ := htaken
        rw [hsame]
        exact htake f hf
      · rw [hadded.1]
        exact hnew _
      · exact h e hkept.1

end Rows

section Steps

variable {kind : String → RemoteKind} {t : EntryTable}

/-- The three columns that the property reads. -/
theorem Agrees.of_same {e f : Entry} (h : Agrees kind e)
    (hid : f.remoteId = e.remoteId) (hdir : f.isDirectory = e.isDirectory)
    (hfile : f.remoteFileId = e.remoteFileId) : Agrees kind f := by
  constructor
  · rw [hid, hdir]
    exact h.folder
  · rw [hid, hdir, hfile]
    exact h.file

/-- A row without a remote id. -/
theorem Agrees.of_none {e : Entry} (h : e.remoteId = none) :
    Agrees kind e := by
  constructor
  · intro id hid
    rw [h] at hid
    cases hid
  · intro id hid
    rw [h] at hid
    cases hid

theorem Agrees.of_folder {e : Entry} {id : String}
    (hid : e.remoteId = some id) (hdir : e.isDirectory = true)
    (hkind : kind id = .folder) : Agrees kind e := by
  constructor
  · intro id' hid' _
    rw [hid] at hid'
    cases hid'
    exact hkind
  · intro id' _ hfile
    rw [hdir] at hfile
    cases hfile

theorem Agrees.of_file {e : Entry} {id : String} (hid : e.remoteId = some id)
    (hdir : e.isDirectory = false) (hkind : kind id = .file)
    (hfile : e.remoteFileId = some id) : Agrees kind e := by
  constructor
  · intro id' _ hfolder
    rw [hdir] at hfolder
    cases hfolder
  · intro id' hid' _
    rw [hid] at hid'
    cases hid'
    exact ⟨hkind, hfile⟩

/-- A row that records what the server has told. -/
theorem agrees_of_records {u : RemoteEntryUpsert} {e : Entry}
    (hu : Truthful kind (.upsertRemoteEntry u))
    (hid : e.remoteId = some u.remoteId)
    (hdir : e.isDirectory = (u.remoteType == "folder"))
    (hfile : e.remoteFileId = u.remoteFileId) : Agrees kind e := by
  rcases hu with ⟨htype, hkind, -⟩ | ⟨htype, hkind, hown⟩
  · rw [htype] at hdir
    exact .of_folder hid hdir hkind
  · rw [htype] at hdir
    exact .of_file hid hdir hkind (hfile.trans hown)

theorem ownFile_of_records {u : RemoteEntryUpsert} {e : Entry}
    (hu : Truthful kind (.upsertRemoteEntry u))
    (hfile : e.remoteFileId = u.remoteFileId) : OwnFile kind e := by
  intro id hid
  rw [hfile] at hid
  rcases hu with ⟨-, -, hnone⟩ | ⟨-, hkind, hown⟩
  · rw [hnone] at hid
    cases hid
  · rw [hown] at hid
    cases hid
    exact hkind

/-- A row that names nothing, or was deleted, names nothing afterwards. -/
theorem unlessDeleted_of_free {e : Entry} (h : Free e) :
    unlessDeleted e e.remoteId = none := by
  unfold unlessDeleted
  rcases h with hnone | hdeleted
  · rw [hnone]
    split
    · rfl
    · rfl
  · rw [if_pos hdeleted]

/-- Any other row keeps its columns. -/
theorem unlessDeleted_of_not_free {e : Entry} (h : ¬Free e)
    (column : Option String) : unlessDeleted e column = column := by
  unfold unlessDeleted
  rw [if_neg (fun hdeleted => h (Or.inr hdeleted))]

/-- A row that becomes a directory, or stays one. -/
theorem agrees_updateDirectory {u : DirectoryEntryUpsert} {e : Entry}
    (h : Agrees kind e) :
    Agrees kind (updateDirectory u e) ↔ e.isDirectory = true ∨ Free e := by
  by_cases hfree : Free e
  · refine iff_of_true (.of_none ?_) (Or.inr hfree)
    exact unlessDeleted_of_free hfree
  · have hkept : (updateDirectory u e).remoteId = e.remoteId :=
      unlessDeleted_of_not_free hfree e.remoteId
    rw [or_iff_left hfree]
    constructor
    · intro hafter
      cases hid : e.remoteId with
      | none => exact absurd (Or.inl hid) hfree
      | some id =>
          have hfolder := hafter.folder id (hkept.trans hid) rfl
          by_contra hdir
          have hfile := (h.file id hid (by simpa using hdir)).1
          rw [hfile] at hfolder
          cases hfolder
    · intro hdir
      exact h.of_same hkept hdir.symm rfl

/-- A row that becomes a file, or stays one. -/
theorem agrees_updateFile {u : FileEntryUpsert} {e : Entry}
    (h : Agrees kind e) :
    Agrees kind (updateFile u e) ↔ e.isDirectory = false ∨ Free e := by
  by_cases hfree : Free e
  · refine iff_of_true (.of_none ?_) (Or.inr hfree)
    exact unlessDeleted_of_free hfree
  · have hkept : (updateFile u e).remoteId = e.remoteId :=
      unlessDeleted_of_not_free hfree e.remoteId
    have hown : (updateFile u e).remoteFileId = e.remoteFileId :=
      unlessDeleted_of_not_free hfree e.remoteFileId
    rw [or_iff_left hfree]
    constructor
    · intro hafter
      cases hid : e.remoteId with
      | none => exact absurd (Or.inl hid) hfree
      | some id =>
          have hfile := (hafter.file id (hkept.trans hid) rfl).1
          by_contra hdir
          have hfolder := h.folder id hid (by simpa using hdir)
          rw [hfile] at hfolder
          cases hfolder
    · intro hdir
      exact h.of_same hkept hdir.symm hown

/-- What goes on being the id of a file. -/
theorem ownFile_updateFile {u : FileEntryUpsert} {e : Entry}
    (h : OwnFile kind e) : OwnFile kind (updateFile u e) := by
  intro id hid
  have hkept : unlessDeleted e e.remoteFileId = some id := hid
  unfold unlessDeleted at hkept
  split at hkept
  · cases hkept
  · exact h id hkept

variable {step : RowStep}

/-- A step that finds what it must find keeps the invariant. -/
theorem inv_after (hinv : Inv kind t) (htrue : Truthful kind step)
    (hfits : Fits t step) : Inv kind (after t step) := by
  have hrows : ∀ e ∈ t.rows, Agrees kind e ∧ OwnFile kind e :=
    fun e he => ⟨hinv.rows e he, hinv.files e he⟩
  have hfound : ∀ {root path e},
      EntryRepo.findEntryByPath t root path = some e →
      Agrees kind e ∧ OwnFile kind e :=
    fun h => hrows _ (KeyedTable.mem_of_lookup h)
  -- Most statements assign none of the three columns.
  have hquiet : ∀ e f, e ∈ t.rows → f.remoteId = e.remoteId →
      f.isDirectory = e.isDirectory → f.remoteFileId = e.remoteFileId →
      Agrees kind f ∧ OwnFile kind f := by
    intro e f he hid hdir hfile
    refine ⟨(hrows e he).1.of_same hid hdir hfile, ?_⟩
    intro id hown
    exact (hrows e he).2 id (hfile.symm.trans hown)
  suffices hafter : ∀ e ∈ (after t step).rows, Agrees kind e ∧ OwnFile kind e by
    exact ⟨fun e he => (hafter e he).1, fun e he => (hafter e he).2⟩
  cases step with
  | upsertDirectoryEntry u =>
      unfold after LocalEntryRepo.upsertDirectoryEntry
      refine rows_upsert hrows ?_ ?_
      · intro n
        exact ⟨.of_none rfl, fun id hid => by cases hid⟩
      · intro e he
        exact ⟨(agrees_updateDirectory (hfound he).1).mpr (hfits e he),
          (hfound he).2⟩
  | upsertFileEntry u =>
      unfold after LocalEntryRepo.upsertFileEntry
      refine rows_upsert hrows ?_ ?_
      · intro n
        exact ⟨.of_none rfl, fun id hid => by cases hid⟩
      · intro e he
        exact ⟨(agrees_updateFile (hfound he).1).mpr (hfits e he),
          ownFile_updateFile (hfound he).2⟩
  | markEntriesNotSeenInScanDeleted syncRootId scanJobId =>
      exact rows_markDeleted _ hrows (fun e he => hquiet e _ he rfl rfl rfl)
  | markPathDeleted syncRootId relativePath =>
      exact rows_markDeleted _ hrows (fun e he => hquiet e _ he rfl rfl rfl)
  | markSubtreeEntriesNotSeenInScanDeleted syncRootId relativePath scanJobId =>
      exact rows_markDeleted _ hrows (fun e he => hquiet e _ he rfl rfl rfl)
  | markRootRemoteDeleted syncRootId now =>
      unfold after RemoteEntryRepo.markRootRemoteDeleted
      refine rows_modify hrows ?_
      intro e he _
      exact hquiet e _ he rfl rfl rfl
  | upsertRemoteEntry u =>
      refine rows_upsertRemoteEntry hrows ?_ ?_ ?_
      · intro e _ hid
        exact ⟨agrees_of_records htrue hid rfl rfl,
          ownFile_of_records htrue rfl⟩
      · intro n
        exact ⟨agrees_of_records htrue rfl rfl rfl,
          ownFile_of_records htrue rfl⟩
      · intro e _
        exact ⟨agrees_of_records htrue rfl rfl rfl,
          ownFile_of_records htrue rfl⟩
  | markEntryUploaded entryId fileId parentFolderId =>
      unfold after RemoteEntryRepo.markEntryUploaded
      refine rows_updateById hrows ?_
      intro e he hid
      refine ⟨.of_file rfl (hfits e he hid) htrue rfl, ?_⟩
      intro id hfile
      cases hfile
      exact htrue
  | markFolderCreated entryId folderId parentFolderId =>
      unfold after RemoteEntryRepo.markFolderCreated
      refine rows_updateById hrows ?_
      intro e he hid
      exact ⟨.of_folder rfl (hfits e he hid) htrue, (hrows e he).2⟩
  | markEntryDownloaded entryId =>
      unfold after RemoteEntryRepo.markEntryDownloaded
      refine rows_updateById hrows ?_
      intro e he _
      exact hquiet e _ he rfl rfl rfl
  | markEntryDownloadedAs entryId size mtime contentHash =>
      unfold after RemoteEntryRepo.markEntryDownloadedAs
      refine rows_updateById hrows ?_
      intro e he _
      exact hquiet e _ he rfl rfl rfl
  | markConflict entryId state =>
      unfold after ConflictRepo.markConflict
      refine rows_updateById hrows ?_
      intro e he _
      exact hquiet e _ he rfl rfl rfl
  | reconcile root => exact hrows
  | upload root relativePath => exact hrows

/-! ## What is sent -/

/-- A reconciliation asks for files only. -/
theorem kind_of_asksFile (hinv : Inv kind t) {root : SyncRoot} {e : Entry}
    (he : e ∈ t.rows) {id : String} (hasks : asksFile root e = some id) :
    kind id = .file := by
  have hown : e.remoteFileId = some id := by
    unfold asksFile at hasks
    split at hasks
    · split at hasks
      · cases hasks
      · exact hasks
    · split at hasks
      · cases hasks
      · exact hasks
    · cases hasks
  exact hinv.files e he id hown

/-- The row above a row. -/
theorem asksParent_cases {root : SyncRoot} {e : Entry} {id : String}
    (hasks : asksParent t root e = some id) :
    decideEntry root.mode e = .upload ∧
      (id = root.folderId ∧ root.folderId ≠ "" ∨
        (FsPath.parse e.relativePath).parentPath.isEmpty = false ∧
          ∃ parent, EntryRepo.findEntryByPath t root.id
              (FsPath.parse e.relativePath).parentPath.genericString =
                some parent ∧
            parent.remoteId = some id) := by
  unfold asksParent at hasks
  split at hasks
  · rename_i hdec
    refine ⟨hdec, ?_⟩
    unfold resolveRemoteFolderId at hasks
    dsimp only at hasks
    split at hasks
    · split at hasks
      · rename_i hfolder
        cases hasks
        exact Or.inl ⟨rfl, hfolder⟩
      · cases hasks
    · rename_i hnested
      rw [Option.bind_eq_some_iff] at hasks
      exact Or.inr ⟨by simpa using hnested, hasks⟩
  · cases hasks

/-- Below the root, an upload names a folder when the row above it, if it has
an id, is a directory. -/
theorem kind_of_parent (hinv : Inv kind t) {root : SyncRoot} {path : String}
    {parent : Entry} {id : String}
    (hparent : EntryRepo.findEntryByPath t root.id path = some parent)
    (hid : parent.remoteId = some id) :
    kind id = .folder ↔ parent.isDirectory = true ∨ parent.remoteId = none := by
  have hagrees := hinv.rows parent (KeyedTable.mem_of_lookup hparent)
  constructor
  · intro hfolder
    by_contra hnot
    rw [not_or] at hnot
    have hfile := (hagrees.file id hid (by simpa using hnot.1)).1
    rw [hfolder] at hfile
    cases hfile
  · intro hfits
    rcases hfits with hdir | hnone
    · exact hagrees.folder id hid hdir
    · rw [hid] at hnone
      cases hnone

theorem sent_iff_fits (hinv : Inv kind t) {root : SyncRoot}
    {relativePath : String}
    (htrue : Truthful kind (.upload root relativePath)) :
    (∀ x ∈ asks t (.upload root relativePath), kind x.2 = x.1) ↔
      Fits t (.upload root relativePath) := by
  constructor
  · intro hsent e he hdec hnested parent hparent
    cases hid : parent.remoteId with
    | none => exact Or.inr rfl
    | some id =>
        have hasks : asksParent t root e = some id := by
          unfold asksParent resolveRemoteFolderId
          rw [if_pos hdec]
          dsimp only
          rw [if_neg (by simpa using hnested), hparent]
          exact hid
        have hmem : (RemoteKind.folder, id) ∈
            asks t (.upload root relativePath) := by
          unfold asks
          dsimp only
          rw [he]
          dsimp only
          rw [hasks]
          exact List.mem_singleton.mpr rfl
        rw [← hid]
        exact (kind_of_parent hinv hparent hid).mp (hsent _ hmem)
  · intro hfits x hx
    unfold asks at hx
    dsimp only at hx
    split at hx
    · cases hx
    rename_i e he
    obtain ⟨id, hid, hsame⟩ := List.mem_map.mp hx
    rw [Option.mem_toList] at hid
    subst hsame
    obtain ⟨hdec, hroot | ⟨hnested, parent, hparent, hremote⟩⟩ :=
      asksParent_cases hid
    · rw [hroot.1]
      exact htrue hroot.2
    · exact (kind_of_parent hinv hparent hremote).mpr
        (hfits e he hdec hnested parent hparent)

/-! ## A step -/

/-- A step that leaves rows and ids in agreement found what it must find. -/
theorem fits_of_safe (hinv : Inv kind t) (htrue : Truthful kind step)
    (hsafe : Safe kind t step) : Fits t step := by
  cases step with
  | upsertDirectoryEntry u =>
      intro e he
      have hself := findEntryByPath_upsertDirectory_self t u
      rw [KeyedTable.upserted_of_some he] at hself
      exact (agrees_updateDirectory (hinv.rows e
        (KeyedTable.mem_of_lookup he))).mp
          (hsafe.rows _ (KeyedTable.mem_of_lookup hself))
  | upsertFileEntry u =>
      intro e he
      have hself := findEntryByPath_upsertFile_self t u
      rw [KeyedTable.upserted_of_some he] at hself
      exact (agrees_updateFile (hinv.rows e
        (KeyedTable.mem_of_lookup he))).mp
          (hsafe.rows _ (KeyedTable.mem_of_lookup hself))
  | markEntryUploaded entryId fileId parentFolderId =>
      intro e he hid
      have hrows := hsafe.rows
      unfold after RemoteEntryRepo.markEntryUploaded at hrows
      have hafter := hrows _ ((mem_updateById _).mpr ⟨e, he, rfl⟩)
      rw [if_pos hid] at hafter
      by_contra hdir
      have hfolder := hafter.folder fileId rfl (by simpa using hdir)
      rw [show kind fileId = .file from htrue] at hfolder
      cases hfolder
  | markFolderCreated entryId folderId parentFolderId =>
      intro e he hid
      have hrows := hsafe.rows
      unfold after RemoteEntryRepo.markFolderCreated at hrows
      have hafter := hrows _ ((mem_updateById _).mpr ⟨e, he, rfl⟩)
      rw [if_pos hid] at hafter
      by_contra hdir
      have hfile := (hafter.file folderId rfl (by simpa using hdir)).1
      rw [show kind folderId = .folder from htrue] at hfile
      cases hfile
  | upload root relativePath => exact (sent_iff_fits hinv htrue).mp hsafe.sent
  | _ => trivial

/-- Rows and ids are in agreement behind a step exactly when the step found what
it must find. -/
theorem safe_iff_fits (hinv : Inv kind t) (htrue : Truthful kind step) :
    Safe kind t step ↔ Fits t step := by
  constructor
  · exact fits_of_safe hinv htrue
  · intro hfits
    refine ⟨(inv_after hinv htrue hfits).rows, ?_⟩
    cases step with
    | reconcile root =>
        intro x hx
        obtain ⟨e, he, hasks⟩ := List.mem_filterMap.mp hx
        obtain ⟨id, hid, hsame⟩ := Option.map_eq_some_iff.mp hasks
        subst hsame
        exact kind_of_asksFile hinv
          ((EntryRepo.mem_listEntries t root.id e).mp he).1 hid
    | upload root relativePath => exact (sent_iff_fits hinv htrue).mpr hfits
    | _ =>
        intro x hx
        cases hx

end Steps

/-! ## Runs -/

theorem inv_empty (kind : String → RemoteKind) :
    Inv kind KeyedTable.empty := by
  constructor
  · intro e he
    cases he
  · intro e he
    cases he

/-- From the empty table, rows and ids are in agreement behind every step of a
run exactly when every step finds what it must find. -/
theorem kinds_agree_iff (kind : String → RemoteKind) (steps : List RowStep)
    (htrue : ∀ step ∈ steps, Truthful kind step) :
    Along after (Safe kind) KeyedTable.empty steps ↔
      Along after Fits KeyedTable.empty steps := by
  refine safe_iff_meets (P := Inv kind) ?_ ?_ _ (inv_empty kind)
  · intro step hstep t hinv
    exact safe_iff_fits hinv (htrue step hstep)
  · intro step hstep t hinv hsafe
    exact inv_after hinv (htrue step hstep)
      (fits_of_safe hinv (htrue step hstep) hsafe)

/-! ## A folder, and a file that becomes one -/

/-- The ids of one folder and of files. -/
def kindOf (id : String) : RemoteKind :=
  if id = "D" then .folder else .file

/-- A new directory gets its folder. -/
theorem kinds_agree_folder :
    Along after (Safe kindOf) KeyedTable.empty
      [.upsertDirectoryEntry
          { syncRootId := "r", relativePath := "d", lastSeenScanId := 1 },
        .markFolderCreated 0 "D" none] := by
  refine (kinds_agree_iff kindOf _ ?_).mpr ?_
  · intro step hstep
    rcases List.mem_cons.mp hstep with hfirst | hrest
    · rw [hfirst]
      trivial
    · rw [List.mem_singleton.mp hrest]
      rfl
  · rw [along_cons, along_cons]
    refine ⟨?_, ?_, along_nil _⟩
    · intro e he
      cases he
    · intro e he _
      rw [List.mem_singleton.mp he]
      rfl

/-- The file `F` of the server is listed at a path where the user then makes a
directory. -/
def becomesDirectory : List RowStep :=
  [.upsertRemoteEntry
      { syncRootId := "r", remoteId := "F", localPath := "a"
        remoteType := "file", remoteFileId := some "F", remoteDeletedAt := none
        remoteUpdatedAt := "1" },
    .upsertDirectoryEntry
      { syncRootId := "r", relativePath := "a", lastSeenScanId := 1 }]

/-- The directory keeps the id of the file. -/
theorem not_kinds_agree :
    ¬∀ (kind : String → RemoteKind) (steps : List RowStep),
      (∀ step ∈ steps, Truthful kind step) →
      Along after (Safe kind) KeyedTable.empty steps := by
  intro hall
  have htrue : ∀ step ∈ becomesDirectory, Truthful kindOf step := by
    intro step hstep
    rcases List.mem_cons.mp hstep with hfirst | hrest
    · rw [hfirst]
      exact Or.inr ⟨rfl, rfl, rfl⟩
    · rw [List.mem_singleton.mp hrest]
      trivial
  have halong := hall kindOf becomesDirectory htrue
  unfold becomesDirectory at halong
  rw [along_cons, along_cons] at halong
  have hrow := halong.2.1.rows _ (List.mem_singleton.mpr rfl)
  exact absurd (hrow.folder "F" rfl rfl) (by decide)

end ArkiveSync.RowKinds
