import ArkiveSync.Library.Runs
import ArkiveSync.Model.QueueRepo
import ArkiveSync.Model.RemoteEntryRepo
import ArkiveSync.Model.SyncReconciler

/-!
# Producing and running transfers

`QueueService` pages through the rows of a root in path order and makes a job
for each row the policy wants to upload, then runs the jobs: folders first, one
by one (`FolderCreateWorker`), then files in batches (`UploadJobRunner`).  A row
below a folder without a remote id is passed over.

The answers of the server are the environment of a call.  An exception inside a
job is caught and fails the job; one inside `buildPage` is not caught.

## Main results

* `enqueueEntry_accepted`: a row to be uploaded that is not passed over has an
  active job afterwards.
* `runTick_run`: a tick is a run of its turns.
* `runTick_claims_none`: with as many turns as there are jobs both loops of
  `runTick` come to their end.
-/

namespace ArkiveSync

open Library

/-- `kQueueBuildPageSize`. -/
def kQueueBuildPageSize : Nat := 500

/-- `kUploadBatchSize`. -/
def kUploadBatchSize : Nat := 100

/-- The tables the queue works on. -/
structure SyncStore where
  roots : List SyncRoot
  entries : EntryTable
  queue : TransferQueue

/-- What the jobs find around them: the server's answers, `none` for an
exception.  A batch of uploads throws as a whole, or ends for each job with a
file id or an error. -/
structure QueueEnv where
  cwd : FsPath
  createRootFolder : String → Option String
  createFolder : TransferJob → String → Option (String × Option String)
  uploadFilesBatch : List (TransferJob × Entry) → Option (Nat → Option String)

/-- `QueueBuildPage`. -/
structure QueueBuildPage where
  nextPath : Option String
  complete : Bool
  deriving DecidableEq, Repr

namespace SyncRepo

/-- `findSyncRootById`. -/
def findSyncRootById (roots : List SyncRoot) (syncRootId : String) :
    Option SyncRoot :=
  roots.find? (fun r => r.id == syncRootId)

/-- `upsertSyncRoot`. -/
def upsertSyncRoot (roots : List SyncRoot) (input : SyncRoot) :
    List SyncRoot :=
  if roots.any (fun r => r.id == input.id) then
    roots.map (fun r => if r.id == input.id then input else r)
  else roots ++ [input]

theorem id_of_find {roots : List SyncRoot} {id : String} {root : SyncRoot}
    (h : findSyncRootById roots id = some root) : root.id = id := by
  unfold findSyncRootById at h
  simpa using List.find?_some h

/-- An upsert writes its input only. -/
theorem mem_upsertSyncRoot {roots : List SyncRoot} {input r : SyncRoot}
    (h : r ∈ upsertSyncRoot roots input) : r ∈ roots ∨ r = input := by
  unfold upsertSyncRoot at h
  split at h
  · obtain ⟨q, hq, rfl⟩ := List.mem_map.mp h
    split
    · exact Or.inr rfl
    · exact Or.inl hq
  · rcases List.mem_append.mp h with h | h
    · exact Or.inl h
    · exact Or.inr (List.mem_singleton.mp h)

private theorem find_replace_self (roots : List SyncRoot) (input : SyncRoot)
    (h : roots.any (fun r => r.id == input.id) = true) :
    (roots.map (fun r => if r.id == input.id then input else r)).find?
      (fun r => r.id == input.id) = some input := by
  induction roots with
  | nil => simp at h
  | cons r rs ih =>
      by_cases hr : r.id = input.id
      · simp [hr]
      · simp only [List.any_cons, Bool.or_eq_true, beq_iff_eq, hr,
          false_or] at h
        rw [List.map_cons, if_neg (by simpa using hr),
          List.find?_cons_of_neg (by simpa using hr)]
        exact ih (by simpa using h)

private theorem find_replace_other (roots : List SyncRoot) (input : SyncRoot)
    {id : String} (hid : id ≠ input.id) :
    (roots.map (fun r => if r.id == input.id then input else r)).find?
      (fun r => r.id == id) = roots.find? (fun r => r.id == id) := by
  induction roots with
  | nil => rfl
  | cons r rs ih =>
      by_cases hr : r.id = input.id
      · have hne : r.id ≠ id := fun h => hid (h.symm.trans hr)
        rw [List.map_cons, if_pos (by simpa using hr),
          List.find?_cons_of_neg (by simpa using hid.symm),
          List.find?_cons_of_neg (by simpa using hne)]
        exact ih
      · rw [List.map_cons, if_neg (by simpa using hr)]
        by_cases hself : r.id = id
        · rw [List.find?_cons_of_pos (by simpa using hself),
            List.find?_cons_of_pos (by simpa using hself)]
        · rw [List.find?_cons_of_neg (by simpa using hself),
            List.find?_cons_of_neg (by simpa using hself)]
          exact ih

theorem find_upsert_self (roots : List SyncRoot) (input : SyncRoot) :
    findSyncRootById (upsertSyncRoot roots input) input.id = some input := by
  unfold upsertSyncRoot findSyncRootById
  split
  next hany => exact find_replace_self roots input hany
  next hany =>
      have hnone : roots.find? (fun r => r.id == input.id) = none := by
        rw [List.find?_eq_none]
        intro r hr hid
        exact hany (List.any_eq_true.mpr ⟨r, hr, hid⟩)
      rw [List.find?_append, hnone]
      simp

theorem find_upsert_other (roots : List SyncRoot) (input : SyncRoot)
    {id : String} (hid : id ≠ input.id) :
    findSyncRootById (upsertSyncRoot roots input) id =
      findSyncRootById roots id := by
  unfold upsertSyncRoot findSyncRootById
  split
  next => exact find_replace_other roots input hid
  next =>
      have hnone : [input].find? (fun r => r.id == id) = none := by
        simpa using hid.symm
      rw [List.find?_append, hnone, Option.or_none]

end SyncRepo

namespace FolderCreateWorker

/-- `folderNameFromPath`; `none` is the exception for an empty name. -/
def folderNameFromPath (relativePath : String) : Option String :=
  let name := (FsPath.parse relativePath).lexicallyNormal.filename
  if name = "" then none else some name

/-- `folderNameFromLocalPath`. -/
def folderNameFromLocalPath (cwd : FsPath) (localPath : String) :
    Option String :=
  match normalizeFsPath cwd localPath with
  | none => none
  | some text =>
      let path := FsPath.parse text
      let name :=
        if path.filename = "" then path.parentPath.filename else path.filename
      if name = "" then none else some name

/-- `ensureRootFolder`.  The row is written with the default mode. -/
def ensureRootFolder (env : QueueEnv) (syncRootId : String) (s : SyncStore) :
    Option SyncStore :=
  match SyncRepo.findSyncRootById s.roots syncRootId with
  | none => none
  | some root =>
      if root.folderId ≠ "" then some s
      else
        match folderNameFromLocalPath env.cwd root.localPath with
        | none => none
        | some name =>
            match env.createRootFolder name with
            | none => none
            | some created =>
                some
                  { s with
                    roots := SyncRepo.upsertSyncRoot s.roots
                      { id := root.id, localPath := root.localPath
                        folderId := created, enabled := root.enabled
                        mode := .twoWay } }

/-- `run`. -/
def run (env : QueueEnv) (job : TransferJob) (s : SyncStore) :
    Option SyncStore :=
  match EntryRepo.getEntryById s.entries job.entryId with
  | none => none
  | some e =>
      if !e.isDirectory then none
      else
        match SyncRepo.findSyncRootById s.roots e.syncRootId with
        | none => none
        | some _ =>
            match folderNameFromPath e.relativePath with
            | none => none
            | some name =>
                match env.createFolder job name with
                | none => none
                | some (id, parentFolderId) =>
                    some
                      { s with
                        entries := RemoteEntryRepo.markFolderCreated s.entries
                          job.entryId id parentFolderId }

/-- The root and the remote id of the folder that `run` creates, if it gets an
answer. -/
def created (env : QueueEnv) (job : TransferJob) (s : SyncStore) :
    Option (String × String) :=
  match EntryRepo.getEntryById s.entries job.entryId with
  | none => none
  | some e =>
      if !e.isDirectory then none
      else
        match SyncRepo.findSyncRootById s.roots e.syncRootId with
        | none => none
        | some _ =>
            (folderNameFromPath e.relativePath).bind (fun name =>
              (env.createFolder job name).map (fun answer =>
                (e.syncRootId, answer.1)))

end FolderCreateWorker

namespace UploadJobRunner

/-- What `prepareUploadItem` comes to: an exception, nothing to upload, or the
row with its parent folder. -/
inductive Prepared where
  | threw
  | nothing
  | item (e : Entry)
  deriving DecidableEq

/-- The file a row speaks of is the one on the disk, by its size and time. -/
def isCurrent (e : Entry) (file : LocalFile) : Bool :=
  (match e.size with
    | none => true
    | some size =>
        decide ((file.content.length : Int) = size % 18446744073709551616)) &&
  (match e.mtime with
    | none => true
    | some mtime => toMtimeMs file.mtime == mtime)

/-- `prepareUploadItem`. -/
def prepareUploadItem (cwd : FsPath) (disk : Disk) (s : SyncStore)
    (job : TransferJob) : Prepared :=
  match EntryRepo.getEntryById s.entries job.entryId with
  | none => .threw
  | some e =>
      match SyncRepo.findSyncRootById s.roots e.syncRootId with
      | none => .threw
      | some root =>
          if decideEntry root.mode e ≠ .upload then .nothing
          else
            let absolutePath := (cwd.append (FsPath.parse root.localPath)).append
              (FsPath.parse e.relativePath)
            let parentPath := (FsPath.parse e.relativePath).parentPath
            match disk.file? absolutePath.loc with
            | none => .threw
            | some file =>
                if !isCurrent e file then .threw
                else if parentPath.isEmpty then
                  .item
                    { e with
                      parentFolderId :=
                        if root.folderId ≠ "" then some root.folderId
                        else none }
                else
                  match (EntryRepo.findEntryByPath s.entries e.syncRootId
                    parentPath.genericString).bind Entry.remoteId with
                  | none => .threw
                  | some parent => .item { e with parentFolderId := some parent }

/-- The items of a batch. -/
def itemsOf (prepared : List (TransferJob × Prepared)) :
    List (TransferJob × Entry) :=
  prepared.filterMap (fun x =>
    match x.2 with
    | .item e => some (x.1, e)
    | _ => none)

/-- The rows after the uploads of a batch. -/
def markUploaded (response : Nat → Option String)
    (items : List (TransferJob × Entry)) (t : EntryTable) : EntryTable :=
  items.foldl (fun t item =>
    match response item.1.id with
    | none => t
    | some fileId =>
        RemoteEntryRepo.markEntryUploaded t item.1.entryId fileId
          item.2.parentFolderId) t

/-- `runBatch`: the rows afterwards, and for each job whether its result has no
error. -/
def runBatch (env : QueueEnv) (disk : Disk) (jobs : List TransferJob)
    (s : SyncStore) : SyncStore × List (TransferJob × Bool) :=
  let prepared := jobs.map (fun job =>
    (job, prepareUploadItem env.cwd disk s job))
  let items := itemsOf prepared
  if items.isEmpty then
    (s, prepared.map (fun x => (x.1, decide (x.2 ≠ .threw))))
  else
    match env.uploadFilesBatch items with
    | none => (s, jobs.map (fun job => (job, false)))
    | some response =>
        ({ s with entries := markUploaded response items s.entries },
          prepared.map (fun x =>
            (x.1,
              match x.2 with
              | .threw => false
              | .nothing => true
              | .item _ => (response x.1.id).isSome)))

end UploadJobRunner

namespace QueueService

/-- `resolveRemoteFolderId`. -/
def resolveRemoteFolderId (t : EntryTable) (root : SyncRoot) (e : Entry) :
    Option String :=
  let parentPath := (FsPath.parse e.relativePath).parentPath
  if parentPath.isEmpty then
    if root.folderId ≠ "" then some root.folderId else none
  else
    (EntryRepo.findEntryByPath t root.id parentPath.genericString).bind
      Entry.remoteId

/-- The private `enqueueEntry`. -/
def enqueueEntry (root : SyncRoot) (e : Entry) (s : SyncStore) : SyncStore :=
  if decideEntry root.mode e ≠ .upload then s
  else
    let remoteFolderId := resolveRemoteFolderId s.entries root e
    let parentPath := (FsPath.parse e.relativePath).parentPath
    if remoteFolderId.isNone && !parentPath.isEmpty then s
    else if e.isDirectory then
      if e.remoteId.isSome ||
          QueueRepo.hasActiveJobForEntry s.queue e.id .createFolder then s
      else
        { s with
          queue := QueueRepo.enqueueCreateFolder s.queue e.id e.relativePath
            remoteFolderId }
    else
      match e.size with
      | none => s
      | some size =>
          if QueueRepo.hasActiveJobForEntry s.queue e.id .uploadFile ||
              decide (size < 0) then s
          else
            { s with
              queue := QueueRepo.enqueueUploadFile s.queue e.id e.relativePath
                remoteFolderId size.toNat }

/-- The public `enqueueEntry`. -/
def enqueueEntryAt (syncRootId relativePath : String) (s : SyncStore) :
    SyncStore :=
  match SyncRepo.findSyncRootById s.roots syncRootId with
  | none => s
  | some root =>
      match EntryRepo.findEntryByPath s.entries syncRootId relativePath with
      | none => s
      | some e => enqueueEntry root e s

/-- The rows of a page, each passed to `enqueueEntry`. -/
def enqueuePage (root : SyncRoot) (page : List Entry) (s : SyncStore) :
    SyncStore :=
  page.foldl (fun s e => enqueueEntry root e s) s

/-- `buildPage`; `none` when it throws. -/
def buildPage (env : QueueEnv) (syncRootId : String) (afterPath : Option String)
    (scanComplete : Bool) (s : SyncStore) :
    Option (SyncStore × QueueBuildPage) :=
  match FolderCreateWorker.ensureRootFolder env syncRootId s with
  | none => none
  | some s =>
      match SyncRepo.findSyncRootById s.roots syncRootId with
      | none => some (s, { nextPath := none, complete := true })
      | some root =>
          let page := EntryRepo.listEntriesBySyncRootIdAfterPath s.entries
            syncRootId afterPath kQueueBuildPageSize
          some (enqueuePage root page s,
            match page.getLast? with
            | none => { nextPath := none, complete := scanComplete }
            | some last =>
                { nextPath := some last.relativePath
                  complete := scanComplete &&
                    decide (page.length < kQueueBuildPageSize) })

/-- A claimed folder job, from the claim to its mark. -/
def runFolderJob (env : QueueEnv) (job : TransferJob) (s : SyncStore) :
    SyncStore :=
  match FolderCreateWorker.run env job s with
  | none => { s with queue := QueueRepo.markFailed s.queue job.id }
  | some done => { done with queue := QueueRepo.markDone done.queue job.id }

/-- The first loop of `runTick`. -/
def runFolderJobs (env : QueueEnv) : Nat → SyncStore → SyncStore
  | 0, s => s
  | turns + 1, s =>
      match QueueRepo.claimNextQueuedByType s.queue .createFolder with
      | none => s
      | some (job, queue) =>
          runFolderJobs env turns (runFolderJob env job { s with queue := queue })

/-- The jobs of one batch. -/
def claimUploads : Nat → TransferQueue → List TransferJob × TransferQueue
  | 0, q => ([], q)
  | n + 1, q =>
      match QueueRepo.claimNextQueuedByType q .uploadFile with
      | none => ([], q)
      | some (job, q') =>
          let rest := claimUploads n q'
          (job :: rest.1, rest.2)

/-- The marks after a batch. -/
def markResults (results : List (TransferJob × Bool)) (q : TransferQueue) :
    TransferQueue :=
  results.foldl (fun q r =>
    if r.2 then QueueRepo.markDone q r.1.id
    else QueueRepo.markFailed q r.1.id) q

/-- A claimed batch, from the claims to the marks. -/
def runUploadBatch (env : QueueEnv) (disk : Disk) (jobs : List TransferJob)
    (s : SyncStore) : SyncStore :=
  let done := UploadJobRunner.runBatch env disk jobs s
  { done.1 with queue := markResults done.2 done.1.queue }

/-- The second loop of `runTick`. -/
def runUploadBatches (env : QueueEnv) (disk : Disk) : Nat → SyncStore → SyncStore
  | 0, s => s
  | turns + 1, s =>
      let claimed := claimUploads kUploadBatchSize s.queue
      if claimed.1.isEmpty then s
      else
        runUploadBatches env disk turns
          (runUploadBatch env disk claimed.1 { s with queue := claimed.2 })

/-- `runTick`; each turn of a loop takes a queued job, so there are no more
turns than jobs. -/
def runTick (env : QueueEnv) (disk : Disk) (s : SyncStore) : SyncStore :=
  let turns := s.queue.jobs.length
  runUploadBatches env disk turns (runFolderJobs env turns s)

/-! ## What the production does -/

section Production

variable {root : SyncRoot} {e : Entry} {s : SyncStore}

/-- The row is not passed over when it is to be uploaded: its parent folder has
a remote id, a folder has none of its own, and a file has a size. -/
structure Accepted (t : EntryTable) (root : SyncRoot) (e : Entry) : Prop where
  parent : (FsPath.parse e.relativePath).parentPath.isEmpty = true ∨
    (resolveRemoteFolderId t root e).isSome = true
  folder : e.isDirectory = true → e.remoteId = none
  file : e.isDirectory = false → ∃ size, e.size = some size ∧ 0 ≤ size

@[simp] theorem entries_enqueueEntry :
    (enqueueEntry root e s).entries = s.entries := by
  unfold enqueueEntry
  simp only
  repeat' split
  all_goals rfl

@[simp] theorem roots_enqueueEntry :
    (enqueueEntry root e s).roots = s.roots := by
  unfold enqueueEntry
  simp only
  repeat' split
  all_goals rfl

/-- No job goes away. -/
theorem mem_enqueueEntry {j : TransferJob} (hj : j ∈ s.queue.jobs) :
    j ∈ (enqueueEntry root e s).queue.jobs := by
  unfold enqueueEntry
  simp only
  repeat' split
  all_goals first | exact hj | exact QueueRepo.mem_enqueue hj

/-- A row to be uploaded that is not passed over has an active job. -/
theorem enqueueEntry_accepted (hdec : decideEntry root.mode e = .upload)
    (haccepted : Accepted s.entries root e) :
    ∃ j ∈ (enqueueEntry root e s).queue.jobs,
      j.entryId = e.id ∧ j.status.active = true := by
  have hactive : ∀ {q : TransferQueue} {jobType : JobType},
      (∃ j ∈ q.jobs, j.isActiveFor e.id jobType = true) →
        ∃ j ∈ q.jobs, j.entryId = e.id ∧ j.status.active = true := by
    intro q jobType h
    obtain ⟨j, hj, hfor⟩ := h
    simp only [TransferJob.isActiveFor, Bool.and_eq_true, beq_iff_eq] at hfor
    exact ⟨j, hj, hfor.1.1, hfor.2⟩
  have hhas : ∀ {jobType : JobType},
      QueueRepo.hasActiveJobForEntry s.queue e.id jobType = true →
        ∃ j ∈ s.queue.jobs, j.entryId = e.id ∧ j.status.active = true :=
    fun h => hactive (List.any_eq_true.mp h)
  have hparent : ((resolveRemoteFolderId s.entries root e).isNone &&
      !(FsPath.parse e.relativePath).parentPath.isEmpty) = false := by
    rcases haccepted.parent with h | h
    · simp [h]
    · cases hr : resolveRemoteFolderId s.entries root e with
      | none =>
          rw [hr] at h
          cases h
      | some id => simp
  unfold enqueueEntry
  simp only [hdec, ne_eq, not_true_eq_false, if_false, hparent,
    Bool.false_eq_true]
  cases hdir : e.isDirectory with
  | true =>
      simp only [if_true, haccepted.folder hdir, Option.isSome_none,
        Bool.false_or]
      split
      next h => exact hhas h
      next => exact hactive (QueueRepo.exists_job_of_enqueue _ _ _ _ _ _)
  | false =>
      obtain ⟨size, hsize, hnonneg⟩ := haccepted.file hdir
      have hnot : ¬size < 0 := by omega
      simp only [Bool.false_eq_true, if_false, hsize, hnot, decide_false,
        Bool.or_false]
      split
      next h => exact hhas h
      next => exact hactive (QueueRepo.exists_job_of_enqueue _ _ _ _ _ _)

variable {page : List Entry}

@[simp] theorem entries_enqueuePage :
    (enqueuePage root page s).entries = s.entries := by
  unfold enqueuePage
  induction page generalizing s with
  | nil => rfl
  | cons e es ih =>
      rw [List.foldl_cons, ih]
      exact entries_enqueueEntry

@[simp] theorem roots_enqueuePage :
    (enqueuePage root page s).roots = s.roots := by
  unfold enqueuePage
  induction page generalizing s with
  | nil => rfl
  | cons e es ih =>
      rw [List.foldl_cons, ih]
      exact roots_enqueueEntry

theorem mem_enqueuePage {j : TransferJob} (hj : j ∈ s.queue.jobs) :
    j ∈ (enqueuePage root page s).queue.jobs := by
  unfold enqueuePage
  induction page generalizing s with
  | nil => exact hj
  | cons e es ih => exact ih (mem_enqueueEntry hj)

/-- Every row of a page that is not passed over has an active job. -/
theorem enqueuePage_accepted (he : e ∈ page)
    (hdec : decideEntry root.mode e = .upload)
    (haccepted : Accepted s.entries root e) :
    ∃ j ∈ (enqueuePage root page s).queue.jobs,
      j.entryId = e.id ∧ j.status.active = true := by
  induction page generalizing s with
  | nil => cases he
  | cons f fs ih =>
      have hcons : enqueuePage root (f :: fs) s =
          enqueuePage root fs (enqueueEntry root f s) := rfl
      rw [hcons]
      rcases List.mem_cons.mp he with rfl | he
      · obtain ⟨j, hj, hentry, hactive⟩ := enqueueEntry_accepted hdec haccepted
        exact ⟨j, mem_enqueuePage hj, hentry, hactive⟩
      · apply ih he
        rw [entries_enqueueEntry]
        exact haccepted

/-- A job that passing a row to the queue adds is one of the row, which is to
be uploaded, for the parent folder that was resolved. -/
structure Queued (t : EntryTable) (root : SyncRoot) (e : Entry)
    (j : TransferJob) : Prop where
  entry : j.entryId = e.id
  path : j.localPath = e.relativePath
  upload : decideEntry root.mode e = .upload
  resolved : j.remoteFolderId = resolveRemoteFolderId t root e
  placed : (FsPath.parse e.relativePath).parentPath.isEmpty = true ∨
    (resolveRemoteFolderId t root e).isSome = true
  folder : j.jobType = .createFolder → e.isDirectory = true ∧ e.remoteId = none
  file : j.jobType = .uploadFile → e.isDirectory = false

theorem job_of_enqueueEntry {j : TransferJob}
    (hj : j ∈ (enqueueEntry root e s).queue.jobs) :
    j ∈ s.queue.jobs ∨ Queued s.entries root e j := by
  unfold enqueueEntry at hj
  dsimp only at hj
  split at hj
  · exact Or.inl hj
  rename_i hdec
  have hupload : decideEntry root.mode e = .upload := by simpa using hdec
  split at hj
  · exact Or.inl hj
  rename_i hparent
  have hplaced : (FsPath.parse e.relativePath).parentPath.isEmpty = true ∨
      (resolveRemoteFolderId s.entries root e).isSome = true := by
    cases hresolve : resolveRemoteFolderId s.entries root e with
    | none => simpa [hresolve] using hparent
    | some id => exact Or.inr rfl
  split at hj
  · rename_i hdirectory
    split at hj
    · exact Or.inl hj
    rename_i hmissing
    have hnone : e.remoteId = none := by
      cases hid : e.remoteId with
      | none => rfl
      | some id => simp [hid] at hmissing
    rcases QueueRepo.job_of_enqueue hj with
      hold | ⟨hentry, htype, hpath, hfolder⟩
    · exact Or.inl hold
    · exact Or.inr
        { entry := hentry
          path := hpath
          upload := hupload
          resolved := hfolder
          placed := hplaced
          folder := fun _ => ⟨hdirectory, hnone⟩
          file := fun hfile => by rw [htype] at hfile; cases hfile }
  · rename_i hdirectory
    have hisFile : e.isDirectory = false := by simpa using hdirectory
    split at hj
    · exact Or.inl hj
    split at hj
    · exact Or.inl hj
    rcases QueueRepo.job_of_enqueue hj with
      hold | ⟨hentry, htype, hpath, hfolder⟩
    · exact Or.inl hold
    · exact Or.inr
        { entry := hentry
          path := hpath
          upload := hupload
          resolved := hfolder
          placed := hplaced
          folder := fun hcreate => by rw [htype] at hcreate; cases hcreate
          file := fun _ => hisFile }

/-- So does a page, for its rows. -/
theorem job_of_enqueuePage {j : TransferJob}
    (hj : j ∈ (enqueuePage root page s).queue.jobs) :
    j ∈ s.queue.jobs ∨ ∃ e ∈ page, Queued s.entries root e j := by
  unfold enqueuePage at hj
  induction page generalizing s with
  | nil => exact Or.inl hj
  | cons f fs ih =>
      rw [List.foldl_cons] at hj
      rcases ih hj with hfirst | ⟨e, he, hn⟩
      · rcases job_of_enqueueEntry hfirst with hold | hnew
        · exact Or.inl hold
        · exact Or.inr ⟨f, by simp, hnew⟩
      · rw [entries_enqueueEntry] at hn
        exact Or.inr ⟨e, List.mem_cons_of_mem f he, hn⟩

end Production

/-! ## What a page does -/

/-- The root folder exists already, or the root is bound to a new one. -/
theorem ensureRootFolder_cases {env : QueueEnv} {id : String} {s s' : SyncStore}
    (h : FolderCreateWorker.ensureRootFolder env id s = some s') :
    ∃ root, SyncRepo.findSyncRootById s.roots id = some root ∧
      ((root.folderId ≠ "" ∧ s' = s) ∨
        (root.folderId = "" ∧ ∃ created, s' =
          { s with
            roots := SyncRepo.upsertSyncRoot s.roots
              { root with folderId := created, mode := .twoWay } })) := by
  unfold FolderCreateWorker.ensureRootFolder at h
  split at h
  next => cases h
  next root hroot =>
      refine ⟨root, hroot, ?_⟩
      split at h
      next hfolder =>
          cases h
          exact Or.inl ⟨hfolder, rfl⟩
      next hfolder =>
          right
          split at h
          next => cases h
          next =>
              split at h
              next => cases h
              next created _ =>
                  cases h
                  exact ⟨by simpa using hfolder, created, rfl⟩

theorem ensureRootFolder_frame {env : QueueEnv} {id : String}
    {s s' : SyncStore}
    (h : FolderCreateWorker.ensureRootFolder env id s = some s') :
    s'.entries = s.entries ∧ s'.queue = s.queue := by
  obtain ⟨_, _, hcases⟩ := ensureRootFolder_cases h
  rcases hcases with ⟨_, rfl⟩ | ⟨_, _, rfl⟩
  · exact ⟨rfl, rfl⟩
  · exact ⟨rfl, rfl⟩

/-- What a page leaves: the root's folder is there, and every row of the page
was passed to the queue. -/
theorem buildPage_cases {env : QueueEnv} {id : String}
    {afterPath : Option String} {scanComplete : Bool} {s s' : SyncStore}
    {page : QueueBuildPage}
    (h : buildPage env id afterPath scanComplete s = some (s', page)) :
    ∃ s₁ root, FolderCreateWorker.ensureRootFolder env id s = some s₁ ∧
      SyncRepo.findSyncRootById s₁.roots id = some root ∧
      s' = enqueuePage root (EntryRepo.listEntriesBySyncRootIdAfterPath
        s.entries id afterPath kQueueBuildPageSize) s₁ ∧
      page =
        match (EntryRepo.listEntriesBySyncRootIdAfterPath s.entries id afterPath
          kQueueBuildPageSize).getLast? with
        | none => { nextPath := none, complete := scanComplete }
        | some last =>
            { nextPath := some last.relativePath
              complete := scanComplete && decide
                ((EntryRepo.listEntriesBySyncRootIdAfterPath s.entries id
                  afterPath kQueueBuildPageSize).length <
                    kQueueBuildPageSize) } := by
  unfold buildPage at h
  split at h
  next => cases h
  next s₁ hensure =>
      obtain ⟨root, hroot, hcases⟩ := ensureRootFolder_cases hensure
      have hentries : s₁.entries = s.entries :=
        (ensureRootFolder_frame hensure).1
      have hfound : ∃ root', SyncRepo.findSyncRootById s₁.roots id =
          some root' := by
        rcases hcases with ⟨_, rfl⟩ | ⟨_, created, rfl⟩
        · exact ⟨root, hroot⟩
        · rw [← SyncRepo.id_of_find hroot]
          exact ⟨_, SyncRepo.find_upsert_self s.roots
            { root with folderId := created, mode := .twoWay }⟩
      obtain ⟨root', hroot'⟩ := hfound
      rw [hroot', hentries] at h
      simp only [Option.some.injEq, Prod.mk.injEq] at h
      exact ⟨s₁, root', hensure, hroot', h.1.symm, h.2.symm⟩

/-! ## What a tick does to the queue -/

section Tick

open QueueRepo

/-- The claims of a batch finish no job, and the claimed ones are in the
table. -/
theorem claimUploads_cases (n : Nat) (q : TransferQueue)
    {finished : Nat → Prop} :
    Advances finished q (claimUploads n q).2 ∧
      ∀ job ∈ (claimUploads n q).1, ∃ k ∈ (claimUploads n q).2.jobs,
        k.id = job.id ∧ k.entryId = job.entryId := by
  induction n generalizing q with
  | zero => exact ⟨.refl q, by simp [claimUploads]⟩
  | succ n ih =>
      unfold claimUploads
      split
      next => exact ⟨.refl q, by simp⟩
      next job q' hclaim =>
          obtain ⟨hjob, hadvances⟩ := claim_cases hclaim
          obtain ⟨hrest, hclaimed⟩ := ih q'
          refine ⟨hadvances.trans hrest, ?_⟩
          intro job' hjob'
          rcases List.mem_cons.mp hjob' with rfl | hjob'
          · obtain ⟨k, hk, hid, hentry, _⟩ := hrest job' hjob
            exact ⟨k, hk, hid, hentry⟩
          · exact hclaimed job' hjob'

/-- The claimed jobs were queued, and no other job became active. -/
theorem jobsFrom_claimUploads (n : Nat) (q : TransferQueue) :
    (∀ job ∈ (claimUploads n q).1, ∃ k ∈ q.jobs, Succeeds k job ∧
        k.status.active = true ∧ k.jobType = .uploadFile) ∧
      JobsFrom q (claimUploads n q).2 := by
  induction n generalizing q with
  | zero => exact ⟨by simp [claimUploads], .refl q⟩
  | succ n ih =>
      unfold claimUploads
      split
      next => exact ⟨by simp, .refl q⟩
      next job q' hclaim =>
          obtain ⟨hclaimed, hfrom⟩ := jobsFrom_claim hclaim
          obtain ⟨hrest, hrestFrom⟩ := ih q'
          refine ⟨?_, hfrom.trans hrestFrom⟩
          intro j hj
          rcases List.mem_cons.mp hj with rfl | hj
          · exact hclaimed
          · obtain ⟨k, hk, hkj, hactive, htype⟩ := hrest j hj
            obtain ⟨i, hi, hik⟩ := hfrom k hk
            refine ⟨i, hi, hik.trans hkj, hik.active hactive, ?_⟩
            rw [hik.same] at htype
            exact htype

theorem claimUploads_pending (n : Nat) (q : TransferQueue) :
    (∀ job ∈ (claimUploads n q).1, Pending q .uploadFile job.entryId) ∧
      ∀ ty m, Pending (claimUploads n q).2 ty m → Pending q ty m := by
  obtain ⟨hclaimed, hfrom⟩ := jobsFrom_claimUploads n q
  refine ⟨?_, fun ty m => hfrom.pending⟩
  intro job hjob
  obtain ⟨k, hk, hkjob, hactive, htype⟩ := hclaimed job hjob
  refine ⟨k, hk, ?_⟩
  rw [hkjob.same]
  simp [TransferJob.isActiveFor, hactive, htype]

/-- The marks of a batch make no job active. -/
theorem jobsFrom_markResults (results : List (TransferJob × Bool))
    (q : TransferQueue) : JobsFrom q (markResults results q) := by
  unfold markResults
  induction results generalizing q with
  | nil => exact .refl q
  | cons r rs ih =>
      rw [List.foldl_cons]
      refine JobsFrom.trans ?_ (ih _)
      split
      · exact jobsFrom_markDone r.1.id
      · exact jobsFrom_markFailed r.1.id

/-- The marks of a batch finish the jobs whose results have no error. -/
theorem advances_markResults (results : List (TransferJob × Bool))
    (q : TransferQueue) :
    Advances (fun n => ∃ r ∈ results, r.2 = true ∧ r.1.id = n) q
      (markResults results q) := by
  unfold markResults
  induction results generalizing q with
  | nil => exact .refl q
  | cons r rs ih =>
      rw [List.foldl_cons]
      have hmore : ∀ n, (∃ r' ∈ rs, r'.2 = true ∧ r'.1.id = n) →
          ∃ r' ∈ r :: rs, r'.2 = true ∧ r'.1.id = n := by
        intro n h
        obtain ⟨r', hr', hok, hid⟩ := h
        exact ⟨r', List.mem_cons_of_mem _ hr', hok, hid⟩
      refine Advances.trans ?_ ((ih _).mono hmore)
      split
      next hok =>
          exact (advances_markDone r.1.id).mono
            (fun n hn => ⟨r, List.mem_cons_self, hok, hn.symm⟩)
      next => exact advances_markFailed r.1.id

end Tick

/-! ## What a tick does to the rows -/

section TickRows

/-- A row that an upload was recorded on. -/
structure Uploaded (e : Entry) : Prop where
  clean : e.contentHash = e.syncedContentHash
  bound : e.remoteId.isSome = true
  live : e.remoteDeletedAt = none

/-- What a row of the table is after the uploads of a batch: the old row, which
none of them was for, or one that an upload was recorded on. -/
theorem mem_markUploaded {response : Nat → Option String}
    {items : List (TransferJob × Entry)} {t : EntryTable} {e : Entry}
    (he : e ∈ (UploadJobRunner.markUploaded response items t).rows) :
    ∃ f ∈ t.rows, f.id = e.id ∧ f.key = e.key ∧
      ((e = f ∧ ∀ item ∈ items, item.1.entryId = f.id →
        response item.1.id = none) ∨ Uploaded e) := by
  unfold UploadJobRunner.markUploaded at he
  induction items generalizing t with
  | nil => exact ⟨e, he, rfl, rfl, Or.inl ⟨rfl, by simp⟩⟩
  | cons item items ih =>
      rw [List.foldl_cons] at he
      obtain ⟨f, hf, hid, hkey, hcases⟩ := ih he
      cases hresponse : response item.1.id with
      | none =>
          rw [hresponse] at hf
          refine ⟨f, hf, hid, hkey, ?_⟩
          rcases hcases with ⟨rfl, hnone⟩ | huploaded
          · left
            refine ⟨rfl, ?_⟩
            intro item' hitem' hentry
            rcases List.mem_cons.mp hitem' with rfl | hitem'
            · exact hresponse
            · exact hnone item' hitem' hentry
          · exact Or.inr huploaded
      | some fileId =>
          rw [hresponse] at hf
          unfold RemoteEntryRepo.markEntryUploaded at hf
          obtain ⟨g, hg, hfg⟩ := (RemoteEntryRepo.mem_updateById f).mp hf
          by_cases hself : g.id = item.1.entryId
          · rw [if_pos hself] at hfg
            refine ⟨g, hg, ?_, ?_, Or.inr ?_⟩
            · rw [← hid, hfg]
            · rw [← hkey, hfg]
              rfl
            · rcases hcases with ⟨rfl, _⟩ | huploaded
              · rw [hfg]
                exact { clean := rfl, bound := rfl, live := rfl }
              · exact huploaded
          · rw [if_neg hself] at hfg
            subst hfg
            refine ⟨f, hg, hid, hkey, ?_⟩
            rcases hcases with ⟨rfl, hnone⟩ | huploaded
            · left
              refine ⟨rfl, ?_⟩
              intro item' hitem' hentry
              rcases List.mem_cons.mp hitem' with rfl | hitem'
              · exact absurd hentry.symm hself
              · exact hnone item' hitem' hentry
            · exact Or.inr huploaded

/-- What a prepared item says about its row: it is to be uploaded, and its file
is on the disk as the row has it. -/
theorem prepareUploadItem_item {cwd : FsPath} {disk : Disk} {s : SyncStore}
    {job : TransferJob} {e : Entry}
    (h : UploadJobRunner.prepareUploadItem cwd disk s job = .item e) :
    ∃ row root file parent,
      EntryRepo.getEntryById s.entries job.entryId = some row ∧
      SyncRepo.findSyncRootById s.roots row.syncRootId = some root ∧
      decideEntry root.mode row = .upload ∧
      disk.file? ((cwd.append (FsPath.parse root.localPath)).append
        (FsPath.parse row.relativePath)).loc = some file ∧
      UploadJobRunner.isCurrent row file = true ∧
      e = { row with parentFolderId := parent } := by
  unfold UploadJobRunner.prepareUploadItem at h
  split at h
  next => cases h
  next row hrow =>
      split at h
      next => cases h
      next root hroot =>
          split at h
          next => cases h
          next hdec =>
              simp only at h
              split at h
              next => cases h
              next file hfile =>
                  split at h
                  next => cases h
                  next hcurrent =>
                      refine ⟨row, root, file, ?_⟩
                      have hup : decideEntry root.mode row = .upload := by
                        simpa using hdec
                      have hcur : UploadJobRunner.isCurrent row file = true := by
                        simpa using hcurrent
                      split at h
                      next =>
                          cases h
                          exact ⟨_, hrow, hroot, hup, hfile, hcur, rfl⟩
                      next =>
                          split at h
                          next => cases h
                          next parent _ =>
                              cases h
                              exact ⟨_, hrow, hroot, hup, hfile, hcur, rfl⟩

/-- The items of a batch are those its jobs prepare. -/
theorem mem_itemsOf {prepared : List (TransferJob × UploadJobRunner.Prepared)}
    {item : TransferJob × Entry} :
    item ∈ UploadJobRunner.itemsOf prepared ↔
      (item.1, .item item.2) ∈ prepared := by
  unfold UploadJobRunner.itemsOf
  rw [List.mem_filterMap]
  constructor
  · rintro ⟨x, hx, hitem⟩
    obtain ⟨job, result⟩ := x
    cases result with
    | threw => cases hitem
    | nothing => cases hitem
    | item e =>
        cases hitem
        exact hx
  · intro h
    exact ⟨_, h, rfl⟩

/-- A folder job fails, or its row gets the remote id. -/
theorem runFolderJob_cases (env : QueueEnv) (job : TransferJob)
    (s : SyncStore) :
    runFolderJob env job s =
      { s with queue := QueueRepo.markFailed s.queue job.id } ∨
    ∃ id parentFolderId row,
      EntryRepo.getEntryById s.entries job.entryId = some row ∧
      row.isDirectory = true ∧
      FolderCreateWorker.created env job s = some (row.syncRootId, id) ∧
      runFolderJob env job s =
        { s with
          entries := RemoteEntryRepo.markFolderCreated s.entries job.entryId id
            parentFolderId
          queue := QueueRepo.markDone s.queue job.id } := by
  unfold runFolderJob FolderCreateWorker.run FolderCreateWorker.created
  cases hrow : EntryRepo.getEntryById s.entries job.entryId with
  | none => exact Or.inl rfl
  | some row =>
      cases hdir : row.isDirectory with
      | false => exact Or.inl (by simp [hdir])
      | true =>
          simp only [hdir, Bool.not_true, Bool.false_eq_true, if_false]
          cases SyncRepo.findSyncRootById s.roots row.syncRootId with
          | none => exact Or.inl rfl
          | some root =>
              cases hname : FolderCreateWorker.folderNameFromPath
                  row.relativePath with
              | none => exact Or.inl (by simp)
              | some name =>
                  simp only
                  cases hanswer : env.createFolder job name with
                  | none => exact Or.inl rfl
                  | some answer =>
                      refine Or.inr ⟨answer.1, answer.2, row, rfl, hdir, ?_, rfl⟩
                      simp [hanswer]

/-- The roots and jobs of a batch are left alone while it runs. -/
theorem runBatch_frame (env : QueueEnv) (disk : Disk) (jobs : List TransferJob)
    (s : SyncStore) :
    (UploadJobRunner.runBatch env disk jobs s).1.roots = s.roots ∧
      (UploadJobRunner.runBatch env disk jobs s).1.queue = s.queue := by
  unfold UploadJobRunner.runBatch
  simp only
  split
  next => exact ⟨rfl, rfl⟩
  next =>
      split
      · exact ⟨rfl, rfl⟩
      · exact ⟨rfl, rfl⟩

theorem jobsFrom_runUploadBatch (env : QueueEnv) (disk : Disk)
    (jobs : List TransferJob) (s : SyncStore) :
    QueueRepo.JobsFrom s.queue (runUploadBatch env disk jobs s).queue := by
  show QueueRepo.JobsFrom s.queue (markResults
    (UploadJobRunner.runBatch env disk jobs s).2
    (UploadJobRunner.runBatch env disk jobs s).1.queue)
  rw [(runBatch_frame env disk jobs s).2]
  exact jobsFrom_markResults _ _

/-- The results of a batch are those of its jobs. -/
theorem runBatch_results (env : QueueEnv) (disk : Disk)
    (jobs : List TransferJob) (s : SyncStore) {r : TransferJob × Bool}
    (hr : r ∈ (UploadJobRunner.runBatch env disk jobs s).2) : r.1 ∈ jobs := by
  unfold UploadJobRunner.runBatch at hr
  simp only [List.map_map] at hr
  split at hr
  next =>
      obtain ⟨job, hjob, rfl⟩ := List.mem_map.mp hr
      exact hjob
  next =>
      split at hr
      · obtain ⟨job, hjob, rfl⟩ := List.mem_map.mp hr
        exact hjob
      · obtain ⟨job, hjob, rfl⟩ := List.mem_map.mp hr
        exact hjob

/-- What a batch does to a row, and what its results say about it: a job with
no error found nothing to upload, or has uploaded its row. -/
theorem runBatch_cases (env : QueueEnv) (disk : Disk) (jobs : List TransferJob)
    (s : SyncStore) {e : Entry}
    (he : e ∈ (UploadJobRunner.runBatch env disk jobs s).1.entries.rows) :
    ∃ f ∈ s.entries.rows, f.id = e.id ∧ f.key = e.key ∧
      (Uploaded e ∨
        (e = f ∧ ∀ r ∈ (UploadJobRunner.runBatch env disk jobs s).2,
          r.2 = true → r.1.entryId = f.id → r.1 ∈ jobs ∧
            UploadJobRunner.prepareUploadItem env.cwd disk s r.1 =
              .nothing)) := by
  unfold UploadJobRunner.runBatch at he ⊢
  simp only at he ⊢
  split at he
  next hempty =>
      rw [if_pos hempty]
      refine ⟨e, he, rfl, rfl, Or.inr ⟨rfl, ?_⟩⟩
      intro r hr hok _
      obtain ⟨x, hx, rfl⟩ := List.mem_map.mp hr
      obtain ⟨job, hjob, rfl⟩ := List.mem_map.mp hx
      refine ⟨hjob, ?_⟩
      have hnot : UploadJobRunner.prepareUploadItem env.cwd disk s job ≠
          .threw := of_decide_eq_true hok
      cases hp : UploadJobRunner.prepareUploadItem env.cwd disk s job with
      | threw => exact absurd hp hnot
      | nothing => rfl
      | item f =>
          have hin : (job, f) ∈ UploadJobRunner.itemsOf (jobs.map (fun job =>
              (job, UploadJobRunner.prepareUploadItem env.cwd disk s job))) := by
            refine List.mem_filterMap.mpr ⟨_, List.mem_map.mpr
              ⟨job, hjob, rfl⟩, ?_⟩
            simp [hp]
          rw [List.isEmpty_iff.mp hempty] at hin
          cases hin
  next hitems =>
      rw [if_neg hitems]
      split at he
      next hthrown =>
          refine ⟨e, he, rfl, rfl, Or.inr ⟨rfl, ?_⟩⟩
          intro r hr hok _
          obtain ⟨job, _, rfl⟩ := List.mem_map.mp hr
          cases hok
      next response hresponse =>
          obtain ⟨f, hf, hid, hkey, hcases⟩ := mem_markUploaded he
          refine ⟨f, hf, hid, hkey, ?_⟩
          rcases hcases with ⟨heq, hnone⟩ | huploaded
          · right
            refine ⟨heq, ?_⟩
            intro r hr hok hentry
            obtain ⟨x, hx, rfl⟩ := List.mem_map.mp hr
            obtain ⟨job, hjob, rfl⟩ := List.mem_map.mp hx
            refine ⟨hjob, ?_⟩
            cases hp : UploadJobRunner.prepareUploadItem env.cwd disk s job with
            | threw =>
                rw [hp] at hok
                cases hok
            | nothing => rfl
            | item g =>
                have hin : (job, g) ∈ UploadJobRunner.itemsOf (jobs.map
                    (fun job => (job, UploadJobRunner.prepareUploadItem
                      env.cwd disk s job))) := by
                  refine List.mem_filterMap.mpr ⟨_, List.mem_map.mpr
                    ⟨job, hjob, rfl⟩, ?_⟩
                  simp [hp]
                have hfree := hnone (job, g) hin hentry
                rw [hp] at hok
                simp only at hok hfree
                rw [hfree] at hok
                cases hok
          · exact Or.inl huploaded

end TickRows

/-! ## A tick as a run -/

/-- One turn of a loop of `runTick`. -/
inductive TickStep (env : QueueEnv) (disk : Disk) :
    SyncStore → SyncStore → Prop where
  | folder (s : SyncStore) (job : TransferJob) (queue : TransferQueue)
      (hclaim : QueueRepo.claimNextQueuedByType s.queue .createFolder =
        some (job, queue)) :
      TickStep env disk s (runFolderJob env job { s with queue := queue })
  | batch (s : SyncStore) :
      TickStep env disk s
        (runUploadBatch env disk (claimUploads kUploadBatchSize s.queue).1
          { s with queue := (claimUploads kUploadBatchSize s.queue).2 })

theorem runFolderJobs_run (env : QueueEnv) (disk : Disk) (turns : Nat)
    (s : SyncStore) : Run (TickStep env disk) s (runFolderJobs env turns s) := by
  induction turns generalizing s with
  | zero => exact .refl
  | succ turns ih =>
      unfold runFolderJobs
      split
      next => exact .refl
      next job queue hclaim => exact .head (.folder s job queue hclaim) (ih _)

theorem runUploadBatches_run (env : QueueEnv) (disk : Disk) (turns : Nat)
    (s : SyncStore) :
    Run (TickStep env disk) s (runUploadBatches env disk turns s) := by
  induction turns generalizing s with
  | zero => exact .refl
  | succ turns ih =>
      unfold runUploadBatches
      simp only
      split
      next => exact .refl
      next => exact .head (.batch s) (ih _)

/-- A tick is a run of its turns. -/
theorem runTick_run (env : QueueEnv) (disk : Disk) (s : SyncStore) :
    Run (TickStep env disk) s (runTick env disk s) :=
  (runFolderJobs_run env disk _ s).trans (runUploadBatches_run env disk _ _)

/-- A turn keeps every row in its place, and makes none. -/
theorem TickStep.rows {env : QueueEnv} {disk : Disk} {s s' : SyncStore}
    (h : TickStep env disk s s') {e : Entry} (he : e ∈ s'.entries.rows) :
    ∃ f ∈ s.entries.rows, f.id = e.id ∧ f.key = e.key := by
  cases h with
  | folder job queue hclaim =>
      rcases runFolderJob_cases env job { s with queue := queue } with
        hfailed | ⟨id, parentFolderId, _, _, _, _, hdone⟩
      · rw [hfailed] at he
        exact ⟨e, he, rfl, rfl⟩
      · rw [hdone] at he
        have hmem : e ∈ (RemoteEntryRepo.markFolderCreated s.entries job.entryId
          id parentFolderId).rows := he
        unfold RemoteEntryRepo.markFolderCreated at hmem
        obtain ⟨f, hf, rfl⟩ := (RemoteEntryRepo.mem_updateById e).mp hmem
        refine ⟨f, hf, ?_⟩
        split <;> exact ⟨rfl, rfl⟩
  | batch =>
      obtain ⟨f, hf, hid, hkey, _⟩ := runBatch_cases env disk _ _ he
      exact ⟨f, hf, hid, hkey⟩

/-- A tick keeps every row in its place, and makes none. -/
theorem runTick_rows {env : QueueEnv} {disk : Disk} {s : SyncStore} {e : Entry}
    (he : e ∈ (runTick env disk s).entries.rows) :
    ∃ f ∈ s.entries.rows, f.id = e.id ∧ f.key = e.key := by
  have hall : ∀ s', Run (TickStep env disk) s s' → ∀ e ∈ s'.entries.rows,
      ∃ f ∈ s.entries.rows, f.id = e.id ∧ f.key = e.key := by
    intro s' hrun
    induction hrun with
    | refl => exact fun e he => ⟨e, he, rfl, rfl⟩
    | tail _ hlast ih =>
        intro e he
        obtain ⟨g, hg, hid, hkey⟩ := hlast.rows he
        obtain ⟨f, hf, hid', hkey'⟩ := ih g hg
        exact ⟨f, hf, hid'.trans hid, hkey'.trans hkey⟩
  exact hall _ (runTick_run env disk s) e he

/-! ## The end of a tick -/

section TickEnd

open QueueRepo

variable (env : QueueEnv) (disk : Disk)

theorem queuedOf_markResults_le (results : List (TransferJob × Bool))
    (q : TransferQueue) (jobType : JobType) :
    queuedOf (markResults results q) jobType ≤ queuedOf q jobType := by
  unfold markResults
  induction results generalizing q with
  | nil => exact Nat.le_refl _
  | cons r rs ih =>
      rw [List.foldl_cons]
      refine Nat.le_trans (ih _) ?_
      split
      · exact queuedOf_markDone_le q r.1.id jobType
      · exact queuedOf_markFailed_le q r.1.id jobType

/-- The claims of a batch queue no job. -/
theorem queuedOf_claimUploads_le (n : Nat) (q : TransferQueue)
    (jobType : JobType) :
    queuedOf (claimUploads n q).2 jobType ≤ queuedOf q jobType := by
  induction n generalizing q with
  | zero => exact Nat.le_refl _
  | succ n ih =>
      unfold claimUploads
      split
      next => exact Nat.le_refl _
      next job q' hclaim =>
          exact Nat.le_trans (ih q') (queuedOf_claim_le hclaim)

/-- A batch that is not empty takes a job from the queued ones. -/
theorem queuedOf_claimUploads_lt {n : Nat} {q : TransferQueue}
    (h : (claimUploads n q).1 ≠ []) :
    queuedOf (claimUploads n q).2 .uploadFile < queuedOf q .uploadFile := by
  cases n with
  | zero => exact absurd rfl h
  | succ n =>
      unfold claimUploads at h ⊢
      cases hclaim : claimNextQueuedByType q .uploadFile with
      | none =>
          rw [hclaim] at h
          exact absurd rfl h
      | some claimed =>
          exact Nat.lt_of_le_of_lt (queuedOf_claimUploads_le n _ _)
            (queuedOf_claim_lt hclaim)

/-- A batch is empty only when no upload is queued. -/
theorem queuedOf_of_claimUploads_nil {q : TransferQueue}
    (h : (claimUploads kUploadBatchSize q).1 = []) :
    queuedOf q .uploadFile = 0 := by
  rw [← claim_eq_none_iff]
  unfold kUploadBatchSize claimUploads at h
  split at h
  next hnone => exact hnone
  next => cases h

theorem queuedOf_runFolderJob_le (job : TransferJob) (s : SyncStore)
    (jobType : JobType) :
    queuedOf (runFolderJob env job s).queue jobType ≤
      queuedOf s.queue jobType := by
  rcases runFolderJob_cases env job s with hfailed | ⟨_, _, _, _, _, _, hdone⟩
  · rw [hfailed]
    exact queuedOf_markFailed_le s.queue job.id jobType
  · rw [hdone]
    exact queuedOf_markDone_le s.queue job.id jobType

theorem queuedOf_runUploadBatch_le (jobs : List TransferJob) (s : SyncStore)
    (jobType : JobType) :
    queuedOf (runUploadBatch env disk jobs s).queue jobType ≤
      queuedOf s.queue jobType := by
  have hle := queuedOf_markResults_le
    (UploadJobRunner.runBatch env disk jobs s).2
    (UploadJobRunner.runBatch env disk jobs s).1.queue jobType
  rw [(runBatch_frame env disk jobs s).2] at hle
  unfold runUploadBatch
  simp only
  rw [(runBatch_frame env disk jobs s).2]
  exact hle

/-- With a turn for every queued job no folder is left to be made. -/
theorem runFolderJobs_drains {turns : Nat} {s : SyncStore}
    (h : queuedOf s.queue .createFolder ≤ turns) :
    queuedOf (runFolderJobs env turns s).queue .createFolder = 0 := by
  induction turns generalizing s with
  | zero => exact Nat.le_zero.mp h
  | succ turns ih =>
      unfold runFolderJobs
      split
      next hnone => exact (claim_eq_none_iff _).mp hnone
      next job queue hclaim =>
          apply ih
          have hlt := queuedOf_claim_lt hclaim
          have hle := queuedOf_runFolderJob_le env job
            { s with queue := queue } .createFolder
          simp only at hle
          omega

/-- The folder jobs queue no uploads. -/
theorem queuedOf_runFolderJobs_le (turns : Nat) (s : SyncStore)
    (jobType : JobType) :
    queuedOf (runFolderJobs env turns s).queue jobType ≤
      queuedOf s.queue jobType := by
  induction turns generalizing s with
  | zero => exact Nat.le_refl _
  | succ turns ih =>
      unfold runFolderJobs
      split
      next => exact Nat.le_refl _
      next job queue hclaim =>
          have hclaimed : queuedOf queue jobType ≤ queuedOf s.queue jobType :=
            queuedOf_claim_le hclaim
          have hrun := queuedOf_runFolderJob_le env job
            { s with queue := queue } jobType
          have hrest := ih (runFolderJob env job { s with queue := queue })
          simp only at hrun
          omega

/-- With a turn for every queued upload none is left, and no folder job is
added. -/
theorem runUploadBatches_drains {turns : Nat} {s : SyncStore}
    (h : queuedOf s.queue .uploadFile ≤ turns) :
    queuedOf (runUploadBatches env disk turns s).queue .uploadFile = 0 ∧
      queuedOf (runUploadBatches env disk turns s).queue .createFolder ≤
        queuedOf s.queue .createFolder := by
  induction turns generalizing s with
  | zero => exact ⟨Nat.le_zero.mp h, Nat.le_refl _⟩
  | succ turns ih =>
      unfold runUploadBatches
      simp only
      split
      next hempty =>
          refine ⟨queuedOf_of_claimUploads_nil ?_, Nat.le_refl _⟩
          exact List.isEmpty_iff.mp hempty
      next hsome =>
          have hclaimed : ∀ jobType,
              queuedOf (claimUploads kUploadBatchSize s.queue).2 jobType ≤
                queuedOf s.queue jobType :=
            queuedOf_claimUploads_le kUploadBatchSize s.queue
          have hlt := queuedOf_claimUploads_lt
            (fun h => hsome (List.isEmpty_iff.mpr h))
          have hbatch := queuedOf_runUploadBatch_le env disk
            (claimUploads kUploadBatchSize s.queue).1
            { s with queue := (claimUploads kUploadBatchSize s.queue).2 }
          have hupload := hbatch .uploadFile
          have hfolder := hbatch .createFolder
          have hmade := hclaimed .createFolder
          simp only at hupload hfolder
          have hturns : queuedOf (runUploadBatch env disk
              (claimUploads kUploadBatchSize s.queue).1
              { s with queue := (claimUploads kUploadBatchSize s.queue).2 }).queue
                .uploadFile ≤ turns := by omega
          obtain ⟨hnone, hrest⟩ := ih hturns
          exact ⟨hnone, by omega⟩

/-- After a tick nothing is left to be claimed. -/
theorem runTick_claims_none (s : SyncStore) (jobType : JobType) :
    claimNextQueuedByType (runTick env disk s).queue jobType = none := by
  rw [claim_eq_none_iff]
  have hfolders : queuedOf (runFolderJobs env s.queue.jobs.length s).queue
      .createFolder = 0 := runFolderJobs_drains env List.countP_le_length
  have huploads : queuedOf (runFolderJobs env s.queue.jobs.length s).queue
      .uploadFile ≤ s.queue.jobs.length :=
    Nat.le_trans (queuedOf_runFolderJobs_le env _ s .uploadFile)
      List.countP_le_length
  obtain ⟨hnone, hle⟩ := runUploadBatches_drains env disk huploads
  unfold runTick
  simp only
  cases jobType with
  | createFolder => omega
  | uploadFile => exact hnone

end TickEnd

end QueueService

end ArkiveSync
