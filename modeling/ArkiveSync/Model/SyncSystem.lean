import ArkiveSync.Model.PollingDaemon
import ArkiveSync.Model.RemoteSyncService

/-!
# The client as a whole

The daemon loop and the thread that answers commands share the tables and the
disk.  Each of them works through a list of roots it has read before: the loop
reads its list when it starts, a command when it is given.  The list is not
read again, so the flags, folders and modes in it may be out of date.

An operation is one call that either thread makes for one root, or one turn of
the queue.  The copy of a root an operation is given must be held by some
thread and be enabled, which is what both threads test.

## Main results

* `Allowed.held`: what a thread works on, some thread holds an enabled copy of.
-/

namespace ArkiveSync

open Library

/-- The daemon's state and the copies of roots that its threads hold. -/
structure SyncSystem where
  daemon : DaemonState
  copies : List SyncRoot

/-- What either thread, the user or a restart does next. -/
inductive Operation where
  | readRoots
  | restart
  | editDisk (disk : Disk)
  | scanRoot (syncRootId : String) (isDirectory : Bool)
      (listing : Option DirStream)
  | scanPath (cwd : FsPath) (syncRootId relativePath : String)
      (found : PathState)
  | enqueueEntry (syncRootId relativePath : String)
  | buildPage (env : QueueEnv) (syncRootId : String)
      (afterPath : Option String) (scanComplete : Bool)
  | folderJob (env : QueueEnv)
  | uploadBatch (env : QueueEnv)
  | remoteTurn (env : RemoteEnv) (root : SyncRoot)
  | reconcileRoot (env : ReconcileEnv) (root : SyncRoot)
  | addSyncRoot (env : SyncServiceEnv) (localPath : String)
      (folderId : Option String) (enabled : Option Bool)
      (mode : Option SyncMode)
  | removeSyncRoot (syncRootId : String)

/-- What an operation does outside the database: it scans a root, it changes
the disk on behalf of a root, or it issues a request that writes to the
remote. -/
inductive Activity where
  | scanned (syncRootId : String)
  | touched (syncRootId : String) (effect : FsEffect)
  | createRootFolder (syncRootId : String)
  | createFolder (entryId : Nat)
  | startUpload (entryId : Nat)
  deriving DecidableEq

namespace SyncSystem

/-- The tables. -/
abbrev store (s : SyncSystem) : SyncStore := s.daemon.store

/-- The rows. -/
abbrev entries (s : SyncSystem) : EntryTable := s.daemon.store.entries

/-- The roots in the database. -/
abbrev roots (s : SyncSystem) : List SyncRoot := s.daemon.store.roots

/-- The jobs. -/
abbrev queue (s : SyncSystem) : TransferQueue := s.daemon.store.queue

/-- The disk. -/
abbrev disk (s : SyncSystem) : Disk := s.daemon.disk

/-- The state with other tables. -/
def withStore (s : SyncSystem) (store : SyncStore) : SyncSystem :=
  { s with daemon := { s.daemon with store := store } }

/-- What a remote tick sees of the state. -/
def remoteState (s : SyncSystem) : RemoteState :=
  { roots := s.roots, entries := s.entries, disk := s.disk }

/-- The state after a remote tick. -/
def withRemote (s : SyncSystem) (r : RemoteState) : SyncSystem :=
  { s with
    daemon :=
      { s.daemon with
        store := { s.store with roots := r.roots, entries := r.entries }
        disk := r.disk } }

/-- The state after an operation. -/
def perform (s : SyncSystem) : Operation → SyncSystem
  | .readRoots => { s with copies := s.copies ++ s.roots }
  | .restart =>
      { daemon :=
          { s.daemon with
            store := { s.store with queue := QueueRepo.retryRunning s.queue }
            activeScans := fun _ => none }
        copies := s.roots }
  | .editDisk disk => { s with daemon := { s.daemon with disk := disk } }
  | .scanRoot syncRootId isDirectory listing =>
      { s with
        daemon := PollingDaemon.scanRoot syncRootId isDirectory listing
          s.daemon }
  | .scanPath cwd syncRootId relativePath found =>
      { s with
        daemon :=
          (PollingDaemon.scanPath cwd syncRootId relativePath found
            s.daemon).1 }
  | .enqueueEntry syncRootId relativePath =>
      s.withStore (QueueService.enqueueEntryAt syncRootId relativePath s.store)
  | .buildPage env syncRootId afterPath scanComplete =>
      match QueueService.buildPage env syncRootId afterPath scanComplete
        s.store with
      | none => s
      | some (store, _) => s.withStore store
  | .folderJob env =>
      match QueueRepo.claimNextQueuedByType s.queue .createFolder with
      | none => s
      | some (job, queue) =>
          s.withStore (QueueService.runFolderJob env job
            { s.store with queue := queue })
  | .uploadBatch env =>
      let claimed := QueueService.claimUploads kUploadBatchSize s.queue
      s.withStore (QueueService.runUploadBatch env s.disk claimed.1
        { s.store with queue := claimed.2 })
  | .remoteTurn env root =>
      s.withRemote (RemoteSyncService.scanTurn env root s.remoteState).state
  | .reconcileRoot env root =>
      { s with daemon := (PollingDaemon.reconcileRoot env root s.daemon).1 }
  | .addSyncRoot env localPath folderId enabled mode =>
      match SyncService.addSyncRoot env s.disk s.roots localPath folderId
        (enabled.getD true) (mode.getD .twoWay) with
      | none => s
      | some (roots, _) => s.withStore { s.store with roots := roots }
  | .removeSyncRoot syncRootId =>
      match SyncService.removeSyncRoot s.roots syncRootId with
      | none => s
      | some roots => s.withStore { s.store with roots := roots }

/-- `FolderCreateWorker::run` gets to its request. -/
def requestsFolder (s : SyncStore) (job : TransferJob) : Bool :=
  match EntryRepo.getEntryById s.entries job.entryId with
  | none => false
  | some e =>
      e.isDirectory &&
        (SyncRepo.findSyncRootById s.roots e.syncRootId).isSome &&
        (FolderCreateWorker.folderNameFromPath e.relativePath).isSome

/-- The items a batch of uploads starts. -/
def startedUploads (env : QueueEnv) (disk : Disk) (s : SyncStore) :
    List (TransferJob × Entry) :=
  let claimed := QueueService.claimUploads kUploadBatchSize s.queue
  UploadJobRunner.itemsOf (claimed.1.map (fun job =>
    (job, UploadJobRunner.prepareUploadItem env.cwd disk
      { s with queue := claimed.2 } job)))

/-- What an operation does outside the database. -/
def activities (s : SyncSystem) : Operation → List Activity
  | .scanRoot syncRootId isDirectory _ =>
      match SyncRepo.findSyncRootById s.roots syncRootId with
      | none => []
      | some root =>
          if root.enabled && isDirectory then [.scanned syncRootId] else []
  | .scanPath _ syncRootId _ _ =>
      match SyncRepo.findSyncRootById s.roots syncRootId with
      | none => []
      | some root => if root.localPath.isEmpty then [] else [.scanned syncRootId]
  | .buildPage env syncRootId _ _ =>
      if (FolderCreateWorker.startRootFolder env.cwd syncRootId s.roots).isSome
      then [.createRootFolder syncRootId] else []
  | .folderJob _ =>
      match QueueRepo.claimNextQueuedByType s.queue .createFolder with
      | none => []
      | some (job, _) =>
          if requestsFolder s.store job then [.createFolder job.entryId] else []
  | .uploadBatch env =>
      (startedUploads env s.disk s.store).map (fun item =>
        .startUpload item.2.id)
  | .remoteTurn env root =>
      .scanned root.id ::
        (RemoteSyncService.scanTurn env root s.remoteState).effects.map
          (.touched root.id)
  | .reconcileRoot env root =>
      (SyncReconciler.reconcileRoot env root
        { entries := s.entries, disk := s.disk }).effects.map
          (.touched root.id)
  | _ => []

/-- The remote objects that an operation creates, each with the root it is
created for. -/
def created (s : SyncSystem) : Operation → List (String × String)
  | .folderJob env =>
      match QueueRepo.claimNextQueuedByType s.queue .createFolder with
      | none => []
      | some (job, _) => (FolderCreateWorker.created env job s.store).toList
  | .uploadBatch env =>
      let items := startedUploads env s.disk s.store
      match env.uploadFilesBatch items with
      | none => []
      | some response =>
          items.filterMap (fun item =>
            (response item.1.id).map (fun fileId =>
              (item.2.syncRootId, fileId)))
  | _ => []

/-- The remote objects that an operation lists and records, each with the root
and the folder that is scanned. -/
def listed (s : SyncSystem) : Operation → List (String × String × String)
  | .remoteTurn env root =>
      match SyncRepo.findSyncRootById s.roots root.id with
      | none => []
      | some bound =>
          (RemoteScanner.scanRoot env.getJson env.vault bound env.fuel
            s.entries).upserts.map (fun u =>
              (root.id, bound.folderId, u.remoteId))
  | _ => []

/-- Some thread holds an enabled copy of the root. -/
def Held (s : SyncSystem) (syncRootId : String) : Prop :=
  ∃ root ∈ s.copies, root.id = syncRootId ∧ root.enabled = true

/-- What a thread may do: it works on copies that it holds and that are
enabled. -/
def Allowed (s : SyncSystem) : Operation → Prop
  | .scanRoot syncRootId _ _ => s.Held syncRootId
  | .scanPath _ syncRootId _ _ => s.Held syncRootId
  | .enqueueEntry syncRootId _ => s.Held syncRootId
  | .buildPage _ syncRootId _ _ => s.Held syncRootId
  | .remoteTurn _ root => root ∈ s.copies ∧ root.enabled = true
  | .reconcileRoot _ root => root ∈ s.copies ∧ root.enabled = true
  | _ => True

/-- The root that an operation of a thread is for. -/
def WorksOn (syncRootId : String) : Operation → Prop
  | .scanRoot id _ _ => id = syncRootId
  | .scanPath _ id _ _ => id = syncRootId
  | .enqueueEntry id _ => id = syncRootId
  | .buildPage _ id _ _ => id = syncRootId
  | .remoteTurn _ root => root.id = syncRootId
  | .reconcileRoot _ root => root.id = syncRootId
  | _ => False

/-- A thread works on roots of which some enabled copy is held. -/
theorem Allowed.held {s : SyncSystem} {op : Operation} {syncRootId : String}
    (h : s.Allowed op) (hworks : WorksOn syncRootId op) : s.Held syncRootId := by
  cases op with
  | scanRoot id isDirectory listing =>
      have hid : id = syncRootId := hworks
      rw [← hid]
      exact h
  | scanPath cwd id rel found =>
      have hid : id = syncRootId := hworks
      rw [← hid]
      exact h
  | enqueueEntry id rel =>
      have hid : id = syncRootId := hworks
      rw [← hid]
      exact h
  | buildPage env id after complete =>
      have hid : id = syncRootId := hworks
      rw [← hid]
      exact h
  | remoteTurn env root => exact ⟨root, h.1, hworks, h.2⟩
  | reconcileRoot env root => exact ⟨root, h.1, hworks, h.2⟩
  | readRoots => exact absurd hworks id
  | restart => exact absurd hworks id
  | editDisk disk => exact absurd hworks id
  | folderJob env => exact absurd hworks id
  | uploadBatch env => exact absurd hworks id
  | addSyncRoot env localPath folderId enabled mode => exact absurd hworks id
  | removeSyncRoot syncRootId => exact absurd hworks (fun h => h)

/-- One step of the client. -/
def Step (s : SyncSystem) (op : Operation) (s' : SyncSystem) : Prop :=
  s.Allowed op ∧ s' = s.perform op

end SyncSystem

end ArkiveSync
