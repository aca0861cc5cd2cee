import ArkiveSync.Model.QueueService
import ArkiveSync.Model.RemoteScanner
import ArkiveSync.Model.RootScanner

/-!
# The polling loop

`PollingDaemon::run` keeps for each root a cursor into its rows and whether the
production of its queue is complete.  A root with a running scan job gets one
batch of the scan, one page of its queue and a tick of the queue; any other
root gets a page and then its dirty paths, each of them scanned, enqueued and
reconciled.

The loop owns copies of the roots; the services look a root up again.

## Main results

* `produceQueuePage_cases`: where a page leaves the cursor of its root, and
  when it ends the production.
-/

namespace ArkiveSync

open Library

/-- `DirtyPathEventType`. -/
inductive DirtyPathEventType where
  | scan
  | delete
  | fullRescan
  deriving DecidableEq, Repr

/-- `DirtyPathStatus`. -/
inductive DirtyPathStatus where
  | pending
  | running
  | done
  | failed
  deriving DecidableEq, Repr

/-- `DirtyPath`. -/
structure DirtyPath where
  id : Nat
  syncRootId : String
  relativePath : Option String
  eventType : DirtyPathEventType
  status : DirtyPathStatus
  deriving DecidableEq, Repr

namespace DirtyPathRepo

/-- The pending row that an insert for the path runs into. -/
def conflicts (syncRootId : String) (relativePath : Option String)
    (d : DirtyPath) : Bool :=
  d.syncRootId == syncRootId && d.status == .pending &&
    d.relativePath == relativePath &&
    (relativePath.isSome || d.eventType == .fullRescan)

/-- `insertDirtyPath`. -/
def insertDirtyPath (ps : List DirtyPath) (syncRootId : String)
    (relativePath : Option String) (action : DirtyPathEventType) :
    List DirtyPath :=
  if ps.any (conflicts syncRootId relativePath) then
    ps.map (fun d =>
      if conflicts syncRootId relativePath d then { d with eventType := action }
      else d)
  else
    ps ++ [{ id := ps.length, syncRootId := syncRootId
             relativePath := relativePath, eventType := action
             status := .pending }]

/-- The assignment of `status` to one dirty path. -/
def setStatus (ps : List DirtyPath) (id : Nat) (status : DirtyPathStatus) :
    List DirtyPath :=
  ps.map (fun d => if d.id == id then { d with status := status } else d)

/-- `claimNextPending`: the oldest pending path, else the oldest failed one. -/
def claimNextPending (ps : List DirtyPath) (syncRootId : String) :
    Option (DirtyPath × List DirtyPath) :=
  let oldest := fun status : DirtyPathStatus =>
    ps.find? (fun d => d.syncRootId == syncRootId && d.status == status)
  ((oldest .pending).or (oldest .failed)).map (fun d =>
    ({ d with status := .running }, setStatus ps d.id .running))

/-- `markDone`. -/
def markDone (ps : List DirtyPath) (id : Nat) : List DirtyPath :=
  setStatus ps id .done

/-- `markFailed`. -/
def markFailed (ps : List DirtyPath) (id : Nat) : List DirtyPath :=
  setStatus ps id .failed

end DirtyPathRepo

/-- The tables, the disk, the scanner's iterators and the loop's own maps. -/
structure DaemonState where
  store : SyncStore
  disk : Disk
  scanJobs : String → Option ScanJob
  nextScanJobId : Nat
  activeScans : String → Option (List DirItem)
  dirtyPaths : List DirtyPath
  queueCursors : String → Option String
  queueComplete : String → Bool

namespace PollingDaemon

/-- An assignment to one key of a map. -/
def assign {β : Type} (m : String → β) (k : String) (x : β) : String → β :=
  fun j => if j = k then x else m j

@[simp] theorem assign_self {β : Type} (m : String → β) (k : String) (x : β) :
    assign m k x k = x := by
  simp [assign]

theorem assign_other {β : Type} (m : String → β) {k j : String} (x : β)
    (h : j ≠ k) : assign m k x j = m j := by
  simp [assign, h]

/-- What the scanner keeps for one root. -/
def scanState (s : DaemonState) (syncRootId : String) : ScanState :=
  { entries := s.store.entries
    job := s.scanJobs syncRootId
    nextJobId := s.nextScanJobId
    activeScan := s.activeScans syncRootId }

/-- The state after a call of the scanner. -/
def withScanState (s : DaemonState) (syncRootId : String) (c : ScanState) :
    DaemonState :=
  { s with
    store := { s.store with entries := c.entries }
    scanJobs := assign s.scanJobs syncRootId c.job
    nextScanJobId := c.nextJobId
    activeScans := assign s.activeScans syncRootId c.activeScan }

/-- `rootScanner->scanRoot`. -/
def scanRoot (syncRootId : String) (isDirectory : Bool)
    (listing : Option DirStream) (s : DaemonState) : DaemonState :=
  match SyncRepo.findSyncRootById s.store.roots syncRootId with
  | none => s
  | some root =>
      withScanState s syncRootId
        (RootScanner.scanRoot root isDirectory listing
          (scanState s syncRootId)).1

/-- The rows that a call of `produceQueuePage` passes to the queue. -/
def pageOf (s : DaemonState) (syncRootId : String) : List Entry :=
  EntryRepo.listEntriesBySyncRootIdAfterPath s.store.entries syncRootId
    (s.queueCursors syncRootId) kQueueBuildPageSize

/-- `produceQueuePage`; `none` when it throws. -/
def produceQueuePage (env : QueueEnv) (syncRootId : String)
    (scanComplete : Bool) (s : DaemonState) : Option DaemonState :=
  if s.queueComplete syncRootId then some s
  else
    match QueueService.buildPage env syncRootId (s.queueCursors syncRootId)
      scanComplete s.store with
    | none => none
    | some (store, page) =>
        let cursors :=
          match page.nextPath with
          | none => s.queueCursors
          | some path => assign s.queueCursors syncRootId (some path)
        if page.complete then
          some
            { s with
              store := store
              queueComplete := assign s.queueComplete syncRootId true
              queueCursors := assign cursors syncRootId none }
        else some { s with store := store, queueCursors := cursors }

/-- `queueService->runTick`. -/
def runTick (env : QueueEnv) (s : DaemonState) : DaemonState :=
  { s with store := QueueService.runTick env s.disk s.store }

/-- The `FullRescan` branch. -/
def fullRescan (syncRootId : String) (s : DaemonState) : DaemonState :=
  let started : DaemonState :=
    match s.scanJobs syncRootId with
    | some _ => s
    | none =>
        { s with
          scanJobs := assign s.scanJobs syncRootId
            (some { id := s.nextScanJobId, cursorPath := none })
          nextScanJobId := s.nextScanJobId + 1 }
  { started with
    queueCursors := assign s.queueCursors syncRootId none
    queueComplete := assign s.queueComplete syncRootId false }

/-- `syncReconciler->reconcileRoot` with the loop's copy of the root; the flag
is false when it throws. -/
def reconcileRoot (env : ReconcileEnv) (root : SyncRoot) (s : DaemonState) :
    DaemonState × Bool :=
  let done := SyncReconciler.reconcileRoot env root
    { entries := s.store.entries, disk := s.disk }
  ({ s with
      store := { s.store with entries := done.world.entries }
      disk := done.world.disk }, done.returned)

/-- `rootScanner->scanPath`. -/
def scanPath (cwd : FsPath) (syncRootId relativePath : String)
    (found : PathState) (s : DaemonState) : DaemonState × ScanCall :=
  match SyncRepo.findSyncRootById s.store.roots syncRootId with
  | none => (s, .failed)
  | some root =>
      let done := RootScanner.scanPath cwd root relativePath found
        (scanState s syncRootId)
      (withScanState s syncRootId done.1, done.2)

/-- A claimed `Scan` or `Delete` path: scanned, enqueued, reconciled. -/
def processPath (cwd : FsPath) (env : ReconcileEnv) (root : SyncRoot)
    (found : PathState) (d : DirtyPath) (s : DaemonState) : DaemonState :=
  let failed := fun s : DaemonState =>
    { s with dirtyPaths := DirtyPathRepo.markFailed s.dirtyPaths d.id }
  match d.relativePath with
  | none => failed s
  | some relativePath =>
      match scanPath cwd root.id relativePath found s with
      | (scanned, .succeeded) =>
          let enqueued : DaemonState :=
            { scanned with
              store := QueueService.enqueueEntryAt root.id relativePath
                scanned.store }
          let done := reconcileRoot env root enqueued
          if done.2 then
            { done.1 with
              dirtyPaths := DirtyPathRepo.markDone done.1.dirtyPaths d.id }
          else failed done.1
      | (scanned, _) => failed scanned

/-- One turn of the loop over dirty paths; `none` when there is none. -/
def processDirtyPath (cwd : FsPath) (env : ReconcileEnv) (root : SyncRoot)
    (found : PathState) (s : DaemonState) : Option DaemonState :=
  match DirtyPathRepo.claimNextPending s.dirtyPaths root.id with
  | none => none
  | some (d, ps) =>
      let claimed := { s with dirtyPaths := ps }
      match d.eventType with
      | .fullRescan =>
          let done := fullRescan root.id claimed
          some
            { done with
              dirtyPaths := DirtyPathRepo.markDone done.dirtyPaths d.id }
      | _ => some (processPath cwd env root found d claimed)

/-! ## What a page does to the cursor -/

/-- Where a page leaves the maps: the cursor is at its last row, or stays
because the page is empty, or the production ends with a page that is not
full. -/
inductive PageTurn (syncRootId : String) (scanComplete : Bool)
    (s : DaemonState) : (String → Bool) → (String → Option String) → Prop where
  | advanced (last : Entry)
      (hlast : (pageOf s syncRootId).getLast? = some last) :
      PageTurn syncRootId scanComplete s s.queueComplete
        (assign s.queueCursors syncRootId (some last.relativePath))
  | waiting (hempty : pageOf s syncRootId = []) :
      PageTurn syncRootId scanComplete s s.queueComplete s.queueCursors
  | finished (cursors : String → Option String)
      (hscanned : scanComplete = true)
      (hshort : (pageOf s syncRootId).length < kQueueBuildPageSize)
      (hother : ∀ j, j ≠ syncRootId → cursors j = s.queueCursors j) :
      PageTurn syncRootId scanComplete s
        (assign s.queueComplete syncRootId true) cursors

/-- Every row of the page was passed to the queue, under the root with its
folder. -/
theorem produceQueuePage_cases {env : QueueEnv} {syncRootId : String}
    {scanComplete : Bool} {s s' : DaemonState}
    (h : produceQueuePage env syncRootId scanComplete s = some s')
    (hopen : s.queueComplete syncRootId = false) :
    ∃ store root complete cursors,
      FolderCreateWorker.ensureRootFolder env syncRootId s.store =
        some store ∧
      SyncRepo.findSyncRootById store.roots syncRootId = some root ∧
      PageTurn syncRootId scanComplete s complete cursors ∧
      s' =
        { s with
          store := QueueService.enqueuePage root (pageOf s syncRootId) store
          queueComplete := complete
          queueCursors := cursors } := by
  unfold produceQueuePage at h
  rw [hopen] at h
  simp only [Bool.false_eq_true, if_false] at h
  split at h
  next => cases h
  next store page hbuild =>
      obtain ⟨store₁, root, hensure, hroot, hstore, hpage⟩ :=
        QueueService.buildPage_cases hbuild
      rw [show EntryRepo.listEntriesBySyncRootIdAfterPath s.store.entries
        syncRootId (s.queueCursors syncRootId) kQueueBuildPageSize =
          pageOf s syncRootId from rfl] at hpage
      subst hstore
      cases hlast : (pageOf s syncRootId).getLast? with
      | none =>
          have hempty := List.getLast?_eq_none_iff.mp hlast
          rw [hlast] at hpage
          have hnext : page.nextPath = none := by rw [hpage]
          have hdone : page.complete = scanComplete := by rw [hpage]
          rw [hnext, hdone] at h
          simp only at h
          split at h
          next hcomplete =>
              cases h
              refine ⟨store₁, root, _, _, hensure, hroot,
                .finished _ hcomplete ?_ ?_, rfl⟩
              · rw [hempty]
                decide
              · exact fun j hj => assign_other _ _ hj
          next =>
              cases h
              exact ⟨store₁, root, _, _, hensure, hroot, .waiting hempty, rfl⟩
      | some last =>
          rw [hlast] at hpage
          have hnext : page.nextPath = some last.relativePath := by rw [hpage]
          have hdone : page.complete = (scanComplete &&
              decide ((pageOf s syncRootId).length < kQueueBuildPageSize)) := by
            rw [hpage]
          rw [hnext, hdone] at h
          simp only at h
          split at h
          next hcomplete =>
              cases h
              rw [Bool.and_eq_true, decide_eq_true_eq] at hcomplete
              refine ⟨store₁, root, _, _, hensure, hroot,
                .finished _ hcomplete.1 hcomplete.2 ?_, rfl⟩
              intro j hj
              rw [assign_other _ _ hj, assign_other _ _ hj]
          next =>
              cases h
              exact ⟨store₁, root, _, _, hensure, hroot, .advanced last hlast,
                rfl⟩

/-- A page writes no row. -/
theorem entries_produceQueuePage {env : QueueEnv} {syncRootId : String}
    {scanComplete : Bool} {s s' : DaemonState}
    (h : produceQueuePage env syncRootId scanComplete s = some s') :
    s'.store.entries = s.store.entries := by
  cases hopen : s.queueComplete syncRootId with
  | true =>
      unfold produceQueuePage at h
      rw [if_pos hopen] at h
      cases h
      rfl
  | false =>
      obtain ⟨store, root, _, _, hensure, _, _, rfl⟩ :=
        produceQueuePage_cases h hopen
      show (QueueService.enqueuePage root _ store).entries = _
      rw [QueueService.entries_enqueuePage]
      exact (QueueService.ensureRootFolder_frame hensure).1

/-- A page moves the cursor of its own root only. -/
theorem produceQueuePage_other {env : QueueEnv} {i j : String}
    {scanComplete : Bool} {s s' : DaemonState} (hij : i ≠ j)
    (h : produceQueuePage env j scanComplete s = some s') :
    s'.queueComplete i = s.queueComplete i ∧
      s'.queueCursors i = s.queueCursors i := by
  cases hopen : s.queueComplete j with
  | true =>
      unfold produceQueuePage at h
      rw [if_pos hopen] at h
      cases h
      exact ⟨rfl, rfl⟩
  | false =>
      obtain ⟨_, _, _, _, _, _, hturn, rfl⟩ := produceQueuePage_cases h hopen
      cases hturn with
      | advanced last => exact ⟨rfl, assign_other _ _ hij⟩
      | waiting => exact ⟨rfl, rfl⟩
      | finished _ _ _ hother => exact ⟨assign_other _ _ hij, hother i hij⟩

end PollingDaemon

end ArkiveSync
