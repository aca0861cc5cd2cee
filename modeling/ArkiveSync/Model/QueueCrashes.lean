import ArkiveSync.Library.Runs
import ArkiveSync.Model.QueueService

/-!
# The queue statement by statement

A tick of the queue, cut where the process may exit: between the claim of a
job, the request to the server, the statement that records the answer and the
one that ends the job.  A restart queues every running job again.  The other
threads may write the rows and add jobs at any time.

The log has every remote object that is created for a job, every result that is
recorded, and what the others do to the rows; the newest event comes first.

## Main results

* `folder_turn`, `batch_turn`: without an interruption the steps come to
  `runFolderJob` and `runUploadBatch`.
-/

namespace ArkiveSync

open Library

/-- Where the queue's thread stands. -/
inductive QueuePhase where
  | idle
  | folderClaimed (job : TransferJob)
  | folderAnswered (job : TransferJob) (id : String)
      (parentFolderId : Option String)
  | folderRecorded (job : TransferJob)
  | claiming (jobs : List TransferJob)
  | preparing (left : List TransferJob)
      (prepared : List (TransferJob × UploadJobRunner.Prepared))
  | answered (left : List (TransferJob × Entry × String))
      (results : List (TransferJob × Bool))
  | marking (results : List (TransferJob × Bool))

/-- What the log of a run holds. -/
inductive QueueEvent where
  | created (job : TransferJob)
  | recorded (job : TransferJob)
  | rows (before after : EntryTable)

/-- The tables, the queue's thread, and the log, newest event first. -/
structure QueueRun where
  store : SyncStore
  phase : QueuePhase
  log : List QueueEvent

/-- What happens next. -/
inductive QueueAction where
  | claimFolder
  | requestFolder (reached : Bool) (answer : Option (String × Option String))
  | recordFolder
  | finishFolder
  | claimUpload
  | startBatch
  | prepare (cwd : FsPath) (disk : Disk)
  | upload (started : List TransferJob)
      (response : Option (Nat → Option String))
  | recordUpload
  | finishRecords
  | markResult
  | finishBatch
  | crash
  | others

namespace FolderCreateWorker

/-- The name that `run` asks the server to create; `none` when it throws
before. -/
def request (job : TransferJob) (s : SyncStore) : Option String :=
  match EntryRepo.getEntryById s.entries job.entryId with
  | none => none
  | some e =>
      if !e.isDirectory then none
      else
        match SyncRepo.findSyncRootById s.roots e.syncRootId with
        | none => none
        | some _ => folderNameFromPath e.relativePath

end FolderCreateWorker

namespace UploadJobRunner

/-- The results of a batch, once the server has answered. -/
def resultsOf (response : Option (Nat → Option String))
    (prepared : List (TransferJob × Prepared)) : List (TransferJob × Bool) :=
  match response with
  | none => prepared.map (fun x => (x.1, false))
  | some response =>
      prepared.map (fun x =>
        (x.1,
          match x.2 with
          | .threw => false
          | .nothing => true
          | .item _ => (response x.1.id).isSome))

/-- The uploads of a batch that are to be recorded. -/
def recordsOf (response : Option (Nat → Option String))
    (items : List (TransferJob × Entry)) :
    List (TransferJob × Entry × String) :=
  match response with
  | none => []
  | some response =>
      items.filterMap (fun item =>
        (response item.1.id).map (fun fileId => (item.1, item.2, fileId)))

end UploadJobRunner

namespace QueueRun

/-- The run in another phase. -/
def enter (s : QueueRun) (phase : QueuePhase) : QueueRun :=
  { s with phase := phase }

/-- The run with another queue. -/
def withQueue (s : QueueRun) (queue : TransferQueue) : QueueRun :=
  { s with store := { s.store with queue := queue } }

/-- The run with other rows. -/
def withEntries (s : QueueRun) (entries : EntryTable) : QueueRun :=
  { s with store := { s.store with entries := entries } }

/-- The run with more events. -/
def logging (s : QueueRun) (events : List QueueEvent) : QueueRun :=
  { s with log := events ++ s.log }

end QueueRun

open QueueRun in
/-- One step.  A batch that has nothing to upload does not call the server; a
request may reach the server even when its answer is lost. -/
inductive QueueStep : QueueRun → QueueAction → QueueRun → Prop where
  | claimFolder (s : QueueRun) (job : TransferJob) (queue : TransferQueue)
      (hphase : s.phase = .idle)
      (hclaim : QueueRepo.claimNextQueuedByType s.store.queue .createFolder =
        some (job, queue)) :
      QueueStep s .claimFolder ((s.withQueue queue).enter (.folderClaimed job))
  | refuseFolder (s : QueueRun) (job : TransferJob)
      (hphase : s.phase = .folderClaimed job)
      (hname : FolderCreateWorker.request job s.store = none) :
      QueueStep s (.requestFolder false none)
        ((s.withQueue (QueueRepo.markFailed s.store.queue job.id)).enter .idle)
  | loseFolder (s : QueueRun) (job : TransferJob) (name : String)
      (reached : Bool) (hphase : s.phase = .folderClaimed job)
      (hname : FolderCreateWorker.request job s.store = some name) :
      QueueStep s (.requestFolder reached none)
        (((s.withQueue (QueueRepo.markFailed s.store.queue job.id)).enter
          .idle).logging (if reached then [.created job] else []))
  | requestFolder (s : QueueRun) (job : TransferJob) (name id : String)
      (parentFolderId : Option String)
      (hphase : s.phase = .folderClaimed job)
      (hname : FolderCreateWorker.request job s.store = some name) :
      QueueStep s (.requestFolder true (some (id, parentFolderId)))
        ((s.enter (.folderAnswered job id parentFolderId)).logging
          [.created job])
  | recordFolder (s : QueueRun) (job : TransferJob) (id : String)
      (parentFolderId : Option String)
      (hphase : s.phase = .folderAnswered job id parentFolderId) :
      QueueStep s .recordFolder
        (((s.withEntries (RemoteEntryRepo.markFolderCreated s.store.entries
          job.entryId id parentFolderId)).enter (.folderRecorded job)).logging
            [.recorded job])
  | finishFolder (s : QueueRun) (job : TransferJob)
      (hphase : s.phase = .folderRecorded job) :
      QueueStep s .finishFolder
        ((s.withQueue (QueueRepo.markDone s.store.queue job.id)).enter .idle)
  | firstUpload (s : QueueRun) (job : TransferJob) (queue : TransferQueue)
      (hphase : s.phase = .idle)
      (hclaim : QueueRepo.claimNextQueuedByType s.store.queue .uploadFile =
        some (job, queue)) :
      QueueStep s .claimUpload ((s.withQueue queue).enter (.claiming [job]))
  | claimUpload (s : QueueRun) (jobs : List TransferJob) (job : TransferJob)
      (queue : TransferQueue) (hphase : s.phase = .claiming jobs)
      (hroom : jobs.length < kUploadBatchSize)
      (hclaim : QueueRepo.claimNextQueuedByType s.store.queue .uploadFile =
        some (job, queue)) :
      QueueStep s .claimUpload
        ((s.withQueue queue).enter (.claiming (jobs ++ [job])))
  | startBatch (s : QueueRun) (jobs : List TransferJob)
      (hphase : s.phase = .claiming jobs)
      (hfull : jobs.length = kUploadBatchSize ∨
        QueueRepo.claimNextQueuedByType s.store.queue .uploadFile = none) :
      QueueStep s .startBatch (s.enter (.preparing jobs []))
  | prepare (s : QueueRun) (cwd : FsPath) (disk : Disk) (job : TransferJob)
      (left : List TransferJob)
      (prepared : List (TransferJob × UploadJobRunner.Prepared))
      (hphase : s.phase = .preparing (job :: left) prepared) :
      QueueStep s (.prepare cwd disk)
        (s.enter (.preparing left (prepared ++
          [(job, UploadJobRunner.prepareUploadItem cwd disk s.store job)])))
  | upload (s : QueueRun)
      (prepared : List (TransferJob × UploadJobRunner.Prepared))
      (started : List TransferJob) (response : Option (Nat → Option String))
      (hphase : s.phase = .preparing [] prepared)
      (hstarted : ∀ job ∈ started,
        ∃ e, (job, e) ∈ UploadJobRunner.itemsOf prepared)
      (hanswered : ∀ item ∈ UploadJobRunner.recordsOf response
        (UploadJobRunner.itemsOf prepared), item.1 ∈ started) :
      QueueStep s (.upload started response)
        ((s.enter (.answered
          (UploadJobRunner.recordsOf response
            (UploadJobRunner.itemsOf prepared))
          (if (UploadJobRunner.itemsOf prepared).isEmpty then
            prepared.map (fun x => (x.1, decide (x.2 ≠ .threw)))
          else UploadJobRunner.resultsOf response prepared))).logging
            (started.map QueueEvent.created))
  | recordUpload (s : QueueRun) (job : TransferJob) (e : Entry)
      (fileId : String) (left : List (TransferJob × Entry × String))
      (results : List (TransferJob × Bool))
      (hphase : s.phase = .answered ((job, e, fileId) :: left) results) :
      QueueStep s .recordUpload
        (((s.withEntries (RemoteEntryRepo.markEntryUploaded s.store.entries
          job.entryId fileId e.parentFolderId)).enter
            (.answered left results)).logging [.recorded job])
  | finishRecords (s : QueueRun) (results : List (TransferJob × Bool))
      (hphase : s.phase = .answered [] results) :
      QueueStep s .finishRecords (s.enter (.marking results))
  | markResult (s : QueueRun) (job : TransferJob) (ok : Bool)
      (left : List (TransferJob × Bool))
      (hphase : s.phase = .marking ((job, ok) :: left)) :
      QueueStep s .markResult
        ((s.withQueue
          (if ok then QueueRepo.markDone s.store.queue job.id
            else QueueRepo.markFailed s.store.queue job.id)).enter
              (.marking left))
  | finishBatch (s : QueueRun) (hphase : s.phase = .marking []) :
      QueueStep s .finishBatch (s.enter .idle)
  | crash (s : QueueRun) :
      QueueStep s .crash
        ((s.withQueue (QueueRepo.retryRunning s.store.queue)).enter .idle)
  | otherRows (s : QueueRun) (entries : EntryTable) (roots : List SyncRoot) :
      QueueStep s .others
        { s with
          store := { s.store with entries := entries, roots := roots }
          log := .rows s.store.entries entries :: s.log }
  | otherJobs (s : QueueRun) (entryId : Nat) (jobType : JobType)
      (localPath : String) (remoteFolderId : Option String)
      (bytesTotal : Nat) :
      QueueStep s .others
        (s.withQueue (QueueRepo.enqueue s.store.queue entryId jobType localPath
          remoteFolderId bytesTotal))

/-! ## Uninterrupted turns -/

namespace QueueRun

/-- One step, whatever it is. -/
def Next (a b : QueueRun) : Prop := ∃ action, QueueStep a action b

/-- The name that is asked for is the one that `run` asks for. -/
theorem run_of_request (env : QueueEnv) (job : TransferJob) (s : SyncStore) :
    FolderCreateWorker.run env job s =
      (FolderCreateWorker.request job s).bind (fun name =>
        (env.createFolder job name).map (fun answer =>
          { s with
            entries := RemoteEntryRepo.markFolderCreated s.entries job.entryId
              answer.1 answer.2 })) := by
  unfold FolderCreateWorker.run FolderCreateWorker.request
  cases EntryRepo.getEntryById s.entries job.entryId with
  | none => rfl
  | some e =>
      by_cases hdirectory : e.isDirectory = true
      · simp only [hdirectory, Bool.not_true, Bool.false_eq_true, if_false]
        cases SyncRepo.findSyncRootById s.roots e.syncRootId with
        | none => rfl
        | some root =>
            dsimp only
            cases FolderCreateWorker.folderNameFromPath e.relativePath with
            | none => rfl
            | some name =>
                simp only [Option.bind_some]
                cases env.createFolder job name <;> rfl
      · simp [hdirectory]

/-- A folder job that is not interrupted. -/
theorem folder_turn (env : QueueEnv) (job : TransferJob) (s : QueueRun)
    (hphase : s.phase = .folderClaimed job) :
    ∃ log, Run Next s
      { store := QueueService.runFolderJob env job s.store
        phase := .idle, log := log } := by
  unfold QueueService.runFolderJob
  rw [run_of_request]
  cases hname : FolderCreateWorker.request job s.store with
  | none => exact ⟨_, .single ⟨_, .refuseFolder s job hphase hname⟩⟩
  | some name =>
      rw [Option.bind_some]
      cases hanswer : env.createFolder job name with
      | none => exact ⟨_, .single ⟨_, .loseFolder s job name true hphase hname⟩⟩
      | some answer =>
          refine ⟨_, .tail (.tail (.single
            ⟨_, .requestFolder s job name answer.1 answer.2 hphase hname⟩)
            ⟨_, .recordFolder _ job answer.1 answer.2 rfl⟩)
            ⟨_, .finishFolder _ job rfl⟩⟩

theorem prepare_run (cwd : FsPath) (disk : Disk) (left : List TransferJob) :
    ∀ (s : QueueRun)
      (prepared : List (TransferJob × UploadJobRunner.Prepared)),
      s.phase = .preparing left prepared →
      Run Next s (s.enter (.preparing [] (prepared ++ left.map (fun job =>
        (job, UploadJobRunner.prepareUploadItem cwd disk s.store job))))) := by
  induction left with
  | nil =>
      intro s prepared hphase
      rw [List.map_nil, List.append_nil, enter, ← hphase]
  | cons job left ih =>
      intro s prepared hphase
      refine .head ⟨_, .prepare s cwd disk job left prepared hphase⟩ ?_
      have hrest := ih (s.enter (.preparing left (prepared ++
        [(job, UploadJobRunner.prepareUploadItem cwd disk s.store job)]))) _ rfl
      rw [List.append_assoc] at hrest
      exact hrest

theorem record_run (response : Nat → Option String)
    (results : List (TransferJob × Bool))
    (items : List (TransferJob × Entry)) :
    ∀ s : QueueRun, s.phase = .answered
        (UploadJobRunner.recordsOf (some response) items) results →
      ∃ log, Run Next s
        { store :=
            { s.store with
              entries := UploadJobRunner.markUploaded response items
                s.store.entries }
          phase := .answered [] results
          log := log } := by
  induction items with
  | nil =>
      intro s hphase
      refine ⟨s.log, ?_⟩
      have hsame : s = { store := s.store, phase := .answered [] results
                         log := s.log } := by
        change s.phase = .answered [] results at hphase
        rw [← hphase]
      exact hsame ▸ .refl
  | cons item items ih =>
      intro s hphase
      cases hanswer : response item.1.id with
      | none =>
          have hrest : UploadJobRunner.recordsOf (some response)
              (item :: items) =
                UploadJobRunner.recordsOf (some response) items := by
            simp [UploadJobRunner.recordsOf, hanswer]
          rw [hrest] at hphase
          obtain ⟨log, hrun⟩ := ih s hphase
          refine ⟨log, ?_⟩
          rw [UploadJobRunner.markUploaded, List.foldl_cons, hanswer]
          exact hrun
      | some fileId =>
          have hrest : UploadJobRunner.recordsOf (some response)
              (item :: items) = (item.1, item.2, fileId) ::
                UploadJobRunner.recordsOf (some response) items := by
            simp [UploadJobRunner.recordsOf, hanswer]
          rw [hrest] at hphase
          obtain ⟨log, hrun⟩ := ih (((s.withEntries
            (RemoteEntryRepo.markEntryUploaded s.store.entries item.1.entryId
              fileId item.2.parentFolderId)).enter (.answered _ results)).logging
                [.recorded item.1]) rfl
          refine ⟨log, .head
            ⟨_, .recordUpload s item.1 item.2 fileId _ results hphase⟩ ?_⟩
          rw [UploadJobRunner.markUploaded, List.foldl_cons, hanswer]
          exact hrun

theorem mark_run (results : List (TransferJob × Bool)) :
    ∀ s : QueueRun, s.phase = .marking results →
      Run Next s
        ((s.withQueue (QueueService.markResults results s.store.queue)).enter
          .idle) := by
  induction results with
  | nil =>
      intro s hphase
      exact .single ⟨_, .finishBatch s hphase⟩
  | cons result results ih =>
      intro s hphase
      refine .head ⟨_, .markResult s result.1 result.2 results hphase⟩ ?_
      exact ih _ rfl

/-- The marks of a batch that has nothing more to record. -/
theorem finish_run {results : List (TransferJob × Bool)} {s : QueueRun}
    (hphase : s.phase = .answered [] results) :
    Run Next s
      ((s.withQueue (QueueService.markResults results s.store.queue)).enter
        .idle) :=
  .head ⟨_, .finishRecords s results hphase⟩ (mark_run results _ rfl)

/-- A batch of uploads that is not interrupted. -/
theorem batch_turn (env : QueueEnv) (disk : Disk) (jobs : List TransferJob)
    (s : QueueRun) (hphase : s.phase = .preparing jobs []) :
    ∃ log, Run Next s
      { store := QueueService.runUploadBatch env disk jobs s.store
        phase := .idle, log := log } := by
  have hprepare := prepare_run env.cwd disk jobs s [] hphase
  rw [List.nil_append] at hprepare
  obtain ⟨prepared, hprepared⟩ : ∃ prepared, prepared = jobs.map (fun job =>
      (job, UploadJobRunner.prepareUploadItem env.cwd disk s.store job)) :=
    ⟨_, rfl⟩
  unfold QueueService.runUploadBatch UploadJobRunner.runBatch
  rw [← hprepared] at hprepare ⊢
  dsimp only
  by_cases hitems : (UploadJobRunner.itemsOf prepared).isEmpty = true
  · have hupload := hprepare.tail
      ⟨_, .upload _ prepared [] none rfl (by simp)
        (by simp [UploadJobRunner.recordsOf])⟩
    rw [if_pos hitems] at hupload ⊢
    exact ⟨_, hupload.trans (finish_run rfl)⟩
  · rw [if_neg hitems]
    cases hanswer : env.uploadFilesBatch (UploadJobRunner.itemsOf prepared) with
    | none =>
        have hupload := hprepare.tail
          ⟨_, .upload _ prepared [] none rfl (by simp)
            (by simp [UploadJobRunner.recordsOf])⟩
        have hfailed : UploadJobRunner.resultsOf none prepared =
            jobs.map (fun job => (job, false)) := by
          rw [UploadJobRunner.resultsOf, hprepared, List.map_map]
          rfl
        rw [if_neg hitems, hfailed] at hupload
        exact ⟨_, hupload.trans (finish_run rfl)⟩
    | some response =>
        have hupload := hprepare.tail
          ⟨_, .upload _ prepared
            ((UploadJobRunner.recordsOf (some response)
              (UploadJobRunner.itemsOf prepared)).map Prod.fst)
            (some response) rfl ?_ ?_⟩
        · rw [if_neg hitems] at hupload
          obtain ⟨log, hrecords⟩ := record_run response
            (UploadJobRunner.resultsOf (some response) prepared)
            (UploadJobRunner.itemsOf prepared)
            (((s.enter (.preparing [] prepared)).enter (.answered _ _)).logging
              _) rfl
          exact ⟨log, (hupload.trans hrecords).trans (finish_run rfl)⟩
        · intro job hjob
          obtain ⟨record, hrecord, rfl⟩ := List.mem_map.mp hjob
          obtain ⟨item, hitem, hsome⟩ := List.mem_filterMap.mp hrecord
          obtain ⟨fileId, -, rfl⟩ := Option.map_eq_some_iff.mp hsome
          exact ⟨item.2, hitem⟩
        · exact fun record hrecord => List.mem_map_of_mem hrecord

end QueueRun

end ArkiveSync
