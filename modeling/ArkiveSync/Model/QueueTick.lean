import ArkiveSync.Model.UploadBatch

/-!
# A tick of the queue, turn by turn

`QueueService::runTick` as a run of turns: a folder job from its claim to its
mark, or a batch of uploads from its claims to its marks.  The worker and the
upload service may answer in any way, and throw exceptions with any text; an
upload whose result has an empty text is marked done.

## Main results

* `FolderTurns.exists`, `BatchTurns.exists`: both loops come to their end.
* `Tick.queued`: then nothing is queued.
-/

namespace ArkiveSync

open Library

/-- What a tick finds around it: the ids of the jobs as the texts they are, the
disk at the time a job is prepared, and the answers of the server and of the
upload service, or the text of what they throw. -/
structure TickWorkers where
  idText : Nat → String
  idTextInjective : Function.Injective idText
  cwd : FsPath
  disk : TransferJob → Disk
  createFolder : TransferJob → String →
    Except String (String × Option String)
  uploadFilesBatch : List UploadBatchItem →
    Except String (List UploadBatchResult)

/-- One turn of a loop: the tables behind the claims, and the claimed jobs. -/
inductive TickTurn where
  | folder (claimed : SyncStore) (job : TransferJob)
  | batch (claimed : SyncStore) (jobs : List TransferJob)

namespace TickTurn

/-- The tables behind the claims. -/
def claimed : TickTurn → SyncStore
  | .folder claimed _ => claimed
  | .batch claimed _ => claimed

/-- The jobs that are claimed in the turn. -/
def jobs : TickTurn → List TransferJob
  | .folder _ job => [job]
  | .batch _ jobs => jobs

/-- The ids of the jobs. -/
def ids (turn : TickTurn) : List Nat :=
  turn.jobs.map TransferJob.id

end TickTurn

namespace QueueService

/-- The calls of `markDone` and `markFailed`, one after the other. -/
def applyMarks (marks : List (Nat × Bool)) (q : TransferQueue) :
    TransferQueue :=
  marks.foldl (fun q mark =>
    if mark.2 then QueueRepo.markDone q mark.1
    else QueueRepo.markFailed q mark.1) q

variable (env : TickWorkers)

/-- The id of a job as a text. -/
def jobId (job : TransferJob) : String :=
  env.idText job.id

/-- What `FolderCreateWorker::run` finds around it. -/
def folderEnv : QueueEnv :=
  { cwd := env.cwd
    createRootFolder := fun _ => none
    createFolder := fun job name => (env.createFolder job name).toOption
    uploadFilesBatch := fun _ => none }

/-- `prepareUploadItem`. -/
def prepared (claimed : SyncStore) (job : TransferJob) :
    Except What (Option UploadBatchItem) :=
  UploadJobRunner.prepareItem (jobId env) env.cwd (env.disk job) claimed job

/-- `runBatch`. -/
def runBatch (claimed : SyncStore) (jobs : List TransferJob) : JobBatch :=
  let results := jobs.map (fun job =>
    UploadJobRunner.preparedResult job (prepared env claimed job))
  let items := UploadJobRunner.batchItems (prepared env claimed) jobs
  if items.isEmpty then { results := results, marks := [] }
  else
    match env.uploadFilesBatch items with
    | .error what =>
        { results := results.map (fun result =>
            if result.error = "" then { result with error := what }
            else result)
          marks := [] }
    | .ok uploads =>
        UploadJobRunner.takeResults (jobId env) items uploads results

/-- The marks of a turn, `true` for `markDone`. -/
def marksOf : TickTurn → List (Nat × Bool)
  | .folder claimed job =>
      [(job.id,
        (FolderCreateWorker.run (folderEnv env) job claimed).isSome)]
  | .batch claimed jobs =>
      (runBatch env claimed jobs).results.map (fun result =>
        (result.job.id, decide (result.error = "")))

/-- The tables behind a turn. -/
def afterTurn : TickTurn → SyncStore
  | .folder claimed job =>
      let ran := (FolderCreateWorker.run (folderEnv env) job claimed).getD claimed
      { ran with
        queue := applyMarks (marksOf env (.folder claimed job)) ran.queue }
  | .batch claimed jobs =>
      { claimed with
        entries := UploadJobRunner.markAll (runBatch env claimed jobs).marks
          claimed.entries
        queue := applyMarks (marksOf env (.batch claimed jobs)) claimed.queue }

/-- The first loop of `runTick`. -/
inductive FolderTurns : SyncStore → List TickTurn → SyncStore → Prop where
  | stop (s : SyncStore)
      (hnone : QueueRepo.claimNextQueuedByType s.queue .createFolder = none) :
      FolderTurns s [] s
  | turn (s : SyncStore) (job : TransferJob) (queue : TransferQueue)
      (turns : List TickTurn) (s' : SyncStore)
      (hclaim : QueueRepo.claimNextQueuedByType s.queue .createFolder =
        some (job, queue))
      (hrest : FolderTurns
        (afterTurn env (.folder { s with queue := queue } job)) turns s') :
      FolderTurns s (.folder { s with queue := queue } job :: turns) s'

/-- The second loop. -/
inductive BatchTurns : SyncStore → List TickTurn → SyncStore → Prop where
  | stop (s : SyncStore)
      (hnone : (claimUploads kUploadBatchSize s.queue).1 = []) :
      BatchTurns s [] s
  | turn (s : SyncStore) (turns : List TickTurn) (s' : SyncStore)
      (hsome : (claimUploads kUploadBatchSize s.queue).1 ≠ [])
      (hrest : BatchTurns
        (afterTurn env (.batch
          { s with queue := (claimUploads kUploadBatchSize s.queue).2 }
          (claimUploads kUploadBatchSize s.queue).1)) turns s') :
      BatchTurns s
        (.batch { s with queue := (claimUploads kUploadBatchSize s.queue).2 }
          (claimUploads kUploadBatchSize s.queue).1 :: turns) s'

/-- `runTick`, with both workers. -/
def Tick (s : SyncStore) (turns : List TickTurn) (s' : SyncStore) : Prop :=
  ∃ folders batches middle, FolderTurns env s folders middle ∧
    BatchTurns env middle batches s' ∧ turns = folders ++ batches

/-! ## The marks -/

section Marks

open QueueRepo

variable {env}

theorem queuedOf_applyMarks_le (marks : List (Nat × Bool)) (q : TransferQueue)
    (jobType : JobType) :
    queuedOf (applyMarks marks q) jobType ≤ queuedOf q jobType := by
  unfold applyMarks
  induction marks generalizing q with
  | nil => exact Nat.le_refl _
  | cons mark marks ih =>
      rw [List.foldl_cons]
      apply Nat.le_trans (ih _)
      by_cases hdone : mark.2 = true
      · rw [if_pos hdone]
        exact queuedOf_markDone_le q mark.1 jobType
      · rw [if_neg hdone]
        exact queuedOf_markFailed_le q mark.1 jobType

/-- What a mark makes of a job that is there. -/
def markedStatus (done : Bool) : JobStatus :=
  if done then .done else .failed

theorem statusOf_mark (q : TransferQueue) (mark : Nat × Bool) (n : Nat) :
    statusOf (if mark.2 then markDone q mark.1 else markFailed q mark.1) n =
      if n = mark.1 then (statusOf q n).map (fun _ => markedStatus mark.2)
      else statusOf q n := by
  cases hdone : mark.2 with
  | true => simpa [markedStatus] using statusOf_markDone mark.1 n
  | false => simpa [markedStatus] using statusOf_markFailed mark.1 n

/-- Jobs that are not marked keep their status. -/
theorem statusOf_applyMarks_apart {marks : List (Nat × Bool)} {n : Nat}
    (hn : n ∉ marks.map Prod.fst) (q : TransferQueue) :
    statusOf (applyMarks marks q) n = statusOf q n := by
  unfold applyMarks
  induction marks generalizing q with
  | nil => rfl
  | cons mark marks ih =>
      rw [List.map_cons, List.mem_cons, not_or] at hn
      rw [List.foldl_cons, ih hn.2, statusOf_mark, if_neg hn.1]

/-- A job that is marked once has the status of that mark. -/
theorem statusOf_applyMarks {marks : List (Nat × Bool)}
    (hnodup : (marks.map Prod.fst).Nodup) {mark : Nat × Bool}
    (hmark : mark ∈ marks) (q : TransferQueue) :
    statusOf (applyMarks marks q) mark.1 =
      (statusOf q mark.1).map (fun _ => markedStatus mark.2) := by
  induction marks generalizing q with
  | nil => cases hmark
  | cons first marks ih =>
      rw [List.map_cons, List.nodup_cons] at hnodup
      show statusOf (applyMarks marks (if first.2 then markDone q first.1
        else markFailed q first.1)) mark.1 = _
      rcases List.mem_cons.mp hmark with rfl | hmark
      · rw [statusOf_applyMarks_apart hnodup.1, statusOf_mark, if_pos rfl]
      · have hne : mark.1 ≠ first.1 := by
          intro heq
          exact hnodup.1 (heq ▸ List.mem_map_of_mem hmark)
        rw [ih hnodup.2 hmark, statusOf_mark, if_neg hne]

/-- The claims of a batch take different jobs from the queued ones, which run
then. -/
theorem statusOf_claimUploads (n : Nat) (q : TransferQueue) :
    (∀ job ∈ (claimUploads n q).1, statusOf q job.id = some .queued) ∧
      ((claimUploads n q).1.map TransferJob.id).Nodup ∧
      ∀ m, statusOf (claimUploads n q).2 m =
        if m ∈ (claimUploads n q).1.map TransferJob.id then some .running
        else statusOf q m := by
  induction n generalizing q with
  | zero => simp [claimUploads]
  | succ n ih =>
      unfold claimUploads
      cases hclaim : claimNextQueuedByType q .uploadFile with
      | none => simp
      | some claimed =>
          obtain ⟨job, q'⟩ := claimed
          obtain ⟨hqueued, hothers⟩ := statusOf_claim hclaim
          obtain ⟨hrest, hnodup, hstatus⟩ := ih q'
          dsimp only
          have hapart : ∀ other ∈ (claimUploads n q').1, other.id ≠ job.id := by
            intro other hother hsame
            have hrunning := hothers other.id
            rw [if_pos hsame, hrest other hother] at hrunning
            cases hrunning
          refine ⟨?_, ?_, ?_⟩
          · intro other hother
            rcases List.mem_cons.mp hother with rfl | hother
            · exact hqueued
            · have hkept := hothers other.id
              rw [if_neg (hapart other hother)] at hkept
              rw [← hkept]
              exact hrest other hother
          · rw [List.map_cons, List.nodup_cons]
            refine ⟨?_, hnodup⟩
            intro hmem
            obtain ⟨other, hother, hsame⟩ := List.mem_map.mp hmem
            exact hapart other hother hsame
          · intro m
            rw [hstatus m, hothers m, List.map_cons]
            by_cases hm : m ∈ (claimUploads n q').1.map TransferJob.id
            · rw [if_pos hm, if_pos (List.mem_cons_of_mem _ hm)]
            · by_cases hjob : m = job.id
              · simp [hjob]
              · simp [hm, hjob]

end Marks

/-! ## The ends of the loops -/

section Ends

open QueueRepo

/-- Creating a folder leaves the queue alone. -/
theorem queue_folderRun {claimed ran : SyncStore} {job : TransferJob}
    (h : FolderCreateWorker.run (folderEnv env) job claimed = some ran) :
    ran.queue = claimed.queue := by
  unfold FolderCreateWorker.run at h
  repeat' split at h
  all_goals cases h
  rfl

/-- Behind a turn the queue is the one behind its claims, with its marks. -/
theorem queue_afterTurn (turn : TickTurn) :
    (afterTurn env turn).queue =
      applyMarks (marksOf env turn) turn.claimed.queue := by
  cases turn with
  | batch claimed jobs => rfl
  | folder claimed job =>
      show applyMarks _ ((FolderCreateWorker.run (folderEnv env) job
        claimed).getD claimed).queue = _
      cases hrun : FolderCreateWorker.run (folderEnv env) job claimed with
      | none => rfl
      | some ran =>
          rw [Option.getD_some, queue_folderRun env hrun]
          rfl

theorem queuedOf_afterTurn_le (turn : TickTurn) (jobType : JobType) :
    queuedOf (afterTurn env turn).queue jobType ≤
      queuedOf turn.claimed.queue jobType := by
  rw [queue_afterTurn]
  exact queuedOf_applyMarks_le _ _ _

/-- The first loop comes to its end: every turn takes a folder job from the
queued ones. -/
theorem FolderTurns.exists (s : SyncStore) :
    ∃ turns s', FolderTurns env s turns s' := by
  induction hqueued : queuedOf s.queue .createFolder using
    Nat.strong_induction_on generalizing s with
  | _ n ih =>
      cases hclaim : claimNextQueuedByType s.queue .createFolder with
      | none => exact ⟨[], s, .stop s hclaim⟩
      | some claimed =>
          obtain ⟨job, queue⟩ := claimed
          have hlt := queuedOf_claim_lt hclaim
          have hle : _ ≤ queuedOf queue .createFolder := queuedOf_afterTurn_le
            env (.folder { s with queue := queue } job) .createFolder
          obtain ⟨turns, s', hrest⟩ := ih _ (by omega)
            (afterTurn env (.folder { s with queue := queue } job)) rfl
          exact ⟨_, s', .turn s job queue turns s' hclaim hrest⟩

/-- So does the second one. -/
theorem BatchTurns.exists (s : SyncStore) :
    ∃ turns s', BatchTurns env s turns s' := by
  induction hqueued : queuedOf s.queue .uploadFile using
    Nat.strong_induction_on generalizing s with
  | _ n ih =>
      by_cases hnone : (claimUploads kUploadBatchSize s.queue).1 = []
      · exact ⟨[], s, .stop s hnone⟩
      · have hlt := queuedOf_claimUploads_lt hnone
        have hle : _ ≤ queuedOf (claimUploads kUploadBatchSize s.queue).2
            .uploadFile := queuedOf_afterTurn_le env (.batch
          { s with queue := (claimUploads kUploadBatchSize s.queue).2 }
          (claimUploads kUploadBatchSize s.queue).1) .uploadFile
        obtain ⟨turns, s', hrest⟩ := ih _ (by omega) (afterTurn env (.batch
          { s with queue := (claimUploads kUploadBatchSize s.queue).2 }
          (claimUploads kUploadBatchSize s.queue).1)) rfl
        exact ⟨_, s', .turn s turns s' hnone hrest⟩

variable {env} {s s' : SyncStore} {turns : List TickTurn}

theorem FolderTurns.queued (h : FolderTurns env s turns s') :
    queuedOf s'.queue .createFolder = 0 := by
  induction h with
  | stop s hnone => exact (claim_eq_none_iff _).mp hnone
  | turn s job queue turns s' hclaim hrest ih => exact ih

/-- The second loop queues nothing. -/
theorem BatchTurns.queued_le (h : BatchTurns env s turns s')
    (jobType : JobType) :
    queuedOf s'.queue jobType ≤ queuedOf s.queue jobType := by
  induction h with
  | stop s hnone => exact Nat.le_refl _
  | turn s turns s' hsome hrest ih =>
      apply Nat.le_trans ih
      apply Nat.le_trans (queuedOf_afterTurn_le _ _ _)
      exact queuedOf_claimUploads_le _ _ _

theorem BatchTurns.queued (h : BatchTurns env s turns s') :
    queuedOf s'.queue .uploadFile = 0 := by
  induction h with
  | stop s hnone => exact queuedOf_of_claimUploads_nil hnone
  | turn s turns s' hsome hrest ih => exact ih

/-- Behind a tick nothing is queued. -/
theorem Tick.queued (h : Tick env s turns s') (jobType : JobType) :
    queuedOf s'.queue jobType = 0 := by
  obtain ⟨folders, batches, middle, hfolders, hbatches, -⟩ := h
  cases jobType with
  | createFolder =>
      have hle := hbatches.queued_le .createFolder
      rw [hfolders.queued] at hle
      exact Nat.le_zero.mp hle
  | uploadFile => exact hbatches.queued

end Ends

end QueueService

end ArkiveSync
