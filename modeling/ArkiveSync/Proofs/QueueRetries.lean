import ArkiveSync.Model.QueueRepo

/-!
# Retrying jobs

An entry collects failed jobs: each time one fails, the next scan makes another.
A retry moves jobs back to the queue in one statement, and the index that
allows an entry one active job of each type rejects the statement as a whole.
What runs can always be queued again; what failed can be when it failed once,
and nothing has been made in its place.

## Main results

* `alone_retryFailed_iff`, `alone_retryJob_iff`: the queues whose jobs can be
  retried.
* `retries_complete_iff`: in every run, each step completes and keeps the queue
  consistent exactly where no rival of a retried job is left.
-/

namespace ArkiveSync.QueueRetries

open QueueRepo

/-- The statements of `QueueRepo` that write to the table. -/
inductive QueueOp where
  | enqueueCreateFolder (entryId : Nat) (localPath : String)
      (remoteFolderId : Option String)
  | enqueueUploadFile (entryId : Nat) (localPath : String)
      (remoteFolderId : Option String) (bytesTotal : Nat)
  | claimNextQueued
  | claimNextQueuedByType (jobType : JobType)
  | markDone (jobId : Nat)
  | markFailed (jobId : Nat)
  | retryJob (jobId : Nat)
  | retryFailed
  | retryRunning
  | clearDone
  deriving DecidableEq

/-- The queue behind a statement, or `none` where it throws. -/
def QueueOp.perform (q : TransferQueue) : QueueOp → Option TransferQueue
  | .enqueueCreateFolder entryId localPath remoteFolderId =>
      some (QueueRepo.enqueueCreateFolder q entryId localPath remoteFolderId)
  | .enqueueUploadFile entryId localPath remoteFolderId bytesTotal =>
      some (QueueRepo.enqueueUploadFile q entryId localPath remoteFolderId
        bytesTotal)
  | .claimNextQueued =>
      some ((QueueRepo.claimNextQueued q).elim q Prod.snd)
  | .claimNextQueuedByType jobType =>
      some ((QueueRepo.claimNextQueuedByType q jobType).elim q Prod.snd)
  | .markDone jobId => some (QueueRepo.markDone q jobId)
  | .markFailed jobId => some (QueueRepo.markFailed q jobId)
  | .retryJob jobId => QueueRepo.retryJob q jobId
  | .retryFailed => QueueRepo.retryFailed q
  | .retryRunning => requeueJobs q (fun j => j.status == .running)
  | .clearDone => some (QueueRepo.clearDone q)

/-- The queue behind a statement; one that throws is undone. -/
def QueueOp.after (q : TransferQueue) (op : QueueOp) : TransferQueue :=
  (op.perform q).getD q

/-- The steps of a run, each with the queue before it. -/
def steps : TransferQueue → List QueueOp → List (TransferQueue × QueueOp)
  | _, [] => []
  | q, op :: ops => (q, op) :: steps (op.after q) ops

/-- Every entry has at most one job of each type that is queued or running. -/
def OneActive (q : TransferQueue) : Prop :=
  ∀ entryId jobType,
    q.jobs.countP (TransferJob.isActiveFor entryId jobType) ≤ 1

/-- What a step leaves consistent. -/
structure KeepsConsistent (q : TransferQueue) (op : QueueOp) : Prop where
  completes : (op.perform q).isSome = true
  oneActive : OneActive (op.after q)
  failed : op = .retryFailed → ∀ j ∈ (op.after q).jobs, j.status = .failed →
    ∃ k ∈ (op.after q).jobs, k.id ≠ j.id ∧
      k.isActiveFor j.entryId j.jobType = true

/-- No other job of its entry and type stands in the way of a retried one. -/
def NoRival (q : TransferQueue) : QueueOp → Prop
  | .retryJob jobId =>
      ∀ j ∈ q.jobs, j.id = jobId → j.status.active = false →
        ∀ k ∈ q.jobs, k.isActiveFor j.entryId j.jobType = false
  | .retryFailed =>
      ∀ j ∈ q.jobs, j.status = .failed → ∀ k ∈ q.jobs, k.id ≠ j.id →
        k.entryId = j.entryId → k.jobType = j.jobType → k.status = .done
  | _ => True

/-! ## The queues that can be retried -/

section Retries

variable {q : TransferQueue}

theorem isActiveFor_iff {entryId : Nat} {jobType : JobType} {j : TransferJob} :
    j.isActiveFor entryId jobType = true ↔
      j.entryId = entryId ∧ j.jobType = jobType ∧ j.status.active = true := by
  simp [TransferJob.isActiveFor, and_assoc]

/-- The primary key and the index leave an entry one active job of a type. -/
theorem oneActive (q : TransferQueue) : OneActive q := by
  intro entryId jobType
  by_contra hmany
  have hlong : 2 ≤ (q.jobs.filter
      (TransferJob.isActiveFor entryId jobType)).length := by
    rw [← List.countP_eq_length_filter]
    omega
  have hapart := q.activeUnique.filter (TransferJob.isActiveFor entryId jobType)
  rcases hjobs : q.jobs.filter (TransferJob.isActiveFor entryId jobType) with
    _ | ⟨j, _ | ⟨k, rest⟩⟩
  · simp [hjobs] at hlong
  · simp [hjobs] at hlong
  · have hj : j ∈ q.jobs.filter (TransferJob.isActiveFor entryId jobType) := by
      simp [hjobs]
    have hk : k ∈ q.jobs.filter (TransferJob.isActiveFor entryId jobType) := by
      simp [hjobs]
    obtain ⟨hjentry, hjtype, hjactive⟩ :=
      isActiveFor_iff.mp (List.mem_filter.mp hj).2
    have hkfor := (List.mem_filter.mp hk).2
    rw [hjobs, List.pairwise_cons] at hapart
    have hnot := hapart.1 k List.mem_cons_self hjactive
    rw [hjentry, hjtype, hkfor] at hnot
    cases hnot

/-- A failed job can be retried when the other jobs of its entry and type are
done. -/
theorem alone_retryFailed_iff :
    Alone q (fun j => j.status == .failed) ↔ NoRival q .retryFailed := by
  constructor
  · intro halone j hj hfailed k hk hid hentry htype
    by_contra hdone
    have hselected : (k.status == .failed) = true ∨
        k.status.active = true := by
      cases hstatus : k.status with
      | queued => exact Or.inr rfl
      | running => exact Or.inr rfl
      | failed => exact Or.inl rfl
      | done => exact absurd hstatus hdone
    have hsame := halone j hj (by simp [hfailed]) k hk hentry htype hselected
    exact hid (congrArg TransferJob.id hsame)
  · intro hrivals j hj hfailed k hk hentry htype hselected
    by_contra hne
    have hid : k.id ≠ j.id := fun h => hne (eq_of_id_eq hk hj h)
    have hdone := hrivals j hj (eq_of_beq hfailed) k hk hid hentry htype
    simp [hdone, JobStatus.active] at hselected

/-- A job can be retried when it is active, or no job of its entry and type
is. -/
theorem alone_retryJob_iff (jobId : Nat) :
    Alone q (fun j => j.id == jobId) ↔ NoRival q (.retryJob jobId) := by
  constructor
  · intro halone j hj hid hinactive k hk
    by_contra hfor
    rw [Bool.not_eq_false, isActiveFor_iff] at hfor
    have hsame := halone j hj (by simp [hid]) k hk hfor.1 hfor.2.1
      (Or.inr hfor.2.2)
    rw [← hsame, hfor.2.2] at hinactive
    cases hinactive
  · intro hrivals j hj hid k hk hentry htype hselected
    have hjid : j.id = jobId := by simpa using hid
    rcases hselected with hkid | hkactive
    · apply eq_of_id_eq hk hj
      rw [hjid]
      simpa using hkid
    · by_cases hactive : j.status.active = true
      · exact eq_of_active hk hj hkactive hactive htype hentry
      · have hnot := hrivals j hj hjid (by simpa using hactive) k hk
        rw [isActiveFor_iff.mpr ⟨hentry, htype, hkactive⟩] at hnot
        cases hnot

/-- A retry of the failed jobs leaves none. -/
theorem not_failed_of_retryFailed {q' : TransferQueue}
    (h : retryFailed q = some q') {j : TransferJob} (hj : j ∈ q'.jobs) :
    j.status ≠ .failed := by
  rw [jobs_of_requeueJobs h] at hj
  obtain ⟨k, _, rfl⟩ := List.mem_map.mp hj
  unfold requeue
  by_cases hfailed : k.status = .failed
  · simp [hfailed]
  · simp [hfailed]

/-- The step lemma: the index stands in the way of nothing else. -/
theorem perform_isSome_iff (op : QueueOp) :
    (op.perform q).isSome = true ↔ NoRival q op := by
  cases op with
  | retryJob jobId =>
      rw [← alone_retryJob_iff]
      exact requeueJobs_isSome_iff _
  | retryFailed =>
      rw [← alone_retryFailed_iff]
      exact requeueJobs_isSome_iff _
  | retryRunning =>
      show (requeueJobs q _).isSome = true ↔ True
      simp [requeueJobs_running]
  | _ => simp [QueueOp.perform, NoRival]

theorem keepsConsistent_iff (op : QueueOp) :
    KeepsConsistent q op ↔ NoRival q op := by
  rw [← perform_isSome_iff]
  constructor
  · exact KeepsConsistent.completes
  · intro hcompletes
    refine { completes := hcompletes, oneActive := oneActive _, failed := ?_ }
    rintro rfl j hj hfailed
    obtain ⟨q', hq'⟩ := Option.isSome_iff_exists.mp hcompletes
    have hafter : QueueOp.after q .retryFailed = q' := by
      simp [QueueOp.after, hq']
    rw [hafter] at hj
    exact absurd hfailed (not_failed_of_retryFailed hq' hj)

end Retries

/-- In every run from the empty queue, each step completes and keeps the queue
consistent exactly where no rival of a retried job is left. -/
theorem retries_complete_iff (ops : List QueueOp) :
    ∀ s ∈ steps empty ops, KeepsConsistent s.1 s.2 ↔ NoRival s.1 s.2 :=
  fun s _ => keepsConsistent_iff s.2

/-- A job fails and is retried. -/
def failedOnce : List QueueOp :=
  [.enqueueUploadFile 1 "a" none 4, .claimNextQueuedByType .uploadFile,
    .markFailed 0, .retryFailed]

/-- The only job is retried. -/
theorem retries_complete_once :
    ∃ s ∈ steps empty failedOnce, s.2 = .retryFailed ∧
      KeepsConsistent s.1 s.2 := by
  have hlast : ∃ s ∈ steps empty failedOnce, s.2 = .retryFailed ∧
      ∀ j ∈ s.1.jobs, ∀ k ∈ s.1.jobs, k.id = j.id := by
    decide
  obtain ⟨s, hs, hretry, honly⟩ := hlast
  refine ⟨s, hs, hretry, (retries_complete_iff failedOnce s hs).mpr ?_⟩
  rw [hretry]
  intro j hj _ k hk hother
  exact absurd (honly j hj k hk) hother

/-- A job fails, another one is made for its entry, and the failed ones are
retried. -/
def failedTwice : List QueueOp :=
  [.enqueueUploadFile 1 "a" none 4, .claimNextQueuedByType .uploadFile,
    .markFailed 0, .enqueueUploadFile 1 "a" none 4, .retryFailed]

/-- The job that was made in its place is in the way of the failed one. -/
theorem not_retries_complete :
    ¬∀ ops : List QueueOp, ∀ s ∈ steps empty ops, KeepsConsistent s.1 s.2 := by
  intro h
  have hlast : ∃ s ∈ steps empty failedTwice,
      (s.2.perform s.1).isSome = false := by
    decide
  obtain ⟨s, hs, hthrows⟩ := hlast
  have hcompletes := (h failedTwice s hs).completes
  rw [hthrows] at hcompletes
  cases hcompletes

end ArkiveSync.QueueRetries
