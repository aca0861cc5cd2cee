import Mathlib.Data.List.Nodup
import Mathlib.Data.List.Pairwise

/-!
# The transfer queue

`QueueRepo`: the jobs of the table `transfer_queue`, oldest first.  A job is
made for an entry, claimed, and then marked done or failed; nothing removes it
while the daemon runs.  A partial unique index allows an entry one active job
of each type, and an insert that it rejects is ignored.

## Main results

* `mem_enqueue`, `mem_setStatus`: the jobs a statement leaves behind.
* `exists_job_of_enqueue`: after an insert the entry has an active job,
  whether the insert was ignored or not.
-/

namespace ArkiveSync

/-- `job_type`. -/
inductive JobType where
  | createFolder
  | uploadFile
  deriving DecidableEq, Repr

/-- `status`. -/
inductive JobStatus where
  | queued
  | running
  | done
  | failed
  deriving DecidableEq, Repr

/-- `status IN ('queued', 'running')`. -/
def JobStatus.active : JobStatus → Bool
  | .queued => true
  | .running => true
  | _ => false

/-- `TransferJob`. -/
structure TransferJob where
  id : Nat
  entryId : Nat
  jobType : JobType
  status : JobStatus
  localPath : String
  remoteFolderId : Option String
  bytesTotal : Nat
  deriving DecidableEq, Repr

namespace TransferJob

/-- `entry_id = ? AND job_type = ? AND status IN ('queued', 'running')`. -/
def isActiveFor (entryId : Nat) (jobType : JobType) (j : TransferJob) : Bool :=
  j.entryId == entryId && j.jobType == jobType && j.status.active

end TransferJob

/-- The table with its primary key and `idx_transfer_active_job`. -/
structure TransferQueue where
  jobs : List TransferJob
  nextId : Nat
  idUnique : (jobs.map TransferJob.id).Nodup
  idFresh : ∀ j ∈ jobs, j.id < nextId
  activeUnique : jobs.Pairwise (fun j k =>
    j.status.active = true → k.isActiveFor j.entryId j.jobType = false)

namespace QueueRepo

/-- The queue without jobs. -/
def empty : TransferQueue :=
  { jobs := []
    nextId := 0
    idUnique := List.nodup_nil
    idFresh := by simp
    activeUnique := List.Pairwise.nil }

/-- `hasActiveJobForEntry`. -/
def hasActiveJobForEntry (q : TransferQueue) (entryId : Nat)
    (jobType : JobType) : Bool :=
  q.jobs.any (TransferJob.isActiveFor entryId jobType)

section Insert

variable {q : TransferQueue} {j : TransferJob}

theorem idUnique_insert (hid : j.id = q.nextId) :
    ((q.jobs ++ [j]).map TransferJob.id).Nodup := by
  rw [List.map_append, List.nodup_append]
  refine ⟨q.idUnique, by simp, ?_⟩
  intro a ha b hb
  obtain ⟨k, hk, rfl⟩ := List.mem_map.mp ha
  simp only [List.map_cons, List.map_nil, List.mem_singleton] at hb
  have hlt := q.idFresh k hk
  omega

theorem idFresh_insert (hid : j.id = q.nextId) :
    ∀ k ∈ q.jobs ++ [j], k.id < q.nextId + 1 := by
  intro k hk
  rcases List.mem_append.mp hk with hk | hk
  · have hlt := q.idFresh k hk
    omega
  · rw [List.mem_singleton.mp hk, hid]
    exact Nat.lt_succ_self _

theorem activeUnique_insert
    (h : ¬hasActiveJobForEntry q j.entryId j.jobType = true) :
    (q.jobs ++ [j]).Pairwise (fun j k =>
      j.status.active = true → k.isActiveFor j.entryId j.jobType = false) := by
  rw [List.pairwise_append]
  refine ⟨q.activeUnique, by simp, ?_⟩
  intro k hk k' hk' hactive
  rw [List.mem_singleton.mp hk']
  by_contra hsame
  apply h
  refine List.any_eq_true.mpr ⟨k, hk, ?_⟩
  simp only [TransferJob.isActiveFor, Bool.not_eq_false, Bool.and_eq_true,
    beq_iff_eq] at hsame ⊢
  exact ⟨⟨hsame.1.1.symm, hsame.1.2.symm⟩, hactive⟩

end Insert

/-- The `INSERT OR IGNORE` of `enqueueCreateFolder` and `enqueueUploadFile`. -/
def enqueue (q : TransferQueue) (entryId : Nat) (jobType : JobType)
    (localPath : String) (remoteFolderId : Option String) (bytesTotal : Nat) :
    TransferQueue :=
  if h : hasActiveJobForEntry q entryId jobType = true then q
  else
    { jobs := q.jobs ++
        [{ id := q.nextId, entryId := entryId, jobType := jobType
           status := .queued, localPath := localPath
           remoteFolderId := remoteFolderId, bytesTotal := bytesTotal }]
      nextId := q.nextId + 1
      idUnique := idUnique_insert rfl
      idFresh := idFresh_insert rfl
      activeUnique := activeUnique_insert h }

/-- `enqueueCreateFolder`. -/
def enqueueCreateFolder (q : TransferQueue) (entryId : Nat) (localPath : String)
    (remoteFolderId : Option String) : TransferQueue :=
  enqueue q entryId .createFolder localPath remoteFolderId 0

/-- `enqueueUploadFile`. -/
def enqueueUploadFile (q : TransferQueue) (entryId : Nat) (localPath : String)
    (remoteFolderId : Option String) (bytesTotal : Nat) : TransferQueue :=
  enqueue q entryId .uploadFile localPath remoteFolderId bytesTotal

/-- The assignment of `status` to the jobs that satisfy `p`; it makes no job
active that was not. -/
def setStatus (q : TransferQueue) (p : TransferJob → Bool) (status : JobStatus)
    (hactive : ∀ j, p j = true → status.active = true →
      j.status.active = true) : TransferQueue :=
  { jobs := q.jobs.map (fun j => if p j then { j with status := status } else j)
    nextId := q.nextId
    idUnique := by
      rw [List.map_map]
      have hid : (TransferJob.id ∘ fun j =>
          if p j then { j with status := status } else j) = TransferJob.id := by
        funext j
        simp only [Function.comp_apply]
        split <;> rfl
      rw [hid]
      exact q.idUnique
    idFresh := by
      intro j hj
      obtain ⟨k, hk, rfl⟩ := List.mem_map.mp hj
      split
      · exact q.idFresh k hk
      · exact q.idFresh k hk
    activeUnique := by
      refine q.activeUnique.map _ ?_
      intro j k hjk hj
      have hwas : j.status.active = true := by
        by_cases hp : p j = true
        · rw [if_pos hp] at hj
          exact hactive j hp hj
        · rw [if_neg hp] at hj
          exact hj
      have hother := hjk hwas
      by_contra hnot
      have hk : k.isActiveFor j.entryId j.jobType = true := by
        rw [Bool.not_eq_false] at hnot
        simp only [TransferJob.isActiveFor, Bool.and_eq_true, beq_iff_eq]
          at hnot ⊢
        obtain ⟨⟨hentry, htype⟩, hstatus⟩ := hnot
        refine ⟨⟨?_, ?_⟩, ?_⟩
        · split at hentry <;> split at hentry <;> exact hentry
        · split at htype <;> split at htype <;> exact htype
        · by_cases hp : p k = true
          · rw [if_pos hp] at hstatus
            exact hactive k hp hstatus
          · rw [if_neg hp] at hstatus
            exact hstatus
      rw [hother] at hk
      cases hk }

/-- `claimNextQueuedByType`. -/
def claimNextQueuedByType (q : TransferQueue) (jobType : JobType) :
    Option (TransferJob × TransferQueue) :=
  match q.jobs.find? (fun j => j.status == .queued && j.jobType == jobType) with
  | none => none
  | some job =>
      some ({ job with status := .running },
        setStatus q (fun j => j.id == job.id && j.status == .queued) .running
          (by
            intro j hj _
            simp only [Bool.and_eq_true, beq_iff_eq] at hj
            rw [hj.2]
            rfl))

/-- `markDone`. -/
def markDone (q : TransferQueue) (jobId : Nat) : TransferQueue :=
  setStatus q (fun j => j.id == jobId) .done (by intro j _ h; cases h)

/-- `markFailed`. -/
def markFailed (q : TransferQueue) (jobId : Nat) : TransferQueue :=
  setStatus q (fun j => j.id == jobId) .failed (by intro j _ h; cases h)

/-- `retryRunning`. -/
def retryRunning (q : TransferQueue) : TransferQueue :=
  setStatus q (fun j => j.status == .running) .queued (by
    intro j hj _
    rw [eq_of_beq hj]
    rfl)

/-- `claimNextQueued`: `claimNextQueuedByType` without a type. -/
def claimNextQueued (q : TransferQueue) :
    Option (TransferJob × TransferQueue) :=
  match q.jobs.find? (fun j => j.status == .queued) with
  | none => none
  | some job =>
      some ({ job with status := .running },
        setStatus q (fun j => j.id == job.id && j.status == .queued) .running
          (by
            intro j hj _
            simp only [Bool.and_eq_true, beq_iff_eq] at hj
            rw [hj.2]
            rfl))

/-- `SET status = 'queued'`, on the jobs that satisfy `p`. -/
def requeue (p : TransferJob → Bool) (j : TransferJob) : TransferJob :=
  if p j then { j with status := .queued } else j

/-- What `idx_transfer_active_job` asks of a job and one that comes after it. -/
def Apart (j k : TransferJob) : Prop :=
  j.status.active = true → k.isActiveFor j.entryId j.jobType = false

instance : DecidableRel Apart :=
  fun j k => inferInstanceAs (Decidable
    (j.status.active = true → k.isActiveFor j.entryId j.jobType = false))

/-- An `UPDATE` that queues the jobs that satisfy `p`, or `none` where the index
rejects one of them and the statement is undone.  The jobs only become active
on the way, so the index accepts every one of them when it accepts the last. -/
def requeueJobs (q : TransferQueue) (p : TransferJob → Bool) :
    Option TransferQueue :=
  if h : (q.jobs.map (requeue p)).Pairwise Apart then
    some
      { jobs := q.jobs.map (requeue p)
        nextId := q.nextId
        idUnique := by
          rw [List.map_map]
          have hid : TransferJob.id ∘ requeue p = TransferJob.id := by
            funext j
            simp only [Function.comp_apply, requeue]
            split <;> rfl
          rw [hid]
          exact q.idUnique
        idFresh := by
          intro j hj
          obtain ⟨k, hk, rfl⟩ := List.mem_map.mp hj
          have hid : (requeue p k).id = k.id := by
            unfold requeue
            split <;> rfl
          rw [hid]
          exact q.idFresh k hk
        activeUnique := h }
  else none

/-- `retryJob`: whatever the status of the job. -/
def retryJob (q : TransferQueue) (jobId : Nat) : Option TransferQueue :=
  requeueJobs q (fun j => j.id == jobId)

/-- `retryFailed`. -/
def retryFailed (q : TransferQueue) : Option TransferQueue :=
  requeueJobs q (fun j => j.status == .failed)

/-- `clearDone`. -/
def clearDone (q : TransferQueue) : TransferQueue :=
  { jobs := q.jobs.filter (fun j => j.status != .done)
    nextId := q.nextId
    idUnique := q.idUnique.sublist (List.filter_sublist.map _)
    idFresh := fun j hj => q.idFresh j (List.mem_of_mem_filter hj)
    activeUnique := q.activeUnique.sublist List.filter_sublist }

/-! ## The jobs afterwards -/

theorem mem_enqueue {q : TransferQueue} {entryId : Nat} {jobType : JobType}
    {localPath : String} {remoteFolderId : Option String} {bytesTotal : Nat}
    {j : TransferJob} (hj : j ∈ q.jobs) :
    j ∈ (enqueue q entryId jobType localPath remoteFolderId bytesTotal).jobs := by
  unfold enqueue
  split
  · exact hj
  · exact List.mem_append.mpr (Or.inl hj)

/-- After an insert the entry has a job that is not done. -/
theorem exists_job_of_enqueue (q : TransferQueue) (entryId : Nat)
    (jobType : JobType) (localPath : String) (remoteFolderId : Option String)
    (bytesTotal : Nat) :
    ∃ j ∈ (enqueue q entryId jobType localPath remoteFolderId bytesTotal).jobs,
      j.isActiveFor entryId jobType = true := by
  unfold enqueue
  split
  next h => exact List.any_eq_true.mp h
  next =>
      refine ⟨_, List.mem_append.mpr (Or.inr (List.mem_singleton.mpr rfl)), ?_⟩
      simp [TransferJob.isActiveFor, JobStatus.active]

theorem mem_setStatus {q : TransferQueue} {p : TransferJob → Bool}
    {status : JobStatus} {hactive : ∀ j, p j = true → status.active = true →
      j.status.active = true} (j : TransferJob) :
    j ∈ (setStatus q p status hactive).jobs ↔
      ∃ k ∈ q.jobs, j = if p k then { k with status := status } else k := by
  unfold setStatus
  simp only [List.mem_map]
  constructor
  · rintro ⟨k, hk, rfl⟩
    exact ⟨k, hk, rfl⟩
  · rintro ⟨k, hk, rfl⟩
    exact ⟨k, hk, rfl⟩

/-! ## Unfinished jobs -/

/-- The entry has a job that is queued, running or failed. -/
def Unfinished (q : TransferQueue) (entryId : Nat) : Prop :=
  ∃ j ∈ q.jobs, j.entryId = entryId ∧ j.status ≠ .done

/-- Every job is still there, for its entry, and at most the given ones are
done that were not. -/
def Advances (finished : Nat → Prop) (q q' : TransferQueue) : Prop :=
  ∀ j ∈ q.jobs, ∃ k ∈ q'.jobs, k.id = j.id ∧ k.entryId = j.entryId ∧
    (k.status = .done → j.status = .done ∨ finished j.id)

variable {q q' q'' : TransferQueue} {finished : Nat → Prop}

theorem Advances.refl (q : TransferQueue) : Advances finished q q :=
  fun j hj => ⟨j, hj, rfl, rfl, Or.inl⟩

theorem Advances.trans (h : Advances finished q q')
    (h' : Advances finished q' q'') : Advances finished q q'' := by
  intro j hj
  obtain ⟨k, hk, hid, hentry, hdone⟩ := h j hj
  obtain ⟨m, hm, hid', hentry', hdone'⟩ := h' k hk
  refine ⟨m, hm, hid'.trans hid, hentry'.trans hentry, ?_⟩
  intro hm'
  rcases hdone' hm' with hk' | hfin
  · exact hdone hk'
  · rw [hid] at hfin
    exact Or.inr hfin

theorem Advances.mono {finished' : Nat → Prop} (h : Advances finished q q')
    (himp : ∀ n, finished n → finished' n) : Advances finished' q q' := by
  intro j hj
  obtain ⟨k, hk, hid, hentry, hdone⟩ := h j hj
  exact ⟨k, hk, hid, hentry, fun hk' => (hdone hk').imp_right (himp j.id)⟩

/-- An entry none of whose jobs is finished has one left. -/
theorem Unfinished.of_advances {n : Nat} (h : Unfinished q n)
    (hadvances : Advances finished q q')
    (hnone : ∀ j ∈ q.jobs, j.entryId = n → ¬finished j.id) :
    Unfinished q' n := by
  obtain ⟨j, hj, hentry, hstatus⟩ := h
  obtain ⟨k, hk, _, hentry', hdone⟩ := hadvances j hj
  refine ⟨k, hk, hentry'.trans hentry, ?_⟩
  intro hk'
  rcases hdone hk' with hj' | hfin
  · exact hstatus hj'
  · exact hnone j hj hentry hfin

theorem advances_setStatus {p : TransferJob → Bool} {status : JobStatus}
    {hactive : ∀ j, p j = true → status.active = true →
      j.status.active = true}
    (hfinished : status = .done → ∀ j, p j = true → finished j.id) :
    Advances finished q (setStatus q p status hactive) := by
  intro j hj
  refine ⟨_, (mem_setStatus _).mpr ⟨j, hj, rfl⟩, ?_⟩
  by_cases hp : p j = true
  · rw [if_pos hp]
    exact ⟨rfl, rfl, fun hdone => Or.inr (hfinished hdone j hp)⟩
  · rw [if_neg hp]
    exact ⟨rfl, rfl, Or.inl⟩

theorem advances_markDone (jobId : Nat) :
    Advances (fun n => n = jobId) q (markDone q jobId) :=
  advances_setStatus (fun _ _ hp => eq_of_beq hp)

theorem advances_markFailed (jobId : Nat) :
    Advances finished q (markFailed q jobId) :=
  advances_setStatus (fun hdone => by cases hdone)

/-- A claim finishes no job, and the claimed one is in the table. -/
theorem claim_cases {jobType : JobType} {job : TransferJob}
    (h : claimNextQueuedByType q jobType = some (job, q')) :
    job ∈ q'.jobs ∧ Advances finished q q' := by
  unfold claimNextQueuedByType at h
  split at h
  next => cases h
  next found hfound =>
      cases h
      have hstatus := List.find?_some hfound
      simp only [Bool.and_eq_true, beq_iff_eq] at hstatus
      refine ⟨?_, advances_setStatus (fun hdone => by cases hdone)⟩
      refine (mem_setStatus _).mpr ⟨found, List.mem_of_find?_eq_some hfound, ?_⟩
      simp [hstatus.1]

/-! ## Pending jobs -/

/-- The entry has a job of the type that is queued or running. -/
def Pending (q : TransferQueue) (jobType : JobType) (entryId : Nat) : Prop :=
  ∃ j ∈ q.jobs, j.isActiveFor entryId jobType = true

/-- The job is an earlier one, up to its status, and it is not active again. -/
structure Succeeds (k j : TransferJob) : Prop where
  same : j = { k with status := j.status }
  active : j.status.active = true → k.status.active = true

theorem Succeeds.refl (j : TransferJob) : Succeeds j j :=
  { same := rfl, active := id }

theorem Succeeds.trans {k j i : TransferJob} (h : Succeeds k j)
    (h' : Succeeds j i) : Succeeds k i := by
  refine { same := ?_, active := fun hi => h.active (h'.active hi) }
  rw [h'.same, h.same]

/-- Every job of the second queue is one of the first. -/
def JobsFrom (q q' : TransferQueue) : Prop :=
  ∀ j ∈ q'.jobs, ∃ k ∈ q.jobs, Succeeds k j

theorem JobsFrom.refl (q : TransferQueue) : JobsFrom q q :=
  fun j hj => ⟨j, hj, .refl j⟩

theorem JobsFrom.trans (h : JobsFrom q q') (h' : JobsFrom q' q'') :
    JobsFrom q q'' := by
  intro j hj
  obtain ⟨k, hk, hkj⟩ := h' j hj
  obtain ⟨i, hi, hik⟩ := h k hk
  exact ⟨i, hi, hik.trans hkj⟩

section Pending

variable {q q' : TransferQueue} {jobType : JobType} {entryId : Nat}

/-- What is pending among the jobs of a queue was so among those they come
from. -/
theorem JobsFrom.pending (h : JobsFrom q q')
    (hpending : Pending q' jobType entryId) : Pending q jobType entryId := by
  obtain ⟨j, hj, hfor⟩ := hpending
  obtain ⟨k, hk, hkj⟩ := h j hj
  refine ⟨k, hk, ?_⟩
  rw [hkj.same] at hfor
  simp only [TransferJob.isActiveFor, Bool.and_eq_true, beq_iff_eq] at hfor ⊢
  exact ⟨hfor.1, hkj.active hfor.2⟩

/-- A change of status makes no job active. -/
theorem jobsFrom_setStatus {p : TransferJob → Bool} {status : JobStatus}
    {hactive : ∀ j, p j = true → status.active = true →
      j.status.active = true} :
    JobsFrom q (setStatus q p status hactive) := by
  intro j hj
  obtain ⟨k, hk, rfl⟩ := (mem_setStatus j).mp hj
  refine ⟨k, hk, ?_⟩
  by_cases hp : p k = true
  · rw [if_pos hp]
    exact { same := rfl, active := hactive k hp }
  · rw [if_neg hp]
    exact .refl k

theorem jobsFrom_markDone (jobId : Nat) : JobsFrom q (markDone q jobId) :=
  jobsFrom_setStatus

theorem jobsFrom_markFailed (jobId : Nat) : JobsFrom q (markFailed q jobId) :=
  jobsFrom_setStatus

theorem jobsFrom_retryRunning : JobsFrom q (retryRunning q) :=
  jobsFrom_setStatus

/-- The claimed job was queued, and no other job became active. -/
theorem jobsFrom_claim {job : TransferJob}
    (h : claimNextQueuedByType q jobType = some (job, q')) :
    (∃ k ∈ q.jobs, Succeeds k job ∧ k.status.active = true ∧
        k.jobType = jobType) ∧ JobsFrom q q' := by
  unfold claimNextQueuedByType at h
  split at h
  next => cases h
  next found hfound =>
      cases h
      have hstatus := List.find?_some hfound
      simp only [Bool.and_eq_true, beq_iff_eq] at hstatus
      have hactive : found.status.active = true := by
        rw [hstatus.1]
        rfl
      exact ⟨⟨found, List.mem_of_find?_eq_some hfound,
        { same := rfl, active := fun _ => hactive }, hactive, hstatus.2⟩,
        jobsFrom_setStatus⟩

/-- An insert adds a job with the values it is given only. -/
theorem job_of_enqueue {n : Nat} {inserted : JobType} {localPath : String}
    {remoteFolderId : Option String} {bytesTotal : Nat} {j : TransferJob}
    (hj : j ∈ (enqueue q n inserted localPath remoteFolderId bytesTotal).jobs) :
    j ∈ q.jobs ∨ (j.entryId = n ∧ j.jobType = inserted ∧
      j.localPath = localPath ∧ j.remoteFolderId = remoteFolderId) := by
  unfold enqueue at hj
  split at hj
  · exact Or.inl hj
  · rcases List.mem_append.mp hj with hj | hj
    · exact Or.inl hj
    · rw [List.mem_singleton.mp hj]
      exact Or.inr ⟨rfl, rfl, rfl, rfl⟩

/-- The claimed job was pending, and no other job became so. -/
theorem pending_of_claim {job : TransferJob}
    (h : claimNextQueuedByType q jobType = some (job, q')) :
    Pending q jobType job.entryId ∧
      ∀ ty n, Pending q' ty n → Pending q ty n := by
  obtain ⟨⟨k, hk, hkjob, hactive, htype⟩, hfrom⟩ := jobsFrom_claim h
  refine ⟨⟨k, hk, ?_⟩, fun ty n => hfrom.pending⟩
  rw [hkjob.same]
  simp [TransferJob.isActiveFor, hactive, htype]

end Pending

/-- A job is known by its id. -/
theorem eq_of_id_eq {j k : TransferJob} (hj : j ∈ q.jobs) (hk : k ∈ q.jobs)
    (hid : j.id = k.id) : j = k :=
  List.inj_on_of_nodup_map q.idUnique hj hk hid

instance : Std.Symm Apart where
  symm := by
    intro j k hjk hk
    by_contra hfor
    simp only [TransferJob.isActiveFor, Bool.not_eq_false, Bool.and_eq_true,
      beq_iff_eq] at hfor
    have hnot := hjk hfor.2
    simp [TransferJob.isActiveFor, hfor.1.1, hfor.1.2, hk] at hnot

/-- The index accepts the jobs exactly when no two active ones share an entry
and a type. -/
theorem pairwise_apart_iff {l : List TransferJob}
    (hid : (l.map TransferJob.id).Nodup) :
    l.Pairwise Apart ↔
      ∀ j ∈ l, ∀ k ∈ l, j.status.active = true → k.status.active = true →
        k.entryId = j.entryId → k.jobType = j.jobType → k = j := by
  constructor
  · intro hpairs j hj k hk hjactive hkactive hentry htype
    by_contra hne
    have hapart : Apart j k := hpairs.forall hj hk (Ne.symm hne)
    have hfor := hapart hjactive
    simp [TransferJob.isActiveFor, hentry, htype, hkactive] at hfor
  · intro hone
    have hids : l.Pairwise (fun j k => j.id ≠ k.id) := List.pairwise_map.mp hid
    apply List.Pairwise.imp_of_mem ?_ hids
    intro j k hj hk hne hactive
    by_contra hfor
    simp only [TransferJob.isActiveFor, Bool.not_eq_false, Bool.and_eq_true,
      beq_iff_eq] at hfor
    have hsame := hone j hj k hk hactive hfor.2 hfor.1.1 hfor.1.2
    exact hne (congrArg TransferJob.id hsame.symm)

/-- The active jobs of an entry and a type are one job. -/
theorem eq_of_active {j k : TransferJob} (hj : j ∈ q.jobs) (hk : k ∈ q.jobs)
    (hactive : j.status.active = true) (hactive' : k.status.active = true)
    (htype : j.jobType = k.jobType) (hentry : j.entryId = k.entryId) :
    j = k :=
  (pairwise_apart_iff q.idUnique).mp q.activeUnique k hk j hj hactive' hactive
    hentry htype

/-! ## Jobs queued again -/

@[simp] theorem requeue_id (p : TransferJob → Bool) (j : TransferJob) :
    (requeue p j).id = j.id := by
  unfold requeue
  split <;> rfl

@[simp] theorem requeue_entryId (p : TransferJob → Bool) (j : TransferJob) :
    (requeue p j).entryId = j.entryId := by
  unfold requeue
  split <;> rfl

@[simp] theorem requeue_jobType (p : TransferJob → Bool) (j : TransferJob) :
    (requeue p j).jobType = j.jobType := by
  unfold requeue
  split <;> rfl

theorem requeue_active (p : TransferJob → Bool) (j : TransferJob) :
    (requeue p j).status.active = true ↔
      p j = true ∨ j.status.active = true := by
  unfold requeue
  by_cases hp : p j = true
  · simp [hp, JobStatus.active]
  · simp [hp]

/-- Of an entry and a type, a single job is selected or active. -/
def Alone (q : TransferQueue) (p : TransferJob → Bool) : Prop :=
  ∀ j ∈ q.jobs, p j = true → ∀ k ∈ q.jobs,
    k.entryId = j.entryId → k.jobType = j.jobType →
      p k = true ∨ k.status.active = true → k = j

/-- The index accepts the selected jobs exactly when each is alone. -/
theorem pairwise_requeue_iff (p : TransferJob → Bool) :
    (q.jobs.map (requeue p)).Pairwise Apart ↔ Alone q p := by
  have hid : ((q.jobs.map (requeue p)).map TransferJob.id).Nodup := by
    have hsame : TransferJob.id ∘ requeue p = TransferJob.id :=
      funext (requeue_id p)
    rw [List.map_map, hsame]
    exact q.idUnique
  rw [pairwise_apart_iff hid]
  constructor
  · intro hone j hj hp k hk hentry htype hselected
    have hsame := hone _ (List.mem_map_of_mem hj) _ (List.mem_map_of_mem hk)
      ((requeue_active p j).mpr (Or.inl hp))
      ((requeue_active p k).mpr hselected) (by simpa using hentry)
      (by simpa using htype)
    apply eq_of_id_eq hk hj
    simpa using congrArg TransferJob.id hsame
  · intro halone a ha b hb hactive hactive' hentry htype
    obtain ⟨j, hj, rfl⟩ := List.mem_map.mp ha
    obtain ⟨k, hk, rfl⟩ := List.mem_map.mp hb
    simp only [requeue_entryId, requeue_jobType] at hentry htype
    rw [requeue_active] at hactive hactive'
    apply congrArg
    rcases hactive with hp | hactive
    · exact halone j hj hp k hk hentry htype hactive'
    · rcases hactive' with hp | hactive'
      · exact (halone k hk hp j hj hentry.symm htype.symm
          (Or.inr hactive)).symm
      · exact eq_of_active hk hj hactive' hactive htype hentry

theorem requeueJobs_isSome_iff (p : TransferJob → Bool) :
    (requeueJobs q p).isSome = true ↔ Alone q p := by
  rw [← pairwise_requeue_iff]
  unfold requeueJobs
  by_cases h : (q.jobs.map (requeue p)).Pairwise Apart
  · simp [h]
  · simp [h]

theorem jobs_of_requeueJobs {p : TransferJob → Bool}
    (h : requeueJobs q p = some q') : q'.jobs = q.jobs.map (requeue p) := by
  unfold requeueJobs at h
  by_cases hpairs : (q.jobs.map (requeue p)).Pairwise Apart
  · rw [dif_pos hpairs] at h
    cases h
    rfl
  · rw [dif_neg hpairs] at h
    cases h

/-- What runs is queued again without a conflict. -/
theorem requeueJobs_running (q : TransferQueue) :
    requeueJobs q (fun j => j.status == .running) = some (retryRunning q) := by
  have halone : Alone q (fun j => j.status == .running) := by
    intro j hj hrunning k hk hentry htype hselected
    have hactive : ∀ i : TransferJob, (i.status == .running) = true →
        i.status.active = true := by
      intro i hi
      rw [eq_of_beq hi]
      rfl
    exact eq_of_active hk hj (hselected.elim (hactive k) id)
      (hactive j hrunning) htype hentry
  unfold requeueJobs
  rw [dif_pos ((pairwise_requeue_iff _).mpr halone)]
  rfl

/-- What a claim does: a queued job runs, and the others stay as they are. -/
theorem claim_spec {job : TransferJob}
    (h : claimNextQueuedByType q jobType = some (job, q')) :
    (∃ found ∈ q.jobs, found.status = .queued ∧ found.jobType = jobType ∧
      job = { found with status := .running }) ∧ job ∈ q'.jobs ∧
    ∀ j, j ∈ q'.jobs ↔ j = job ∨ (j ∈ q.jobs ∧ j.id ≠ job.id) := by
  unfold claimNextQueuedByType at h
  split at h
  next => cases h
  next found hfound =>
      cases h
      have hin := List.mem_of_find?_eq_some hfound
      have hstatus := List.find?_some hfound
      simp only [Bool.and_eq_true, beq_iff_eq] at hstatus
      have hall : ∀ j, j ∈ (setStatus q (fun j => j.id == found.id &&
          j.status == .queued) .running (by
            intro j hj _
            simp only [Bool.and_eq_true, beq_iff_eq] at hj
            rw [hj.2]
            rfl)).jobs ↔
          j = { found with status := .running } ∨
            (j ∈ q.jobs ∧ j.id ≠ found.id) := by
        intro j
        rw [mem_setStatus]
        constructor
        · rintro ⟨k, hk, rfl⟩
          by_cases hid : k.id = found.id
          · have hsame := eq_of_id_eq hk hin hid
            subst hsame
            simp [hstatus.1]
          · simp [hid, hk]
        · rintro (rfl | ⟨hj, hid⟩)
          · exact ⟨found, hin, by simp [hstatus.1]⟩
          · exact ⟨j, hj, by simp [hid]⟩
      exact ⟨⟨found, hin, hstatus.1, hstatus.2, rfl⟩,
        (hall _).mpr (Or.inl rfl), hall⟩

/-- A job that is active once another one has been given a status that is not
active. -/
theorem mem_of_setStatus {n : Nat} {status : JobStatus} {j : TransferJob}
    {hkeeps : ∀ j : TransferJob, (j.id == n) = true → status.active = true →
      j.status.active = true}
    (hj : j ∈ (setStatus q (fun j => j.id == n) status hkeeps).jobs)
    (hstatus : status.active = false) (hactive : j.status.active = true) :
    j ∈ q.jobs ∧ j.id ≠ n := by
  obtain ⟨k, hk, hsame⟩ := (mem_setStatus j).mp hj
  by_cases hid : k.id = n
  · rw [if_pos (by simpa using hid)] at hsame
    rw [hsame] at hactive
    exact absurd hstatus (ne_false_of_eq_true hactive)
  · rw [if_neg (by simpa using hid)] at hsame
    subst hsame
    exact ⟨hk, hid⟩

theorem mem_of_markDone {n : Nat} {j : TransferJob}
    (hj : j ∈ (markDone q n).jobs) (hactive : j.status.active = true) :
    j ∈ q.jobs ∧ j.id ≠ n :=
  mem_of_setStatus hj rfl hactive

theorem mem_of_markFailed {n : Nat} {j : TransferJob}
    (hj : j ∈ (markFailed q n).jobs) (hactive : j.status.active = true) :
    j ∈ q.jobs ∧ j.id ≠ n :=
  mem_of_setStatus hj rfl hactive

/-! ## The status of a job -/

/-- The status of the job with an id, if there is one. -/
def statusOf (q : TransferQueue) (jobId : Nat) : Option JobStatus :=
  (q.jobs.find? (fun j => j.id == jobId)).map TransferJob.status

theorem statusOf_eq_some_iff {jobId : Nat} {status : JobStatus} :
    statusOf q jobId = some status ↔
      ∃ j ∈ q.jobs, j.id = jobId ∧ j.status = status := by
  unfold statusOf
  rw [Option.map_eq_some_iff]
  constructor
  · rintro ⟨j, hfound, hstatus⟩
    exact ⟨j, List.mem_of_find?_eq_some hfound,
      by simpa using List.find?_some hfound, hstatus⟩
  · rintro ⟨j, hj, hid, hstatus⟩
    cases hfound : q.jobs.find? (fun j => j.id == jobId) with
    | none =>
        have hnot := List.find?_eq_none.mp hfound j hj
        simp [hid] at hnot
    | some k =>
        have hk : k.id = jobId := by simpa using List.find?_some hfound
        have hsame : k = j := eq_of_id_eq (List.mem_of_find?_eq_some hfound) hj
          (hk.trans hid.symm)
        exact ⟨k, rfl, hsame ▸ hstatus⟩

/-- A mark of the job with an id changes the status of that job only. -/
theorem statusOf_setStatus {p : TransferJob → Bool} {status : JobStatus}
    {hactive : ∀ j, p j = true → status.active = true →
      j.status.active = true} {jobId : Nat}
    (hp : ∀ j ∈ q.jobs, p j = true ↔ j.id = jobId) (n : Nat) :
    statusOf (setStatus q p status hactive) n =
      if n = jobId then (statusOf q n).map (fun _ => status)
      else statusOf q n := by
  have hid : ∀ j, (if p j then { j with status := status } else j).id =
      j.id := by
    intro j
    split <;> rfl
  unfold statusOf setStatus
  simp only [List.find?_map, Function.comp_def, hid]
  cases hfound : q.jobs.find? (fun j => j.id == n) with
  | none => simp
  | some k =>
      have hk : k.id = n := by simpa using List.find?_some hfound
      have hpk := hp k (List.mem_of_find?_eq_some hfound)
      rw [hk] at hpk
      by_cases hn : n = jobId
      · simp [hn, hpk.mpr hn]
      · have hnot : p k = false := by
          rw [← Bool.not_eq_true, hpk]
          exact hn
        simp [hn, hnot]

theorem statusOf_markDone (jobId n : Nat) :
    statusOf (markDone q jobId) n =
      if n = jobId then (statusOf q n).map (fun _ => .done)
      else statusOf q n :=
  statusOf_setStatus (by simp) n

theorem statusOf_markFailed (jobId n : Nat) :
    statusOf (markFailed q jobId) n =
      if n = jobId then (statusOf q n).map (fun _ => .failed)
      else statusOf q n :=
  statusOf_setStatus (by simp) n

/-- A claimed job was queued and runs; the others are as they were. -/
theorem statusOf_claim {jobType : JobType} {job : TransferJob}
    (h : claimNextQueuedByType q jobType = some (job, q')) :
    statusOf q job.id = some .queued ∧ ∀ n, statusOf q' n =
      if n = job.id then some .running else statusOf q n := by
  obtain ⟨⟨found, hfound, hqueued, -, rfl⟩, hin, hall⟩ := claim_spec h
  refine ⟨statusOf_eq_some_iff.mpr ⟨found, hfound, rfl, hqueued⟩, ?_⟩
  intro n
  by_cases hn : n = found.id
  · rw [if_pos hn]
    exact statusOf_eq_some_iff.mpr ⟨_, hin, hn.symm, rfl⟩
  · rw [if_neg hn]
    apply Option.ext
    intro status
    rw [statusOf_eq_some_iff, statusOf_eq_some_iff]
    constructor
    · rintro ⟨j, hj, hid, hstatus⟩
      rcases (hall j).mp hj with rfl | ⟨hj, -⟩
      · exact absurd hid.symm hn
      · exact ⟨j, hj, hid, hstatus⟩
    · rintro ⟨j, hj, hid, hstatus⟩
      exact ⟨j, (hall j).mpr (Or.inr ⟨hj, fun h => hn (hid.symm.trans h)⟩), hid,
        hstatus⟩

/-! ## Queued jobs -/

/-- How many jobs of a type are queued. -/
def queuedOf (q : TransferQueue) (jobType : JobType) : Nat :=
  q.jobs.countP (fun j => j.status == .queued && j.jobType == jobType)

/-- A status other than queued queues no job. -/
theorem queuedOf_setStatus_le {p : TransferJob → Bool} {status : JobStatus}
    {hactive : ∀ j, p j = true → status.active = true →
      j.status.active = true}
    (hstatus : status ≠ .queued) (jobType : JobType) :
    queuedOf (setStatus q p status hactive) jobType ≤ queuedOf q jobType := by
  unfold queuedOf setStatus
  rw [List.countP_map]
  apply List.countP_mono_left
  intro j _ hj
  simp only [Function.comp_apply] at hj
  by_cases hp : p j = true
  · rw [if_pos hp] at hj
    simp [hstatus] at hj
  · rwa [if_neg hp] at hj

theorem queuedOf_markDone_le (q : TransferQueue) (jobId : Nat)
    (jobType : JobType) :
    queuedOf (markDone q jobId) jobType ≤ queuedOf q jobType :=
  queuedOf_setStatus_le (by decide) jobType

theorem queuedOf_markFailed_le (q : TransferQueue) (jobId : Nat)
    (jobType : JobType) :
    queuedOf (markFailed q jobId) jobType ≤ queuedOf q jobType :=
  queuedOf_setStatus_le (by decide) jobType

private theorem countP_map_lt {α : Type} {p : α → Bool} {f : α → α}
    {l : List α} (hmono : ∀ x ∈ l, p (f x) = true → p x = true) {x : α}
    (hx : x ∈ l) (hpx : p x = true) (hfx : p (f x) = false) :
    (l.map f).countP p < l.countP p := by
  induction l with
  | nil => cases hx
  | cons y ys ih =>
      have hrest : ∀ x ∈ ys, p (f x) = true → p x = true :=
        fun x hx => hmono x (List.mem_cons_of_mem _ hx)
      rw [List.map_cons, List.countP_cons, List.countP_cons]
      rcases List.mem_cons.mp hx with rfl | hx
      · have hle : (ys.map f).countP p ≤ ys.countP p := by
          rw [List.countP_map]
          exact List.countP_mono_left hrest
        rw [if_pos hpx, if_neg (by rw [hfx]; decide)]
        omega
      · have hlt := ih hrest hx
        have hhead := hmono y List.mem_cons_self
        by_cases hy : p (f y) = true
        · rw [if_pos hy, if_pos (hhead hy)]
          omega
        · rw [if_neg hy]
          omega

/-- A claim takes a job from the queued ones. -/
theorem queuedOf_claim_lt {jobType : JobType} {job : TransferJob}
    (h : claimNextQueuedByType q jobType = some (job, q')) :
    queuedOf q' jobType < queuedOf q jobType := by
  unfold claimNextQueuedByType at h
  split at h
  next => cases h
  next found hfound =>
      cases h
      have hp := List.find?_some hfound
      have hqueued := hp
      simp only [Bool.and_eq_true, beq_iff_eq] at hqueued
      refine countP_map_lt ?_ (List.mem_of_find?_eq_some hfound) hp ?_
      · intro j _ hj
        by_cases hself : (j.id == found.id && j.status == .queued) = true
        · rw [if_pos hself] at hj
          simp at hj
        · rwa [if_neg hself] at hj
      · simp [hqueued.1]

/-- A claim queues no job of any type. -/
theorem queuedOf_claim_le {claimed jobType : JobType} {job : TransferJob}
    (h : claimNextQueuedByType q claimed = some (job, q')) :
    queuedOf q' jobType ≤ queuedOf q jobType := by
  unfold claimNextQueuedByType at h
  split at h
  next => cases h
  next =>
      cases h
      exact queuedOf_setStatus_le (by decide) jobType

/-- Nothing is claimed exactly when no job is queued. -/
theorem claim_eq_none_iff (jobType : JobType) :
    claimNextQueuedByType q jobType = none ↔ queuedOf q jobType = 0 := by
  have hfind : q.jobs.find? (fun j =>
      j.status == .queued && j.jobType == jobType) = none ↔
        queuedOf q jobType = 0 := by
    rw [List.find?_eq_none]
    exact List.countP_eq_zero.symm
  rw [← hfind]
  unfold claimNextQueuedByType
  constructor
  · intro h
    split at h
    next hnone => exact hnone
    next => cases h
  · intro h
    rw [h]

end QueueRepo

end ArkiveSync
