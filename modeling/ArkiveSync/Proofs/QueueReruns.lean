import ArkiveSync.Model.LocalEntryRepo
import ArkiveSync.Model.QueueCrashes

/-!
# Jobs that are executed again

A restart queues the jobs that were running.  An upload job that is executed
again asks the policy first, and a row whose upload is recorded is up to date.
A folder job creates its folder without looking at the row, so that nothing may
interrupt it between the statement that records the folder and the one that
ends the job.

## Main results

* `Accounted.step`: what one step keeps of the log, the rows and the queue.
* `rerun_creates_nothing`: over any run without such an interruption, nothing
  is created again for a job whose result is recorded.
* `not_rerun_creates_nothing`: a crash behind the statement that records a
  folder.
-/

namespace ArkiveSync.QueueReruns

open Library QueueRepo

/-! ## The property -/

/-- Somebody else's writing of the rows leaves the result in the row of an
entry: its content, the content last synchronised, its remote id, and that it
is not deleted on either side. -/
def Keeps (entryId : Nat) (t t' : EntryTable) : Prop :=
  ∀ e', EntryRepo.getEntryById t' entryId = some e' →
    ∃ e, EntryRepo.getEntryById t entryId = some e ∧
      e'.remoteId = e.remoteId ∧ e'.contentHash = e.contentHash ∧
      e'.syncedContentHash = e.syncedContentHash ∧
      e'.localDeletedAt = e.localDeletedAt ∧
      e'.remoteDeletedAt = e.remoteDeletedAt

/-- The result of the job has been recorded, and the row has it still. -/
def Stands : List QueueEvent → TransferJob → Prop
  | [], _ => False
  | .recorded done :: log, job => done = job ∨ Stands log job
  | .created _ :: log, job => Stands log job
  | .rows t t' :: log, job => Keeps job.entryId t t' ∧ Stands log job

/-- No remote object was created for a job whose result stood. -/
def NothingTwice : List QueueEvent → Prop
  | [] => True
  | .created job :: log => ¬ Stands log job ∧ NothingTwice log
  | .recorded _ :: log => NothingTwice log
  | .rows _ _ :: log => NothingTwice log

theorem Stands.recorded {log : List QueueEvent} {job : TransferJob}
    (h : Stands log job) : QueueEvent.recorded job ∈ log := by
  induction log with
  | nil => exact absurd h id
  | cons event log ih =>
      cases event with
      | created other => exact List.mem_cons_of_mem _ (ih h)
      | recorded other =>
          rcases h with hsame | hrest
          · rw [hsame]
            exact List.mem_cons_self
          · exact List.mem_cons_of_mem _ (ih hrest)
      | rows t t' => exact List.mem_cons_of_mem _ (ih h.2)

/-- What is created changes nothing about the results that stand. -/
theorem stands_created {started : List TransferJob} {log : List QueueEvent}
    {job : TransferJob} :
    Stands (started.map QueueEvent.created ++ log) job ↔ Stands log job := by
  induction started with
  | nil => exact Iff.rfl
  | cons other started ih => exact ih

theorem nothingTwice_created {started : List TransferJob}
    {log : List QueueEvent} (hlog : NothingTwice log)
    (hstarted : ∀ job ∈ started, ¬ Stands log job) :
    NothingTwice (started.map QueueEvent.created ++ log) := by
  induction started with
  | nil => exact hlog
  | cons job started ih =>
      refine ⟨?_, ih (fun other hother =>
        hstarted other (List.mem_cons_of_mem _ hother))⟩
      intro hstands
      exact hstarted job List.mem_cons_self (stands_created.mp hstands)

theorem recorded_mem_created {started : List TransferJob}
    {log : List QueueEvent} {job : TransferJob} :
    QueueEvent.recorded job ∈ started.map QueueEvent.created ++ log ↔
      QueueEvent.recorded job ∈ log := by
  simp

/-! ## Rows that are up to date -/

/-- The row is there on both sides, with the content last synchronised. -/
structure UpToDate (e : Entry) : Prop where
  here : e.localDeletedAt = none
  there : e.remoteId.isSome = true
  live : e.remoteDeletedAt = none
  clean : e.contentHash = e.syncedContentHash

/-- In no mode such a row is uploaded. -/
theorem UpToDate.not_upload {e : Entry} (h : UpToDate e) (mode : SyncMode) :
    decideEntry mode e ≠ .upload := by
  obtain ⟨hhere, hthere, hlive, hclean⟩ := h
  have hstate : (classify e).localExists = true ∧
      (classify e).remoteExists = true ∧ (classify e).localDirty = false ∧
      (classify e).localDeleted = false ∧
      (classify e).remoteDeleted = false := by
    simp [classify, hhere, hthere, hlive, hclean]
  unfold decideEntry
  generalize classify e = s at hstate
  obtain ⟨hle, hre, hld, hdel, hrdel⟩ := hstate
  cases mode <;>
    simp only [SyncPolicy.decide, SyncPolicy.decideUploadOnly,
      SyncPolicy.decideRemoteMirror, SyncPolicy.decideTwoWay, hle, hre, hld,
      hdel, hrdel] <;>
    cases s.hasConflict <;> cases s.remoteDirty <;> decide

/-- Rows of an entry after a statement that names a row by its id. -/
theorem getEntryById_updateById {t : EntryTable} {entryId n : Nat}
    {f : Entry → Entry} {hid : ∀ e, (f e).id = e.id}
    {hkey : ∀ e, (f e).key = e.key} {e : Entry}
    (h : EntryRepo.getEntryById
      (RemoteEntryRepo.updateById t entryId f hid hkey) n = some e) :
    ∃ g, EntryRepo.getEntryById t n = some g ∧
      e = if n = entryId then f g else g := by
  obtain ⟨hmem, hn⟩ := (KeyedTable.lookupPk_eq_some_iff _ n e).mp h
  obtain ⟨g, hg, hrow⟩ := (RemoteEntryRepo.mem_updateById e).mp hmem
  have hgid : g.id = n := by
    rw [hrow] at hn
    split at hn
    · rw [hid] at hn
      exact hn
    · exact hn
  refine ⟨g, (KeyedTable.lookupPk_eq_some_iff _ n g).mpr ⟨hg, hgid⟩, ?_⟩
  rw [hrow, hgid]

/-- Recording an upload leaves every row up to date that was, and its own. -/
theorem upToDate_markEntryUploaded {t : EntryTable} {entryId n : Nat}
    {fileId : String} {parent : Option String} {e : Entry}
    (h : EntryRepo.getEntryById
      (RemoteEntryRepo.markEntryUploaded t entryId fileId parent) n = some e)
    (hold : n = entryId ∨
      ∀ g, EntryRepo.getEntryById t n = some g → UpToDate g) : UpToDate e := by
  obtain ⟨g, hg, hrow⟩ := getEntryById_updateById h
  rw [hrow]
  split
  · exact ⟨rfl, rfl, rfl, rfl⟩
  · rename_i hother
    exact hold.resolve_left hother g hg

/-- So does recording a folder. -/
theorem upToDate_markFolderCreated {t : EntryTable} {entryId n : Nat}
    {id : String} {parent : Option String} {e : Entry}
    (h : EntryRepo.getEntryById
      (RemoteEntryRepo.markFolderCreated t entryId id parent) n = some e)
    (hold : ∀ g, EntryRepo.getEntryById t n = some g → UpToDate g) :
    UpToDate e := by
  obtain ⟨g, hg, hrow⟩ := getEntryById_updateById h
  obtain ⟨hhere, hthere, hlive, hclean⟩ := hold g hg
  rw [hrow]
  split
  · exact ⟨hhere, rfl, hlive, hclean⟩
  · exact ⟨hhere, hthere, hlive, hclean⟩

/-! ## Jobs in the queue -/

/-- The job is in the queue, whatever its status. -/
def Known (q : TransferQueue) (job : TransferJob) : Prop :=
  ∃ j ∈ q.jobs, j.id = job.id ∧ j.jobType = job.jobType

/-- The job is in the queue and not done. -/
def Open (q : TransferQueue) (job : TransferJob) : Prop :=
  ∃ j ∈ q.jobs, j.id = job.id ∧ j.jobType = job.jobType ∧ j.status ≠ .done

/-- The job is done. -/
def Finished (q : TransferQueue) (job : TransferJob) : Prop :=
  ∀ j ∈ q.jobs, j.id = job.id → j.status = .done

section Queue

variable {q : TransferQueue} {job other : TransferJob}
  {p : TransferJob → Bool} {status : JobStatus}
  {hactive : ∀ j, p j = true → status.active = true → j.status.active = true}

theorem Open.known (h : Open q job) : Known q job := by
  obtain ⟨j, hj, hid, htype, -⟩ := h
  exact ⟨j, hj, hid, htype⟩

/-- Two jobs with one id have one type. -/
theorem Known.type_eq (h : Known q job) (hother : Known q other)
    (hid : job.id = other.id) : job.jobType = other.jobType := by
  obtain ⟨j, hj, hjid, hjtype⟩ := h
  obtain ⟨k, hk, hkid, hktype⟩ := hother
  have hsame := eq_of_id_eq hj hk (hjid.trans (hid.trans hkid.symm))
  rw [← hjtype, ← hktype, hsame]

theorem Open.not_finished (h : Open q job) (hid : job.id = other.id) :
    ¬ Finished q other := by
  intro hfinished
  obtain ⟨j, hj, hjid, -, hstatus⟩ := h
  exact hstatus (hfinished j hj (hjid.trans hid))

theorem Known.setStatus (h : Known q job) :
    Known (setStatus q p status hactive) job := by
  obtain ⟨j, hj, hid, htype⟩ := h
  refine ⟨_, (mem_setStatus _).mpr ⟨j, hj, rfl⟩, ?_⟩
  split <;> exact ⟨hid, htype⟩

theorem Known.markDone (h : Known q job) (jobId : Nat) :
    Known (markDone q jobId) job :=
  h.setStatus

theorem Known.markFailed (h : Known q job) (jobId : Nat) :
    Known (markFailed q jobId) job :=
  h.setStatus

theorem Known.retryRunning (h : Known q job) : Known (retryRunning q) job :=
  h.setStatus

theorem Open.setStatus (h : Open q job) (hstatus : status ≠ .done) :
    Open (setStatus q p status hactive) job := by
  obtain ⟨j, hj, hid, htype, hopen⟩ := h
  refine ⟨_, (mem_setStatus _).mpr ⟨j, hj, rfl⟩, ?_⟩
  split
  · exact ⟨hid, htype, hstatus⟩
  · exact ⟨hid, htype, hopen⟩

/-- A job stays done when another one, or an unfinished one, gets a status. -/
theorem Finished.setStatus (h : Finished q job)
    (hspares : ∀ j ∈ q.jobs, p j = true → j.id = job.id →
      j.status = .done → status = .done) :
    Finished (setStatus q p status hactive) job := by
  intro j hj hid
  obtain ⟨k, hk, hrow⟩ := (mem_setStatus j).mp hj
  have hkid : k.id = job.id := by
    rw [hrow] at hid
    split at hid <;> exact hid
  rw [hrow]
  split
  · rename_i hp
    exact hspares k hk hp hkid (h k hk hkid)
  · exact h k hk hkid

theorem finished_markDone (q : TransferQueue) (job : TransferJob) :
    Finished (markDone q job.id) job := by
  intro j hj hid
  obtain ⟨k, hk, hrow⟩ := (mem_setStatus j).mp hj
  have hkid : k.id = job.id := by
    rw [hrow] at hid
    split at hid <;> exact hid
  rw [hrow, if_pos (by rw [hkid, beq_self_eq_true])]

theorem Finished.markDone (h : Finished q job) (jobId : Nat) :
    Finished (markDone q jobId) job :=
  h.setStatus (fun _ _ _ _ _ => rfl)

theorem Finished.markFailed (h : Finished q job) {jobId : Nat}
    (hother : jobId ≠ job.id) : Finished (markFailed q jobId) job := by
  apply h.setStatus
  intro j _ hp hid
  exact absurd ((eq_of_beq hp).symm.trans hid) hother

theorem Finished.retryRunning (h : Finished q job) :
    Finished (retryRunning q) job := by
  apply h.setStatus
  intro j _ hp _ hdone
  rw [eq_of_beq hp] at hdone
  cases hdone

/-- A claim takes a queued job of the type. -/
theorem claimed {jobType : JobType} {q' : TransferQueue}
    (h : claimNextQueuedByType q jobType = some (job, q')) :
    job.jobType = jobType ∧ Open q' job ∧
      (∀ other, Known q other → Known q' other) ∧
      ∀ other, Finished q other → Finished q' other := by
  unfold claimNextQueuedByType at h
  split at h
  next => cases h
  next found hfound =>
      have hstatus := List.find?_some hfound
      simp only [Bool.and_eq_true, beq_iff_eq] at hstatus
      cases h
      refine ⟨hstatus.2, ?_, fun _ hknown => hknown.setStatus, ?_⟩
      · exact Open.setStatus ⟨found, List.mem_of_find?_eq_some hfound, rfl, rfl,
          by rw [hstatus.1]; simp⟩ (by simp)
      · intro other hfinished
        apply hfinished.setStatus
        intro j _ hp _ hdone
        simp only [Bool.and_eq_true, beq_iff_eq] at hp
        rw [hp.2] at hdone
        cases hdone

theorem Known.enqueue (h : Known q job) (entryId : Nat) (jobType : JobType)
    (localPath : String) (remoteFolderId : Option String) (bytesTotal : Nat) :
    Known (enqueue q entryId jobType localPath remoteFolderId bytesTotal)
      job := by
  obtain ⟨j, hj, hid, htype⟩ := h
  exact ⟨j, mem_enqueue hj, hid, htype⟩

theorem Open.enqueue (h : Open q job) (entryId : Nat) (jobType : JobType)
    (localPath : String) (remoteFolderId : Option String) (bytesTotal : Nat) :
    Open (enqueue q entryId jobType localPath remoteFolderId bytesTotal)
      job := by
  obtain ⟨j, hj, hid, htype, hstatus⟩ := h
  exact ⟨j, mem_enqueue hj, hid, htype, hstatus⟩

/-- A new job has an id that no job had. -/
theorem Finished.enqueue (h : Finished q job) (hknown : Known q job)
    (entryId : Nat) (jobType : JobType) (localPath : String)
    (remoteFolderId : Option String) (bytesTotal : Nat) :
    Finished (enqueue q entryId jobType localPath remoteFolderId bytesTotal)
      job := by
  unfold QueueRepo.enqueue
  split
  · exact h
  · intro j hj hid
    rcases List.mem_append.mp hj with hold | hnew
    · exact h j hold hid
    · obtain ⟨k, hk, hkid, -⟩ := hknown
      have hlt := q.idFresh k hk
      rw [List.mem_singleton.mp hnew] at hid
      change q.nextId = job.id at hid
      omega

end Queue

/-! ## The invariant -/

/-- A claimed upload job. -/
def Uploading (q : TransferQueue) (job : TransferJob) : Prop :=
  job.jobType = .uploadFile ∧ Known q job

/-- A claimed folder job whose folder is not recorded yet. -/
def Creating (q : TransferQueue) (job : TransferJob) : Prop :=
  job.jobType = .createFolder ∧ Open q job

/-- What the queue's thread holds: jobs of their type, and no item for which a
result stands. -/
def InPhase (q : TransferQueue) (log : List QueueEvent) : QueuePhase → Prop
  | .idle => True
  | .folderClaimed job => Creating q job
  | .folderAnswered job _ _ => Creating q job
  | .folderRecorded _ => True
  | .claiming jobs => ∀ job ∈ jobs, Uploading q job
  | .preparing left prepared => (∀ job ∈ left, Uploading q job) ∧
      ∀ x ∈ prepared, Uploading q x.1 ∧
        ∀ e, x.2 = .item e → ¬ Stands log x.1
  | .answered left results => (∀ x ∈ left, Uploading q x.1) ∧
      ∀ x ∈ results, Uploading q x.1
  | .marking results => ∀ x ∈ results, Uploading q x.1

/-- A run in which nothing was created twice: where a result stands, the row is
up to date or the folder job is over. -/
structure Accounted (s : QueueRun) : Prop where
  nothingTwice : NothingTwice s.log
  upToDate : ∀ job, Stands s.log job → job.jobType = .uploadFile →
    ∀ e, EntryRepo.getEntryById s.store.entries job.entryId = some e →
      UpToDate e
  known : ∀ job, QueueEvent.recorded job ∈ s.log → Known s.store.queue job
  finished : ∀ job, QueueEvent.recorded job ∈ s.log →
    job.jobType = .createFolder →
    s.phase = .folderRecorded job ∨ Finished s.store.queue job
  phase : InPhase s.store.queue s.log s.phase

/-- A thread that does not stand behind the record of a folder. -/
theorem Accounted.allFinished {s : QueueRun} (h : Accounted s)
    (hphase : ∀ job, s.phase ≠ .folderRecorded job) {job : TransferJob}
    (hrecorded : QueueEvent.recorded job ∈ s.log)
    (htype : job.jobType = .createFolder) : Finished s.store.queue job :=
  (h.finished job hrecorded htype).resolve_left (hphase job)

/-- Nothing is recorded for a folder job that is being executed. -/
theorem Accounted.not_recorded {s : QueueRun} (h : Accounted s)
    (hphase : ∀ job, s.phase ≠ .folderRecorded job) {job : TransferJob}
    (hcreating : Creating s.store.queue job) : ¬ Stands s.log job := by
  intro hstands
  exact hcreating.2.not_finished rfl
    (h.allFinished hphase hstands.recorded hcreating.1)

section Phases

variable {q q' : TransferQueue} {log : List QueueEvent} {phase : QueuePhase}

theorem InPhase.mono (h : InPhase q log phase)
    (hknown : ∀ job, Known q job → Known q' job)
    (hopen : ∀ job, Open q job → Open q' job)
    {log' : List QueueEvent} (hlog : ∀ job, Stands log' job → Stands log job) :
    InPhase q' log' phase := by
  have huploading : ∀ job, Uploading q job → Uploading q' job :=
    fun job hjob => ⟨hjob.1, hknown job hjob.2⟩
  cases phase with
  | idle => trivial
  | folderClaimed job => exact ⟨h.1, hopen job h.2⟩
  | folderAnswered job id parent => exact ⟨h.1, hopen job h.2⟩
  | folderRecorded job => trivial
  | claiming jobs => exact fun job hjob => huploading job (h job hjob)
  | preparing left prepared =>
      refine ⟨fun job hjob => huploading job (h.1 job hjob), ?_⟩
      intro x hx
      obtain ⟨hx, hitem⟩ := h.2 x hx
      exact ⟨huploading _ hx, fun e he hstands => hitem e he (hlog _ hstands)⟩
  | answered left results =>
      exact ⟨fun x hx => huploading _ (h.1 x hx),
        fun x hx => huploading _ (h.2 x hx)⟩
  | marking results => exact fun x hx => huploading _ (h x hx)

end Phases

/-! ## What a step keeps -/

section Steps

variable {s : QueueRun}

/-- A step of the thread that writes neither rows nor log. -/
theorem Accounted.queueStep (h : Accounted s) {queue : TransferQueue}
    {phase : QueuePhase}
    (hknown : ∀ job, Known s.store.queue job → Known queue job)
    (hfinished : ∀ job, QueueEvent.recorded job ∈ s.log →
      job.jobType = .createFolder →
      phase = .folderRecorded job ∨ Finished queue job)
    (hphase : InPhase queue s.log phase) :
    Accounted
      { store := { s.store with queue := queue }, phase := phase
        log := s.log } :=
  ⟨h.nothingTwice, h.upToDate,
    fun job hin => hknown job (h.known job hin), hfinished, hphase⟩

/-- The thread goes on with the queue as it is. -/
theorem Accounted.goOn (h : Accounted s)
    (hphase : ∀ job, s.phase ≠ .folderRecorded job) {phase : QueuePhase}
    (hin : InPhase s.store.queue s.log phase) :
    Accounted { s with phase := phase } := by
  refine h.queueStep (fun _ hknown => hknown) ?_ hin
  intro other hother hfolder
  exact Or.inr (h.allFinished hphase hother hfolder)

/-- The thread claims a job. -/
theorem Accounted.claim (h : Accounted s)
    (hphase : ∀ job, s.phase ≠ .folderRecorded job) {jobType : JobType}
    {job : TransferJob} {queue : TransferQueue}
    (hclaim : claimNextQueuedByType s.store.queue jobType = some (job, queue))
    {phase : QueuePhase} (hin : InPhase queue s.log phase) :
    Accounted
      { store := { s.store with queue := queue }, phase := phase
        log := s.log } := by
  obtain ⟨-, -, hknown, hfinished⟩ := claimed hclaim
  refine h.queueStep hknown ?_ hin
  intro other hother hfolder
  exact Or.inr (hfinished other (h.allFinished hphase hother hfolder))

/-- The server creates objects for jobs for which no result stands. -/
theorem Accounted.create (h : Accounted s)
    (hphase : ∀ job, s.phase ≠ .folderRecorded job)
    {started : List TransferJob} (hnot : ∀ job ∈ started, ¬ Stands s.log job)
    {phase : QueuePhase}
    (hin : InPhase s.store.queue (started.map QueueEvent.created ++ s.log)
      phase) :
    Accounted
      { s with
        phase := phase
        log := started.map QueueEvent.created ++ s.log } := by
  refine ⟨nothingTwice_created h.nothingTwice hnot, ?_, ?_, ?_, hin⟩
  · intro job hstands
    exact h.upToDate job (stands_created.mp hstands)
  · intro job hjob
    exact h.known job (recorded_mem_created.mp hjob)
  · intro job hjob hfolder
    exact Or.inr (h.allFinished hphase (recorded_mem_created.mp hjob) hfolder)

/-- The server creates the folder of the claimed job. -/
theorem Accounted.request (h : Accounted s) {job : TransferJob}
    (hphase : s.phase = .folderClaimed job) {phase : QueuePhase}
    (hin : InPhase s.store.queue (.created job :: s.log) phase) :
    Accounted
      { s with phase := phase, log := .created job :: s.log } := by
  have hother : ∀ other, s.phase ≠ .folderRecorded other := by
    rw [hphase]
    simp
  have hcreating := h.phase
  rw [hphase] at hcreating
  have hnot : ∀ other ∈ [job], ¬ Stands s.log other := by
    intro other hmem
    rw [List.mem_singleton.mp hmem]
    exact h.not_recorded hother hcreating
  exact h.create hother hnot hin

/-- A result is recorded in the row of its job, and a folder job has its end
before it. -/
theorem Accounted.record (h : Accounted s)
    (hphase : ∀ job, s.phase ≠ .folderRecorded job) {job : TransferJob}
    (hknown : Known s.store.queue job) {entries : EntryTable}
    {phase : QueuePhase}
    (hrows : ∀ other, Stands (.recorded job :: s.log) other →
      other.jobType = .uploadFile →
      ∀ e, EntryRepo.getEntryById entries other.entryId = some e → UpToDate e)
    (hnext : job.jobType = .createFolder → phase = .folderRecorded job)
    (hin : InPhase s.store.queue (.recorded job :: s.log) phase) :
    Accounted
      { store := { s.store with entries := entries }, phase := phase
        log := .recorded job :: s.log } := by
  refine ⟨h.nothingTwice, hrows, ?_, ?_, hin⟩
  · intro other hother
    rcases List.mem_cons.mp hother with hsame | hold
    · cases hsame
      exact hknown
    · exact h.known other hold
  · intro other hother hfolder
    rcases List.mem_cons.mp hother with hsame | hold
    · cases hsame
      exact Or.inl (hnext hfolder)
    · exact Or.inr (h.allFinished hphase hold hfolder)

/-- A folder job that ends without a record. -/
theorem Accounted.failFolder (h : Accounted s) {job : TransferJob}
    (hphase : s.phase = .folderClaimed job) :
    Accounted
      { store := { s.store with queue := markFailed s.store.queue job.id }
        phase := .idle, log := s.log } := by
  have hother : ∀ other, s.phase ≠ .folderRecorded other := by
    rw [hphase]
    simp
  have hcreating : Creating s.store.queue job := by
    have hin := h.phase
    rw [hphase] at hin
    exact hin
  refine h.queueStep (fun _ hknown => hknown.markFailed _) ?_ trivial
  intro other hin htype
  have hfinished := h.allFinished hother hin htype
  refine Or.inr (hfinished.markFailed ?_)
  intro hid
  exact hcreating.2.not_finished hid hfinished

/-- A file whose row is up to date is nothing to upload. -/
theorem Accounted.prepared (h : Accounted s) {job : TransferJob}
    (hjob : Uploading s.store.queue job) {cwd : FsPath} {disk : Disk}
    {e : Entry}
    (hitem : UploadJobRunner.prepareUploadItem cwd disk s.store job = .item e) :
    ¬ Stands s.log job := by
  intro hstands
  obtain ⟨row, root, -, -, hrow, -, hupload, -⟩ :=
    QueueService.prepareUploadItem_item hitem
  exact (h.upToDate job hstands hjob.1 row hrow).not_upload _ hupload

/-- A result of a batch is marked, be it done or failed. -/
theorem Accounted.mark (h : Accounted s)
    (hphase : ∀ job, s.phase ≠ .folderRecorded job) {job : TransferJob}
    (hjob : Uploading s.store.queue job) {left : List (TransferJob × Bool)}
    (hleft : ∀ x ∈ left, Uploading s.store.queue x.1) (ok : Bool) :
    Accounted
      { store :=
          { s.store with
            queue :=
              if ok then markDone s.store.queue job.id
              else markFailed s.store.queue job.id }
        phase := .marking left, log := s.log } := by
  have hknown : ∀ other, Known s.store.queue other →
      Known (if ok then markDone s.store.queue job.id
        else markFailed s.store.queue job.id) other := by
    intro other hother
    split
    · exact hother.markDone _
    · exact hother.markFailed _
  refine h.queueStep hknown ?_ ?_
  · intro other hother hfolder
    right
    have hfinished := h.allFinished hphase hother hfolder
    split
    · exact hfinished.markDone _
    · apply hfinished.markFailed
      -- the marked job is an upload, the other one a folder
      intro hid
      have htype := hjob.2.type_eq (h.known other hother) hid
      rw [hjob.1, hfolder] at htype
      cases htype
  · exact fun x hx => ⟨(hleft x hx).1, hknown _ (hleft x hx).2⟩

/-- Somebody else writes rows. -/
theorem Accounted.otherRows (h : Accounted s) (entries : EntryTable)
    (roots : List SyncRoot) :
    Accounted
      { s with
        store := { s.store with entries := entries, roots := roots }
        log := .rows s.store.entries entries :: s.log } := by
  have hmem : ∀ job,
      QueueEvent.recorded job ∈
        QueueEvent.rows s.store.entries entries :: s.log →
      QueueEvent.recorded job ∈ s.log := by
    intro job hjob
    rcases List.mem_cons.mp hjob with hsame | hold
    · cases hsame
    · exact hold
  refine ⟨h.nothingTwice, ?_, fun job hjob => h.known job (hmem job hjob),
    fun job hjob => h.finished job (hmem job hjob),
    h.phase.mono (fun _ hk => hk) (fun _ ho => ho) (fun _ hs => hs.2)⟩
  -- a result that stands behind the writing has kept its row
  intro job hstands htype e' he'
  obtain ⟨e, he, hremote, hhash, hsynced, hlocal, hdeleted⟩ :=
    hstands.1 e' he'
  obtain ⟨hhere, hthere, hlive, hclean⟩ :=
    h.upToDate job hstands.2 htype e he
  exact ⟨hlocal.trans hhere, by rw [hremote]; exact hthere,
    hdeleted.trans hlive, by rw [hhash, hsynced]; exact hclean⟩

/-- Somebody else queues a job. -/
theorem Accounted.otherJob (h : Accounted s) (entryId : Nat)
    (jobType : JobType) (localPath : String) (remoteFolderId : Option String)
    (bytesTotal : Nat) :
    Accounted
      { s with
        store :=
          { s.store with
            queue := enqueue s.store.queue entryId jobType localPath
              remoteFolderId bytesTotal } } := by
  refine h.queueStep (fun _ hknown => hknown.enqueue _ _ _ _ _) ?_
    (h.phase.mono (fun _ hknown => hknown.enqueue _ _ _ _ _)
      (fun _ hopen => hopen.enqueue _ _ _ _ _) (fun _ hs => hs))
  intro other hother hfolder
  rcases h.finished other hother hfolder with hsame | hfinished
  · exact Or.inl hsame
  · exact Or.inr (hfinished.enqueue (h.known other hother) _ _ _ _ _)

end Steps

section Batch

variable {q : TransferQueue} {log : List QueueEvent}
  {prepared : List (TransferJob × UploadJobRunner.Prepared)}

/-- The items of a batch that is prepared. -/
theorem InPhase.items (h : InPhase q log (.preparing [] prepared))
    {item : TransferJob × Entry}
    (hitem : item ∈ UploadJobRunner.itemsOf prepared) :
    Uploading q item.1 ∧ ¬ Stands log item.1 := by
  obtain ⟨x, hx, hsome⟩ := List.mem_filterMap.mp hitem
  obtain ⟨huploading, hnot⟩ := h.2 x hx
  obtain ⟨job, result⟩ := x
  cases result with
  | threw => cases hsome
  | nothing => cases hsome
  | item e =>
      cases hsome
      exact ⟨huploading, hnot e rfl⟩

/-- An answer to a batch is about its jobs. -/
theorem InPhase.answered (h : InPhase q log (.preparing [] prepared))
    (log' : List QueueEvent) (response : Option (Nat → Option String)) :
    InPhase q log'
      (.answered
        (UploadJobRunner.recordsOf response (UploadJobRunner.itemsOf prepared))
        (if (UploadJobRunner.itemsOf prepared).isEmpty then
          prepared.map (fun x => (x.1, decide (x.2 ≠ .threw)))
        else UploadJobRunner.resultsOf response prepared)) := by
  constructor
  · intro record hrecord
    cases response with
    | none => cases hrecord
    | some response =>
        obtain ⟨item, hitem, hsome⟩ := List.mem_filterMap.mp hrecord
        obtain ⟨fileId, -, rfl⟩ := Option.map_eq_some_iff.mp hsome
        exact (h.items hitem).1
  · intro result hresult
    have hjob : ∃ x ∈ prepared, result.1 = x.1 := by
      split at hresult
      · obtain ⟨x, hx, rfl⟩ := List.mem_map.mp hresult
        exact ⟨x, hx, rfl⟩
      · cases response with
        | none =>
            obtain ⟨x, hx, rfl⟩ := List.mem_map.mp hresult
            exact ⟨x, hx, rfl⟩
        | some response =>
            obtain ⟨x, hx, rfl⟩ := List.mem_map.mp hresult
            exact ⟨x, hx, rfl⟩
    obtain ⟨x, hx, hsame⟩ := hjob
    rw [hsame]
    exact (h.2 x hx).1

end Batch

/-- No crash falls behind the statement that records a folder, before the one
that ends its job. -/
def Uninterrupted (s : QueueRun) (action : QueueAction) : Prop :=
  action = .crash → ∀ job, s.phase ≠ .folderRecorded job

/-- What one step keeps. -/
theorem Accounted.step {s s' : QueueRun} {action : QueueAction}
    (h : Accounted s) (hstep : QueueStep s action s')
    (hmeets : Uninterrupted s action) : Accounted s' := by
  have hin := h.phase
  have hother : ∀ {phase : QueuePhase}, s.phase = phase →
      (∀ job, phase ≠ .folderRecorded job) →
      ∀ job, s.phase ≠ .folderRecorded job := by
    intro phase hphase hphases
    rw [hphase]
    exact hphases
  cases hstep with
  | claimFolder job queue hphase hclaim =>
      obtain ⟨htype, hopen, -, -⟩ := claimed hclaim
      exact h.claim (hother hphase (by simp)) hclaim ⟨htype, hopen⟩
  | refuseFolder job hphase hname => exact h.failFolder hphase
  | loseFolder job name reached hphase hname =>
      rw [hphase] at hin
      cases reached with
      | false => exact h.failFolder hphase
      | true =>
          -- the request arrives first, and the job fails behind it
          have hcreated : Accounted
              { s with
                phase := .folderClaimed job
                log := .created job :: s.log } := h.request hphase hin
          exact hcreated.failFolder rfl
  | requestFolder job name id parent hphase hname =>
      rw [hphase] at hin
      exact h.request hphase hin
  | recordFolder job id parent hphase =>
      rw [hphase] at hin
      refine h.record (hother hphase (by simp)) hin.2.known ?_ (fun _ => rfl)
        trivial
      intro other hstands htype e he
      rcases hstands with hsame | hstands
      · rw [← hsame, hin.1] at htype
        cases htype
      · exact upToDate_markFolderCreated he
          (fun g hg => h.upToDate other hstands htype g hg)
  | finishFolder job hphase =>
      refine h.queueStep (fun _ hknown => hknown.markDone _) ?_ trivial
      intro other hother hfolder
      right
      rcases h.finished other hother hfolder with hsame | hfinished
      · rw [hphase, QueuePhase.folderRecorded.injEq] at hsame
        rw [← hsame]
        exact finished_markDone _ _
      · exact hfinished.markDone _
  | firstUpload job queue hphase hclaim =>
      obtain ⟨htype, hopen, -, -⟩ := claimed hclaim
      refine h.claim (hother hphase (by simp)) hclaim ?_
      intro other hother
      rw [List.mem_singleton.mp hother]
      exact ⟨htype, hopen.known⟩
  | claimUpload jobs job queue hphase hroom hclaim =>
      obtain ⟨htype, hopen, hknown, -⟩ := claimed hclaim
      rw [hphase] at hin
      refine h.claim (hother hphase (by simp)) hclaim ?_
      intro other hother
      rcases List.mem_append.mp hother with hold | hnew
      · exact ⟨(hin other hold).1, hknown other (hin other hold).2⟩
      · rw [List.mem_singleton.mp hnew]
        exact ⟨htype, hopen.known⟩
  | startBatch jobs hphase hfull =>
      rw [hphase] at hin
      exact h.goOn (hother hphase (by simp)) ⟨hin, by simp⟩
  | prepare cwd disk job left prepared hphase =>
      rw [hphase] at hin
      refine h.goOn (hother hphase (by simp)) ⟨?_, ?_⟩
      · exact fun other hleft => hin.1 other (List.mem_cons_of_mem _ hleft)
      · intro x hx
        rcases List.mem_append.mp hx with hold | hnew
        · exact hin.2 x hold
        · rw [List.mem_singleton.mp hnew]
          have huploading := hin.1 job List.mem_cons_self
          exact ⟨huploading, fun e hitem => h.prepared huploading hitem⟩
  | upload prepared started response hphase hstarted hanswered =>
      rw [hphase] at hin
      refine h.create (hother hphase (by simp)) ?_ (hin.answered _ response)
      intro job hjob
      obtain ⟨e, he⟩ := hstarted job hjob
      exact (hin.items he).2
  | recordUpload job e fileId left results hphase =>
      rw [hphase] at hin
      have hjob : Uploading s.store.queue job := hin.1 _ List.mem_cons_self
      refine h.record (hother hphase (by simp)) hjob.2 ?_ ?_
        ⟨fun x hx => hin.1 x (List.mem_cons_of_mem _ hx), hin.2⟩
      · intro other hstands htype row hrow
        apply upToDate_markEntryUploaded hrow
        rcases hstands with hsame | hstands
        · exact Or.inl (by rw [hsame])
        · exact Or.inr (fun g hg => h.upToDate other hstands htype g hg)
      · intro hfolder
        rw [hjob.1] at hfolder
        cases hfolder
  | finishRecords results hphase =>
      rw [hphase] at hin
      exact h.goOn (hother hphase (by simp)) hin.2
  | markResult job ok left hphase =>
      rw [hphase] at hin
      exact h.mark (hother hphase (by simp)) (hin _ List.mem_cons_self)
        (fun x hx => hin x (List.mem_cons_of_mem _ hx)) ok
  | finishBatch hphase => exact h.goOn (hother hphase (by simp)) trivial
  | crash =>
      refine h.queueStep (fun _ hknown => hknown.retryRunning) ?_ trivial
      intro other hother hfolder
      exact Or.inr (h.allFinished (hmeets rfl) hother hfolder).retryRunning
  | otherRows entries roots => exact h.otherRows entries roots
  | otherJobs entryId jobType localPath remoteFolderId bytesTotal =>
      exact h.otherJob entryId jobType localPath remoteFolderId bytesTotal

/-- Over any run of the queue, with the other threads writing rows and adding
jobs and with crashes anywhere but behind the record of a folder, nothing is
created again for a job whose result is recorded and stands. -/
theorem rerun_creates_nothing {s s' : QueueRun} (hphase : s.phase = .idle)
    (hlog : s.log = []) (hrun : Run (Guarded QueueStep Uninterrupted) s s') :
    NothingTwice s'.log := by
  have hstart : Accounted s := by
    refine ⟨by rw [hlog]; trivial, ?_, ?_, ?_, by rw [hphase]; trivial⟩
    · intro job hstands
      rw [hlog] at hstands
      exact absurd hstands id
    · intro job hjob
      rw [hlog] at hjob
      cases hjob
    · intro job hjob
      rw [hlog] at hjob
      cases hjob
  have hkeeps : Preserves (Guarded QueueStep Uninterrupted) Accounted := by
    intro a b hguarded ha
    obtain ⟨action, hstep, hmeets⟩ := hguarded
    exact ha.step hstep hmeets
  exact (hkeeps.run hrun hstart).nothingTwice

/-! ## A folder job and a crash -/

namespace OneFolder

/-- The job of the directory `d`. -/
def job : TransferJob :=
  { id := 0, entryId := 0, jobType := .createFolder, status := .running
    localPath := "d", remoteFolderId := some "R", bytesTotal := 0 }

/-- The directory `d` of a root is queued. -/
def queued : QueueRun :=
  { store :=
      { roots := [{ id := "r", localPath := "/r", folderId := "R"
                    mode := .twoWay }]
        entries := LocalEntryRepo.upsertDirectoryEntry .empty
          { syncRootId := "r", relativePath := "d", lastSeenScanId := 0 }
        queue := enqueueCreateFolder QueueRepo.empty 0 "d" (some "R") }
    phase := .idle
    log := [] }

/-- The job is claimed. -/
def claimedJob (s : QueueRun) : QueueRun :=
  (s.withQueue (((claimNextQueuedByType s.store.queue .createFolder).map
    Prod.snd).getD s.store.queue)).enter (.folderClaimed job)

/-- The server has created a folder for it. -/
def answered (s : QueueRun) (id : String) : QueueRun :=
  (s.enter (.folderAnswered job id (some "R"))).logging [.created job]

/-- The folder is recorded. -/
def recorded (s : QueueRun) (id : String) : QueueRun :=
  ((s.withEntries (RemoteEntryRepo.markFolderCreated s.store.entries 0 id
    (some "R"))).enter (.folderRecorded job)).logging [.recorded job]

/-- The job is done. -/
def finished (s : QueueRun) : QueueRun :=
  (s.withQueue (markDone s.store.queue 0)).enter .idle

/-- The process has exited and started again. -/
def restarted (s : QueueRun) : QueueRun :=
  (s.withQueue (retryRunning s.store.queue)).enter .idle

theorem run_recorded : Run (Guarded QueueStep Uninterrupted) queued
    (recorded (answered (claimedJob queued) "D") "D") := by
  have hclaim : QueueStep queued .claimFolder (claimedJob queued) :=
    .claimFolder queued job _ rfl (by rfl)
  have hrequest : QueueStep (claimedJob queued)
      (.requestFolder true (some ("D", some "R")))
      (answered (claimedJob queued) "D") :=
    .requestFolder _ job "d" "D" (some "R") rfl (by decide)
  have hrecord : QueueStep (answered (claimedJob queued) "D") .recordFolder
      (recorded (answered (claimedJob queued) "D") "D") :=
    .recordFolder _ job "D" (some "R") rfl
  exact .tail (.tail (.single ⟨_, hclaim, by intro h; cases h⟩)
    ⟨_, hrequest, by intro h; cases h⟩) ⟨_, hrecord, by intro h; cases h⟩

end OneFolder

open OneFolder in
/-- A crash behind the end of the job. -/
theorem rerun_creates_nothing_folder :
    NothingTwice (restarted (finished
      (recorded (answered (claimedJob queued) "D") "D"))).log := by
  refine rerun_creates_nothing (s := queued) rfl rfl
    (.tail (.tail run_recorded ⟨.finishFolder, .finishFolder _ job rfl, ?_⟩)
      ⟨.crash, .crash _, ?_⟩)
  · intro h
    cases h
  · intro _ other h
    cases h

open OneFolder in
/-- A crash in front of it: the job is queued again, and a second folder is
created for the directory. -/
theorem not_rerun_creates_nothing :
    ∃ s s', s.phase = .idle ∧ s.log = [] ∧ Run QueueRun.Next s s' ∧
      ¬ NothingTwice s'.log := by
  have hcrash := QueueStep.crash (recorded (answered (claimedJob queued) "D")
    "D")
  have hclaim : QueueStep
      (restarted (recorded (answered (claimedJob queued) "D") "D")) .claimFolder
      (claimedJob (restarted
        (recorded (answered (claimedJob queued) "D") "D"))) :=
    .claimFolder _ job _ rfl (by rfl)
  have hrequest : QueueStep
      (claimedJob (restarted (recorded (answered (claimedJob queued) "D") "D")))
      (.requestFolder true (some ("E", some "R")))
      (answered (claimedJob (restarted
        (recorded (answered (claimedJob queued) "D") "D"))) "E") :=
    .requestFolder _ job "d" "E" (some "R") rfl (by decide)
  refine ⟨queued, _, rfl, rfl, .tail (.tail (.tail
    (run_recorded.lift id ?_) ⟨_, hcrash⟩) ⟨_, hclaim⟩) ⟨_, hrequest⟩, ?_⟩
  · rintro a b ⟨action, hstep, -⟩
    exact ⟨action, hstep⟩
  · intro h
    exact h.1 (Or.inl rfl)

end ArkiveSync.QueueReruns
