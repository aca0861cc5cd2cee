import ArkiveSync.Model.QueueTick
import ArkiveSync.Proofs.BatchAccounting

/-!
# What a tick leaves of the jobs it claims

A tick claims every queued job, and every claimed job is marked once.  A job is
marked done for what it has done, with one exception: the text of an exception
that leaves `uploadFilesBatch` becomes the error of the jobs of the batch, and
without a text they have none.

## Main results

* `Effect.append`: what two runs of turns do to the statuses, one after the
  other.
* `Tick.effect`: every claimed job was queued, is marked once and ends as its
  mark says.
* `earned_iff`: the jobs of a batch that are marked done have been uploaded or
  needed no upload, unless the batch throws without a text.
* `tick_settles_iff`: every tick ends, and settles the jobs exactly when no
  batch throws without a text.
-/

namespace ArkiveSync.QueueTicks

open Library QueueRepo QueueService BatchAccounting
open UploadJobRunner hiding runBatch

variable (env : TickWorkers)

/-- The ids of the jobs that a run of turns has claimed. -/
def claimedIds (turns : List TickTurn) : List Nat :=
  turns.flatMap TickTurn.ids

/-- The marks of a run of turns. -/
def allMarks (turns : List TickTurn) : List (Nat × Bool) :=
  turns.flatMap (marksOf env)

/-- One result for each item of a batch. -/
def OnePerItem : Prop :=
  ∀ items uploads, env.uploadFilesBatch items = .ok uploads →
    (uploads.map UploadBatchResult.id).Perm (items.map UploadBatchItem.id)

/-- What a job has done that may be marked done. -/
inductive Earned : TickTurn → TransferJob → Prop where
  | folderCreated (claimed : SyncStore) (job : TransferJob) (name : String)
      (created : String × Option String)
      (hcreated : env.createFolder job name = .ok created)
      (hmarked : (afterTurn env (.folder claimed job)).entries =
        RemoteEntryRepo.markFolderCreated claimed.entries job.entryId created.1
          created.2) :
      Earned (.folder claimed job) job
  | uploaded (claimed : SyncStore) (jobs : List TransferJob)
      (job : TransferJob) (uploads : List UploadBatchResult)
      (upload : UploadBatchResult) (response : UploadFileResponse)
      (parentFolderId : Option String)
      (hreturned : env.uploadFilesBatch
        (batchItems (prepared env claimed) jobs) = .ok uploads)
      (hupload : upload ∈ uploads) (hid : upload.id = jobId env job)
      (hresponse : upload.response = some response)
      (hmarked : { entryId := job.entryId, fileId := response.fileId
                   parentFolderId := parentFolderId } ∈
        (runBatch env claimed jobs).marks) :
      Earned (.batch claimed jobs) job
  | notNeeded (claimed : SyncStore) (jobs : List TransferJob)
      (job : TransferJob) (e : Entry) (root : SyncRoot)
      (hentry : EntryRepo.getEntryById claimed.entries job.entryId = some e)
      (hroot : SyncRepo.findSyncRootById claimed.roots e.syncRootId = some root)
      (hdecide : decideEntry root.mode e ≠ .upload) :
      Earned (.batch claimed jobs) job

/-- Every job that was queued is settled behind the tick. -/
structure Settles (turns : List TickTurn) (s' : SyncStore) : Prop where
  nothingQueued : ∀ j ∈ s'.queue.jobs, j.status ≠ .queued
  markedOnce : (allMarks env turns).map Prod.fst = claimedIds turns ∧
    (claimedIds turns).Nodup
  settled : ∀ n ∈ claimedIds turns, ∃ done, (n, done) ∈ allMarks env turns ∧
    statusOf s'.queue n = some (markedStatus done)
  earned : ∀ turn ∈ turns, ∀ job ∈ turn.jobs,
    (job.id, true) ∈ marksOf env turn → Earned env turn job

/-- The exception that leaves `uploadFilesBatch` has no text. -/
def ThrowsSilently : TickTurn → Prop
  | .folder _ _ => False
  | .batch claimed jobs =>
      batchItems (prepared env claimed) jobs ≠ [] ∧
        env.uploadFilesBatch (batchItems (prepared env claimed) jobs) =
          .error ""

/-! ## The statuses behind a run of turns -/

section Statuses

variable {env}

variable (env) in
theorem runBatch_jobs (claimed : SyncStore) (jobs : List TransferJob) :
    (runBatch env claimed jobs).results.map UploadJobBatchResult.job = jobs := by
  have hfirst : (firstResults (prepared env claimed) jobs).map
      UploadJobBatchResult.job = jobs := jobs_firstResults
  unfold runBatch
  dsimp only
  by_cases hitems : (batchItems (prepared env claimed) jobs).isEmpty = true
  · rw [if_pos hitems]
    exact hfirst
  · rw [if_neg hitems]
    cases env.uploadFilesBatch (batchItems (prepared env claimed) jobs) with
    | ok uploads => exact jobs_takeResults
    | error what =>
        dsimp only
        rw [List.map_map]
        refine (List.map_congr_left ?_).trans hfirst
        intro result _
        simp only [Function.comp_apply]
        split <;> rfl

variable (env) in
/-- A turn marks the jobs it has claimed. -/
theorem marksOf_ids (turn : TickTurn) :
    (marksOf env turn).map Prod.fst = turn.ids := by
  cases turn with
  | folder claimed job => rfl
  | batch claimed jobs =>
      have hjobs := runBatch_jobs env claimed jobs
      show ((runBatch env claimed jobs).results.map _).map Prod.fst =
        jobs.map TransferJob.id
      conv_rhs => rw [← hjobs]
      rw [List.map_map, List.map_map]
      rfl

variable (env) in
theorem allMarks_ids (turns : List TickTurn) :
    (allMarks env turns).map Prod.fst = claimedIds turns := by
  unfold allMarks claimedIds
  rw [List.map_flatMap]
  exact List.flatMap_congr (fun turn _ => marksOf_ids env turn)

/-- What a run of turns does to the statuses of the jobs. -/
structure Effect (env : TickWorkers) (q : TransferQueue)
    (turns : List TickTurn) (q' : TransferQueue) : Prop where
  queued : ∀ n ∈ claimedIds turns, statusOf q n = some .queued
  nodup : (claimedIds turns).Nodup
  marked : ∀ mark ∈ allMarks env turns,
    statusOf q' mark.1 = some (markedStatus mark.2)
  kept : ∀ n, n ∉ claimedIds turns → statusOf q' n = statusOf q n

theorem Effect.nil (q : TransferQueue) : Effect env q [] q :=
  { queued := by simp [claimedIds]
    nodup := by simp [claimedIds]
    marked := by simp [allMarks]
    kept := fun _ _ => rfl }

/-- A claimed job is not queued any more. -/
theorem Effect.not_queued {q q' : TransferQueue} {turns : List TickTurn}
    (h : Effect env q turns q') {n : Nat} (hn : n ∈ claimedIds turns) :
    statusOf q' n ≠ some .queued := by
  rw [← allMarks_ids env] at hn
  obtain ⟨mark, hmark, rfl⟩ := List.mem_map.mp hn
  rw [h.marked mark hmark]
  cases mark.2 <;> simp [markedStatus]

/-- One run of turns behind another. -/
theorem Effect.append {q q₁ q₂ : TransferQueue} {turns later : List TickTurn}
    (h : Effect env q turns q₁) (h' : Effect env q₁ later q₂) :
    Effect env q (turns ++ later) q₂ := by
  have hids : claimedIds (turns ++ later) =
      claimedIds turns ++ claimedIds later := List.flatMap_append
  have hmarks : allMarks env (turns ++ later) =
      allMarks env turns ++ allMarks env later := List.flatMap_append
  have hapart : ∀ n ∈ claimedIds later, n ∉ claimedIds turns :=
    fun n hn hmem => h.not_queued hmem (h'.queued n hn)
  refine { queued := ?_, nodup := ?_, marked := ?_, kept := ?_ }
  · intro n hn
    rw [hids, List.mem_append] at hn
    rcases hn with hn | hn
    · exact h.queued n hn
    · rw [← h.kept n (hapart n hn)]
      exact h'.queued n hn
  · rw [hids, List.nodup_append']
    exact ⟨h.nodup, h'.nodup, fun n hn hmem => hapart n hmem hn⟩
  · intro mark hmark
    rw [hmarks, List.mem_append] at hmark
    rcases hmark with hmark | hmark
    · have hin : mark.1 ∈ claimedIds turns := by
        rw [← allMarks_ids env]
        exact List.mem_map_of_mem hmark
      rw [h'.kept mark.1 (fun hmem => hapart mark.1 hmem hin)]
      exact h.marked mark hmark
    · exact h'.marked mark hmark
  · intro n hn
    rw [hids, List.mem_append, not_or] at hn
    rw [h'.kept n hn.2, h.kept n hn.1]

variable (env) in
/-- One turn, given what its claims have done. -/
theorem effect_turn {q : TransferQueue} (turn : TickTurn)
    (hqueued : ∀ job ∈ turn.jobs, statusOf q job.id = some .queued)
    (hnodup : turn.ids.Nodup)
    (hclaims : ∀ n, statusOf turn.claimed.queue n =
      if n ∈ turn.ids then some .running else statusOf q n) :
    Effect env q [turn] (afterTurn env turn).queue := by
  have hids : claimedIds [turn] = turn.ids := by simp [claimedIds]
  have hmarks : allMarks env [turn] = marksOf env turn := by simp [allMarks]
  have hmarked := marksOf_ids env turn
  refine { queued := ?_, nodup := ?_, marked := ?_, kept := ?_ }
  · intro n hn
    rw [hids] at hn
    obtain ⟨job, hjob, rfl⟩ := List.mem_map.mp hn
    exact hqueued job hjob
  · rw [hids]
    exact hnodup
  · intro mark hmark
    rw [hmarks] at hmark
    have hin : mark.1 ∈ turn.ids := by
      rw [← hmarked]
      exact List.mem_map_of_mem hmark
    rw [queue_afterTurn, statusOf_applyMarks (by rw [hmarked]; exact hnodup)
      hmark, hclaims mark.1, if_pos hin]
    rfl
  · intro n hn
    rw [hids] at hn
    rw [queue_afterTurn, statusOf_applyMarks_apart (by rw [hmarked]; exact hn),
      hclaims n, if_neg hn]

variable {s s' : SyncStore} {turns : List TickTurn}

theorem folderTurns_effect (h : FolderTurns env s turns s') :
    Effect env s.queue turns s'.queue := by
  induction h with
  | stop s hnone => exact .nil s.queue
  | turn s job queue turns s' hclaim hrest ih =>
      obtain ⟨hqueued, hothers⟩ := statusOf_claim hclaim
      have hturn := effect_turn env (q := s.queue)
        (.folder { s with queue := queue } job)
        (by
          intro other hother
          rw [List.mem_singleton.mp hother]
          exact hqueued)
        (List.nodup_singleton job.id)
        (by
          intro n
          simpa [TickTurn.ids, TickTurn.jobs, TickTurn.claimed] using hothers n)
      exact hturn.append ih

theorem batchTurns_effect (h : BatchTurns env s turns s') :
    Effect env s.queue turns s'.queue := by
  induction h with
  | stop s hnone => exact .nil s.queue
  | turn s turns s' hsome hrest ih =>
      obtain ⟨hqueued, hnodup, hclaims⟩ :=
        statusOf_claimUploads kUploadBatchSize s.queue
      have hturn := effect_turn env (q := s.queue)
        (.batch { s with queue := (claimUploads kUploadBatchSize s.queue).2 }
          (claimUploads kUploadBatchSize s.queue).1) hqueued hnodup hclaims
      exact hturn.append ih

/-- Every job that a tick claims was queued, is marked once and ends as its mark
says. -/
theorem tick_effect (h : Tick env s turns s') :
    Effect env s.queue turns s'.queue := by
  obtain ⟨folders, batches, middle, hfolders, hbatches, rfl⟩ := h
  exact (folderTurns_effect hfolders).append (batchTurns_effect hbatches)

end Statuses

/-! ## What is marked done -/

section Done

variable {env}

/-- A job that prepares nothing does not need its upload. -/
theorem notNeeded_of_prepared {claimed : SyncStore} {job : TransferJob}
    (h : prepared env claimed job = .ok none) :
    ∃ e root, EntryRepo.getEntryById claimed.entries job.entryId = some e ∧
      SyncRepo.findSyncRootById claimed.roots e.syncRootId = some root ∧
      decideEntry root.mode e ≠ .upload := by
  have hnothing : prepareUploadItem env.cwd (env.disk job) claimed job =
      .nothing := by
    unfold prepared prepareItem at h
    split at h
    · cases h
    · assumption
    · cases h
  unfold prepareUploadItem at hnothing
  split at hnothing
  · cases hnothing
  · split at hnothing
    · cases hnothing
    · split at hnothing
      · exact ⟨_, _, by assumption, by assumption, by assumption⟩
      · dsimp only at hnothing
        repeat' split at hnothing
        all_goals cases hnothing

/-- A job with an item is to be uploaded. -/
theorem upload_of_prepared {claimed : SyncStore} {job : TransferJob}
    {item : UploadBatchItem} (h : prepared env claimed job = .ok (some item))
    {e : Entry} {root : SyncRoot}
    (hentry : EntryRepo.getEntryById claimed.entries job.entryId = some e)
    (hroot : SyncRepo.findSyncRootById claimed.roots e.syncRootId =
      some root) :
    decideEntry root.mode e = .upload := by
  by_contra hdecide
  unfold prepared prepareItem prepareUploadItem at h
  rw [hentry] at h
  dsimp only at h
  rw [hroot] at h
  dsimp only at h
  rw [if_pos hdecide] at h
  cases h

variable (env) in
/-- The ids of different jobs are different texts. -/
theorem nodup_jobIds {jobs : List TransferJob}
    (h : (jobs.map TransferJob.id).Nodup) : (jobs.map (jobId env)).Nodup := by
  have hmap : jobs.map (jobId env) =
      (jobs.map TransferJob.id).map env.idText := by
    rw [List.map_map]
    rfl
  rw [hmap]
  exact h.map env.idTextInjective

/-- A folder job that is marked done has made its folder. -/
theorem earned_folder {claimed : SyncStore} {job : TransferJob}
    (hdone : (job.id, true) ∈ marksOf env (.folder claimed job)) :
    Earned env (.folder claimed job) job := by
  have hran : (FolderCreateWorker.run (folderEnv env) job claimed).isSome =
      true := by
    have hmark := List.mem_singleton.mp hdone
    rw [Prod.mk.injEq] at hmark
    exact hmark.2.symm
  obtain ⟨ran, hrun⟩ := Option.isSome_iff_exists.mp hran
  have hafter : (afterTurn env (.folder claimed job)).entries =
      ran.entries := by
    show ((FolderCreateWorker.run (folderEnv env) job claimed).getD
      claimed).entries = _
    rw [hrun, Option.getD_some]
  unfold FolderCreateWorker.run at hrun
  split at hrun
  · cases hrun
  · split at hrun
    · cases hrun
    · split at hrun
      · cases hrun
      · split at hrun
        · cases hrun
        next name _ =>
          split at hrun
          · cases hrun
          next id parentFolderId hcreated =>
            cases hrun
            refine .folderCreated claimed job name (id, parentFolderId) ?_ hafter
            have hanswer : (env.createFolder job name).toOption =
                some (id, parentFolderId) := hcreated
            cases hcall : env.createFolder job name with
            | error what =>
                rw [hcall] at hanswer
                cases hanswer
            | ok answer =>
                rw [hcall] at hanswer
                rw [Option.some.inj hanswer]

section Batch

variable {claimed : SyncStore} {jobs : List TransferJob}

/-- A marked job of a batch has its result. -/
theorem result_of_mark {job : TransferJob} {done : Bool}
    (hnodup : (jobs.map TransferJob.id).Nodup) (hjob : job ∈ jobs)
    (hdone : (job.id, done) ∈ marksOf env (.batch claimed jobs)) :
    ∃ result ∈ (QueueService.runBatch env claimed jobs).results,
      result.job = job ∧ done = decide (result.error = "") := by
  obtain ⟨result, hresult, hmark⟩ := List.mem_map.mp hdone
  rw [Prod.mk.injEq] at hmark
  have hin : result.job ∈ jobs := by
    have hmem := List.mem_map_of_mem (f := UploadJobBatchResult.job) hresult
    rw [runBatch_jobs] at hmem
    exact hmem
  exact ⟨result, hresult, List.inj_on_of_nodup_map hnodup hin hjob hmark.1,
    hmark.2.symm⟩

/-- A job that prepares nothing may be marked done. -/
theorem earned_of_nothing {job : TransferJob}
    (h : prepared env claimed job = .ok none) :
    Earned env (.batch claimed jobs) job := by
  obtain ⟨e, root, hentry, hroot, hdecide⟩ := notNeeded_of_prepared h
  exact .notNeeded claimed jobs job e root hentry hroot hdecide

/-- A job without an error in a batch that returned. -/
theorem earned_of_returned (hone : OnePerItem env)
    (hnodup : (jobs.map TransferJob.id).Nodup) {uploads : List UploadBatchResult}
    (hitems : batchItems (prepared env claimed) jobs ≠ [])
    (hreturned : env.uploadFilesBatch (batchItems (prepared env claimed) jobs) =
      .ok uploads) {result : UploadJobBatchResult}
    (hresult : result ∈ (QueueService.runBatch env claimed jobs).results)
    (herror : result.error = "") :
    Earned env (.batch claimed jobs) result.job := by
  have hkeys := nodup_jobIds env hnodup
  have hids : ItemIds (jobId env) (prepared env claimed) := by
    intro job item hprepared
    exact itemIds_prepareItem (jobId env) env.cwd (env.disk job) claimed job item
      hprepared
  have hsublist : List.Sublist _ (jobs.map (jobId env)) := ids_batchItems hids
  have hunique := hsublist.nodup hkeys
  have hperm := hone _ _ hreturned
  have htaken : QueueService.runBatch env claimed jobs =
      takeResults (jobId env) (batchItems (prepared env claimed) jobs) uploads
        (firstResults (prepared env claimed) jobs) := by
    unfold QueueService.runBatch
    dsimp only
    rw [if_neg (by simpa using hitems), hreturned]
  rw [htaken] at hresult
  have hjob : result.job ∈ jobs := taken_job hresult
  by_cases hitem : ∃ item, prepared env claimed result.job = .ok (some item)
  · obtain ⟨item, hprepared⟩ := hitem
    obtain ⟨upload, hupload, hsame, hresponse⟩ :=
      upload_of_taken hids hkeys hperm hresult hprepared
    obtain ⟨response, hsome⟩ :=
      Option.isSome_iff_exists.mp (hresponse.mp herror)
    have hmarked := mark_of_upload (prepared env claimed) hkeys hunique hjob
      (mem_batchItems.mpr ⟨result.job, hjob, hprepared⟩)
      (hids _ item hprepared) hupload hsame hsome
    rw [← htaken] at hmarked
    exact .uploaded claimed jobs result.job uploads upload response
      item.entry.parentFolderId hreturned hupload hsame hsome hmarked
  · rw [not_exists] at hitem
    obtain ⟨item, hprepared⟩ :=
      (error_of_taken hids hkeys hperm hresult hitem).mp herror
    cases item with
    | none => exact earned_of_nothing hprepared
    | some item => exact absurd hprepared (hitem item)

/-- The jobs of a batch that are marked done have been uploaded or needed no
upload, unless the batch throws without a text. -/
theorem earned_iff (hone : OnePerItem env)
    (hnodup : (jobs.map TransferJob.id).Nodup) :
    (∀ job ∈ jobs, (job.id, true) ∈ marksOf env (.batch claimed jobs) →
      Earned env (.batch claimed jobs) job) ↔
        ¬ThrowsSilently env (.batch claimed jobs) := by
  constructor
  · rintro hearned ⟨hitems, hthrown⟩
    obtain ⟨item, hitem⟩ := List.exists_mem_of_ne_nil _ hitems
    obtain ⟨job, hjob, hprepared⟩ := mem_batchItems.mp hitem
    have hmark : (job.id, true) ∈ marksOf env (.batch claimed jobs) := by
      refine List.mem_map.mpr ⟨{ job := job, error := "" }, ?_, rfl⟩
      unfold QueueService.runBatch
      dsimp only
      rw [if_neg (by simpa using hitems), hthrown]
      refine List.mem_map.mpr ⟨{ job := job, error := "" }, ?_, rfl⟩
      exact List.mem_map.mpr ⟨job, hjob, by rw [hprepared]; rfl⟩
    rcases hearned job hjob hmark with _ |
      ⟨_, _, _, _, _, _, _, hreturned⟩ | ⟨_, _, _, e, root, hentry, hroot, hdecide⟩
    · rw [hthrown] at hreturned
      cases hreturned
    · exact hdecide (upload_of_prepared hprepared hentry hroot)
  · intro hloud job hjob hdone
    obtain ⟨result, hresult, hsame, hno⟩ := result_of_mark hnodup hjob hdone
    have herror : result.error = "" := of_decide_eq_true hno.symm
    rw [← hsame] at hjob ⊢
    by_cases hitems : batchItems (prepared env claimed) jobs = []
    · -- nothing is uploaded, and what is prepared without an error is no item
      have hfirst : (QueueService.runBatch env claimed jobs).results =
          firstResults (prepared env claimed) jobs := by
        unfold QueueService.runBatch
        dsimp only
        rw [hitems]
        rfl
      rw [hfirst] at hresult
      obtain ⟨job', hjob', hprepared'⟩ := List.mem_map.mp hresult
      have hjobs : job' = result.job := by
        rw [← hprepared']
        exact (preparedResult_job job' _).symm
      rw [← hprepared', error_prepared] at herror
      obtain ⟨item, hitem⟩ := herror
      rw [hjobs] at hitem
      cases item with
      | none => exact earned_of_nothing hitem
      | some item =>
          have hin := mem_batchItems.mpr ⟨result.job, hjob, hitem⟩
          rw [hitems] at hin
          cases hin
    · cases hreturned : env.uploadFilesBatch
          (batchItems (prepared env claimed) jobs) with
      | ok uploads =>
          exact earned_of_returned hone hnodup hitems hreturned hresult herror
      | error what =>
          have htext : what ≠ "" := by
            rintro rfl
            exact hloud ⟨hitems, hreturned⟩
          unfold QueueService.runBatch at hresult
          dsimp only at hresult
          rw [if_neg (by simpa using hitems), hreturned] at hresult
          obtain ⟨first, -, hwritten⟩ := List.mem_map.mp hresult
          rw [← hwritten] at herror
          by_cases hempty : first.error = ""
          · rw [if_pos hempty] at herror
            exact absurd herror htext
          · rw [if_neg hempty] at herror
            exact absurd herror hempty

end Batch

end Done

/-! ## A tick -/

section Tick

variable {env} {s s' : SyncStore} {turns : List TickTurn}

/-- A turn of a tick has claimed different jobs. -/
theorem nodup_turn (h : Effect env s.queue turns s'.queue) {turn : TickTurn}
    (hturn : turn ∈ turns) : turn.ids.Nodup := by
  have hnodup := h.nodup
  unfold claimedIds at hnodup
  rw [List.nodup_flatMap] at hnodup
  exact hnodup.1 turn hturn

theorem settles_iff (hone : OnePerItem env) (h : Tick env s turns s') :
    Settles env turns s' ↔ ∀ turn ∈ turns, ¬ThrowsSilently env turn := by
  have heffect := tick_effect h
  constructor
  · intro hsettles turn hturn
    cases turn with
    | folder claimed job => exact id
    | batch claimed jobs =>
        exact (earned_iff hone (nodup_turn heffect hturn)).mp
          (hsettles.earned _ hturn)
  · intro hloud
    refine
      { nothingQueued := ?_
        markedOnce := ⟨allMarks_ids env turns, heffect.nodup⟩
        settled := ?_
        earned := ?_ }
    · intro j hj hqueued
      have hnone := h.queued j.jobType
      unfold queuedOf at hnone
      have hnot := List.countP_eq_zero.mp hnone j hj
      simp [hqueued] at hnot
    · intro n hn
      rw [← allMarks_ids env] at hn
      obtain ⟨mark, hmark, rfl⟩ := List.mem_map.mp hn
      exact ⟨mark.2, hmark, heffect.marked mark hmark⟩
    · intro turn hturn job hjob hdone
      cases turn with
      | folder claimed other =>
          rw [List.mem_singleton.mp hjob] at hdone ⊢
          exact earned_folder hdone
      | batch claimed jobs =>
          exact (earned_iff hone (nodup_turn heffect hturn)).mpr
            (hloud _ hturn) job hjob hdone

theorem tick_exists (env : TickWorkers) (s : SyncStore) :
    ∃ turns s', Tick env s turns s' := by
  obtain ⟨folders, middle, hfolders⟩ := FolderTurns.exists env s
  obtain ⟨batches, s', hbatches⟩ := BatchTurns.exists env middle
  exact ⟨_, s', folders, batches, middle, hfolders, hbatches, rfl⟩

end Tick

/-- Every tick ends, and settles the jobs exactly when no batch throws without a
text. -/
theorem tick_settles_iff (env : TickWorkers) (hone : OnePerItem env)
    (s : SyncStore) :
    (∃ turns s', Tick env s turns s') ∧
      ∀ turns s', Tick env s turns s' →
        (Settles env turns s' ↔ ∀ turn ∈ turns, ¬ThrowsSilently env turn) :=
  ⟨tick_exists env s, fun _ _ h => settles_iff hone h⟩

/-! ## A tick with one upload -/

namespace OneUpload

/-- A file of one byte is queued. -/
def store : SyncStore :=
  { TwoFiles.store with
    queue := enqueueUploadFile QueueRepo.empty 0 "a" (some "R") 1 }

/-- The service answers each batch in the same way. -/
def workers (answer : List UploadBatchItem →
    Except String (List UploadBatchResult)) : TickWorkers :=
  { idText := fun n => String.ofList (List.replicate n 'i')
    idTextInjective := by
      intro m n h
      simpa using congrArg String.length h
    cwd := FsPath.parse "/"
    disk := fun _ => TwoFiles.disk
    createFolder := fun _ _ => .error "Server error"
    uploadFilesBatch := answer }

/-- Every item is uploaded. -/
def answered (items : List UploadBatchItem) :
    Except String (List UploadBatchResult) :=
  .ok (items.map (fun item =>
    { id := item.id, error := ""
      response := some
        { fileId := "F", vaultId := "V", uploadSessionId := "S"
          providerUploadId := "P" } }))

theorem answered_once : OnePerItem (workers answered) := by
  intro items uploads h
  have huploads : answered items = .ok uploads := h
  rw [← Except.ok.inj huploads, List.map_map]
  exact List.Perm.refl _

/-- The turn of the upload. -/
def turn : TickTurn :=
  .batch { store with queue := (claimUploads kUploadBatchSize store.queue).2 }
    (claimUploads kUploadBatchSize store.queue).1

/-- The tick has one turn. -/
theorem tick (answer : List UploadBatchItem →
    Except String (List UploadBatchResult))
    (hnone : (claimUploads kUploadBatchSize
      (afterTurn (workers answer) turn).queue).1 = []) :
    Tick (workers answer) store [turn] (afterTurn (workers answer) turn) :=
  ⟨[], [turn], store, .stop store rfl,
    .turn store [] _ (by decide) (.stop _ hnone), rfl⟩

end OneUpload

/-- The upload of the one file is settled. -/
theorem tick_settles_answered :
    ∃ turns s', Tick (OneUpload.workers OneUpload.answered) OneUpload.store
        turns s' ∧
      Settles (OneUpload.workers OneUpload.answered) turns s' := by
  obtain ⟨⟨turns, s', htick⟩, hall⟩ := tick_settles_iff
    (OneUpload.workers OneUpload.answered) OneUpload.answered_once
    OneUpload.store
  refine ⟨turns, s', htick, (hall turns s' htick).mpr ?_⟩
  intro turn _
  cases turn with
  | folder claimed job => exact id
  | batch claimed jobs =>
      rintro ⟨-, hthrown⟩
      cases hthrown

/-- An exception without a text marks the job done that it has kept from being
uploaded. -/
theorem not_tick_settles :
    ¬∀ (env : TickWorkers) (s : SyncStore) (turns : List TickTurn)
        (s' : SyncStore), OnePerItem env → Tick env s turns s' →
      Settles env turns s' := by
  intro h
  have hone : OnePerItem (OneUpload.workers (fun _ => .error "")) := by
    intro items uploads hreturned
    cases hreturned
  have htick := OneUpload.tick (fun _ => .error "") (by decide)
  have hloud := (settles_iff hone htick).mp (h _ _ _ _ hone htick)
  exact hloud _ List.mem_cons_self ⟨by decide, rfl⟩

end ArkiveSync.QueueTicks
