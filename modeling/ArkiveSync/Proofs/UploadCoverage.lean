import ArkiveSync.Proofs.QueueProduction

/-!
# Rows that come to the queue

A row that is to be uploaded gets its job when the production comes to it, or
when a dirty path at its place is processed.  It is passed over if its parent
folder has no remote id by then; a row that a scan writes behind the
production, or below the directory whose path is processed, never comes up.

## Main results

* `Ticking.runTick`: a tick finishes the job of a row only when the row is not
  to be uploaded any more.
* `reconcileRoot_rows`: a reconciliation makes no row one to be uploaded.
* `Covered.step`: a step that passes over no row to be uploaded keeps each of
  them ahead of the production or with a job that is not done.
-/

namespace ArkiveSync.UploadCoverage

open Library KeysetPage
open QueueProduction (Written scanRoot_maps pageOf_eq_page)

/-! ## The loop -/

/-- The policy wants the row uploaded, in the stored mode of its root. -/
def toUpload (roots : List SyncRoot) (e : Entry) : Bool :=
  match SyncRepo.findSyncRootById roots e.syncRootId with
  | none => false
  | some root => decide (decideEntry root.mode e = .upload)

/-- What the loop does, and what happens to the disk, for any root and in any
order. -/
inductive Event where
  | scanBatch (syncRootId : String) (isDirectory : Bool)
      (listing : Option DirStream)
  | producePage (syncRootId : String) (env : QueueEnv)
  | reconcile (env : ReconcileEnv) (root : SyncRoot)
  | record (syncRootId : String) (relativePath : Option String)
      (action : DirtyPathEventType)
  | dirtyPath (cwd : FsPath) (env : ReconcileEnv) (root : SyncRoot)
      (found : PathState)
  | runTick (env : QueueEnv)
  | diskChange (disk : Disk)

/-- One step.  The daemon gives its reconciler a hasher. -/
inductive Step : DaemonState → Event → DaemonState → Prop where
  | scanBatch (s : DaemonState) (syncRootId : String) (isDirectory : Bool)
      (listing : Option DirStream) :
      Step s (.scanBatch syncRootId isDirectory listing)
        (PollingDaemon.scanRoot syncRootId isDirectory listing s)
  | producePage (s s' : DaemonState) (syncRootId : String) (env : QueueEnv)
      (h : PollingDaemon.produceQueuePage env syncRootId
        (s.scanJobs syncRootId).isNone s = some s') :
      Step s (.producePage syncRootId env) s'
  | reconcile (s : DaemonState) (env : ReconcileEnv) (root : SyncRoot)
      (hhash : env.hashFile.isSome = true) :
      Step s (.reconcile env root) (PollingDaemon.reconcileRoot env root s).1
  | record (s : DaemonState) (syncRootId : String)
      (relativePath : Option String) (action : DirtyPathEventType) :
      Step s (.record syncRootId relativePath action)
        { s with
          dirtyPaths := DirtyPathRepo.insertDirtyPath s.dirtyPaths syncRootId
            relativePath action }
  | dirtyPath (s s' : DaemonState) (cwd : FsPath) (env : ReconcileEnv)
      (root : SyncRoot) (found : PathState)
      (hhash : env.hashFile.isSome = true)
      (h : PollingDaemon.processDirtyPath cwd env root found s = some s') :
      Step s (.dirtyPath cwd env root found) s'
  | runTick (s : DaemonState) (env : QueueEnv) :
      Step s (.runTick env) (PollingDaemon.runTick env s)
  | diskChange (s : DaemonState) (disk : Disk) :
      Step s (.diskChange disk) { s with disk := disk }

/-- The loop starts the production of every root anew. -/
structure Started (syncRootId : String) (s : DaemonState) : Prop where
  incomplete : s.queueComplete syncRootId = false
  cursor : s.queueCursors syncRootId = none

/-! ## When a row is not passed over -/

/-- The production has still to come to the row. -/
def Ahead (syncRootId : String) (s : DaemonState) (e : Entry) : Prop :=
  s.queueComplete syncRootId = false ∧
    Behind (s.queueCursors syncRootId) e.relativePath

instance (syncRootId : String) (s : DaemonState) (e : Entry) :
    Decidable (Ahead syncRootId s e) :=
  inferInstanceAs (Decidable (_ ∧ _))

/-- The row will come to the queue, or has a job that is not done. -/
def Covers (syncRootId : String) (s : DaemonState) (e : Entry) : Prop :=
  Ahead syncRootId s e ∨ QueueRepo.Unfinished s.store.queue e.id

instance (syncRootId : String) (s : DaemonState) (e : Entry) :
    Decidable (Covers syncRootId s e) :=
  inferInstanceAs (Decidable (Ahead syncRootId s e ∨
    ∃ j ∈ s.store.queue.jobs, j.entryId = e.id ∧ j.status ≠ .done))

/-- Every row to be uploaded that a scan writes is ahead of the production, or
has a job. -/
def WritesCovered (syncRootId : String) (s s' : DaemonState) : Prop :=
  ∀ e ∈ s'.store.entries.rows, e.syncRootId = syncRootId →
    toUpload s'.store.roots e = true → Written s.store.entries e →
      Covers syncRootId s e

/-- The mode of a root once it has its folder. -/
def pageMode (root : SyncRoot) : SyncMode :=
  if root.folderId = "" then .twoWay else root.mode

/-- No row to be uploaded is passed over by the next page of the root. -/
def PageAccepted (syncRootId : String) (s : DaemonState) : Prop :=
  s.queueComplete syncRootId = false →
    ∀ root, SyncRepo.findSyncRootById s.store.roots syncRootId = some root →
      ∀ e ∈ PollingDaemon.pageOf s syncRootId,
        decideEntry (pageMode root) e = .upload →
          QueueService.Accepted s.store.entries root e ∨
            QueueRepo.Unfinished s.store.queue e.id

/-- Every row to be uploaded that the scan of a path writes is ahead of the
production, has a job, or is the row at the path itself and not passed over. -/
def ScanAccepted (syncRootId : String) (s : DaemonState) (id rel : String)
    (s' : DaemonState) (call : ScanCall) : Prop :=
  ∀ e ∈ s'.store.entries.rows, e.syncRootId = syncRootId →
    toUpload s'.store.roots e = true → Written s.store.entries e →
      Covers syncRootId s e ∨
        (call = .succeeded ∧ id = syncRootId ∧ e.relativePath = rel ∧
          ∀ stored, SyncRepo.findSyncRootById s.store.roots syncRootId =
              some stored →
            QueueService.Accepted s'.store.entries stored e)

/-- This is so of the scan of the next dirty path of a root. -/
def PathAccepted (syncRootId : String) (cwd : FsPath) (root : SyncRoot)
    (found : PathState) (s : DaemonState) : Prop :=
  ∀ d ps rel,
    DirtyPathRepo.claimNextPending s.dirtyPaths root.id = some (d, ps) →
    d.eventType ≠ .fullRescan → d.relativePath = some rel →
    ∀ s' call, PollingDaemon.scanPath cwd root.id rel found
        { s with dirtyPaths := ps } = (s', call) →
      ScanAccepted syncRootId { s with dirtyPaths := ps } root.id rel s' call

/-- A folder that is going to be created is settled by that: it has no content
of a former file, and was not deleted remotely. -/
def FoldersSettle (syncRootId : String) (s : SyncStore) : Prop :=
  ∀ e ∈ s.entries.rows, e.syncRootId = syncRootId →
    toUpload s.roots e = true → e.isDirectory = true →
      QueueRepo.Pending s.queue .createFolder e.id →
        e.contentHash = e.syncedContentHash ∧ e.remoteDeletedAt = none

/-- The step passes over no row to be uploaded. -/
def PassesOverNone (syncRootId : String) (s : DaemonState) : Event → Prop
  | .scanBatch j isDirectory listing =>
      WritesCovered syncRootId s
        (PollingDaemon.scanRoot j isDirectory listing s)
  | .producePage j _ => j = syncRootId → PageAccepted syncRootId s
  | .dirtyPath cwd _ root found => PathAccepted syncRootId cwd root found s
  | .runTick _ => FoldersSettle syncRootId s.store
  | _ => True

/-! ## Rows that are not to be uploaded -/

theorem toUpload_of_find {roots : List SyncRoot} {root : SyncRoot} {e : Entry}
    (hroot : SyncRepo.findSyncRootById roots e.syncRootId = some root) :
    toUpload roots e = true ↔ decideEntry root.mode e = .upload := by
  unfold toUpload
  rw [hroot]
  exact decide_eq_true_iff

theorem find_of_toUpload {roots : List SyncRoot} {e : Entry}
    (h : toUpload roots e = true) :
    ∃ root, SyncRepo.findSyncRootById roots e.syncRootId = some root ∧
      decideEntry root.mode e = .upload := by
  cases hroot : SyncRepo.findSyncRootById roots e.syncRootId with
  | none =>
      unfold toUpload at h
      rw [hroot] at h
      cases h
  | some root => exact ⟨root, rfl, (toUpload_of_find hroot).mp h⟩

theorem decide_of_settled {s : SyncEntryState} (hremote : s.remoteExists = true)
    (hclean : s.localDirty = false) (mode : SyncMode) :
    SyncPolicy.decide s mode ≠ .upload := by
  obtain ⟨le, re, ld, rd, lDirty, rDirty, dir, conf⟩ := s
  dsimp only at hremote hclean
  subst hremote hclean
  revert le ld rd rDirty dir conf
  cases mode <;> decide

/-- An uploaded row is not to be uploaded. -/
theorem decideEntry_of_uploaded {e : Entry} (h : QueueService.Uploaded e)
    (mode : SyncMode) : decideEntry mode e ≠ .upload := by
  refine decide_of_settled ?_ ?_ mode
  · simp [classify, h.bound, h.live]
  · simp [classify, h.clean]

theorem not_toUpload_of_uploaded {roots : List SyncRoot} {e : Entry}
    (h : QueueService.Uploaded e) : toUpload roots e ≠ true := by
  intro hup
  obtain ⟨root, _, hdec⟩ := find_of_toUpload hup
  exact decideEntry_of_uploaded h root.mode hdec

theorem decide_of_remoteExists {s : SyncEntryState} (hs : s.Consistent)
    {mode : SyncMode}
    (h : SyncPolicy.decide { s with remoteExists := !s.remoteDeleted } mode =
      .upload) : SyncPolicy.decide s mode = .upload := by
  obtain ⟨le, re, ld, rd, lDirty, rDirty, dir, conf⟩ := s
  obtain ⟨hsides, hlive, hdirty, hremoteDirty⟩ := hs
  dsimp only at hsides hlive hdirty hremoteDirty h ⊢
  subst hsides
  revert re ld rd lDirty rDirty dir conf
  cases mode <;> decide

/-- A folder that is to be uploaded once it is created was so before. -/
theorem toUpload_of_created {roots : List SyncRoot} {e : Entry}
    {remoteId : String} {parentFolderId : Option String}
    (h : toUpload roots { e with
      remoteId := some remoteId
      parentFolderId := parentFolderId
      syncState := .unchanged } = true) : toUpload roots e = true := by
  obtain ⟨root, hroot, hdec⟩ := find_of_toUpload h
  have hfound : SyncRepo.findSyncRootById roots e.syncRootId = some root :=
    hroot
  refine (toUpload_of_find hfound).mpr ?_
  refine decide_of_remoteExists (classify_consistent e) ?_
  rw [← hdec]
  unfold decideEntry classify
  simp

/-- A row that a scan has not written stood in the table, and was to be
uploaded if it is. -/
theorem exists_of_unwritten {old : EntryTable} {e : Entry}
    (h : ¬Written old e) :
    ∃ f ∈ old.rows, f.id = e.id ∧ f.syncRootId = e.syncRootId ∧
      f.relativePath = e.relativePath ∧
      ∀ roots, toUpload roots f = toUpload roots e := by
  by_contra hnone
  apply h
  intro f hf hid heq
  exact hnone ⟨f, hf, hid, by rw [heq], by rw [heq], by rw [heq]; intro _; rfl⟩

/-! ## A tick -/

section Tick

open QueueRepo QueueService

variable {syncRootId : String} {s₀ s s' : SyncStore} {env : QueueEnv}
variable {disk : Disk}

/-- The table during a tick that began with `s₀`: what is to be uploaded was
so then, and still has the job it had. -/
structure Ticking (syncRootId : String) (s₀ s : SyncStore) : Prop where
  roots : s.roots = s₀.roots
  rows : ∀ e ∈ s.entries.rows, e.syncRootId = syncRootId →
    toUpload s.roots e = true → e ∈ s₀.entries.rows ∧
      (Unfinished s₀.queue e.id → Unfinished s.queue e.id)
  pending : ∀ jobType n, Pending s.queue jobType n →
    Pending s₀.queue jobType n

theorem Ticking.folder (hsettle : FoldersSettle syncRootId s₀)
    (h : Ticking syncRootId s₀ s) {job : TransferJob} {queue : TransferQueue}
    (hclaim : claimNextQueuedByType s.queue .createFolder =
      some (job, queue)) :
    Ticking syncRootId s₀ (runFolderJob env job { s with queue := queue }) := by
  have hcases : job ∈ queue.jobs ∧
      Advances (fun _ => False) s.queue queue := claim_cases hclaim
  obtain ⟨hjob, hadvances⟩ := hcases
  obtain ⟨hclaimed, hback⟩ := pending_of_claim hclaim
  have hkeeps : ∀ n, Unfinished s.queue n → Unfinished queue n :=
    fun n hn => hn.of_advances hadvances (fun _ _ _ hf => hf)
  rcases runFolderJob_cases env job { s with queue := queue } with
    hfailed | ⟨id, parentFolderId, row, hrow, hdir, -, hdone⟩
  · rw [hfailed]
    refine ⟨h.roots, ?_, ?_⟩
    · intro e he hroot hup
      obtain ⟨hmem, hjobs⟩ := h.rows e he hroot hup
      refine ⟨hmem, ?_⟩
      intro hunfinished
      have hmarked : Advances (fun _ => False) queue
          (markFailed queue job.id) := advances_markFailed job.id
      exact (hkeeps e.id (hjobs hunfinished)).of_advances hmarked
        (fun _ _ _ hf => hf)
    · intro jobType n hpending
      exact h.pending jobType n
        (hback jobType n ((jobsFrom_markFailed _).pending hpending))
  · rw [hdone]
    refine ⟨h.roots, ?_, ?_⟩
    · intro e he hroot hup
      have hmem : e ∈ (RemoteEntryRepo.markFolderCreated s.entries job.entryId
        id parentFolderId).rows := he
      unfold RemoteEntryRepo.markFolderCreated at hmem
      obtain ⟨f, hf, hef⟩ := (RemoteEntryRepo.mem_updateById e).mp hmem
      have hrowmem := (s.entries.lookupPk_eq_some_iff job.entryId row).mp hrow
      by_cases hself : f.id = job.entryId
      · -- the row of the job: it is settled now
        rw [if_pos hself] at hef
        exfalso
        have hsame : row = f := s.entries.eq_of_pk_eq hrowmem.1 hf
          (hrowmem.2.trans hself.symm)
        subst hsame
        have hupBefore : toUpload s.roots row = true := by
          rw [hef] at hup
          exact toUpload_of_created hup
        have hrowRoot : row.syncRootId = syncRootId := by
          rw [← hroot, hef]
        obtain ⟨hold, -⟩ := h.rows row hf hrowRoot hupBefore
        rw [h.roots] at hupBefore
        have hpending : Pending s₀.queue .createFolder row.id := by
          rw [hself]
          exact h.pending _ _ hclaimed
        obtain ⟨hclean, hlive⟩ :=
          hsettle row hold hrowRoot hupBefore hdir hpending
        refine not_toUpload_of_uploaded ?_ hup
        rw [hef]
        exact ⟨hclean, rfl, hlive⟩
      · rw [if_neg hself] at hef
        subst hef
        obtain ⟨hold, hjobs⟩ := h.rows e hf hroot hup
        refine ⟨hold, ?_⟩
        intro hunfinished
        refine (hkeeps e.id (hjobs hunfinished)).of_advances
          (advances_markDone job.id) ?_
        intro j hj hentry hid
        have hsame := eq_of_id_eq hj hjob hid
        rw [hsame] at hentry
        exact hself hentry.symm
    · intro jobType n hpending
      exact h.pending jobType n
        (hback jobType n ((jobsFrom_markDone _).pending hpending))

/-- A batch finds the row of a job in the table, to be uploaded, or has
nothing to do for it. -/
theorem not_toUpload_of_nothing {job : TransferJob} {e : Entry}
    (he : e ∈ s.entries.rows) (hentry : job.entryId = e.id)
    (h : UploadJobRunner.prepareUploadItem env.cwd disk s job = .nothing) :
    toUpload s.roots e ≠ true := by
  intro hup
  obtain ⟨root, hroot, hdec⟩ := find_of_toUpload hup
  have hrow : EntryRepo.getEntryById s.entries job.entryId = some e :=
    (s.entries.lookupPk_eq_some_iff job.entryId e).mpr ⟨he, hentry.symm⟩
  unfold UploadJobRunner.prepareUploadItem at h
  simp only [hrow, hroot, hdec, ne_eq, not_true_eq_false, if_false] at h
  split at h
  · cases h
  · split at h
    · cases h
    · split at h
      · cases h
      · split at h
        · cases h
        · cases h

theorem Ticking.batch (h : Ticking syncRootId s₀ s) :
    Ticking syncRootId s₀
      (runUploadBatch env disk (claimUploads kUploadBatchSize s.queue).1
        { s with queue := (claimUploads kUploadBatchSize s.queue).2 }) := by
  have hcases : Advances (fun _ => False) s.queue
      (claimUploads kUploadBatchSize s.queue).2 ∧ _ :=
    claimUploads_cases kUploadBatchSize s.queue
  obtain ⟨hadvances, hclaimed⟩ := hcases
  obtain ⟨-, hback⟩ := claimUploads_pending kUploadBatchSize s.queue
  generalize hclaim : claimUploads kUploadBatchSize s.queue = claimed
    at hadvances hclaimed hback
  obtain ⟨jobs, queue⟩ := claimed
  dsimp only at hadvances hclaimed hback ⊢
  obtain ⟨hrootsSame, hqueueSame⟩ :=
    runBatch_frame env disk jobs { s with queue := queue }
  unfold runUploadBatch
  refine ⟨?_, ?_, ?_⟩
  · show (UploadJobRunner.runBatch env disk jobs _).1.roots = _
    rw [hrootsSame]
    exact h.roots
  · intro e he hroot hup
    obtain ⟨f, hf, hid, -, hcases⟩ := runBatch_cases env disk jobs
      { s with queue := queue } he
    rcases hcases with huploaded | ⟨hsame, hresults⟩
    · exact absurd hup (not_toUpload_of_uploaded huploaded)
    · subst hsame
      have hupBefore : toUpload s.roots e = true := by
        rw [← hup]
        show toUpload s.roots e = toUpload (UploadJobRunner.runBatch env disk
          jobs { s with queue := queue }).1.roots e
        rw [hrootsSame]
      obtain ⟨hold, hjobs⟩ := h.rows e hf hroot hupBefore
      refine ⟨hold, ?_⟩
      intro hunfinished
      have hstill : Unfinished queue e.id :=
        (hjobs hunfinished).of_advances hadvances (fun _ _ _ hno => hno)
      show Unfinished (markResults _ (UploadJobRunner.runBatch env disk jobs
        { s with queue := queue }).1.queue) e.id
      rw [hqueueSame]
      refine hstill.of_advances (advances_markResults _ _) ?_
      intro j hj hentry hfinished
      obtain ⟨r, hr, hok, hrid⟩ := hfinished
      have hnamed : r.1 ∈ jobs → r.1.entryId = e.id := by
        intro hrjob
        obtain ⟨k, hk, hkid, hkentry⟩ := hclaimed r.1 hrjob
        have hkj := eq_of_id_eq hk hj (hkid.trans hrid)
        rw [← hkentry, hkj, hentry]
      have hrjob := runBatch_results env disk jobs { s with queue := queue } hr
      obtain ⟨-, hnothing⟩ := hresults r hr hok (hnamed hrjob)
      exact not_toUpload_of_nothing (s := { s with queue := queue }) hf
        (hnamed hrjob) hnothing hupBefore
  · intro jobType n hpending
    have hmarked := (jobsFrom_markResults _ _).pending hpending
    rw [hqueueSame] at hmarked
    exact h.pending jobType n (hback jobType n hmarked)

/-- All turns of a tick. -/
theorem Ticking.runTick (hsettle : FoldersSettle syncRootId s₀) :
    Ticking syncRootId s₀ (runTick env disk s₀) := by
  have hkeep : Preserves (TickStep env disk) (Ticking syncRootId s₀) := by
    intro a b hstep ha
    cases hstep with
    | folder job queue hclaim => exact ha.folder hsettle hclaim
    | batch => exact ha.batch
  refine hkeep.run (runTick_run env disk s₀) ⟨rfl, ?_, fun _ _ h => h⟩
  intro e he _ _
  exact ⟨he, fun h => h⟩

end Tick

/-! ## A reconciliation -/

theorem remoteExists_of_download {s : SyncEntryState} {mode : SyncMode}
    (h : SyncPolicy.decide s mode = .download) : s.remoteExists = true := by
  obtain ⟨le, re, ld, rd, lDirty, rDirty, dir, conf⟩ := s
  revert le re ld rd lDirty rDirty dir conf
  cases mode <;> decide

/-- A row with a conflict, or with what was synchronised last. -/
def Blocked (e : Entry) : Prop :=
  (classify e).hasConflict = true ∨ QueueService.Uploaded e

theorem Blocked.not_toUpload {roots : List SyncRoot} {e : Entry}
    (h : Blocked e) : toUpload roots e ≠ true := by
  rcases h with hconflict | huploaded
  · intro hup
    obtain ⟨root, _, hdec⟩ := find_of_toUpload hup
    rw [decideEntry_of_hasConflict hconflict] at hdec
    cases hdec
  · exact not_toUpload_of_uploaded huploaded

/-- A row is as it was before a reconciliation, or blocked. -/
theorem reconcileRoot_rows {env : ReconcileEnv}
    (hhash : env.hashFile.isSome = true) (root : SyncRoot) (w : World) :
    ∀ e ∈ (SyncReconciler.reconcileRoot env root w).world.entries.rows,
      e ∈ w.entries.rows ∨ Blocked e := by
  refine SyncReconciler.reconcileRows_induction (P := fun v =>
    ∀ e ∈ v.entries.rows, e ∈ w.entries.rows ∨ Blocked e) _ w
    (fun e he => Or.inl he) ?_
  intro turn hturn v hv e he
  obtain ⟨hturnmem, _⟩ := (EntryRepo.mem_listEntries _ _ _).mp hturn
  rcases SyncReconciler.reconcileEntry_hashed hhash root turn v with hsame | hconflict | ⟨hdec, size, mtime, hash, hdone⟩
  · rw [hsame] at he
    exact hv e he
  · rw [hconflict] at he
    unfold ConflictRepo.markConflict at he
    obtain ⟨f, hf, hef⟩ := (RemoteEntryRepo.mem_updateById e).mp he
    by_cases hself : f.id = turn.id
    · rw [if_pos hself] at hef
      right
      left
      rw [hef]
      simp [classify]
    · rw [if_neg hself] at hef
      rw [hef]
      exact hv f hf
  · rw [hdone] at he
    unfold RemoteEntryRepo.markEntryDownloadedAs at he
    obtain ⟨f, hf, hef⟩ := (RemoteEntryRepo.mem_updateById e).mp he
    by_cases hself : f.id = turn.id
    · rw [if_pos hself] at hef
      right
      rcases hv f hf with hold | hconflict | huploaded
      · -- the row of the turn itself: it is live on the other side
        have hsame := w.entries.eq_of_pk_eq hold hturnmem hself
        subst hsame
        have hexists := remoteExists_of_download hdec
        simp only [classify, Bool.and_eq_true, Bool.not_eq_true',
          Option.isSome_eq_false_iff, Option.isNone_iff_eq_none] at hexists
        right
        rw [hef]
        exact ⟨rfl, hexists.1, hexists.2⟩
      · left
        rw [hef]
        exact hconflict
      · right
        rw [hef]
        exact ⟨rfl, huploaded.bound, huploaded.live⟩
    · rw [if_neg hself] at hef
      rw [hef]
      exact hv f hf

/-! ## The invariant -/

section Cover

open QueueRepo

variable {syncRootId : String} {s s' : DaemonState} {event : Event}

/-- Every row to be uploaded is covered, and the mode of the root changes
before its production starts only. -/
structure Covered (syncRootId : String) (s : DaemonState) : Prop where
  rows : ∀ e ∈ s.store.entries.rows, e.syncRootId = syncRootId →
    toUpload s.store.roots e = true → Covers syncRootId s e
  mode : ∀ root,
    SyncRepo.findSyncRootById s.store.roots syncRootId = some root →
    root.folderId = "" → root.mode = .twoWay ∨ Started syncRootId s

theorem Started.ahead (h : Started syncRootId s) (e : Entry) :
    Ahead syncRootId s e := by
  refine ⟨h.incomplete, ?_⟩
  rw [h.cursor]
  intro c hc
  cases hc

theorem Started.covered (h : Started syncRootId s) : Covered syncRootId s :=
  ⟨fun e _ _ _ => Or.inl (h.ahead e), fun _ _ _ => Or.inr h⟩

/-- A step that leaves roots and cursor alone and takes no job back: it is
enough to look at the rows that are new to be uploaded. -/
theorem Covered.frame (h : Covered syncRootId s)
    (hroots : SyncRepo.findSyncRootById s'.store.roots syncRootId =
      SyncRepo.findSyncRootById s.store.roots syncRootId)
    (hcomplete : s'.queueComplete syncRootId = s.queueComplete syncRootId)
    (hcursor : s'.queueCursors syncRootId = s.queueCursors syncRootId)
    (hrows : ∀ e ∈ s'.store.entries.rows, e.syncRootId = syncRootId →
      toUpload s'.store.roots e = true →
        Covers syncRootId s' e ∨
        ∃ f ∈ s.store.entries.rows, f.id = e.id ∧
          f.syncRootId = e.syncRootId ∧ f.relativePath = e.relativePath ∧
          toUpload s.store.roots f = true ∧
          (Unfinished s.store.queue e.id → Unfinished s'.store.queue e.id)) :
    Covered syncRootId s' := by
  refine ⟨?_, ?_⟩
  · intro e he hroot hup
    rcases hrows e he hroot hup with hcovers | ⟨f, hf, hid, hfroot, hpath, hupf,
      hkeeps⟩
    · exact hcovers
    · rcases h.rows f hf (hfroot.trans hroot) hupf with hahead | hunfinished
      · refine Or.inl ⟨?_, ?_⟩
        · rw [hcomplete]
          exact hahead.1
        · rw [hcursor, ← hpath]
          exact hahead.2
      · rw [hid] at hunfinished
        exact Or.inr (hkeeps hunfinished)
  · intro root hroot hfolder
    rw [hroots] at hroot
    rcases h.mode root hroot hfolder with hmode | hstart
    · exact Or.inl hmode
    · exact Or.inr ⟨by rw [hcomplete]; exact hstart.incomplete,
        by rw [hcursor]; exact hstart.cursor⟩

theorem covered_scanBatch {j : String} {isDirectory : Bool}
    {listing : Option DirStream}
    (hcovers : WritesCovered syncRootId s
      (PollingDaemon.scanRoot j isDirectory listing s))
    (h : Covered syncRootId s) :
    Covered syncRootId (PollingDaemon.scanRoot j isDirectory listing s) := by
  obtain ⟨hcomplete, hcursors⟩ := scanRoot_maps j isDirectory listing s
  have hstore : (PollingDaemon.scanRoot j isDirectory listing
      s).store.roots = s.store.roots ∧
      (PollingDaemon.scanRoot j isDirectory listing s).store.queue =
        s.store.queue := by
    unfold PollingDaemon.scanRoot
    split
    · exact ⟨rfl, rfl⟩
    · exact ⟨rfl, rfl⟩
  refine h.frame (by rw [hstore.1]) (by rw [hcomplete])
    (by rw [hcursors]) ?_
  intro e he hroot hup
  by_cases hwritten : Written s.store.entries e
  · left
    rcases hcovers e he hroot hup hwritten with ⟨hopen, hbehind⟩ | hunfinished
    · refine Or.inl ⟨?_, ?_⟩
      · rw [hcomplete]
        exact hopen
      · rw [hcursors]
        exact hbehind
    · right
      rw [hstore.2]
      exact hunfinished
  · right
    obtain ⟨f, hf, hid, hfroot, hpath, hsame⟩ := exists_of_unwritten hwritten
    refine ⟨f, hf, hid, hfroot, hpath, ?_, ?_⟩
    · rw [hsame, ← hstore.1]
      exact hup
    · rw [hstore.2]
      exact fun hunfinished => hunfinished

theorem covered_runTick {env : QueueEnv}
    (hsettle : FoldersSettle syncRootId s.store)
    (h : Covered syncRootId s) :
    Covered syncRootId (PollingDaemon.runTick env s) := by
  have htick : Ticking syncRootId s.store
      (PollingDaemon.runTick env s).store := Ticking.runTick hsettle
  refine h.frame (by rw [htick.roots]) rfl rfl ?_
  intro e he hroot hup
  obtain ⟨hold, hjobs⟩ := htick.rows e he hroot hup
  rw [htick.roots] at hup
  exact Or.inr ⟨e, hold, rfl, rfl, rfl, hup, hjobs⟩

theorem covered_reconcile {env : ReconcileEnv} (root : SyncRoot)
    (hhash : env.hashFile.isSome = true) (h : Covered syncRootId s) :
    Covered syncRootId (PollingDaemon.reconcileRoot env root s).1 := by
  refine h.frame rfl rfl rfl ?_
  intro e he hroot hup
  rcases reconcileRoot_rows hhash root
    { entries := s.store.entries, disk := s.disk } e he with hold | hblocked
  · exact Or.inr ⟨e, hold, rfl, rfl, rfl, hup, fun h => h⟩
  · exact absurd hup hblocked.not_toUpload

/-- A rescan starts the production of its root anew. -/
theorem covered_fullRescan {j : String} (h : Covered syncRootId s) :
    Covered syncRootId (PollingDaemon.fullRescan j s) := by
  have hstore : (PollingDaemon.fullRescan j s).store = s.store := by
    unfold PollingDaemon.fullRescan
    cases s.scanJobs j with
    | none => rfl
    | some job => rfl
  by_cases hj : syncRootId = j
  · have hstart : Started syncRootId (PollingDaemon.fullRescan j s) := by
      subst hj
      exact ⟨PollingDaemon.assign_self _ _ _, PollingDaemon.assign_self _ _ _⟩
    exact hstart.covered
  · refine h.frame (by rw [hstore]) (PollingDaemon.assign_other _ _ hj)
      (PollingDaemon.assign_other _ _ hj) ?_
    rw [hstore]
    intro e he _ hup
    exact Or.inr ⟨e, he, rfl, rfl, rfl, hup, fun h => h⟩

end Cover

/-! ## A page -/

theorem Accepted.of_id {t : EntryTable} {root root' : SyncRoot} {e : Entry}
    (h : QueueService.Accepted t root e) (hid : root'.id = root.id) :
    QueueService.Accepted t root' e := by
  refine ⟨?_, h.folder, h.file⟩
  by_cases htop : (FsPath.parse e.relativePath).parentPath.isEmpty = true
  · exact Or.inl htop
  · right
    have hparent := h.parent.resolve_left htop
    unfold QueueService.resolveRemoteFolderId at hparent ⊢
    simp only [htop, Bool.false_eq_true, if_false] at hparent ⊢
    rw [hid]
    exact hparent

/-- The root whose page is built: bound to a folder, with the mode it has from
then on. -/
theorem ensured_root {env : QueueEnv} {id : String} {t t' : SyncStore}
    {root : SyncRoot}
    (h : FolderCreateWorker.ensureRootFolder env id t = some t')
    (hroot : SyncRepo.findSyncRootById t'.roots id = some root) :
    ∃ before, SyncRepo.findSyncRootById t.roots id = some before ∧
      root.id = before.id ∧ root.mode = pageMode before ∧
      (root.folderId = "" → root.mode = .twoWay) := by
  obtain ⟨before, hbefore, hcases⟩ :=
    QueueService.ensureRootFolder_cases h
  refine ⟨before, hbefore, ?_⟩
  rcases hcases with ⟨hfolder, rfl⟩ | ⟨hfolder, created, rfl⟩
  · rw [hbefore] at hroot
    cases hroot
    refine ⟨rfl, ?_, ?_⟩
    · unfold pageMode
      rw [if_neg hfolder]
    · exact fun hempty => absurd hempty hfolder
  · have hid := SyncRepo.id_of_find hbefore
    have hself := SyncRepo.find_upsert_self t.roots
      { before with folderId := created, mode := .twoWay }
    dsimp only at hself hroot
    rw [← hid, hself] at hroot
    cases hroot
    refine ⟨rfl, ?_, fun _ => rfl⟩
    unfold pageMode
    rw [if_pos hfolder]

theorem ensured_other {env : QueueEnv} {i j : String} {t t' : SyncStore}
    (hij : i ≠ j)
    (h : FolderCreateWorker.ensureRootFolder env j t = some t') :
    SyncRepo.findSyncRootById t'.roots i =
      SyncRepo.findSyncRootById t.roots i := by
  obtain ⟨before, hbefore, hcases⟩ :=
    QueueService.ensureRootFolder_cases h
  rcases hcases with ⟨-, rfl⟩ | ⟨-, created, rfl⟩
  · rfl
  · refine SyncRepo.find_upsert_other _ _ ?_
    rw [SyncRepo.id_of_find hbefore]
    exact hij

theorem toUpload_congr {roots roots' : List SyncRoot} {e : Entry}
    (h : SyncRepo.findSyncRootById roots' e.syncRootId =
      SyncRepo.findSyncRootById roots e.syncRootId) :
    toUpload roots' e = toUpload roots e := by
  unfold toUpload
  rw [h]

/-- A row ahead of the production is on the page, or still ahead behind it. -/
theorem ahead_of_turn {s : DaemonState} {syncRootId : String}
    {scanComplete : Bool} {complete : String → Bool}
    {cursors : String → Option String} {e : Entry}
    (hturn : PollingDaemon.PageTurn syncRootId scanComplete s complete cursors)
    (he : e ∈ s.store.entries.rows) (hroot : e.syncRootId = syncRootId)
    (hahead : Ahead syncRootId s e) :
    e ∈ PollingDaemon.pageOf s syncRootId ∨
      (complete syncRootId = false ∧
        Behind (cursors syncRootId) e.relativePath) := by
  have hlisted := (EntryRepo.mem_listEntries _ _ e).mpr ⟨he, hroot⟩
  cases hturn with
  | advanced last hlast =>
      rw [pageOf_eq_page] at hlast ⊢
      by_cases hle : e.relativePath ≤ last.relativePath
      · left
        exact mem_page_of_le_last (EntryRepo.strictlySorted_listEntries _ _)
          hlast hlisted hahead.2 hle
      · refine Or.inr ⟨hahead.1, ?_⟩
        rw [PollingDaemon.assign_self]
        intro c hc
        cases hc
        exact not_le.mp hle
  | waiting hempty => exact Or.inr hahead
  | finished _ _ hshort =>
      left
      rw [pageOf_eq_page] at hshort ⊢
      exact mem_page_of_short hshort hlisted hahead.2

section Page

open QueueRepo

variable {syncRootId : String} {s s' : DaemonState} {env : QueueEnv}

theorem unfinished_of_active {q : TransferQueue} {n : Nat}
    (h : ∃ j ∈ q.jobs, j.entryId = n ∧ j.status.active = true) :
    Unfinished q n := by
  obtain ⟨j, hj, hentry, hactive⟩ := h
  refine ⟨j, hj, hentry, ?_⟩
  intro hdone
  rw [hdone] at hactive
  cases hactive

theorem Unfinished.mono {q q' : TransferQueue} {n : Nat}
    (hjobs : ∀ j ∈ q.jobs, j ∈ q'.jobs) (h : Unfinished q n) :
    Unfinished q' n := by
  obtain ⟨j, hj, hrest⟩ := h
  exact ⟨j, hjobs j hj, hrest⟩

/-- A page of the root itself. -/
theorem covered_ownPage (haccepted : PageAccepted syncRootId s)
    (h : Covered syncRootId s)
    (hpage : PollingDaemon.produceQueuePage env syncRootId
      (s.scanJobs syncRootId).isNone s = some s')
    (hopen : s.queueComplete syncRootId = false) :
    Covered syncRootId s' := by
  obtain ⟨store, root, complete, cursors, hensure, hroot, hturn, rfl⟩ :=
    PollingDaemon.produceQueuePage_cases hpage hopen
  obtain ⟨before, hbefore, hid, hmode, hfolder⟩ := ensured_root hensure hroot
  obtain ⟨hentries, hqueue⟩ := QueueService.ensureRootFolder_frame hensure
  have hjobs : ∀ n, Unfinished s.store.queue n → Unfinished
      (QueueService.enqueuePage root (PollingDaemon.pageOf s syncRootId)
        store).queue n := by
    intro n hn
    refine Unfinished.mono ?_ hn
    intro j hj
    rw [← hqueue] at hj
    exact QueueService.mem_enqueuePage hj
  refine ⟨?_, ?_⟩
  · intro e he heroot hup
    have hmem : e ∈ s.store.entries.rows := by
      rw [← hentries]
      have hsame : (QueueService.enqueuePage root
          (PollingDaemon.pageOf s syncRootId) store).entries =
            store.entries := QueueService.entries_enqueuePage
      rw [← hsame]
      exact he
    have hdec : decideEntry root.mode e = .upload := by
      have hfound : SyncRepo.findSyncRootById
          (QueueService.enqueuePage root (PollingDaemon.pageOf s syncRootId)
            store).roots e.syncRootId = some root := by
        rw [QueueService.roots_enqueuePage, heroot]
        exact hroot
      exact (toUpload_of_find hfound).mp hup
    have hcovers : Covers syncRootId s e := by
      have hupload : root.mode = before.mode → Covers syncRootId s e := by
        intro hsame
        have hfound : SyncRepo.findSyncRootById s.store.roots e.syncRootId =
            some before := by
          rw [heroot]
          exact hbefore
        rw [hsame] at hdec
        exact h.rows e hmem heroot ((toUpload_of_find hfound).mpr hdec)
      by_cases hbound : before.folderId = ""
      · rcases h.mode before hbefore hbound with htwo | hstart
        · refine hupload ?_
          rw [hmode, htwo]
          unfold pageMode
          rw [if_pos hbound]
        · exact Or.inl (hstart.ahead e)
      · refine hupload ?_
        rw [hmode]
        unfold pageMode
        rw [if_neg hbound]
    have hpassed : e ∈ PollingDaemon.pageOf s syncRootId → Unfinished
        (QueueService.enqueuePage root (PollingDaemon.pageOf s syncRootId)
          store).queue e.id := by
      intro hin
      rcases haccepted hopen before hbefore e hin (by rw [← hmode]; exact hdec)
        with hok | hunfinished
      · refine unfinished_of_active
          (QueueService.enqueuePage_accepted hin hdec ?_)
        rw [hentries]
        exact Accepted.of_id hok hid
      · exact hjobs e.id hunfinished
    rcases hcovers with hahead | hunfinished
    · rcases ahead_of_turn hturn hmem heroot hahead with hin | hstill
      · exact Or.inr (hpassed hin)
      · exact Or.inl hstill
    · exact Or.inr (hjobs e.id hunfinished)
  · intro found hfound hempty
    left
    have hfound' : SyncRepo.findSyncRootById (QueueService.enqueuePage root
        (PollingDaemon.pageOf s syncRootId) store).roots syncRootId =
          some found := hfound
    rw [QueueService.roots_enqueuePage, hroot] at hfound'
    cases hfound'
    exact hfolder hempty

theorem covered_producePage {j : String}
    (haccepted : j = syncRootId → PageAccepted syncRootId s)
    (h : Covered syncRootId s)
    (hpage : PollingDaemon.produceQueuePage env j (s.scanJobs j).isNone s =
      some s') : Covered syncRootId s' := by
  cases hopen : s.queueComplete j with
  | true =>
      unfold PollingDaemon.produceQueuePage at hpage
      rw [if_pos hopen] at hpage
      cases hpage
      exact h
  | false =>
      by_cases hj : syncRootId = j
      · subst hj
        exact covered_ownPage (haccepted rfl) h hpage hopen
      · obtain ⟨hcomplete, hcursor⟩ :=
          PollingDaemon.produceQueuePage_other hj hpage
        have hentries := PollingDaemon.entries_produceQueuePage hpage
        obtain ⟨store, root, complete, cursors, hensure, hroot, hturn, rfl⟩ :=
          PollingDaemon.produceQueuePage_cases hpage hopen
        have hqueue := (QueueService.ensureRootFolder_frame hensure).2
        have hroots : SyncRepo.findSyncRootById (QueueService.enqueuePage root
            (PollingDaemon.pageOf s j) store).roots syncRootId =
              SyncRepo.findSyncRootById s.store.roots syncRootId := by
          rw [QueueService.roots_enqueuePage]
          exact ensured_other hj hensure
        refine h.frame hroots hcomplete hcursor ?_
        rw [hentries]
        intro e he heroot hup
        refine Or.inr ⟨e, he, rfl, rfl, rfl, ?_, ?_⟩
        · rw [← hup]
          refine (toUpload_congr ?_).symm
          rw [heroot]
          exact hroots
        · refine Unfinished.mono ?_
          intro k hk
          rw [← hqueue] at hk
          exact QueueService.mem_enqueuePage hk

end Page

/-! ## A dirty path -/

section Path

open QueueRepo

variable {syncRootId : String} {s s' : DaemonState}

theorem covered_dirtyPaths (h : Covered syncRootId s) (ps : List DirtyPath) :
    Covered syncRootId { s with dirtyPaths := ps } :=
  h.frame rfl rfl rfl
    (fun e he _ hup => Or.inr ⟨e, he, rfl, rfl, rfl, hup, fun h => h⟩)

theorem scanPath_frame {cwd : FsPath} {id rel : String} {found : PathState}
    {call : ScanCall}
    (h : PollingDaemon.scanPath cwd id rel found s = (s', call)) :
    s'.store.roots = s.store.roots ∧ s'.store.queue = s.store.queue ∧
      s'.queueComplete = s.queueComplete ∧
      s'.queueCursors = s.queueCursors := by
  unfold PollingDaemon.scanPath at h
  split at h
  · cases h
    exact ⟨rfl, rfl, rfl, rfl⟩
  · cases h
    exact ⟨rfl, rfl, rfl, rfl⟩

/-- The row at a path that is enqueued has a job, and no job goes away. -/
theorem enqueueEntryAt_spec (id rel : String) (t : SyncStore) :
    (QueueService.enqueueEntryAt id rel t).entries = t.entries ∧
    (QueueService.enqueueEntryAt id rel t).roots = t.roots ∧
    (∀ n, Unfinished t.queue n →
      Unfinished (QueueService.enqueueEntryAt id rel t).queue n) ∧
    ∀ e ∈ t.entries.rows, e.syncRootId = id → e.relativePath = rel →
      toUpload t.roots e = true →
      (∀ stored, SyncRepo.findSyncRootById t.roots id = some stored →
        QueueService.Accepted t.entries stored e) →
      Unfinished (QueueService.enqueueEntryAt id rel t).queue e.id := by
  unfold QueueService.enqueueEntryAt
  split
  next hnone =>
      refine ⟨rfl, rfl, fun _ h => h, ?_⟩
      intro e _ hid _ hup _
      obtain ⟨root, hroot, _⟩ := find_of_toUpload hup
      rw [hid, hnone] at hroot
      cases hroot
  next root hroot =>
      split
      next hnone =>
          refine ⟨rfl, rfl, fun _ h => h, ?_⟩
          intro e he hid hrel _ _
          have hfound := (EntryRepo.findEntryByPath_eq_some_iff t.entries id
            rel e).mpr ⟨he, hid, hrel⟩
          rw [hnone] at hfound
          cases hfound
      next f hf =>
          refine ⟨QueueService.entries_enqueueEntry,
            QueueService.roots_enqueueEntry, ?_, ?_⟩
          · intro n hn
            exact Unfinished.mono (fun j hj => QueueService.mem_enqueueEntry hj)
              hn
          · intro e he hid hrel hup haccepted
            have hfound := (EntryRepo.findEntryByPath_eq_some_iff t.entries id
              rel e).mpr ⟨he, hid, hrel⟩
            rw [hf] at hfound
            cases hfound
            rw [← hid] at hroot
            have hdec := (toUpload_of_find hroot).mp hup
            rw [hid] at hroot
            exact unfinished_of_active
              (QueueService.enqueueEntry_accepted hdec (haccepted root hroot))

/-- The scan of a path, and the enqueueing of its row if the scan succeeds. -/
theorem covered_scanPath {cwd : FsPath} {id rel : String} {found : PathState}
    {call : ScanCall}
    (hscan : PollingDaemon.scanPath cwd id rel found s = (s', call))
    (haccepted : ScanAccepted syncRootId s id rel s' call)
    (h : Covered syncRootId s) :
    Covered syncRootId { s' with
      store := if call = .succeeded then
          QueueService.enqueueEntryAt id rel s'.store
        else s'.store } := by
  obtain ⟨hroots, hqueue, hcomplete, hcursors⟩ := scanPath_frame hscan
  obtain ⟨hentries, henqueued, hkeeps, hown⟩ :=
    enqueueEntryAt_spec id rel s'.store
  have hstore : (if call = .succeeded then
        QueueService.enqueueEntryAt id rel s'.store else s'.store).entries =
        s'.store.entries ∧
      (if call = .succeeded then
        QueueService.enqueueEntryAt id rel s'.store else s'.store).roots =
        s.store.roots ∧
      ∀ n, Unfinished s.store.queue n → Unfinished (if call = .succeeded then
        QueueService.enqueueEntryAt id rel s'.store else s'.store).queue n := by
    rw [← hqueue, ← hroots]
    split
    · exact ⟨hentries, henqueued, hkeeps⟩
    · exact ⟨rfl, rfl, fun _ h => h⟩
  refine h.frame (by rw [hstore.2.1]) (by rw [hcomplete]) (by rw [hcursors]) ?_
  intro e he hroot hup
  have hmem : e ∈ s'.store.entries.rows := by
    rw [← hstore.1]
    exact he
  have hupScanned : toUpload s'.store.roots e = true := by
    rw [hroots, ← hstore.2.1]
    exact hup
  by_cases hwritten : Written s.store.entries e
  · left
    rcases haccepted e hmem hroot hupScanned hwritten with
      (hahead | hunfinished) | ⟨hcall, hid, hrel, hok⟩
    · refine Or.inl ⟨?_, ?_⟩
      · show s'.queueComplete syncRootId = false
        rw [hcomplete]
        exact hahead.1
      · show Behind (s'.queueCursors syncRootId) e.relativePath
        rw [hcursors]
        exact hahead.2
    · exact Or.inr (hstore.2.2 e.id hunfinished)
    · right
      show Unfinished (if call = .succeeded then
        QueueService.enqueueEntryAt id rel s'.store else s'.store).queue e.id
      rw [if_pos hcall]
      refine hown e hmem (hroot.trans hid.symm) hrel hupScanned ?_
      intro stored hstored
      rw [hroots, hid] at hstored
      exact hok stored hstored
  · right
    obtain ⟨f, hf, hid, hfroot, hpath, hsame⟩ := exists_of_unwritten hwritten
    refine ⟨f, hf, hid, hfroot, hpath, ?_, hstore.2.2 e.id⟩
    rw [hsame, ← hroots]
    exact hupScanned

theorem covered_processPath {cwd : FsPath} {env : ReconcileEnv}
    {root : SyncRoot} {found : PathState} {d : DirtyPath}
    (hhash : env.hashFile.isSome = true)
    (haccepted : ∀ rel, d.relativePath = some rel → ∀ s' call,
      PollingDaemon.scanPath cwd root.id rel found s = (s', call) →
        ScanAccepted syncRootId s root.id rel s' call)
    (h : Covered syncRootId s) :
    Covered syncRootId (PollingDaemon.processPath cwd env root found d s) := by
  unfold PollingDaemon.processPath
  split
  next => exact covered_dirtyPaths h _
  next rel hrel =>
      split
      next scanned hscan =>
          have henqueued := covered_scanPath hscan
            (haccepted rel hrel _ _ hscan) h
          rw [if_pos rfl] at henqueued
          have hdone := covered_reconcile root hhash henqueued
          dsimp only
          split
          · exact covered_dirtyPaths hdone _
          · exact covered_dirtyPaths hdone _
      next scanned call hfailed hscan =>
          have hcovered := covered_scanPath hscan
            (haccepted rel hrel _ _ hscan) h
          rw [if_neg hfailed] at hcovered
          exact covered_dirtyPaths hcovered _

theorem covered_dirtyPath {cwd : FsPath} {env : ReconcileEnv}
    {root : SyncRoot} {found : PathState}
    (hhash : env.hashFile.isSome = true)
    (haccepted : PathAccepted syncRootId cwd root found s)
    (h : Covered syncRootId s)
    (hstep : PollingDaemon.processDirtyPath cwd env root found s = some s') :
    Covered syncRootId s' := by
  unfold PollingDaemon.processDirtyPath at hstep
  split at hstep
  next => cases hstep
  next d ps hclaim =>
      have hclaimed := covered_dirtyPaths h ps
      dsimp only at hstep
      split at hstep
      next =>
          cases hstep
          exact covered_dirtyPaths (covered_fullRescan hclaimed) _
      next hscan =>
          cases hstep
          refine covered_processPath hhash ?_ hclaimed
          intro rel hrel s' call hcall
          exact haccepted d ps rel hclaim hscan hrel s' call hcall

end Path

/-! ## One step -/

section Step

variable {syncRootId : String} {s s' : DaemonState} {event : Event}

/-- Every step that passes over no row to be uploaded keeps the rows
covered. -/
theorem Covered.step (hstep : Step s event s')
    (hmeets : PassesOverNone syncRootId s event)
    (h : Covered syncRootId s) : Covered syncRootId s' := by
  cases hstep with
  | scanBatch j isDirectory listing => exact covered_scanBatch hmeets h
  | producePage _ j env hpage => exact covered_producePage hmeets h hpage
  | reconcile env root hhash => exact covered_reconcile root hhash h
  | record j rel action => exact covered_dirtyPaths h _
  | dirtyPath _ cwd env root found hhash hpath =>
      exact covered_dirtyPath hhash hmeets h hpath
  | runTick env => exact covered_runTick hmeets h
  | diskChange disk =>
      exact h.frame rfl rfl rfl
        (fun e he _ hup => Or.inr ⟨e, he, rfl, rfl, rfl, hup, fun h => h⟩)

end Step

end ArkiveSync.UploadCoverage
