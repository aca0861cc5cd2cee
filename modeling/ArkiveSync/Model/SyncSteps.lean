import ArkiveSync.Model.SyncStatements

/-!
# The jobs, activities and roots of a step

## Main results

* `job_perform`: a job was there before, or is of a row that is to be uploaded,
  for the parent folder the row has then.
* `activityOf`: where the activities of an operation come from.
* `find_perform`: what an operation can make of a root in the database.
-/

namespace ArkiveSync

open Library

namespace SyncSystem

/-! ## The jobs after an operation -/

/-- The operation passes rows of the root to the queue. -/
def Produces (syncRootId : String) : Operation → Prop
  | .enqueueEntry id _ => id = syncRootId
  | .buildPage _ id _ _ => id = syncRootId
  | _ => False

theorem Produces.worksOn {syncRootId : String} {op : Operation}
    (h : Produces syncRootId op) : WorksOn syncRootId op := by
  cases op with
  | enqueueEntry id rel => exact h
  | buildPage env id after complete => exact h
  | _ => exact absurd h (fun h => h)

/-- A job after an operation is one from before, or the operation passed its row
to the queue, under the root as it is afterwards. -/
theorem job_perform {s : SyncSystem} {op : Operation} {j : TransferJob}
    (hj : j ∈ (s.perform op).queue.jobs) :
    (∃ k ∈ s.queue.jobs, QueueRepo.Succeeds k j) ∨
      ∃ e ∈ s.entries.rows, Produces e.syncRootId op ∧
        (s.perform op).entries = s.entries ∧
        ∃ root, SyncRepo.findSyncRootById (s.perform op).roots e.syncRootId =
            some root ∧
          QueueService.Queued s.entries root e j := by
  cases op with
  | readRoots => exact Or.inl ⟨j, hj, .refl j⟩
  | restart => exact Or.inl (QueueRepo.jobsFrom_retryRunning j hj)
  | editDisk disk => exact Or.inl ⟨j, hj, .refl j⟩
  | scanRoot id isDirectory listing =>
      left
      unfold perform PollingDaemon.scanRoot at hj
      dsimp only at hj
      split at hj <;> exact ⟨j, hj, .refl j⟩
  | scanPath cwd id rel found =>
      left
      unfold perform PollingDaemon.scanPath at hj
      dsimp only at hj
      split at hj <;> exact ⟨j, hj, .refl j⟩
  | enqueueEntry id rel =>
      unfold perform withStore QueueService.enqueueEntryAt at hj ⊢
      dsimp only at hj ⊢
      split at hj
      next => exact Or.inl ⟨j, hj, .refl j⟩
      next root hroot =>
          split at hj
          next => exact Or.inl ⟨j, hj, .refl j⟩
          next e he =>
              obtain ⟨hmem, hid, _⟩ :=
                (EntryRepo.findEntryByPath_eq_some_iff _ _ _ _).mp he
              rcases QueueService.job_of_enqueueEntry hj with hold | hnew
              · exact Or.inl ⟨j, hold, .refl j⟩
              · refine Or.inr ⟨e, hmem, hid.symm, ?_, root, ?_, hnew⟩
                · simp [entries]
                · simp [roots, hroot, hid]
  | buildPage env id after complete =>
      unfold perform at hj ⊢
      dsimp only at hj ⊢
      split at hj
      next => exact Or.inl ⟨j, hj, .refl j⟩
      next store page hbuild =>
          obtain ⟨s₁, root, hensure, hroot, rfl, _⟩ :=
            QueueService.buildPage_cases hbuild
          obtain ⟨hentries, hqueue⟩ := QueueService.ensureRootFolder_frame hensure
          rcases QueueService.job_of_enqueuePage hj with hold | hnew
          · rw [hqueue] at hold
            exact Or.inl ⟨j, hold, .refl j⟩
          · obtain ⟨e, he, hqueued⟩ := hnew
            obtain ⟨hmem, hid⟩ := EntryRepo.mem_listAfterPath he
            rw [hentries] at hqueued
            refine Or.inr ⟨e, hmem, hid.symm, ?_, root, ?_, hqueued⟩
            · exact QueueService.entries_enqueuePage.trans hentries
            · show SyncRepo.findSyncRootById
                (QueueService.enqueuePage root _ s₁).roots _ = _
              rw [QueueService.roots_enqueuePage, hid]
              exact hroot
  | folderJob env =>
      left
      unfold perform at hj
      dsimp only at hj
      split at hj
      next => exact ⟨j, hj, .refl j⟩
      next job queue hclaim =>
          have hfrom := (QueueRepo.jobsFrom_claim hclaim).2
          rcases QueueService.runFolderJob_cases env job
              { s.store with queue := queue } with
              hrun | ⟨_, _, _, _, _, _, hrun⟩
          · rw [hrun] at hj
            exact hfrom.trans (QueueRepo.jobsFrom_markFailed job.id) j hj
          · rw [hrun] at hj
            exact hfrom.trans (QueueRepo.jobsFrom_markDone job.id) j hj
  | uploadBatch env =>
      left
      have hfrom :=
        (QueueService.jobsFrom_claimUploads kUploadBatchSize s.queue).2
      exact hfrom.trans (QueueService.jobsFrom_runUploadBatch env s.disk _ _)
        j hj
  | remoteTurn env root => exact Or.inl ⟨j, hj, .refl j⟩
  | reconcileRoot env root => exact Or.inl ⟨j, hj, .refl j⟩
  | addSyncRoot env localPath folderId enabled mode =>
      left
      unfold perform at hj
      dsimp only at hj
      split at hj <;> exact ⟨j, hj, .refl j⟩
  | removeSyncRoot id =>
      left
      unfold perform at hj
      dsimp only at hj
      split at hj <;> exact ⟨j, hj, .refl j⟩

/-- A job that is pending after an operation was so before, or is of a row
that the operation passed to the queue and that is to be uploaded, under the
root as it is afterwards. -/
theorem pending_perform {s : SyncSystem} {op : Operation} {ty : JobType}
    {n : Nat} (h : QueueRepo.Pending (s.perform op).queue ty n) :
    QueueRepo.Pending s.queue ty n ∨
      ∃ e ∈ s.entries.rows, e.id = n ∧ Produces e.syncRootId op ∧
        ∃ root, SyncRepo.findSyncRootById (s.perform op).roots e.syncRootId =
          some root ∧ decideEntry root.mode e = .upload := by
  obtain ⟨j, hj, hfor⟩ := h
  rcases job_perform hj with hold | hnew
  · left
    obtain ⟨k, hk, hkj⟩ := hold
    refine ⟨k, hk, ?_⟩
    rw [hkj.same] at hfor
    simp only [TransferJob.isActiveFor, Bool.and_eq_true, beq_iff_eq]
      at hfor ⊢
    exact ⟨hfor.1, hkj.active hfor.2⟩
  · obtain ⟨e, he, hproduces, _, root, hroot, hqueued⟩ := hnew
    simp only [TransferJob.isActiveFor, Bool.and_eq_true, beq_iff_eq] at hfor
    exact Or.inr ⟨e, he, hqueued.entry.symm.trans hfor.1.1, hproduces, root,
      hroot, hqueued.upload⟩

/-! ## Where activities come from -/

/-- An activity is for the root its operation works on, or for the row of a
pending job. -/
inductive ActivityOf (s : SyncSystem) (op : Operation) : Activity → Prop where
  | scanned (id : String) (hworks : WorksOn id op) :
      ActivityOf s op (.scanned id)
  | touched (id : String) (hworks : WorksOn id op) (effect : FsEffect) :
      ActivityOf s op (.touched id effect)
  | createRootFolder (env : QueueEnv) (id : String) (after : Option String)
      (complete : Bool) (hop : op = .buildPage env id after complete)
      (hunbound : ∀ root, SyncRepo.findSyncRootById s.roots id = some root →
        root.folderId = "") :
      ActivityOf s op (.createRootFolder id)
  | createFolder (e : Entry) (hmem : e ∈ s.entries.rows)
      (hpending : QueueRepo.Pending s.queue .createFolder e.id)
      (hdir : e.isDirectory = true) : ActivityOf s op (.createFolder e.id)
  | startUpload (e : Entry) (hmem : e ∈ s.entries.rows)
      (hpending : QueueRepo.Pending s.queue .uploadFile e.id)
      (root : SyncRoot)
      (hroot : SyncRepo.findSyncRootById s.roots e.syncRootId = some root)
      (hdec : decideEntry root.mode e = .upload) :
      ActivityOf s op (.startUpload e.id)

theorem folderJob_activity {s : SyncSystem} {env : QueueEnv} {a : Activity}
    (ha : a ∈ s.activities (.folderJob env)) :
    ActivityOf s (.folderJob env) a := by
  unfold activities at ha
  dsimp only at ha
  split at ha
  next => cases ha
  next job queue hclaim =>
      split at ha
      next hrequests =>
          unfold requestsFolder at hrequests
          split at hrequests
          next => cases hrequests
          next e he =>
              simp only [Bool.and_eq_true] at hrequests
              obtain ⟨hmem, hid⟩ := (KeyedTable.lookupPk_eq_some_iff _ _ _).mp he
              rw [List.mem_singleton.mp ha, ← hid]
              refine .createFolder e hmem ?_ hrequests.1.1
              rw [hid]
              exact (QueueRepo.pending_of_claim hclaim).1
      next => cases ha

theorem uploadBatch_activity {s : SyncSystem} {env : QueueEnv} {a : Activity}
    (ha : a ∈ s.activities (.uploadBatch env)) :
    ActivityOf s (.uploadBatch env) a := by
  obtain ⟨item, hitem, rfl⟩ := List.mem_map.mp ha
  have hmem := QueueService.mem_itemsOf.mp hitem
  obtain ⟨job, hjob, hprepared⟩ := List.mem_map.mp hmem
  obtain ⟨row, root, _, _, hrow, hroot, hdec, _, _, heq⟩ :=
    QueueService.prepareUploadItem_item (congrArg Prod.snd hprepared)
  obtain ⟨hrowMem, hrowId⟩ := (KeyedTable.lookupPk_eq_some_iff _ _ _).mp hrow
  have hid : item.2.id = row.id := by rw [heq]
  rw [hid]
  refine .startUpload row hrowMem ?_ root hroot hdec
  rw [hrowId]
  exact (QueueService.claimUploads_pending kUploadBatchSize s.queue).1 job hjob

/-- Every activity comes about in one of these ways. -/
theorem activityOf {s : SyncSystem} {op : Operation} {a : Activity}
    (ha : a ∈ s.activities op) : ActivityOf s op a := by
  cases op with
  | readRoots => cases ha
  | restart => cases ha
  | editDisk disk => cases ha
  | scanRoot id isDirectory listing =>
      unfold activities at ha
      dsimp only at ha
      split at ha
      · cases ha
      · split at ha
        · rw [List.mem_singleton.mp ha]
          exact .scanned _ rfl
        · cases ha
  | scanPath cwd id rel found =>
      unfold activities at ha
      dsimp only at ha
      split at ha
      · cases ha
      · split at ha
        · cases ha
        · rw [List.mem_singleton.mp ha]
          exact .scanned _ rfl
  | enqueueEntry id rel => cases ha
  | buildPage env id after complete =>
      unfold activities at ha
      dsimp only at ha
      split at ha
      next hstart =>
          rw [List.mem_singleton.mp ha]
          refine .createRootFolder env id after complete rfl ?_
          intro root hroot
          unfold FolderCreateWorker.startRootFolder at hstart
          rw [hroot] at hstart
          by_contra hbound
          simp [hbound] at hstart
      next => cases ha
  | folderJob env => exact folderJob_activity ha
  | uploadBatch env => exact uploadBatch_activity ha
  | remoteTurn env root =>
      rcases List.mem_cons.mp ha with rfl | ha
      · exact .scanned _ rfl
      · obtain ⟨effect, _, rfl⟩ := List.mem_map.mp ha
        have hworks : WorksOn root.id (.remoteTurn env root) := rfl
        exact .touched root.id hworks effect
  | reconcileRoot env root =>
      obtain ⟨effect, _, rfl⟩ := List.mem_map.mp ha
      have hworks : WorksOn root.id (.reconcileRoot env root) := rfl
      exact .touched root.id hworks effect
  | addSyncRoot env localPath folderId enabled mode => cases ha
  | removeSyncRoot id => cases ha

/-! ## The roots after an operation -/

/-- What an operation can make of the roots in the database. -/
inductive RootsAfter (s : SyncSystem) (op : Operation) :
    List SyncRoot → Prop where
  | same : RootsAfter s op s.roots
  | disabled (syncRootId : String) :
      RootsAfter s op (SyncRepo.disableSyncRoot s.roots syncRootId)
  | bound (env : QueueEnv) (after : Option String) (complete : Bool)
      (read : SyncRoot) (hop : op = .buildPage env read.id after complete)
      (hread : SyncRepo.findSyncRootById s.roots read.id = some read)
      (hunbound : read.folderId = "") (created : String) :
      RootsAfter s op (SyncRepo.upsertSyncRoot s.roots
        { read with folderId := created, mode := .twoWay })
  | added (env : SyncServiceEnv) (localPath : String)
      (folderId : Option String) (enabled : Option Bool)
      (mode : Option SyncMode)
      (hop : op = .addSyncRoot env localPath folderId enabled mode)
      (input : SyncRoot)
      (hid : SyncService.rootIdOf env localPath = some input.id)
      (hfolder : input.folderId = folderId.getD "") :
      RootsAfter s op (SyncRepo.upsertSyncRoot s.roots input)

theorem roots_perform (s : SyncSystem) (op : Operation) :
    RootsAfter s op (s.perform op).roots := by
  cases op with
  | readRoots => exact .same
  | restart => exact .same
  | editDisk disk => exact .same
  | scanRoot id isDirectory listing =>
      unfold perform PollingDaemon.scanRoot
      dsimp only
      split <;> exact .same
  | scanPath cwd id rel found =>
      unfold perform PollingDaemon.scanPath
      dsimp only
      split <;> exact .same
  | enqueueEntry id rel =>
      have hsame : (s.perform (.enqueueEntry id rel)).roots = s.roots := by
        show (QueueService.enqueueEntryAt id rel s.store).roots = _
        unfold QueueService.enqueueEntryAt
        split
        next => rfl
        next =>
            split
            next => rfl
            next => exact QueueService.roots_enqueueEntry
      rw [hsame]
      exact .same
  | buildPage env syncRootId after complete =>
      unfold perform
      dsimp only
      split
      next => exact .same
      next store page hbuild =>
          obtain ⟨s₁, root, hensure, _, rfl, _⟩ :=
            QueueService.buildPage_cases hbuild
          show RootsAfter s _ (QueueService.enqueuePage root _ s₁).roots
          rw [QueueService.roots_enqueuePage]
          obtain ⟨read, hread, hcases⟩ :=
            QueueService.ensureRootFolder_cases hensure
          have hid : read.id = syncRootId := SyncRepo.id_of_find hread
          subst hid
          rcases hcases with ⟨_, rfl⟩ | ⟨hunbound, created, rfl⟩
          · exact .same
          · exact .bound env after complete read rfl hread hunbound created
  | folderJob env =>
      unfold perform
      dsimp only
      split
      next => exact .same
      next job queue _ =>
          rcases QueueService.runFolderJob_cases env job
              { s.store with queue := queue } with
              hrun | ⟨_, _, _, _, _, _, hrun⟩
          · rw [hrun]
            exact .same
          · rw [hrun]
            exact .same
  | uploadBatch env =>
      show RootsAfter s _ (UploadJobRunner.runBatch env s.disk _ _).1.roots
      rw [(QueueService.runBatch_frame env s.disk _ _).1]
      exact .same
  | remoteTurn env root =>
      obtain ⟨_, _, _, _, _, hturn⟩ :=
        RemoteSyncService.scanned_upserts env root s.remoteState
      show RootsAfter s _
        (RemoteSyncService.scanTurn env root s.remoteState).state.roots
      generalize RemoteSyncService.scanTurn env root s.remoteState = turn
        at hturn ⊢
      cases hturn with
      | scanned returned => exact .same
      | deleted hfound =>
          unfold RemoteSyncService.deleteRoot
          dsimp only
          split
          · exact .disabled root.id
          · exact .disabled root.id
  | reconcileRoot env root => exact .same
  | addSyncRoot env localPath folderId enabled mode =>
      unfold perform
      dsimp only
      split
      next => exact .same
      next roots input hadd =>
          obtain ⟨_, _, hid, hfolder, _, hroots⟩ :=
            SyncService.addSyncRoot_some hadd
          subst hroots
          exact .added env localPath folderId enabled mode rfl input hid hfolder
  | removeSyncRoot syncRootId =>
      unfold perform
      dsimp only
      split
      next => exact .same
      next roots hremove =>
          unfold SyncService.removeSyncRoot at hremove
          split at hremove
          · cases hremove
          · cases hremove
            exact .disabled syncRootId

/-- The operation binds the root to a new folder. -/
def Binds (syncRootId : String) (op : Operation) : Prop :=
  ∃ env after complete, op = .buildPage env syncRootId after complete

/-- The operation adds the root, bound to the given folder. -/
def Adds (syncRootId : String) (folderId : Option String) (op : Operation) :
    Prop :=
  ∃ env localPath enabled mode,
    op = .addSyncRoot env localPath folderId enabled mode ∧
      SyncService.rootIdOf env localPath = some syncRootId

/-- What an operation can make of one root. -/
inductive RootAfter (op : Operation) (root : SyncRoot) : SyncRoot → Prop where
  | same : RootAfter op root root
  | disabled : RootAfter op root { root with enabled := false }
  | bound (hbinds : Binds root.id op) (hunbound : root.folderId = "")
      (created : String) :
      RootAfter op root { root with folderId := created, mode := .twoWay }
  | added (folderId : Option String) (hadds : Adds root.id folderId op)
      (input : SyncRoot) (hfolder : input.folderId = folderId.getD "") :
      RootAfter op root input

/-- A root stays in the database, changed in one of these ways at most. -/
theorem find_perform {s : SyncSystem} (op : Operation) {id : String}
    {root : SyncRoot} (h : SyncRepo.findSyncRootById s.roots id = some root) :
    ∃ root', SyncRepo.findSyncRootById (s.perform op).roots id = some root' ∧
      RootAfter op root root' := by
  have hid : root.id = id := SyncRepo.id_of_find h
  have hroots := roots_perform s op
  generalize (s.perform op).roots = roots at hroots ⊢
  cases hroots with
  | same => exact ⟨root, h, .same⟩
  | disabled syncRootId =>
      rw [SyncRepo.find_disable, h]
      refine ⟨_, rfl, ?_⟩
      dsimp only
      split
      · exact .disabled
      · exact .same
  | bound env after complete read hop hread hunbound created =>
      by_cases hsame : id = read.id
      · subst hsame
        have heq : read = root := Option.some.inj (hread.symm.trans h)
        subst heq
        exact ⟨_, SyncRepo.find_upsert_self _
          { read with folderId := created, mode := .twoWay },
          .bound ⟨env, after, complete, hop⟩ hunbound created⟩
      · refine ⟨root, ?_, .same⟩
        rw [SyncRepo.find_upsert_other]
        · exact h
        · exact hsame
  | added env localPath folderId enabled mode hop input hroot hfolder =>
      by_cases hsame : id = input.id
      · subst hsame
        refine ⟨input, SyncRepo.find_upsert_self _ input, ?_⟩
        refine .added folderId ⟨env, localPath, enabled, mode, hop, ?_⟩ input
          hfolder
        rw [hid]
        exact hroot
      · refine ⟨root, ?_, .same⟩
        rw [SyncRepo.find_upsert_other _ _ hsame]
        exact h

/-- Copies are read from the database. -/
theorem mem_copies_perform {s : SyncSystem} {op : Operation} {c : SyncRoot}
    (h : c ∈ (s.perform op).copies) : c ∈ s.copies ∨ c ∈ s.roots := by
  cases op with
  | readRoots => exact List.mem_append.mp h
  | restart => exact Or.inr h
  | buildPage env id after complete =>
      unfold perform at h
      dsimp only at h
      split at h <;> exact Or.inl h
  | folderJob env =>
      unfold perform at h
      dsimp only at h
      split at h <;> exact Or.inl h
  | addSyncRoot env localPath folderId enabled mode =>
      unfold perform at h
      dsimp only at h
      split at h <;> exact Or.inl h
  | removeSyncRoot id =>
      unfold perform at h
      dsimp only at h
      split at h <;> exact Or.inl h
  | _ => exact Or.inl h

/-- Where a root in the database comes from. -/
theorem mem_roots_perform {s : SyncSystem} {op : Operation} {c : SyncRoot}
    (h : c ∈ (s.perform op).roots) :
    c ∈ s.roots ∨ (∃ r ∈ s.roots, c = { r with enabled := false }) ∨
      Binds c.id op ∨ ∃ folderId, Adds c.id folderId op := by
  have hroots := roots_perform s op
  generalize (s.perform op).roots = roots at hroots h
  cases hroots with
  | same => exact Or.inl h
  | disabled syncRootId =>
      obtain ⟨r, hr, rfl⟩ := List.mem_map.mp h
      split
      · exact Or.inr (Or.inl ⟨r, hr, rfl⟩)
      · exact Or.inl hr
  | bound env after complete read hop hread hunbound created =>
      rcases SyncRepo.mem_upsertSyncRoot h with hold | hnew
      · exact Or.inl hold
      · rw [hnew]
        exact Or.inr (Or.inr (Or.inl ⟨env, after, complete, hop⟩))
  | added env localPath folderId enabled mode hop input hroot hfolder =>
      rcases SyncRepo.mem_upsertSyncRoot h with hold | hnew
      · exact Or.inl hold
      · rw [hnew]
        exact Or.inr (Or.inr (Or.inr
          ⟨folderId, env, localPath, enabled, mode, hop, hroot⟩))

end SyncSystem

end ArkiveSync
