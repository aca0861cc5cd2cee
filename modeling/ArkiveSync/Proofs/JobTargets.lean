import ArkiveSync.Model.SyncSteps

/-!
# The parent folder of a transfer

A folder job sends the parent folder id that was captured when it was queued,
an upload the one its row has when the job runs.  Neither looks whether the
folder is known to be deleted, nor whether the row at the parent path is a
folder at all.

## Main results

* `TargetsKept.step`: a pending folder job holds the current parent folder id of
  its row, as long as no step changes that id.
* `jobs_on_target`: then every parent folder id that is sent is the current one,
  and the folder is live.
-/

namespace ArkiveSync.JobTargets

open Library

/-- The folder a row's object belongs in: the root's for a row of the top
level, which is none while the root is unbound, and otherwise the one with the
remote id of the row at the parent path. -/
def parentFolderId (s : SyncSystem) (e : Entry) : Option (Option String) :=
  let parentPath := (FsPath.parse e.relativePath).parentPath
  if parentPath.isEmpty then
    (SyncRepo.findSyncRootById s.roots e.syncRootId).map (fun root =>
      if root.folderId ≠ "" then some root.folderId else none)
  else
    ((EntryRepo.findEntryByPath s.entries e.syncRootId
      parentPath.genericString).bind Entry.remoteId).map some

/-- The same for the row of a job. -/
def jobParentFolderId (s : SyncSystem) (entryId : Nat) :
    Option (Option String) :=
  (EntryRepo.getEntryById s.entries entryId).bind (parentFolderId s)

/-- The rows for which an operation asks the remote to create an object, with
the parent folder ids that are sent. -/
def sentParents (s : SyncSystem) : Operation → List (Entry × Option String)
  | .folderJob _ =>
      match QueueRepo.claimNextQueuedByType s.queue .createFolder with
      | none => []
      | some (job, _) =>
          if SyncSystem.requestsFolder s.store job then
            (EntryRepo.getEntryById s.entries job.entryId).toList.map
              (fun e => (e, job.remoteFolderId))
          else []
  | .uploadBatch env =>
      (SyncSystem.startedUploads env s.disk s.store).map (fun item =>
        (item.2, item.2.parentFolderId))
  | _ => []

/-- The parent folder id is that of the folder at the parent path, which is not
known to be deleted, or of the root's own folder. -/
def OnTarget (s : SyncSystem) (e : Entry) (parent : Option String) : Prop :=
  let parentPath := (FsPath.parse e.relativePath).parentPath
  if parentPath.isEmpty = true then
    ∃ root, SyncRepo.findSyncRootById s.roots e.syncRootId = some root ∧
      parent = if root.folderId ≠ "" then some root.folderId else none
  else
    ∃ f, EntryRepo.findEntryByPath s.entries e.syncRootId
        parentPath.genericString = some f ∧
      f.isDirectory = true ∧ f.remoteDeletedAt = none ∧
      parent.isSome = true ∧ f.remoteId = parent

/-- The row at the parent path, if there has to be one, is that of a folder that
is not known to be deleted. -/
def LiveParent (s : SyncSystem) (e : Entry) : Prop :=
  let parentPath := (FsPath.parse e.relativePath).parentPath
  parentPath.isEmpty = true ∨
    (EntryRepo.findEntryByPath s.entries e.syncRootId
      parentPath.genericString).any (fun f =>
        f.isDirectory && f.remoteDeletedAt.isNone) = true

instance (s : SyncSystem) (e : Entry) : Decidable (LiveParent s e) :=
  inferInstanceAs (Decidable (_ ∨ _))

/-- The operation runs no job whose row has no live parent, and it leaves the
row of every pending folder job in the same parent folder. -/
structure Meets (s : SyncSystem) (op : Operation) : Prop where
  live : ∀ x ∈ sentParents s op, LiveParent s x.1
  kept : ∀ j ∈ s.queue.jobs, j.jobType = .createFolder →
    j.status.active = true →
      jobParentFolderId (s.perform op) j.entryId =
        jobParentFolderId s j.entryId

/-- Every pending folder job holds the current parent folder id of its row. -/
def TargetsKept (s : SyncSystem) : Prop :=
  ∀ j ∈ s.queue.jobs, j.jobType = .createFolder → j.status.active = true →
    jobParentFolderId s j.entryId = some j.remoteFolderId

section Step

variable {s s' : SyncSystem} {op : Operation}

/-- What is resolved when a job is queued is the parent folder id of its
row. -/
theorem parentFolderId_of_queued {root : SyncRoot} {e : Entry}
    {j : TransferJob}
    (hroot : SyncRepo.findSyncRootById s.roots e.syncRootId = some root)
    (h : QueueService.Queued s.entries root e j) :
    parentFolderId s e = some j.remoteFolderId := by
  have hid : root.id = e.syncRootId := SyncRepo.id_of_find hroot
  have hresolved := h.resolved
  have hplaced := h.placed
  unfold QueueService.resolveRemoteFolderId at hresolved hplaced
  unfold parentFolderId
  by_cases htop : (FsPath.parse e.relativePath).parentPath.isEmpty = true
  · simp only [htop, if_true] at hresolved ⊢
    rw [hroot, hresolved]
    rfl
  · simp only [htop, Bool.false_eq_true, if_false, false_or, hid]
      at hresolved hplaced ⊢
    rw [hresolved]
    obtain ⟨id, hparent⟩ := Option.isSome_iff_exists.mp hplaced
    rw [hparent]
    rfl

/-- A step that changes no parent folder id of a pending job keeps all of them
current, those of new jobs included. -/
theorem TargetsKept.step (hstep : SyncSystem.Step s op s') (hmeets : Meets s op)
    (h : TargetsKept s) : TargetsKept s' := by
  obtain ⟨_, rfl⟩ := hstep
  intro j hj htype hactive
  rcases SyncSystem.job_perform hj with hold | hnew
  · obtain ⟨k, hk, hkj⟩ := hold
    rw [hkj.same] at htype ⊢
    have hactive := hkj.active hactive
    show jobParentFolderId (s.perform op) k.entryId = some k.remoteFolderId
    rw [hmeets.kept k hk htype hactive]
    exact h k hk htype hactive
  · obtain ⟨e, he, _, hentries, root, hroot, hqueued⟩ := hnew
    have hfound : EntryRepo.getEntryById (s.perform op).entries j.entryId =
        some e := by
      rw [hentries]
      exact (KeyedTable.lookupPk_eq_some_iff _ _ _).mpr ⟨he, hqueued.entry.symm⟩
    rw [← hentries] at hqueued
    unfold jobParentFolderId
    rw [hfound]
    exact parentFolderId_of_queued hroot hqueued

/-- A current parent folder id is on target if the parent is live. -/
theorem onTarget_of_current {e : Entry} {parent : Option String}
    (hcurrent : parentFolderId s e = some parent) (hlive : LiveParent s e) :
    OnTarget s e parent := by
  unfold parentFolderId at hcurrent
  unfold LiveParent at hlive
  unfold OnTarget
  by_cases htop : (FsPath.parse e.relativePath).parentPath.isEmpty = true
  · simp only [htop, if_true] at hcurrent ⊢
    obtain ⟨root, hroot, hparent⟩ := Option.map_eq_some_iff.mp hcurrent
    exact ⟨root, hroot, hparent.symm⟩
  · simp only [htop, Bool.false_eq_true, if_false, false_or]
      at hcurrent hlive ⊢
    cases hfound : EntryRepo.findEntryByPath s.entries e.syncRootId
        (FsPath.parse e.relativePath).parentPath.genericString with
    | none => simp [hfound] at hlive
    | some f =>
        simp only [hfound, Option.any_some, Bool.and_eq_true,
          Option.isNone_iff_eq_none, Option.bind_some] at hlive hcurrent
        cases hremote : f.remoteId with
        | none => simp [hremote] at hcurrent
        | some id =>
            have hparent : some id = parent := by
              simpa [hremote] using hcurrent
            subst hparent
            exact ⟨f, rfl, hlive.1, hlive.2, rfl, hremote⟩

/-- A prepared upload carries the parent folder id of its row. -/
theorem parentFolderId_of_item {cwd : FsPath} {disk : Disk} {job : TransferJob}
    {queue : TransferQueue} {e : Entry}
    (h : UploadJobRunner.prepareUploadItem cwd disk
      { s.store with queue := queue } job = .item e) :
    parentFolderId s e = some e.parentFolderId := by
  unfold UploadJobRunner.prepareUploadItem at h
  unfold parentFolderId
  split at h
  next => cases h
  next row hrow =>
      split at h
      next => cases h
      next root hroot =>
          split at h
          next => cases h
          next =>
              dsimp only at h
              split at h
              next => cases h
              next =>
                  split at h
                  next => cases h
                  next =>
                      split at h
                      next htop =>
                          cases h
                          simp only [htop, if_true]
                          rw [hroot]
                          rfl
                      next htop =>
                          split at h
                          next => cases h
                          next parent hparent =>
                              cases h
                              simp only [htop, Bool.false_eq_true, if_false]
                              rw [hparent]
                              rfl

/-- Every parent folder id that is sent is the current one. -/
theorem current_of_sent (h : TargetsKept s) :
    ∀ x ∈ sentParents s op, parentFolderId s x.1 = some x.2 := by
  intro x hx
  cases op with
  | folderJob env =>
      unfold sentParents at hx
      dsimp only at hx
      split at hx
      next => cases hx
      next job queue hclaim =>
          split at hx
          next =>
              obtain ⟨e, he, rfl⟩ := List.mem_map.mp hx
              have hfound : EntryRepo.getEntryById s.entries job.entryId =
                  some e := Option.mem_toList.mp he
              obtain ⟨⟨k, hk, hkjob, hactive, htype⟩, _⟩ :=
                QueueRepo.jobsFrom_claim hclaim
              have hcurrent := h k hk htype hactive
              rw [hkjob.same] at hfound ⊢
              unfold jobParentFolderId at hcurrent
              rw [hfound] at hcurrent
              exact hcurrent
          next => cases hx
  | uploadBatch env =>
      obtain ⟨item, hitem, rfl⟩ := List.mem_map.mp hx
      have hmem := QueueService.mem_itemsOf.mp hitem
      obtain ⟨job, _, hprepared⟩ := List.mem_map.mp hmem
      exact parentFolderId_of_item (congrArg Prod.snd hprepared)
  | _ => cases hx

end Step

/-- In a run whose steps meet the condition, from a state whose pending folder
jobs hold current parents, every parent folder id that is sent is that of the
live folder at the parent path, or of the root's folder. -/
theorem jobs_on_target {s₀ s s' : SyncSystem} {op : Operation}
    (hstart : TargetsKept s₀)
    (hrun : Run (Guarded SyncSystem.Step Meets) s₀ s)
    (hstep : SyncSystem.Step s op s') (hmeets : Meets s op) :
    ∀ x ∈ sentParents s op, OnTarget s x.1 x.2 := by
  have hkeep : ∀ a op b, SyncSystem.Step a op b → Meets a op →
      TargetsKept a → TargetsKept b :=
    fun _ _ _ hstep hmeets h => h.step hstep hmeets
  have hsafe : ∀ a op b, SyncSystem.Step a op b → Meets a op →
      TargetsKept a → ∀ x ∈ sentParents a op, OnTarget a x.1 x.2 := by
    intro a op b _ hmeets h x hx
    exact onTarget_of_current (current_of_sent h x hx) (hmeets.live x hx)
  exact safe_of_guarded hkeep hsafe hstart hrun hstep hmeets

/-! ## A folder that is deleted while it is filled -/

namespace Refilled

def root : SyncRoot :=
  { id := "root", localPath := "/r", folderId := "R", mode := .twoWay }

/-- A new daemon that knows one bound root. -/
def start : SyncSystem :=
  { daemon :=
      { store :=
          { roots := [root], entries := KeyedTable.empty
            queue := QueueRepo.empty }
        disk := FileTree.empty
        scanJobs := fun _ => none
        nextScanJobId := 0
        activeScans := fun _ => none
        dirtyPaths := []
        queueCursors := fun _ => none
        queueComplete := fun _ => false }
    copies := [root] }

/-- An account with one folder `P`, named `p`, in the folder of the root. -/
def remoteEnv (deletedAt : Json) : RemoteEnv :=
  { cwd := FsPath.parse "/"
    getJson := fun query =>
      if query =
          "/api/sync/entries?folder_id=P&include_deleted=true&limit=100" then
        some (.object [("entries", .array [])])
      else
        some (.object [("entries", .array [.object
          [("id", .string "P"), ("type", .string "folder"),
           ("encrypted_name", .string "p"), ("deleted_at", deletedAt),
           ("updated_at", .string "t1")]])])
    vault :=
      { unlocked := true
        userId := some "user"
        folderPlaintext := fun name => some name
        filePlaintext := fun _ _ _ _ => none
        parseJson := fun text => some (.object [("name", .string text)]) }
    fuel := 2
    now := "t2" }

def queueEnv : QueueEnv :=
  { cwd := FsPath.parse "/"
    createRootFolder := fun _ => none
    createFolder := fun _ _ => some ("C", some "P")
    uploadFilesBatch := fun _ => none }

/-- A scan that takes the folder in, and one that learns of its deletion. -/
def listed : Operation := .remoteTurn (remoteEnv .null) root

def deleted : Operation := .remoteTurn (remoteEnv (.string "t1")) root

/-- A new directory in it, found and queued, and its folder job. -/
def found : Operation :=
  .scanPath (FsPath.parse "/") "root" "p/c"
    (.directory [some { items := [], failed := false }])

def queued : Operation := .enqueueEntry "root" "p/c"

def job : Operation := .folderJob queueEnv

def filled : SyncSystem := ((start.perform listed).perform found).perform queued

theorem step_listed {s : SyncSystem} (hheld : root ∈ s.copies)
    (deletedAt : Json) :
    SyncSystem.Step s (.remoteTurn (remoteEnv deletedAt) root)
      (s.perform (.remoteTurn (remoteEnv deletedAt) root)) :=
  ⟨⟨hheld, rfl⟩, rfl⟩

theorem step_found : SyncSystem.Step (start.perform listed) found
    ((start.perform listed).perform found) :=
  ⟨⟨root, by decide, rfl, rfl⟩, rfl⟩

theorem step_queued : SyncSystem.Step ((start.perform listed).perform found)
    queued filled :=
  ⟨⟨root, by decide, rfl, rfl⟩, rfl⟩

theorem kept : TargetsKept start := by
  intro j hj
  cases hj

/-- The client up to the folder job, for any condition its steps meet. -/
theorem run_filled {P : SyncSystem → Operation → Prop} (hlisted : P start listed)
    (hfound : P (start.perform listed) found)
    (hqueued : P ((start.perform listed).perform found) queued) :
    Run (Guarded SyncSystem.Step P) start filled := by
  have hfirst : Run (Guarded SyncSystem.Step P) start (start.perform listed) :=
    .single ⟨listed, step_listed (by decide) .null, hlisted⟩
  have hsecond := hfirst.tail ⟨found, step_found, hfound⟩
  exact hsecond.tail ⟨queued, step_queued, hqueued⟩

end Refilled

open Refilled in
/-- A folder that stays where it is gets its new subfolder. -/
theorem jobs_on_target_filled :
    TargetsKept start ∧
      ∀ x ∈ sentParents filled job, OnTarget filled x.1 x.2 :=
  ⟨kept, jobs_on_target kept
    (run_filled ⟨by decide, by decide⟩ ⟨by decide, by decide⟩
      ⟨by decide, by decide⟩)
    ⟨trivial, rfl⟩ ⟨by decide, by decide⟩⟩

open Refilled in
/-- A folder that is found deleted gets it too. -/
theorem not_jobs_on_target :
    ¬∀ (s₀ s s' : SyncSystem) (op : Operation), TargetsKept s₀ →
      Run (Guarded SyncSystem.Step (fun _ _ => True)) s₀ s →
      SyncSystem.Step s op s' →
        ∀ x ∈ sentParents s op, OnTarget s x.1 x.2 := by
  intro h
  have hrun : Run (Guarded SyncSystem.Step (fun _ _ => True)) start
      (filled.perform deleted) :=
    (run_filled trivial trivial trivial).tail
      ⟨deleted, step_listed (by decide) (.string "t1"), trivial⟩
  have htarget := h start _ _ job kept hrun ⟨trivial, rfl⟩
  have hsent : ∃ x ∈ sentParents (filled.perform deleted) job,
      (FsPath.parse x.1.relativePath).parentPath.isEmpty = false ∧
        ((EntryRepo.findEntryByPath (filled.perform deleted).entries
          x.1.syncRootId (FsPath.parse
            x.1.relativePath).parentPath.genericString).any (fun f =>
              f.remoteDeletedAt.isNone)) = false := by
    decide
  obtain ⟨x, hx, hnested, hdeleted⟩ := hsent
  have hlive := htarget x hx
  unfold OnTarget at hlive
  simp only [hnested, Bool.false_eq_true, if_false] at hlive
  obtain ⟨f, hfound, _, hkept, _⟩ := hlive
  rw [hfound] at hdeleted
  simp [hkept] at hdeleted

end ArkiveSync.JobTargets
