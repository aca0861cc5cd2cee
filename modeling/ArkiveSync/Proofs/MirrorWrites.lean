import ArkiveSync.Model.SyncSteps

/-!
# Requests for the roots that only mirror

No mode-aware decision uploads for a remote mirror.  Two requests are not
mode-aware: a page of the queue binds an unbound root by creating a folder, and
sets its mode while it does so, and a folder job creates its folder whatever
the mode is by then.

## Main results

* `Mirrors.step`: a bound mirror stays one, and no folder job for its rows
  appears.
* `mirror_never_writes`: no operation issues a write for a mirror that is bound
  when its queue is produced, and that had no folder job pending.
-/

namespace ArkiveSync.MirrorWrites

open Library

/-- The activity is a request to write, for the root or one of its entries. -/
def WritesFor (syncRootId : String) (s : SyncSystem) : Activity → Prop
  | .createRootFolder id => id = syncRootId
  | .createFolder entryId =>
      ∃ e ∈ s.entries.rows, e.id = entryId ∧ e.syncRootId = syncRootId
  | .startUpload entryId =>
      ∃ e ∈ s.entries.rows, e.id = entryId ∧ e.syncRootId = syncRootId
  | _ => False

/-- The root is bound to a remote folder. -/
def Bound (syncRootId : String) (s : SyncSystem) : Prop :=
  ∀ root, SyncRepo.findSyncRootById s.roots syncRootId = some root →
    root.folderId ≠ ""

/-- Pages of the root are produced only while it is bound, and the root is not
configured anew. -/
def Meets (syncRootId : String) (s : SyncSystem) : Operation → Prop
  | .buildPage _ id _ _ => id = syncRootId → Bound syncRootId s
  | .addSyncRoot env localPath _ _ _ =>
      SyncService.rootIdOf env localPath ≠ some syncRootId
  | _ => True

/-- No row of the root has a folder job that is queued or running. -/
def NoFolderJobs (syncRootId : String) (s : SyncSystem) : Prop :=
  ∀ n, QueueRepo.Pending s.queue .createFolder n →
    Statement.IdElsewhere syncRootId s.entries n

/-- The root is a mirror without pending folder jobs. -/
structure Mirrors (syncRootId : String) (s : SyncSystem) : Prop where
  mode : ∃ root, SyncRepo.findSyncRootById s.roots syncRootId = some root ∧
    root.mode = .remoteMirror
  jobs : NoFolderJobs syncRootId s

/-- A mirror never decides to upload. -/
theorem decide_ne_upload (e : Entry) :
    decideEntry .remoteMirror e ≠ .upload := by
  unfold decideEntry
  generalize classify e = s
  obtain ⟨le, re, ld, rd, lDirty, rDirty, dir, conf⟩ := s
  revert le re ld rd lDirty rDirty dir conf
  decide

section Step

variable {syncRootId : String} {s s' : SyncSystem} {op : Operation}

/-- The mode of a mirror survives an operation that meets the condition. -/
theorem mode_perform (hmeets : Meets syncRootId s op)
    (hmode : ∃ root, SyncRepo.findSyncRootById s.roots syncRootId =
      some root ∧ root.mode = .remoteMirror) :
    ∃ root, SyncRepo.findSyncRootById (s.perform op).roots syncRootId =
      some root ∧ root.mode = .remoteMirror := by
  obtain ⟨root, hroot, hmirror⟩ := hmode
  have hid : root.id = syncRootId := SyncRepo.id_of_find hroot
  obtain ⟨root', hroot', hafter⟩ := SyncSystem.find_perform op hroot
  refine ⟨root', hroot', ?_⟩
  cases hafter with
  | same => exact hmirror
  | disabled => exact hmirror
  | bound hbinds hunbound created =>
      obtain ⟨env, after, complete, rfl⟩ := hbinds
      exact absurd hunbound (hmeets hid root hroot)
  | added folderId hadds =>
      obtain ⟨env, localPath, enabled, mode, rfl, hrootId⟩ := hadds
      rw [hid] at hrootId
      exact absurd hrootId hmeets

/-- A mirror stays one, and gets no folder job. -/
theorem Mirrors.step (hstep : SyncSystem.Step s op s')
    (hmeets : Meets syncRootId s op) (h : Mirrors syncRootId s) :
    Mirrors syncRootId s' := by
  obtain ⟨_, rfl⟩ := hstep
  have hmode := mode_perform hmeets h.mode
  have hkeeps := (SyncSystem.perform_statements s op).keeps_root
  refine { mode := hmode, jobs := ?_ }
  intro n hpending
  rcases SyncSystem.pending_perform hpending with hold | hnew
  · exact (h.jobs n hold).of_keeps hkeeps
  · obtain ⟨e, he, hid, _, root, hroot, hdec⟩ := hnew
    have hother : e.syncRootId ≠ syncRootId := by
      intro hsame
      obtain ⟨mirror, hfind, hmirror⟩ := hmode
      rw [hsame, hfind] at hroot
      cases hroot
      rw [hmirror] at hdec
      exact decide_ne_upload e hdec
    rw [← hid]
    exact (Statement.idElsewhere_of_mem he hother).of_keeps hkeeps

/-- No operation that meets the condition writes for a mirror. -/
theorem activities_quiet (hmeets : Meets syncRootId s op)
    (h : Mirrors syncRootId s) :
    ∀ a ∈ s.activities op, ¬WritesFor syncRootId s a := by
  intro a ha hwrites
  obtain ⟨mirror, hfind, hmirror⟩ := h.mode
  cases SyncSystem.activityOf ha with
  | scanned id hworks => exact hwrites
  | touched id hworks effect => exact hwrites
  | createRootFolder env id after complete hop hunbound =>
      subst hop
      have hid : id = syncRootId := hwrites
      subst hid
      exact hmeets rfl mirror hfind (hunbound mirror hfind)
  | createFolder e hmem hpending hdir =>
      obtain ⟨f, hf, hid, hroot⟩ := hwrites
      exact (h.jobs e.id hpending).2 f hf hid hroot
  | startUpload e hmem hpending root hroot hdec =>
      obtain ⟨f, hf, hid, hfroot⟩ := hwrites
      have hsame : f = e := s.entries.eq_of_pk_eq hf hmem hid
      subst hsame
      rw [hfroot, hfind] at hroot
      cases hroot
      rw [hmirror] at hdec
      exact decide_ne_upload f hdec

end Step

/-- In a run whose steps meet the condition, no step issues a request to write
for a mirror that starts without pending folder jobs. -/
theorem mirror_never_writes {syncRootId : String} {s₀ s s' : SyncSystem}
    {op : Operation} (hstart : Mirrors syncRootId s₀)
    (hrun : Run (Guarded SyncSystem.Step (Meets syncRootId)) s₀ s)
    (hstep : SyncSystem.Step s op s') (hmeets : Meets syncRootId s op) :
    ∀ a ∈ s.activities op, ¬WritesFor syncRootId s a := by
  have hkeep : ∀ a op b, SyncSystem.Step a op b → Meets syncRootId a op →
      Mirrors syncRootId a → Mirrors syncRootId b :=
    fun _ _ _ hstep hmeets h => Mirrors.step hstep hmeets h
  have hquiet : ∀ a op b, SyncSystem.Step a op b → Meets syncRootId a op →
      Mirrors syncRootId a → ∀ x ∈ a.activities op, ¬WritesFor syncRootId a x :=
    fun _ _ _ _ hmeets h => activities_quiet hmeets h
  exact safe_of_guarded hkeep hquiet hstart hrun hstep hmeets

/-! ## A page of a mirror -/

namespace Page

def root (folderId : String) : SyncRoot :=
  { id := "root", localPath := "/r", folderId := folderId
    mode := .remoteMirror }

/-- A new daemon that knows one mirror. -/
def state (folderId : String) : SyncSystem :=
  { daemon :=
      { store :=
          { roots := [root folderId], entries := KeyedTable.empty
            queue := QueueRepo.empty }
        disk := FileTree.empty
        scanJobs := fun _ => none
        nextScanJobId := 0
        activeScans := fun _ => none
        dirtyPaths := []
        queueCursors := fun _ => none
        queueComplete := fun _ => false }
    copies := [root folderId] }

def env : QueueEnv :=
  { cwd := { isAbsolute := true, names := [], trailing := false }
    createRootFolder := fun _ => some "F"
    createFolder := fun _ _ => none
    uploadFilesBatch := fun _ => none }

/-- The first page of the mirror's queue. -/
def page : Operation := .buildPage env "root" none true

theorem step (folderId : String) :
    SyncSystem.Step (state folderId) page ((state folderId).perform page) :=
  ⟨⟨root folderId, by simp [state], rfl, rfl⟩, rfl⟩

theorem start (folderId : String) : Mirrors "root" (state folderId) :=
  { mode := ⟨root folderId, rfl, rfl⟩
    jobs := by
      rintro n ⟨j, hj, _⟩
      cases hj }

end Page

/-- A page of a bound mirror asks for nothing. -/
theorem mirror_never_writes_bound :
    Mirrors "root" (Page.state "R") ∧
      ∀ a ∈ (Page.state "R").activities Page.page,
        ¬WritesFor "root" (Page.state "R") a :=
  ⟨Page.start "R", mirror_never_writes (Page.start "R") .refl (Page.step "R")
    (by
      intro _ root hroot
      have heq : Page.root "R" = root := Option.some.inj hroot
      rw [← heq]
      decide)⟩

/-- A page of an unbound one creates its folder. -/
theorem not_mirror_never_writes :
    ¬∀ (syncRootId : String) (s₀ s s' : SyncSystem) (op : Operation),
      Mirrors syncRootId s₀ →
      Run (Guarded SyncSystem.Step (fun _ _ => True)) s₀ s →
      SyncSystem.Step s op s' →
      ∀ a ∈ s.activities op, ¬WritesFor syncRootId s a := by
  intro h
  have hquiet := h "root" (Page.state "") _ _ Page.page (Page.start "") .refl
    (Page.step "")
  have hasked : Activity.createRootFolder "root" ∈
      (Page.state "").activities Page.page := by decide
  exact hquiet _ hasked rfl

end ArkiveSync.MirrorWrites
