import ArkiveSync.Proofs.UploadCoverage

/-!
# What is left to upload when the daemon is quiet

The daemon is quiet about a root when its scan and its production are complete
and neither a dirty path nor a job of it is left.  A row that was passed over
is then still to be uploaded, and stays so until it is changed or the root is
scanned again.

## Main results

* `quiet_uploads_done`: in a run whose steps pass over no row to be uploaded,
  none is left when the daemon is quiet.
* `not_quiet_uploads_done`: a file in a new directory is left.
-/

namespace ArkiveSync.UploadQuiescence

open Library UploadCoverage

/-- Nothing is left to be done for the root. -/
structure Quiet (syncRootId : String) (s : DaemonState) : Prop where
  scanned : s.scanJobs syncRootId = none
  produced : s.queueComplete syncRootId = true
  processed : ∀ d ∈ s.dirtyPaths, d.syncRootId = syncRootId →
    d.status ≠ .pending ∧ d.status ≠ .failed
  transferred : ∀ e ∈ s.store.entries.rows, e.syncRootId = syncRootId →
    ∀ j ∈ s.store.queue.jobs, j.entryId = e.id → j.status = .done

/-- No live row of the enabled root without a conflict, whose file is on the
disk, is to be uploaded. -/
def UploadsDone (cwd : FsPath) (syncRootId : String) (s : DaemonState) :
    Prop :=
  ∀ root, SyncRepo.findSyncRootById s.store.roots syncRootId = some root →
    root.enabled = true →
      ∀ e ∈ s.store.entries.rows, e.syncRootId = syncRootId →
        e.deleted = false → (classify e).hasConflict = false →
        s.disk.exists? ((cwd.append (FsPath.parse root.localPath)).append
          (FsPath.parse e.relativePath)).loc = true →
        decideEntry root.mode e ≠ .upload

/-! ## Runs that pass over no row -/

section Run

variable {syncRootId : String} {s : DaemonState}

/-- When the daemon is quiet about a root after a run whose steps pass over no
row to be uploaded, none of its rows is left to be uploaded. -/
theorem quiet_uploads_done {s₀ : DaemonState}
    (hstart : Started syncRootId s₀)
    (hrun : Run (Guarded Step (PassesOverNone syncRootId)) s₀ s)
    (hquiet : Quiet syncRootId s) (cwd : FsPath) :
    UploadsDone cwd syncRootId s := by
  have hkeep : Preserves (Guarded Step (PassesOverNone syncRootId))
      (Covered syncRootId) := by
    intro a b hguarded ha
    obtain ⟨event, hstep, hmeets⟩ := hguarded
    exact ha.step hstep hmeets
  have hcovered := hkeep.run hrun hstart.covered
  intro root hroot _ e he heroot _ _ _ hdec
  have hup : toUpload s.store.roots e = true := by
    refine (toUpload_of_find ?_).mpr hdec
    rw [heroot]
    exact hroot
  rcases hcovered.rows e he heroot hup with hahead | ⟨j, hj, hentry, hstatus⟩
  · have hopen := hahead.1
    rw [hquiet.produced] at hopen
    cases hopen
  · exact hstatus (hquiet.transferred e he heroot j hj hentry)

end Run

/-! ## A file in a new directory -/

/-- Every call of the server is answered. -/
structure Answers (env : QueueEnv) : Prop where
  rootFolder : ∀ name, (env.createRootFolder name).isSome = true
  folder : ∀ job name, (env.createFolder job name).isSome = true
  uploads : ∀ items, ∃ response, env.uploadFilesBatch items = some response ∧
    ∀ n, (response n).isSome = true

/-- The event, with every call of the server in it answered. -/
def Answered : DaemonState → Event → Prop
  | _, .producePage _ env => Answers env
  | _, .runTick env => Answers env
  | _, _ => True

namespace NewDirectory

def root : SyncRoot :=
  { id := "root", localPath := "/r", folderId := "R", mode := .twoWay }

/-- What the scan records of a file of one byte. -/
def file (path : String) : DirItem :=
  { relative := some path
    kind := some (.regularFile
      { size := some 1, mtime := some 1000000, hash := some "1" }) }

def directory (path : String) : DirItem :=
  { relative := some path, kind := some .directory }

/-- The disk with the file `/r/d/f` and the file `/r/f`. -/
def disk : Disk where
  nodes :=
    [(["r"], .directory), (["r", "d"], .directory),
      (["r", "d", "f"], .file { content := [0], mtime := 1000000 }),
      (["r", "f"], .file { content := [0], mtime := 1000000 })]
  unique := by decide
  closed := by decide

/-- The daemon has started on an empty table. -/
def start : DaemonState :=
  { store :=
      { roots := [root]
        entries := KeyedTable.empty
        queue := QueueRepo.empty }
    disk := disk
    scanJobs := fun _ => none
    nextScanJobId := 0
    activeScans := fun _ => none
    dirtyPaths := []
    queueCursors := fun _ => none
    queueComplete := fun _ => false }

def env : QueueEnv :=
  { cwd := FsPath.parse "/"
    createRootFolder := fun _ => some "R"
    createFolder := fun _ _ => some ("D", some "R")
    uploadFilesBatch := fun _ => some (fun _ => some "F") }

theorem env_answers : Answers env :=
  ⟨fun _ => rfl, fun _ _ => rfl, fun _ => ⟨_, rfl, fun _ => rfl⟩⟩

/-- The startup scan has found these items. -/
def scanned (items : List DirItem) : DaemonState :=
  PollingDaemon.scanRoot "root" true (some { items := items, failed := false })
    start

/-- A page was produced. -/
def produced (items : List DirItem) : DaemonState :=
  (PollingDaemon.produceQueuePage env "root"
    ((scanned items).scanJobs "root").isNone (scanned items)).getD
      (scanned items)

/-- The queue was run. -/
def ticked (items : List DirItem) : DaemonState :=
  PollingDaemon.runTick env (produced items)

/-- The run of the daemon on some items, when its steps meet a condition. -/
theorem run_ticked {meets : DaemonState → Event → Prop}
    (items : List DirItem)
    (hpage : (PollingDaemon.produceQueuePage env "root"
      ((scanned items).scanJobs "root").isNone (scanned items)).isSome)
    (hscanned : meets start (.scanBatch "root" true
      (some { items := items, failed := false })))
    (hproduced : meets (scanned items) (.producePage "root" env))
    (hticked : meets (produced items) (.runTick env)) :
    Run (Guarded Step meets) start (ticked items) := by
  have hstep : Step (scanned items) (.producePage "root" env)
      (produced items) := by
    obtain ⟨daemon, hdaemon⟩ := Option.isSome_iff_exists.mp hpage
    have hlast := Step.producePage (scanned items) daemon "root" env hdaemon
    unfold produced
    rw [hdaemon]
    exact hlast
  exact .tail (.tail (.tail .refl
    ⟨_, .scanBatch start "root" true _, hscanned⟩)
    ⟨_, hstep, hproduced⟩) ⟨_, .runTick _ env, hticked⟩

theorem started : Started "root" start := ⟨rfl, rfl⟩

/-- Of a file in a new directory the directory is created. -/
theorem quiet_directory : Quiet "root" (ticked [directory "d", file "d/f"]) :=
  ⟨by decide, by decide, by decide, by decide⟩

/-- A file at the top is uploaded. -/
theorem quiet_file : Quiet "root" (ticked [file "f"]) :=
  ⟨by decide, by decide, by decide, by decide⟩

end NewDirectory

/-- A run that passes over no row: a file at the top of the root is uploaded. -/
theorem quiet_uploads_done_file :
    UploadsDone (FsPath.parse "/") "root"
      (NewDirectory.ticked [NewDirectory.file "f"]) := by
  refine quiet_uploads_done NewDirectory.started
    (NewDirectory.run_ticked [NewDirectory.file "f"] (by decide) ?_ ?_ ?_)
    NewDirectory.quiet_file (FsPath.parse "/")
  · unfold PassesOverNone WritesCovered
    decide
  · intro _ _ root hroot e he _
    have hpage : PollingDaemon.pageOf
        (NewDirectory.scanned [NewDirectory.file "f"]) "root" =
          (NewDirectory.scanned [NewDirectory.file "f"]).store.entries.rows :=
      by decide
    rw [hpage] at he
    have htop : ∀ f ∈ (NewDirectory.scanned
        [NewDirectory.file "f"]).store.entries.rows,
        (FsPath.parse f.relativePath).parentPath.isEmpty = true ∧
          f.isDirectory = false ∧ f.size = some 1 := by
      decide
    obtain ⟨hparent, hfile, hsize⟩ := htop e he
    refine Or.inl ⟨Or.inl hparent, ?_, fun _ => ⟨1, hsize, by decide⟩⟩
    intro hdir
    rw [hfile] at hdir
    cases hdir
  · intro e he _ _ hdir _
    have hfiles : ∀ f ∈ (NewDirectory.produced
        [NewDirectory.file "f"]).store.entries.rows, f.isDirectory = false := by
      decide
    rw [hfiles e he] at hdir
    cases hdir

/-- A file in a new directory is passed over, and never comes to the queue
again. -/
theorem not_quiet_uploads_done :
    ¬∀ (syncRootId : String) (s₀ s : DaemonState) (cwd : FsPath),
        Started syncRootId s₀ → Run (Guarded Step Answered) s₀ s →
        Quiet syncRootId s → UploadsDone cwd syncRootId s := by
  intro h
  have hdone := h "root" NewDirectory.start
    (NewDirectory.ticked
      [NewDirectory.directory "d", NewDirectory.file "d/f"])
    (FsPath.parse "/") NewDirectory.started
    (NewDirectory.run_ticked _ (by decide) trivial NewDirectory.env_answers
      NewDirectory.env_answers)
    NewDirectory.quiet_directory NewDirectory.root (by decide) rfl
  revert hdone
  decide

end ArkiveSync.UploadQuiescence
