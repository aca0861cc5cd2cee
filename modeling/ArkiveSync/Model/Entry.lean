import Mathlib.Data.List.Sort
import Mathlib.Data.String.Basic
import ArkiveSync.Library.KeyedTable
import ArkiveSync.Library.KeysetPage

/-!
# The entries table

One row per path of a sync root.  A row describes a path twice: as the last
local scan saw it and as the last remote scan saw it, with the content hash
and the remote timestamp at which the two sides last agreed.  The table is the
only state the synchronisation of a root shares between its steps.

Columns that no read of the table returns (the remote type, the encrypted
name and metadata, the folder ids kept for display, the bookkeeping
timestamps) are left out.  Stored modification times are milliseconds.
-/

namespace ArkiveSync

open Library

/-- `toMtimeString`: `duration_cast` to milliseconds, towards zero. -/
def toMtimeMs (ns : Int) : Int := ns.tdiv 1000000

/-- `std::numeric_limits<int64_t>::max()`. -/
def int64Max : Nat := 9223372036854775807

/-- `EntrySyncState`. -/
inductive EntrySyncState where
  | unchanged
  | pendingUpload
  | deleted
  deriving DecidableEq, Repr

/-- `Entry`: one row as `readEntry` returns it. -/
structure Entry where
  id : Nat
  remoteId : Option String := none
  remoteFileId : Option String := none
  localDeletedAt : Option String := none
  remoteDeletedAt : Option String := none
  syncRootId : String
  relativePath : String
  isDirectory : Bool
  parentFolderId : Option String := none
  size : Option Int := none
  mtime : Option Int := none
  contentHash : Option String := none
  syncedContentHash : Option String := none
  remoteUpdatedAt : Option String := none
  syncedRemoteUpdatedAt : Option String := none
  conflictState : Option String := some "none"
  syncState : EntrySyncState
  lastSeenScanJobId : Option Nat := none
  deriving DecidableEq, Repr

namespace Entry

/-- `entry.deleted`, read off the stored state. -/
def deleted (e : Entry) : Bool := e.syncState == .deleted

/-- The columns of `idx_entries_sync_root_local_path`. -/
def key (e : Entry) : String × String := (e.syncRootId, e.relativePath)

end Entry

/-- The table with its primary key and its unique index. -/
abbrev EntryTable := KeyedTable Entry.id Entry.key

theorem Entry.keyUnique_one (e : Entry) : ([e].map Entry.key).Nodup :=
  KeyedTable.keyUnique_one e

namespace EntryRepo

/-- `getEntryById`. -/
def getEntryById (t : EntryTable) (entryId : Nat) : Option Entry :=
  t.lookupPk entryId

/-- `findEntryByRemoteId`. -/
def findEntryByRemoteId (t : EntryTable) (syncRootId remoteId : String) :
    Option Entry :=
  t.rows.find? (fun e =>
    decide (e.syncRootId = syncRootId ∧ e.remoteId = some remoteId))

/-- `findEntryByPath`. -/
def findEntryByPath (t : EntryTable) (syncRootId relativePath : String) :
    Option Entry :=
  t.lookup (syncRootId, relativePath)

/-- `listEntriesBySyncRootId`: the rows of one root in the order of their
paths. -/
def listEntriesBySyncRootId (t : EntryTable) (syncRootId : String) :
    List Entry :=
  (t.rows.filter (fun e => decide (e.syncRootId = syncRootId))).insertionSort
    (fun a b => a.relativePath ≤ b.relativePath)

/-- `listEntriesBySyncRootIdAfterPath`: at most `limit` rows behind a path. -/
def listEntriesBySyncRootIdAfterPath (t : EntryTable) (syncRootId : String)
    (afterPath : Option String) (limit : Nat) : List Entry :=
  ((listEntriesBySyncRootId t syncRootId).filter (fun e =>
    match afterPath with
    | none => true
    | some p => decide (p < e.relativePath))).take limit

/-! ## Reading -/

theorem findEntryByPath_eq_some_iff (t : EntryTable) (root path : String)
    (e : Entry) :
    findEntryByPath t root path = some e ↔
      e ∈ t.rows ∧ e.syncRootId = root ∧ e.relativePath = path := by
  unfold findEntryByPath
  rw [t.lookup_eq_some_iff]
  simp [Entry.key]

/-- Two rows of a root at one path are the same row. -/
theorem eq_of_path_eq (t : EntryTable) {e f : Entry} (he : e ∈ t.rows)
    (hf : f ∈ t.rows) (hroot : e.syncRootId = f.syncRootId)
    (hpath : e.relativePath = f.relativePath) : e = f :=
  t.eq_of_key_eq he hf (by simp [Entry.key, hroot, hpath])

theorem mem_listEntries (t : EntryTable) (root : String) (e : Entry) :
    e ∈ listEntriesBySyncRootId t root ↔
      e ∈ t.rows ∧ e.syncRootId = root := by
  simp [listEntriesBySyncRootId, List.mem_insertionSort, List.mem_filter]

theorem sorted_listEntries (t : EntryTable) (root : String) :
    (listEntriesBySyncRootId t root).Pairwise
      (fun a b => a.relativePath ≤ b.relativePath) := by
  have : Std.Total (fun a b : Entry => a.relativePath ≤ b.relativePath) :=
    ⟨fun a b => le_total a.relativePath b.relativePath⟩
  have : IsTrans Entry (fun a b => a.relativePath ≤ b.relativePath) :=
    ⟨fun _ _ _ h₁ h₂ => le_trans h₁ h₂⟩
  exact List.pairwise_insertionSort _ _

theorem nodup_listEntries (t : EntryTable) (root : String) :
    (listEntriesBySyncRootId t root).Nodup := by
  have hrows : t.rows.Nodup := List.Nodup.of_map Entry.key t.keyUnique
  exact (List.perm_insertionSort _ _).nodup_iff.mpr (hrows.filter _)

theorem strictlySorted_listEntries (t : EntryTable) (root : String) :
    (listEntriesBySyncRootId t root).Pairwise
      (fun a b => a.relativePath < b.relativePath) := by
  have hboth := (sorted_listEntries t root).and (nodup_listEntries t root)
  refine hboth.imp_of_mem ?_
  intro a b ha hb hab
  obtain ⟨hle, hne⟩ := hab
  refine lt_of_le_of_ne hle ?_
  intro hpath
  obtain ⟨hamem, haroot⟩ := (mem_listEntries t root a).mp ha
  obtain ⟨hbmem, hbroot⟩ := (mem_listEntries t root b).mp hb
  exact hne (eq_of_path_eq t hamem hbmem (haroot.trans hbroot.symm) hpath)

/-- A page has rows of its root only. -/
theorem mem_listAfterPath {t : EntryTable} {root : String}
    {afterPath : Option String} {limit : Nat} {e : Entry}
    (h : e ∈ listEntriesBySyncRootIdAfterPath t root afterPath limit) :
    e ∈ t.rows ∧ e.syncRootId = root := by
  have hlisted : e ∈ listEntriesBySyncRootId t root :=
    (List.mem_filter.mp (List.mem_of_mem_take h)).1
  exact (mem_listEntries t root e).mp hlisted

/-- The rows behind a path are a page of the rows of the root. -/
theorem listAfterPath_eq_page (t : EntryTable) (root : String)
    (afterPath : Option String) (limit : Nat) :
    listEntriesBySyncRootIdAfterPath t root afterPath limit =
      KeysetPage.page Entry.relativePath (listEntriesBySyncRootId t root)
        afterPath limit := by
  unfold listEntriesBySyncRootIdAfterPath KeysetPage.page
  congr 1
  apply List.filter_congr
  intro e _
  cases afterPath with
  | none => simp [KeysetPage.Behind]
  | some p => simp [KeysetPage.Behind]

end EntryRepo

end ArkiveSync
