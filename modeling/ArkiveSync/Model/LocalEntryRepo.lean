import Mathlib.Data.List.Infix
import ArkiveSync.Model.Entry

/-!
# What a local scan writes

`LocalEntryRepo` has two upserts, one for a directory and one for a regular
file the scan has seen, and three statements that mark what it has not seen.
A row whose `local_deleted_at` is set is revived by an upsert: everything it
knew about a remote object is cleared with the mark.

## Main results

* `findEntryByPath_upsertDirectory_self`, `findEntryByPath_upsertFile_self`
  and their `_ne` forms say what a path holds after an upsert.
* `findEntryByPath_markDeleted`: the three marking statements write
  `sync_state` and nothing else, in particular not `local_deleted_at`, the
  column the classifier reads.
-/

namespace ArkiveSync

open Library

/-- `DirectoryEntryUpsert`. -/
structure DirectoryEntryUpsert where
  syncRootId : String
  relativePath : String
  lastSeenScanId : Nat

/-- `FileEntryUpsert`; `mtime` is what `toMtimeString` stores. -/
structure FileEntryUpsert where
  syncRootId : String
  relativePath : String
  size : Int
  mtime : Int
  contentHash : String
  syncState : EntrySyncState
  lastSeenScanId : Nat

namespace LocalEntryRepo

/-- `CASE WHEN entries.local_deleted_at IS NOT NULL THEN NULL ELSE x END`. -/
def unlessDeleted {α : Type} (e : Entry) (x : Option α) : Option α :=
  if e.localDeletedAt.isSome then none else x

/-- The `INSERT` of `upsertDirectoryEntry`. -/
def newDirectory (u : DirectoryEntryUpsert) (id : Nat) : Entry :=
  { id := id
    syncRootId := u.syncRootId
    relativePath := u.relativePath
    isDirectory := true
    syncState := .pendingUpload
    lastSeenScanJobId := some u.lastSeenScanId }

/-- The `DO UPDATE` of `upsertDirectoryEntry`. -/
def updateDirectory (u : DirectoryEntryUpsert) (e : Entry) : Entry :=
  { e with
    isDirectory := true
    remoteId := unlessDeleted e e.remoteId
    parentFolderId := unlessDeleted e e.parentFolderId
    remoteDeletedAt := unlessDeleted e e.remoteDeletedAt
    remoteUpdatedAt := unlessDeleted e e.remoteUpdatedAt
    syncedRemoteUpdatedAt := unlessDeleted e e.syncedRemoteUpdatedAt
    localDeletedAt := none
    conflictState :=
      if e.localDeletedAt.isSome then some "none" else e.conflictState
    syncState :=
      if e.localDeletedAt.isSome || e.remoteId.isNone || e.deleted
      then .pendingUpload else .unchanged
    lastSeenScanJobId := some u.lastSeenScanId }

/-- The `INSERT` of `upsertFileEntry`. -/
def newFile (u : FileEntryUpsert) (id : Nat) : Entry :=
  { id := id
    syncRootId := u.syncRootId
    relativePath := u.relativePath
    isDirectory := false
    size := some u.size
    mtime := some u.mtime
    contentHash := some u.contentHash
    syncState := u.syncState
    lastSeenScanJobId := some u.lastSeenScanId }

/-- The `DO UPDATE` of `upsertFileEntry`. -/
def updateFile (u : FileEntryUpsert) (e : Entry) : Entry :=
  { e with
    isDirectory := false
    remoteId := unlessDeleted e e.remoteId
    remoteFileId := unlessDeleted e e.remoteFileId
    parentFolderId := unlessDeleted e e.parentFolderId
    remoteDeletedAt := unlessDeleted e e.remoteDeletedAt
    remoteUpdatedAt := unlessDeleted e e.remoteUpdatedAt
    syncedRemoteUpdatedAt := unlessDeleted e e.syncedRemoteUpdatedAt
    syncedContentHash := unlessDeleted e e.syncedContentHash
    localDeletedAt := none
    size := some u.size
    mtime := some u.mtime
    contentHash := some u.contentHash
    conflictState :=
      if e.localDeletedAt.isSome then some "none" else e.conflictState
    syncState :=
      if e.localDeletedAt.isSome then .pendingUpload else u.syncState
    lastSeenScanJobId := some u.lastSeenScanId }

/-- `upsertDirectoryEntry`. -/
def upsertDirectoryEntry (t : EntryTable) (u : DirectoryEntryUpsert) :
    EntryTable :=
  t.upsert (u.syncRootId, u.relativePath) (newDirectory u) (updateDirectory u)

/-- `upsertFileEntry`. -/
def upsertFileEntry (t : EntryTable) (u : FileEntryUpsert) : EntryTable :=
  t.upsert (u.syncRootId, u.relativePath) (newFile u) (updateFile u)

/-! ## Marking what a scan has not seen -/

/-- Lower case for the letters SQLite folds in `LIKE`. -/
def foldAscii (c : Char) : Char :=
  if 'A' ≤ c ∧ c ≤ 'Z' then Char.ofNat (c.toNat + 32) else c

/-- `LIKE` on characters: `%` is any run, `_` is any one character. -/
def likeMatch : List Char → List Char → Bool
  | [], s => s.isEmpty
  | p :: ps, s =>
      if p = '%' then s.tails.any (likeMatch ps)
      else
        match s with
        | [] => false
        | c :: cs => (p = '_' || foldAscii p == foldAscii c) && likeMatch ps cs

/-- `text LIKE pattern`. -/
def sqlLike (text pattern : String) : Bool :=
  likeMatch pattern.toList text.toList

example : sqlLike "Docs/a.txt" "docs/%" = true := by decide

/-- `local_path = p OR local_path LIKE p || '/%'`. -/
def atOrUnder (e : Entry) (relativePath : String) : Bool :=
  e.relativePath == relativePath || sqlLike e.relativePath (relativePath ++ "/%")

/-- A wildcard stands for itself, too. -/
theorem likeMatch_prefix (pattern rest : List Char) :
    likeMatch (pattern ++ ['%']) (pattern ++ rest) = true := by
  induction pattern with
  | nil =>
      rw [List.nil_append, List.nil_append]
      unfold likeMatch
      rw [if_pos rfl, List.any_eq_true]
      exact ⟨[], (List.mem_tails _ _).mpr List.nil_suffix, rfl⟩
  | cons c pattern ih =>
      rw [List.cons_append, List.cons_append]
      unfold likeMatch
      by_cases hc : c = '%'
      · rw [if_pos hc, List.any_eq_true]
        exact ⟨pattern ++ rest, (List.mem_tails _ _).mpr (List.suffix_cons _ _),
          ih⟩
      · rw [if_neg hc]
        simp only [beq_self_eq_true, Bool.or_true, Bool.true_and]
        exact ih

/-- The path itself and everything below it match. -/
theorem atOrUnder_of_below {e : Entry} {relativePath : String}
    (h : e.relativePath = relativePath ∨
      ∃ rest, e.relativePath = relativePath ++ "/" ++ rest) :
    atOrUnder e relativePath = true := by
  unfold atOrUnder
  rw [Bool.or_eq_true]
  rcases h with hsame | ⟨rest, hbelow⟩
  · exact Or.inl (beq_iff_eq.mpr hsame)
  · refine Or.inr ?_
    unfold sqlLike
    have hpattern : (relativePath ++ "/%").toList =
        (relativePath ++ "/").toList ++ ['%'] := by
      simp only [String.toList_append]
      rw [List.append_assoc]
      rfl
    have htext : (relativePath ++ "/" ++ rest).toList =
        (relativePath ++ "/").toList ++ rest.toList :=
      String.toList_append
    rw [hbelow, hpattern, htext]
    exact likeMatch_prefix _ _

/-- `last_seen_scan_job_id IS NULL OR last_seen_scan_job_id != ?`. -/
def notSeenIn (e : Entry) (scanJobId : Nat) : Bool :=
  e.lastSeenScanJobId != some scanJobId

/-- The assignment the three statements share. -/
def markDeleted (t : EntryTable) (p : Entry → Bool) : EntryTable :=
  t.modify p (fun e => { e with syncState := .deleted })

/-- `markEntriesNotSeenInScanDeleted`. -/
def markEntriesNotSeenInScanDeleted (t : EntryTable) (syncRootId : String)
    (scanJobId : Nat) : EntryTable :=
  markDeleted t (fun e =>
    e.syncRootId == syncRootId && notSeenIn e scanJobId && !e.deleted)

/-- `markPathDeleted`. -/
def markPathDeleted (t : EntryTable) (syncRootId relativePath : String) :
    EntryTable :=
  markDeleted t (fun e =>
    e.syncRootId == syncRootId && !e.deleted && atOrUnder e relativePath)

/-- `markSubtreeEntriesNotSeenInScanDeleted`. -/
def markSubtreeEntriesNotSeenInScanDeleted (t : EntryTable)
    (syncRootId relativePath : String) (scanJobId : Nat) : EntryTable :=
  markDeleted t (fun e =>
    e.syncRootId == syncRootId && !e.deleted && notSeenIn e scanJobId &&
      atOrUnder e relativePath)

/-! ## The rows afterwards -/

section Rows

variable (t : EntryTable)

/-- A marking statement only ever writes `sync_state`. -/
theorem mem_markDeleted (p : Entry → Bool) (e : Entry) :
    e ∈ (markDeleted t p).rows ↔
      ∃ f ∈ t.rows, e = if p f then { f with syncState := .deleted } else f :=
  t.mem_modify p _ _ _ e

/-- The row a marking statement leaves at a path differs from the old one in
`sync_state` at most. -/
theorem findEntryByPath_markDeleted (p : Entry → Bool) (root path : String) :
    EntryRepo.findEntryByPath (markDeleted t p) root path =
      (EntryRepo.findEntryByPath t root path).map
        (fun e => if p e then { e with syncState := .deleted } else e) :=
  t.lookup_modify p _ _ _ (root, path)

/-- A row that a directory or file upsert does not name is still there. -/
theorem findEntryByPath_upsertDirectory_ne (u : DirectoryEntryUpsert)
    {root path : String} (h : (root, path) ≠ (u.syncRootId, u.relativePath)) :
    EntryRepo.findEntryByPath (upsertDirectoryEntry t u) root path =
      EntryRepo.findEntryByPath t root path :=
  t.lookup_upsert_ne _ _ _ _ _ _ _ h

theorem findEntryByPath_upsertFile_ne (u : FileEntryUpsert)
    {root path : String} (h : (root, path) ≠ (u.syncRootId, u.relativePath)) :
    EntryRepo.findEntryByPath (upsertFileEntry t u) root path =
      EntryRepo.findEntryByPath t root path :=
  t.lookup_upsert_ne _ _ _ _ _ _ _ h

/-- The row `upsertDirectoryEntry` leaves at its path. -/
theorem findEntryByPath_upsertDirectory_self (u : DirectoryEntryUpsert) :
    EntryRepo.findEntryByPath (upsertDirectoryEntry t u) u.syncRootId
        u.relativePath =
      some (t.upserted (u.syncRootId, u.relativePath) (newDirectory u)
        (updateDirectory u)) :=
  t.lookup_upsert_self _ _ _ _ _ _ _

/-- The row `upsertFileEntry` leaves at its path. -/
theorem findEntryByPath_upsertFile_self (u : FileEntryUpsert) :
    EntryRepo.findEntryByPath (upsertFileEntry t u) u.syncRootId
        u.relativePath =
      some (t.upserted (u.syncRootId, u.relativePath) (newFile u)
        (updateFile u)) :=
  t.lookup_upsert_self _ _ _ _ _ _ _

end Rows

end LocalEntryRepo

end ArkiveSync
