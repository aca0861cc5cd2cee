import ArkiveSync.Model.Entry

/-!
# What remote scans, uploads and downloads write

`RemoteEntryRepo` and `ConflictRepo`.  `upsertRemoteEntry` is a two-step
statement: an `UPDATE` of the row that carries the remote id, and, when there
is none, an `INSERT` that takes over the row at the path.  The `UPDATE`
assigns `local_path`, so the unique index may reject it; the caller then sees
an exception.

## Main results

* `upsertRemoteEntry_self`: an accepted upsert leaves the object's own id,
  deletion mark and timestamp on the row at its path.
* `upsertRemoteEntry_other`: it leaves alone the row of any other path that
  belongs to another remote id or to none.
* `mem_upsertRemoteEntry`: where every row of the new table comes from.
-/

namespace ArkiveSync

open Library

/-- `RemoteEntryUpsert`, the columns some read returns. -/
structure RemoteEntryUpsert where
  syncRootId : String
  remoteId : String
  localPath : String
  remoteType : String
  remoteFileId : Option String
  remoteDeletedAt : Option String
  remoteUpdatedAt : String
  deriving DecidableEq, Repr

namespace RemoteEntryRepo

/-- `sync_root_id = ? AND remote_id = ?`. -/
def carries (u : RemoteEntryUpsert) (e : Entry) : Bool :=
  e.syncRootId == u.syncRootId && e.remoteId == some u.remoteId

/-- `remote_deleted_at` decides the stored state of the object. -/
def remoteSyncState (u : RemoteEntryUpsert) : EntrySyncState :=
  if u.remoteDeletedAt.isSome then .deleted else .unchanged

/-- The `UPDATE` of `upsertRemoteEntry`. -/
def updateCarrier (u : RemoteEntryUpsert) (e : Entry) : Entry :=
  { e with
    relativePath := u.localPath
    isDirectory := u.remoteType == "folder"
    remoteUpdatedAt := some u.remoteUpdatedAt
    remoteFileId := u.remoteFileId
    remoteDeletedAt := u.remoteDeletedAt
    syncedRemoteUpdatedAt :=
      if e.syncedRemoteUpdatedAt.isNone && e.remoteId.isSome &&
          e.contentHash.isSome && e.contentHash == e.syncedContentHash
      then some u.remoteUpdatedAt else e.syncedRemoteUpdatedAt
    syncState := remoteSyncState u }

/-- The `INSERT` of `upsertRemoteEntry`. -/
def newRemote (u : RemoteEntryUpsert) (id : Nat) : Entry :=
  { id := id
    remoteId := some u.remoteId
    syncRootId := u.syncRootId
    relativePath := u.localPath
    isDirectory := u.remoteType == "folder"
    remoteUpdatedAt := some u.remoteUpdatedAt
    remoteFileId := u.remoteFileId
    remoteDeletedAt := u.remoteDeletedAt
    syncState := remoteSyncState u }

/-- Its `DO UPDATE`: the row at the path now belongs to this object. -/
def takeOver (u : RemoteEntryUpsert) (e : Entry) : Entry :=
  { e with
    remoteId := some u.remoteId
    isDirectory := u.remoteType == "folder"
    remoteUpdatedAt := some u.remoteUpdatedAt
    remoteFileId := u.remoteFileId
    remoteDeletedAt := u.remoteDeletedAt
    syncState := remoteSyncState u }

/-- `upsertRemoteEntry`; `none` when the index rejects the `UPDATE`. -/
def upsertRemoteEntry (t : EntryTable) (u : RemoteEntryUpsert) :
    Option EntryTable :=
  if t.rows.any (carries u) then t.update (carries u) (updateCarrier u)
  else
    some (t.upsert (u.syncRootId, u.localPath) (newRemote u) (takeOver u))

/-- The assignment of a statement with `WHERE id = ?`. -/
def updateById (t : EntryTable) (entryId : Nat) (f : Entry → Entry)
    (hid : ∀ e, (f e).id = e.id := by intro e; rfl)
    (hkey : ∀ e, (f e).key = e.key := by intro e; rfl) : EntryTable :=
  t.modify (fun e => e.id == entryId) f hid hkey

/-- `markEntryUploaded`. -/
def markEntryUploaded (t : EntryTable) (entryId : Nat) (remoteId : String)
    (remoteParentFolderId : Option String) : EntryTable :=
  updateById t entryId (fun e =>
    { e with
      remoteId := some remoteId
      remoteFileId := some remoteId
      parentFolderId := remoteParentFolderId
      syncedContentHash := e.contentHash
      remoteDeletedAt := none
      localDeletedAt := none
      conflictState := some "none"
      syncState := .unchanged })

/-- `markEntryDownloaded(entryId)`. -/
def markEntryDownloaded (t : EntryTable) (entryId : Nat) : EntryTable :=
  updateById t entryId (fun e =>
    { e with
      syncedRemoteUpdatedAt := e.remoteUpdatedAt
      syncState := .unchanged })

/-- `markEntryDownloaded(entryId, size, mtime, contentHash)`. -/
def markEntryDownloadedAs (t : EntryTable) (entryId : Nat) (size mtime : Int)
    (contentHash : String) : EntryTable :=
  updateById t entryId (fun e =>
    { e with
      size := some size
      mtime := some mtime
      contentHash := some contentHash
      syncedContentHash := some contentHash
      syncedRemoteUpdatedAt := e.remoteUpdatedAt
      syncState := .unchanged })

/-- `markFolderCreated`. -/
def markFolderCreated (t : EntryTable) (entryId : Nat)
    (remoteFolderId : String) (remoteParentFolderId : Option String) :
    EntryTable :=
  updateById t entryId (fun e =>
    { e with
      remoteId := some remoteFolderId
      parentFolderId := remoteParentFolderId
      syncState := .unchanged })

/-- `markRootRemoteDeleted`; `now` is `CURRENT_TIMESTAMP`. -/
def markRootRemoteDeleted (t : EntryTable) (syncRootId now : String) :
    EntryTable :=
  t.modify (fun e => e.syncRootId == syncRootId) (fun e =>
    { e with
      syncState := .deleted
      localDeletedAt := some (e.localDeletedAt.getD now)
      remoteDeletedAt := some (e.remoteDeletedAt.getD now)
      syncedRemoteUpdatedAt := e.remoteUpdatedAt
      conflictState := some "none" })

end RemoteEntryRepo

/-- `ConflictRepo::markConflict`. -/
def ConflictRepo.markConflict (t : EntryTable) (entryId : Nat)
    (state : String) : EntryTable :=
  RemoteEntryRepo.updateById t entryId (fun e =>
    { e with conflictState := some state })

namespace RemoteEntryRepo

/-! ## The remote upsert -/

/-- What a remote scan wrote about an object is on the row. -/
structure Records (u : RemoteEntryUpsert) (e : Entry) : Prop where
  root : e.syncRootId = u.syncRootId
  path : e.relativePath = u.localPath
  remoteId : e.remoteId = some u.remoteId
  remoteFileId : e.remoteFileId = u.remoteFileId
  deletedAt : e.remoteDeletedAt = u.remoteDeletedAt
  updatedAt : e.remoteUpdatedAt = some u.remoteUpdatedAt
  directory : e.isDirectory = (u.remoteType == "folder")

theorem carries_iff (u : RemoteEntryUpsert) (e : Entry) :
    carries u e = true ↔
      e.syncRootId = u.syncRootId ∧ e.remoteId = some u.remoteId := by
  simp [carries]

theorem updateCarrier_records {u : RemoteEntryUpsert} {e : Entry}
    (h : carries u e = true) : Records u (updateCarrier u e) := by
  obtain ⟨hroot, hid⟩ := (carries_iff u e).mp h
  exact
    { root := hroot, path := rfl, remoteId := hid, remoteFileId := rfl
      deletedAt := rfl, updatedAt := rfl, directory := rfl }

theorem updateCarrier_key (u : RemoteEntryUpsert) (e : Entry)
    (h : carries u e = true) :
    (updateCarrier u e).key = (u.syncRootId, u.localPath) := by
  have hrec := updateCarrier_records h
  simp [Entry.key, hrec.root, hrec.path]

theorem newRemote_records (u : RemoteEntryUpsert) (id : Nat) :
    Records u (newRemote u id) :=
  { root := rfl, path := rfl, remoteId := rfl, remoteFileId := rfl
    deletedAt := rfl, updatedAt := rfl, directory := rfl }

theorem takeOver_records {u : RemoteEntryUpsert} {e : Entry}
    (hroot : e.syncRootId = u.syncRootId) (hpath : e.relativePath = u.localPath) :
    Records u (takeOver u e) :=
  { root := hroot, path := hpath, remoteId := rfl, remoteFileId := rfl
    deletedAt := rfl, updatedAt := rfl, directory := rfl }

variable {t t' : EntryTable} {u : RemoteEntryUpsert}

/-- Where a row of the new table comes from. -/
theorem mem_upsertRemoteEntry (h : upsertRemoteEntry t u = some t')
    (e : Entry) (he : e ∈ t'.rows) :
    (∃ f ∈ t.rows, carries u f = true ∧ e = updateCarrier u f) ∨
    (∃ f ∈ t.rows, f.key = (u.syncRootId, u.localPath) ∧ e = takeOver u f) ∨
    (e = newRemote u t.nextPk ∧
      ∀ f ∈ t.rows, f.key ≠ (u.syncRootId, u.localPath)) ∨
    (e ∈ t.rows ∧ carries u e = false ∧
      e.key ≠ (u.syncRootId, u.localPath)) := by
  unfold upsertRemoteEntry at h
  split at h
  next hany =>
      obtain ⟨f, hf, rfl⟩ := (KeyedTable.mem_update h e).mp he
      by_cases hc : carries u f = true
      · exact Or.inl ⟨f, hf, hc, by simp [hc]⟩
      · simp only [hc]
        refine Or.inr (Or.inr (Or.inr ⟨hf, by simpa using hc, ?_⟩))
        obtain ⟨c, hcmem, hcc⟩ := List.any_eq_true.mp hany
        intro hkey
        have hfc : f = c := by
          exact KeyedTable.update_key_free h (updateCarrier_key u) hcmem hcc
            hf hkey
        rw [hfc] at hc
        exact hc hcc
  next hany =>
      have hnone : ∀ f ∈ t.rows, carries u f = false := by
        intro f hf
        cases hc : carries u f with
        | false => rfl
        | true => exact absurd (List.any_eq_true.mpr ⟨f, hf, hc⟩) hany
      cases h
      rcases (t.mem_upsert _ _ _ _ _ _ _ e).mp he with rfl | ⟨he, hkey⟩
      · cases hl : t.lookup (u.syncRootId, u.localPath) with
        | none =>
            rw [KeyedTable.upserted_of_none hl]
            exact Or.inr (Or.inr (Or.inl
              ⟨rfl, (t.lookup_eq_none_iff _).mp hl⟩))
        | some f =>
            rw [KeyedTable.upserted_of_some hl]
            exact Or.inr (Or.inl ⟨f, KeyedTable.mem_of_lookup hl,
              KeyedTable.key_of_lookup hl, rfl⟩)
      · exact Or.inr (Or.inr (Or.inr ⟨he, hnone e he, hkey⟩))

/-- After an accepted upsert the row at the path records the object. -/
theorem upsertRemoteEntry_self (h : upsertRemoteEntry t u = some t') :
    ∃ e, EntryRepo.findEntryByPath t' u.syncRootId u.localPath = some e ∧
      Records u e := by
  unfold upsertRemoteEntry at h
  split at h
  next hany =>
      obtain ⟨c, hc, hcc⟩ := List.any_eq_true.mp hany
      have hrec := updateCarrier_records hcc
      refine ⟨updateCarrier u c, ?_, hrec⟩
      rw [EntryRepo.findEntryByPath_eq_some_iff]
      refine ⟨(KeyedTable.mem_update h _).mpr ⟨c, hc, ?_⟩, hrec.root, hrec.path⟩
      rw [if_pos hcc]
  next =>
      cases h
      refine ⟨_, t.lookup_upsert_self _ _ _ _ _ _ _, ?_⟩
      cases hl : t.lookup (u.syncRootId, u.localPath) with
      | none =>
          rw [KeyedTable.upserted_of_none hl]
          exact newRemote_records u t.nextPk
      | some f =>
          rw [KeyedTable.upserted_of_some hl]
          have hkey := KeyedTable.key_of_lookup hl
          simp only [Entry.key, Prod.mk.injEq] at hkey
          exact takeOver_records hkey.1 hkey.2

/-- A row at another path that belongs to another object, or to none, is not
touched. -/
theorem upsertRemoteEntry_other (h : upsertRemoteEntry t u = some t')
    {e : Entry} (he : e ∈ t.rows) (hc : carries u e = false)
    (hkey : e.key ≠ (u.syncRootId, u.localPath)) : e ∈ t'.rows := by
  unfold upsertRemoteEntry at h
  split at h
  next => exact (KeyedTable.mem_update h e).mpr ⟨e, he, by simp [hc]⟩
  next =>
      cases h
      exact (t.mem_upsert _ _ _ _ _ _ _ e).mpr (Or.inr ⟨he, hkey⟩)

/-- Every old row is still there, rewritten in one of two ways or not at
all. -/
theorem survives_upsertRemoteEntry (h : upsertRemoteEntry t u = some t')
    {e : Entry} (he : e ∈ t.rows) :
    e ∈ t'.rows ∨ (carries u e = true ∧ updateCarrier u e ∈ t'.rows) ∨
      (e.key = (u.syncRootId, u.localPath) ∧ takeOver u e ∈ t'.rows) := by
  unfold upsertRemoteEntry at h
  split at h
  next =>
      have hmem := (KeyedTable.mem_update h _).mpr ⟨e, he, rfl⟩
      split at hmem
      next hc => exact Or.inr (Or.inl ⟨hc, hmem⟩)
      next => exact Or.inl hmem
  next =>
      cases h
      have hmem := t.survives_upsert (u.syncRootId, u.localPath) (newRemote u)
        (takeOver u) (by intro n; rfl) (by intro n; rfl) (by intro r; rfl)
        (by intro r; rfl) he
      split at hmem
      next hk => exact Or.inr (Or.inr ⟨hk, hmem⟩)
      next => exact Or.inl hmem

/-- The upsert is accepted whenever the path is free or already belongs to the
object, and no two rows carry its id. -/
theorem upsertRemoteEntry_isSome
    (hone : ∀ e ∈ t.rows, carries u e = true → ∀ f ∈ t.rows,
      carries u f = true ∨ f.key = (u.syncRootId, u.localPath) → f = e) :
    (upsertRemoteEntry t u).isSome := by
  unfold upsertRemoteEntry
  split
  next hany =>
      obtain ⟨c, hc, hcc⟩ := List.any_eq_true.mp hany
      exact KeyedTable.update_isSome_of_single (updateCarrier_key u)
        (fun f hf hfc => hone c hc hcc f hf (Or.inl hfc))
        (fun f hf hfk => hone c hc hcc f hf (Or.inr hfk))
  next => rfl

/-! ## Statements that name a row by its id -/

section ById

variable {entryId : Nat} {f : Entry → Entry} {hid : ∀ e, (f e).id = e.id}
  {hkey : ∀ e, (f e).key = e.key}

theorem mem_updateById (e : Entry) :
    e ∈ (updateById t entryId f hid hkey).rows ↔
      ∃ g ∈ t.rows, e = if g.id = entryId then f g else g := by
  unfold updateById
  rw [t.mem_modify]
  simp only [beq_iff_eq]

theorem findEntryByPath_updateById (root path : String) :
    EntryRepo.findEntryByPath (updateById t entryId f hid hkey) root path =
      (EntryRepo.findEntryByPath t root path).map
        (fun e => if e.id = entryId then f e else e) := by
  unfold updateById EntryRepo.findEntryByPath
  rw [t.lookup_modify]
  simp only [beq_iff_eq]

/-- The named row after the statement. -/
theorem findEntryByPath_updateById_self {root path : String} {g : Entry}
    (hg : EntryRepo.findEntryByPath t root path = some g)
    (hgid : g.id = entryId) :
    EntryRepo.findEntryByPath (updateById t entryId f hid hkey) root path =
      some (f g) := by
  rw [findEntryByPath_updateById, hg]
  simp [hgid]

/-- Any other row is not touched. -/
theorem findEntryByPath_updateById_other {root path : String} {g : Entry}
    (hg : EntryRepo.findEntryByPath t root path = some g)
    (hgid : g.id ≠ entryId) :
    EntryRepo.findEntryByPath (updateById t entryId f hid hkey) root path =
      some g := by
  rw [findEntryByPath_updateById, hg]
  simp [hgid]

/-- A statement that assigns what is there. -/
theorem updateById_of_fixed
    (h : ∀ e ∈ t.rows, e.id = entryId → f e = e) :
    updateById t entryId f hid hkey = t := by
  apply t.modify_of_fixed
  intro e he hsame
  exact h e he (by simpa using hsame)

/-- A statement that does not assign an attribute. -/
theorem keeps_updateById {β : Type} {attr : Entry → β} (entryId : Nat)
    {f : Entry → Entry} {hid : ∀ e, (f e).id = e.id}
    {hkey : ∀ e, (f e).key = e.key} (hattr : ∀ e, attr (f e) = attr e) :
    KeyedTable.Keeps attr t (updateById t entryId f hid hkey) :=
  t.keeps_modify _ f hid hkey hattr

end ById

/-- A remote upsert keeps every attribute that its assignments keep. -/
theorem keeps_upsertRemoteEntry {β : Type} {attr : Entry → β}
    (h : upsertRemoteEntry t u = some t')
    (hupdate : ∀ e, attr (updateCarrier u e) = attr e)
    (htake : ∀ e, attr (takeOver u e) = attr e) :
    KeyedTable.Keeps attr t t' := by
  unfold upsertRemoteEntry at h
  split at h
  next => exact KeyedTable.keeps_update h hupdate
  next =>
      cases h
      exact t.keeps_upsert _ _ _ _ _ _ _ htake

end RemoteEntryRepo

end ArkiveSync
