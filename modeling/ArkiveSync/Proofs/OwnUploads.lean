import ArkiveSync.Library.Runs
import ArkiveSync.Model.LocalEntryRepo
import ArkiveSync.Model.RemoteEntryRepo
import ArkiveSync.Model.SyncPolicy

/-!
# How a remote scan acknowledges an upload of this client

An upload leaves the remote timestamp of the new version open.  The next remote
scan fills it in, but only in a row that never had one and that has a content
hash: a second upload of the same file keeps the timestamp of the first, and a
folder has no content hash at all.

## Main results

* `acknowledged_updateCarrier_iff`: what a row must carry for a listing of its
  object to leave it clean.
* `Round.syncedRemoteUpdatedAt_run`: no later round replaces the timestamp the
  first one recorded.
* `listed_acknowledged_iff`: an upload or a created folder is acknowledged
  exactly when the row had no timestamp and has a content hash, or already had
  the timestamp that is listed.
-/

namespace ArkiveSync.OwnUploads

open Library

/-- What the client records about an object it has just created remotely. -/
inductive Ack where
  | uploaded (remoteId : String) (remoteParentFolderId : Option String)
  | folderCreated (remoteFolderId : String)
      (remoteParentFolderId : Option String)
  deriving DecidableEq, Repr

namespace Ack

/-- The id of the object. -/
def remoteId : Ack → String
  | .uploaded remoteId _ => remoteId
  | .folderCreated remoteFolderId _ => remoteFolderId

/-- `markEntryUploaded` or `markFolderCreated`. -/
def mark (ack : Ack) (t : EntryTable) (entryId : Nat) : EntryTable :=
  match ack with
  | .uploaded remoteId parent =>
      RemoteEntryRepo.markEntryUploaded t entryId remoteId parent
  | .folderCreated remoteFolderId parent =>
      RemoteEntryRepo.markFolderCreated t entryId remoteFolderId parent

/-- The row as either statement leaves it. -/
def row (ack : Ack) (e : Entry) : Entry :=
  match ack with
  | .uploaded remoteId parent =>
      { e with
        remoteId := some remoteId
        remoteFileId := some remoteId
        parentFolderId := parent
        syncedContentHash := e.contentHash
        remoteDeletedAt := none
        localDeletedAt := none
        conflictState := some "none"
        syncState := .unchanged }
  | .folderCreated remoteFolderId parent =>
      { e with
        remoteId := some remoteFolderId
        parentFolderId := parent
        syncState := .unchanged }

end Ack

/-- The row agrees with both sides, and no mode takes the listed object for
somebody else's change. -/
structure Acknowledged (e : Entry) : Prop where
  localClean : (classify e).localDirty = false
  remoteClean : (classify e).remoteDirty = false
  noDownload : ∀ mode, decideEntry mode e ≠ .download
  noConflict : ∀ mode, decideEntry mode e ≠ .conflict

/-- The listing shows the object itself, live and where the row has it. -/
structure Lists (ack : Ack) (e : Entry) (u : RemoteEntryUpsert) : Prop where
  root : u.syncRootId = e.syncRootId
  path : u.localPath = e.relativePath
  remoteId : u.remoteId = ack.remoteId
  live : u.remoteDeletedAt = none

/-- The timestamp the row has already recorded, or a row that has none yet and
a content hash. -/
def TimestampFits (e : Entry) (updatedAt : String) : Prop :=
  e.syncedRemoteUpdatedAt = some updatedAt ∨
    (e.syncedRemoteUpdatedAt = none ∧ e.contentHash.isSome = true)

/-- Present, unchanged since the last synchronisation, and not in conflict. -/
structure Settled (e : Entry) : Prop where
  present : e.localDeletedAt = none
  unchanged : e.contentHash = e.syncedContentHash
  noConflict : (classify e).hasConflict = false

/-- What the row must be before the acknowledgement.  An upload settles the
row by itself. -/
def Acknowledgeable (ack : Ack) (e : Entry) (updatedAt : String) : Prop :=
  match ack with
  | .uploaded _ _ => TimestampFits e updatedAt
  | .folderCreated _ _ => Settled e ∧ TimestampFits e updatedAt

/-! ## One row -/

section Row

variable {e : Entry} {u : RemoteEntryUpsert}

/-- A settled row whose two timestamps agree needs nothing in any mode. -/
theorem acknowledged_of_settled (hs : Settled e)
    (hremote : (classify e).remoteDirty = false) : Acknowledged e := by
  have hlocal : (classify e).localDirty = false := by
    simp [classify, hs.unchanged]
  have hpresent : (classify e).localDeleted = false := by
    simp [classify, hs.present]
  have hexists : (classify e).localExists = true := by
    simp [classify, hs.present]
  have hdecide : ∀ mode, decideEntry mode e ≠ .download ∧
      decideEntry mode e ≠ .conflict := by
    intro mode
    have hconf := hs.noConflict
    unfold decideEntry
    generalize classify e = s at hlocal hremote hpresent hexists hconf
    obtain ⟨le, re, ld, rd, lDirty, rDirty, dir, conf⟩ := s
    dsimp only at hlocal hremote hpresent hexists hconf
    subst hlocal hremote hpresent hexists hconf
    revert re rd dir
    cases mode <;> decide
  exact
    { localClean := hlocal
      remoteClean := hremote
      noDownload := fun mode => (hdecide mode).1
      noConflict := fun mode => (hdecide mode).2 }

/-- A row with a live object that no mode wants to download or to report as a
conflict is settled. -/
theorem settled_of_acknowledged (hid : e.remoteId.isSome = true)
    (hlive : e.remoteDeletedAt = none) (h : Acknowledged e) : Settled e := by
  have hconf : (classify e).hasConflict = false := by
    by_contra hne
    have htrue : (classify e).hasConflict = true := by simpa using hne
    exact h.noConflict .twoWay (decideEntry_of_hasConflict htrue)
  have hpresent : e.localDeletedAt = none := by
    cases hdel : e.localDeletedAt with
    | none => rfl
    | some at_ =>
        have hexists : (classify e).remoteExists = true := by
          simp [classify, hid, hlive]
        have hgone : (classify e).localExists = false := by
          simp [classify, hdel]
        have hrdel : (classify e).remoteDeleted = false := by
          simp [classify, hlive]
        have hdownload : decideEntry .remoteMirror e = .download := by
          simp [decideEntry, SyncPolicy.decide, SyncPolicy.decideRemoteMirror,
            hconf, hexists, hgone, hrdel]
        exact absurd hdownload (h.noDownload .remoteMirror)
  refine { present := hpresent, unchanged := ?_, noConflict := hconf }
  have hlocal := h.localClean
  simpa [classify, hpresent] using hlocal

/-- What a listing of the object leaves of the remote flag. -/
theorem remoteDirty_updateCarrier (hid : e.remoteId.isSome = true)
    (hlive : u.remoteDeletedAt = none)
    (hclean : e.contentHash = e.syncedContentHash) :
    (classify (RemoteEntryRepo.updateCarrier u e)).remoteDirty = false ↔
      TimestampFits e u.remoteUpdatedAt := by
  unfold TimestampFits
  cases hsynced : e.syncedRemoteUpdatedAt with
  | none =>
      cases hhash : e.contentHash with
      | none =>
          simp [classify, RemoteEntryRepo.updateCarrier, hsynced, hhash, hlive]
      | some hash =>
          simp [classify, RemoteEntryRepo.updateCarrier, hsynced, hhash, hid,
            hlive, ← hclean]
  | some at_ =>
      simp only [classify, RemoteEntryRepo.updateCarrier, hsynced, hlive]
      simp only [Option.isSome_none, Bool.not_false, Bool.true_and,
        Option.isNone_some, Bool.false_and, bne_eq_false_iff_eq, reduceCtorEq, false_and, or_false]
      exact eq_comm

theorem settled_updateCarrier :
    Settled (RemoteEntryRepo.updateCarrier u e) ↔ Settled e := by
  constructor
  · intro h
    exact ⟨h.present, h.unchanged, h.noConflict⟩
  · intro h
    exact ⟨h.present, h.unchanged, h.noConflict⟩

/-- A listing of the object at its path leaves the row acknowledged exactly
when the row was settled and the timestamp fits. -/
theorem acknowledged_updateCarrier_iff (hid : e.remoteId.isSome = true)
    (hlive : u.remoteDeletedAt = none) :
    Acknowledged (RemoteEntryRepo.updateCarrier u e) ↔
      Settled e ∧ TimestampFits e u.remoteUpdatedAt := by
  constructor
  · intro h
    have hsettled := settled_updateCarrier.mp
      (settled_of_acknowledged (e := RemoteEntryRepo.updateCarrier u e) hid
        hlive h)
    refine ⟨hsettled, ?_⟩
    exact (remoteDirty_updateCarrier hid hlive hsettled.unchanged).mp
      h.remoteClean
  · rintro ⟨hsettled, hfits⟩
    refine acknowledged_of_settled (settled_updateCarrier.mpr hsettled) ?_
    exact (remoteDirty_updateCarrier hid hlive hsettled.unchanged).mpr hfits

/-- The condition, read off the row that the acknowledgement leaves. -/
theorem acknowledgeable_iff (ack : Ack) (updatedAt : String) :
    Acknowledgeable ack e updatedAt ↔
      Settled (ack.row e) ∧ TimestampFits (ack.row e) updatedAt := by
  cases ack with
  | uploaded remoteId parent =>
      have hsettled : Settled ((Ack.uploaded remoteId parent).row e) :=
        { present := rfl, unchanged := rfl, noConflict := rfl }
      constructor
      · intro h
        exact ⟨hsettled, h⟩
      · intro h
        exact h.2
  | folderCreated remoteFolderId parent =>
      constructor
      · rintro ⟨hs, hfits⟩
        exact ⟨⟨hs.present, hs.unchanged, hs.noConflict⟩, hfits⟩
      · rintro ⟨hs, hfits⟩
        exact ⟨⟨hs.present, hs.unchanged, hs.noConflict⟩, hfits⟩

end Row

/-! ## The table -/

section Table

variable {ack : Ack} {t t' : EntryTable} {e : Entry} {u : RemoteEntryUpsert}

theorem mem_mark (he : e ∈ t.rows) : ack.row e ∈ (ack.mark t e.id).rows := by
  cases ack with
  | uploaded remoteId parent =>
      change _ ∈ (RemoteEntryRepo.markEntryUploaded t e.id remoteId parent).rows
      unfold RemoteEntryRepo.markEntryUploaded
      exact (RemoteEntryRepo.mem_updateById _).mpr ⟨e, he, by simp [Ack.row]⟩
  | folderCreated remoteFolderId parent =>
      change _ ∈
        (RemoteEntryRepo.markFolderCreated t e.id remoteFolderId parent).rows
      unfold RemoteEntryRepo.markFolderCreated
      exact (RemoteEntryRepo.mem_updateById _).mpr ⟨e, he, by simp [Ack.row]⟩

theorem carries_row (hlists : Lists ack e u) :
    RemoteEntryRepo.carries u (ack.row e) = true := by
  rw [RemoteEntryRepo.carries_iff, hlists.root, hlists.remoteId]
  cases ack with
  | uploaded remoteId parent => exact ⟨rfl, rfl⟩
  | folderCreated remoteFolderId parent => exact ⟨rfl, rfl⟩

/-- The row at the path after the acknowledgement and the listing. -/
theorem row_listed (he : e ∈ t.rows) (hlists : Lists ack e u)
    (hu : RemoteEntryRepo.upsertRemoteEntry (ack.mark t e.id) u = some t') :
    EntryRepo.findEntryByPath t' e.syncRootId e.relativePath =
      some (RemoteEntryRepo.updateCarrier u (ack.row e)) := by
  have hc := carries_row hlists
  have hrec := RemoteEntryRepo.updateCarrier_records hc
  rw [EntryRepo.findEntryByPath_eq_some_iff]
  refine ⟨?_, hrec.root.trans hlists.root, hrec.path.trans hlists.path⟩
  have hany : (ack.mark t e.id).rows.any (RemoteEntryRepo.carries u) = true :=
    List.any_eq_true.mpr ⟨ack.row e, mem_mark he, hc⟩
  unfold RemoteEntryRepo.upsertRemoteEntry at hu
  rw [if_pos hany] at hu
  exact (KeyedTable.mem_update hu _).mpr ⟨ack.row e, mem_mark he, by simp [hc]⟩

end Table

/-! ## Many rounds -/

/-- A round of a file: a scan records its content, the client uploads it, and
a remote scan lists the object. -/
structure Round where
  contentHash : String
  remoteId : String
  remoteParentFolderId : Option String
  listed : RemoteEntryUpsert

namespace Round

/-- The row after the round. -/
def row (round : Round) (e : Entry) : Entry :=
  RemoteEntryRepo.updateCarrier round.listed
    ((Ack.uploaded round.remoteId round.remoteParentFolderId).row
      { e with contentHash := some round.contentHash })

/-- The rows that any number of further rounds lead to. -/
def Follows (e f : Entry) : Prop :=
  ∃ round : Round, f = round.row e

/-- A round does not replace a timestamp. -/
theorem syncedRemoteUpdatedAt_row (round : Round) {e : Entry}
    {updatedAt : String} (h : e.syncedRemoteUpdatedAt = some updatedAt) :
    (round.row e).syncedRemoteUpdatedAt = some updatedAt := by
  simp [row, RemoteEntryRepo.updateCarrier, Ack.row, h]

/-- Nor does any number of rounds. -/
theorem syncedRemoteUpdatedAt_run {e f : Entry} {updatedAt : String}
    (hrun : Run Follows e f) (h : e.syncedRemoteUpdatedAt = some updatedAt) :
    f.syncedRemoteUpdatedAt = some updatedAt := by
  have hkeeps : Preserves Follows
      (fun e => e.syncedRemoteUpdatedAt = some updatedAt) := by
    rintro a b ⟨round, rfl⟩ ha
    exact round.syncedRemoteUpdatedAt_row ha
  exact hkeeps.run hrun h

/-- Once a round has recorded a timestamp, a later round is acknowledged only
if it is listed under that same timestamp. -/
theorem acknowledged_run_iff {e f : Entry} {updatedAt : String}
    (hrun : Run Follows e f) (h : e.syncedRemoteUpdatedAt = some updatedAt)
    (round : Round) (hlive : round.listed.remoteDeletedAt = none) :
    Acknowledged (round.row f) ↔ round.listed.remoteUpdatedAt = updatedAt := by
  have hf := syncedRemoteUpdatedAt_run hrun h
  unfold row
  rw [acknowledged_updateCarrier_iff (by rfl) hlive]
  constructor
  · rintro ⟨_, hfits⟩
    rcases hfits with hsame | ⟨hnone, _⟩
    · exact Option.some.inj (hsame.symm.trans hf)
    · have hnone' : f.syncedRemoteUpdatedAt = none := hnone
      rw [hf] at hnone'
      cases hnone'
  · intro hsame
    refine ⟨{ present := rfl, unchanged := rfl, noConflict := rfl }, Or.inl ?_⟩
    rw [hsame]
    exact hf

end Round

/-- After an upload or a folder creation, the next listing of that object
leaves the row clean, with neither a download nor a conflict decided for it,
exactly when the row can be acknowledged. -/
theorem listed_acknowledged_iff {ack : Ack} {t t' : EntryTable} {e : Entry}
    {u : RemoteEntryUpsert} (he : e ∈ t.rows) (hlists : Lists ack e u)
    (hu : RemoteEntryRepo.upsertRemoteEntry (ack.mark t e.id) u = some t') :
    (∃ f, EntryRepo.findEntryByPath t' e.syncRootId e.relativePath = some f ∧
        Acknowledged f) ↔
      Acknowledgeable ack e u.remoteUpdatedAt := by
  have hrow := row_listed he hlists hu
  have hid : (ack.row e).remoteId.isSome = true := by
    cases ack with
    | uploaded remoteId parent => rfl
    | folderCreated remoteFolderId parent => rfl
  rw [acknowledgeable_iff, ← acknowledged_updateCarrier_iff hid hlists.live]
  constructor
  · rintro ⟨f, hf, hack⟩
    have hff := Option.some.inj (hrow.symm.trans hf)
    rw [hff]
    exact hack
  · intro hack
    exact ⟨_, hrow, hack⟩

/-! ## Two rounds of one file -/

namespace TwoRounds

/-- A file before its first upload. -/
def first : Entry :=
  { id := 0, syncRootId := "root", relativePath := "a", isDirectory := false
    size := some 1, mtime := some 1, contentHash := some "h1"
    syncState := .pendingUpload, lastSeenScanJobId := some 1 }

def table (e : Entry) : EntryTable :=
  { rows := [e]
    nextPk := e.id + 1
    pkUnique := List.nodup_singleton _
    pkFresh := by
      intro r hr
      rw [List.mem_singleton.mp hr]
      exact Nat.lt_succ_self _
    keyUnique := List.nodup_singleton _ }

/-- What a remote scan lists after an upload. -/
def listed (remoteId updatedAt : String) : RemoteEntryUpsert :=
  { syncRootId := "root", remoteId := remoteId, localPath := "a"
    remoteType := "file", remoteFileId := some remoteId
    remoteDeletedAt := none, remoteUpdatedAt := updatedAt }

/-- The first round of the file. -/
def round : Round :=
  { contentHash := "h1", remoteId := "A", remoteParentFolderId := some "R"
    listed := listed "A" "t1" }

/-- The row when its second upload is due. -/
def second : Entry :=
  { round.row first with contentHash := some "h2" }

/-- The row after its second upload was listed. -/
def misjudged : Entry :=
  Round.row
    { contentHash := "h2", remoteId := "B", remoteParentFolderId := some "R"
      listed := listed "B" "t2" } second

theorem first_listed :
    RemoteEntryRepo.upsertRemoteEntry
      ((Ack.uploaded "A" (some "R")).mark (table first) 0) (listed "A" "t1") =
      some (table (round.row first)) := rfl

theorem second_listed :
    RemoteEntryRepo.upsertRemoteEntry
      ((Ack.uploaded "B" (some "R")).mark (table second) 0) (listed "B" "t2") =
      some (table misjudged) := rfl

end TwoRounds

/-- The first upload of a file is acknowledged. -/
theorem listed_acknowledged_firstUpload :
    ∃ f, EntryRepo.findEntryByPath
        (TwoRounds.table (TwoRounds.round.row TwoRounds.first)) "root" "a" =
          some f ∧
      Acknowledged f :=
  (listed_acknowledged_iff (e := TwoRounds.first) (List.mem_singleton.mpr rfl)
    { root := rfl, path := rfl, remoteId := rfl, live := rfl }
    TwoRounds.first_listed).mpr (Or.inr ⟨rfl, rfl⟩)

/-- The second one is taken for a change made elsewhere and downloaded. -/
theorem not_listed_acknowledged :
    ¬∀ (ack : Ack) (t t' : EntryTable) (e : Entry) (u : RemoteEntryUpsert),
      e ∈ t.rows → Lists ack e u →
      RemoteEntryRepo.upsertRemoteEntry (ack.mark t e.id) u = some t' →
      ∃ f, EntryRepo.findEntryByPath t' e.syncRootId e.relativePath = some f ∧
        Acknowledged f := by
  intro h
  obtain ⟨f, hf, hack⟩ := h (.uploaded "B" (some "R")) _ _ TwoRounds.second
    (TwoRounds.listed "B" "t2") (List.mem_singleton.mpr rfl)
    { root := rfl, path := rfl, remoteId := rfl, live := rfl }
    TwoRounds.second_listed
  have hrow : EntryRepo.findEntryByPath (TwoRounds.table TwoRounds.misjudged)
      "root" "a" = some TwoRounds.misjudged := rfl
  have heq : f = TwoRounds.misjudged := Option.some.inj (hf.symm.trans hrow)
  subst heq
  exact hack.noDownload .twoWay (by decide)

end ArkiveSync.OwnUploads
