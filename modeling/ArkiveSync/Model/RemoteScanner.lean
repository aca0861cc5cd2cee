import ArkiveSync.Library.FsPath
import ArkiveSync.Library.LastWriter
import ArkiveSync.Model.ArkiveApi
import ArkiveSync.Model.RemoteEntryRepo
import ArkiveSync.Model.SyncPolicy

/-!
# Scanning a remote folder

`RemoteScanner::scanFolder` asks for the listing of a folder once, upserts a
row for every entry it can name, and goes on into every live folder.  The
server may answer anything, so nothing bounds the recursion; here it has fuel,
and running out of fuel is an outcome of its own.

Decryption is a parameter.  A scan also keeps the log of the upserts the table
accepted, in order; the log is not part of the program.

## Main results

* `scanFolder_log`: whatever happens, the table a scan leaves is the old one
  with the logged upserts applied.
* `scanFolder_follows`: when every listed name decrypts, the upserts of a scan
  that returns are fixed by the listings, whatever the table holds.
* `upsertRemoteEntry_view`: seen through the columns a scan writes, an
  accepted upsert is one write of an owner to a place.
* `view_applyAll`: hence a batch of them leaves at each path the last object
  written there.
-/

namespace ArkiveSync

open Library

/-- What `decryptEntryName` needs of the vault, the account and the crypto
library.  Plaintexts are text; `none` is an exception. -/
structure NameVault where
  unlocked : Bool
  userId : Option String
  folderPlaintext : String → Option String
  filePlaintext : (userId remoteId fileKey metadata : String) → Option String
  parseJson : String → Option Json

/-- How a remote scan ends. -/
inductive ScanStatus where
  | returned
  | threw
  | exhausted
  deriving DecidableEq, Repr

/-- A scan's result: the table, the accepted upserts, and how it ended. -/
structure Scanned where
  entries : EntryTable
  upserts : List RemoteEntryUpsert
  status : ScanStatus

/-- Go on from a scan that returned. -/
def Scanned.andThen (first : Scanned) (next : EntryTable → Scanned) :
    Scanned :=
  match first.status with
  | .returned =>
      let rest := next first.entries
      { rest with upserts := first.upserts ++ rest.upserts }
  | _ => first

namespace RemoteScanner

/-- `json.contains("name") && json["name"].is_string()`. -/
def nameOfJson (json : Json) : Option String :=
  match json.field? "name" with
  | some (.string name) => some name
  | _ => none

/-- `decryptEntryName`; the outer `none` is an exception. -/
def decryptEntryName (v : NameVault) (entry : SyncEntryResponse) :
    Option (Option String) :=
  if entry.type == "folder" && (entry.encryptedName.getD "").isEmpty then
    some none
  else if !v.unlocked then none
  else
    let read (plaintext : Option String) : Option (Option String) :=
      (plaintext.bind v.parseJson).map nameOfJson
    if entry.type == "folder" then
      read (v.folderPlaintext (entry.encryptedName.getD ""))
    else
      match entry.type == "file", entry.encryptedMetadata,
          entry.encryptedFileKey with
      | true, some metadata, some fileKey =>
          let userId := v.userId.getD ""
          if userId.isEmpty then some none
          else read (v.filePlaintext userId entry.remoteId fileKey metadata)
      | _, _, _ => some none

/-- `localParentPath / path(name)` as stored text. -/
def joinName (parent : FsPath) (name : String) : String :=
  (parent.append (FsPath.parse name)).genericString

/-- The path of an entry: from its name, else the one its row has. -/
def localPathOf (parent : FsPath) (name : Option String)
    (existing : Option Entry) : Option String :=
  match name with
  | some name => some (joinName parent name)
  | none =>
      match existing with
      | some row => if row.relativePath.isEmpty then none else row.relativePath
      | none => none

/-- The statement a scan issues for an entry at a path. -/
def upsertOf (syncRootId localPath : String) (entry : SyncEntryResponse) :
    RemoteEntryUpsert :=
  { syncRootId := syncRootId
    remoteId := entry.remoteId
    localPath := localPath
    remoteType := entry.type
    remoteFileId := entry.remoteFileId
    remoteDeletedAt := entry.deletedAt
    remoteUpdatedAt := entry.updatedAt }

/-- The folder to go on into, for a live folder. -/
def subfolder (entry : SyncEntryResponse) : Option String :=
  if entry.type == "folder" && entry.deletedAt.isNone then entry.remoteFolderId
  else none

/-- Issue one upsert; a rejected one throws. -/
def issue (u : RemoteEntryUpsert) (t : EntryTable) : Scanned :=
  match RemoteEntryRepo.upsertRemoteEntry t u with
  | none => { entries := t, upserts := [], status := .threw }
  | some t' => { entries := t', upserts := [u], status := .returned }

/-- The scan of one folder, given its id and local path. -/
abbrev FolderScan := Option String → FsPath → EntryTable → Scanned

/-- One turn of the loop of `scanFolder`. -/
def scanEntry (v : NameVault) (syncRootId : String) (sub : FolderScan)
    (parent : FsPath) (entry : SyncEntryResponse) (t : EntryTable) : Scanned :=
  let existing := EntryRepo.findEntryByRemoteId t syncRootId entry.remoteId
  match decryptEntryName v entry with
  | none => { entries := t, upserts := [], status := .threw }
  | some name =>
      match localPathOf parent name existing with
      | none => { entries := t, upserts := [], status := .returned }
      | some localPath =>
          let here := issue (upsertOf syncRootId localPath entry) t
          match subfolder entry with
          | none => here
          | some folderId =>
              here.andThen (sub (some folderId) (FsPath.parse localPath))

/-- The loop of `scanFolder` over the entries still to come. -/
def scanEntries (v : NameVault) (syncRootId : String) (sub : FolderScan)
    (parent : FsPath) : List SyncEntryResponse → EntryTable → Scanned
  | [], t => { entries := t, upserts := [], status := .returned }
  | entry :: rest, t =>
      (scanEntry v syncRootId sub parent entry t).andThen
        (scanEntries v syncRootId sub parent rest)

/-- `fetchEntries`. -/
def fetchEntries (getJson : String → Option Json) (folderId : Option String) :
    Option ListSyncEntriesResponse :=
  ArkiveApi.listSyncEntries getJson folderId true

/-- `scanFolder`. -/
def scanFolder (getJson : String → Option Json) (v : NameVault)
    (syncRootId : String) : Nat → FolderScan
  | 0, _, _, t => { entries := t, upserts := [], status := .exhausted }
  | fuel + 1, folderId, parent, t =>
      match fetchEntries getJson folderId with
      | none => { entries := t, upserts := [], status := .threw }
      | some response =>
          scanEntries v syncRootId (scanFolder getJson v syncRootId fuel) parent
            response.entries t

/-- `scanRoot` of a root that exists. -/
def scanRoot (getJson : String → Option Json) (v : NameVault)
    (root : SyncRoot) (fuel : Nat) (t : EntryTable) : Scanned :=
  scanFolder getJson v root.id fuel
    (if root.folderId.isEmpty then none else some root.folderId)
    (FsPath.parse "") t

/-- `isRootDeleted`; `none` is the exception of the listing. -/
def isRootDeleted (getJson : String → Option Json) (root : SyncRoot) :
    Option Bool :=
  if root.folderId.isEmpty then some false
  else
    (fetchEntries getJson none).map (fun response =>
      match response.entries.find? (fun entry =>
          entry.remoteId == root.folderId ||
            entry.remoteFolderId == some root.folderId) with
      | some entry => entry.deletedAt.isSome
      | none => false)

/-! ## The log of a scan -/

/-- Apply upserts in order; `none` when the table rejects one. -/
def applyAll (us : List RemoteEntryUpsert) (t : EntryTable) :
    Option EntryTable :=
  us.foldlM RemoteEntryRepo.upsertRemoteEntry t

@[simp] theorem applyAll_nil (t : EntryTable) : applyAll [] t = some t := rfl

@[simp] theorem applyAll_cons (u : RemoteEntryUpsert)
    (us : List RemoteEntryUpsert) (t : EntryTable) :
    applyAll (u :: us) t =
      (RemoteEntryRepo.upsertRemoteEntry t u).bind (applyAll us) := by
  unfold applyAll
  rw [List.foldlM_cons]
  rfl

theorem applyAll_append (us vs : List RemoteEntryUpsert) (t : EntryTable) :
    applyAll (us ++ vs) t = (applyAll us t).bind (applyAll vs) := by
  unfold applyAll
  rw [List.foldlM_append]
  rfl

/-- A scan and what follows it return when both do. -/
theorem andThen_returned_iff (first : Scanned) (next : EntryTable → Scanned) :
    (first.andThen next).status = .returned ↔
      first.status = .returned ∧ (next first.entries).status = .returned := by
  unfold Scanned.andThen
  split
  next h => simp [h]
  next h =>
      constructor
      · intro hret; exact absurd hret h
      · rintro ⟨hret, _⟩; exact absurd hret h

theorem andThen_entries {first : Scanned} (next : EntryTable → Scanned)
    (h : first.status = .returned) :
    (first.andThen next).entries = (next first.entries).entries := by
  unfold Scanned.andThen
  rw [h]

/-- The entry names itself as its file, as every decoded one does. -/
def OwnFile (entry : SyncEntryResponse) : Prop :=
  ∀ fileId, entry.remoteFileId = some fileId → fileId = entry.remoteId

/-- What holds of every upsert of a scan of the root. -/
structure Issued (syncRootId : String) (u : RemoteEntryUpsert) : Prop where
  root : u.syncRootId = syncRootId
  ownFile : ∀ fileId, u.remoteFileId = some fileId → fileId = u.remoteId

/-- The table of a scan is the old one with the log applied. -/
structure Logged (syncRootId : String) (t : EntryTable) (r : Scanned) :
    Prop where
  table : applyAll r.upserts t = some r.entries
  issued : ∀ u ∈ r.upserts, Issued syncRootId u

theorem Logged.still (syncRootId : String) (t : EntryTable)
    (status : ScanStatus) :
    Logged syncRootId t { entries := t, upserts := [], status := status } :=
  { table := rfl, issued := by simp }

theorem Logged.andThen {syncRootId : String} {t : EntryTable}
    {first : Scanned} {next : EntryTable → Scanned}
    (h : Logged syncRootId t first)
    (hnext : Logged syncRootId first.entries (next first.entries)) :
    Logged syncRootId t (first.andThen next) := by
  unfold Scanned.andThen
  split
  next =>
      refine { table := ?_, issued := ?_ }
      · rw [applyAll_append, h.table]
        exact hnext.table
      · intro u hu
        rcases List.mem_append.mp hu with hu | hu
        · exact h.issued u hu
        · exact hnext.issued u hu
  next => exact h

theorem issue_logged {syncRootId : String} {u : RemoteEntryUpsert}
    (hu : Issued syncRootId u) (t : EntryTable) :
    Logged syncRootId t (issue u t) := by
  unfold issue
  split
  next => exact .still _ _ _
  next t' ht' => exact { table := by simp [ht'], issued := by simpa using hu }

theorem scanEntry_logged {v : NameVault} {syncRootId : String}
    {sub : FolderScan}
    (hsub : ∀ folderId parent t, Logged syncRootId t (sub folderId parent t))
    (parent : FsPath) {entry : SyncEntryResponse} (hentry : OwnFile entry)
    (t : EntryTable) :
    Logged syncRootId t (scanEntry v syncRootId sub parent entry t) := by
  unfold scanEntry
  simp only
  split
  next => exact .still _ _ _
  next =>
      split
      next => exact .still _ _ _
      next localPath _ =>
          have hissued : Issued syncRootId
              (upsertOf syncRootId localPath entry) :=
            { root := rfl, ownFile := hentry }
          have hhere := issue_logged hissued t
          split
          next => exact hhere
          next => exact hhere.andThen (hsub _ _ _)

theorem scanEntries_logged {v : NameVault} {syncRootId : String}
    {sub : FolderScan}
    (hsub : ∀ folderId parent t, Logged syncRootId t (sub folderId parent t))
    (parent : FsPath) {entries : List SyncEntryResponse}
    (hentries : ∀ entry ∈ entries, OwnFile entry) (t : EntryTable) :
    Logged syncRootId t
      (scanEntries v syncRootId sub parent entries t) := by
  induction entries generalizing t with
  | nil => exact .still _ _ _
  | cons entry rest ih =>
      have hfirst := scanEntry_logged (v := v) hsub parent
        (hentries entry (by simp)) t
      exact hfirst.andThen (ih (fun e he => hentries e (by simp [he])) _)

/-- Whatever the server answers, the table a scan leaves is the old one with
the logged upserts applied. -/
theorem scanFolder_log (getJson : String → Option Json) (v : NameVault)
    (syncRootId : String) (fuel : Nat) (folderId : Option String)
    (parent : FsPath) (t : EntryTable) :
    Logged syncRootId t
      (scanFolder getJson v syncRootId fuel folderId parent t) := by
  induction fuel generalizing folderId parent t with
  | zero => exact .still _ _ _
  | succ fuel ih =>
      simp only [scanFolder]
      split
      next => exact .still _ _ _
      next response hresponse =>
          exact scanEntries_logged ih parent (fun entry hentry _ hfile =>
            ArkiveApi.listSyncEntries_fileId hresponse hentry hfile) t

theorem scanRoot_log (getJson : String → Option Json) (v : NameVault)
    (root : SyncRoot) (fuel : Nat) (t : EntryTable) :
    Logged root.id t (scanRoot getJson v root fuel t) :=
  scanFolder_log getJson v root.id fuel _ _ t

/-- What every accepted upsert of the root preserves, a scan preserves. -/
theorem scanRoot_induction {P : EntryTable → Prop}
    (getJson : String → Option Json) (v : NameVault) (root : SyncRoot)
    (fuel : Nat) {t : EntryTable} (ht : P t)
    (hstep : ∀ u, Issued root.id u → ∀ t t', P t →
      RemoteEntryRepo.upsertRemoteEntry t u = some t' → P t') :
    P (scanRoot getJson v root fuel t).entries := by
  obtain ⟨htable, hissued⟩ := scanRoot_log getJson v root fuel t
  generalize scanRoot getJson v root fuel t = r at htable hissued
  generalize r.upserts = us at htable hissued
  induction us generalizing t with
  | nil =>
      cases htable
      exact ht
  | cons u us ih =>
      rw [applyAll_cons] at htable
      obtain ⟨t', ht', hrest⟩ := Option.bind_eq_some_iff.mp htable
      exact ih (hstep u (hissued u (by simp)) t t' ht ht') hrest
        (fun w hw => hissued w (by simp [hw]))

/-! ## Scans whose names all decrypt -/

/-- The name an entry decrypts to. -/
def entryName (v : NameVault) (entry : SyncEntryResponse) : Option String :=
  (decryptEntryName v entry).join

/-- The upserts for an entry and what lies under it. -/
def visitEntry (v : NameVault) (syncRootId : String)
    (sub : Option String → FsPath → List RemoteEntryUpsert) (parent : FsPath)
    (entry : SyncEntryResponse) : List RemoteEntryUpsert :=
  match entryName v entry with
  | none => []
  | some name =>
      let localPath := joinName parent name
      upsertOf syncRootId localPath entry ::
        match subfolder entry with
        | none => []
        | some folderId => sub (some folderId) (FsPath.parse localPath)

/-- The upserts of a scan, read off the listings alone. -/
def visitFolder (getJson : String → Option Json) (v : NameVault)
    (syncRootId : String) : Nat → Option String → FsPath →
      List RemoteEntryUpsert
  | 0, _, _ => []
  | fuel + 1, folderId, parent =>
      match fetchEntries getJson folderId with
      | none => []
      | some response =>
          response.entries.flatMap
            (visitEntry v syncRootId (visitFolder getJson v syncRootId fuel)
              parent)

/-- The listings of the folder and of every live folder under it arrive, the
recursion ends, and every listed name decrypts. -/
def Readable (getJson : String → Option Json) (v : NameVault) :
    Nat → Option String → Prop
  | 0, _ => False
  | fuel + 1, folderId =>
      ∃ response, fetchEntries getJson folderId = some response ∧
        ∀ entry ∈ response.entries,
          (∃ name, decryptEntryName v entry = some (some name)) ∧
          ∀ sub, subfolder entry = some sub →
            Readable getJson v fuel (some sub)

/-- The scan issues exactly these upserts: it returns when the table accepts
them all, and then leaves the table with all of them applied. -/
structure Follows (scan : EntryTable → Scanned)
    (visits : List RemoteEntryUpsert) : Prop where
  returned : ∀ t, (scan t).status = .returned ↔ (applyAll visits t).isSome
  table : ∀ t, (scan t).status = .returned →
    applyAll visits t = some (scan t).entries

theorem Follows.andThen {scan next : EntryTable → Scanned}
    {us vs : List RemoteEntryUpsert} (h : Follows scan us)
    (hnext : Follows next vs) :
    Follows (fun t => (scan t).andThen next) (us ++ vs) := by
  refine { returned := ?_, table := ?_ }
  · intro t
    rw [andThen_returned_iff, applyAll_append, hnext.returned]
    constructor
    · rintro ⟨hret, hrest⟩
      rw [h.table t hret]
      exact hrest
    · intro hsome
      have hret : (scan t).status = .returned := by
        rw [h.returned]
        cases hus : applyAll us t with
        | none => rw [hus] at hsome; cases hsome
        | some t' => rfl
      refine ⟨hret, ?_⟩
      rw [h.table t hret] at hsome
      exact hsome
  · intro t hret
    obtain ⟨hfirst, hrest⟩ := (andThen_returned_iff _ _).mp hret
    rw [applyAll_append, h.table t hfirst, andThen_entries _ hfirst]
    exact hnext.table _ hrest

theorem Follows.issue (u : RemoteEntryUpsert) :
    Follows (RemoteScanner.issue u) [u] := by
  refine { returned := ?_, table := ?_ }
  · intro t
    unfold RemoteScanner.issue
    split
    next h => simp [h]
    next h => simp [h]
  · intro t
    unfold RemoteScanner.issue
    split
    next => intro h; cases h
    next t' h => intro _; simp [h]

theorem scanEntry_follows {v : NameVault} {syncRootId : String}
    {sub : FolderScan} {subVisits : Option String → FsPath →
      List RemoteEntryUpsert} {parent : FsPath} {entry : SyncEntryResponse}
    (hname : ∃ name, decryptEntryName v entry = some (some name))
    (hsub : ∀ folderId, subfolder entry = some folderId → ∀ path,
      Follows (sub (some folderId) path) (subVisits (some folderId) path)) :
    Follows (scanEntry v syncRootId sub parent entry)
      (visitEntry v syncRootId subVisits parent entry) := by
  obtain ⟨name, hname⟩ := hname
  have hentry : entryName v entry = some name := by simp [entryName, hname]
  have hissue := Follows.issue (upsertOf syncRootId (joinName parent name) entry)
  unfold visitEntry
  rw [hentry]
  simp only
  cases hfolder : subfolder entry with
  | none =>
      have heq : scanEntry v syncRootId sub parent entry =
          issue (upsertOf syncRootId (joinName parent name) entry) := by
        funext t
        simp only [scanEntry, hname, localPathOf, hfolder]
      rw [heq]
      exact hissue
  | some folderId =>
      have heq : scanEntry v syncRootId sub parent entry = fun t =>
          (issue (upsertOf syncRootId (joinName parent name) entry) t).andThen
            (sub (some folderId) (FsPath.parse (joinName parent name))) := by
        funext t
        simp only [scanEntry, hname, localPathOf, hfolder]
      rw [heq]
      exact hissue.andThen (hsub folderId hfolder _)

theorem scanEntries_follows {v : NameVault} {syncRootId : String}
    {sub : FolderScan} {subVisits : Option String → FsPath →
      List RemoteEntryUpsert} {parent : FsPath}
    {entries : List SyncEntryResponse}
    (hname : ∀ entry ∈ entries,
      ∃ name, decryptEntryName v entry = some (some name))
    (hsub : ∀ entry ∈ entries, ∀ folderId, subfolder entry = some folderId →
      ∀ path, Follows (sub (some folderId) path)
        (subVisits (some folderId) path)) :
    Follows (scanEntries v syncRootId sub parent entries)
      (entries.flatMap (visitEntry v syncRootId subVisits parent)) := by
  induction entries with
  | nil =>
      refine { returned := ?_, table := ?_ }
      · intro t; simp [scanEntries]
      · intro t _; rfl
  | cons entry rest ih =>
      have hfirst : Follows (scanEntry v syncRootId sub parent entry)
          (visitEntry v syncRootId subVisits parent entry) :=
        scanEntry_follows (hname entry (by simp)) (hsub entry (by simp))
      have hrest := ih (fun e he => hname e (by simp [he]))
        (fun e he => hsub e (by simp [he]))
      rw [List.flatMap_cons]
      exact hfirst.andThen hrest

/-- A scan whose names all decrypt issues the upserts its listings spell
out. -/
theorem scanFolder_follows {getJson : String → Option Json} {v : NameVault}
    (syncRootId : String) (fuel : Nat) (folderId : Option String)
    (parent : FsPath) (h : Readable getJson v fuel folderId) :
    Follows (scanFolder getJson v syncRootId fuel folderId parent)
      (visitFolder getJson v syncRootId fuel folderId parent) := by
  induction fuel generalizing folderId parent with
  | zero => exact absurd h (by simp [Readable])
  | succ fuel ih =>
      obtain ⟨response, hresponse, hentries⟩ := h
      have heq : scanFolder getJson v syncRootId (fuel + 1) folderId parent =
          scanEntries v syncRootId (scanFolder getJson v syncRootId fuel)
            parent response.entries := by
        funext t
        simp only [scanFolder, hresponse]
      have hvisit : visitFolder getJson v syncRootId (fuel + 1) folderId
          parent = response.entries.flatMap (visitEntry v syncRootId
            (visitFolder getJson v syncRootId fuel) parent) := by
        simp only [visitFolder, hresponse]
      rw [heq, hvisit]
      exact scanEntries_follows (fun e he => (hentries e he).1)
        (fun e he sub hsub path => ih (some sub) path ((hentries e he).2 sub hsub))

/-! ## The table as a directory of remote objects -/

/-- The columns of a row that a remote scan writes. -/
structure RemoteView where
  remoteId : Option String
  remoteFileId : Option String
  deletedAt : Option String
  updatedAt : Option String
  deriving DecidableEq, Repr

/-- What a row says about its remote object. -/
def remoteView (e : Entry) : RemoteView :=
  { remoteId := e.remoteId
    remoteFileId := e.remoteFileId
    deletedAt := e.remoteDeletedAt
    updatedAt := e.remoteUpdatedAt }

/-- The rows of a root by path, reduced to those columns. -/
def viewOf (t : EntryTable) (syncRootId : String) (path : String) :
    Option RemoteView :=
  (EntryRepo.findEntryByPath t syncRootId path).map remoteView

/-- An upsert as a write: the object owns the path it is put at. -/
def writeOf (u : RemoteEntryUpsert) : Write String RemoteView.remoteId :=
  { place := u.localPath
    owner := u.remoteId
    value :=
      { remoteId := some u.remoteId
        remoteFileId := u.remoteFileId
        deletedAt := u.remoteDeletedAt
        updatedAt := some u.remoteUpdatedAt }
    owned := rfl }

theorem remoteView_of_records {u : RemoteEntryUpsert} {e : Entry}
    (h : RemoteEntryRepo.Records u e) : remoteView e = (writeOf u).value := by
  simp [remoteView, writeOf, h.remoteId, h.remoteFileId, h.deletedAt,
    h.updatedAt]

/-- An accepted upsert is one write. -/
theorem upsertRemoteEntry_view {t t' : EntryTable} {u : RemoteEntryUpsert}
    (h : RemoteEntryRepo.upsertRemoteEntry t u = some t') :
    viewOf t' u.syncRootId = (writeOf u).put (viewOf t u.syncRootId) := by
  funext q
  unfold Write.put
  by_cases hq : q = u.localPath
  · subst hq
    obtain ⟨e, he, hrec⟩ := RemoteEntryRepo.upsertRemoteEntry_self h
    rw [if_pos (show u.localPath = (writeOf u).place from rfl)]
    simp [viewOf, he, remoteView_of_records hrec]
  · rw [if_neg (show ¬q = (writeOf u).place from hq)]
    have hback : ∀ e, EntryRepo.findEntryByPath t' u.syncRootId q = some e →
        e ∈ t.rows ∧ RemoteEntryRepo.carries u e = false ∧
          e.key = (u.syncRootId, q) := by
      intro e he
      obtain ⟨hmem, hroot, hpath⟩ :=
        (EntryRepo.findEntryByPath_eq_some_iff _ _ _ _).mp he
      have hkey : e.key = (u.syncRootId, q) := by
        simp [Entry.key, hroot, hpath]
      rcases RemoteEntryRepo.mem_upsertRemoteEntry h e hmem with
        ⟨f, _, _, rfl⟩ | ⟨f, _, hf, rfl⟩ | ⟨rfl, _⟩ | ⟨he', hc, _⟩
      · exact absurd hpath.symm hq
      · simp only [Entry.key, Prod.mk.injEq] at hf
        exact absurd (hpath.symm.trans hf.2) hq
      · exact absurd hpath.symm hq
      · exact ⟨he', hc, hkey⟩
    cases hold : EntryRepo.findEntryByPath t u.syncRootId q with
    | none =>
        have hnew : EntryRepo.findEntryByPath t' u.syncRootId q = none := by
          cases hn : EntryRepo.findEntryByPath t' u.syncRootId q with
          | none => rfl
          | some e =>
              obtain ⟨he, _, hkey⟩ := hback e hn
              exact absurd hkey ((t.lookup_eq_none_iff _).mp hold e he)
        simp [viewOf, hold, hnew]
    | some f =>
        obtain ⟨hf, hroot, hpath⟩ :=
          (EntryRepo.findEntryByPath_eq_some_iff _ _ _ _).mp hold
        by_cases hc : RemoteEntryRepo.carries u f = true
        · have hid := ((RemoteEntryRepo.carries_iff u f).mp hc).2
          have hnew : EntryRepo.findEntryByPath t' u.syncRootId q = none := by
            cases hn : EntryRepo.findEntryByPath t' u.syncRootId q with
            | none => rfl
            | some e =>
                obtain ⟨he, hce, hkey⟩ := hback e hn
                have hef : e = f := t.eq_of_key_eq he hf
                  (hkey.trans (by simp [Entry.key, hroot, hpath]))
                rw [hef, hc] at hce
                cases hce
          simp [viewOf, hold, hnew, remoteView, writeOf, hid]
        · have hne : f.remoteId ≠ some u.remoteId := by
            intro hid
            exact hc ((RemoteEntryRepo.carries_iff u f).mpr ⟨hroot, hid⟩)
          have hmem : f ∈ t'.rows :=
            RemoteEntryRepo.upsertRemoteEntry_other h hf (by simpa using hc)
              (by simp only [Entry.key, hpath, ne_eq, Prod.mk.injEq, not_and]
                  intro _ hpq
                  exact hq hpq)
          have hnew : EntryRepo.findEntryByPath t' u.syncRootId q = some f :=
            (EntryRepo.findEntryByPath_eq_some_iff _ _ _ _).mpr
              ⟨hmem, hroot, hpath⟩
          simp [viewOf, hold, hnew, remoteView, writeOf, hne]

/-- An accepted batch of upserts is a batch of writes. -/
theorem view_applyAll {syncRootId : String} (us : List RemoteEntryUpsert)
    (hroot : ∀ u ∈ us, u.syncRootId = syncRootId) {t t' : EntryTable}
    (h : applyAll us t = some t') :
    viewOf t' syncRootId =
      Write.putAll (us.map writeOf) (viewOf t syncRootId) := by
  induction us generalizing t with
  | nil =>
      cases h
      rfl
  | cons u us ih =>
      rw [applyAll_cons] at h
      obtain ⟨s, hs, hrest⟩ := Option.bind_eq_some_iff.mp h
      have hu : u.syncRootId = syncRootId := hroot u (by simp)
      have hstep := upsertRemoteEntry_view hs
      rw [hu] at hstep
      rw [ih (fun w hw => hroot w (by simp [hw])) hrest, hstep]
      rfl

end RemoteScanner

end ArkiveSync
