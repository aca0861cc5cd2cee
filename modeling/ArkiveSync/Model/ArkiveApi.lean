import Mathlib.Data.List.Basic

/-!
# Listing remote entries, creating folders

The part of `ArkiveApi` that lists the entries of a remote folder: the request
with its defaults, the path it is sent to, and the decoding of the answer; and
the decoding of the answer to a new folder.
The HTTP client is a parameter, `getJson`, that maps a path to the body it
returns, or to `none` when it throws.  The decoders read fields the way the
JSON library does: a missing field takes its default, a field of another type
is an exception.
-/

namespace ArkiveSync

/-- JSON values. -/
inductive Json where
  | null
  | bool (b : Bool)
  | number (n : Int)
  | string (s : String)
  | array (items : List Json)
  | object (fields : List (String × Json))

namespace Json

/-- `json[key]` of an object that contains the key. -/
def field? (json : Json) (key : String) : Option Json :=
  match json with
  | .object fields => (fields.find? (fun f => f.1 == key)).map Prod.snd
  | _ => none

/-- `json.value(key, default)` for text; `none` is the exception. -/
def valueString (json : Json) (key default : String) : Option String :=
  match json with
  | .object _ =>
      match json.field? key with
      | none => some default
      | some (.string s) => some s
      | some _ => none
  | _ => none

/-- `json.value(key, default)` for a flag. -/
def valueBool (json : Json) (key : String) (default : Bool) : Option Bool :=
  match json with
  | .object _ =>
      match json.field? key with
      | none => some default
      | some (.bool b) => some b
      | some _ => none
  | _ => none

/-- `is_object`. -/
def isObject : Json → Bool
  | .object _ => true
  | _ => false

end Json

/-- `ListSyncEntriesRequest`. -/
structure ListSyncEntriesRequest where
  folderId : Option String
  includeDeleted : Bool := false
  limit : Nat := 100
  cursor : Option String := none
  deriving DecidableEq, Repr

/-- `SyncEntryResponse`. -/
structure SyncEntryResponse where
  remoteId : String
  type : String
  remoteFileId : Option String
  remoteFolderId : Option String
  remoteParentFolderId : Option String := none
  encryptedName : Option String := none
  encryptedMetadata : Option String := none
  encryptedFileKey : Option String := none
  encryptedManifest : Option String := none
  deletedAt : Option String := none
  updatedAt : String
  deriving DecidableEq, Repr

/-- `ListSyncEntriesResponse`. -/
structure ListSyncEntriesResponse where
  entries : List SyncEntryResponse
  nextCursor : Option String := none
  hasMore : Bool := false
  deriving DecidableEq, Repr

namespace ArkiveApi

/-- `optionalString`: absent and null are no text; the outer `none` is the
exception. -/
def optionalString (json : Json) (key : String) : Option (Option String) :=
  match json.field? key with
  | none => some none
  | some .null => some none
  | some (.string s) => some (some s)
  | some _ => none

/-- `decodeSyncEntryResponse`. -/
def decodeSyncEntryResponse (json : Json) : Option SyncEntryResponse := do
  let type ← json.valueString "type" ""
  let remoteId ← json.valueString "id" ""
  let folderId ←
    (if type == "folder" then some (some remoteId)
    else optionalString json "folder_id")
  let parentFolderId ← optionalString json "parent_folder_id"
  let encryptedName ← optionalString json "encrypted_name"
  let encryptedMetadata ← optionalString json "encrypted_metadata"
  let encryptedFileKey ← optionalString json "encrypted_file_key"
  let encryptedManifest ← optionalString json "encrypted_manifest"
  let deletedAt ← optionalString json "deleted_at"
  let updatedAt ← json.valueString "updated_at" ""
  return {
    remoteId := remoteId
    type := type
    remoteFileId := if type == "file" then some remoteId else none
    remoteFolderId := folderId
    remoteParentFolderId := parentFolderId
    encryptedName := encryptedName
    encryptedMetadata := encryptedMetadata
    encryptedFileKey := encryptedFileKey
    encryptedManifest := encryptedManifest
    deletedAt := deletedAt
    updatedAt := updatedAt }

/-- `decodeListSyncEntriesResponse`. -/
def decodeListSyncEntriesResponse (json : Json) :
    Option ListSyncEntriesResponse := do
  let nextCursor ← optionalString json "next_cursor"
  let hasMore ← json.valueBool "has_more" false
  match json.field? "entries" with
  | some (.array items) =>
      let entries ← (items.filter Json.isObject).mapM decodeSyncEntryResponse
      return { entries := entries, nextCursor := nextCursor, hasMore := hasMore }
  | _ =>
      return { entries := [], nextCursor := nextCursor, hasMore := hasMore }

/-- `buildListSyncEntriesPath`. -/
def buildListSyncEntriesPath (request : ListSyncEntriesRequest) : String :=
  let folder :=
    match request.folderId with
    | some folderId => ["folder_id=" ++ folderId]
    | none => []
  let deleted := if request.includeDeleted then ["include_deleted=true"] else []
  let limit :=
    if request.limit > 0 then ["limit=" ++ toString request.limit] else []
  let cursor :=
    match request.cursor with
    | some cursor => ["cursor=" ++ cursor]
    | none => []
  match folder ++ deleted ++ limit ++ cursor with
  | [] => "/api/sync/entries"
  | item :: items =>
      items.foldl (fun path item => path ++ "&" ++ item)
        ("/api/sync/entries" ++ "?" ++ item)

example : buildListSyncEntriesPath { folderId := none, includeDeleted := true } =
    "/api/sync/entries?include_deleted=true&limit=100" := by decide

/-- `listSyncEntries(request)`; `none` when the client or the decoder
throws. -/
def listSyncEntriesRequest (getJson : String → Option Json)
    (request : ListSyncEntriesRequest) : Option ListSyncEntriesResponse :=
  (getJson (buildListSyncEntriesPath request)).bind
    decodeListSyncEntriesResponse

/-- `listSyncEntries(folderId, includeDeleted)`: one request with the default
limit and no cursor. -/
def listSyncEntries (getJson : String → Option Json)
    (folderId : Option String) (includeDeleted : Bool) :
    Option ListSyncEntriesResponse :=
  listSyncEntriesRequest getJson
    { folderId := folderId, includeDeleted := includeDeleted }

private theorem mem_of_mapM {α β : Type} {f : α → Option β} {l : List α}
    {r : List β} (h : l.mapM f = some r) {b : β} (hb : b ∈ r) :
    ∃ a ∈ l, f a = some b := by
  induction l generalizing r with
  | nil =>
      cases h
      cases hb
  | cons a l ih =>
      rw [List.mapM_cons] at h
      obtain ⟨c, hc, hrest⟩ := Option.bind_eq_some_iff.mp h
      obtain ⟨cs, hcs, heq⟩ := Option.bind_eq_some_iff.mp hrest
      cases heq
      rcases List.mem_cons.mp hb with rfl | hb
      · exact ⟨a, by simp, hc⟩
      · obtain ⟨x, hx, hfx⟩ := ih hcs hb
        exact ⟨x, List.mem_cons_of_mem _ hx, hfx⟩

/-- The file id of a decoded entry is its own id. -/
theorem decodeSyncEntryResponse_fileId {json : Json}
    {entry : SyncEntryResponse} (h : decodeSyncEntryResponse json = some entry)
    {fileId : String} (hfile : entry.remoteFileId = some fileId) :
    fileId = entry.remoteId := by
  unfold decodeSyncEntryResponse at h
  simp only [Option.bind_eq_bind, Option.bind_eq_some_iff, Option.pure_def,
    Option.some.injEq] at h
  obtain ⟨type, _, remoteId, _, _, _, _, _, _, _, _, _, _, _, _, _, _, _, _, _,
    rfl⟩ := h
  simp only at hfile
  split at hfile
  · exact (Option.some.inj hfile).symm
  · cases hfile

theorem listSyncEntries_fileId {getJson : String → Option Json}
    {folderId : Option String} {includeDeleted : Bool}
    {response : ListSyncEntriesResponse}
    (h : listSyncEntries getJson folderId includeDeleted = some response)
    {entry : SyncEntryResponse} (hentry : entry ∈ response.entries)
    {fileId : String} (hfile : entry.remoteFileId = some fileId) :
    fileId = entry.remoteId := by
  unfold listSyncEntries listSyncEntriesRequest at h
  obtain ⟨json, _, hdecode⟩ := Option.bind_eq_some_iff.mp h
  unfold decodeListSyncEntriesResponse at hdecode
  simp only [Option.bind_eq_bind, Option.bind_eq_some_iff] at hdecode
  obtain ⟨_, _, _, _, hentries⟩ := hdecode
  split at hentries
  next items _ =>
      obtain ⟨entries, hmap, heq⟩ := Option.bind_eq_some_iff.mp hentries
      cases heq
      obtain ⟨item, _, hitem⟩ := mem_of_mapM hmap hentry
      exact decodeSyncEntryResponse_fileId hitem hfile
  next =>
      cases hentries
      cases hentry

end ArkiveApi

end ArkiveSync
