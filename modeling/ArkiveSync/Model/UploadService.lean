import ArkiveSync.Model.Entry
import ArkiveSync.Model.UploadFinalizer
import ArkiveSync.Model.UploadResumeRepo

/-!
# Uploading one file

`UploadService::uploadFile`: at most two tries.  A try resumes the session that
the resume tables have for the path, if it still matches the file, or starts a
new one; it uploads the parts that are missing, each of which is written into
the tables once it is reported; it completes the upload and deletes the
session.  When a resumed session turns out to be unknown to the server or in
conflict with it (404, 409), the session is deleted and the second try starts
afresh; every other exception is rethrown.

What the server, the clock of the file and the random numbers give is in
`TryAnswers`; any of the calls may throw anything.

## Main results

* `readUploadedPartResult_record`: a part is read back from its row as it was
  written, but for its number, which has been an `int` in between.
-/

namespace ArkiveSync

open MultipartUploader

/-! ## Rows of the part table -/

namespace Json

/-- `at(key).get<uint64_t>()`. -/
def atUnsigned (json : Json) (key : String) : Option Nat :=
  match json.field? key with
  | some (.number n) => some (unsigned n)
  | _ => none

/-- `at(key).get<std::string>()`. -/
def atString (json : Json) (key : String) : Option String :=
  match json.field? key with
  | some (.string s) => some s
  | _ => none

end Json

namespace UploadService

/-- `makeResumePartRecord`; `none` is an exception of `dump`. -/
def makeResumePartRecord (text : JsonText) (part : UploadedPartResult) :
    Option UploadResumePartRecord := do
  let chunks ← text.dump (.array (part.chunks.map chunkJson))
  some { partNumber := toInt part.plan.partNumber
         etag := part.etag
         uploadHash := part.uploadHash
         chunkManifestJson := chunks
         combinedChunkHashes := encodeBase64 part.combinedChunkHashes }

/-- One chunk of `readUploadedPartResult`. -/
def readChunk (json : Json) : Option EncryptedChunkResult := do
  let chunkNumber ← json.atUnsigned "n"
  let plaintextSize ← json.atUnsigned "plain_size"
  let ciphertextSize ← json.atUnsigned "cipher_size"
  let encryptedHash ← json.atString "hash"
  some { chunkNumber := chunkNumber
         plaintextSize := plaintextSize
         ciphertextSize := ciphertextSize
         encryptedHash := encryptedHash }

/-- The chunks of a row. -/
def readChunks (text : JsonText) (chunkManifestJson : Bytes) :
    Option (List EncryptedChunkResult) := do
  match ← text.parse chunkManifestJson with
  | .array items => items.mapM readChunk
  | _ => none

/-- `readUploadedPartResult`. -/
def readUploadedPartResult (text : JsonText) (plan : UploadPlan)
    (record : UploadResumePartRecord) :
    Except UploadError UploadedPartResult :=
  match decodeBase64 record.combinedChunkHashes,
      readChunks text record.chunkManifestJson with
  | some combinedChunkHashes, some chunks =>
      .ok { plan := makePartPlan (toUInt64 record.partNumber) plan
            chunks := chunks
            uploadHash := record.uploadHash
            etag := record.etag
            combinedChunkHashes := combinedChunkHashes }
  | none, _ => .error (.invalidArgument "Invalid base64 input")
  | some _, none =>
      .error (.runtime "resume chunk manifest must be an array")

/-! ## Sessions -/

/-- `shouldResetResumeSession`. -/
def shouldResetResumeSession : UploadError → Bool
  | .http statusCode => statusCode = 404 || statusCode = 409
  | _ => false

/-- `sessionMatchesEntry`. -/
def sessionMatchesEntry (session : UploadResumeSessionRecord) (entry : Entry)
    (localPath : String) (localSize : Nat) (localMtime : Option Int)
    (plan : UploadPlan) : Bool :=
  if session.localPath ≠ localPath ∨ session.localSize ≠ toInt64 localSize then
    false
  else if session.folderId ≠ entry.parentFolderId then
    false
  else if session.fileChunkSize ≠ toInt64 plan.fileChunkSize ∨
      session.totalChunks ≠ toInt plan.totalChunks ∨
      session.uploadPartSize ≠ toInt64 plan.uploadPartSize ∨
      session.uploadPartCount ≠ toInt plan.uploadPartCount then
    false
  else if session.localHash.isSome ∧ entry.contentHash.isSome then
    session.localHash = entry.contentHash
  else
    session.localMtime = localMtime

/-- `startResponseFromSession`. -/
def startResponseFromSession (session : UploadResumeSessionRecord) :
    StartUploadResponse :=
  { fileId := session.fileId
    vaultId := session.vaultId
    uploadSessionId := session.uploadSessionId
    providerUploadId := session.providerUploadId
    fileChunkSize := session.fileChunkSize
    totalChunks := session.totalChunks
    uploadPartSize := session.uploadPartSize
    uploadPartCount := session.uploadPartCount
    uploadUrl := "" }

/-- The row of a session that was just started. -/
def sessionRecord (entry : Entry) (localPath : String) (originalSize : Nat)
    (localMtime : Option Int) (started : StartUploadResponse)
    (encryptedFileKeyBlob : Bytes) : UploadResumeSessionRecord :=
  { id := started.uploadSessionId
    entryId := some entry.id
    localPath := localPath
    localSize := toInt64 originalSize
    localMtime := localMtime
    localHash := entry.contentHash
    folderId := entry.parentFolderId
    vaultId := started.vaultId
    fileId := started.fileId
    uploadSessionId := started.uploadSessionId
    providerUploadId := started.providerUploadId
    fileChunkSize := started.fileChunkSize
    totalChunks := started.totalChunks
    uploadPartSize := started.uploadPartSize
    uploadPartCount := started.uploadPartCount
    encryptedFileKeyBlob := encodeBase64 encryptedFileKeyBlob }

/-! ## One try -/

/-- What one try is given from outside. -/
structure TryAnswers (ν : Type) where
  start : Except UploadError StartUploadResponse
  createFileKey : Except UploadError Bytes
  resumeKeyNonce : ν
  completion : CompletionNonces ν
  thumbnail : ThumbnailAttempt
  complete : UploadCompleteRequest → Except UploadError Unit

/-- A session a try works in. -/
structure OpenedSession where
  started : StartUploadResponse
  completedParts : List UploadedPartResult
  fileKey : Bytes

variable {ν : Type} (finalizer : UploadFinalizer ν)

/-- Base64 that must decode. -/
def decodeBlob (blob : String) : Except UploadError Bytes :=
  match decodeBase64 blob with
  | some bytes => .ok bytes
  | none => .error (.invalidArgument "Invalid base64 input")

/-- The parts and the key of a session that matches the file. -/
def resumeSession (repo : UploadResumeRepo) (plan : UploadPlan)
    (session : UploadResumeSessionRecord) :
    Except UploadError OpenedSession := do
  let completedParts ← (repo.listParts session.uploadSessionId).mapM
    (readUploadedPartResult finalizer.text plan)
  let encryptedFileKeyBlob ← decodeBlob session.encryptedFileKeyBlob
  let fileKey ← FileEncryptor.decryptResumeFileKey finalizer.crypto
    finalizer.masterKey encryptedFileKeyBlob session.uploadSessionId
  return { started := startResponseFromSession session
           completedParts := completedParts
           fileKey := fileKey }

/-- A new session: the server starts it, a key is made, and its row replaces
the one of the path. -/
def startSession (repo : UploadResumeRepo) (entry : Entry)
    (localPath : String) (localMtime : Option Int) (plan : UploadPlan)
    (answers : TryAnswers ν) :
    UploadResumeRepo × Except UploadError OpenedSession :=
  match answers.start with
  | .error e => (repo, .error e)
  | .ok started =>
      match answers.createFileKey with
      | .error e => (repo, .error e)
      | .ok fileKey =>
          match FileEncryptor.encryptResumeFileKey finalizer.crypto
              answers.resumeKeyNonce finalizer.masterKey fileKey
              started.uploadSessionId with
          | .error e => (repo, .error e)
          | .ok blob =>
              match repo.replaceSession (sessionRecord entry localPath
                  plan.originalSize localMtime started blob) with
              | (repo', true) =>
                  (repo', .ok { started := started, completedParts := []
                                fileKey := fileKey })
              | (repo', false) => (repo', .error (.runtime "Step failed"))

/-- How a try comes by its session: the tables, whether it resumes, and the
session. -/
def openSession (repo : UploadResumeRepo) (entry : Entry)
    (localPath : String) (localMtime : Option Int) (plan : UploadPlan)
    (answers : TryAnswers ν) :
    UploadResumeRepo × Bool × Except UploadError OpenedSession :=
  match repo.getSessionByLocalPath localPath with
  | some session =>
      if sessionMatchesEntry session entry localPath plan.originalSize
          localMtime plan then
        (repo, true, resumeSession finalizer repo plan session)
      else
        let (repo', opened) := startSession finalizer
          (repo.deleteSessionByLocalPath localPath) entry localPath localMtime
          plan answers
        (repo', false, opened)
  | none =>
      let (repo', opened) := startSession finalizer repo entry localPath
        localMtime plan answers
      (repo', false, opened)

/-- The call of `uploadParts` in a session: every reported part is written into
the tables. -/
def uploadCall (file : Bytes) (plan : UploadPlan)
    (started : StartUploadResponse) (fileKey : Bytes) :
    UploadCall ν UploadResumeRepo where
  crypto := finalizer.crypto
  file := file
  fileKey := fileKey
  started := started
  plan := plan
  onPartUploaded part repo :=
    (makeResumePartRecord finalizer.text part).map
      (repo.upsertPart started.uploadSessionId)

/-- What a try that returns has handed to the finalizer and sent; the response
consists of the ids in `started`. -/
structure Uploaded where
  started : StartUploadResponse
  parts : List UploadedPartResult
  fileKey : Bytes
  request : UploadCompleteRequest

/-- One try on a file at a path: its result, with whether it resumed, the
tables and the puts afterwards. -/
inductive Try (file : Bytes) (entry : Entry) (localPath : String)
    (localMtime : Option Int) (plan : UploadPlan) (partConcurrency : Nat)
    (repo : UploadResumeRepo) (puts : List StoredPart) :
    Bool × Except UploadError Uploaded → UploadResumeRepo →
      List StoredPart → Prop where
  | unopened (answers : TryAnswers ν) (repo' : UploadResumeRepo)
      (resumed : Bool) (e : UploadError)
      (hopen : openSession finalizer repo entry localPath localMtime plan
        answers = (repo', resumed, .error e)) :
      Try file entry localPath localMtime plan partConcurrency repo puts
        (resumed, .error e) repo' puts
  | broken (answers : TryAnswers ν) (repo' repo'' : UploadResumeRepo)
      (puts' : List StoredPart) (resumed : Bool) (session : OpenedSession)
      (e : UploadError)
      (hopen : openSession finalizer repo entry localPath localMtime plan
        answers = (repo', resumed, .ok session))
      (hupload : UploadParts
        (uploadCall finalizer file plan session.started session.fileKey)
        partConcurrency session.completedParts puts repo' (.error e) puts'
        repo'') :
      Try file entry localPath localMtime plan partConcurrency repo puts
        (resumed, .error e) repo'' puts'
  | incomplete (answers : TryAnswers ν) (repo' repo'' : UploadResumeRepo)
      (puts' : List StoredPart) (resumed : Bool) (session : OpenedSession)
      (parts : List UploadedPartResult) (e : UploadError)
      (hopen : openSession finalizer repo entry localPath localMtime plan
        answers = (repo', resumed, .ok session))
      (hupload : UploadParts
        (uploadCall finalizer file plan session.started session.fileKey)
        partConcurrency session.completedParts puts repo' (.ok parts) puts'
        repo'')
      (hcomplete : finalizer.completeUpload answers.completion
        answers.thumbnail answers.complete localPath entry.size
        session.started plan parts session.fileKey = .error e) :
      Try file entry localPath localMtime plan partConcurrency repo puts
        (resumed, .error e) repo'' puts'
  | returned (answers : TryAnswers ν) (repo' repo'' : UploadResumeRepo)
      (puts' : List StoredPart) (resumed : Bool) (session : OpenedSession)
      (parts : List UploadedPartResult) (artifacts : UploadArtifacts)
      (request : UploadCompleteRequest)
      (hopen : openSession finalizer repo entry localPath localMtime plan
        answers = (repo', resumed, .ok session))
      (hupload : UploadParts
        (uploadCall finalizer file plan session.started session.fileKey)
        partConcurrency session.completedParts puts repo' (.ok parts) puts'
        repo'')
      (hcomplete : finalizer.completeUpload answers.completion
        answers.thumbnail answers.complete localPath entry.size
        session.started plan parts session.fileKey =
          .ok (artifacts, request)) :
      Try file entry localPath localMtime plan partConcurrency repo puts
        (resumed, .ok { started := session.started, parts := parts
                        fileKey := session.fileKey, request := request })
        (repo''.deleteSessionByUploadSessionId
          session.started.uploadSessionId) puts'

/-! ## `uploadFile` -/

/-- Whether the exception of a first try is answered by a second one. -/
def retries (resumed : Bool) (e : UploadError) : Bool :=
  resumed && shouldResetResumeSession e

/-- `uploadFile` on a file at a path, with the cap on the part concurrency that
the server allows. -/
inductive UploadFile (file : Bytes) (entry : Entry) (localPath : String)
    (localMtime : Option Int) (serverCap : Except UploadError Int)
    (repo : UploadResumeRepo) (puts : List StoredPart) :
    Except UploadError Uploaded → UploadResumeRepo → List StoredPart →
      Prop where
  | directory (h : entry.isDirectory = true) :
      UploadFile file entry localPath localMtime serverCap repo puts
        (.error (.invalidArgument "uploadFile does not support directories"))
        repo puts
  | sizeless (h : entry.isDirectory = false)
      (hsize : ∀ n, entry.size = some n → n < 0) :
      UploadFile file entry localPath localMtime serverCap repo puts
        (.error (.invalidArgument
          "uploadFile requires a valid local file size")) repo puts
  | unlimited (originalSize : Nat) (e : UploadError)
      (h : entry.isDirectory = false)
      (hsize : entry.size = some (originalSize : Int))
      (hlimits : serverCap = .error e) :
      UploadFile file entry localPath localMtime serverCap repo puts
        (.error e) repo puts
  | once (originalSize : Nat) (cap : Int) (resumed : Bool)
      (result : Except UploadError Uploaded) (repo' : UploadResumeRepo)
      (puts' : List StoredPart) (h : entry.isDirectory = false)
      (hsize : entry.size = some (originalSize : Int))
      (hlimits : serverCap = .ok cap)
      (htry : Try finalizer file entry localPath localMtime
        (UploadPlanner.createPlan originalSize)
        (resolvePartConcurrency
          (UploadPlanner.createPlan originalSize).uploadPartCount cap)
        repo puts (resumed, result) repo' puts')
      (hfinal : ∀ e, result = .error e → retries resumed e = false) :
      UploadFile file entry localPath localMtime serverCap repo puts result
        repo' puts'
  | twice (originalSize : Nat) (cap : Int) (resumed : Bool) (e : UploadError)
      (resumed' : Bool) (result : Except UploadError Uploaded)
      (repo' repo'' : UploadResumeRepo) (puts' puts'' : List StoredPart)
      (h : entry.isDirectory = false)
      (hsize : entry.size = some (originalSize : Int))
      (hlimits : serverCap = .ok cap)
      (htry : Try finalizer file entry localPath localMtime
        (UploadPlanner.createPlan originalSize)
        (resolvePartConcurrency
          (UploadPlanner.createPlan originalSize).uploadPartCount cap)
        repo puts (resumed, .error e) repo' puts')
      (hretry : retries resumed e = true)
      (hagain : Try finalizer file entry localPath localMtime
        (UploadPlanner.createPlan originalSize)
        (resolvePartConcurrency
          (UploadPlanner.createPlan originalSize).uploadPartCount cap)
        (repo'.deleteSessionByLocalPath localPath) puts' (resumed', result)
        repo'' puts'') :
      UploadFile file entry localPath localMtime serverCap repo puts result
        repo'' puts''

/-! ## A part is read back as it was written -/

variable {finalizer}

theorem readChunk_chunkJson (chunk : EncryptedChunkResult) :
    readChunk (chunkJson chunk) = some chunk := by
  have hn : (chunkJson chunk).atUnsigned "n" = some chunk.chunkNumber := by
    show some (Json.unsigned chunk.chunkNumber) = _
    rw [Json.unsigned_natCast]
  have hplain : (chunkJson chunk).atUnsigned "plain_size" =
      some chunk.plaintextSize := by
    show some (Json.unsigned chunk.plaintextSize) = _
    rw [Json.unsigned_natCast]
  have hcipher : (chunkJson chunk).atUnsigned "cipher_size" =
      some chunk.ciphertextSize := by
    show some (Json.unsigned chunk.ciphertextSize) = _
    rw [Json.unsigned_natCast]
  have hhash : (chunkJson chunk).atString "hash" =
      some chunk.encryptedHash := rfl
  unfold readChunk
  simp only [hn, hplain, hcipher, hhash, Option.bind_eq_bind, Option.bind_some]

theorem mapM_readChunk (chunks : List EncryptedChunkResult) :
    (chunks.map chunkJson).mapM readChunk = some chunks := by
  induction chunks with
  | nil => rfl
  | cons chunk rest ih =>
      rw [List.map_cons, List.mapM_cons, readChunk_chunkJson, ih]
      rfl

theorem makeResumePartRecord_some {text : JsonText}
    {part : UploadedPartResult} {record : UploadResumePartRecord}
    (h : makeResumePartRecord text part = some record) :
    ∃ chunks, text.dump (.array (part.chunks.map chunkJson)) = some chunks ∧
      record = { partNumber := toInt part.plan.partNumber
                 etag := part.etag
                 uploadHash := part.uploadHash
                 chunkManifestJson := chunks
                 combinedChunkHashes :=
                  encodeBase64 part.combinedChunkHashes } := by
  unfold makeResumePartRecord at h
  rw [Option.bind_eq_bind, Option.bind_eq_some_iff] at h
  obtain ⟨chunks, hdump, hrecord⟩ := h
  exact ⟨chunks, hdump, (Option.some.inj hrecord).symm⟩

/-- A row can be read, and gives the part back except that its plan is that of
the number in the row. -/
theorem readUploadedPartResult_record {text : JsonText}
    (htext : text.Faithful) {part : UploadedPartResult}
    {record : UploadResumePartRecord}
    (h : makeResumePartRecord text part = some record) (plan : UploadPlan) :
    readUploadedPartResult text plan record =
      .ok { part with
        plan := makePartPlan (toUInt64 (toInt part.plan.partNumber)) plan } := by
  obtain ⟨chunks, hdump, rfl⟩ := makeResumePartRecord_some h
  have hchunks : readChunks text chunks = some part.chunks := by
    unfold readChunks
    rw [htext _ _ hdump]
    exact mapM_readChunk part.chunks
  unfold readUploadedPartResult
  simp only [decodeBase64_encodeBase64, hchunks]

theorem read_makeResumePartRecord {text : JsonText} (htext : text.Faithful)
    {part read : UploadedPartResult} {record : UploadResumePartRecord}
    {plan : UploadPlan} (hmake : makeResumePartRecord text part = some record)
    (hread : readUploadedPartResult text plan record = .ok read) :
    read = { part with
      plan := makePartPlan (toUInt64 (toInt part.plan.partNumber)) plan } := by
  rw [readUploadedPartResult_record htext hmake plan] at hread
  exact (Except.ok.inj hread).symm

/-- The number of a row: an `int`, which is the number itself below `2^31`. -/
theorem toInt_of_lt {p : Nat} (h : p < 2147483648) : toInt p = p := by
  unfold toInt
  rw [Int.bmod_def]
  omega

theorem toUInt64_natCast {p : Nat} (h : p < 18446744073709551616) :
    toUInt64 (p : Int) = p := by
  unfold toUInt64
  omega

/-- The numbers that turn negative. -/
theorem toInt_neg {p : Nat} (hlow : 2147483648 ≤ p) (hhigh : p < 4294967296) :
    toInt p < 0 := by
  unfold toInt
  rw [Int.bmod_def]
  omega

/-- A negative number is read back as a huge one. -/
theorem toUInt64_neg {k : Int} (hneg : k < 0) (hlow : -2147483648 ≤ k) :
    18446744071562067968 ≤ toUInt64 k := by
  unfold toUInt64
  omega

theorem toInt_ge (p : Nat) : -2147483648 ≤ toInt p := by
  unfold toInt
  rw [Int.bmod_def]
  omega

end UploadService

end ArkiveSync
