import ArkiveSync.Model.FileManifest

/-!
# Completing an upload

`UploadFinalizer`: from the uploaded parts it builds the manifest, encrypts
manifest and metadata under the file key, wraps the key, and completes the
upload session with the results.  A thumbnail is sent if one can be made;
whatever goes wrong with it is swallowed.  What the thumbnail generator, the
search index and the server answer are arguments.

## Main results

* `prepareCompletion_ok`: what the request of a successful preparation holds.
-/

namespace ArkiveSync

/-- `UploadArtifacts`. -/
structure UploadArtifacts where
  fileKey : Bytes := []
  encryptedFileKey : Bytes := []
  encryptedMetadata : Bytes := []
  encryptedManifest : Bytes := []
  encryptedHash : Bytes := []

/-- `UploadThumbnail`. -/
structure UploadThumbnail where
  bytes : Bytes
  mime : String
  width : Int
  height : Int

/-- `UploadCompleteSearchToken`. -/
structure UploadCompleteSearchToken where
  token : String
  field : String
  weight : Int

/-- `UploadCompleteRequest`. -/
structure UploadCompleteRequest where
  encryptedMetadata : String
  encryptedFileKey : String
  encryptedManifest : String
  encryptedHash : String
  searchTokens : List UploadCompleteSearchToken
  hasThumbnail : Bool
  thumbnailMime : String
  thumbnailWidth : Int
  thumbnailHeight : Int
  thumbnailSize : Int

/-- What the finalizer works with: the libraries, the master key of the
unlocked vault, the naming of files and the search index. -/
structure UploadFinalizer (ν : Type) where
  crypto : RustCrypto ν
  text : JsonText
  masterKey : Bytes
  describeFileMime : String → FileMimeDetails
  createSearchTokenEntries : String → String →
    Except UploadError (List UploadCompleteSearchToken)

/-- The nonces of one completion. -/
structure CompletionNonces (ν : Type) where
  manifest : ν
  fileKey : ν
  thumbnail : ν
  metadata : ν

/-- How the thumbnail of a file goes: what the generator makes of the file, and
whether the address and the put succeed. -/
structure ThumbnailAttempt where
  generated : Option UploadThumbnail := none
  sent : Bool := false

/-- What the request says about the thumbnail. -/
structure SentThumbnail where
  hasThumbnail : Bool := false
  mime : String := ""
  width : Int := 0
  height : Int := 0
  encryptedSize : Nat := 0

/-- `kMaxEncryptedThumbnailBytes`. -/
def kMaxEncryptedThumbnailBytes : Nat := 153600

namespace UploadFinalizer

variable {ν : Type}

/-- The thumbnail part of `prepareCompletion`. -/
def sendThumbnail (crypto : RustCrypto ν) (nonce : ν) (fileKey : Bytes)
    (started : StartUploadResponse) (attempt : ThumbnailAttempt) :
    SentThumbnail :=
  match attempt.generated with
  | none => {}
  | some thumbnail =>
      match FileEncryptor.encryptChunk crypto nonce thumbnail.bytes fileKey
          (ArkiveAad.toBytes (ArkiveAad.makeFileThumbnail started.vaultId
            started.fileId)) with
      | .error _ => {}
      | .ok encrypted =>
          if encrypted.length ≤ kMaxEncryptedThumbnailBytes ∧ attempt.sent then
            { hasThumbnail := true
              mime := thumbnail.mime
              width := thumbnail.width
              height := thumbnail.height
              encryptedSize := encrypted.length }
          else
            { encryptedSize := encrypted.length }

/-- The `previewMetadata`. -/
def previewMetadata (thumbnail : SentThumbnail) : Json :=
  if thumbnail.hasThumbnail then
    .object [("thumbnail_file_id", .null), ("has_thumbnail", .bool true),
      ("thumbnail_mime", .string thumbnail.mime),
      ("thumbnail_width", .number thumbnail.width),
      ("thumbnail_height", .number thumbnail.height),
      ("thumbnail_size", .number thumbnail.encryptedSize),
      ("thumbnail_version", .number 1)]
  else
    .object [("thumbnail_file_id", .null), ("has_thumbnail", .bool false)]

/-- `buildMetadata`. -/
def buildMetadata (details : FileMimeDetails) (size : Option Int)
    (preview : Json) : Json :=
  .object [("schema", .string "arkive.file.metadata"),
    ("version", .number 1),
    ("name", .string details.name),
    ("mime", .string details.mime),
    ("extension", .string details.extension),
    ("size", .number (size.getD 0)),
    ("preview", preview)]

/-- `dump`, with its exception. -/
def dumpJson (text : JsonText) (json : Json) : Except UploadError Bytes :=
  match text.dump json with
  | some bytes => .ok bytes
  | none => .error (.runtime "invalid UTF-8 byte")

/-- `prepareCompletion`. -/
def prepareCompletion (finalizer : UploadFinalizer ν)
    (nonces : CompletionNonces ν) (attempt : ThumbnailAttempt)
    (path : String) (size : Option Int) (started : StartUploadResponse)
    (plan : UploadPlan) (parts : List UploadedPartResult) (fileKey : Bytes) :
    Except UploadError (UploadArtifacts × UploadCompleteRequest) := do
  let crypto := finalizer.crypto
  let details := finalizer.describeFileMime path
  let combinedChunkHashes :=
    parts.flatMap UploadedPartResult.combinedChunkHashes
  let manifest ← dumpJson finalizer.text
    (manifestJson details started plan parts)
  let encryptedManifest ← FileEncryptor.encryptChunk crypto nonces.manifest
    manifest fileKey (ArkiveAad.toBytes (ArkiveAad.makeFileManifest
      started.vaultId started.fileId))
  let encryptedHash := crypto.blake3Hash combinedChunkHashes
  let encryptedFileKey ← FileEncryptor.wrapFileKey crypto nonces.fileKey
    finalizer.masterKey fileKey started.vaultId started.fileId
  let thumbnail := sendThumbnail crypto nonces.thumbnail fileKey started attempt
  let metadata ← dumpJson finalizer.text
    (buildMetadata details size (previewMetadata thumbnail))
  let encryptedMetadata ← FileEncryptor.encryptMetadata crypto nonces.metadata
    metadata fileKey started.vaultId started.fileId
  let searchTokens ← finalizer.createSearchTokenEntries started.vaultId
    details.name
  return ({ fileKey := fileKey
            encryptedFileKey := encryptedFileKey
            encryptedMetadata := encryptedMetadata
            encryptedManifest := encryptedManifest
            encryptedHash := encryptedHash },
    { encryptedMetadata := encodeBase64 encryptedMetadata
      encryptedFileKey := encodeBase64 encryptedFileKey
      encryptedManifest := encodeBase64 encryptedManifest
      encryptedHash := encodeBase64 encryptedHash
      searchTokens := searchTokens
      hasThumbnail := thumbnail.hasThumbnail
      thumbnailMime := thumbnail.mime
      thumbnailWidth := thumbnail.width
      thumbnailHeight := thumbnail.height
      thumbnailSize := thumbnail.encryptedSize })

/-- `completeUpload`; `answer` is what `uploadComplete` does with the
request. -/
def completeUpload (finalizer : UploadFinalizer ν)
    (nonces : CompletionNonces ν) (attempt : ThumbnailAttempt)
    (answer : UploadCompleteRequest → Except UploadError Unit)
    (path : String) (size : Option Int) (started : StartUploadResponse)
    (plan : UploadPlan) (parts : List UploadedPartResult) (fileKey : Bytes) :
    Except UploadError (UploadArtifacts × UploadCompleteRequest) := do
  let prepared ← finalizer.prepareCompletion nonces attempt path size started
    plan parts fileKey
  answer prepared.2
  return prepared

/-! ## A successful completion -/

/-- What the request of a completed upload holds: the manifest of the parts
and some metadata under the file key, and the wrapped key itself. -/
structure Completes (finalizer : UploadFinalizer ν) (path : String)
    (started : StartUploadResponse) (plan : UploadPlan)
    (parts : List UploadedPartResult) (fileKey : Bytes)
    (request : UploadCompleteRequest) : Prop where
  manifest : ∃ nonce manifest encrypted,
    finalizer.text.dump (manifestJson (finalizer.describeFileMime path)
      started plan parts) = some manifest ∧
    finalizer.crypto.encryptChunk nonce fileKey
      (ArkiveAad.toBytes (ArkiveAad.makeFileManifest started.vaultId
        started.fileId)) manifest = some encrypted ∧
    request.encryptedManifest = encodeBase64 encrypted
  metadata : ∃ nonce metadata encrypted,
    finalizer.crypto.encryptChunk nonce fileKey
      (ArkiveAad.toBytes (ArkiveAad.makeFileMetadata started.vaultId
        started.fileId)) metadata = some encrypted ∧
    request.encryptedMetadata = encodeBase64 encrypted
  fileKey : ∃ nonce wrapped,
    finalizer.crypto.wrapFileKey nonce fileKey finalizer.masterKey
      (ArkiveAad.toBytes (ArkiveAad.makeFileKey started.vaultId
        started.fileId)) = some wrapped ∧
    request.encryptedFileKey = encodeBase64 wrapped

theorem dumpJson_ok {text : JsonText} {json : Json} {bytes : Bytes}
    (h : dumpJson text json = .ok bytes) : text.dump json = some bytes := by
  unfold dumpJson at h
  split at h
  · rename_i dumped hdump
    cases h
    exact hdump
  · cases h

/-- The value of a computation that does not throw, and of the rest. -/
theorem bind_ok {α β : Type} {x : Except UploadError α}
    {f : α → Except UploadError β} {b : β} (h : (x >>= f) = .ok b) :
    ∃ a, x = .ok a ∧ f a = .ok b := by
  cases x with
  | error e => cases h
  | ok a => exact ⟨a, rfl, h⟩

variable {finalizer : UploadFinalizer ν} {nonces : CompletionNonces ν}
variable {attempt : ThumbnailAttempt} {path : String} {size : Option Int}
variable {started : StartUploadResponse} {plan : UploadPlan}
variable {parts : List UploadedPartResult} {fileKey : Bytes}
variable {artifacts : UploadArtifacts} {request : UploadCompleteRequest}

theorem prepareCompletion_ok
    (h : finalizer.prepareCompletion nonces attempt path size started plan
      parts fileKey = .ok (artifacts, request)) :
    Completes finalizer path started plan parts fileKey request := by
  unfold prepareCompletion at h
  obtain ⟨manifest, hmanifest, h⟩ := bind_ok h
  obtain ⟨encryptedManifest, hencrypted, h⟩ := bind_ok h
  obtain ⟨wrapped, hwrapped, h⟩ := bind_ok h
  obtain ⟨metadata, -, h⟩ := bind_ok h
  obtain ⟨encryptedMetadata, hmetadata, h⟩ := bind_ok h
  obtain ⟨tokens, -, h⟩ := bind_ok h
  cases h
  exact ⟨⟨_, manifest, encryptedManifest, dumpJson_ok hmanifest,
      (FileEncryptor.encryptChunk_ok hencrypted).2, rfl⟩,
    ⟨_, metadata, encryptedMetadata,
      FileEncryptor.encryptMetadata_ok hmetadata, rfl⟩,
    ⟨_, wrapped, FileEncryptor.wrapFileKey_ok hwrapped, rfl⟩⟩

theorem completeUpload_ok
    {answer : UploadCompleteRequest → Except UploadError Unit}
    (h : finalizer.completeUpload nonces attempt answer path size started plan
      parts fileKey = .ok (artifacts, request)) :
    Completes finalizer path started plan parts fileKey request := by
  unfold completeUpload at h
  obtain ⟨prepared, hprepared, h⟩ := bind_ok h
  obtain ⟨_, -, h⟩ := bind_ok h
  cases h
  exact prepareCompletion_ok hprepared

end UploadFinalizer

end ArkiveSync
