import ArkiveSync.Model.SyncReconciler

/-!
# Encrypting file contents

The crypto library is a parameter, `RustCrypto`; its random nonces are explicit
arguments.  Around it stand the functions of `FileEncryptor`, which refuse an
empty key, and the additional data (AAD) that every ciphertext is bound to.
The vault is unlocked: otherwise the functions that need the master key throw.
-/

namespace ArkiveSync

/-- The exceptions of an upload. -/
inductive UploadError where
  | http (statusCode : Int)
  | invalidArgument (message : String)
  | runtime (message : String)
  deriving DecidableEq, Repr

/-- `RustCrypto`, as far as files use it; `none` is a call that throws. -/
structure RustCrypto (ν : Type) where
  encryptChunk : ν → (key aad input : Bytes) → Option Bytes
  decryptChunk : (key aad input : Bytes) → Option Bytes
  blake3Hash : Bytes → Bytes
  wrapFileKey : ν → (fileKey masterKey aad : Bytes) → Option Bytes
  unwrapFileKey : (encrypted masterKey aad : Bytes) → Option Bytes

/-- Authenticated encryption: decryption under the key and the additional data
of the encryption gives the input back, and a ciphertext is never empty since
it carries its tag. -/
structure RustCrypto.Authentic {ν : Type} (crypto : RustCrypto ν) : Prop where
  decrypt_encrypt : ∀ nonce key aad input output,
    crypto.encryptChunk nonce key aad input = some output →
      crypto.decryptChunk key aad output = some input
  ciphertext_nonempty : ∀ nonce key aad input output,
    crypto.encryptChunk nonce key aad input = some output → output ≠ []
  unwrap_wrap : ∀ nonce fileKey masterKey aad output,
    crypto.wrapFileKey nonce fileKey masterKey aad = some output →
      crypto.unwrapFileKey output masterKey aad = some fileKey

/-! ## Additional data -/

namespace ArkiveAad

/-- `toBytes`. -/
def toBytes (value : String) : Bytes := value.toUTF8.toList

/-- `appendScopedAad`: the parts separated by colons behind the prefix. -/
def appendScopedAad (pre : String) (parts : List String) : String :=
  pre ++ ":".intercalate parts

/-- `makeFileKey`. -/
def makeFileKey (vaultId fileId : String) : String :=
  appendScopedAad "arkive:file-key:v1:" [vaultId, fileId]

/-- `makeFileMetadata`. -/
def makeFileMetadata (vaultId fileId : String) : String :=
  appendScopedAad "arkive:file-metadata:v1:" [vaultId, fileId]

/-- `makeFileManifest`. -/
def makeFileManifest (vaultId fileId : String) : String :=
  appendScopedAad "arkive:file-manifest:v1:" [vaultId, fileId]

/-- `makeFileThumbnail`. -/
def makeFileThumbnail (vaultId fileId : String) : String :=
  appendScopedAad "arkive:file-thumbnail:v1:" [vaultId, fileId]

/-- `makeFileChunk`. -/
def makeFileChunk (vaultId fileId : String)
    (chunkIndex chunkSize totalChunks : Int) : String :=
  appendScopedAad "arkive:file-chunk:v1:"
    [vaultId, fileId, toString chunkIndex, toString chunkSize,
      toString totalChunks]

/-- `makeResumeFileKey`. -/
def makeResumeFileKey (uploadSessionId : String) : String :=
  appendScopedAad "arkive:resume-file-key:v1:" [uploadSessionId]

end ArkiveAad

/-! ## `FileEncryptor` -/

namespace FileEncryptor

variable {ν : Type} (crypto : RustCrypto ν)

/-- `takeBytesResult`. -/
def takeBytesResult (result : Option Bytes) (fnName : String) :
    Except UploadError Bytes :=
  match result with
  | some bytes => .ok bytes
  | none => .error (.runtime (fnName ++ " failed"))

theorem takeBytesResult_ok {result : Option Bytes} {fnName : String}
    {bytes : Bytes} (h : takeBytesResult result fnName = .ok bytes) :
    result = some bytes := by
  cases result with
  | none => cases h
  | some b =>
      cases h
      rfl

/-- `encryptChunk`. -/
def encryptChunk (nonce : ν) (plaintextChunk fileKey aad : Bytes) :
    Except UploadError Bytes :=
  if fileKey = [] then
    .error (.invalidArgument "fileKey cannot be empty")
  else
    takeBytesResult (crypto.encryptChunk nonce fileKey aad plaintextChunk)
      "arkive_encrypt_chunk"

/-- `wrapFileKey`. -/
def wrapFileKey (nonce : ν) (masterKey fileKey : Bytes)
    (vaultId fileId : String) : Except UploadError Bytes :=
  if fileKey = [] then
    .error (.invalidArgument "fileKey cannot be empty")
  else
    takeBytesResult (crypto.wrapFileKey nonce fileKey masterKey
      (ArkiveAad.toBytes (ArkiveAad.makeFileKey vaultId fileId)))
      "arkive_wrap_file_key"

/-- `encryptMetadata`. -/
def encryptMetadata (nonce : ν) (metadataJson fileKey : Bytes)
    (vaultId fileId : String) : Except UploadError Bytes :=
  if fileKey = [] then
    .error (.invalidArgument "fileKey cannot be empty")
  else
    takeBytesResult (crypto.encryptChunk nonce fileKey
      (ArkiveAad.toBytes (ArkiveAad.makeFileMetadata vaultId fileId))
      metadataJson) "arkive_encrypt_chunk"

/-- `encryptResumeFileKey`. -/
def encryptResumeFileKey (nonce : ν) (masterKey fileKey : Bytes)
    (uploadSessionId : String) : Except UploadError Bytes :=
  if fileKey = [] then
    .error (.invalidArgument "fileKey cannot be empty")
  else
    takeBytesResult (crypto.encryptChunk nonce masterKey
      (ArkiveAad.toBytes (ArkiveAad.makeResumeFileKey uploadSessionId))
      fileKey) "arkive_encrypt_chunk"

/-- `decryptResumeFileKey`. -/
def decryptResumeFileKey (masterKey encryptedFileKeyBlob : Bytes)
    (uploadSessionId : String) : Except UploadError Bytes :=
  if encryptedFileKeyBlob = [] then
    .error (.invalidArgument "encryptedFileKeyBlob cannot be empty")
  else
    takeBytesResult (crypto.decryptChunk masterKey
      (ArkiveAad.toBytes (ArkiveAad.makeResumeFileKey uploadSessionId))
      encryptedFileKeyBlob) "arkive_decrypt_chunk"

variable {crypto} {nonce : ν}

theorem encryptChunk_ok {plaintextChunk fileKey aad output : Bytes}
    (h : encryptChunk crypto nonce plaintextChunk fileKey aad = .ok output) :
    fileKey ≠ [] ∧
      crypto.encryptChunk nonce fileKey aad plaintextChunk = some output := by
  unfold encryptChunk at h
  split at h
  · cases h
  · rename_i hkey
    exact ⟨hkey, takeBytesResult_ok h⟩

theorem wrapFileKey_ok {masterKey fileKey output : Bytes}
    {vaultId fileId : String}
    (h : wrapFileKey crypto nonce masterKey fileKey vaultId fileId =
      .ok output) :
    crypto.wrapFileKey nonce fileKey masterKey
      (ArkiveAad.toBytes (ArkiveAad.makeFileKey vaultId fileId)) =
        some output := by
  unfold wrapFileKey at h
  split at h
  · cases h
  · exact takeBytesResult_ok h

theorem encryptMetadata_ok {metadataJson fileKey output : Bytes}
    {vaultId fileId : String}
    (h : encryptMetadata crypto nonce metadataJson fileKey vaultId fileId =
      .ok output) :
    crypto.encryptChunk nonce fileKey
      (ArkiveAad.toBytes (ArkiveAad.makeFileMetadata vaultId fileId))
      metadataJson = some output := by
  unfold encryptMetadata at h
  split at h
  · cases h
  · exact takeBytesResult_ok h

/-- The key of a session is recovered from the blob that was stored for it. -/
theorem decrypt_encryptResumeFileKey (hcrypto : crypto.Authentic)
    {masterKey fileKey blob recovered : Bytes} {uploadSessionId : String}
    (hblob : encryptResumeFileKey crypto nonce masterKey fileKey
      uploadSessionId = .ok blob)
    (h : decryptResumeFileKey crypto masterKey blob uploadSessionId =
      .ok recovered) : recovered = fileKey := by
  unfold encryptResumeFileKey at hblob
  unfold decryptResumeFileKey at h
  split at hblob
  · cases hblob
  · split at h
    · cases h
    · have hencrypt := takeBytesResult_ok hblob
      have hdecrypt := takeBytesResult_ok h
      rw [hcrypto.decrypt_encrypt _ _ _ _ _ hencrypt] at hdecrypt
      exact (Option.some.inj hdecrypt).symm

end FileEncryptor

end ArkiveSync
