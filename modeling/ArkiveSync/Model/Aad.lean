import ArkiveSync.Library.PrefixCode
import ArkiveSync.Model.TreeUpload
import ArkiveSync.Model.VaultService
import Mathlib.Data.Fintype.Basic

/-!
# Additional authenticated data

The constructors and constants of `crypto/Aad.hpp` that no service of the
daemon calls, and all of them as one type: an AAD is a constant, or a prefix
and the arguments of its constructor joined by colons.

## Main results

* `Aad.value_eq_tagged`: the text of an AAD is the code word of its kind
  followed by its parts.
* `kindPrefix_prefixFree`: no prefix or constant begins another.
-/

namespace ArkiveSync

open Library

namespace ArkiveAad

/-- `makeShareKey`. -/
def makeShareKey (token : String) : String :=
  appendScopedAad "arkive:share-key:v1:" [token]

/-- `makeShareFileKey`. -/
def makeShareFileKey (fileId token : String) : String :=
  appendScopedAad "arkive:share-file-key:v1:" [fileId, token]

/-- `makeMasterKeyRecovery`. -/
def makeMasterKeyRecovery (userId : String) : String :=
  appendScopedAad "arkive:master-key:recovery:v1:" [userId]

/-- `makeMasterKeyPassword`. -/
def makeMasterKeyPassword (userId : String) : String :=
  appendScopedAad "arkive:master-key:password:v1:" [userId]

/-- `makeLocalPath`. -/
def makeLocalPath (scopeId pathHash : String) : String :=
  appendScopedAad "arkive:local-path:v1:" [scopeId, pathHash]

/-- `kLocalPathKey`. -/
def kLocalPathKey : String := "arkive:local-path-key:v1"

/-- `kLocalPathHashKey`. -/
def kLocalPathHashKey : String := "arkive:local-path-hash:v1"

end ArkiveAad

/-- Which constant or constructor an AAD comes from. -/
inductive AadKind
  | masterKey | sessionMasterKey | folderName | folderMetadata
  | localPathKey | localPathHashKey
  | fileKey | fileMetadata | fileManifest | fileThumbnail | fileChunk
  | shareKey | shareFileKey | masterKeyRecovery | masterKeyPassword
  | localPath | resumeFileKey
  deriving DecidableEq, Repr

instance : Fintype AadKind where
  elems := {.masterKey, .sessionMasterKey, .folderName, .folderMetadata,
    .localPathKey, .localPathHashKey, .fileKey, .fileMetadata, .fileManifest,
    .fileThumbnail, .fileChunk, .shareKey, .shareFileKey, .masterKeyRecovery,
    .masterKeyPassword, .localPath, .resumeFileKey}
  complete k := by cases k <;> decide

/-- An AAD with the arguments it is made of. -/
inductive Aad
  | masterKey | sessionMasterKey | folderName | folderMetadata
  | localPathKey | localPathHashKey
  | fileKey (vaultId fileId : String)
  | fileMetadata (vaultId fileId : String)
  | fileManifest (vaultId fileId : String)
  | fileThumbnail (vaultId fileId : String)
  | fileChunk (vaultId fileId : String)
      (chunkIndex chunkSize totalChunks : Int)
  | shareKey (token : String)
  | shareFileKey (fileId token : String)
  | masterKeyRecovery (userId : String)
  | masterKeyPassword (userId : String)
  | localPath (scopeId pathHash : String)
  | resumeFileKey (uploadSessionId : String)
  deriving DecidableEq, Repr

namespace Aad

/-- The text that `Aad.hpp` has for it. -/
def value : Aad → String
  | masterKey => ArkiveAad.kMasterKey
  | sessionMasterKey => ArkiveAad.kSessionMasterKey
  | folderName => ArkiveAad.kFolderName
  | folderMetadata => ArkiveAad.kFolderMetadata
  | localPathKey => ArkiveAad.kLocalPathKey
  | localPathHashKey => ArkiveAad.kLocalPathHashKey
  | fileKey vaultId fileId => ArkiveAad.makeFileKey vaultId fileId
  | fileMetadata vaultId fileId => ArkiveAad.makeFileMetadata vaultId fileId
  | fileManifest vaultId fileId => ArkiveAad.makeFileManifest vaultId fileId
  | fileThumbnail vaultId fileId => ArkiveAad.makeFileThumbnail vaultId fileId
  | fileChunk vaultId fileId chunkIndex chunkSize totalChunks =>
      ArkiveAad.makeFileChunk vaultId fileId chunkIndex chunkSize totalChunks
  | shareKey token => ArkiveAad.makeShareKey token
  | shareFileKey fileId token => ArkiveAad.makeShareFileKey fileId token
  | masterKeyRecovery userId => ArkiveAad.makeMasterKeyRecovery userId
  | masterKeyPassword userId => ArkiveAad.makeMasterKeyPassword userId
  | localPath scopeId pathHash => ArkiveAad.makeLocalPath scopeId pathHash
  | resumeFileKey uploadSessionId =>
      ArkiveAad.makeResumeFileKey uploadSessionId

/-- The constant or constructor. -/
def kind : Aad → AadKind
  | masterKey => .masterKey
  | sessionMasterKey => .sessionMasterKey
  | folderName => .folderName
  | folderMetadata => .folderMetadata
  | localPathKey => .localPathKey
  | localPathHashKey => .localPathHashKey
  | fileKey .. => .fileKey
  | fileMetadata .. => .fileMetadata
  | fileManifest .. => .fileManifest
  | fileThumbnail .. => .fileThumbnail
  | fileChunk .. => .fileChunk
  | shareKey .. => .shareKey
  | shareFileKey .. => .shareFileKey
  | masterKeyRecovery .. => .masterKeyRecovery
  | masterKeyPassword .. => .masterKeyPassword
  | localPath .. => .localPath
  | resumeFileKey .. => .resumeFileKey

/-- The strings among the arguments. -/
def ids : Aad → List String
  | masterKey | sessionMasterKey | folderName | folderMetadata
  | localPathKey | localPathHashKey => []
  | fileKey a b | fileMetadata a b | fileManifest a b | fileThumbnail a b
  | fileChunk a b _ _ _ | shareFileKey a b | localPath a b => [a, b]
  | shareKey a | masterKeyRecovery a | masterKeyPassword a
  | resumeFileKey a => [a]

/-- What is joined by colons: the ids, and the integers in decimal. -/
def parts : Aad → List String
  | fileChunk a b chunkIndex chunkSize totalChunks =>
      [a, b, toString chunkIndex, toString chunkSize, toString totalChunks]
  | aad => aad.ids

/-- The text with which every AAD of a kind begins. -/
def kindPrefix : AadKind → String
  | .masterKey => "arkive:master-key:v1"
  | .sessionMasterKey => "arkive:session-master-key:v1"
  | .folderName => "arkive:folder-name:v1"
  | .folderMetadata => "arkive:folder-metadata:v1"
  | .localPathKey => "arkive:local-path-key:v1"
  | .localPathHashKey => "arkive:local-path-hash:v1"
  | .fileKey => "arkive:file-key:v1:"
  | .fileMetadata => "arkive:file-metadata:v1:"
  | .fileManifest => "arkive:file-manifest:v1:"
  | .fileThumbnail => "arkive:file-thumbnail:v1:"
  | .fileChunk => "arkive:file-chunk:v1:"
  | .shareKey => "arkive:share-key:v1:"
  | .shareFileKey => "arkive:share-file-key:v1:"
  | .masterKeyRecovery => "arkive:master-key:recovery:v1:"
  | .masterKeyPassword => "arkive:master-key:password:v1:"
  | .localPath => "arkive:local-path:v1:"
  | .resumeFileKey => "arkive:resume-file-key:v1:"

/-- The constants are joined of no parts. -/
theorem value_eq (aad : Aad) :
    aad.value = ArkiveAad.appendScopedAad (kindPrefix aad.kind) aad.parts := by
  cases aad <;> rfl

theorem value_eq_tagged (aad : Aad) :
    aad.value.toList = tagged (fun k => (kindPrefix k).toList) ':' aad.kind
      (aad.parts.map String.toList) := by
  rw [value_eq, ArkiveAad.appendScopedAad, String.toList_append,
    String.toList_intercalate]
  rfl

/-- Two different prefixes part at some character. -/
theorem kindPrefix_prefixFree :
    PrefixFree (fun k => (kindPrefix k).toList) := by
  have hall : ∀ k k' : AadKind,
      (kindPrefix k).toList <+: (kindPrefix k').toList → k = k' := by
    decide +kernel
  exact hall

end Aad

end ArkiveSync
