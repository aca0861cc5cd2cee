import ArkiveSync.Model.Mime
import ArkiveSync.Model.QueueCrashes
import ArkiveSync.Model.RemoteScanner
import ArkiveSync.Model.UploadBatch
import ArkiveSync.Model.UploadFinalizer

/-!
# Uploading a tree

The rows of a tree, the queue and the objects at the server: rows are found,
pages of rows are passed to the queue, and the jobs of the queue create folders
and files.  Every request that reaches the server is answered, and the answer is
recorded.

What is created has the ciphertexts that `FolderCreateWorker` and
`UploadFinalizer` make; `nameVault` is what a remote scan of the same client
reads them with.

## Main results

* `bytesOf_textOf`: a text of bytes has these bytes.
-/

namespace ArkiveSync

open Library

/-! ## The client -/

/-- What the client works with: the libraries, the master key of the unlocked
vault, the account it is signed in to and the search index. -/
structure UploadClient (ν : Type) where
  crypto : RustCrypto ν
  text : JsonText
  masterKey : Bytes
  userId : String
  signedIn : userId ≠ ""
  createSearchTokenEntries : String → String →
    Except UploadError (List UploadCompleteSearchToken)

/-- `CreateFolderRequest`. -/
structure CreateFolderRequest where
  parentFolderId : Option String
  encryptedName : String
  encryptedMetadata : String
  searchTokens : List UploadCompleteSearchToken

namespace ArkiveAad

/-- `kFolderName`. -/
def kFolderName : String := "arkive:folder-name:v1"

/-- `kFolderMetadata`. -/
def kFolderMetadata : String := "arkive:folder-metadata:v1"

end ArkiveAad

namespace FileEncryptor

/-- `encryptFolderName`. -/
def encryptFolderName {ν : Type} (crypto : RustCrypto ν) (nonce : ν)
    (masterKey metadataJson : Bytes) : Except UploadError Bytes :=
  takeBytesResult (crypto.encryptChunk nonce masterKey
    (ArkiveAad.toBytes ArkiveAad.kFolderName) metadataJson)
    "arkive_encrypt_chunk"

/-- `encryptFolderMetadata`. -/
def encryptFolderMetadata {ν : Type} (crypto : RustCrypto ν) (nonce : ν)
    (masterKey metadataJson : Bytes) : Except UploadError Bytes :=
  takeBytesResult (crypto.encryptChunk nonce masterKey
    (ArkiveAad.toBytes ArkiveAad.kFolderMetadata) metadataJson)
    "arkive_encrypt_chunk"

end FileEncryptor

/-- A text with one character for each byte. -/
def textOf (bytes : Bytes) : String :=
  String.ofList (bytes.map (fun b => Char.ofNat b.toNat))

/-- The bytes of such a text. -/
def bytesOf (text : String) : Bytes :=
  text.toList.map (fun c => UInt8.ofNat c.toNat)

theorem bytesOf_textOf (bytes : Bytes) : bytesOf (textOf bytes) = bytes := by
  have hbyte : ∀ b : UInt8, UInt8.ofNat (Char.ofNat b.toNat).toNat = b := by
    intro b
    have hlt : b.toNat < 256 := b.toNat_lt
    have hvalid : b.toNat.isValidChar := Or.inl (by omega)
    have hchar : (Char.ofNat b.toNat).toNat = b.toNat := by
      unfold Char.ofNat
      rw [dif_pos hvalid]
      rfl
    rw [hchar, UInt8.ofNat_toNat]
  unfold bytesOf textOf
  rw [String.toList_ofList, List.map_map]
  exact (List.map_congr_left (fun b _ => hbyte b)).trans (List.map_id bytes)

namespace UploadClient

variable {ν : Type} (client : UploadClient ν)

/-- The finalizer of the client's uploads. -/
def finalizer : UploadFinalizer ν :=
  { crypto := client.crypto
    text := client.text
    masterKey := client.masterKey
    describeFileMime := fun path => Mime.describeFileMime (FsPath.parse path)
    createSearchTokenEntries := client.createSearchTokenEntries }

/-- The request of `FolderCreateWorker::run`. -/
def folderRequest (nameNonce metadataNonce : ν) (job : TransferJob)
    (folderName : String) : Except UploadError CreateFolderRequest := do
  let metadata := Json.object [("name", .string folderName)]
  let nameJson ← UploadFinalizer.dumpJson client.text metadata
  let encryptedName ← FileEncryptor.encryptFolderName client.crypto nameNonce
    client.masterKey nameJson
  let metadataJson ← UploadFinalizer.dumpJson client.text metadata
  let encryptedMetadata ← FileEncryptor.encryptFolderMetadata client.crypto
    metadataNonce client.masterKey metadataJson
  let searchTokens ← client.createSearchTokenEntries client.userId folderName
  return { parentFolderId := job.remoteFolderId
           encryptedName := encodeBase64 encryptedName
           encryptedMetadata := encodeBase64 encryptedMetadata
           searchTokens := searchTokens }

/-- What a remote scan reads names with. -/
def nameVault : NameVault :=
  { unlocked := true
    userId := some client.userId
    folderPlaintext := fun encryptedName =>
      (decodeBase64 encryptedName).bind (fun ciphertext =>
        (client.crypto.decryptChunk client.masterKey
          (ArkiveAad.toBytes ArkiveAad.kFolderName) ciphertext).map textOf)
    filePlaintext := fun userId remoteId encryptedFileKey encryptedMetadata =>
      (decodeBase64 encryptedFileKey).bind (fun wrapped =>
        (client.crypto.unwrapFileKey wrapped client.masterKey
          (ArkiveAad.toBytes (ArkiveAad.makeFileKey userId remoteId))).bind
            (fun fileKey =>
              (decodeBase64 encryptedMetadata).bind (fun ciphertext =>
                (client.crypto.decryptChunk fileKey
                  (ArkiveAad.toBytes (ArkiveAad.makeFileMetadata userId
                    remoteId)) ciphertext).map textOf)))
    parseJson := fun plaintext => client.text.parse (bytesOf plaintext) }

end UploadClient

/-! ## The server -/

/-- A folder or a file at the server, with the ciphertexts it was created
with. -/
structure RemoteObject where
  id : String
  parentFolderId : Option String
  isFolder : Bool
  encryptedName : Option String
  encryptedMetadata : Option String
  encryptedFileKey : Option String

namespace RemoteObject

/-- The folder that a request creates. -/
def ofFolder (id : String) (request : CreateFolderRequest) : RemoteObject :=
  { id := id
    parentFolderId := request.parentFolderId
    isFolder := true
    encryptedName := some request.encryptedName
    encryptedMetadata := some request.encryptedMetadata
    encryptedFileKey := none }

/-- The file that a completed upload creates. -/
def ofFile (fileId : String) (folderId : Option String)
    (request : UploadCompleteRequest) : RemoteObject :=
  { id := fileId
    parentFolderId := folderId
    isFolder := false
    encryptedName := none
    encryptedMetadata := some request.encryptedMetadata
    encryptedFileKey := some request.encryptedFileKey }

end RemoteObject

/-- The listing of an object. -/
structure Shows (o : RemoteObject) (entry : SyncEntryResponse) : Prop where
  remoteId : entry.remoteId = o.id
  type : entry.type = if o.isFolder then "folder" else "file"
  folder : o.isFolder = true → entry.remoteFolderId = some o.id
  live : entry.deletedAt = none
  encryptedName : entry.encryptedName = o.encryptedName
  encryptedMetadata : entry.encryptedMetadata = o.encryptedMetadata
  encryptedFileKey : entry.encryptedFileKey = o.encryptedFileKey

/-- One response lists the objects that were created in a folder. -/
def Lists (getJson : String → Option Json) (objects : List RemoteObject)
    (folderId : String) : Prop :=
  ∃ response, RemoteScanner.fetchEntries getJson (some folderId) =
      some response ∧
    (∀ o ∈ objects, o.parentFolderId = some folderId →
      ∃ entry ∈ response.entries, Shows o entry) ∧
    ∀ entry ∈ response.entries,
      ∃ o ∈ objects, o.parentFolderId = some folderId ∧ Shows o entry

/-! ## Runs -/

/-- The tables of the client and the objects at the server. -/
structure UploadAccount where
  store : SyncStore
  objects : List RemoteObject

/-- The rows are those of trees of directories and files: paths are made of
plain names, and nothing lies below a file. -/
structure TreeRows (t : EntryTable) : Prop where
  path : ∀ e ∈ t.rows, ∃ names name, e.relativePath =
      FsPath.relativeText (names ++ [name]) ∧
    ∀ n ∈ names ++ [name], FsPath.Plain n ∧ FsPath.Proper n
  parent : ∀ e ∈ t.rows, ∀ names name, e.relativePath =
      FsPath.relativeText (names ++ [name]) →
    ∀ p ∈ t.rows, p.syncRootId = e.syncRootId →
      p.relativePath = FsPath.relativeText names → p.isDirectory = true

/-- The ids of created objects are new ones. -/
structure NewIds (roots : List SyncRoot) (objects created : List RemoteObject) :
    Prop where
  different : (created.map RemoteObject.id).Nodup
  unused : ∀ o ∈ created, ∀ other ∈ objects, other.id ≠ o.id
  noRoot : ∀ o ∈ created, ∀ root ∈ roots, root.folderId ≠ o.id

variable {ν : Type} (client : UploadClient ν)

/-- What a folder job creates. -/
inductive FolderCreated (env : QueueEnv) (job : TransferJob) (s : SyncStore) :
    List RemoteObject → Prop where
  | nothing (h : FolderCreateWorker.run env job s = none) :
      FolderCreated env job s []
  | folder (name id : String) (parentFolderId : Option String)
      (nameNonce metadataNonce : ν) (request : CreateFolderRequest)
      (hname : FolderCreateWorker.request job s = some name)
      (hrequest : client.folderRequest nameNonce metadataNonce job name =
        .ok request)
      (hanswer : env.createFolder job name = some (id, parentFolderId)) :
      FolderCreated env job s [RemoteObject.ofFolder id request]

/-- What the upload of an item creates. -/
structure FileCreated (s : SyncStore) (record : TransferJob × Entry × String)
    (o : RemoteObject) : Prop where
  created : ∃ path started plan parts fileKey nonces attempt artifacts request,
    FsPath.parse path = UploadJobRunner.absolutePath s record.2.1 ∧
    started.fileId = record.2.2 ∧ started.vaultId = client.userId ∧
    client.finalizer.prepareCompletion nonces attempt path record.2.1.size
      started plan parts fileKey = .ok (artifacts, request) ∧
    o = RemoteObject.ofFile record.2.2 record.2.1.parentFolderId request

/-- The uploads of a batch that the server has answered. -/
def answeredUploads (env : QueueEnv) (disk : Disk) (jobs : List TransferJob)
    (s : SyncStore) : List (TransferJob × Entry × String) :=
  let items := UploadJobRunner.itemsOf (jobs.map (fun job =>
    (job, UploadJobRunner.prepareUploadItem env.cwd disk s job)))
  UploadJobRunner.recordsOf (env.uploadFilesBatch items) items

/-- One step: rows are found, rows are passed to the queue, or the queue takes a
folder job or a batch of uploads. -/
inductive UploadStep : UploadAccount → UploadAccount → Prop where
  | find (s : UploadAccount) (t : EntryTable) (htree : TreeRows t)
      (hkept : ∀ e ∈ s.store.entries.rows, e ∈ t.rows)
      (hnew : ∀ e ∈ t.rows, e ∈ s.store.entries.rows ∨ e.remoteId = none) :
      UploadStep s { s with store := { s.store with entries := t } }
  | produce (s : UploadAccount) (root : SyncRoot) (page : List Entry)
      (hroot : SyncRepo.findSyncRootById s.store.roots root.id = some root)
      (hpage : ∀ e ∈ page, e ∈ s.store.entries.rows ∧ e.syncRootId = root.id) :
      UploadStep s
        { s with store := QueueService.enqueuePage root page s.store }
  | folder (s : UploadAccount) (env : QueueEnv) (job : TransferJob)
      (queue : TransferQueue) (created : List RemoteObject)
      (hclaim : QueueRepo.claimNextQueuedByType s.store.queue .createFolder =
        some (job, queue))
      (hcreated : FolderCreated client env job { s.store with queue := queue }
        created)
      (hnew : NewIds s.store.roots s.objects created) :
      UploadStep s
        { store := QueueService.runFolderJob env job
            { s.store with queue := queue }
          objects := s.objects ++ created }
  | uploads (s : UploadAccount) (env : QueueEnv) (disk : Disk)
      (jobs : List TransferJob) (queue : TransferQueue)
      (created : List RemoteObject)
      (hclaim : QueueService.claimUploads kUploadBatchSize s.store.queue =
        (jobs, queue))
      (hcreated : List.Forall₂
        (FileCreated client { s.store with queue := queue })
        (answeredUploads env disk jobs { s.store with queue := queue }) created)
      (hnew : NewIds s.store.roots s.objects created) :
      UploadStep s
        { store := QueueService.runUploadBatch env disk jobs
            { s.store with queue := queue }
          objects := s.objects ++ created }

/-- Nothing is uploaded yet. -/
structure NothingUploaded (s : UploadAccount) : Prop where
  tree : TreeRows s.store.entries
  rows : ∀ e ∈ s.store.entries.rows, e.remoteId = none
  queue : s.store.queue.jobs = []
  objects : s.objects = []
  roots : ∀ root ∈ s.store.roots, ∀ other ∈ s.store.roots,
    root.folderId = other.folderId → root.folderId ≠ "" → root.id = other.id

end ArkiveSync
