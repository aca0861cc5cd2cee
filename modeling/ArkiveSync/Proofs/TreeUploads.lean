import ArkiveSync.Model.TreeUpload
import ArkiveSync.Proofs.Pagination
import ArkiveSync.Proofs.QueueReruns

/-!
# What an upload of a tree leaves at the server

Every row with a remote id has one object at the server.  The object lies in the
folder of its parent's row, and its name decrypts to the last name of the row's
path.

## Main results

* `folder_name`, `file_name`: what is written by the workers is read by the
  scanner.
* `Sound.record`: a row gets its object.
* `uploads_sound`: what holds of every run of uploads.
-/

namespace ArkiveSync.TreeUploads

open Library RemoteScanner QueueService QueueReruns

/-! ## Names -/

section Names

variable {ν : Type} {client : UploadClient ν}

theorem encoded_ne_empty (hcrypto : client.crypto.Authentic) {nonce : ν}
    {key aad input output : Bytes}
    (h : client.crypto.encryptChunk nonce key aad input = some output) :
    encodeBase64 output ≠ "" := by
  intro hempty
  have hround := decodeBase64_encodeBase64 output
  rw [hempty] at hround
  have hnone : decodeBase64 "" = some [] := by decide
  rw [hnone] at hround
  exact hcrypto.ciphertext_nonempty _ _ _ _ _ h (Option.some.inj hround).symm

/-- The name of a folder is read back. -/
theorem folder_name (hcrypto : client.crypto.Authentic)
    (htext : client.text.Faithful) {nameNonce metadataNonce : ν}
    {job : TransferJob} {name id : String} {request : CreateFolderRequest}
    (hrequest : client.folderRequest nameNonce metadataNonce job name =
      .ok request) {entry : SyncEntryResponse}
    (hshows : Shows (RemoteObject.ofFolder id request) entry) :
    decryptEntryName client.nameVault entry = some (some name) := by
  unfold UploadClient.folderRequest at hrequest
  obtain ⟨nameJson, hdump, hrequest⟩ := UploadFinalizer.bind_ok hrequest
  obtain ⟨ciphertext, hencrypt, hrequest⟩ := UploadFinalizer.bind_ok hrequest
  obtain ⟨metadataJson, -, hrequest⟩ := UploadFinalizer.bind_ok hrequest
  obtain ⟨metadata, -, hrequest⟩ := UploadFinalizer.bind_ok hrequest
  obtain ⟨tokens, -, hrequest⟩ := UploadFinalizer.bind_ok hrequest
  cases hrequest
  have hcipher := FileEncryptor.takeBytesResult_ok hencrypt
  have hplain := hcrypto.decrypt_encrypt _ _ _ _ _ hcipher
  have hparse := htext _ _ (UploadFinalizer.dumpJson_ok hdump)
  have hfolder : entry.type = "folder" := hshows.type
  have hname : entry.encryptedName = some (encodeBase64 ciphertext) :=
    hshows.encryptedName
  have hsome : (encodeBase64 ciphertext).isEmpty = false := by
    simpa using encoded_ne_empty hcrypto hcipher
  unfold decryptEntryName UploadClient.nameVault
  simp only [hfolder, hname, Option.getD_some, hsome, Bool.and_false,
    Bool.not_true, Bool.false_eq_true, if_false, beq_self_eq_true, if_true,
    decodeBase64_encodeBase64, Option.bind_some, hplain, Option.map_some,
    bytesOf_textOf, hparse]
  rfl

/-- What a prepared completion says of the file. -/
theorem prepareCompletion_metadata {finalizer : UploadFinalizer ν}
    {nonces : CompletionNonces ν} {attempt : ThumbnailAttempt} {path : String}
    {size : Option Int} {started : StartUploadResponse} {plan : UploadPlan}
    {parts : List UploadedPartResult} {fileKey : Bytes}
    {artifacts : UploadArtifacts} {request : UploadCompleteRequest}
    (h : finalizer.prepareCompletion nonces attempt path size started plan
      parts fileKey = .ok (artifacts, request)) :
    ∃ preview metadata encrypted wrapped,
      finalizer.text.dump (UploadFinalizer.buildMetadata
        (finalizer.describeFileMime path) size preview) = some metadata ∧
      finalizer.crypto.encryptChunk nonces.metadata fileKey
        (ArkiveAad.toBytes (ArkiveAad.makeFileMetadata started.vaultId
          started.fileId)) metadata = some encrypted ∧
      request.encryptedMetadata = encodeBase64 encrypted ∧
      finalizer.crypto.wrapFileKey nonces.fileKey fileKey finalizer.masterKey
        (ArkiveAad.toBytes (ArkiveAad.makeFileKey started.vaultId
          started.fileId)) = some wrapped ∧
      request.encryptedFileKey = encodeBase64 wrapped := by
  unfold UploadFinalizer.prepareCompletion at h
  obtain ⟨manifest, -, h⟩ := UploadFinalizer.bind_ok h
  obtain ⟨encryptedManifest, -, h⟩ := UploadFinalizer.bind_ok h
  obtain ⟨wrapped, hwrapped, h⟩ := UploadFinalizer.bind_ok h
  obtain ⟨metadata, hmetadata, h⟩ := UploadFinalizer.bind_ok h
  obtain ⟨encryptedMetadata, hencrypted, h⟩ := UploadFinalizer.bind_ok h
  obtain ⟨tokens, -, h⟩ := UploadFinalizer.bind_ok h
  cases h
  exact ⟨_, metadata, encryptedMetadata, wrapped,
    UploadFinalizer.dumpJson_ok hmetadata,
    FileEncryptor.encryptMetadata_ok hencrypted, rfl,
    FileEncryptor.wrapFileKey_ok hwrapped, rfl⟩

/-- The name of a file is read back. -/
theorem file_name (hcrypto : client.crypto.Authentic)
    (htext : client.text.Faithful) {nonces : CompletionNonces ν}
    {attempt : ThumbnailAttempt} {path : String} {size : Option Int}
    {started : StartUploadResponse} {plan : UploadPlan}
    {parts : List UploadedPartResult} {fileKey : Bytes}
    {artifacts : UploadArtifacts} {request : UploadCompleteRequest}
    {folderId : Option String} (hvault : started.vaultId = client.userId)
    (hprepared : client.finalizer.prepareCompletion nonces attempt path size
      started plan parts fileKey = .ok (artifacts, request))
    {entry : SyncEntryResponse}
    (hshows : Shows (RemoteObject.ofFile started.fileId folderId request)
      entry) :
    decryptEntryName client.nameVault entry =
      some (some (FsPath.parse path).filename) := by
  obtain ⟨preview, metadata, encrypted, wrapped, hdump, hencrypt, hsent,
    hwrap, hkey⟩ := prepareCompletion_metadata hprepared
  rw [hvault] at hencrypt hwrap
  have hplain := hcrypto.decrypt_encrypt _ _ _ _ _ hencrypt
  have hunwrap := hcrypto.unwrap_wrap _ _ _ _ _ hwrap
  have hparse := htext _ _ hdump
  have hfile : entry.type = "file" := hshows.type
  have hid : entry.remoteId = started.fileId := hshows.remoteId
  have hmetadata : entry.encryptedMetadata = some (encodeBase64 encrypted) := by
    rw [← hsent]
    exact hshows.encryptedMetadata
  have hfileKey : entry.encryptedFileKey = some (encodeBase64 wrapped) := by
    rw [← hkey]
    exact hshows.encryptedFileKey
  have huser : client.userId.isEmpty = false := by
    simpa using client.signedIn
  have hfolder : (("file" : String) == "folder") = false := by decide
  unfold decryptEntryName UploadClient.nameVault
  simp only [hfile, hid, hmetadata, hfileKey, hfolder, Bool.false_and,
    Bool.not_true, Bool.false_eq_true, if_false, beq_self_eq_true,
    Option.getD_some, huser, decodeBase64_encodeBase64, Option.bind_some]
  rw [show client.crypto.unwrapFileKey wrapped client.masterKey _ =
    some fileKey from hunwrap]
  simp only [Option.bind_some]
  rw [show client.crypto.decryptChunk fileKey _ encrypted = some metadata
    from hplain]
  simp only [Option.map_some, Option.bind_some, bytesOf_textOf]
  rw [show client.text.parse metadata = _ from hparse]
  rfl

end Names

/-! ## Rows and their folders -/

section Rows

variable {roots : List SyncRoot} {t t' : EntryTable}

/-- The folder that the object of a row lies in: the one of the root, or the one
of the parent's row. -/
def InFolder (roots : List SyncRoot) (t : EntryTable) (e : Entry)
    (folderId : Option String) : Prop :=
  ∃ root names name,
    SyncRepo.findSyncRootById roots e.syncRootId = some root ∧
    e.relativePath = FsPath.relativeText (names ++ [name]) ∧
    (∀ n ∈ names ++ [name], FsPath.Plain n) ∧
    ((names = [] ∧ folderId = topFolder root) ∨
      (names ≠ [] ∧ folderId ≠ none ∧ ∃ p ∈ t.rows,
        p.syncRootId = e.syncRootId ∧
        p.relativePath = FsPath.relativeText names ∧ p.remoteId = folderId))

/-- Rows with a remote id stay as they are, and the others stay in place. -/
structure Extends (t t' : EntryTable) : Prop where
  kept : ∀ e ∈ t.rows, e.remoteId ≠ none → e ∈ t'.rows
  place : ∀ e ∈ t.rows, ∃ e' ∈ t'.rows, e'.id = e.id ∧ e'.key = e.key ∧
    e'.isDirectory = e.isDirectory

theorem InFolder.extended (hext : Extends t t') {e e' : Entry}
    (hkey : e'.key = e.key) {folderId : Option String}
    (h : InFolder roots t e folderId) : InFolder roots t' e' folderId := by
  obtain ⟨root, names, name, hroot, hpath, hplain, hfolder⟩ := h
  obtain ⟨hroot', hpath'⟩ := Prod.mk.inj hkey
  rw [← hroot'] at hroot
  rw [← hpath'] at hpath
  refine ⟨root, names, name, hroot, hpath, hplain, ?_⟩
  rcases hfolder with htop | ⟨hne, hsome, p, hp, hproot, hppath, hid⟩
  · exact Or.inl htop
  · exact Or.inr ⟨hne, hsome, p, hext.kept p hp (by rw [hid]; exact hsome),
      hproot.trans hroot'.symm, hppath, hid⟩

/-- The folder that the queue finds for a row. -/
theorem inFolder_resolve (htree : TreeRows t) {e : Entry} (he : e ∈ t.rows)
    {root : SyncRoot}
    (hroot : SyncRepo.findSyncRootById roots e.syncRootId = some root)
    (hparent : (FsPath.parse e.relativePath).parentPath.isEmpty = true ∨
      (resolveRemoteFolderId t root e).isSome = true) :
    InFolder roots t e (resolveRemoteFolderId t root e) := by
  obtain ⟨names, name, hpath, hnames⟩ := htree.path e he
  have hplain : ∀ n ∈ names ++ [name], FsPath.Plain n :=
    fun n hn => (hnames n hn).1
  have hparentPath : (FsPath.parse e.relativePath).parentPath =
      { isAbsolute := false, names := names, trailing := false } := by
    rw [hpath, FsPath.parentPath_relativeText hplain]
  refine ⟨root, names, name, hroot, hpath, hplain, ?_⟩
  unfold resolveRemoteFolderId at hparent ⊢
  rw [hparentPath] at hparent ⊢
  by_cases hnil : names = []
  · subst hnil
    refine Or.inl ⟨rfl, ?_⟩
    unfold topFolder
    by_cases hempty : root.folderId = ""
    · simp [FsPath.isEmpty, hempty]
    · simp [FsPath.isEmpty, hempty]
  · have hsome : ((EntryRepo.findEntryByPath t root.id
        (FsPath.relativeText names)).bind Entry.remoteId).isSome = true := by
      simpa [FsPath.isEmpty, hnil, FsPath.relativeText] using hparent
    obtain ⟨id, hid⟩ := Option.isSome_iff_exists.mp hsome
    obtain ⟨p, hp, hpid⟩ := Option.bind_eq_some_iff.mp hid
    obtain ⟨hmem, hproot, hppath⟩ :=
      (EntryRepo.findEntryByPath_eq_some_iff _ _ _ _).mp hp
    have hvalue : (if FsPath.isEmpty { isAbsolute := false, names := names
                                       trailing := false } = true then
          if root.folderId ≠ "" then some root.folderId else none
        else (EntryRepo.findEntryByPath t root.id (FsPath.genericString
          { isAbsolute := false, names := names
            trailing := false })).bind Entry.remoteId) = some id := by
      rw [if_neg (by simp [FsPath.isEmpty, hnil])]
      exact hid
    dsimp only
    rw [hvalue]
    exact Or.inr ⟨hnil, by simp, p, hmem,
      hproot.trans (SyncRepo.id_of_find hroot), hppath, hpid⟩

/-- The same tree with other columns. -/
theorem treeRows_same (h : TreeRows t)
    (hback : ∀ e' ∈ t'.rows, ∃ e ∈ t.rows, e'.key = e.key ∧
      e'.isDirectory = e.isDirectory) : TreeRows t' := by
  constructor
  · intro e' he'
    obtain ⟨e, he, hkey, -⟩ := hback e' he'
    rw [(Prod.mk.inj hkey).2]
    exact h.path e he
  · intro e' he' names name hpath p' hp' hroot hparent
    obtain ⟨e, he, hkey, -⟩ := hback e' he'
    obtain ⟨p, hp, hpkey, hdirectory⟩ := hback p' hp'
    rw [hdirectory]
    rw [(Prod.mk.inj hkey).2] at hpath
    rw [(Prod.mk.inj hkey).1, (Prod.mk.inj hpkey).1] at hroot
    rw [(Prod.mk.inj hpkey).2] at hparent
    exact h.parent e he names name hpath p hp hroot hparent

end Rows

/-! ## Rows and objects -/

section Objects

variable {ν : Type} {client : UploadClient ν} {roots : List SyncRoot}
  {t t' : EntryTable} {objects : List RemoteObject}

/-- The object of a row. -/
structure ObjectOf (client : UploadClient ν) (roots : List SyncRoot)
    (t : EntryTable) (e : Entry) (o : RemoteObject) : Prop where
  kind : o.isFolder = e.isDirectory
  folder : InFolder roots t e o.parentFolderId
  name : ∀ entry, Shows o entry →
    decryptEntryName client.nameVault entry =
      some (some (FsPath.parse e.relativePath).filename)

theorem ObjectOf.extended (hext : Extends t t') {e e' : Entry}
    {o : RemoteObject} (hkey : e'.key = e.key)
    (hdirectory : e'.isDirectory = e.isDirectory)
    (h : ObjectOf client roots t e o) : ObjectOf client roots t' e' o :=
  { kind := h.kind.trans hdirectory.symm
    folder := h.folder.extended hext hkey
    name := by
      rw [(Prod.mk.inj hkey).2]
      exact h.name }

/-- The rows with a remote id and the objects belong together, one by one. -/
structure Sound (client : UploadClient ν) (roots : List SyncRoot)
    (t : EntryTable) (objects : List RemoteObject) : Prop where
  tree : TreeRows t
  object : ∀ e ∈ t.rows, ∀ id, e.remoteId = some id →
    ∃ o ∈ objects, o.id = id ∧ ObjectOf client roots t e o
  row : ∀ o ∈ objects, ∃ e ∈ t.rows, e.remoteId = some o.id
  ids : ∀ o ∈ objects, ∀ other ∈ objects, o.id = other.id → o = other
  single : ∀ e ∈ t.rows, ∀ f ∈ t.rows, e.remoteId = f.remoteId →
    e.remoteId ≠ none → e = f
  noRoot : ∀ o ∈ objects, ∀ root ∈ roots, root.folderId ≠ o.id
  settled : ∀ e ∈ t.rows, e.remoteId ≠ none → e.isDirectory = false →
    UpToDate e

/-- More rows are found. -/
theorem Sound.found (h : Sound client roots t objects) (htree : TreeRows t')
    (hkept : ∀ e ∈ t.rows, e ∈ t'.rows)
    (hnew : ∀ e ∈ t'.rows, e ∈ t.rows ∨ e.remoteId = none) :
    Extends t t' ∧ Sound client roots t' objects := by
  have hext : Extends t t' :=
    { kept := fun e he _ => hkept e he
      place := fun e he => ⟨e, hkept e he, rfl, rfl, rfl⟩ }
  have hold : ∀ e ∈ t'.rows, e.remoteId ≠ none → e ∈ t.rows :=
    fun e he hne => (hnew e he).resolve_right hne
  refine ⟨hext, htree, ?_, ?_, h.ids, ?_, h.noRoot, ?_⟩
  · intro e he id hid
    obtain ⟨o, ho, hoid, hobject⟩ :=
      h.object e (hold e he (by rw [hid]; simp)) id hid
    exact ⟨o, ho, hoid, hobject.extended hext rfl rfl⟩
  · intro o ho
    obtain ⟨e, he, hid⟩ := h.row o ho
    exact ⟨e, hkept e he, hid⟩
  · intro e he f hf hsame hne
    exact h.single e (hold e he hne) f (hold f hf (hsame ▸ hne)) hsame hne
  · intro e he hne
    exact h.settled e (hold e he hne) hne

/-- The other rows of a statement with `WHERE id = ?`. -/
theorem stays_updateById {entryId : Nat} {e : Entry} (he : e ∈ t.rows)
    (hne : e.id ≠ entryId) (f : Entry → Entry) (hid : ∀ e, (f e).id = e.id)
    (hkey : ∀ e, (f e).key = e.key) :
    e ∈ (RemoteEntryRepo.updateById t entryId f hid hkey).rows :=
  (RemoteEntryRepo.mem_updateById e).mpr ⟨e, he, by rw [if_neg hne]⟩

/-- The rows of such a statement: the one that it names, and the others. -/
theorem mem_updateById_iff {e : Entry} (he : e ∈ t.rows) (f : Entry → Entry)
    (hid : ∀ e, (f e).id = e.id) (hkey : ∀ e, (f e).key = e.key) (g : Entry) :
    g ∈ (RemoteEntryRepo.updateById t e.id f hid hkey).rows ↔
      g = f e ∨ (g ∈ t.rows ∧ g.id ≠ e.id) := by
  rw [RemoteEntryRepo.mem_updateById]
  constructor
  · intro hg
    obtain ⟨r, hr, hsame⟩ := hg
    by_cases hrid : r.id = e.id
    · rw [if_pos hrid, t.eq_of_pk_eq hr he hrid] at hsame
      exact Or.inl hsame
    · rw [if_neg hrid] at hsame
      exact Or.inr ⟨hsame ▸ hr, hsame ▸ hrid⟩
  · intro hg
    rcases hg with hsame | ⟨hg, hgid⟩
    · exact ⟨e, he, by rw [if_pos rfl, hsame]⟩
    · exact ⟨g, hg, by rw [if_neg hgid]⟩

/-- A statement about a row without a remote id leaves what is recorded. -/
theorem extends_updateById {e : Entry} (he : e ∈ t.rows)
    (hnone : e.remoteId = none) (f : Entry → Entry)
    (hid : ∀ e, (f e).id = e.id) (hkey : ∀ e, (f e).key = e.key)
    (hdirectory : (f e).isDirectory = e.isDirectory) :
    Extends t (RemoteEntryRepo.updateById t e.id f hid hkey) := by
  constructor
  · intro g hg hne
    refine (mem_updateById_iff he f hid hkey g).mpr (Or.inr ⟨hg, ?_⟩)
    intro hgid
    rw [t.eq_of_pk_eq hg he hgid] at hne
    exact hne hnone
  · intro g hg
    by_cases hgid : g.id = e.id
    · have hsame := t.eq_of_pk_eq hg he hgid
      subst hsame
      exact ⟨f g, (mem_updateById_iff hg f hid hkey _).mpr (Or.inl rfl), hid g,
        hkey g, hdirectory⟩
    · exact ⟨g, (mem_updateById_iff he f hid hkey g).mpr (Or.inr ⟨hg, hgid⟩),
        rfl, rfl, rfl⟩

/-- A row without a remote id gets that of an object. -/
theorem Sound.record (h : Sound client roots t objects) {e : Entry}
    (he : e ∈ t.rows) (hnone : e.remoteId = none) {o : RemoteObject}
    (hobject : ObjectOf client roots t e o)
    (hunused : ∀ other ∈ objects, other.id ≠ o.id)
    (hnoRoot : ∀ root ∈ roots, root.folderId ≠ o.id) (f : Entry → Entry)
    (hid : ∀ e, (f e).id = e.id) (hkey : ∀ e, (f e).key = e.key)
    (hremote : (f e).remoteId = some o.id)
    (hdirectory : (f e).isDirectory = e.isDirectory)
    (hsettled : e.isDirectory = false → UpToDate (f e)) :
    Extends t (RemoteEntryRepo.updateById t e.id f hid hkey) ∧
      Sound client roots (RemoteEntryRepo.updateById t e.id f hid hkey)
        (objects ++ [o]) := by
  have hmem := mem_updateById_iff he f hid hkey
  have hext := extends_updateById he hnone f hid hkey hdirectory
  -- The ids of the old rows are those of the old objects.
  have hapart : ∀ g ∈ t.rows, g.remoteId ≠ some o.id := by
    intro g hg hgid
    obtain ⟨other, hin, hsame, -⟩ := h.object g hg o.id hgid
    exact hunused other hin hsame
  refine ⟨hext, ?_, ?_, ?_, ?_, ?_, ?_, ?_⟩
  · refine treeRows_same h.tree ?_
    intro g hg
    rcases (hmem g).mp hg with hsame | ⟨hg', -⟩
    · rw [hsame]
      exact ⟨e, he, hkey e, hdirectory⟩
    · exact ⟨g, hg', rfl, rfl⟩
  · intro g hg id hgid
    rcases (hmem g).mp hg with hsame | ⟨hg', -⟩
    · subst hsame
      rw [hremote] at hgid
      exact ⟨o, by simp, Option.some.inj hgid,
        hobject.extended hext (hkey e) hdirectory⟩
    · obtain ⟨other, hin, hoid, hobj⟩ := h.object g hg' id hgid
      exact ⟨other, by simp [hin], hoid, hobj.extended hext rfl rfl⟩
  · intro other hin
    rcases List.mem_append.mp hin with hold | hnew
    · obtain ⟨g, hg, hgid⟩ := h.row other hold
      exact ⟨g, hext.kept g hg (by rw [hgid]; simp), hgid⟩
    · rw [List.mem_singleton.mp hnew]
      exact ⟨f e, (hmem _).mpr (Or.inl rfl), hremote⟩
  · intro a ha b hb hsame
    rcases List.mem_append.mp ha with hold | hnew
    · rcases List.mem_append.mp hb with hold' | hnew'
      · exact h.ids a hold b hold' hsame
      · rw [List.mem_singleton.mp hnew'] at hsame
        exact absurd hsame (hunused a hold)
    · rcases List.mem_append.mp hb with hold' | hnew'
      · rw [List.mem_singleton.mp hnew] at hsame
        exact absurd hsame.symm (hunused b hold')
      · rw [List.mem_singleton.mp hnew, List.mem_singleton.mp hnew']
  · intro g hg g' hg' hsame hne
    rcases (hmem g).mp hg with heq | ⟨hold, -⟩
    · rcases (hmem g').mp hg' with heq' | ⟨hold', -⟩
      · rw [heq, heq']
      · rw [heq, hremote] at hsame
        exact absurd hsame.symm (hapart g' hold')
    · rcases (hmem g').mp hg' with heq' | ⟨hold', -⟩
      · rw [heq', hremote] at hsame
        exact absurd hsame (hapart g hold)
      · exact h.single g hold g' hold' hsame hne
  · intro other hin
    rcases List.mem_append.mp hin with hold | hnew
    · exact h.noRoot other hold
    · rw [List.mem_singleton.mp hnew]
      exact hnoRoot
  · intro g hg hne hfile
    rcases (hmem g).mp hg with hsame | ⟨hold, -⟩
    · subst hsame
      exact hsettled (hdirectory.symm.trans hfile)
    · exact h.settled g hold hne hfile

end Objects

/-! ## Jobs -/

section Jobs

variable {roots : List SyncRoot} {t t' : EntryTable} {q q' : TransferQueue}

/-- What an active job is for: a row of its kind.  A folder is still to be
created, in the folder of the job. -/
structure JobFits (roots : List SyncRoot) (t : EntryTable) (job : TransferJob)
    (e : Entry) : Prop where
  row : e ∈ t.rows
  id : e.id = job.entryId
  file : job.jobType = .uploadFile → e.isDirectory = false
  folder : job.jobType = .createFolder → e.isDirectory = true ∧
    e.remoteId = none ∧ InFolder roots t e job.remoteFolderId

/-- Every active job fits. -/
def JobsFit (roots : List SyncRoot) (t : EntryTable) (q : TransferQueue) :
    Prop :=
  ∀ job ∈ q.jobs, job.status.active = true → ∃ e, JobFits roots t job e

/-- The status of a job does not matter. -/
theorem JobFits.running {job : TransferJob} {e : Entry} {status : JobStatus}
    (h : JobFits roots t job e) :
    JobFits roots t { job with status := status } e :=
  ⟨h.row, h.id, h.file, h.folder⟩

/-- The claimed job fits, and so do the others. -/
theorem JobsFit.claim {jobType : JobType} {job : TransferJob}
    (h : JobsFit roots t q)
    (hclaim : QueueRepo.claimNextQueuedByType q jobType = some (job, q')) :
    (∃ e, JobFits roots t job e) ∧ job.jobType = jobType ∧
      JobsFit roots t q' := by
  obtain ⟨⟨found, hfound, hqueued, htype, hjob⟩, hin, hall⟩ :=
    QueueRepo.claim_spec hclaim
  have hfits : ∃ e, JobFits roots t job e := by
    obtain ⟨e, he⟩ := h found hfound (by rw [hqueued]; rfl)
    rw [hjob]
    exact ⟨e, he.running⟩
  refine ⟨hfits, by rw [hjob]; exact htype, ?_⟩
  intro j hj hactive
  rcases (hall j).mp hj with hsame | ⟨hold, -⟩
  · rw [hsame]
    exact hfits
  · exact h j hold hactive

/-- Jobs that are active in another queue as well. -/
theorem JobsFit.fewer (h : JobsFit roots t q)
    (hfewer : ∀ j ∈ q'.jobs, j.status.active = true → j ∈ q.jobs) :
    JobsFit roots t q' :=
  fun j hj hactive => h j (hfewer j hj hactive) hactive

theorem mem_of_markResults {results : List (TransferJob × Bool)}
    {j : TransferJob} (hj : j ∈ (markResults results q).jobs)
    (hactive : j.status.active = true) : j ∈ q.jobs := by
  unfold markResults at hj
  induction results generalizing q with
  | nil => exact hj
  | cons r rs ih =>
      rw [List.foldl_cons] at hj
      have hrest := ih hj
      split at hrest
      · exact (QueueRepo.mem_of_markDone hrest hactive).1
      · exact (QueueRepo.mem_of_markFailed hrest hactive).1

/-- The rows change, but those without a remote id keep having none, but for the
rows of jobs that are gone. -/
theorem JobsFit.extended (h : JobsFit roots t q) (hext : Extends t t')
    (hpending : ∀ job ∈ q.jobs, job.status.active = true →
      job.jobType = .createFolder → ∀ e, JobFits roots t job e → e ∈ t'.rows) :
    JobsFit roots t' q := by
  intro job hjob hactive
  obtain ⟨e, he⟩ := h job hjob hactive
  cases htype : job.jobType with
  | createFolder =>
      obtain ⟨hdirectory, hnone, hfolder⟩ := he.folder htype
      exact ⟨e, hpending job hjob hactive htype e he, he.id,
        fun hfile => (by rw [htype] at hfile; cases hfile),
        fun _ => ⟨hdirectory, hnone, hfolder.extended hext rfl⟩⟩
  | uploadFile =>
      obtain ⟨e', he', hid, -, hkind⟩ := hext.place e he.row
      exact ⟨e', he', hid.trans he.id,
        fun hfile => hkind.trans (he.file hfile),
        fun hfolder => by rw [htype] at hfolder; cases hfolder⟩

/-- The jobs of a page fit. -/
theorem JobsFit.produced {root : SyncRoot} {page : List Entry} {s : SyncStore}
    (htree : TreeRows s.entries) (h : JobsFit s.roots s.entries s.queue)
    (hroot : SyncRepo.findSyncRootById s.roots root.id = some root)
    (hpage : ∀ e ∈ page, e ∈ s.entries.rows ∧ e.syncRootId = root.id) :
    JobsFit s.roots s.entries (enqueuePage root page s).queue := by
  unfold enqueuePage
  induction page generalizing s with
  | nil => exact h
  | cons e es ih =>
      rw [List.foldl_cons]
      obtain ⟨he, heroot⟩ := hpage e List.mem_cons_self
      have hfirst : JobsFit s.roots s.entries
          (enqueueEntry root e s).queue := by
        intro j hj hactive
        rcases job_of_enqueueEntry hj with hold | hnew
        · exact h j hold hactive
        · refine ⟨e, he, hnew.entry.symm, hnew.file, ?_⟩
          intro htype
          obtain ⟨hdirectory, hnone⟩ := hnew.folder htype
          refine ⟨hdirectory, hnone, ?_⟩
          rw [hnew.resolved]
          exact inFolder_resolve htree he (heroot ▸ hroot) hnew.placed
      have hrest := ih (s := enqueueEntry root e s)
        (by rw [entries_enqueueEntry]; exact htree)
        (by rw [entries_enqueueEntry, roots_enqueueEntry]; exact hfirst)
        (by rw [roots_enqueueEntry]; exact hroot)
        (by
          rw [entries_enqueueEntry]
          exact fun e he => hpage e (List.mem_cons_of_mem _ he))
      rw [entries_enqueueEntry, roots_enqueueEntry] at hrest
      exact hrest

/-- The jobs of a batch were queued, and are for different rows. -/
theorem claimUploads_spec (n : Nat) (q : TransferQueue) :
    (∀ job ∈ (claimUploads n q).1, ∃ found ∈ q.jobs, found.status = .queued ∧
      found.jobType = .uploadFile ∧
      job = { found with status := .running }) ∧
    ((claimUploads n q).1.map TransferJob.entryId).Nodup := by
  induction n generalizing q with
  | zero => exact ⟨fun job hjob => (by cases hjob), List.nodup_nil⟩
  | succ n ih =>
      unfold claimUploads
      split
      next => exact ⟨fun job hjob => (by cases hjob), List.nodup_nil⟩
      next job q' hclaim =>
          obtain ⟨⟨found, hfound, hqueued, htype, hjob⟩, -, hall⟩ :=
            QueueRepo.claim_spec hclaim
          obtain ⟨hrest, hnodup⟩ := ih q'
          have hback : ∀ k ∈ q'.jobs, k.status = .queued →
              k ∈ q.jobs ∧ k.id ≠ job.id := by
            intro k hk hstatus
            rcases (hall k).mp hk with hsame | hold
            · rw [hsame, hjob] at hstatus
              cases hstatus
            · exact hold
          constructor
          · intro k hk
            rcases List.mem_cons.mp hk with hsame | hin
            · exact ⟨found, hfound, hqueued, htype, hsame.trans hjob⟩
            · obtain ⟨first, hfirst, hstatus, hkind, hrun⟩ := hrest k hin
              exact ⟨first, (hback first hfirst hstatus).1, hstatus, hkind,
                hrun⟩
          · rw [List.map_cons, List.nodup_cons]
            refine ⟨?_, hnodup⟩
            intro hin
            obtain ⟨k, hk, hentry⟩ := List.mem_map.mp hin
            obtain ⟨first, hfirst, hstatus, hkind, hrun⟩ := hrest k hk
            obtain ⟨hold, hid⟩ := hback first hfirst hstatus
            have hsame := QueueRepo.eq_of_active hold hfound
              (by rw [hstatus]; rfl) (by rw [hqueued]; rfl)
              (hkind.trans htype.symm)
              (by rw [hrun, hjob] at hentry; exact hentry)
            rw [hsame, hjob] at hid
            exact hid rfl

theorem JobsFit.claims (n : Nat) (h : JobsFit roots t q) :
    (∀ job ∈ (claimUploads n q).1, ∃ e, JobFits roots t job e) ∧
      JobsFit roots t (claimUploads n q).2 := by
  induction n generalizing q with
  | zero => exact ⟨fun job hjob => (by cases hjob), h⟩
  | succ n ih =>
      unfold claimUploads
      split
      next => exact ⟨fun job hjob => (by cases hjob), h⟩
      next job q' hclaim =>
          obtain ⟨hfits, -, hleft⟩ := h.claim hclaim
          obtain ⟨hrest, hafter⟩ := ih hleft
          refine ⟨?_, hafter⟩
          intro k hk
          rcases List.mem_cons.mp hk with hsame | hin
          · rw [hsame]
            exact hfits
          · exact hrest k hin

end Jobs

/-! ## A folder job -/

section Folder

variable {ν : Type} {client : UploadClient ν}

/-- What is to hold of every run of uploads. -/
structure UploadsSound (client : UploadClient ν) (s : UploadAccount) :
    Prop where
  sound : Sound client s.store.roots s.store.entries s.objects
  jobs : JobsFit s.store.roots s.store.entries s.store.queue

/-- The name that a folder job asks for is the last one of the path. -/
theorem request_name {job : TransferJob} {s : SyncStore} {e : Entry}
    (htree : TreeRows s.entries) (he : e ∈ s.entries.rows)
    (hid : e.id = job.entryId) {name : String}
    (h : FolderCreateWorker.request job s = some name) :
    name = (FsPath.parse e.relativePath).filename := by
  have hget : EntryRepo.getEntryById s.entries job.entryId = some e :=
    (s.entries.lookupPk_eq_some_iff _ _).mpr ⟨he, hid⟩
  obtain ⟨names, last, hpath, hnames⟩ := htree.path e he
  unfold FolderCreateWorker.request at h
  rw [hget] at h
  dsimp only at h
  split at h
  · cases h
  split at h
  · cases h
  unfold FolderCreateWorker.folderNameFromPath at h
  rw [hpath, FsPath.lexicallyNormal_relativeText (by simp)
    (fun n hn => (hnames n hn).1) (fun n hn => (hnames n hn).2)] at h
  rw [hpath]
  dsimp only at h
  split at h
  · cases h
  · exact (Option.some.inj h).symm

theorem UploadsSound.folder (hcrypto : client.crypto.Authentic)
    (htext : client.text.Faithful) {s : UploadAccount}
    (h : UploadsSound client s) {env : QueueEnv} {job : TransferJob}
    {queue : TransferQueue} {created : List RemoteObject}
    (hclaim : QueueRepo.claimNextQueuedByType s.store.queue .createFolder =
      some (job, queue))
    (hcreated : FolderCreated client env job { s.store with queue := queue }
      created)
    (hnew : NewIds s.store.roots s.objects created) :
    UploadsSound client
      { store := runFolderJob env job { s.store with queue := queue }
        objects := s.objects ++ created } := by
  obtain ⟨⟨e, hfits⟩, htype, hjobs⟩ := h.jobs.claim hclaim
  obtain ⟨⟨found, -, -, -, hrunning⟩, hin, -⟩ := QueueRepo.claim_spec hclaim
  obtain ⟨hdirectory, hnone, hfolder⟩ := hfits.folder htype
  cases hcreated with
  | nothing hrun =>
      unfold runFolderJob
      rw [hrun, List.append_nil]
      exact ⟨h.sound, hjobs.fewer (fun j hj hactive =>
        (QueueRepo.mem_of_markFailed hj hactive).1)⟩
  | folder name id parentFolderId nameNonce metadataNonce request hname
      hrequest hanswer =>
      have hfilename := request_name (s := { s.store with queue := queue })
        h.sound.tree hfits.row hfits.id hname
      have hparent : request.parentFolderId = job.remoteFolderId := by
        unfold UploadClient.folderRequest at hrequest
        obtain ⟨_, -, hrequest⟩ := UploadFinalizer.bind_ok hrequest
        obtain ⟨_, -, hrequest⟩ := UploadFinalizer.bind_ok hrequest
        obtain ⟨_, -, hrequest⟩ := UploadFinalizer.bind_ok hrequest
        obtain ⟨_, -, hrequest⟩ := UploadFinalizer.bind_ok hrequest
        obtain ⟨_, -, hrequest⟩ := UploadFinalizer.bind_ok hrequest
        cases hrequest
        rfl
      have hobject : ObjectOf client s.store.roots s.store.entries e
          (RemoteObject.ofFolder id request) :=
        { kind := hdirectory.symm
          folder := by
            show InFolder _ _ _ request.parentFolderId
            rw [hparent]
            exact hfolder
          name := by
            intro entry hshows
            rw [← hfilename]
            exact folder_name hcrypto htext hrequest hshows }
      have hrecord := h.sound.record hfits.row hnone hobject
        (hnew.unused _ (by simp)) (hnew.noRoot _ (by simp))
        (fun e =>
          { e with
            remoteId := some id
            parentFolderId := parentFolderId
            syncState := .unchanged })
        (fun _ => rfl) (fun _ => rfl) rfl rfl
        (fun hfile => by rw [hdirectory] at hfile; cases hfile)
      obtain ⟨hext, hsound⟩ := hrecord
      have hrun : runFolderJob env job { s.store with queue := queue } =
          { s.store with
            entries := RemoteEntryRepo.markFolderCreated s.store.entries
              job.entryId id parentFolderId
            queue := QueueRepo.markDone queue job.id } := by
        unfold runFolderJob
        rw [QueueRun.run_of_request, hname, Option.bind_some, hanswer]
        rfl
      rw [hrun]
      rw [hfits.id] at hext hsound
      refine ⟨hsound, ?_⟩
      refine JobsFit.extended (hjobs.fewer (fun j hj hactive =>
        (QueueRepo.mem_of_markDone hj hactive).1)) hext ?_
      intro j hj hactive hcreate other hother
      obtain ⟨hold, hne⟩ := QueueRepo.mem_of_markDone hj hactive
      have hapart : other.id ≠ job.entryId := by
        intro hsame
        have hjob := QueueRepo.eq_of_active hold hin hactive
          (by rw [hrunning]; rfl) (hcreate.trans htype.symm)
          (hother.id.symm.trans hsame)
        exact hne (by rw [hjob])
      show other ∈ (RemoteEntryRepo.markFolderCreated _ _ _ _).rows
      exact stays_updateById hother.row hapart _ _ _

end Folder

/-! ## A batch of uploads -/

section Batch

variable {ν : Type} {client : UploadClient ν} {roots : List SyncRoot}
  {t : EntryTable}

/-- An upload that the server has answered fits a row. -/
structure RecordFits (roots : List SyncRoot) (t : EntryTable)
    (record : TransferJob × Entry × String) (e : Entry) : Prop where
  row : e ∈ t.rows
  id : e.id = record.1.entryId
  file : e.isDirectory = false
  missing : e.remoteId = none
  key : record.2.1.key = e.key
  folder : InFolder roots t e record.2.1.parentFolderId

/-- The rows behind the records of a batch. -/
def recorded (records : List (TransferJob × Entry × String))
    (t : EntryTable) : EntryTable :=
  records.foldl (fun t record => RemoteEntryRepo.markEntryUploaded t
    record.1.entryId record.2.2 record.2.1.parentFolderId) t

theorem Extends.refl (t : EntryTable) : Extends t t :=
  { kept := fun _ he _ => he
    place := fun e he => ⟨e, he, rfl, rfl, rfl⟩ }

theorem Extends.trans {t' t'' : EntryTable} (h : Extends t t')
    (h' : Extends t' t'') : Extends t t'' := by
  constructor
  · intro e he hne
    exact h'.kept e (h.kept e he hne) hne
  · intro e he
    obtain ⟨e', he', hid, hkey, hkind⟩ := h.place e he
    obtain ⟨e'', he'', hid', hkey', hkind'⟩ := h'.place e' he'
    exact ⟨e'', he'', hid'.trans hid, hkey'.trans hkey, hkind'.trans hkind⟩

/-- The file of a row has the last name of the row's path. -/
theorem filename_absolutePath {s : SyncStore} {e : Entry}
    {names : List String} {name : String}
    (hpath : e.relativePath = FsPath.relativeText (names ++ [name]))
    (hplain : ∀ n ∈ names ++ [name], FsPath.Plain n) :
    (UploadJobRunner.absolutePath s e).filename = name := by
  unfold UploadJobRunner.absolutePath
  rw [hpath]
  split
  · exact FsPath.filename_relativeText hplain
  · exact FsPath.filename_append_relativeText _ hplain

/-- The object that the upload of a row creates. -/
theorem object_of_created (hcrypto : client.crypto.Authentic)
    (htext : client.text.Faithful) (htree : TreeRows t) {s : SyncStore}
    {record : TransferJob × Entry × String} {e : Entry}
    (hfits : RecordFits roots t record e) {o : RemoteObject}
    (hcreated : FileCreated client s record o) :
    o.id = record.2.2 ∧ ObjectOf client roots t e o := by
  obtain ⟨path, started, plan, parts, fileKey, nonces, attempt, artifacts,
    request, hparse, hfileId, hvault, hprepared, hobject⟩ := hcreated.created
  obtain ⟨names, name, hpath, hnames⟩ := htree.path e hfits.row
  have hplain : ∀ n ∈ names ++ [name], FsPath.Plain n :=
    fun n hn => (hnames n hn).1
  have hrecordPath : record.2.1.relativePath =
      FsPath.relativeText (names ++ [name]) :=
    (Prod.mk.inj hfits.key).2.trans hpath
  subst hobject
  refine ⟨rfl, hfits.file.symm, hfits.folder, ?_⟩
  intro entry hshows
  rw [← hfileId] at hshows
  rw [file_name hcrypto htext hvault hprepared hshows, hparse,
    filename_absolutePath hrecordPath hplain, hpath,
    FsPath.filename_relativeText hplain]

/-- The records of a batch keep rows and objects together. -/
theorem record_uploads (hcrypto : client.crypto.Authentic)
    (htext : client.text.Faithful) {s : SyncStore}
    {records : List (TransferJob × Entry × String)}
    {created : List RemoteObject}
    (hcreated : List.Forall₂ (FileCreated client s) records created) :
    ∀ {t : EntryTable} {objects : List RemoteObject},
      Sound client roots t objects →
      (∀ record ∈ records, ∃ e, RecordFits roots t record e) →
      (records.map (fun record => record.1.entryId)).Nodup →
      NewIds roots objects created →
      Extends t (recorded records t) ∧
        Sound client roots (recorded records t) (objects ++ created) ∧
        ∀ e ∈ t.rows, e.isDirectory = true → e ∈ (recorded records t).rows := by
  induction hcreated with
  | nil =>
      intro t objects hsound _ _ _
      refine ⟨.refl t, ?_, fun e he _ => he⟩
      rw [List.append_nil]
      exact hsound
  | @cons record o records created hfirst hrest ih =>
      intro t objects hsound hfits hnodup hnew
      rw [List.map_cons, List.nodup_cons] at hnodup
      obtain ⟨e, he⟩ := hfits record List.mem_cons_self
      obtain ⟨hoid, hobject⟩ :=
        object_of_created hcrypto htext hsound.tree he hfirst
      have hrecord := hsound.record he.row he.missing hobject
        (hnew.unused o List.mem_cons_self) (hnew.noRoot o List.mem_cons_self)
        (fun e =>
          { e with
            remoteId := some record.2.2
            remoteFileId := some record.2.2
            parentFolderId := record.2.1.parentFolderId
            syncedContentHash := e.contentHash
            remoteDeletedAt := none
            localDeletedAt := none
            conflictState := some "none"
            syncState := .unchanged })
        (fun _ => rfl) (fun _ => rfl) (by rw [hoid]) rfl
        (fun _ => ⟨rfl, rfl, rfl, rfl⟩)
      rw [he.id] at hrecord
      obtain ⟨hext, hsound'⟩ := hrecord
      -- The other records are for other rows, which stay.
      have hstay : ∀ g ∈ t.rows, g.id ≠ record.1.entryId →
          g ∈ (RemoteEntryRepo.markEntryUploaded t record.1.entryId record.2.2
            record.2.1.parentFolderId).rows := by
        intro g hg hne
        exact stays_updateById hg hne _ _ _
      have hfits' : ∀ other ∈ records, ∃ e, RecordFits roots
          (RemoteEntryRepo.markEntryUploaded t record.1.entryId record.2.2
            record.2.1.parentFolderId) other e := by
        intro other hother
        obtain ⟨g, hg⟩ := hfits other (List.mem_cons_of_mem _ hother)
        have hne : g.id ≠ record.1.entryId := by
          intro hsame
          refine hnodup.1 (List.mem_map.mpr ⟨other, hother, ?_⟩)
          exact hg.id.symm.trans hsame
        exact ⟨g, hstay g hg.row hne, hg.id, hg.file, hg.missing, hg.key,
          hg.folder.extended hext rfl⟩
      have hnew' : NewIds roots (objects ++ [o]) created := by
        have hdifferent := hnew.different
        rw [List.map_cons, List.nodup_cons] at hdifferent
        refine ⟨hdifferent.2, ?_, fun o ho =>
          hnew.noRoot o (List.mem_cons_of_mem _ ho)⟩
        intro new hin other hother
        rcases List.mem_append.mp hother with hold | hlast
        · exact hnew.unused new (List.mem_cons_of_mem _ hin) other hold
        · rw [List.mem_singleton.mp hlast]
          intro hsame
          exact hdifferent.1 (hsame ▸ List.mem_map_of_mem hin)
      obtain ⟨hext', hsound'', hfolders⟩ := ih hsound' hfits' hnodup.2 hnew'
      refine ⟨hext.trans hext', ?_, ?_⟩
      · rw [List.append_assoc] at hsound''
        exact hsound''
      · intro g hg hdirectory
        refine hfolders g (hstay g hg ?_) hdirectory
        intro hsame
        have heq := t.eq_of_pk_eq hg he.row (hsame.trans he.id.symm)
        rw [heq, he.file] at hdirectory
        cases hdirectory

end Batch

/-! ## Runs -/

section Runs

variable {ν : Type} {client : UploadClient ν}

/-- The folder of an item is the one that the queue finds for its row. -/
theorem item_folder {cwd : FsPath} {disk : Disk} {s : SyncStore}
    {job : TransferJob} {e row : Entry} {root : SyncRoot}
    (h : UploadJobRunner.prepareUploadItem cwd disk s job = .item e)
    (hrow : EntryRepo.getEntryById s.entries job.entryId = some row)
    (hroot : SyncRepo.findSyncRootById s.roots row.syncRootId = some root) :
    e.parentFolderId = resolveRemoteFolderId s.entries root row ∧
      ((FsPath.parse row.relativePath).parentPath.isEmpty = true ∨
        (resolveRemoteFolderId s.entries root row).isSome = true) := by
  have hid : root.id = row.syncRootId := SyncRepo.id_of_find hroot
  unfold UploadJobRunner.prepareUploadItem at h
  rw [hrow] at h
  dsimp only at h
  rw [hroot] at h
  dsimp only at h
  unfold resolveRemoteFolderId
  rw [hid]
  split at h
  · cases h
  split at h
  · cases h
  split at h
  · cases h
  split at h
  · rename_i hempty
    cases h
    dsimp only
    rw [if_pos hempty]
    exact ⟨rfl, Or.inl hempty⟩
  · rename_i hparent
    dsimp only
    rw [if_neg hparent]
    split at h
    · cases h
    · rename_i parent hfound
      cases h
      rw [hfound]
      exact ⟨rfl, Or.inr rfl⟩

/-- The uploads that the server has answered fit rows. -/
theorem answered_fit {objects : List RemoteObject}
    {env : QueueEnv} {disk : Disk} {jobs : List TransferJob} {s : SyncStore}
    (hsound : Sound client s.roots s.entries objects)
    (hjobs : ∀ job ∈ jobs, job.jobType = .uploadFile ∧
      ∃ e, JobFits s.roots s.entries job e) :
    ∀ record ∈ answeredUploads env disk jobs s,
      ∃ e, RecordFits s.roots s.entries record e := by
  intro record hrecord
  obtain ⟨job, e, fileId⟩ := record
  have hitem : (job, e) ∈ UploadJobRunner.itemsOf (jobs.map (fun job =>
      (job, UploadJobRunner.prepareUploadItem env.cwd disk s job))) := by
    unfold answeredUploads UploadJobRunner.recordsOf at hrecord
    dsimp only at hrecord
    split at hrecord
    · cases hrecord
    · obtain ⟨item, hin, hsome⟩ := List.mem_filterMap.mp hrecord
      obtain ⟨answer, -, hsame⟩ := Option.map_eq_some_iff.mp hsome
      cases hsame
      exact hin
  obtain ⟨prepared, hprepared, hsame⟩ := List.mem_filterMap.mp hitem
  obtain ⟨job', hjob, rfl⟩ := List.mem_map.mp hprepared
  have hprepare : UploadJobRunner.prepareUploadItem env.cwd disk s job =
      .item e ∧ job' = job := by
    dsimp only at hsame
    split at hsame
    · rename_i e' heq
      cases hsame
      exact ⟨heq, rfl⟩
    · cases hsame
  obtain ⟨hprepare, rfl⟩ := hprepare
  obtain ⟨htype, row, hrow⟩ := hjobs job' hjob
  obtain ⟨row', root, file, parent, hget, hroot, hupload, -, -, heq⟩ :=
    prepareUploadItem_item hprepare
  have hsameRow : row' = row := by
    obtain ⟨hmem, hid⟩ := (s.entries.lookupPk_eq_some_iff _ _).mp hget
    exact s.entries.eq_of_pk_eq hmem hrow.row (hid.trans hrow.id.symm)
  subst hsameRow
  obtain ⟨hparent, hplaced⟩ := item_folder hprepare hget hroot
  refine ⟨row', hrow.row, hrow.id, hrow.file htype, ?_, ?_, ?_⟩
  · by_contra hsome
    exact (hsound.settled row' hrow.row hsome (hrow.file htype)).not_upload
      root.mode hupload
  · rw [heq]
    rfl
  · show InFolder s.roots s.entries row' e.parentFolderId
    rw [hparent]
    exact inFolder_resolve hsound.tree hrow.row hroot hplaced

theorem nodup_answered {env : QueueEnv} {disk : Disk}
    {jobs : List TransferJob} {s : SyncStore}
    (h : (jobs.map TransferJob.entryId).Nodup) :
    ((answeredUploads env disk jobs s).map
      (fun record => record.1.entryId)).Nodup := by
  have hitems : List.Sublist ((UploadJobRunner.itemsOf (jobs.map (fun job =>
      (job, UploadJobRunner.prepareUploadItem env.cwd disk s job)))).map
        (fun item => item.1.entryId)) (jobs.map TransferJob.entryId) := by
    have hprepared : (jobs.map (fun job => (job,
        UploadJobRunner.prepareUploadItem env.cwd disk s job))).map
          (fun x => x.1.entryId) = jobs.map TransferJob.entryId := by
      rw [List.map_map]
      rfl
    rw [← hprepared]
    refine map_filterMap_sublist _ ?_
    intro x _ item hitem
    split at hitem
    · cases hitem
      rfl
    · cases hitem
  unfold answeredUploads UploadJobRunner.recordsOf
  dsimp only
  split
  · exact List.nodup_nil
  · refine (map_filterMap_sublist _ ?_).nodup (hitems.nodup h)
    intro item _ record hrecord
    obtain ⟨answer, -, hsame⟩ := Option.map_eq_some_iff.mp hrecord
    rw [← hsame]

/-- The rows behind a batch. -/
theorem entries_runUploadBatch (env : QueueEnv) (disk : Disk)
    (jobs : List TransferJob) (s : SyncStore) :
    (runUploadBatch env disk jobs s).entries =
      recorded (answeredUploads env disk jobs s) s.entries := by
  have hmark : ∀ (response : Nat → Option String)
      (items : List (TransferJob × Entry)) (t : EntryTable),
      UploadJobRunner.markUploaded response items t =
        recorded (items.filterMap (fun item => (response item.1.id).map
          (fun fileId => (item.1, item.2, fileId)))) t := by
    intro response items
    induction items with
    | nil =>
        intro t
        rfl
    | cons item items ih =>
        intro t
        unfold UploadJobRunner.markUploaded
        rw [List.foldl_cons, List.filterMap_cons]
        cases hanswer : response item.1.id with
        | none => exact ih t
        | some fileId => exact ih _
  unfold runUploadBatch UploadJobRunner.runBatch answeredUploads
  dsimp only
  split
  next hempty =>
      rw [List.isEmpty_iff.mp hempty]
      unfold UploadJobRunner.recordsOf
      split
      · rfl
      · rfl
  next =>
      split
      next hnone =>
          rw [hnone]
          rfl
      next response hsome =>
          rw [hsome]
          exact hmark response _ _

theorem UploadsSound.batch (hcrypto : client.crypto.Authentic)
    (htext : client.text.Faithful) {s : UploadAccount}
    (h : UploadsSound client s) {env : QueueEnv} {disk : Disk}
    {jobs : List TransferJob} {queue : TransferQueue}
    {created : List RemoteObject}
    (hclaim : claimUploads kUploadBatchSize s.store.queue = (jobs, queue))
    (hcreated : List.Forall₂
      (FileCreated client { s.store with queue := queue })
      (answeredUploads env disk jobs { s.store with queue := queue }) created)
    (hnew : NewIds s.store.roots s.objects created) :
    UploadsSound client
      { store := runUploadBatch env disk jobs { s.store with queue := queue }
        objects := s.objects ++ created } := by
  obtain ⟨hqueued, hnodup⟩ :=
    claimUploads_spec kUploadBatchSize s.store.queue
  obtain ⟨hfits, hleft⟩ := h.jobs.claims kUploadBatchSize
  rw [hclaim] at hqueued hnodup hfits hleft
  have hrecords : ∀ record ∈ answeredUploads env disk jobs
      { s.store with queue := queue },
      ∃ e, RecordFits s.store.roots s.store.entries record e := by
    refine answered_fit h.sound ?_
    intro job hjob
    obtain ⟨found, -, -, htype, hrunning⟩ := hqueued job hjob
    exact ⟨by rw [hrunning]; exact htype, hfits job hjob⟩
  obtain ⟨hext, hsound, hfolders⟩ := record_uploads hcrypto htext hcreated
    h.sound hrecords (nodup_answered hnodup) hnew
  have hroots : (runUploadBatch env disk jobs
      { s.store with queue := queue }).roots = s.store.roots :=
    (runBatch_frame env disk jobs { s.store with queue := queue }).1
  have hqueue : ∀ j ∈ (runUploadBatch env disk jobs
      { s.store with queue := queue }).queue.jobs,
      j.status.active = true → j ∈ queue.jobs := by
    intro j hj hactive
    have hin := mem_of_markResults hj hactive
    rw [(runBatch_frame env disk jobs { s.store with queue := queue }).2] at hin
    exact hin
  constructor
  · show Sound client _ _ _
    rw [hroots, entries_runUploadBatch]
    exact hsound
  · show JobsFit _ _ _
    rw [hroots, entries_runUploadBatch]
    refine JobsFit.extended (hleft.fewer hqueue) hext ?_
    intro job _ _ htype e he
    exact hfolders e he.row (he.folder htype).1

theorem UploadsSound.step (hcrypto : client.crypto.Authentic)
    (htext : client.text.Faithful) {s s' : UploadAccount}
    (h : UploadsSound client s) (hstep : UploadStep client s s') :
    UploadsSound client s' := by
  cases hstep with
  | find t htree hkept hnew =>
      obtain ⟨hext, hsound⟩ := h.sound.found htree hkept hnew
      exact ⟨hsound, h.jobs.extended hext (fun job _ _ _ e he =>
        hkept e he.row)⟩
  | produce root page hroot hpage =>
      have hjobs := h.jobs.produced h.sound.tree hroot hpage
      constructor
      · show Sound client (enqueuePage root page s.store).roots
          (enqueuePage root page s.store).entries s.objects
        rw [roots_enqueuePage, entries_enqueuePage]
        exact h.sound
      · show JobsFit (enqueuePage root page s.store).roots
          (enqueuePage root page s.store).entries _
        rw [roots_enqueuePage, entries_enqueuePage]
        exact hjobs
  | folder env job queue created hclaim hcreated hnew =>
      exact h.folder hcrypto htext hclaim hcreated hnew
  | uploads env disk jobs queue created hclaim hcreated hnew =>
      exact h.batch hcrypto htext hclaim hcreated hnew

theorem sound_start {s : UploadAccount} (h : NothingUploaded s) :
    UploadsSound client s := by
  obtain ⟨htree, hrows, hqueue, hobjects, -⟩ := h
  have hno : ∀ e ∈ s.store.entries.rows, ∀ {P : Prop}, e.remoteId ≠ none → P :=
    fun e he _ hne => absurd (hrows e he) hne
  refine ⟨⟨htree, ?_, ?_, ?_, ?_, ?_, ?_⟩, ?_⟩
  · intro e he id hid
    exact hno e he (by rw [hid]; simp)
  · intro o ho
    rw [hobjects] at ho
    cases ho
  · intro o ho
    rw [hobjects] at ho
    cases ho
  · intro e he f hf hsame hne
    exact hno e he hne
  · intro o ho
    rw [hobjects] at ho
    cases ho
  · intro e he hne
    exact hno e he hne
  · intro job hjob
    rw [hqueue] at hjob
    cases hjob

end Runs

end ArkiveSync.TreeUploads
