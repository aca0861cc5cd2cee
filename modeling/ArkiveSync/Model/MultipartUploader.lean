import ArkiveSync.Library.WorkerPool
import ArkiveSync.Model.Base64
import ArkiveSync.Model.UploadFileChunkReader

/-!
# Uploading the parts of a file

`MultipartUploader::uploadParts`: a pool of workers takes part numbers off a
shared counter.  The worker of a part reads and encrypts its chunks, asks for
an address, puts the body to storage, reports it, and writes the result into
the slot of the part.  Slots that a resumed session has filled are passed over.

The pool is the one of `Library.WorkerPool`; this module gives the stages of
one part.  Storage is seen through the puts that it answered with an etag,
newest first.  Any stage may throw: a file that cannot be read, an address that
is refused, a put or a report that fails with any status.

## Main results

* `jobs_sound`: the obligations of the pool, one lemma for each of them.
* `chunks_of_parts`: the parts in their slots make up all chunks of the plan,
  in order, each encrypted under the file key.
* `UploadParts.outcome`: when the call returns, every slot holds a part that
  was given to it or that one of its workers prepared and put; whether it
  returns or throws, what puts and reports keep holds of the resume state.
-/

namespace ArkiveSync

open Library

/-- `StartUploadResponse`. -/
structure StartUploadResponse where
  fileId : String
  vaultId : String
  uploadSessionId : String
  providerUploadId : String
  fileChunkSize : Int
  totalChunks : Int
  uploadPartSize : Int
  uploadPartCount : Int
  uploadUrl : String
  deriving DecidableEq, Repr

/-- `EncryptedChunkResult`. -/
structure EncryptedChunkResult where
  chunkNumber : Nat
  plaintextSize : Nat
  ciphertextSize : Nat
  encryptedHash : String
  deriving DecidableEq, Repr

/-- `UploadedPartResult`. -/
structure UploadedPartResult where
  plan : UploadPartPlan := {}
  chunks : List EncryptedChunkResult := []
  uploadHash : String := ""
  etag : String := ""
  combinedChunkHashes : Bytes := []
  deriving DecidableEq, Repr

/-- A body that storage has accepted for a part of an upload session. -/
structure StoredPart where
  uploadSessionId : String
  partNumber : Nat
  url : String
  body : Bytes
  etag : String
  deriving DecidableEq, Repr

/-- What storage holds for a part: the last body put for it. -/
def storedBody (puts : List StoredPart) (uploadSessionId : String)
    (partNumber : Nat) : Option StoredPart :=
  puts.find? (fun put => decide (put.uploadSessionId = uploadSessionId ∧
    put.partNumber = partNumber))

/-- The arguments of `uploadParts`; the resume state `ρ` is what
`onPartUploaded` works on, unless it throws. -/
structure UploadCall (ν ρ : Type) where
  crypto : RustCrypto ν
  file : Bytes
  fileKey : Bytes
  started : StartUploadResponse
  plan : UploadPlan
  onPartUploaded : UploadedPartResult → ρ → Option ρ

/-- What the workers share besides the counter and the flag. -/
structure UploadState (ρ : Type) where
  uploadedParts : List UploadedPartResult
  puts : List StoredPart
  resume : ρ

/-- Where the worker of a part is. -/
inductive PartStage where
  | preparing
  | presigning (part : UploadedPartResult) (uploadBody : Bytes)
  | storing (uploadUrl : String) (part : UploadedPartResult)
      (uploadBody : Bytes)
  | reporting (part : UploadedPartResult)
  | resuming (part : UploadedPartResult)
  | publishing (part : UploadedPartResult)

namespace MultipartUploader

variable {ν ρ : Type}

/-- The chunk of a part as it is remembered. -/
def chunkResult (crypto : RustCrypto ν) (chunk : UploadEncryptedChunk) :
    EncryptedChunkResult :=
  { chunkNumber := chunk.chunkNo
    plaintextSize := chunk.plaintextSize
    ciphertextSize := chunk.ciphertext.length
    encryptedHash := encodeBase64 (crypto.blake3Hash chunk.ciphertext) }

/-- The bodies of the chunks, one behind the other. -/
def uploadBody (chunks : List UploadEncryptedChunk) : Bytes :=
  chunks.flatMap UploadEncryptedChunk.ciphertext

/-- The part that its chunks make up, before it is put to storage. -/
def partResult (call : UploadCall ν ρ) (partNumber : Nat)
    (chunks : List UploadEncryptedChunk) : UploadedPartResult :=
  { plan := makePartPlan partNumber call.plan
    chunks := chunks.map (chunkResult call.crypto)
    uploadHash := encodeBase64 (call.crypto.blake3Hash (uploadBody chunks))
    combinedChunkHashes :=
      chunks.flatMap (fun chunk => call.crypto.blake3Hash chunk.ciphertext) }

/-- What a worker does with its part before it asks for an address. -/
def preparePart (call : UploadCall ν ρ) (nonces : Nat → ν)
    (partNumber : Nat) : Except UploadError (UploadedPartResult × Bytes) :=
  let plan := makePartPlan partNumber call.plan
  match UploadFileChunkReader.openWindow call.file call.fileKey
      call.started.vaultId call.started.fileId call.plan.fileChunkSize
      call.plan.totalChunks plan.firstChunkNumber
      (partChunkCount plan call.plan) with
  | .error e => .error e
  | .ok reader =>
      match UploadFileChunkReader.encryptWindow call.crypto nonces reader with
      | .error e => .error e
      | .ok chunks =>
          if uploadBody chunks = [] then
            .error (.runtime "upload part had no encrypted chunk payload")
          else
            .ok (partResult call partNumber chunks, uploadBody chunks)

/-- The slot of a part. -/
def slot (parts : List UploadedPartResult) (partNumber : Nat) :
    UploadedPartResult :=
  parts.getD (partNumber - 1) {}

/-- The stages of one part. -/
inductive Stage (call : UploadCall ν ρ) (p : Nat) :
    PartStage → UploadState ρ → Outcome PartStage UploadError →
      UploadState ρ → Prop where
  | prepare (s : UploadState ρ) (nonces : Nat → ν) (part : UploadedPartResult)
      (body : Bytes) (h : preparePart call nonces p = .ok (part, body)) :
      Stage call p .preparing s (.next (.presigning part body)) s
  | given (s : UploadState ρ) (part : UploadedPartResult) (body : Bytes)
      (h : call.started.uploadUrl ≠ "") :
      Stage call p (.presigning part body) s
        (.next (.storing call.started.uploadUrl part body)) s
  | presign (s : UploadState ρ) (part : UploadedPartResult) (body : Bytes)
      (url : String) (h : call.started.uploadUrl = "") :
      Stage call p (.presigning part body) s (.next (.storing url part body)) s
  | store (s : UploadState ρ) (url etag : String) (part : UploadedPartResult)
      (body : Bytes) (h : call.started.providerUploadId ≠ "") :
      Stage call p (.storing url part body) s
        (.next (.reporting { part with etag := etag }))
        { s with puts :=
            { uploadSessionId := call.started.uploadSessionId, partNumber := p
              url := url, body := body, etag := etag } :: s.puts }
  | storeSingle (s : UploadState ρ) (url etag : String)
      (part : UploadedPartResult) (body : Bytes)
      (h : call.started.providerUploadId = "") :
      Stage call p (.storing url part body) s
        (.next (.publishing { part with etag := etag }))
        { s with puts :=
            { uploadSessionId := call.started.uploadSessionId, partNumber := p
              url := url, body := body, etag := etag } :: s.puts }
  | report (s : UploadState ρ) (part : UploadedPartResult) :
      Stage call p (.reporting part) s (.next (.resuming part)) s
  | resume (s : UploadState ρ) (part : UploadedPartResult) (resume' : ρ)
      (h : call.onPartUploaded part s.resume = some resume') :
      Stage call p (.resuming part) s (.next (.publishing part))
        { s with resume := resume' }
  | publish (s : UploadState ρ) (part : UploadedPartResult) :
      Stage call p (.publishing part) s .done
        { s with uploadedParts := s.uploadedParts.set (p - 1) part }
  | throw (s : UploadState ρ) (stage : PartStage) (e : UploadError)
      (h : ∀ part, stage ≠ .publishing part) :
      Stage call p stage s (.throw e) s

/-- The pool of `uploadParts`: a part whose slot has an etag is passed over. -/
def jobs (call : UploadCall ν ρ) :
    Jobs PartStage UploadError (UploadState ρ) where
  count := call.plan.uploadPartCount
  skip s p := decide ((slot s.uploadedParts p).etag ≠ "")
  start := .preparing
  stage := Stage call

/-- The slots before the workers start: the completed parts in their places. -/
def placeCompleted (plan : UploadPlan) :
    List UploadedPartResult → List UploadedPartResult →
      Except UploadError (List UploadedPartResult)
  | parts, [] => .ok parts
  | parts, completed :: rest =>
      if completed.plan.partNumber = 0 ∨
          completed.plan.partNumber > plan.uploadPartCount then
        .error (.invalidArgument "completed part number exceeds upload plan")
      else
        placeCompleted plan
          (parts.set (completed.plan.partNumber - 1) completed) rest

/-- `uploadParts` as a whole: the completed parts are placed, the workers run
until all of them have left their loop, and the first error is rethrown. -/
inductive UploadParts (call : UploadCall ν ρ) (partConcurrency : Nat)
    (completedParts : List UploadedPartResult) (puts : List StoredPart)
    (resume : ρ) :
    Except UploadError (List UploadedPartResult) → List StoredPart → ρ →
      Prop where
  | reject (e : UploadError)
      (hplace : placeCompleted call.plan
        (List.replicate call.plan.uploadPartCount {}) completedParts =
          .error e) :
      UploadParts call partConcurrency completedParts puts resume
        (.error e) puts resume
  | run (slots : List UploadedPartResult)
      (pool : Pool partConcurrency PartStage UploadError (UploadState ρ))
      (hplace : placeCompleted call.plan
        (List.replicate call.plan.uploadPartCount {}) completedParts =
          .ok slots)
      (hrun : Run (Pool.Step (jobs call))
        { env := { uploadedParts := slots, puts := puts, resume := resume } }
        pool)
      (hfinished : pool.Finished) :
      UploadParts call partConcurrency completedParts puts resume
        (match pool.firstError with
          | some e => .error e
          | none => .ok pool.env.uploadedParts)
        pool.env.puts pool.env.resume

/-! ## What the worker of a part achieves -/

/-- What the chunks of a call have in common. -/
def scope (call : UploadCall ν ρ) : ChunkScope :=
  { file := call.file
    fileKey := call.fileKey
    vaultId := call.started.vaultId
    fileId := call.started.fileId
    chunkSize := call.plan.fileChunkSize
    totalChunks := call.plan.totalChunks }

/-- The chunks of part `p` of the file, encrypted under the key of the call. -/
structure Chunks (call : UploadCall ν ρ) (p : Nat)
    (chunks : List UploadEncryptedChunk) : Prop where
  encrypted : (scope call).Encrypted call.crypto
    (call.plan.endChunk (p - 1)) chunks
  length : chunks.length =
    call.plan.endChunk p - call.plan.endChunk (p - 1)

/-- A part made of its chunks, and the put that gave it its etag. -/
structure UploadedAs (call : UploadCall ν ρ) (p : Nat)
    (part : UploadedPartResult) (chunks : List UploadEncryptedChunk)
    (put : StoredPart) : Prop where
  window : Chunks call p chunks
  part : part = { partResult call p chunks with etag := put.etag }
  session : put.uploadSessionId = call.started.uploadSessionId
  number : put.partNumber = p
  body : put.body = uploadBody chunks

/-- A part that storage holds as it was last put. -/
def Stored (call : UploadCall ν ρ) (puts : List StoredPart) (p : Nat)
    (part : UploadedPartResult) : Prop :=
  ∃ chunks put, UploadedAs call p part chunks put ∧
    storedBody puts call.started.uploadSessionId p = some put

/-- What a worker has prepared. -/
theorem preparePart_spec {call : UploadCall ν ρ} (hshape : call.plan.Shape)
    {nonces : Nat → ν} {p : Nat} (hp : 1 ≤ p)
    (hle : p ≤ call.plan.uploadPartCount) {part : UploadedPartResult}
    {body : Bytes} (h : preparePart call nonces p = .ok (part, body)) :
    ∃ chunks, Chunks call p chunks ∧ part = partResult call p chunks ∧
      body = uploadBody chunks := by
  obtain ⟨hfirst, hcount, -, -⟩ := hshape.window hp hle
  unfold preparePart at h
  dsimp only at h
  rw [hfirst, hcount] at h
  split at h
  · cases h
  · rename_i reader hopen
    split at h
    · cases h
    · rename_i chunks hchunks
      split at h
      · cases h
      · cases h
        obtain ⟨hencrypted, hlength⟩ :=
          UploadFileChunkReader.encryptWindow_spec hopen hchunks
        exact ⟨chunks, ⟨hencrypted, hlength⟩, rfl, rfl⟩

theorem storedBody_cons_self {puts : List StoredPart} {session : String}
    {p : Nat} {put : StoredPart} (hsession : put.uploadSessionId = session)
    (hp : put.partNumber = p) :
    storedBody (put :: puts) session p = some put := by
  unfold storedBody
  rw [List.find?_cons_of_pos]
  simp [hsession, hp]

/-- A put for another part. -/
theorem storedBody_cons_other {puts : List StoredPart} {session : String}
    {p : Nat} {put : StoredPart} (hp : put.partNumber ≠ p) :
    storedBody (put :: puts) session p = storedBody puts session p := by
  unfold storedBody
  rw [List.find?_cons_of_neg]
  simp [hp]

theorem mem_of_storedBody {puts : List StoredPart} {id : String} {p : Nat}
    {put : StoredPart} (h : storedBody puts id p = some put) : put ∈ puts :=
  List.mem_of_find?_eq_some h

/-- A part carries the number it was made for. -/
theorem UploadedAs.partNumber {call : UploadCall ν ρ} {p : Nat}
    {part : UploadedPartResult} {chunks : List UploadEncryptedChunk}
    {put : StoredPart} (h : UploadedAs call p part chunks put) :
    part.plan.partNumber = p := by
  rw [h.part]
  rfl

/-- Two calls on the same chunks, in one session, upload the same parts. -/
theorem UploadedAs.transfer {ρ' : Type} {call : UploadCall ν ρ}
    {call' : UploadCall ν ρ'} {p : Nat} {part : UploadedPartResult}
    {chunks : List UploadEncryptedChunk} {put : StoredPart}
    (h : UploadedAs call p part chunks put)
    (hcrypto : call'.crypto = call.crypto) (hplan : call'.plan = call.plan)
    (hscope : scope call' = scope call)
    (hsession : call'.started.uploadSessionId =
      call.started.uploadSessionId) :
    UploadedAs call' p part chunks put := by
  refine ⟨⟨?_, ?_⟩, ?_, ?_, h.number, h.body⟩
  · rw [hscope, hcrypto, hplan]
    exact h.window.encrypted
  · rw [hplan]
    exact h.window.length
  · rw [h.part]
    unfold partResult
    rw [hcrypto, hplan]
  · rw [hsession]
    exact h.session

theorem slot_set {parts : List UploadedPartResult} {p q : Nat}
    (part : UploadedPartResult) (hp : 1 ≤ p) (hle : p ≤ parts.length)
    (hq : 1 ≤ q) :
    slot (parts.set (p - 1) part) q = if q = p then part else slot parts q := by
  unfold slot
  rw [List.getD_eq_getElem?_getD, List.getD_eq_getElem?_getD,
    List.getElem?_set]
  by_cases h : q = p
  · subst h
    rw [if_pos rfl, if_pos rfl, if_pos (by omega)]
    rfl
  · rw [if_neg h, if_neg (by omega)]

/-! ## The proof obligations of the pool -/

/-- What the resume state keeps: `R`, which may speak of the counter, through
every put and every report of a stored part that was taken, and that a part
has been reported. -/
structure ResumeRules (call : UploadCall ν ρ)
    (R : Nat → List StoredPart → ρ → Prop) (Reported : Nat → ρ → Prop) :
    Prop where
  count : ∀ m puts resume, R m puts resume → R (m + 1) puts resume
  put : ∀ m puts resume put, R m puts resume → R m (put :: puts) resume
  report : ∀ m puts resume resume' p part, 1 ≤ p →
    p ≤ call.plan.uploadPartCount → p < m →
    call.started.providerUploadId ≠ "" → Stored call puts p part →
    call.onPartUploaded part resume = some resume' →
    R m puts resume → R m puts resume'
  reported : ∀ puts resume resume' p part, Stored call puts p part →
    call.onPartUploaded part resume = some resume' → Reported p resume'
  reported_other : ∀ resume resume' q part,
    call.onPartUploaded part resume = some resume' →
    Reported q resume → Reported q resume'

section Obligations

variable (call : UploadCall ν ρ) (Given : Nat → UploadedPartResult → Prop)
variable (R : Nat → List StoredPart → ρ → Prop) (Reported : Nat → ρ → Prop)

/-- The number of a part of the plan. -/
def InPlan (p : Nat) : Prop := 1 ≤ p ∧ p ≤ call.plan.uploadPartCount

/-- The shared state: a slot for each part, and the resume state. -/
def Shared (m : Nat) (s : UploadState ρ) : Prop :=
  s.uploadedParts.length = call.plan.uploadPartCount ∧ R m s.puts s.resume

/-- A part nobody has taken yet: its slot is empty, or was filled before. -/
def Untaken (p : Nat) (s : UploadState ρ) : Prop :=
  InPlan call p ∧
    ((slot s.uploadedParts p).etag = "" ∨ Given p (slot s.uploadedParts p))

/-- A part that was put to storage and, in a multipart upload, reported. -/
def Sent (p : Nat) (part : UploadedPartResult) (s : UploadState ρ) : Prop :=
  Stored call s.puts p part ∧
    (call.started.providerUploadId ≠ "" → Reported p s.resume)

/-- What the worker of a part relies on. -/
def Underway (p : Nat) : PartStage → UploadState ρ → Prop
  | .preparing, _ => InPlan call p
  | .presigning part body, _ => InPlan call p ∧
      ∃ chunks, Chunks call p chunks ∧ part = partResult call p chunks ∧
        body = uploadBody chunks
  | .storing _ part body, _ => InPlan call p ∧
      ∃ chunks, Chunks call p chunks ∧ part = partResult call p chunks ∧
        body = uploadBody chunks
  | .reporting part, s => InPlan call p ∧
      call.started.providerUploadId ≠ "" ∧ Stored call s.puts p part
  | .resuming part, s => InPlan call p ∧
      call.started.providerUploadId ≠ "" ∧ Stored call s.puts p part
  | .publishing part, s => InPlan call p ∧ Sent call Reported p part s

/-- A part whose slot is filled. -/
def Filled (p : Nat) (s : UploadState ρ) : Prop :=
  InPlan call p ∧ (Given p (slot s.uploadedParts p) ∨
    Sent call Reported p (slot s.uploadedParts p) s)

end Obligations

/-! ## The obligations hold -/

section Sound

variable {call : UploadCall ν ρ} {Given : Nat → UploadedPartResult → Prop}
variable {R : Nat → List StoredPart → ρ → Prop} {Reported : Nat → ρ → Prop}

/-- What a stage of part `p` leaves alone: the slots of other parts, what
storage holds for them, and that they were reported. -/
structure Apart (call : UploadCall ν ρ) (Reported : Nat → ρ → Prop) (q : Nat)
    (s s' : UploadState ρ) : Prop where
  slot : slot s'.uploadedParts q = slot s.uploadedParts q
  stored : storedBody s'.puts call.started.uploadSessionId q =
    storedBody s.puts call.started.uploadSessionId q
  reported : Reported q s.resume → Reported q s'.resume

theorem Stage.apart (hrules : ResumeRules call R Reported) {p q : Nat}
    {t : PartStage} {o : Outcome PartStage UploadError}
    {s s' : UploadState ρ} (hstage : Stage call p t s o s')
    {m : Nat} (hshared : Shared call R m s)
    (hlocal : Underway call Reported p t s) (hq : InPlan call q) (hne : q ≠ p) : Apart call Reported q s s' := by
  cases hstage with
  | store _ url etag part body h =>
      exact ⟨rfl, storedBody_cons_other (Ne.symm hne), fun h => h⟩
  | storeSingle _ url etag part body h =>
      exact ⟨rfl, storedBody_cons_other (Ne.symm hne), fun h => h⟩
  | resume _ part resume' h =>
      exact ⟨rfl, rfl, hrules.reported_other _ resume' q part h⟩
  | publish _ part =>
      have hrange := hlocal.1
      refine ⟨?_, rfl, fun h => h⟩
      have hlength := hshared.1
      show slot (s.uploadedParts.set (p - 1) part) q = _
      rw [slot_set part hrange.1 (by rw [hlength]; exact hrange.2) hq.1,
        if_neg hne]
  | prepare | given | presign | report | throw =>
      exact ⟨rfl, rfl, fun h => h⟩

theorem Apart.stored_part {q : Nat} {s s' : UploadState ρ}
    (h : Apart call Reported q s s') {part : UploadedPartResult}
    (hstored : Stored call s.puts q part) : Stored call s'.puts q part := by
  obtain ⟨chunks, put, has, hput⟩ := hstored
  exact ⟨chunks, put, has, by rw [h.stored, hput]⟩

theorem Apart.sent {q : Nat} {s s' : UploadState ρ}
    (h : Apart call Reported q s s') {part : UploadedPartResult}
    (hsent : Sent call Reported q part s) : Sent call Reported q part s' :=
  ⟨h.stored_part hsent.1, fun hprovider => h.reported (hsent.2 hprovider)⟩

theorem Underway.inPlan {q : Nat} {u : PartStage} {s : UploadState ρ}
    (h : Underway call Reported q u s) : InPlan call q := by
  cases u with
  | preparing => exact h
  | presigning => exact h.1
  | storing => exact h.1
  | reporting => exact h.1
  | resuming => exact h.1
  | publishing => exact h.1

theorem Apart.underway {q : Nat} {u : PartStage} {s s' : UploadState ρ}
    (h : Apart call Reported q s s') (hlocal : Underway call Reported q u s) :
    Underway call Reported q u s' := by
  cases u with
  | preparing => exact hlocal
  | presigning part body => exact hlocal
  | storing url part body => exact hlocal
  | reporting part =>
      exact ⟨hlocal.1, hlocal.2.1, h.stored_part hlocal.2.2⟩
  | resuming part =>
      exact ⟨hlocal.1, hlocal.2.1, h.stored_part hlocal.2.2⟩
  | publishing part => exact ⟨hlocal.1, h.sent hlocal.2⟩

/-- The put of a prepared part. -/
theorem stored_of_put {p : Nat} {url etag : String}
    {part : UploadedPartResult} {body : Bytes} {puts : List StoredPart}
    (h : ∃ chunks, Chunks call p chunks ∧ part = partResult call p chunks ∧
      body = uploadBody chunks) :
    Stored call
      ({ uploadSessionId := call.started.uploadSessionId, partNumber := p
         url := url, body := body, etag := etag } :: puts) p
      { part with etag := etag } := by
  obtain ⟨chunks, hwindow, hpart, hbody⟩ := h
  exact ⟨chunks, _, ⟨hwindow, by rw [hpart], rfl, rfl, hbody⟩,
    storedBody_cons_self rfl rfl⟩

/-- The stage of a part leads from what its worker relies on to what it relies
on next. -/
theorem Stage.next (hshape : call.plan.Shape)
    (hrules : ResumeRules call R Reported) {p : Nat} {t u : PartStage}
    {s s' : UploadState ρ} (hstage : Stage call p t s (.next u) s')
    (hlocal : Underway call Reported p t s) :
    Underway call Reported p u s' := by
  cases hstage with
  | prepare _ nonces part body h =>
      exact ⟨hlocal, preparePart_spec hshape hlocal.1 hlocal.2 h⟩
  | given _ part body h => exact hlocal
  | presign _ part body url h => exact hlocal
  | store _ url etag part body h =>
      exact ⟨hlocal.1, h, stored_of_put hlocal.2⟩
  | storeSingle _ url etag part body h =>
      exact ⟨hlocal.1, stored_of_put hlocal.2, fun hno => absurd h hno⟩
  | report _ part => exact hlocal
  | resume _ part resume' h =>
      exact ⟨hlocal.1, hlocal.2.2, fun _ =>
        hrules.reported s.puts s.resume resume' p part hlocal.2.2 h⟩

/-- Every stage keeps the slots and what the resume state keeps. -/
theorem Stage.shared (hrules : ResumeRules call R Reported) {p : Nat}
    {t : PartStage} {o : Outcome PartStage UploadError}
    {s s' : UploadState ρ} (hstage : Stage call p t s o s')
    {m : Nat} (hshared : Shared call R m s)
    (hlocal : Underway call Reported p t s) (htaken : p < m) :
    Shared call R m s' := by
  cases hstage with
  | store _ url etag part body h =>
      exact ⟨hshared.1, hrules.put _ _ _ _ hshared.2⟩
  | storeSingle _ url etag part body h =>
      exact ⟨hshared.1, hrules.put _ _ _ _ hshared.2⟩
  | resume _ part resume' h =>
      exact ⟨hshared.1, hrules.report m _ _ resume' p part hlocal.1.1
        hlocal.1.2 htaken hlocal.2.1 hlocal.2.2 h hshared.2⟩
  | publish _ part =>
      refine ⟨?_, hshared.2⟩
      show (s.uploadedParts.set (p - 1) part).length = _
      rw [List.length_set]
      exact hshared.1
  | prepare | given | presign | report | throw => exact hshared

/-- The obligations of the pool. -/
theorem jobs_sound (hshape : call.plan.Shape)
    (hrules : ResumeRules call R Reported) :
    (jobs call).Sound (Shared call R) (Untaken call Given)
      (Underway call Reported) (Filled call Given Reported) := by
  refine ⟨?_, ?_, ?_, ?_, ?_, ?_, ?_, ?_, ?_⟩
  · intro m s hshared
    exact ⟨hshared.1, hrules.count m _ _ hshared.2⟩
  · intro m p s _ huntaken hskip
    refine ⟨huntaken.1, Or.inl ?_⟩
    rcases huntaken.2 with hempty | hgiven
    · exact absurd hempty (of_decide_eq_true hskip)
    · exact hgiven
  · intro m p s _ huntaken _
    exact huntaken.1
  · intro m p t s o s' hstage hshared hlocal htaken
    exact Stage.shared hrules hstage hshared hlocal htaken
  · intro m p t s u s' hstage _ hlocal
    exact Stage.next hshape hrules hstage hlocal
  · intro m p t s s' hstage hshared hlocal
    cases hstage with
    | publish _ part =>
        have hslot : slot (s.uploadedParts.set (p - 1) part) p = part := by
          rw [slot_set part hlocal.1.1 (by rw [hshared.1]; exact hlocal.1.2)
            hlocal.1.1, if_pos rfl]
        refine ⟨hlocal.1, Or.inr ?_⟩
        show Sent call Reported p (slot (s.uploadedParts.set (p - 1) part) p) _
        rw [hslot]
        exact hlocal.2
  · intro m p t s o s' hstage hshared hlocal q hne huntaken
    have hapart := Stage.apart hrules hstage hshared hlocal huntaken.1 hne
    refine ⟨huntaken.1, ?_⟩
    rw [hapart.slot]
    exact huntaken.2
  · intro m p t s o s' hstage hshared hlocal q u hne hother
    exact (Stage.apart hrules hstage hshared hlocal hother.inPlan hne).underway
      hother
  · intro m p t s o s' hstage hshared hlocal q hne hfilled
    have hapart := Stage.apart hrules hstage hshared hlocal hfilled.1 hne
    refine ⟨hfilled.1, ?_⟩
    rw [hapart.slot]
    rcases hfilled.2 with hgiven | hsent
    · exact Or.inl hgiven
    · exact Or.inr (hapart.sent hsent)

end Sound

/-! ## The completed parts in their slots -/

/-- The slots hold nothing, or a completed part in its place. -/
theorem placeCompleted_spec {plan : UploadPlan}
    {completedParts : List UploadedPartResult} :
    ∀ {parts slots : List UploadedPartResult},
      placeCompleted plan parts completedParts = .ok slots →
      parts.length = plan.uploadPartCount →
      slots.length = plan.uploadPartCount ∧
        ∀ p, 1 ≤ p → slot slots p = slot parts p ∨
          slot slots p ∈ completedParts ∧
            (slot slots p).plan.partNumber = p := by
  induction completedParts with
  | nil =>
      intro parts slots h hlength
      cases h
      exact ⟨hlength, fun p _ => Or.inl rfl⟩
  | cons completed rest ih =>
      intro parts slots h hlength
      rw [placeCompleted] at h
      split at h
      · cases h
      · rename_i hrange
        rw [not_or, Nat.not_lt] at hrange
        obtain ⟨hslots, hplaced⟩ := ih h (by rw [List.length_set, hlength])
        refine ⟨hslots, ?_⟩
        intro p hp
        have hfirst : 1 ≤ completed.plan.partNumber := by omega
        rcases hplaced p hp with hsame | hmem
        · rw [slot_set completed hfirst (by rw [hlength]; exact hrange.2) hp]
            at hsame
          by_cases hnumber : p = completed.plan.partNumber
          · rw [if_pos hnumber] at hsame
            refine Or.inr ⟨?_, ?_⟩
            · rw [hsame]
              exact List.mem_cons_self
            · rw [hsame, hnumber]
          · rw [if_neg hnumber] at hsame
            exact Or.inl hsame
        · exact Or.inr ⟨List.mem_cons_of_mem _ hmem.1, hmem.2⟩

/-- A part number that the plan does not have is rejected before anything is
sent. -/
theorem placeCompleted_range {plan : UploadPlan}
    {completedParts : List UploadedPartResult} :
    ∀ {parts slots : List UploadedPartResult},
      placeCompleted plan parts completedParts = .ok slots →
      ∀ completed ∈ completedParts, 1 ≤ completed.plan.partNumber ∧
        completed.plan.partNumber ≤ plan.uploadPartCount := by
  induction completedParts with
  | nil =>
      intro parts slots _ completed hmem
      cases hmem
  | cons first rest ih =>
      intro parts slots h completed hmem
      rw [placeCompleted] at h
      split at h
      · cases h
      · rename_i hrange
        rw [not_or, Nat.not_lt] at hrange
        rcases List.mem_cons.mp hmem with rfl | hrest
        · omega
        · exact ih h completed hrest

/-! ## The call -/

section Call

variable {call : UploadCall ν ρ}
variable {R : Nat → List StoredPart → ρ → Prop} {Reported : Nat → ρ → Prop}
variable {completedParts : List UploadedPartResult}

/-- A completed part in its own slot. -/
def GivenPart (completedParts : List UploadedPartResult) (p : Nat)
    (part : UploadedPartResult) : Prop :=
  part ∈ completedParts ∧ part.plan.partNumber = p

/-- The slots before the workers start. -/
theorem placeCompleted_slots {slots : List UploadedPartResult}
    (hplace : placeCompleted call.plan
      (List.replicate call.plan.uploadPartCount {}) completedParts =
        .ok slots) :
    slots.length = call.plan.uploadPartCount ∧
      ∀ p, 1 ≤ p → (slot slots p).etag = "" ∨
        GivenPart completedParts p (slot slots p) := by
  obtain ⟨hlength, hplaced⟩ := placeCompleted_spec hplace
    (by rw [List.length_replicate])
  refine ⟨hlength, ?_⟩
  intro p hp
  rcases hplaced p hp with hempty | hgiven
  · refine Or.inl ?_
    rw [hempty]
    unfold slot
    rw [List.getD_eq_getElem?_getD, List.getElem?_replicate]
    split <;> rfl
  · exact Or.inr hgiven

/-- A call that returns has seen no error. -/
theorem firstError_of_ok {firstError : Option UploadError}
    {slots parts : List UploadedPartResult}
    (h : (match firstError with
      | some e => Except.error e
      | none => .ok slots) = .ok parts) :
    firstError = none ∧ parts = slots := by
  cases firstError with
  | some e => cases h
  | none =>
      cases h
      exact ⟨rfl, rfl⟩

/-- The invariant of the pool after any number of its steps. -/
theorem pool_inv (hshape : call.plan.Shape)
    (hrules : ResumeRules call R Reported) {n : Nat}
    {slots : List UploadedPartResult} {puts : List StoredPart} {resume : ρ}
    (hplace : placeCompleted call.plan
      (List.replicate call.plan.uploadPartCount {}) completedParts =
        .ok slots)
    (hresume : R 1 puts resume)
    {pool : Pool n PartStage UploadError (UploadState ρ)}
    (hrun : Run (Pool.Step (jobs call))
      { env := { uploadedParts := slots, puts := puts, resume := resume } }
      pool) :
    Pool.Inv (jobs call) (Shared call R)
      (Untaken call (GivenPart completedParts)) (Underway call Reported)
      (Filled call (GivenPart completedParts) Reported) pool := by
  obtain ⟨hlength, hplaced⟩ := placeCompleted_slots hplace
  refine Pool.Inv.run (jobs_sound hshape hrules) hrun
    (Pool.Inv.init ⟨hlength, hresume⟩ ?_)
  intro p hp hle
  exact ⟨⟨hp, hle⟩, hplaced p hp⟩

/-- The call, whether it succeeds or throws: what the resume state keeps
holds afterwards, for some value of the counter; of more consecutive parts than
workers, all taken, one slot is filled; and on success all slots are. -/
theorem UploadParts.outcome (hshape : call.plan.Shape)
    (hrules : ResumeRules call R Reported) {n : Nat}
    {puts puts' : List StoredPart} {resume resume' : ρ}
    {result : Except UploadError (List UploadedPartResult)}
    (h : UploadParts call n completedParts puts resume result puts' resume')
    (hresume : R 1 puts resume) :
    ∃ m, R m puts' resume' ∧
      (∀ a, 1 ≤ a → a + n < m → a + n ≤ call.plan.uploadPartCount →
        ∃ p part, a ≤ p ∧ p ≤ a + n ∧ (GivenPart completedParts p part ∨
          (call.started.providerUploadId ≠ "" → Reported p resume'))) ∧
      (∀ parts, result = .ok parts → 0 < n →
        parts.length = call.plan.uploadPartCount ∧
        ∀ p, 1 ≤ p → p ≤ call.plan.uploadPartCount →
          GivenPart completedParts p (slot parts p) ∨
            Stored call puts' p (slot parts p)) := by
  cases h with
  | reject e hplace =>
      refine ⟨1, hresume, ?_, ?_⟩
      · intro a ha hlt
        omega
      · intro parts hok
        cases hok
  | run slots pool hplace hrun hfinished =>
      have hinv := pool_inv hshape hrules hplace hresume hrun
      refine ⟨pool.nextNumber, hinv.achieved.env.2, ?_, ?_⟩
      · intro a ha hlt hle
        obtain ⟨p, hlow, hhigh, hfilled⟩ := hinv.exists_done ha hlt hle
        refine ⟨p, slot pool.env.uploadedParts p, hlow, hhigh, ?_⟩
        rcases hfilled.2 with hgiven | hsent
        · exact Or.inl hgiven
        · exact Or.inr hsent.2
      · intro parts hok hn
        obtain ⟨herror, rfl⟩ := firstError_of_ok hok
        refine ⟨hinv.achieved.env.1, ?_⟩
        intro p hp hle
        have hfilled := hinv.done_of_finished hn hfinished herror hp hle
        rcases hfilled.2 with hgiven | hsent
        · exact Or.inl hgiven
        · exact Or.inr hsent.1

end Call

/-! ## The chunks of all parts -/

/-- The slot of part `p` holds the chunks of part `p`, and `body` their
bytes. -/
def Holds (call : UploadCall ν ρ) (p : Nat) (part : UploadedPartResult)
    (body : Bytes) : Prop :=
  ∃ chunks, Chunks call p chunks ∧
    part.chunks = chunks.map (chunkResult call.crypto) ∧
    body = uploadBody chunks

/-- The first `k` parts make up the chunks up to the end of part `k`; by
induction on `k`. -/
theorem chunks_of_parts_upto {call : UploadCall ν ρ}
    (hshape : call.plan.Shape) {parts : List UploadedPartResult}
    {bodies : Nat → Bytes}
    (hlength : parts.length = call.plan.uploadPartCount)
    (hparts : ∀ p, 1 ≤ p → p ≤ call.plan.uploadPartCount →
      Holds call p (slot parts p) (bodies p)) :
    ∀ k, k ≤ call.plan.uploadPartCount →
      ∃ chunks, (scope call).Encrypted call.crypto 0 chunks ∧
        chunks.length = call.plan.endChunk k ∧
        (parts.take k).flatMap UploadedPartResult.chunks =
          chunks.map (chunkResult call.crypto) ∧
        (List.range' 1 k).flatMap bodies = uploadBody chunks := by
  intro k
  induction k with
  | zero =>
      intro _
      refine ⟨[], trivial, ?_, ?_, rfl⟩
      · rw [UploadPlan.Shape.endChunk_zero]
        rfl
      · simp
  | succ k ih =>
      intro hk
      obtain ⟨before, hencrypted, hbefore, hresults, hbodies⟩ :=
        ih (Nat.le_of_succ_le hk)
      obtain ⟨chunks, hchunks, hpart, hbody⟩ := hparts (k + 1) (by omega) hk
      have hwindow := (hshape.window (p := k + 1) (by omega) hk).2.2.1
      have hstart := hchunks.encrypted
      have hcount := hchunks.length
      rw [Nat.add_sub_cancel] at hstart hcount hwindow
      refine ⟨before ++ chunks, ?_, ?_, ?_, ?_⟩
      · refine hencrypted.append ?_
        rw [hbefore, Nat.zero_add]
        exact hstart
      · rw [List.length_append, hbefore, hcount]
        omega
      · have hget : parts[k]? = some (slot parts (k + 1)) := by
          unfold slot
          rw [Nat.add_sub_cancel, List.getD_eq_getElem?_getD,
            List.getElem?_eq_getElem (by omega)]
          rfl
        rw [List.take_add_one, hget, Option.toList_some, List.flatMap_append,
          hresults, List.map_append, List.flatMap_singleton, hpart]
      · rw [List.range'_concat, List.flatMap_append, hbodies,
          List.flatMap_singleton, Nat.one_mul, Nat.add_comm 1 k, hbody]
        unfold uploadBody
        rw [List.flatMap_append]

/-- The parts in their slots make up all chunks of the plan, in order. -/
theorem chunks_of_parts {call : UploadCall ν ρ} (hshape : call.plan.Shape)
    {parts : List UploadedPartResult} {bodies : Nat → Bytes}
    (hlength : parts.length = call.plan.uploadPartCount)
    (hparts : ∀ p, 1 ≤ p → p ≤ call.plan.uploadPartCount →
      Holds call p (slot parts p) (bodies p)) :
    ∃ chunks, (scope call).Encrypted call.crypto 0 chunks ∧
      chunks.length = call.plan.totalChunks ∧
      parts.flatMap UploadedPartResult.chunks =
        chunks.map (chunkResult call.crypto) ∧
      (List.range' 1 call.plan.uploadPartCount).flatMap bodies =
        uploadBody chunks := by
  obtain ⟨chunks, hencrypted, hcount, hresults, hbodies⟩ :=
    chunks_of_parts_upto hshape hlength hparts call.plan.uploadPartCount
      (Nat.le_refl _)
  refine ⟨chunks, hencrypted, ?_, ?_, hbodies⟩
  · rw [hcount, hshape.endChunk_count]
  · rw [← hlength, List.take_length] at hresults
    exact hresults

end MultipartUploader

end ArkiveSync
