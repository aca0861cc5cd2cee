import Mathlib.Logic.Function.Basic
import ArkiveSync.Model.DownloadService
import ArkiveSync.Model.ManifestArithmetic

/-!
# A download, system call by system call

`downloadFile` again, with everything that can go wrong: each request and each
system call has its answer in a table that stands for the outside world.  A
write loop consumes the answers of `pwrite` in their order; a loop that comes
to an end has been given finitely many, and the call behind the last of them
writes what is left.

Entries of the file system are the paths with what they name.  `remove` of the
temporary file succeeds, and `rename` happens as a whole or not at all.

## Main results

* `writeLoop_eq_true`: a write loop that returns has written everything, however
  the kernel split it.
* `commit_opened_of`, `commit_opened_of_not`: a commit takes place, or leaves
  something that a rollback removes.
* `downloadChunks_opened`: what the loop over the chunks makes of a writer.
-/

namespace ArkiveSync

open Library

/-- What a path names. -/
inductive PathEntry where
  | file (content : Bytes)
  | directory
  deriving DecidableEq, Repr

/-- The paths and what they name. -/
abbrev PathTable := String → Option PathEntry

/-- An answer of `pwrite`: `EINTR`, another error, or a number of bytes. -/
inductive PwriteAnswer where
  | interrupted
  | failed
  | wrote (bytes : Nat)
  deriving DecidableEq, Repr

/-- The answers of the system while one file is written.  `hex` is what
`generateRandomHex` gives, `pwrites` the answers for each chunk. -/
structure WriterCalls where
  hex : String
  createDirectories : Bool := true
  openTemp : Bool := true
  fallocate : Bool := true
  pwrites : Nat → List PwriteAnswer := fun _ => []
  fdatasync : Bool := true
  close : Bool := true
  rename : Bool := true

/-- `tempPath_`. -/
def WriterCalls.tempPath (calls : WriterCalls) (finalPath : String) : String :=
  finalPath ++ ".arkive-" ++ calls.hex ++ ".tmp"

theorem WriterCalls.tempPath_ne (calls : WriterCalls) (finalPath : String) :
    calls.tempPath finalPath ≠ finalPath := by
  intro h
  have hlength := congrArg String.length h
  have hdash : ".arkive-".length = 8 := by decide
  simp only [tempPath, String.length_append, hdash] at hlength
  omega

/-- `LinuxAtomicFileWriter` in its file system. -/
structure WriterState where
  paths : PathTable
  finalPath : String
  tempPath : String
  fdOpen : Bool
  committed : Bool

namespace WriterState

/-- What the file behind `fd_` holds. -/
def content (w : WriterState) : Bytes :=
  match w.paths w.tempPath with
  | some (.file content) => content
  | _ => []

/-- The file behind `fd_` gets another content. -/
def setContent (w : WriterState) (content : Bytes) : WriterState :=
  { w with paths := Function.update w.paths w.tempPath (some (.file content)) }

/-- The constructor; `none` is an exception, which no destructor follows. -/
def openWriter (calls : WriterCalls) (finalPath : String) (paths : PathTable) :
    Option WriterState :=
  if !calls.createDirectories || !calls.openTemp ||
      paths (calls.tempPath finalPath) == some .directory then
    none
  else
    some
      { paths := Function.update paths (calls.tempPath finalPath)
          (some (.file []))
        finalPath := finalPath
        tempPath := calls.tempPath finalPath
        fdOpen := true
        committed := false }

/-- `preallocate`; the length is an `off_t`. -/
def preallocate (calls : WriterCalls) (w : WriterState) (size : Nat) :
    WriterState × Bool :=
  if !calls.fallocate || decide (toInt64 size ≤ 0) then (w, false)
  else
    (w.setContent
      (w.content ++ List.replicate (size - w.content.length) 0), true)

/-- How many bytes a file can still take from an offset on: none when the
offset is no `off_t`. -/
def room (offset : Nat) : Nat := int64Max - offset

/-- The loop of `writeAt` on the content of the file.  The offset stays an
`off_t`, so it does not wrap. -/
def writeLoop : List PwriteAnswer → (content : Bytes) → (offset : Nat) →
    (data : Bytes) → Bytes × Bool
  | [], content, offset, data =>
      if data.length ≤ room offset ∨ data = [] then
        (AtomicFileWriter.writeAt content offset data, true)
      else
        (content, false)
  | answer :: answers, content, offset, data =>
      if data = [] then (content, true)
      else
        match answer with
        | .interrupted => writeLoop answers content offset data
        | .failed => (content, false)
        | .wrote bytes =>
            let written := min bytes (min data.length (room offset))
            if written = 0 then (content, false)
            else
              writeLoop answers
                (AtomicFileWriter.writeAt content offset (data.take written))
                (offset + written) (data.drop written)

/-- `writeAt`. -/
def writeAt (answers : List PwriteAnswer) (w : WriterState) (offset : Nat)
    (data : Bytes) : WriterState × Bool :=
  let done := writeLoop answers w.content offset data
  (w.setContent done.1, done.2)

/-- `rename` of the temporary file to the target. -/
def rename (w : WriterState) : PathTable :=
  Function.update (Function.update w.paths w.tempPath none) w.finalPath
    (w.paths w.tempPath)

/-- `commit`; what becomes of the directory's own `fsync` is ignored. -/
def commit (calls : WriterCalls) (w : WriterState) : WriterState × Bool :=
  if !calls.fdatasync || !w.fdOpen then (w, false)
  else if !calls.close then ({ w with fdOpen := false }, false)
  else if !calls.rename || w.paths w.finalPath == some .directory then
    ({ w with fdOpen := false }, false)
  else
    ({ w with paths := w.rename, fdOpen := false, committed := true }, true)

/-- `rollback`, which is the destructor as well. -/
def rollback (w : WriterState) : WriterState :=
  if w.committed then { w with fdOpen := false }
  else
    { w with
      fdOpen := false
      paths := Function.update w.paths w.tempPath none }

end WriterState

/-! ## A write in pieces -/

namespace AtomicFileWriter

/-- Two pieces, the second where the first ends. -/
theorem writeAt_split (file : Bytes) (offset : Nat) (data : Bytes) {k : Nat}
    (hpos : 0 < k) (hle : k ≤ data.length) :
    writeAt (writeAt file offset (data.take k)) (offset + k) (data.drop k) =
      writeAt file offset data := by
  by_cases hall : data.drop k = []
  · have hlength : data.length ≤ k := List.drop_eq_nil_iff.mp hall
    rw [hall, List.take_of_length_le hlength]
    exact if_pos rfl
  · have hdata : data ≠ [] := by
      rintro rfl
      exact hall List.drop_nil
    have htake : data.take k ≠ [] := by
      intro hnil
      rw [List.take_eq_nil_iff] at hnil
      rcases hnil with hzero | hnil
      · omega
      · exact hdata hnil
    have hhead : ((file ++ List.replicate (offset - file.length) 0).take
        offset).length = offset := by
      rw [List.length_take, List.length_append, List.length_replicate]
      omega
    have htakeLength : (data.take k).length = k := by
      rw [List.length_take]
      omega
    have hsum : offset + k + (data.drop k).length = offset + data.length := by
      rw [List.length_drop]
      omega
    unfold writeAt
    rw [if_neg htake, if_neg hall, if_neg hdata, htakeLength, hsum]
    generalize hfirst : (file ++ List.replicate (offset - file.length) 0).take
      offset = front at hhead
    have hfront : (front ++ data.take k).length = offset + k := by
      rw [List.length_append, hhead, htakeLength]
    have hgap : offset + k -
        (front ++ data.take k ++ file.drop (offset + k)).length = 0 := by
      rw [List.length_append, hfront]
      omega
    rw [hgap, List.replicate_zero, List.append_nil, List.take_left' hfront]
    have hrest : offset + data.length = offset + k + (data.length - k) := by
      omega
    rw [hrest, ← List.drop_drop, List.drop_left' hfront, List.drop_drop,
      List.append_assoc front, List.take_append_drop]

end AtomicFileWriter

namespace WriterState

/-- However the kernel splits the write, a loop that returns has written
everything; by induction on the answers. -/
theorem writeLoop_eq_true {answers : List PwriteAnswer} :
    ∀ {content data : Bytes} {offset : Nat} {content' : Bytes},
      writeLoop answers content offset data = (content', true) →
      content' = AtomicFileWriter.writeAt content offset data := by
  induction answers with
  | nil =>
      intro content data offset content' h
      unfold writeLoop at h
      split at h
      · exact (congrArg Prod.fst h).symm
      · cases h
  | cons answer answers ih =>
      intro content data offset content' h
      unfold writeLoop at h
      split at h
      next hdata =>
          cases h
          exact (if_pos hdata).symm
      next hdata =>
          cases answer with
          | interrupted => exact ih h
          | failed => cases h
          | wrote bytes =>
              simp only at h
              split at h
              next => cases h
              next hwritten =>
                  rw [ih h]
                  exact AtomicFileWriter.writeAt_split _ _ _ (by omega)
                    (by omega)

/-! ## A writer that is open -/

/-- The writer of a target, with so much in its temporary file. -/
def opened (calls : WriterCalls) (finalPath : String) (paths : PathTable)
    (content : Bytes) : WriterState :=
  { paths := Function.update paths (calls.tempPath finalPath)
      (some (.file content))
    finalPath := finalPath
    tempPath := calls.tempPath finalPath
    fdOpen := true
    committed := false }

variable {calls : WriterCalls} {finalPath : String} {paths : PathTable}
  {content : Bytes}

@[simp] theorem opened_content :
    (opened calls finalPath paths content).content = content := by
  unfold opened WriterState.content
  simp only [Function.update_self]

@[simp] theorem opened_setContent (content' : Bytes) :
    (opened calls finalPath paths content).setContent content' =
      opened calls finalPath paths content' := by
  unfold opened setContent
  simp only [Function.update_idem]

/-- What the constructor needs. -/
def Opens (calls : WriterCalls) (finalPath : String) (paths : PathTable) :
    Prop :=
  calls.createDirectories = true ∧ calls.openTemp = true ∧
    paths (calls.tempPath finalPath) ≠ some .directory

theorem openWriter_eq (calls : WriterCalls) (finalPath : String)
    (paths : PathTable) :
    (Opens calls finalPath paths ∧ openWriter calls finalPath paths =
      some (opened calls finalPath paths [])) ∨
    (¬ Opens calls finalPath paths ∧
      openWriter calls finalPath paths = none) := by
  unfold openWriter Opens
  by_cases h : (!calls.createDirectories || !calls.openTemp ||
      paths (calls.tempPath finalPath) == some .directory) = true
  · rw [if_pos h]
    refine Or.inr ⟨?_, rfl⟩
    rintro ⟨hcreate, hopen, hdirectory⟩
    simp [hcreate, hopen, hdirectory] at h
  · rw [if_neg h]
    refine Or.inl ⟨?_, rfl⟩
    simpa [and_assoc] using h

/-- `preallocate` of the new file. -/
theorem preallocate_opened (calls : WriterCalls) (finalPath : String)
    (paths : PathTable) (size : Nat) :
    (calls.fallocate = true ∧ 0 < toInt64 size ∧
      (opened calls finalPath paths []).preallocate calls size =
        (opened calls finalPath paths (List.replicate size 0), true)) ∨
    (¬ (calls.fallocate = true ∧ 0 < toInt64 size) ∧
      (opened calls finalPath paths []).preallocate calls size =
        (opened calls finalPath paths [], false)) := by
  unfold preallocate
  by_cases h : (!calls.fallocate || decide (toInt64 size ≤ 0)) = true
  · rw [if_pos h]
    refine Or.inr ⟨?_, rfl⟩
    rintro ⟨hcall, hsize⟩
    simp only [hcall, Bool.not_true, Bool.false_or, decide_eq_true_eq] at h
    omega
  · rw [if_neg h]
    simp only [Bool.or_eq_true, Bool.not_eq_true', decide_eq_true_eq, not_or,
      Bool.not_eq_false, not_le] at h
    refine Or.inl ⟨h.1, h.2, ?_⟩
    simp

theorem writeAt_opened (answers : List PwriteAnswer) (offset : Nat)
    (data : Bytes) :
    (opened calls finalPath paths content).writeAt answers offset data =
      (opened calls finalPath paths
        (writeLoop answers content offset data).1,
        (writeLoop answers content offset data).2) := by
  unfold writeAt
  simp

/-- The destructor of an open writer. -/
theorem rollback_opened :
    (opened calls finalPath paths content).rollback.paths =
      Function.update paths (calls.tempPath finalPath) none := by
  exact Function.update_idem _ _ _

theorem rollback_rollback (w : WriterState) :
    w.rollback.rollback.paths = w.rollback.paths := by
  unfold rollback
  by_cases h : w.committed = true
  · simp [h]
  · simp [h, Function.update_idem]

/-- What `commit` needs. -/
def Commits (calls : WriterCalls) (finalPath : String) (paths : PathTable) :
    Prop :=
  calls.fdatasync = true ∧ calls.close = true ∧ calls.rename = true ∧
    paths finalPath ≠ some .directory

/-- A commit that succeeds has put the file in the place of the target. -/
theorem commit_opened_of (content : Bytes)
    (h : Commits calls finalPath paths) :
    ((opened calls finalPath paths content).commit calls).2 = true ∧
      ((opened calls finalPath paths content).commit calls).1.rollback.paths =
        Function.update (Function.update paths (calls.tempPath finalPath) none)
          finalPath (some (.file content)) := by
  obtain ⟨hsync, hclose, hrename, htarget⟩ := h
  have hcommit : (opened calls finalPath paths content).commit calls =
      ({ opened calls finalPath paths content with
          paths := (opened calls finalPath paths content).rename
          fdOpen := false
          committed := true }, true) := by
    unfold commit
    rw [if_neg (by simp [hsync, opened]), if_neg (by simp [hclose]), if_neg]
    have hpath : (opened calls finalPath paths content).paths finalPath =
        paths finalPath :=
      Function.update_of_ne (calls.tempPath_ne finalPath).symm _ _
    show ¬ (!calls.rename ||
      (opened calls finalPath paths content).paths finalPath ==
        some .directory) = true
    simp [hrename, hpath, htarget]
  rw [hcommit]
  refine ⟨rfl, ?_⟩
  show (opened calls finalPath paths content).rename = _
  unfold rename opened
  simp only [Function.update_idem, Function.update_self]

/-- One that fails has left the temporary file, or nothing. -/
theorem commit_opened_of_not (content : Bytes)
    (h : ¬ Commits calls finalPath paths) :
    ((opened calls finalPath paths content).commit calls).2 = false ∧
      ((opened calls finalPath paths content).commit calls).1.rollback.paths =
        Function.update paths (calls.tempPath finalPath) none := by
  have hpath : (opened calls finalPath paths content).paths finalPath =
      paths finalPath :=
    Function.update_of_ne (calls.tempPath_ne finalPath).symm _ _
  unfold commit
  split
  next => exact ⟨rfl, rollback_opened⟩
  next hsync =>
      split
      next => exact ⟨rfl, rollback_opened⟩
      next hclose =>
          split
          next => exact ⟨rfl, rollback_opened⟩
          next hrename =>
              refine absurd ?_ h
              change ¬ (!calls.rename ||
                (opened calls finalPath paths content).paths finalPath ==
                  some .directory) = true at hrename
              rw [hpath] at hrename
              simp only [Bool.or_eq_true, Bool.not_eq_true', not_or,
                Bool.not_eq_false, beq_iff_eq] at hsync hclose hrename
              exact ⟨hsync.1, hclose, hrename.1, hrename.2⟩

end WriterState

/-! ## The download -/

/-- What a download works with: the libraries, the master key if the vault is
unlocked, and the answers of the server, of storage and of the system.  The
answer to a request for a range may depend on when it is made. -/
structure Downloader (ν : Type) where
  crypto : RustCrypto ν
  text : JsonText
  masterKey : Option Bytes
  getFileRecord : String → Option FileRecordResponse
  getRange : (request : Nat) → String → (offset length : Nat) → Option Bytes
  calls : WriterCalls

namespace Downloader

variable {ν : Type}

/-- `DownloadRecordDecryptor::decrypt`. -/
def decrypt (d : Downloader ν) (record : FileRecordResponse) :
    Option DecryptedDownloadRecord := do
  let masterKey ← d.masterKey
  let wrapped ← decodeBase64 record.encryptedFileKey
  let fileKey ← d.crypto.unwrapFileKey wrapped masterKey
    (ArkiveAad.toBytes (ArkiveAad.makeFileKey record.vaultId record.fileId))
  let encryptedMetadata ← decodeBase64 record.encryptedMetadata
  let metadataJson ← d.crypto.decryptChunk fileKey
    (ArkiveAad.toBytes (ArkiveAad.makeFileMetadata record.vaultId
      record.fileId)) encryptedMetadata
  let encryptedManifest ← decodeBase64 record.encryptedManifest
  let manifestJson ← d.crypto.decryptChunk fileKey
    (ArkiveAad.toBytes (ArkiveAad.makeFileManifest record.vaultId
      record.fileId)) encryptedManifest
  let manifest ← parseDownloadManifest64 d.text manifestJson
    (toUInt64 record.chunkSize) (toUInt64 record.plaintextSize)
  some { fileKey := fileKey, metadataJson := metadataJson
         manifest := manifest }

/-- The plaintext of a chunk: its range is fetched and decrypted. -/
def plaintext (d : Downloader ν) (record : FileRecordResponse)
    (fileKey : Bytes) (chunk : DownloadChunk) : Option Bytes := do
  let encrypted ← d.getRange chunk.index record.sourceUrl chunk.cipherStart
    chunk.cipherSize
  d.crypto.decryptChunk fileKey
    (ArkiveAad.toBytes (ArkiveAad.makeFileChunk record.vaultId record.fileId
      (toInt (chunk.index + 1)) record.chunkSize record.totalChunks)) encrypted

/-- The loop of `downloadFile` over the chunks. -/
def downloadChunks (d : Downloader ν) (record : FileRecordResponse)
    (fileKey : Bytes) : WriterState → List DownloadChunk → WriterState × Bool
  | w, [] => (w, true)
  | w, chunk :: rest =>
      match d.plaintext record fileKey chunk with
      | none => (w, false)
      | some plaintext =>
          match w.writeAt (d.calls.pwrites chunk.index) chunk.plainStart
              plaintext with
          | (w', false) => (w', false)
          | (w', true) => downloadChunks d record fileKey w' rest

/-- The `try` block. -/
def writeAndCommit (d : Downloader ν) (record : FileRecordResponse)
    (decrypted : DecryptedDownloadRecord) (w : WriterState) :
    WriterState × Bool :=
  match d.downloadChunks record decrypted.fileKey w
      decrypted.manifest.chunks with
  | (w', false) => (w', false)
  | (w', true) => w'.commit d.calls

/-- `downloadFile`: the file system afterwards, and whether the call returned
normally.  After a failed `preallocate` only the destructor rolls back; after
an exception in the `try` block the handler has done so before. -/
def downloadFile (d : Downloader ν) (fileId targetPath : String)
    (paths : PathTable) : PathTable × Bool :=
  match d.getFileRecord fileId with
  | none => (paths, false)
  | some record =>
      match d.decrypt record with
      | none => (paths, false)
      | some decrypted =>
          match WriterState.openWriter d.calls targetPath paths with
          | none => (paths, false)
          | some w =>
              match w.preallocate d.calls decrypted.manifest.size with
              | (w', false) => (w'.rollback.paths, false)
              | (w', true) =>
                  match d.writeAndCommit record decrypted w' with
                  | (w'', false) => (w''.rollback.rollback.paths, false)
                  | (w'', true) => (w''.rollback.paths, true)

/-! ## What the loop writes -/

/-- A file with chunks written into it, each at its place. -/
def assemble (content : Bytes) (pieces : List (DownloadChunk × Bytes)) :
    Bytes :=
  pieces.foldl (fun file piece =>
    AtomicFileWriter.writeAt file piece.1.plainStart piece.2) content

/-- The chunks with what storage has for them. -/
structure Fetched (d : Downloader ν) (record : FileRecordResponse)
    (fileKey : Bytes) (chunks : List DownloadChunk)
    (pieces : List (DownloadChunk × Bytes)) : Prop where
  chunks : pieces.map Prod.fst = chunks
  plaintext : ∀ piece ∈ pieces,
    d.plaintext record fileKey piece.1 = some piece.2

/-- Storage has one plaintext for each chunk. -/
theorem Fetched.unique {d : Downloader ν} {record : FileRecordResponse}
    {fileKey : Bytes} {chunks : List DownloadChunk} :
    ∀ {pieces pieces' : List (DownloadChunk × Bytes)},
      d.Fetched record fileKey chunks pieces →
      d.Fetched record fileKey chunks pieces' → pieces = pieces' := by
  induction chunks with
  | nil =>
      intro pieces pieces' h h'
      rw [List.map_eq_nil_iff.mp h.chunks, List.map_eq_nil_iff.mp h'.chunks]
  | cons chunk rest ih =>
      intro pieces pieces' h h'
      cases pieces with
      | nil => cases h.chunks
      | cons first more =>
          cases pieces' with
          | nil => cases h'.chunks
          | cons first' more' =>
              have hchunks := h.chunks
              have hchunks' := h'.chunks
              rw [List.map_cons, List.cons.injEq] at hchunks hchunks'
              have hfirst := h.plaintext first List.mem_cons_self
              have hfirst' := h'.plaintext first' List.mem_cons_self
              rw [hchunks.1] at hfirst
              rw [hchunks'.1, hfirst, Option.some.injEq] at hfirst'
              have hmore : more = more' := ih
                ⟨hchunks.2, fun piece hpiece =>
                  h.plaintext piece (List.mem_cons_of_mem _ hpiece)⟩
                ⟨hchunks'.2, fun piece hpiece =>
                  h'.plaintext piece (List.mem_cons_of_mem _ hpiece)⟩
              rw [hmore, Prod.ext (hchunks.1.trans hchunks'.1.symm) hfirst']

/-- The loop leaves a writer that is open; if it comes to its end, every chunk
is in the file. -/
theorem downloadChunks_opened (d : Downloader ν) (record : FileRecordResponse)
    (fileKey : Bytes) (calls : WriterCalls) (finalPath : String)
    (paths : PathTable) (chunks : List DownloadChunk) :
    ∀ content, ∃ content',
      (d.downloadChunks record fileKey
          (WriterState.opened calls finalPath paths content) chunks).1 =
        WriterState.opened calls finalPath paths content' ∧
      ((d.downloadChunks record fileKey
          (WriterState.opened calls finalPath paths content) chunks).2 = true →
        ∃ pieces, d.Fetched record fileKey chunks pieces ∧
          content' = assemble content pieces) := by
  induction chunks with
  | nil =>
      intro content
      refine ⟨content, rfl, ?_⟩
      intro _
      refine ⟨[], ⟨rfl, ?_⟩, rfl⟩
      intro piece hpiece
      cases hpiece
  | cons chunk rest ih =>
      intro content
      rw [downloadChunks]
      cases hplain : d.plaintext record fileKey chunk with
      | none =>
          refine ⟨content, rfl, ?_⟩
          intro h
          cases h
      | some plaintext =>
          simp only [WriterState.writeAt_opened]
          cases hloop : WriterState.writeLoop (d.calls.pwrites chunk.index)
              content chunk.plainStart plaintext with
          | mk content' returned =>
              cases returned with
              | false =>
                  refine ⟨content', rfl, ?_⟩
                  intro h
                  cases h
              | true =>
                  obtain ⟨content'', hopened, hdone⟩ := ih content'
                  refine ⟨content'', hopened, ?_⟩
                  intro h
                  obtain ⟨pieces, hfetched, hcontent⟩ := hdone h
                  refine ⟨(chunk, plaintext) :: pieces, ⟨?_, ?_⟩, ?_⟩
                  · rw [List.map_cons, hfetched.chunks]
                  · intro piece hpiece
                    rcases List.mem_cons.mp hpiece with rfl | hpiece
                    · exact hplain
                    · exact hfetched.plaintext piece hpiece
                  · rw [hcontent, WriterState.writeLoop_eq_true hloop]
                    rfl

end Downloader

end ArkiveSync
