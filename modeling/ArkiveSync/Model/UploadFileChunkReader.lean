import Mathlib.Tactic.Ring
import ArkiveSync.Model.FileEncryptor
import ArkiveSync.Model.UploadPlan

/-!
# Reading a file in encrypted chunks

`UploadFileChunkReader` over a window of chunks: it seeks to the first chunk of
the window, reads one chunk after the other and encrypts each under the file
key, bound to its number and to the numbers of the plan.

## Main results

* `encryptWindow_spec`: what the reader returns for a window are the chunks of
  the file there, in order, each encrypted under the key and its own data.
-/

namespace ArkiveSync

/-- `UploadEncryptedChunk`. -/
structure UploadEncryptedChunk where
  chunkNo : Nat
  plaintextSize : Nat
  ciphertext : Bytes
  isLastChunk : Bool

/-- `UploadFileChunkReader`; `stream` is the file from the read position on. -/
structure UploadFileChunkReader where
  stream : Bytes
  fileKey : Bytes
  vaultId : String
  fileId : String
  chunkSize : Nat
  totalChunks : Nat
  nextChunkIndex : Nat
  endChunkIndex : Nat

/-- The additional data of a chunk. -/
def chunkAad (vaultId fileId : String) (chunkNo chunkSize totalChunks : Nat) :
    Bytes :=
  ArkiveAad.toBytes (ArkiveAad.makeFileChunk vaultId fileId (toInt chunkNo)
    (toInt64 chunkSize) (toInt totalChunks))

namespace UploadFileChunkReader

variable {ν : Type} (crypto : RustCrypto ν)

/-- The constructor for a window of chunks. -/
def openWindow (file fileKey : Bytes) (vaultId fileId : String)
    (chunkSize totalChunks firstChunkNumber chunkCount : Nat) :
    Except UploadError UploadFileChunkReader :=
  let nextChunkIndex := if firstChunkNumber > 0 then firstChunkNumber - 1 else 0
  let endChunkIndex := nextChunkIndex + chunkCount
  if fileKey = [] then
    .error (.invalidArgument "fileKey cannot be empty")
  else if chunkSize = 0 then
    .error (.invalidArgument "chunkSize cannot be zero")
  else if totalChunks = 0 then
    .error (.invalidArgument "totalChunks cannot be zero")
  else if firstChunkNumber = 0 then
    .error (.invalidArgument "firstChunkNumber cannot be zero")
  else if chunkCount = 0 then
    .error (.invalidArgument "chunkCount cannot be zero")
  else if nextChunkIndex ≥ totalChunks then
    .error (.invalidArgument "firstChunkNumber exceeds totalChunks")
  else if endChunkIndex > totalChunks then
    .error (.invalidArgument "chunk window exceeds totalChunks")
  else
    .ok { stream := file.drop (nextChunkIndex * chunkSize)
          fileKey := fileKey
          vaultId := vaultId
          fileId := fileId
          chunkSize := chunkSize
          totalChunks := totalChunks
          nextChunkIndex := nextChunkIndex
          endChunkIndex := endChunkIndex }

/-- `hasNextChunk`. -/
def hasNextChunk (reader : UploadFileChunkReader) : Bool :=
  reader.nextChunkIndex < reader.endChunkIndex

/-- `nextEncryptedChunk`: the chunk, and the reader behind it. -/
def nextEncryptedChunk (nonce : ν) (reader : UploadFileChunkReader) :
    Except UploadError (UploadEncryptedChunk × UploadFileChunkReader) :=
  if reader.hasNextChunk = false then
    .error (.runtime "No more chunks available")
  else
    let plaintextChunk := reader.stream.take reader.chunkSize
    if plaintextChunk = [] then
      .error (.runtime "Unable to read next file chunk")
    else
      let chunkNo := reader.nextChunkIndex + 1
      match FileEncryptor.encryptChunk crypto nonce plaintextChunk
          reader.fileKey (chunkAad reader.vaultId reader.fileId chunkNo
            reader.chunkSize reader.totalChunks) with
      | .error e => .error e
      | .ok ciphertext =>
          .ok ({ chunkNo := chunkNo
                 plaintextSize := plaintextChunk.length
                 ciphertext := ciphertext
                 isLastChunk := chunkNo = reader.totalChunks },
            { reader with
              stream := reader.stream.drop reader.chunkSize
              nextChunkIndex := chunkNo })

/-- The loop of the uploader over a reader.  Every turn moves the reader on by
one chunk, so that it is over after as many turns as the window has chunks. -/
def encryptChunks (nonces : Nat → ν) :
    Nat → UploadFileChunkReader → Except UploadError (List UploadEncryptedChunk)
  | 0, _ => .ok []
  | turns + 1, reader =>
      if reader.hasNextChunk then
        match nextEncryptedChunk crypto (nonces (reader.nextChunkIndex + 1))
            reader with
        | .error e => .error e
        | .ok (chunk, reader') =>
            match encryptChunks nonces turns reader' with
            | .error e => .error e
            | .ok chunks => .ok (chunk :: chunks)
      else
        .ok []

/-- All chunks of a window. -/
def encryptWindow (nonces : Nat → ν) (reader : UploadFileChunkReader) :
    Except UploadError (List UploadEncryptedChunk) :=
  encryptChunks crypto nonces (reader.endChunkIndex - reader.nextChunkIndex)
    reader

end UploadFileChunkReader

/-! ## What a window contains -/

/-- Chunk `i` of a file. -/
def fileChunk (file : Bytes) (chunkSize i : Nat) : Bytes :=
  (file.drop (i * chunkSize)).take chunkSize

/-- What the chunks of one upload have in common. -/
structure ChunkScope where
  file : Bytes
  fileKey : Bytes
  vaultId : String
  fileId : String
  chunkSize : Nat
  totalChunks : Nat

namespace ChunkScope

variable {ν : Type} (crypto : RustCrypto ν)

/-- Consecutive chunks of the file, from index `i` on, each with its number
and its size and encrypted under the key and its own data. -/
def Encrypted (scope : ChunkScope) : Nat → List UploadEncryptedChunk → Prop
  | _, [] => True
  | i, chunk :: chunks =>
      (chunk.chunkNo = i + 1 ∧
        chunk.plaintextSize =
          (fileChunk scope.file scope.chunkSize i).length ∧
        0 < chunk.plaintextSize ∧
        ∃ nonce, crypto.encryptChunk nonce scope.fileKey
          (chunkAad scope.vaultId scope.fileId (i + 1) scope.chunkSize
            scope.totalChunks)
          (fileChunk scope.file scope.chunkSize i) = some chunk.ciphertext) ∧
      scope.Encrypted (i + 1) chunks

variable {crypto} {scope : ChunkScope}

/-- Two windows next to each other are one window. -/
theorem Encrypted.append {i : Nat} {chunks more : List UploadEncryptedChunk}
    (h : scope.Encrypted crypto i chunks)
    (hmore : scope.Encrypted crypto (i + chunks.length) more) :
    scope.Encrypted crypto i (chunks ++ more) := by
  induction chunks generalizing i with
  | nil => simpa using hmore
  | cons chunk chunks ih =>
      have hrest : scope.Encrypted crypto (i + 1 + chunks.length) more := by
        have hstart : i + 1 + chunks.length = i + (chunk :: chunks).length := by
          rw [List.length_cons]
          omega
        rw [hstart]
        exact hmore
      exact ⟨h.1, ih h.2 hrest⟩

/-- The numbers of the chunks of a window. -/
theorem Encrypted.chunkNos {i : Nat} {chunks : List UploadEncryptedChunk}
    (h : scope.Encrypted crypto i chunks) :
    chunks.map UploadEncryptedChunk.chunkNo =
      List.range' (i + 1) chunks.length := by
  induction chunks generalizing i with
  | nil => rfl
  | cons chunk chunks ih =>
      rw [List.map_cons, List.length_cons, List.range'_succ, h.1.1, ih h.2]

/-- The chunks up to the end of the file, put together. -/
theorem sum_fileChunks (file : Bytes) {chunkSize : Nat} (i k : Nat)
    (hend : file.length ≤ (i + k) * chunkSize) :
    ((List.range' i k).map (fun j => (fileChunk file chunkSize j).length)).sum =
      file.length - i * chunkSize := by
  induction k generalizing i with
  | zero =>
      have hle : file.length ≤ i * chunkSize := by simpa using hend
      simp only [List.range'_zero, List.map_nil, List.sum_nil]
      omega
  | succ k ih =>
      have hend' : file.length ≤ (i + 1 + k) * chunkSize := by
        have heq : i + 1 + k = i + (k + 1) := by omega
        rw [heq]
        exact hend
      rw [List.range'_succ, List.map_cons, List.sum_cons, ih (i + 1) hend']
      have hnext : (i + 1) * chunkSize = i * chunkSize + chunkSize := by ring
      unfold fileChunk
      rw [List.length_take, List.length_drop, hnext]
      omega

/-- The sizes of the chunks of a window. -/
theorem Encrypted.sizes {i : Nat} {chunks : List UploadEncryptedChunk}
    (h : scope.Encrypted crypto i chunks) :
    chunks.map UploadEncryptedChunk.plaintextSize =
      (List.range' i chunks.length).map
        (fun j => (fileChunk scope.file scope.chunkSize j).length) := by
  induction chunks generalizing i with
  | nil => rfl
  | cons chunk chunks ih =>
      rw [List.map_cons, List.length_cons, List.range'_succ, List.map_cons,
        h.1.2.1, ih h.2]

end ChunkScope

namespace UploadFileChunkReader

variable {ν : Type} {crypto : RustCrypto ν}

/-- The scope of a reader over a file. -/
def scope (reader : UploadFileChunkReader) (file : Bytes) : ChunkScope :=
  { file := file, fileKey := reader.fileKey, vaultId := reader.vaultId
    fileId := reader.fileId, chunkSize := reader.chunkSize
    totalChunks := reader.totalChunks }

/-- One chunk of the window. -/
theorem nextEncryptedChunk_spec {nonce : ν} {file : Bytes}
    {reader reader' : UploadFileChunkReader} {chunk : UploadEncryptedChunk}
    (hstream : reader.stream =
      file.drop (reader.nextChunkIndex * reader.chunkSize))
    (h : nextEncryptedChunk crypto nonce reader = .ok (chunk, reader')) :
    (reader.scope file).Encrypted crypto reader.nextChunkIndex [chunk] ∧
      reader'.nextChunkIndex = reader.nextChunkIndex + 1 ∧
      reader'.endChunkIndex = reader.endChunkIndex ∧
      reader'.scope file = reader.scope file ∧
      reader'.stream =
        file.drop (reader'.nextChunkIndex * reader'.chunkSize) := by
  unfold nextEncryptedChunk at h
  split at h
  · cases h
  · dsimp only at h
    split at h
    · cases h
    · rename_i hnonempty
      split at h
      · cases h
      · rename_i ciphertext hencrypt
        cases h
        have hok := FileEncryptor.encryptChunk_ok hencrypt
        rw [hstream] at hnonempty
        refine ⟨⟨⟨rfl, ?_, ?_, nonce, ?_⟩, trivial⟩, rfl, rfl, rfl, ?_⟩
        · show (reader.stream.take reader.chunkSize).length = _
          rw [hstream]
          rfl
        · show 0 < (reader.stream.take reader.chunkSize).length
          rw [hstream]
          exact List.length_pos_iff.mpr hnonempty
        · have hplain : fileChunk file reader.chunkSize reader.nextChunkIndex =
              reader.stream.take reader.chunkSize := by
            rw [hstream]
            rfl
          show crypto.encryptChunk nonce reader.fileKey _ (fileChunk file
            reader.chunkSize reader.nextChunkIndex) = some ciphertext
          rw [hplain]
          exact hok.2
        · show reader.stream.drop reader.chunkSize =
            file.drop ((reader.nextChunkIndex + 1) * reader.chunkSize)
          rw [hstream, List.drop_drop]
          congr 1
          ring

/-- What the loop returns, by induction on its turns. -/
theorem encryptChunks_spec {nonces : Nat → ν} {file : Bytes} :
    ∀ (turns : Nat) (reader : UploadFileChunkReader)
      (chunks : List UploadEncryptedChunk),
      reader.stream = file.drop (reader.nextChunkIndex * reader.chunkSize) →
      reader.nextChunkIndex + turns = reader.endChunkIndex →
      encryptChunks crypto nonces turns reader = .ok chunks →
      (reader.scope file).Encrypted crypto reader.nextChunkIndex chunks ∧
        chunks.length = turns := by
  intro turns
  induction turns with
  | zero =>
      intro reader chunks _ _ h
      cases h
      exact ⟨trivial, rfl⟩
  | succ turns ih =>
      intro reader chunks hstream hturns h
      have hnext : reader.hasNextChunk = true := by
        unfold hasNextChunk
        rw [decide_eq_true_eq]
        omega
      rw [encryptChunks, if_pos hnext] at h
      cases hchunk : nextEncryptedChunk crypto
          (nonces (reader.nextChunkIndex + 1)) reader with
      | error e =>
          rw [hchunk] at h
          cases h
      | ok read =>
          obtain ⟨chunk, reader'⟩ := read
          rw [hchunk] at h
          dsimp only at h
          obtain ⟨hone, hindex, hlast, hscope, hstream'⟩ :=
            nextEncryptedChunk_spec hstream hchunk
          cases hrest : encryptChunks crypto nonces turns reader' with
          | error e =>
              rw [hrest] at h
              cases h
          | ok rest =>
              rw [hrest] at h
              cases h
              obtain ⟨hwindow, hlength⟩ := ih reader' rest hstream'
                (by omega) hrest
              rw [hscope, hindex] at hwindow
              exact ⟨⟨hone.1, hwindow⟩, by rw [List.length_cons, hlength]⟩

/-- What a reader over a window returns. -/
theorem encryptWindow_spec {nonces : Nat → ν} {file fileKey : Bytes}
    {vaultId fileId : String} {chunkSize totalChunks first count : Nat}
    {reader : UploadFileChunkReader} {chunks : List UploadEncryptedChunk}
    (hopen : openWindow file fileKey vaultId fileId chunkSize totalChunks
      (first + 1) count = .ok reader)
    (h : encryptWindow crypto nonces reader = .ok chunks) :
    ChunkScope.Encrypted crypto
        { file := file, fileKey := fileKey, vaultId := vaultId
          fileId := fileId, chunkSize := chunkSize
          totalChunks := totalChunks } first chunks ∧
      chunks.length = count := by
  unfold openWindow at hopen
  simp only [Nat.succ_pos, gt_iff_lt, if_true, Nat.add_sub_cancel] at hopen
  -- every branch but the last one throws
  split_ifs at hopen
  cases hopen
  unfold encryptWindow at h
  dsimp only at h
  have hcount : first + count - first = count := by omega
  rw [hcount] at h
  exact encryptChunks_spec count _ chunks rfl rfl h

end UploadFileChunkReader

end ArkiveSync
