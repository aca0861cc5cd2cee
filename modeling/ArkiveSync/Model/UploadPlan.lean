import Mathlib.Tactic.Ring

/-!
# Upload plans

How a file is cut up before it is sent: into chunks, which are encrypted one by
one, and into parts of one or two chunks, which are put to storage one by one.
`UploadPlanner::createPlan` fixes the numbers for a whole file, `makePartPlan`
those of one part, and `resolvePartConcurrency` how many parts are in flight
at a time.  File sizes are `int64_t` values that are not negative, so that no
sum or product here leaves `uint64_t`.

## Main results

* `makePartPlan_window`: part `p` covers the chunks from `endChunk (p - 1)` up
  to `endChunk p`, and it has at least one.
* `endChunk_count`: the last part ends with the last chunk.
* `chunk_inside`: every chunk of the plan starts inside the file.
* `start_lt`, `end_eq_next`, `end_last`: the parts cut the file up, one behind
  the other.
* `chunkCounts_sum`: the chunks of the first parts, counted.
-/

namespace ArkiveSync

/-- `kChunkSize`: 4 MiB. -/
def kChunkSize : Nat := 4194304

/-- `kMultipartUploadPartSize`: 8 MiB. -/
def kMultipartUploadPartSize : Nat := 8388608

/-- `kDefaultDesktopPartConcurrency`. -/
def kDefaultDesktopPartConcurrency : Nat := 6

/-- `static_cast<int>` of an unsigned number. -/
def toInt (n : Nat) : Int := Int.bmod n 4294967296

/-- `static_cast<int64_t>` of an unsigned number. -/
def toInt64 (n : Nat) : Int := Int.bmod n 18446744073709551616

/-- `static_cast<uint64_t>` of a signed number. -/
def toUInt64 (n : Int) : Nat := (n % 18446744073709551616).toNat

/-- `UploadPlan`. -/
structure UploadPlan where
  originalSize : Nat
  fileChunkSize : Nat
  totalChunks : Nat
  uploadPartSize : Nat
  chunksPerUploadPart : Nat
  uploadPartCount : Nat
  deriving DecidableEq, Repr

/-- `UploadPartPlan`. -/
structure UploadPartPlan where
  partNumber : Nat := 0
  partStart : Nat := 0
  partEnd : Nat := 0
  firstChunkNumber : Nat := 0
  deriving DecidableEq, Repr

/-- `UploadPlanner::createPlan`. -/
def UploadPlanner.createPlan (plaintextSize : Nat) : UploadPlan :=
  let fileChunkSize := kChunkSize
  let totalChunks := max 1 ((plaintextSize + fileChunkSize - 1) / fileChunkSize)
  let uploadPartSize :=
    if totalChunks > 1 then kMultipartUploadPartSize else fileChunkSize
  let chunksPerUploadPart := max 1 (uploadPartSize / fileChunkSize)
  let uploadPartCount :=
    max 1 ((totalChunks + chunksPerUploadPart - 1) / chunksPerUploadPart)
  { originalSize := plaintextSize
    fileChunkSize := fileChunkSize
    totalChunks := totalChunks
    uploadPartSize := uploadPartSize
    chunksPerUploadPart := chunksPerUploadPart
    uploadPartCount := uploadPartCount }

/-- `makePartPlan`, of the uploader and of the upload service alike. -/
def makePartPlan (partNumber : Nat) (plan : UploadPlan) : UploadPartPlan :=
  let partStart := (partNumber - 1) * plan.uploadPartSize
  let partEnd := min (partStart + plan.uploadPartSize) plan.originalSize
  { partNumber := partNumber
    partStart := partStart
    partEnd := partEnd
    firstChunkNumber := partStart / plan.fileChunkSize + 1 }

/-- The `partChunkCount` of the uploader. -/
def partChunkCount (part : UploadPartPlan) (plan : UploadPlan) : Nat :=
  ((part.partEnd - part.partStart) + plan.fileChunkSize - 1) /
    plan.fileChunkSize

/-- `ArkiveUploadPolicy::resolvePartConcurrency`. -/
def resolvePartConcurrency (uploadPartCount : Nat) (serverCap : Int) : Nat :=
  if uploadPartCount = 0 then
    0
  else
    let effectiveServerCap :=
      if serverCap > 0 then serverCap.toNat else kDefaultDesktopPartConcurrency
    max 1 (min (min uploadPartCount kDefaultDesktopPartConcurrency)
      effectiveServerCap)

/-- No caller asks for more than six workers, and none for less than one. -/
theorem resolvePartConcurrency_bounds {uploadPartCount : Nat}
    (hcount : 0 < uploadPartCount) (serverCap : Int) :
    1 ≤ resolvePartConcurrency uploadPartCount serverCap ∧
      resolvePartConcurrency uploadPartCount serverCap ≤ 6 := by
  unfold resolvePartConcurrency
  rw [if_neg (Nat.ne_of_gt hcount)]
  simp only [kDefaultDesktopPartConcurrency]
  omega

/-! ## The numbers of a plan -/

/-- The two shapes of a plan: one part of one chunk, or parts of two chunks
each, the last of which may be cut short. -/
structure UploadPlan.Shape (plan : UploadPlan) : Prop where
  nonempty : 0 < plan.originalSize
  chunkSize : plan.fileChunkSize = 4194304
  totalChunks : plan.totalChunks = (plan.originalSize + 4194303) / 4194304
  parts : (plan.totalChunks = 1 ∧ plan.chunksPerUploadPart = 1 ∧
      plan.uploadPartSize = 4194304 ∧ plan.uploadPartCount = 1) ∨
    (1 < plan.totalChunks ∧ plan.chunksPerUploadPart = 2 ∧
      plan.uploadPartSize = 8388608 ∧
      plan.uploadPartCount = (plan.totalChunks + 1) / 2)

/-- The plan of a file that is not empty has one of the two shapes. -/
theorem UploadPlanner.createPlan_shape {n : Nat} (hn : 0 < n) :
    (createPlan n).Shape := by
  have htotal : max 1 ((n + kChunkSize - 1) / kChunkSize) =
      (n + 4194303) / 4194304 := by
    simp only [kChunkSize]
    omega
  by_cases hmany : (n + 4194303) / 4194304 > 1
  · have hper : max 1 (kMultipartUploadPartSize / kChunkSize) = 2 := by decide
    refine ⟨hn, rfl, htotal, Or.inr ?_⟩
    unfold createPlan
    simp only [htotal, if_pos hmany, hper]
    refine ⟨hmany, trivial, rfl, ?_⟩
    omega
  · have hper : max 1 (kChunkSize / kChunkSize) = 1 := by decide
    refine ⟨hn, rfl, htotal, Or.inl ?_⟩
    unfold createPlan
    simp only [htotal, if_neg hmany, hper]
    refine ⟨?_, trivial, rfl, ?_⟩ <;> omega

/-- How many chunks the parts up to `p` have. -/
def UploadPlan.endChunk (plan : UploadPlan) (p : Nat) : Nat :=
  min (p * plan.chunksPerUploadPart) plan.totalChunks

namespace UploadPlan.Shape

variable {plan : UploadPlan}

theorem endChunk_zero (plan : UploadPlan) : plan.endChunk 0 = 0 := by
  unfold UploadPlan.endChunk
  omega

/-- The last part ends with the last chunk. -/
theorem endChunk_count (h : plan.Shape) :
    plan.endChunk plan.uploadPartCount = plan.totalChunks := by
  unfold UploadPlan.endChunk
  rcases h.parts with ⟨htotal, hper, -, hcount⟩ | ⟨-, hper, -, hcount⟩
  · rw [htotal, hper, hcount]
    rfl
  · rw [hper, hcount]
    omega

/-- A part that reaches into its second chunk. -/
theorem chunkCount_two {start size : Nat} (h : start + 4194304 < size) :
    (min (start + 8388608) size - start + 4194304 - 1) / 4194304 = 2 := by
  have hbytes : 4194304 < min (start + 8388608) size - start ∧
      min (start + 8388608) size - start ≤ 8388608 := by omega
  generalize min (start + 8388608) size - start = bytes at hbytes ⊢
  omega

/-- A part that ends in its first chunk. -/
theorem chunkCount_one {start size : Nat} (h : start < size)
    (hend : size ≤ start + 4194304) :
    (min (start + 8388608) size - start + 4194304 - 1) / 4194304 = 1 := by
  have hbytes : 0 < min (start + 8388608) size - start ∧
      min (start + 8388608) size - start ≤ 4194304 := by omega
  generalize min (start + 8388608) size - start = bytes at hbytes ⊢
  omega

/-- Part `p` covers the chunks from `endChunk (p - 1)` up to `endChunk p`, and
it has at least one. -/
theorem window (h : plan.Shape) {p : Nat} (hp : 1 ≤ p)
    (hle : p ≤ plan.uploadPartCount) :
    (makePartPlan p plan).firstChunkNumber = plan.endChunk (p - 1) + 1 ∧
      partChunkCount (makePartPlan p plan) plan =
        plan.endChunk p - plan.endChunk (p - 1) ∧
      plan.endChunk (p - 1) < plan.endChunk p ∧
      plan.endChunk p ≤ plan.totalChunks := by
  have hn := h.nonempty
  have htotal := h.totalChunks
  obtain ⟨q, rfl⟩ : ∃ q, p = q + 1 := ⟨p - 1, by omega⟩
  unfold partChunkCount makePartPlan UploadPlan.endChunk
  simp only [h.chunkSize, Nat.add_sub_cancel]
  rcases h.parts with ⟨hone, hper, hsize, hcount⟩ | ⟨hmany, hper, hsize, hcount⟩
  · rw [hper, hsize]
    have hq : q = 0 := by omega
    subst hq
    refine ⟨?_, ?_, ?_, ?_⟩ <;> omega
  · rw [hper, hsize]
    have hstart : q * 8388608 = q * 2 * 4194304 := by ring
    have hinside : q * 2 < plan.totalChunks := by omega
    have hbefore : min (q * 2) plan.totalChunks = q * 2 := by omega
    rw [hbefore, hstart, Nat.mul_div_cancel _ (by decide)]
    refine ⟨rfl, ?_, by omega, by omega⟩
    -- the second chunk of the part is there, or the file ends in the first
    by_cases hsecond : (q * 2 + 1) * 4194304 < plan.originalSize
    · have hlast : min ((q + 1) * 2) plan.totalChunks - q * 2 = 2 := by omega
      rw [hlast]
      exact chunkCount_two (by omega)
    · have hlast : min ((q + 1) * 2) plan.totalChunks - q * 2 = 1 := by omega
      rw [hlast]
      exact chunkCount_one (by omega) (by omega)

/-- Every chunk of the plan starts inside the file. -/
theorem chunk_inside (h : plan.Shape) {i : Nat} (hi : i < plan.totalChunks) :
    i * plan.fileChunkSize < plan.originalSize := by
  have htotal := h.totalChunks
  rw [h.chunkSize]
  omega

/-- The chunks of the plan cover the file. -/
theorem covers (h : plan.Shape) :
    plan.originalSize ≤ plan.totalChunks * plan.fileChunkSize := by
  have htotal := h.totalChunks
  rw [h.chunkSize]
  omega

/-- Every part starts inside the file. -/
theorem start_lt (h : plan.Shape) {p : Nat} (hp : 1 ≤ p)
    (hle : p ≤ plan.uploadPartCount) :
    (p - 1) * plan.uploadPartSize < plan.originalSize := by
  have hn := h.nonempty
  have htotal := h.totalChunks
  rcases h.parts with ⟨-, -, hsize, hcount⟩ | ⟨hmany, -, hsize, hcount⟩
  · rw [hsize]
    omega
  · rw [hsize]
    omega

/-- Every part starts where its first chunk does. -/
theorem start_eq (h : plan.Shape) {p : Nat} (hp : 1 ≤ p)
    (hle : p ≤ plan.uploadPartCount) :
    (makePartPlan p plan).partStart =
      plan.endChunk (p - 1) * plan.fileChunkSize := by
  have htotal := h.totalChunks
  show (p - 1) * plan.uploadPartSize =
    min ((p - 1) * plan.chunksPerUploadPart) plan.totalChunks *
      plan.fileChunkSize
  rw [h.chunkSize]
  rcases h.parts with ⟨-, hper, hsize, hcount⟩ | ⟨hmany, hper, hsize, hcount⟩
  · rw [hper, hsize]
    have hfirst : p - 1 = 0 := by omega
    rw [hfirst]
    simp
  · rw [hper, hsize]
    have hinside : min ((p - 1) * 2) plan.totalChunks = (p - 1) * 2 := by omega
    rw [hinside]
    omega

/-- A part that is not the last one ends where the next one starts. -/
theorem end_eq_next (h : plan.Shape) {p : Nat} (hp : 1 ≤ p)
    (hlt : p < plan.uploadPartCount) :
    (makePartPlan p plan).partEnd = (makePartPlan (p + 1) plan).partStart := by
  have hinside := h.start_lt (Nat.le_add_left 1 p) hlt
  rw [Nat.add_sub_cancel] at hinside
  show min ((p - 1) * plan.uploadPartSize + plan.uploadPartSize)
    plan.originalSize = (p + 1 - 1) * plan.uploadPartSize
  have hnext : (p - 1) * plan.uploadPartSize + plan.uploadPartSize =
      p * plan.uploadPartSize := by
    obtain ⟨q, rfl⟩ : ∃ q, p = q + 1 := ⟨p - 1, by omega⟩
    rw [Nat.add_sub_cancel]
    ring
  rw [hnext, Nat.add_sub_cancel]
  omega

/-- The last part ends with the file. -/
theorem end_last (h : plan.Shape) :
    (makePartPlan plan.uploadPartCount plan).partEnd = plan.originalSize := by
  have htotal := h.totalChunks
  show min ((plan.uploadPartCount - 1) * plan.uploadPartSize +
    plan.uploadPartSize) plan.originalSize = plan.originalSize
  rcases h.parts with ⟨hone, -, hsize, hcount⟩ | ⟨hmany, -, hsize, hcount⟩
  · rw [hsize, hcount]
    omega
  · rw [hsize]
    omega

/-- The parts up to `k` have as many chunks as end there. -/
theorem chunkCounts_sum (h : plan.Shape) {k : Nat}
    (hk : k ≤ plan.uploadPartCount) :
    ((List.range k).map (fun i =>
      partChunkCount (makePartPlan (i + 1) plan) plan)).sum =
        plan.endChunk k := by
  induction k with
  | zero => simp [endChunk_zero]
  | succ k ih =>
      obtain ⟨-, hcount, hlt, -⟩ := h.window (Nat.le_add_left 1 k) hk
      rw [Nat.add_sub_cancel] at hcount hlt
      rw [List.range_succ, List.map_append, List.sum_append, ih (by omega)]
      simp only [List.map_cons, List.map_nil, List.sum_cons, List.sum_nil,
        hcount]
      omega

theorem uploadPartCount_pos (h : plan.Shape) : 0 < plan.uploadPartCount := by
  rcases h.parts with ⟨-, -, -, hcount⟩ | ⟨hmany, -, -, hcount⟩ <;> omega

end UploadPlan.Shape

end ArkiveSync
