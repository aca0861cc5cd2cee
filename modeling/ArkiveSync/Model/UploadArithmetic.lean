import ArkiveSync.Library.Word64
import ArkiveSync.Model.UploadPlan

/-!
# Upload plans in 64 bits

`createPlan`, the two copies of `makePartPlan` and the chunk count of the
uploader over `uint64_t`, operation by operation, and the sizes for which none
of them wraps.

## Main results

* `createPlan64_toPlan`, `createPlan64_fits`: below 2^64 - 4 MiB nothing wraps,
  and a plan is the one of the natural numbers.
* `makePartPlan64_fits`: so is each part of a file that a signed size can count.
-/

namespace ArkiveSync

open Library

/-- `UploadPlan`, with the types of the source. -/
structure UploadPlan64 where
  originalSize : UInt64
  fileChunkSize : UInt64
  totalChunks : UInt64
  uploadPartSize : UInt64
  chunksPerUploadPart : UInt64
  uploadPartCount : UInt64
  deriving DecidableEq

/-- `UploadPartPlan`, with the types of the source. -/
structure UploadPartPlan64 where
  partNumber : UInt64
  partStart : UInt64
  partEnd : UInt64
  firstChunkNumber : UInt64
  deriving DecidableEq

/-- `UploadPlanner::createPlan`. -/
def UploadPlanner.createPlan64 (plaintextSize : UInt64) : UploadPlan64 :=
  let fileChunkSize : UInt64 := 4194304
  let totalChunks := max 1 ((plaintextSize + fileChunkSize - 1) / fileChunkSize)
  let uploadPartSize := if totalChunks > 1 then 8388608 else fileChunkSize
  let chunksPerUploadPart := max 1 (uploadPartSize / fileChunkSize)
  let uploadPartCount :=
    max 1 ((totalChunks + chunksPerUploadPart - 1) / chunksPerUploadPart)
  { originalSize := plaintextSize
    fileChunkSize := fileChunkSize
    totalChunks := totalChunks
    uploadPartSize := uploadPartSize
    chunksPerUploadPart := chunksPerUploadPart
    uploadPartCount := uploadPartCount }

/-- `makePartPlan` of `MultipartUploader.cpp`. -/
def MultipartUploader.makePartPlan64 (partNumber : UInt64)
    (plan : UploadPlan64) : UploadPartPlan64 :=
  let partStart := (partNumber - 1) * plan.uploadPartSize
  let partEnd := min (partStart + plan.uploadPartSize) plan.originalSize
  { partNumber := partNumber
    partStart := partStart
    partEnd := partEnd
    firstChunkNumber := partStart / plan.fileChunkSize + 1 }

/-- `makePartPlan` of `UploadService.cpp`. -/
def UploadService.makePartPlan64 (partNumber : UInt64) (plan : UploadPlan64) :
    UploadPartPlan64 :=
  let partStart := (partNumber - 1) * plan.uploadPartSize
  let partEnd := min (partStart + plan.uploadPartSize) plan.originalSize
  { partNumber := partNumber
    partStart := partStart
    partEnd := partEnd
    firstChunkNumber := partStart / plan.fileChunkSize + 1 }

/-- The `partChunkCount` of the uploader. -/
def partChunkCount64 (part : UploadPartPlan64) (plan : UploadPlan64) : UInt64 :=
  ((part.partEnd - part.partStart) + plan.fileChunkSize - 1) /
    plan.fileChunkSize

/-- The plan in natural numbers. -/
def UploadPlan64.toPlan (plan : UploadPlan64) : UploadPlan :=
  { originalSize := plan.originalSize.toNat
    fileChunkSize := plan.fileChunkSize.toNat
    totalChunks := plan.totalChunks.toNat
    uploadPartSize := plan.uploadPartSize.toNat
    chunksPerUploadPart := plan.chunksPerUploadPart.toNat
    uploadPartCount := plan.uploadPartCount.toNat }

/-- The part in natural numbers. -/
def UploadPartPlan64.toPart (part : UploadPartPlan64) : UploadPartPlan :=
  { partNumber := part.partNumber.toNat
    partStart := part.partStart.toNat
    partEnd := part.partEnd.toNat
    firstChunkNumber := part.firstChunkNumber.toNat }

/-- No operation of `createPlan` wraps. -/
structure UploadPlan64.Fits (plan : UploadPlan64) : Prop where
  roundChunks : AddFits plan.originalSize plan.fileChunkSize
  roundChunksBack : SubFits (plan.originalSize + plan.fileChunkSize) 1
  roundParts : AddFits plan.totalChunks plan.chunksPerUploadPart
  roundPartsBack : SubFits (plan.totalChunks + plan.chunksPerUploadPart) 1

/-- No operation of `makePartPlan` and none of the chunk count wraps. -/
structure UploadPartPlan64.Fits (part : UploadPartPlan64)
    (plan : UploadPlan64) : Prop where
  before : SubFits part.partNumber 1
  start : MulFits (part.partNumber - 1) plan.uploadPartSize
  full : AddFits part.partStart plan.uploadPartSize
  next : AddFits (part.partStart / plan.fileChunkSize) 1
  size : SubFits part.partEnd part.partStart
  roundChunks : AddFits (part.partEnd - part.partStart) plan.fileChunkSize
  roundChunksBack :
    SubFits (part.partEnd - part.partStart + plan.fileChunkSize) 1

/-! ## Without wrapping -/

section Fits

variable {n : UInt64}

theorem toNat_chunkSize : (4194304 : UInt64).toNat = 4194304 := rfl

theorem toNat_partSize : (8388608 : UInt64).toNat = 8388608 := rfl

theorem toNat_two : (2 : UInt64).toNat = 2 := rfl

/-- How many pieces of a size make up a number that can be rounded up. -/
theorem toNat_pieces {a b : UInt64} (hadd : AddFits a b) (hb : 0 < b.toNat) :
    (max 1 ((a + b - 1) / b) : UInt64).toNat =
      max 1 ((a.toNat + b.toNat - 1) / b.toNat) := by
  rw [UInt64.toNat_max, toNat_ceilDiv hadd hb, UInt64.toNat_one]

/-- A plan that can be rounded up is the one of the natural numbers. -/
theorem UploadPlanner.createPlan64_toPlan (hn : AddFits n 4194304) :
    (createPlan64 n).toPlan = createPlan n.toNat := by
  have htotal := toNat_pieces hn (by decide)
  rw [toNat_chunkSize] at htotal
  have hsmall : (max 1 ((n + 4194304 - 1) / 4194304) : UInt64).toNat <
      4398046511105 := by
    have hlt := n.toNat_lt
    rw [htotal]
    omega
  unfold createPlan64 UploadPlan64.toPlan createPlan kChunkSize
    kMultipartUploadPartSize
  dsimp only
  rw [htotal, toNat_chunkSize, ← htotal]
  generalize (max 1 ((n + 4194304 - 1) / 4194304) : UInt64) = total
    at hsmall ⊢
  by_cases hmany : total > 1
  · have hmany' : total.toNat > 1 := UInt64.lt_iff_toNat_lt.mp hmany
    have hper : max 1 (8388608 / 4194304 : UInt64) = 2 := by decide
    have hper' : max 1 (8388608 / 4194304) = 2 := by decide
    have hadd : AddFits total 2 := by
      unfold AddFits
      rw [toNat_two]
      omega
    rw [if_pos hmany, if_pos hmany', hper, hper', toNat_pieces hadd (by decide),
      toNat_partSize, toNat_two]
  · have hmany' : ¬total.toNat > 1 := fun h =>
      hmany (UInt64.lt_iff_toNat_lt.mpr h)
    have hper : max 1 (4194304 / 4194304 : UInt64) = 1 := by decide
    have hper' : max 1 (4194304 / 4194304) = 1 := by decide
    have hadd : AddFits total 1 := by
      unfold AddFits
      rw [UInt64.toNat_one]
      omega
    rw [if_neg hmany, if_neg hmany', hper, hper', toNat_pieces hadd (by decide),
      toNat_chunkSize, UInt64.toNat_one]

/-- No operation wraps in a plan that can be rounded up. -/
theorem UploadPlanner.createPlan64_fits (hn : AddFits n 4194304) :
    (createPlan64 n).Fits := by
  have hplan := createPlan64_toPlan hn
  have htotal : (createPlan64 n).totalChunks.toNat =
      max 1 ((n.toNat + 4194304 - 1) / 4194304) :=
    congrArg UploadPlan.totalChunks hplan
  have hper : (createPlan64 n).chunksPerUploadPart.toNat =
      (createPlan n.toNat).chunksPerUploadPart :=
    congrArg UploadPlan.chunksPerUploadPart hplan
  have hper' : 1 ≤ (createPlan n.toNat).chunksPerUploadPart ∧
      (createPlan n.toNat).chunksPerUploadPart ≤ 2 := by
    unfold createPlan
    dsimp only
    by_cases hmany : max 1 ((n.toNat + kChunkSize - 1) / kChunkSize) > 1
    · rw [if_pos hmany]
      decide
    · rw [if_neg hmany]
      decide
  have hlt := n.toNat_lt
  have hround : AddFits (createPlan64 n).totalChunks
      (createPlan64 n).chunksPerUploadPart := by
    unfold AddFits
    omega
  refine ⟨hn, ?_, hround, ?_⟩
  · show 1 ≤ (n + 4194304).toNat
    rw [hn.toNat, toNat_chunkSize]
    omega
  · show 1 ≤ ((createPlan64 n).totalChunks +
      (createPlan64 n).chunksPerUploadPart).toNat
    rw [hround.toNat]
    omega

end Fits

section Parts

variable {plan : UploadPlan64} {p : UInt64}

/-- In the parts of a file that a signed size can count, no operation wraps. -/
theorem makePartPlan64_fits (h : plan.toPlan.Shape)
    (hsize : plan.originalSize.toNat ≤ 9223372036854775807)
    (hp : 1 ≤ p.toNat) (hle : p.toNat ≤ plan.uploadPartCount.toNat) :
    (MultipartUploader.makePartPlan64 p plan).Fits plan ∧
      (MultipartUploader.makePartPlan64 p plan).toPart =
        makePartPlan p.toNat plan.toPlan := by
  have hchunk : plan.fileChunkSize.toNat = 4194304 := h.chunkSize
  have hpart : plan.uploadPartSize.toNat ≤ 8388608 := by
    rcases h.parts with ⟨-, -, hsize, -⟩ | ⟨-, -, hsize, -⟩ <;>
      exact le_of_eq_of_le hsize (by decide)
  have hinside : (p.toNat - 1) * plan.uploadPartSize.toNat <
      plan.originalSize.toNat := h.start_lt hp hle
  have hbefore : SubFits p 1 := hp
  have hstart : MulFits (p - 1) plan.uploadPartSize := by
    unfold MulFits
    rw [hbefore.toNat, UInt64.toNat_one]
    omega
  have hstart' : ((p - 1) * plan.uploadPartSize).toNat =
      (p.toNat - 1) * plan.uploadPartSize.toNat := by
    rw [hstart.toNat, hbefore.toNat, UInt64.toNat_one]
  generalize hs : (p - 1) * plan.uploadPartSize = start at hstart'
  have hfull : AddFits start plan.uploadPartSize := by
    unfold AddFits
    omega
  have hend : (min (start + plan.uploadPartSize) plan.originalSize).toNat =
      min (start.toNat + plan.uploadPartSize.toNat)
        plan.originalSize.toNat := by
    rw [UInt64.toNat_min, hfull.toNat]
  generalize he : min (start + plan.uploadPartSize) plan.originalSize = stop
    at hend
  have hindex : (start / plan.fileChunkSize).toNat < 18446744073709551615 := by
    rw [UInt64.toNat_div]
    have hdiv := Nat.div_le_self start.toNat plan.fileChunkSize.toNat
    omega
  have hnext : AddFits (start / plan.fileChunkSize) 1 := by
    unfold AddFits
    rw [UInt64.toNat_one]
    omega
  have hbytes : SubFits stop start := by
    unfold SubFits
    omega
  have hround : AddFits (stop - start) plan.fileChunkSize := by
    unfold AddFits
    rw [hbytes.toNat]
    omega
  have hback : SubFits (stop - start + plan.fileChunkSize) 1 := by
    show 1 ≤ (stop - start + plan.fileChunkSize).toNat
    rw [hround.toNat]
    omega
  have hshape : MultipartUploader.makePartPlan64 p plan =
      { partNumber := p, partStart := start, partEnd := stop
        firstChunkNumber := start / plan.fileChunkSize + 1 } := by
    unfold MultipartUploader.makePartPlan64
    dsimp only
    rw [hs, he]
  rw [hshape]
  refine ⟨⟨hbefore, hstart, hfull, hnext, hbytes, hround, hback⟩, ?_⟩
  unfold UploadPartPlan64.toPart makePartPlan UploadPlan64.toPlan
  dsimp only
  rw [hnext.toNat, UInt64.toNat_div, hend, hstart', UInt64.toNat_one]

/-- So the chunks of a part are counted as natural numbers. -/
theorem UploadPartPlan64.Fits.chunkCount {part : UploadPartPlan64}
    (h : part.Fits plan) (hchunk : 0 < plan.fileChunkSize.toNat) :
    (partChunkCount64 part plan).toNat =
      partChunkCount part.toPart plan.toPlan := by
  unfold partChunkCount64
  rw [toNat_ceilDiv h.roundChunks hchunk, h.size.toNat]
  rfl

end Parts

end ArkiveSync
