import ArkiveSync.Model.UploadArithmetic
import ArkiveSync.Model.UploadBatch

/-!
# The parts of a file

A plan says how many parts a file has, and `makePartPlan` where each of them
starts and ends; a resumed upload computes the parts that are stored by number
once more.  So the parts have to cut the file up in the same way each time,
and the numbers have to survive the types they are sent and stored in.

## Main results

* `partitions`: the parts lie one behind the other and cover the file.
* `conversionsKeep`: the numbers of a plan with at most 2^31 - 1 chunks fit into
  the types of the requests, the records and the data of the chunks.
* `parts_partition`: both, without any operation that wraps, for every size
  that can be rounded up to whole chunks.
-/

namespace ArkiveSync.PartPlans

open Library

/-- Part `k` of the plan. -/
abbrev part (plan : UploadPlan64) (k : UInt64) : UploadPartPlan64 :=
  MultipartUploader.makePartPlan64 k plan

/-- The parts have numbers from one on. -/
def IsPart (plan : UploadPlan64) (k : UInt64) : Prop :=
  1 ≤ k ∧ k ≤ plan.uploadPartCount

/-- How many chunks the parts before part `k` have. -/
def chunksBefore (plan : UploadPlan64) (k : UInt64) : Nat :=
  ((List.range (k.toNat - 1)).map (fun i =>
    (partChunkCount64 (part plan (UInt64.ofNat (i + 1))) plan).toNat)).sum

/-- The parts cut the file up. -/
structure Partitions (plan : UploadPlan64) : Prop where
  nonempty : ∀ k, IsPart plan k →
    (part plan k).partStart < (part plan k).partEnd
  first : (part plan 1).partStart = 0
  consecutive : ∀ k, 1 ≤ k → k < plan.uploadPartCount →
    (part plan k).partEnd = (part plan (k + 1)).partStart
  last : (part plan plan.uploadPartCount).partEnd = plan.originalSize
  covers : ∀ b : Nat, b < plan.originalSize.toNat ↔
    ∃ k, IsPart plan k ∧ (part plan k).partStart.toNat ≤ b ∧
      b < (part plan k).partEnd.toNat
  boundary : ∀ k, IsPart plan k →
    (part plan k).partStart % plan.fileChunkSize = 0
  firstChunk : ∀ k, IsPart plan k →
    (part plan k).firstChunkNumber.toNat = chunksBefore plan k + 1

/-- No operation wraps. -/
structure NeverWraps (plan : UploadPlan64) : Prop where
  whole : plan.Fits
  parts : ∀ k, IsPart plan k → (part plan k).Fits plan

/-- The conversions to `int` and `int64_t` keep the values: those of the start
request, of the row of a session and of the plan it is matched with, of the
rows of its parts, and of the additional data of a chunk. -/
structure ConversionsKeep (plan : UploadPlan64) : Prop where
  request : ∀ context : UploadContext, context.plan = plan.toPlan →
    let request := (UploadService.startRequest context).request
    request.originalSize = plan.originalSize.toNat ∧
      request.fileChunkSize = plan.fileChunkSize.toNat ∧
      request.totalChunks = plan.totalChunks.toNat ∧
      request.uploadPartSize = plan.uploadPartSize.toNat ∧
      request.uploadPartCount = plan.uploadPartCount.toNat
  session : ∀ entry localPath localMtime started blob,
    (UploadService.sessionRecord entry localPath plan.originalSize.toNat
      localMtime started blob).localSize = plan.originalSize.toNat
  matched : ∀ session entry localPath localMtime,
    UploadService.sessionMatchesEntry session entry localPath
        plan.originalSize.toNat localMtime plan.toPlan = true →
      session.localSize = plan.originalSize.toNat ∧
      session.fileChunkSize = plan.fileChunkSize.toNat ∧
      session.totalChunks = plan.totalChunks.toNat ∧
      session.uploadPartSize = plan.uploadPartSize.toNat ∧
      session.uploadPartCount = plan.uploadPartCount.toNat
  record : ∀ k, IsPart plan k →
    toInt k.toNat = k.toNat ∧ toUInt64 (toInt k.toNat) = k.toNat
  aad : ∀ (vaultId fileId : String) (chunkNo : UInt64), 1 ≤ chunkNo →
    chunkNo ≤ plan.totalChunks →
    chunkAad vaultId fileId chunkNo.toNat plan.fileChunkSize.toNat
        plan.totalChunks.toNat =
      ArkiveAad.toBytes (ArkiveAad.makeFileChunk vaultId fileId chunkNo.toNat
        plan.fileChunkSize.toNat plan.totalChunks.toNat)

/-- What the parts of a plan come to. -/
structure PartsPartition (plan : UploadPlan64) : Prop where
  neverWraps : NeverWraps plan
  partitions : Partitions plan
  conversions : ConversionsKeep plan
  copies : ∀ k, UploadService.makePartPlan64 k plan =
    MultipartUploader.makePartPlan64 k plan

/-! ## The parts in 64 bits -/

section Parts

variable {plan : UploadPlan64} {k : UInt64}

theorem IsPart.pos (hk : IsPart plan k) : 1 ≤ k.toNat :=
  UInt64.le_iff_toNat_le.mp hk.1

theorem IsPart.le (hk : IsPart plan k) :
    k.toNat ≤ plan.uploadPartCount.toNat :=
  UInt64.le_iff_toNat_le.mp hk.2

variable (plan) in
theorem isPart_ofNat {p : Nat} (hp : 1 ≤ p)
    (hle : p ≤ plan.uploadPartCount.toNat) :
    (UInt64.ofNat p).toNat = p ∧ IsPart plan (UInt64.ofNat p) := by
  have hlt := plan.uploadPartCount.toNat_lt_size
  have hvalue : (UInt64.ofNat p).toNat = p :=
    UInt64.toNat_ofNat_of_lt' (by omega)
  refine ⟨hvalue, ?_, ?_⟩
  · rw [UInt64.le_iff_toNat_le, hvalue]
    exact hp
  · rw [UInt64.le_iff_toNat_le, hvalue]
    exact hle

/-- The part behind one that is not the last. -/
theorem isPart_next (hlt : k < plan.uploadPartCount) :
    (k + 1).toNat = k.toNat + 1 ∧ IsPart plan (k + 1) := by
  have hcount := plan.uploadPartCount.toNat_lt
  rw [UInt64.lt_iff_toNat_lt] at hlt
  have hadd : AddFits k 1 := by
    unfold AddFits
    rw [UInt64.toNat_one]
    omega
  have hvalue : (k + 1).toNat = k.toNat + 1 := by
    rw [hadd.toNat, UInt64.toNat_one]
  refine ⟨hvalue, ?_, ?_⟩
  · rw [UInt64.le_iff_toNat_le, hvalue, UInt64.toNat_one]
    omega
  · rw [UInt64.le_iff_toNat_le, hvalue]
    omega

variable (h : plan.toPlan.Shape)
  (hsize : plan.originalSize.toNat ≤ 9223372036854775807)

include h hsize

theorem part_toNat (hk : IsPart plan k) :
    (part plan k).toPart = makePartPlan k.toNat plan.toPlan :=
  (makePartPlan64_fits h hsize hk.pos hk.le).2

theorem partStart_toNat (hk : IsPart plan k) :
    (part plan k).partStart.toNat =
      (makePartPlan k.toNat plan.toPlan).partStart :=
  congrArg UploadPartPlan.partStart (part_toNat h hsize hk)

theorem partEnd_toNat (hk : IsPart plan k) :
    (part plan k).partEnd.toNat =
      (makePartPlan k.toNat plan.toPlan).partEnd :=
  congrArg UploadPartPlan.partEnd (part_toNat h hsize hk)

theorem chunkCount_toNat (hk : IsPart plan k) :
    (partChunkCount64 (part plan k) plan).toNat =
      partChunkCount (makePartPlan k.toNat plan.toPlan) plan.toPlan := by
  have hchunk : 0 < plan.fileChunkSize.toNat := by
    have hfour : plan.fileChunkSize.toNat = 4194304 := h.chunkSize
    omega
  have hfits := (makePartPlan64_fits h hsize hk.pos hk.le).1
  rw [hfits.chunkCount hchunk]
  rw [part_toNat h hsize hk]

/-- The chunks of the parts before a part end where it starts. -/
theorem chunksBefore_eq (hk : IsPart plan k) :
    chunksBefore plan k = plan.toPlan.endChunk (k.toNat - 1) := by
  have hle := hk.le
  have hbefore : k.toNat - 1 ≤ plan.toPlan.uploadPartCount :=
    Nat.le_trans (Nat.sub_le _ _) hle
  rw [← h.chunkCounts_sum hbefore]
  unfold chunksBefore
  apply congrArg
  apply List.map_congr_left
  intro i hi
  rw [List.mem_range] at hi
  obtain ⟨hvalue, hpart⟩ := isPart_ofNat plan
    (Nat.le_add_left 1 i) (by omega)
  rw [chunkCount_toNat h hsize hpart, hvalue]

/-- A part ends behind its start, and not behind the file. -/
theorem part_bounds (hk : IsPart plan k) :
    (part plan k).partStart.toNat < (part plan k).partEnd.toNat ∧
      (part plan k).partEnd.toNat ≤ plan.originalSize.toNat := by
  rw [partStart_toNat h hsize hk, partEnd_toNat h hsize hk]
  have hinside := h.start_lt hk.pos hk.le
  have hpart : 0 < plan.toPlan.uploadPartSize := by
    rcases h.parts with ⟨-, -, hsize, -⟩ | ⟨-, -, hsize, -⟩ <;> omega
  have hfile : plan.originalSize.toNat = plan.toPlan.originalSize := rfl
  rw [hfile]
  simp only [makePartPlan]
  omega

/-- The byte at `b` is in the part with the number `b / uploadPartSize + 1`. -/
theorem exists_part {b : Nat} (hb : b < plan.originalSize.toNat) :
    ∃ k, IsPart plan k ∧ (part plan k).partStart.toNat ≤ b ∧
      b < (part plan k).partEnd.toNat := by
  have htotal := h.totalChunks
  have hfile : plan.originalSize.toNat = plan.toPlan.originalSize := rfl
  have hcount : plan.uploadPartCount.toNat = plan.toPlan.uploadPartCount := rfl
  rw [hfile] at hb
  have hbound : b / plan.toPlan.uploadPartSize + 1 ≤
      plan.uploadPartCount.toNat := by
    rw [hcount]
    rcases h.parts with ⟨hone, -, hpart, hparts⟩ | ⟨hmany, -, hpart, hparts⟩
    · rw [hpart]
      omega
    · rw [hpart]
      omega
  obtain ⟨hvalue, hk⟩ := isPart_ofNat plan (Nat.le_add_left 1 _) hbound
  refine ⟨_, hk, ?_, ?_⟩
  · rw [partStart_toNat h hsize hk, hvalue]
    simp only [makePartPlan, Nat.add_sub_cancel]
    exact Nat.div_mul_le_self b _
  · rw [partEnd_toNat h hsize hk, hvalue]
    have hpart : 0 < plan.toPlan.uploadPartSize := by
      rcases h.parts with ⟨-, -, hsize, -⟩ | ⟨-, -, hsize, -⟩ <;> omega
    have hlt := Nat.lt_div_mul_add hpart (a := b)
    simp only [makePartPlan, Nat.add_sub_cancel]
    omega

/-- The parts lie one behind the other and cover the file. -/
theorem partitions : Partitions plan := by
  have hchunk : plan.fileChunkSize.toNat = 4194304 := h.chunkSize
  have hcount : 1 ≤ plan.uploadPartCount.toNat := h.uploadPartCount_pos
  have hlast : IsPart plan plan.uploadPartCount :=
    ⟨UInt64.le_iff_toNat_le.mpr hcount, UInt64.le_iff_toNat_le.mpr (le_refl _)⟩
  refine
    { nonempty := ?_, first := ?_, consecutive := ?_, last := ?_, covers := ?_
      boundary := ?_, firstChunk := ?_ }
  · intro k hk
    rw [UInt64.lt_iff_toNat_lt]
    exact (part_bounds h hsize hk).1
  · simp [MultipartUploader.makePartPlan64]
  · intro k hone hlt
    obtain ⟨hvalue, hnext⟩ := isPart_next hlt
    have hk : IsPart plan k :=
      ⟨hone, UInt64.le_iff_toNat_le.mpr
        (Nat.le_of_lt (UInt64.lt_iff_toNat_lt.mp hlt))⟩
    apply UInt64.toNat_inj.mp
    rw [partEnd_toNat h hsize hk, partStart_toNat h hsize hnext, hvalue]
    exact h.end_eq_next hk.pos (UInt64.lt_iff_toNat_lt.mp hlt)
  · apply UInt64.toNat_inj.mp
    rw [partEnd_toNat h hsize hlast]
    exact h.end_last
  · intro b
    constructor
    · exact exists_part h hsize
    · rintro ⟨k, hk, -, hb⟩
      have hend := (part_bounds h hsize hk).2
      omega
  · intro k hk
    apply UInt64.toNat_inj.mp
    have hfour : plan.toPlan.fileChunkSize = plan.fileChunkSize.toNat := rfl
    rw [UInt64.toNat_mod, partStart_toNat h hsize hk, h.start_eq hk.pos hk.le,
      hfour, Nat.mul_mod_left]
    rfl
  · intro k hk
    have hfirst := (h.window hk.pos hk.le).1
    rw [chunksBefore_eq h hsize hk, ← hfirst]
    exact congrArg UploadPartPlan.firstChunkNumber (part_toNat h hsize hk)

end Parts

/-! ## The numbers that are sent and stored -/

theorem toInt_of_le {n : Nat} (hn : n ≤ 2147483647) : toInt n = n :=
  UploadService.toInt_of_lt (by omega)

theorem toInt64_of_le {n : Nat} (hn : n ≤ 9223372036854775807) :
    toInt64 n = n := by
  unfold toInt64
  rw [Int.bmod_def]
  omega

/-- The numbers of a plan with at most 2^31 - 1 chunks. -/
structure NumbersLe (plan : UploadPlan64) : Prop where
  originalSize : plan.originalSize.toNat ≤ 9223372036854775807
  fileChunkSize : plan.fileChunkSize.toNat ≤ 9223372036854775807
  uploadPartSize : plan.uploadPartSize.toNat ≤ 9223372036854775807
  uploadPartCount : plan.uploadPartCount.toNat ≤ 2147483647

theorem numbers_le {plan : UploadPlan64} (h : plan.toPlan.Shape)
    (htotal : plan.totalChunks.toNat ≤ 2147483647) : NumbersLe plan := by
  have hcovers := h.covers
  have hchunks : plan.toPlan.totalChunks ≤ 2147483647 := htotal
  have hfour := h.chunkSize
  rw [hfour] at hcovers
  have hsize : plan.toPlan.originalSize ≤ 9223372036854775807 := by omega
  have hchunk : plan.toPlan.fileChunkSize ≤ 9223372036854775807 := by omega
  have hpart : plan.toPlan.uploadPartSize ≤ 9223372036854775807 := by
    rcases h.parts with ⟨_, _, _, _⟩ | ⟨_, _, _, _⟩ <;> omega
  have hcount : plan.toPlan.uploadPartCount ≤ 2147483647 := by
    rcases h.parts with ⟨_, _, _, _⟩ | ⟨_, _, _, _⟩ <;> omega
  exact ⟨hsize, hchunk, hpart, hcount⟩

/-- The numbers of a plan fit into the types they are converted to. -/
theorem conversionsKeep {plan : UploadPlan64} (h : plan.toPlan.Shape)
    (htotal : plan.totalChunks.toNat ≤ 2147483647) : ConversionsKeep plan := by
  have hbounds := numbers_le h htotal
  have hsize := toInt64_of_le hbounds.originalSize
  have hchunkSize := toInt64_of_le hbounds.fileChunkSize
  have htotalChunks := toInt_of_le htotal
  have hpartSize := toInt64_of_le hbounds.uploadPartSize
  have hparts := toInt_of_le hbounds.uploadPartCount
  refine
    { request := ?_, session := ?_, matched := ?_, record := ?_, aad := ?_ }
  · intro context hplan
    simp only [UploadService.startRequest, hplan, UploadPlan64.toPlan]
    exact ⟨hsize, hchunkSize, htotalChunks, hpartSize, hparts⟩
  · intro entry localPath localMtime started blob
    simp only [UploadService.sessionRecord]
    exact hsize
  · intro session entry localPath localMtime hmatches
    simp only [UploadService.sessionMatchesEntry, UploadPlan64.toPlan, hsize,
      hchunkSize, htotalChunks, hpartSize, hparts] at hmatches
    split_ifs at hmatches with hlocal hfolder hnumbers
    · simp only [not_or, not_not] at hlocal hnumbers
      exact ⟨hlocal.2, hnumbers⟩
    · simp only [not_or, not_not] at hlocal hnumbers
      exact ⟨hlocal.2, hnumbers⟩
  · intro k hk
    have hvalue : toInt k.toNat = k.toNat :=
      toInt_of_le (Nat.le_trans hk.le hbounds.uploadPartCount)
    refine ⟨hvalue, ?_⟩
    rw [hvalue]
    exact UploadService.toUInt64_natCast k.toNat_lt
  · intro vaultId fileId chunkNo _ hchunkNo
    rw [UInt64.le_iff_toNat_le] at hchunkNo
    unfold chunkAad
    rw [toInt_of_le (Nat.le_trans hchunkNo htotal), hchunkSize, htotalChunks]

/-! ## Every size that can be rounded up -/

/-- The plan of a size that can be rounded up has one of the two shapes. -/
theorem createPlan64_shape {n : UInt64} (hone : 1 ≤ n)
    (hround : AddFits n 4194304) :
    (UploadPlanner.createPlan64 n).toPlan.Shape := by
  rw [UploadPlanner.createPlan64_toPlan hround]
  exact UploadPlanner.createPlan_shape (UInt64.le_iff_toNat_le.mp hone)

/-- The parts of a file partition it, for every size from one on that can be
rounded up to whole chunks and has at most 2^31 - 1 of them. -/
theorem parts_partition {n : UInt64} (hone : 1 ≤ n)
    (hround : n.toNat + kChunkSize < 18446744073709551616)
    (htotal : (UploadPlanner.createPlan64 n).totalChunks.toNat ≤ 2147483647) :
    PartsPartition (UploadPlanner.createPlan64 n) := by
  have hadd : AddFits n 4194304 := by
    unfold kChunkSize at hround
    unfold AddFits
    rw [toNat_chunkSize]
    exact hround
  have hshape := createPlan64_shape hone hadd
  have hfits := UploadPlanner.createPlan64_fits hadd
  generalize UploadPlanner.createPlan64 n = plan at hshape hfits htotal
  have hsize := (numbers_le hshape htotal).originalSize
  exact
    { neverWraps :=
        { whole := hfits
          parts := fun k hk =>
            (makePartPlan64_fits hshape hsize hk.pos hk.le).1 }
      partitions := partitions hshape hsize
      conversions := conversionsKeep hshape htotal
      copies := fun _ => rfl }

/-- A file of twelve and a half MiB. -/
theorem parts_partition_threeChunks :
    (UploadPlanner.createPlan64 13107200).uploadPartCount = 2 ∧
      PartsPartition (UploadPlanner.createPlan64 13107200) :=
  ⟨by decide, parts_partition (by decide) (by decide) (by decide)⟩

/-- The largest `uint64_t` wraps when it is rounded up, and is left with one
part of 4 MiB. -/
theorem not_parts_partition :
    ¬∀ n : UInt64, 1 ≤ n →
      (UploadPlanner.createPlan64 n).totalChunks.toNat ≤ 2147483647 →
      PartsPartition (UploadPlanner.createPlan64 n) := by
  intro h
  have hlast := (h 18446744073709551615 (by decide) (by decide)).partitions.last
  have hshort : (part (UploadPlanner.createPlan64 18446744073709551615)
      (UploadPlanner.createPlan64 18446744073709551615).uploadPartCount).partEnd
        = 4194304 := by
    decide
  rw [hshort] at hlast
  cases hlast

end ArkiveSync.PartPlans
