import ArkiveSync.Model.DownloadService
import ArkiveSync.Model.UploadFileChunkReader
import ArkiveSync.Proofs.PartPlans

/-!
# The sizes that can be transferred

A file is sent in windows of chunks that the reader checks again, and received
into a file that gets its size before anything is written.  The plan of an
empty file has one chunk, in which there is nothing to read, and the system
refuses to allocate nothing.

## Main results

* `window_opens`: the reader accepts the window of every part of a file that is
  not empty.
* `receives_iff`: a file can be given its size exactly if it is not empty.
* `transferable_iff`: of the sizes a scan can record, all but zero can be
  transferred.
-/

namespace ArkiveSync.TransferableSizes

open Library PartPlans

/-- The reader accepts the window of the part, for every key, and seeks into
the file. -/
structure WindowOpens (plan : UploadPlan64) (k : UInt64) : Prop where
  accepted : ∀ (file fileKey : Bytes) (vaultId fileId : String),
    fileKey ≠ [] →
    ∃ reader, UploadFileChunkReader.openWindow file fileKey vaultId fileId
      plan.fileChunkSize.toNat plan.totalChunks.toNat
      (part plan k).firstChunkNumber.toNat
      (partChunkCount64 (part plan k) plan).toNat = .ok reader
  seeks : ((part plan k).firstChunkNumber.toNat - 1) *
    plan.fileChunkSize.toNat < plan.originalSize.toNat

/-- A file of this size is allocated and takes the place of the target. -/
def Receives (n : Nat) : Prop :=
  ∀ target, ∃ writer writer' file,
    (LinuxAtomicFileWriter.openWriter target).preallocate n = some writer ∧
      writer.commit = some writer' ∧ writer'.target = some file ∧
      file.length = n

/-- Both sides work with this size. -/
structure Transferable (n : UInt64) : Prop where
  windows : ∀ k, IsPart (UploadPlanner.createPlan64 n) k →
    WindowOpens (UploadPlanner.createPlan64 n) k
  chunks : ((List.range (UploadPlanner.createPlan64 n).uploadPartCount.toNat).map
    (fun i => (partChunkCount64 (part (UploadPlanner.createPlan64 n)
      (UInt64.ofNat (i + 1))) (UploadPlanner.createPlan64 n)).toNat)).sum =
        (UploadPlanner.createPlan64 n).totalChunks.toNat
  received : Receives n.toNat

/-! ## The receiver -/

/-- A file can be given its size exactly if it is not empty. -/
theorem receives_iff {n : Nat} (hn : n ≤ 9223372036854775807) :
    Receives n ↔ 0 < n := by
  constructor
  · intro h
    obtain ⟨writer, _, _, hallocated, _⟩ := h none
    by_contra hzero
    have hn : n = 0 := by omega
    subst hn
    have hrefused : (LinuxAtomicFileWriter.openWriter none).preallocate 0 =
        none := rfl
    rw [hrefused] at hallocated
    cases hallocated
  · intro hpos target
    have hoff := toInt64_of_le hn
    refine ⟨{ temp := some (List.replicate n 0), target := target
              committed := false },
      { temp := none, target := some (List.replicate n 0)
        committed := true }, List.replicate n 0, ?_, rfl, rfl, by simp⟩
    unfold LinuxAtomicFileWriter.preallocate
    rw [if_neg (by omega)]
    simp only [LinuxAtomicFileWriter.openWriter, AtomicFileWriter.preallocate]
    rw [if_neg (by omega)]
    simp

/-! ## The sender -/

section Windows

variable {plan : UploadPlan64} {k : UInt64} (h : plan.toPlan.Shape)
  (hsize : plan.originalSize.toNat ≤ 9223372036854775807)

include h hsize

/-- The reader accepts the window of every part of a file that is not empty. -/
theorem window_opens (hk : IsPart plan k) : WindowOpens plan k := by
  have hchunk : 0 < plan.fileChunkSize.toNat := by
    have hfour : plan.fileChunkSize.toNat = 4194304 := h.chunkSize
    omega
  have htotal : plan.toPlan.totalChunks = plan.totalChunks.toNat := rfl
  have hfirst : (part plan k).firstChunkNumber.toNat =
      (makePartPlan k.toNat plan.toPlan).firstChunkNumber :=
    congrArg UploadPartPlan.firstChunkNumber (part_toNat h hsize hk)
  obtain ⟨hnumber, hcount, hlt, hle⟩ := h.window hk.pos hk.le
  rw [hnumber] at hfirst
  have hchunks := chunkCount_toNat h hsize hk
  rw [hcount] at hchunks
  refine { accepted := ?_, seeks := ?_ }
  · intro file fileKey vaultId fileId hkey
    rw [hfirst, hchunks]
    unfold UploadFileChunkReader.openWindow
    simp only [gt_iff_lt, Nat.succ_pos, if_true, Nat.add_sub_cancel]
    rw [if_neg hkey, if_neg (by omega), if_neg (by omega), if_neg (by omega),
      if_neg (by omega), if_neg (by omega), if_neg (by omega)]
    exact ⟨_, rfl⟩
  · rw [hfirst, Nat.add_sub_cancel]
    exact h.chunk_inside (by omega)

/-- The windows have the chunks of the plan. -/
theorem windows_sum :
    ((List.range plan.uploadPartCount.toNat).map (fun i =>
      (partChunkCount64 (part plan (UInt64.ofNat (i + 1))) plan).toNat)).sum =
        plan.totalChunks.toNat := by
  have hsum := h.chunkCounts_sum (le_refl plan.toPlan.uploadPartCount)
  rw [h.endChunk_count] at hsum
  have htotal : plan.toPlan.totalChunks = plan.totalChunks.toNat := rfl
  rw [← htotal, ← hsum]
  apply congrArg
  apply List.map_congr_left
  intro i hi
  rw [List.mem_range] at hi
  obtain ⟨hvalue, hpart⟩ := isPart_ofNat plan
    (Nat.le_add_left 1 i) hi
  rw [chunkCount_toNat h hsize hpart, hvalue]

end Windows

/-- Of the sizes a scan can record, all but zero can be transferred. -/
theorem transferable_iff {n : UInt64} (hn : n.toNat ≤ 9223372036854775807) :
    Transferable n ↔ 0 < n.toNat := by
  constructor
  · intro h
    exact (receives_iff hn).mp h.received
  · intro hpos
    have hround : AddFits n 4194304 := by
      unfold AddFits
      rw [toNat_chunkSize]
      omega
    have hone : 1 ≤ n := UInt64.le_iff_toNat_le.mpr hpos
    have hshape := createPlan64_shape hone hround
    have hfile : (UploadPlanner.createPlan64 n).originalSize.toNat ≤
        9223372036854775807 := hn
    exact
      { windows := fun k hk => window_opens hshape hfile hk
        chunks := windows_sum hshape hfile
        received := (receives_iff hn).mpr hpos }

/-- Twelve and a half MiB can be transferred. -/
theorem transferable_threeChunks : Transferable 13107200 :=
  (transferable_iff (n := 13107200) (by decide)).mpr (by decide)

/-- The plan of an empty file has a chunk that its only window leaves out. -/
theorem not_transferable :
    ¬∀ n : UInt64, n.toNat ≤ 9223372036854775807 → Transferable n := by
  intro h
  have hpart : IsPart (UploadPlanner.createPlan64 0) 1 := by
    unfold IsPart
    decide
  obtain ⟨reader, hopens⟩ :=
    ((h 0 (by decide)).windows 1 hpart).accepted [] [0] "v" "f" (by decide)
  have hcount : (partChunkCount64 (part (UploadPlanner.createPlan64 0) 1)
      (UploadPlanner.createPlan64 0)).toNat = 0 := by
    decide
  rw [hcount] at hopens
  cases hopens

end ArkiveSync.TransferableSizes
