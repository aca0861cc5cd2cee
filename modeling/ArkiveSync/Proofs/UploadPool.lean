import ArkiveSync.Model.UploadLog
import ArkiveSync.Proofs.UploadDownload

/-!
# Every part at most once

What `uploadParts` has done when it returns or throws, whatever the workers'
steps have fallen in between, and whatever has failed: no part was put twice,
`onPartUploaded` was called for parts only that were put and reported, the error
is one of those thrown, and without an error every part is in its slot.

## Main results

* `uploadParts_exact`: the above, for every plan, every set of completed parts
  and any number of workers.
-/

namespace ArkiveSync

open Library

namespace MultipartUploader

variable {ν ρ : Type} {call : UploadCall ν ρ} {n : Nat}
variable {completedParts : List UploadedPartResult}
variable {puts puts' : List StoredPart} {resume resume' : ρ}

/-- The pool with its log, after any number of steps. -/
theorem logged_inv {slots : List UploadedPartResult}
    (hplace : placeCompleted call.plan
      (List.replicate call.plan.uploadPartCount {}) completedParts =
        .ok slots)
    {pool : Pool n PartStage UploadError
      (Logged PartStage UploadError (UploadState ρ))}
    (hrun : Run (Pool.Step (jobs call).logged)
      { env :=
          { state := { uploadedParts := slots, puts := puts, resume := resume }
            log := [] } }
      pool) :
    Pool.Inv (jobs call).logged (fun _ => Orderly call)
      (Unput call (GivenPart completedParts)) (OnItsWay call)
      (Settled call (GivenPart completedParts)) pool := by
  obtain ⟨hlength, hplaced⟩ := placeCompleted_slots hplace
  refine Pool.Inv.run logged_sound hrun
    (Pool.Inv.init ⟨hlength, fun _ => Nat.zero_le 1, CalledBack.nil⟩ ?_)
  intro p hp hle
  exact ⟨⟨hp, hle⟩, rfl, hplaced p hp⟩

/-- A part in the slot of its number: it was given, with an etag, and not put,
or it was prepared and put once. -/
def InSlot (call : UploadCall ν ρ) (completedParts : List UploadedPartResult)
    (log : UploadLog) (k : Nat) (part : UploadedPartResult) : Prop :=
  part.plan.partNumber = k ∧
    (part ∈ completedParts ∧ part.etag ≠ "" ∧ attempts log k = 0 ∨
      attempts log k = 1 ∧ Uploaded call log k part)

theorem Settled.inSlot {k : Nat}
    {s : Logged PartStage UploadError (UploadState ρ)}
    (h : Settled call (GivenPart completedParts) k s) :
    InSlot call completedParts s.log k (slot s.state.uploadedParts k) := by
  rcases h.2 with ⟨hgiven, hetag, hattempts⟩ | ⟨hattempts, huploaded⟩
  · exact ⟨hgiven.2, Or.inl ⟨hgiven.1, hetag, hattempts⟩⟩
  · exact ⟨huploaded.partNumber, Or.inr ⟨hattempts, huploaded⟩⟩

/-- The part worker pool is exact under every schedule. -/
theorem uploadParts_exact (hworkers : 1 ≤ n)
    {result : Except UploadError (List UploadedPartResult)} {log : UploadLog}
    (h : LoggedUploadParts call n completedParts puts resume result puts'
      resume' log) :
    (∀ parts, result = .ok parts →
      parts.length = call.plan.uploadPartCount ∧
      ∀ k, 1 ≤ k → k ≤ call.plan.uploadPartCount →
        InSlot call completedParts log k (slot parts k)) ∧
    (∀ k, attempts log k ≤ 1) ∧
    (thrown log ≠ [] → ∃ e ∈ thrown log, result = .error e) ∧
    CalledBack call log := by
  cases h with
  | reject e hplace =>
      refine ⟨?_, fun _ => Nat.zero_le 1, ?_, CalledBack.nil⟩
      · intro parts hok
        cases hok
      · intro hne
        exact absurd rfl hne
  | run slots pool hplace hrun hfinished =>
      have hearly := run_logged hrun
      have hinv := logged_inv hplace hearly
      have hdone := Pool.finished_early (J := (jobs call).logged) hfinished
      refine ⟨?_, hinv.achieved.env.once, ?_, hinv.achieved.env.calledBack⟩
      · intro parts hok
        obtain ⟨herror, rfl⟩ := firstError_of_ok hok
        refine ⟨hinv.achieved.env.slots, ?_⟩
        intro k hk hle
        exact (hinv.done_of_finished hworkers hdone herror hk hle).inSlot
      · intro hthrown
        have herrors := Pool.Errors.init.run hearly
        obtain ⟨e, hmem, herror⟩ := herrors.of_finished hdone hthrown
        change pool.firstError = some e at herror
        refine ⟨e, hmem, ?_⟩
        rw [herror]

/-! ## A call with one part -/

open UploadDownload

/-- The part before it is put. -/
def smallPrepared : UploadedPartResult := partResult smallCall 1 [smallChunk]

/-- The stages of the worker, as they are logged. -/
def smallLog : UploadLog :=
  [(1, .preparing, .next (.presigning smallPrepared [0, 1, 2, 3])),
    (1, .presigning smallPrepared [0, 1, 2, 3],
      .next (.storing "u" smallPrepared [0, 1, 2, 3])),
    (1, .storing "u" smallPrepared [0, 1, 2, 3],
      .next (.publishing smallPart)),
    (1, .publishing smallPart, .done)]

/-- What the worker works on, after its first `i` stages. -/
def smallState (parts : List UploadedPartResult) (puts : List StoredPart)
    (i : Nat) : Logged PartStage UploadError (UploadState Unit) :=
  { state := { uploadedParts := parts, puts := puts, resume := () }
    log := smallLog.take i }

/-- One worker takes the part, sees that its slot is empty, and puts it. -/
theorem smallCall_logs :
    LoggedUploadParts smallCall 1 [] [] () (.ok [smallPart]) [smallPut] ()
      smallLog := by
  have hprepare : (jobs smallCall).logged.stage 1 .preparing
      (smallState [{}] [] 0) _ (smallState [{}] [] 1) :=
    ⟨.prepare _ (fun _ => ()) _ _ smallCall_prepares, rfl⟩
  have hgiven : (jobs smallCall).logged.stage 1 _
      (smallState [{}] [] 1) _ (smallState [{}] [] 2) :=
    ⟨.given _ smallPrepared [0, 1, 2, 3] (by decide), rfl⟩
  have hstore : (jobs smallCall).logged.stage 1 _
      (smallState [{}] [] 2) _ (smallState [{}] [smallPut] 3) :=
    ⟨.storeSingle _ "u" "e" smallPrepared [0, 1, 2, 3] rfl, rfl⟩
  have hpublish : (jobs smallCall).logged.stage 1 _
      (smallState [{}] [smallPut] 3) _ (smallState [smallPart] [smallPut] 4) :=
    ⟨.publish _ smallPart, rfl⟩
  have hrun : ∃ pool : Pool 1 (Option PartStage) UploadError
        (Logged PartStage UploadError (UploadState Unit)),
      Run (Pool.Step (jobs smallCall).logged.late)
        { env := smallState [{}] [] 0 } pool ∧
      pool.Finished ∧ pool.firstError = none ∧
      pool.env = smallState [smallPart] [smallPut] 4 := by
    refine ⟨_,
      .head (.loop _ 0 rfl rfl) <|
      .head (.claim _ 0 rfl (by decide) rfl) <|
      .head (.stage _ 0 1 _ _ _ rfl (.start _ (by decide))) <|
      .head (.stage _ 0 1 _ _ _ rfl (.stage _ _ _ _ hprepare)) <|
      .head (.stage _ 0 1 _ _ _ rfl (.stage _ _ _ _ hgiven)) <|
      .head (.stage _ 0 1 _ _ _ rfl (.stage _ _ _ _ hstore)) <|
      .head (.stage _ 0 1 _ _ _ rfl (.stage _ _ _ _ hpublish)) <|
      .head (.loop _ 0 rfl rfl) <|
      .head (.exhaust _ 0 rfl (by decide)) .refl, ?_, rfl, rfl⟩
    intro w
    rw [Fin.fin_one_eq_zero w]
    exact Or.inl rfl
  obtain ⟨pool, hsteps, hfinished, herror, henv⟩ := hrun
  have hplace : placeCompleted smallCall.plan
      (List.replicate smallCall.plan.uploadPartCount {}) [] = .ok [{}] := rfl
  have hresult := LoggedUploadParts.run [{}] pool hplace hsteps hfinished
  rw [herror, henv] at hresult
  exact hresult

theorem uploadParts_exact_small :
    InSlot smallCall [] smallLog 1 smallPart ∧ attempts smallLog 1 = 1 := by
  have hexact := uploadParts_exact (by decide) smallCall_logs
  exact ⟨(hexact.1 _ rfl).2 1 (by decide) (by decide), by decide⟩

end MultipartUploader

end ArkiveSync
