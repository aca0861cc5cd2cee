import ArkiveSync.Library.PoolRuns
import ArkiveSync.Model.MultipartUploader

/-!
# A log of the uploaded parts

The pool of `uploadParts` once more, with every read of a slot as a step of its
own and with a log of what the workers have done.  The body of a part is put to
storage in one stage, which is in the log however it has ended.

No plan is excluded here: what the log says of a part does not depend on where
the part lies in the file.

## Main results

* `LoggedUploadParts.uploadParts`: without the log the call is `UploadParts`.
* `logged_sound`: the obligations of the pool.  A part that is done was given
  and never put, or it was put once.
-/

namespace ArkiveSync

open Library

namespace PartStage

/-- The stage in which the body of the part is put to storage. -/
def storesBody : PartStage → Bool
  | storing _ _ _ => true
  | preparing => false
  | presigning _ _ => false
  | reporting _ => false
  | resuming _ => false
  | publishing _ => false

end PartStage

namespace MultipartUploader

variable {ν ρ : Type}

/-- The stages of an upload, in the order in which the workers went through
them. -/
abbrev UploadLog := List (Nat × PartStage × Outcome PartStage UploadError)

/-- How often the body of a part was put to storage, successfully or not. -/
def attempts (log : UploadLog) (p : Nat) : Nat :=
  log.countP (fun entry => decide (entry.1 = p) && entry.2.1.storesBody)

/-- A part that was prepared from the file and put, with the etag that storage
answered. -/
def Uploaded (call : UploadCall ν ρ) (log : UploadLog) (p : Nat)
    (part : UploadedPartResult) : Prop :=
  ∃ nonces prepared body url t,
    preparePart call nonces p = .ok (prepared, body) ∧
    part = { prepared with etag := part.etag } ∧
    (p, .storing url prepared body, .next t) ∈ log ∧
    (t = .reporting part ∨ t = .publishing part)

/-- A part that was reported to the server. -/
def WasReported (log : UploadLog) (p : Nat) (part : UploadedPartResult) :
    Prop :=
  (p, .reporting part, .next (.resuming part)) ∈ log

/-- `uploadParts` with a log: a worker looks at the slot of its part some time
after it has taken the number. -/
inductive LoggedUploadParts (call : UploadCall ν ρ) (partConcurrency : Nat)
    (completedParts : List UploadedPartResult) (puts : List StoredPart)
    (resume : ρ) :
    Except UploadError (List UploadedPartResult) → List StoredPart → ρ →
      UploadLog → Prop where
  | reject (e : UploadError)
      (hplace : placeCompleted call.plan
        (List.replicate call.plan.uploadPartCount {}) completedParts =
          .error e) :
      LoggedUploadParts call partConcurrency completedParts puts resume
        (.error e) puts resume []
  | run (slots : List UploadedPartResult)
      (pool : Pool partConcurrency (Option PartStage) UploadError
        (Logged PartStage UploadError (UploadState ρ)))
      (hplace : placeCompleted call.plan
        (List.replicate call.plan.uploadPartCount {}) completedParts =
          .ok slots)
      (hrun : Run (Pool.Step (jobs call).logged.late)
        { env :=
            { state :=
                { uploadedParts := slots, puts := puts, resume := resume }
              log := [] } }
        pool)
      (hfinished : pool.Finished) :
      LoggedUploadParts call partConcurrency completedParts puts resume
        (match pool.firstError with
          | some e => .error e
          | none => .ok pool.env.state.uploadedParts)
        pool.env.state.puts pool.env.state.resume pool.env.log

/-! ## Without the log -/

theorem slot_set_other {parts : List UploadedPartResult} {p q : Nat}
    (part : UploadedPartResult) (hp : 1 ≤ p) (hq : 1 ≤ q) (hne : q ≠ p) :
    slot (parts.set (p - 1) part) q = slot parts q := by
  unfold slot
  rw [List.getD_eq_getElem?_getD, List.getD_eq_getElem?_getD,
    List.getElem?_set_ne (by omega)]

/-- The slot of a part is written by nobody else. -/
theorem Stage.slot_other {call : UploadCall ν ρ} {p q : Nat} {t : PartStage}
    {o : Outcome PartStage UploadError} {s s' : UploadState ρ}
    (hstage : Stage call p t s o s') (hp : 1 ≤ p) (hq : 1 ≤ q)
    (hne : q ≠ p) : slot s'.uploadedParts q = slot s.uploadedParts q := by
  cases hstage with
  | publish _ part => exact slot_set_other part hp hq hne
  | prepare | given | presign | store | storeSingle | report | resume
  | throw => rfl

theorem jobs_skipsApart (call : UploadCall ν ρ) :
    (jobs call).logged.SkipsApart := by
  intro p t s o s' hstage hp _ q hq hne
  have hslot := Stage.slot_other hstage.1 hp hq hne
  show decide (_ ≠ _) = decide (_ ≠ _)
  rw [hslot]

/-- The run of the pool whose workers have decided. -/
theorem run_logged {call : UploadCall ν ρ} {n : Nat}
    {env : Logged PartStage UploadError (UploadState ρ)}
    {pool : Pool n (Option PartStage) UploadError
      (Logged PartStage UploadError (UploadState ρ))}
    (hrun : Run (Pool.Step (jobs call).logged.late) { env := env } pool) :
    Run (Pool.Step (jobs call).logged) { env := env }
      (Pool.early (jobs call).logged pool) :=
  Pool.run_early (jobs_skipsApart call) hrun

/-- Every call with a log is a call. -/
theorem LoggedUploadParts.uploadParts {call : UploadCall ν ρ} {n : Nat}
    {completedParts : List UploadedPartResult} {puts puts' : List StoredPart}
    {resume resume' : ρ}
    {result : Except UploadError (List UploadedPartResult)} {log : UploadLog}
    (h : LoggedUploadParts call n completedParts puts resume result puts'
      resume' log) :
    UploadParts call n completedParts puts resume result puts' resume' := by
  cases h with
  | reject e hplace => exact .reject e hplace
  | run slots pool hplace hrun hfinished =>
      have hcoarse := Pool.run_of_logged (run_logged hrun)
      exact .run slots (Pool.early (jobs call).logged pool).unlogged hplace
        hcoarse (Pool.finished_early hfinished)

/-! ## What the log says of a part -/

theorem attempts_append_other {log : UploadLog} {p q : Nat} (t : PartStage)
    (o : Outcome PartStage UploadError) (hne : q ≠ p) :
    attempts (log ++ [(p, t, o)]) q = attempts log q := by
  unfold attempts
  rw [List.countP_append, List.countP_singleton]
  simp [Ne.symm hne]

theorem attempts_append_storing (log : UploadLog) (p : Nat) (url : String)
    (part : UploadedPartResult) (body : Bytes)
    (o : Outcome PartStage UploadError) :
    attempts (log ++ [(p, .storing url part body, o)]) p =
      attempts log p + 1 := by
  unfold attempts
  rw [List.countP_append, List.countP_singleton]
  simp [PartStage.storesBody]

theorem attempts_append_quiet {log : UploadLog} {p : Nat} {t : PartStage}
    (o : Outcome PartStage UploadError) (q : Nat)
    (h : t.storesBody = false) :
    attempts (log ++ [(p, t, o)]) q = attempts log q := by
  unfold attempts
  rw [List.countP_append, List.countP_singleton]
  simp [h]

theorem Uploaded.append {call : UploadCall ν ρ} {log : UploadLog} {p : Nat}
    {part : UploadedPartResult} (h : Uploaded call log p part)
    (more : UploadLog) : Uploaded call (log ++ more) p part := by
  obtain ⟨nonces, prepared, body, url, t, hprepare, hpart, hmem, ht⟩ := h
  exact ⟨nonces, prepared, body, url, t, hprepare, hpart,
    List.mem_append_left _ hmem, ht⟩

theorem Uploaded.partNumber {call : UploadCall ν ρ} {log : UploadLog}
    {p : Nat} {part : UploadedPartResult} (h : Uploaded call log p part) :
    part.plan.partNumber = p := by
  obtain ⟨nonces, prepared, body, url, t, hprepare, hpart, -⟩ := h
  rw [hpart]
  unfold preparePart at hprepare
  dsimp only at hprepare
  split at hprepare
  · cases hprepare
  · split at hprepare
    · cases hprepare
    · split at hprepare
      · cases hprepare
      · cases hprepare
        rfl

/-! ## The obligations of the pool -/

section Obligations

variable (call : UploadCall ν ρ) (Given : Nat → UploadedPartResult → Prop)

/-- Whenever `onPartUploaded` was called, the part had been put and
reported. -/
def CalledBack (log : UploadLog) : Prop :=
  ∀ before p part o after, log = before ++ (p, .resuming part, o) :: after →
    Uploaded call before p part ∧ WasReported before p part

/-- A slot for each part, and a log in which no part was put twice. -/
structure Orderly (s : Logged PartStage UploadError (UploadState ρ)) :
    Prop where
  slots : s.state.uploadedParts.length = call.plan.uploadPartCount
  once : ∀ p, attempts s.log p ≤ 1
  calledBack : CalledBack call s.log

/-- A part nobody has put: its slot is empty, or was filled before. -/
structure Unput (p : Nat)
    (s : Logged PartStage UploadError (UploadState ρ)) : Prop where
  inPlan : InPlan call p
  attempts : attempts s.log p = 0
  slot : (slot s.state.uploadedParts p).etag = "" ∨
    Given p (slot s.state.uploadedParts p)

/-- What is prepared of a part, before it is put. -/
def Prepared (p : Nat) (part : UploadedPartResult) (body : Bytes) : Prop :=
  ∃ nonces, preparePart call nonces p = .ok (part, body)

/-- What the log says of a part in each stage of its worker. -/
def InStage (p : Nat) : PartStage →
    UploadLog → Prop
  | .preparing, log => attempts log p = 0
  | .presigning part body, log =>
      attempts log p = 0 ∧ Prepared call p part body
  | .storing _ part body, log =>
      attempts log p = 0 ∧ Prepared call p part body
  | .reporting part, log => attempts log p = 1 ∧ Uploaded call log p part
  | .resuming part, log =>
      attempts log p = 1 ∧ Uploaded call log p part ∧ WasReported log p part
  | .publishing part, log => attempts log p = 1 ∧ Uploaded call log p part

/-- What the worker of a part relies on. -/
def OnItsWay (p : Nat) (t : PartStage)
    (s : Logged PartStage UploadError (UploadState ρ)) : Prop :=
  InPlan call p ∧ InStage call p t s.log

/-- A part in its slot: it was given and never put, or it was put once. -/
def Settled (p : Nat)
    (s : Logged PartStage UploadError (UploadState ρ)) : Prop :=
  InPlan call p ∧
    (Given p (slot s.state.uploadedParts p) ∧
        (slot s.state.uploadedParts p).etag ≠ "" ∧ attempts s.log p = 0 ∨
      attempts s.log p = 1 ∧
        Uploaded call s.log p (slot s.state.uploadedParts p))

end Obligations

/-! ## The obligations hold -/

section Sound

variable {call : UploadCall ν ρ} {Given : Nat → UploadedPartResult → Prop}

theorem CalledBack.nil : CalledBack call [] := by
  intro before p part o after heq
  cases before <;> cases heq

/-- The log grows: an entry for a call of `onPartUploaded` is checked, the
other ones are not. -/
theorem CalledBack.append {log : UploadLog} (h : CalledBack call log)
    {p : Nat} {t : PartStage} (o : Outcome PartStage UploadError)
    (hnew : ∀ part, t = .resuming part →
      Uploaded call log p part ∧ WasReported log p part) :
    CalledBack call (log ++ [(p, t, o)]) := by
  intro before q part o' after heq
  rcases List.eq_nil_or_concat after with rfl | ⟨rest, last, rfl⟩
  · obtain ⟨rfl, hlast⟩ := List.append_inj' heq rfl
    cases hlast
    exact hnew part rfl
  · have hlog : log ++ [(p, t, o)] =
        (before ++ (q, .resuming part, o') :: rest) ++ [last] := by
      rw [heq, List.concat_eq_append, List.append_assoc, List.cons_append]
    obtain ⟨rfl, -⟩ := List.append_inj' hlog rfl
    exact h before q part o' rest rfl

theorem InStage.append_other {p q : Nat} {u : PartStage} {log : UploadLog}
    (h : InStage call q u log) (t : PartStage)
    (o : Outcome PartStage UploadError) (hne : q ≠ p) :
    InStage call q u (log ++ [(p, t, o)]) := by
  have hattempts : attempts (log ++ [(p, t, o)]) q = attempts log q :=
    attempts_append_other t o hne
  cases u with
  | preparing => exact hattempts.trans h
  | presigning part body => exact ⟨hattempts.trans h.1, h.2⟩
  | storing url part body => exact ⟨hattempts.trans h.1, h.2⟩
  | reporting part => exact ⟨hattempts.trans h.1, h.2.append _⟩
  | resuming part =>
      exact ⟨hattempts.trans h.1, h.2.1.append _,
        List.mem_append_left _ h.2.2⟩
  | publishing part => exact ⟨hattempts.trans h.1, h.2.append _⟩

/-- The put of a part that nobody has put. -/
theorem uploaded_of_storing {p : Nat} {url etag : String}
    {prepared : UploadedPartResult} {body : Bytes} {log : UploadLog}
    {t : PartStage} (hprepared : Prepared call p prepared body)
    (ht : t = .reporting { prepared with etag := etag } ∨
      t = .publishing { prepared with etag := etag }) :
    Uploaded call (log ++ [(p, .storing url prepared body, .next t)]) p
      { prepared with etag := etag } := by
  obtain ⟨nonces, hprepare⟩ := hprepared
  exact ⟨nonces, prepared, body, url, t, hprepare, rfl,
    List.mem_append_right _ List.mem_cons_self, ht⟩

/-- The stage of a part leads from what the log says of it to what it says
next. -/
theorem InStage.next {p : Nat} {t u : PartStage} {s s' : UploadState ρ}
    {log : UploadLog} (h : InStage call p t log)
    (hstage : Stage call p t s (.next u) s') :
    InStage call p u (log ++ [(p, t, .next u)]) := by
  cases hstage with
  | prepare _ nonces part body hprepare =>
      exact ⟨(attempts_append_quiet _ p rfl).trans h, nonces, hprepare⟩
  | given _ part body =>
      exact ⟨(attempts_append_quiet _ p rfl).trans h.1, h.2⟩
  | presign _ part body url =>
      exact ⟨(attempts_append_quiet _ p rfl).trans h.1, h.2⟩
  | store _ url etag part body =>
      refine ⟨?_, uploaded_of_storing h.2 (Or.inl rfl)⟩
      rw [attempts_append_storing, h.1]
  | storeSingle _ url etag part body =>
      refine ⟨?_, uploaded_of_storing h.2 (Or.inr rfl)⟩
      rw [attempts_append_storing, h.1]
  | report _ part =>
      exact ⟨(attempts_append_quiet _ p rfl).trans h.1, h.2.append _,
        List.mem_append_right _ List.mem_cons_self⟩
  | resume _ part resume' =>
      exact ⟨(attempts_append_quiet _ p rfl).trans h.1, h.2.1.append _⟩

/-- The last stage of a part leaves it in its slot. -/
theorem InStage.done {p : Nat} {t : PartStage} {s s' : UploadState ρ}
    {log : UploadLog} (h : InStage call p t log) (hin : InPlan call p)
    (hslots : s.uploadedParts.length = call.plan.uploadPartCount)
    (hstage : Stage call p t s .done s') :
    attempts (log ++ [(p, t, .done)]) p = 1 ∧
      Uploaded call (log ++ [(p, t, .done)]) p (slot s'.uploadedParts p) := by
  cases hstage with
  | publish _ part =>
      have hslot : slot (s.uploadedParts.set (p - 1) part) p = part := by
        rw [slot_set part hin.1 (by rw [hslots]; exact hin.2) hin.1,
          if_pos rfl]
      refine ⟨(attempts_append_quiet _ p rfl).trans h.1, ?_⟩
      show Uploaded call _ p (slot (s.uploadedParts.set (p - 1) part) p)
      rw [hslot]
      exact h.2.append _

/-- No stage takes a slot away. -/
theorem Stage.slots_length {p : Nat} {t : PartStage}
    {o : Outcome PartStage UploadError} {s s' : UploadState ρ}
    (hstage : Stage call p t s o s') :
    s'.uploadedParts.length = s.uploadedParts.length := by
  cases hstage with
  | publish _ part => exact List.length_set
  | prepare | given | presign | store | storeSingle | report | resume
  | throw => rfl

/-- Every stage keeps the slots and the order of the log. -/
theorem Orderly.stage {p : Nat} {t : PartStage}
    {o : Outcome PartStage UploadError}
    {s s' : Logged PartStage UploadError (UploadState ρ)}
    (h : Orderly call s) (hlocal : OnItsWay call p t s)
    (hstage : (jobs call).logged.stage p t s o s') : Orderly call s' := by
  obtain ⟨hstate, hlog⟩ := hstage
  have hin := hlocal.2
  refine ⟨?_, ?_, ?_⟩
  · rw [Stage.slots_length hstate]
    exact h.slots
  · intro q
    rw [hlog]
    by_cases hq : q = p
    · subst hq
      cases t with
      | storing url part body =>
          rw [attempts_append_storing, hin.1]
      | preparing | presigning | reporting | resuming | publishing =>
          rw [attempts_append_quiet o q rfl]
          exact h.once q
    · rw [attempts_append_other t o hq]
      exact h.once q
  · rw [hlog]
    refine h.calledBack.append o ?_
    intro part ht
    subst ht
    exact ⟨hin.2.1, hin.2.2⟩

/-- The obligations of the pool. -/
theorem logged_sound :
    (jobs call).logged.Sound (fun _ => Orderly call) (Unput call Given)
      (OnItsWay call) (Settled call Given) := by
  refine ⟨?_, ?_, ?_, ?_, ?_, ?_, ?_, ?_, ?_⟩
  · intro m s horderly
    exact horderly
  · intro m p s _ hunput hskip
    have hetag : (slot s.state.uploadedParts p).etag ≠ "" :=
      of_decide_eq_true hskip
    rcases hunput.slot with hempty | hgiven
    · exact absurd hempty hetag
    · exact ⟨hunput.inPlan, Or.inl ⟨hgiven, hetag, hunput.attempts⟩⟩
  · intro m p s _ hunput _
    exact ⟨hunput.inPlan, hunput.attempts⟩
  · intro m p t s o s' hstage horderly hlocal _
    exact horderly.stage hlocal hstage
  · intro m p t s u s' hstage _ hlocal
    refine ⟨hlocal.1, ?_⟩
    rw [hstage.2]
    exact hlocal.2.next hstage.1
  · intro m p t s s' hstage horderly hlocal
    refine ⟨hlocal.1, Or.inr ?_⟩
    rw [hstage.2]
    exact hlocal.2.done hlocal.1 horderly.slots hstage.1
  · intro m p t s o s' hstage _ hlocal q hne hunput
    refine ⟨hunput.inPlan, ?_, ?_⟩
    · rw [hstage.2, attempts_append_other t o hne]
      exact hunput.attempts
    · rw [Stage.slot_other hstage.1 hlocal.1.1 hunput.inPlan.1 hne]
      exact hunput.slot
  · intro m p t s o s' hstage _ _ q u hne hother
    refine ⟨hother.1, ?_⟩
    rw [hstage.2]
    exact hother.2.append_other t o hne
  · intro m p t s o s' hstage _ hlocal q hne hsettled
    refine ⟨hsettled.1, ?_⟩
    rw [Stage.slot_other hstage.1 hlocal.1.1 hsettled.1.1 hne, hstage.2,
      attempts_append_other t o hne]
    rcases hsettled.2 with hgiven | ⟨hattempts, huploaded⟩
    · exact Or.inl hgiven
    · exact Or.inr ⟨hattempts, huploaded.append _⟩

end Sound

end MultipartUploader

end ArkiveSync
