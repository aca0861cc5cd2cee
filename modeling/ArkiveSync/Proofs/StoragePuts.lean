import ArkiveSync.Model.StoragePutTransport

/-!
# Every accepted upload is answered once

A request of `StoragePutTransport` moves from the queue to the batch that is
being added, on to curl, and into `finish`, or leaves this way early with an
exception.  The calls whose requests are at one of these places, or whose
promises are set, are at any time all calls that have been accepted, each once.

## Main results

* `perm_census_step`: a request moves from one place to another and is never
  lost or doubled.
* `Inv.run`: what a run keeps, including that a worker that leaves has nothing
  left to answer.
* `etagsReported_run`: an etag is answered for a transfer that curl reported as
  done with a status of 2xx, and is the etag of that transfer.
* `storage_puts_answered_once`: these together.
-/

namespace ArkiveSync.StoragePuts

open Library StoragePutTransport

/-! ## What an event does -/

/-- A worker with no request in its hands that has not left its loop. -/
def Idle : Worker → Prop
  | .adding (_ :: _) => False
  | .finishing _ _ => False
  | .leaving => False
  | .exited => False
  | _ => True

/-- The events by what they do. -/
inductive Moved (texts : CurlTexts) (s : Transport) : Event → Transport → Prop where
  | rejected (url : String) (body : Bytes) (hstopping : s.stopping = true) :
      Moved texts s (.put url body) s
  | accepted (url : String) (body : Bytes) (hstopping : s.stopping = false) :
      Moved texts s (.put url body)
        { s with
          pending := s.pending ++ [{ call := s.accepted, url := url, body := body }]
          accepted := s.accepted + 1 }
  | stopped : Moved texts s .destroy { s with stopping := true }
  | went (event : Event) (worker : Worker) (running : Int)
      (hbefore : Idle s.worker) (hafter : Idle worker)
      (hstarted : worker ≠ .starting) :
      Moved texts s event { s with running := running, worker := worker }
  | leaves (hbefore : Idle s.worker) (hstopping : s.stopping = true)
      (hpending : s.pending = []) (hactive : s.active = []) :
      Moved texts s .test { s with worker := .leaving }
  | swapped (hworker : s.worker = .looping) :
      Moved texts s .swap { s with pending := [], worker := .adding s.pending }
  | failedToAdd (request : StoragePutRequest) (batch : List StoragePutRequest)
      (added : Added) (error : PutError)
      (hworker : s.worker = .adding (request :: batch)) :
      Moved texts s (.add added)
        (answer request (.error error) { s with worker := .adding batch })
  | added (request : StoragePutRequest) (batch : List StoragePutRequest)
      (handle : Nat) (code : Int)
      (hworker : s.worker = .adding (request :: batch))
      (hnew : findKey Prod.fst handle s.active = none) :
      Moved texts s (.add (.handle handle code))
        { s with
          active := s.active ++ [(handle, request)]
          worker := .adding batch }
  | calledBack (event : Event) (handle : Nat)
      (f : StoragePutRequest → StoragePutRequest)
      (hf : ∀ request, (f request).call = request.call)
      (hworker : s.worker = .performing) :
      Moved texts s event
        { s with active := modifyFirst Prod.fst handle (Prod.map id f) s.active }
  | ignored (easyHandle : Nat) (done : Bool) (result : Nat) (status : Int)
      (hworker : s.worker = .collecting) :
      Moved texts s (.message easyHandle done result status) s
  | collected (easyHandle : Nat) (result : Nat) (status : Int)
      (found : Nat × StoragePutRequest) (hworker : s.worker = .collecting)
      (hfound : findKey Prod.fst easyHandle s.active = some found) :
      Moved texts s (.message easyHandle true result status)
        { s with
          active := eraseKey Prod.fst easyHandle s.active
          worker := .finishing found.2
            (transferError texts result status found.2) }
  | finished (request : StoragePutRequest) (error : Option PutError)
      (hworker : s.worker = .finishing request error) :
      Moved texts s .finish
        (answer request (finishAnswer request error)
          { s with worker := .collecting })
  | failed (event : Event) (error : PutError) (stopping : Bool)
      (hworker : s.worker = .starting ∧ stopping = true ∨
        s.worker = .leaving ∧ stopping = s.stopping) :
      Moved texts s event
        (failAll error { s with stopping := stopping, worker := .exited })

variable {texts : CurlTexts} {s s' : Transport}

theorem moved_add {request : StoragePutRequest}
    {requests : List StoragePutRequest} {added : Added}
    (hworker : s.worker = .adding (request :: requests))
    (h : addRequest texts request { s with worker := .adding requests } added =
      some s') : Moved texts s (.add added) s' := by
  cases added with
  | noHandle =>
      cases h
      exact .failedToAdd request requests _ _ hworker
  | noHeaders =>
      cases h
      exact .failedToAdd request requests _ _ hworker
  | handle handle code =>
      unfold addRequest at h
      dsimp only at h
      split_ifs at h with hused hcode
      · cases h
        exact .failedToAdd request requests _ _ hworker
      · cases h
        exact .added request requests handle code hworker
          (Option.not_isSome_iff_eq_none.mp hused)

theorem moved_message (hworker : s.worker = .collecting)
    (easyHandle : Nat) (done : Bool) (result : Nat) (status : Int) :
    Moved texts s (.message easyHandle done result status)
      (collectMessage texts easyHandle done result status s) := by
  unfold collectMessage
  cases done with
  | false => exact .ignored easyHandle false result status hworker
  | true =>
      rw [if_neg (by simp)]
      split
      · exact .ignored easyHandle true result status hworker
      · rename_i found hfound
        exact .collected easyHandle result status found hworker hfound

theorem moved_test (hworker : s.worker = .testing) :
    Moved texts s .test { s with worker := tested s } := by
  have hidle : Idle s.worker := by
    rw [hworker]
    trivial
  unfold tested
  split_ifs with hleaves hrunning hempty
  · exact .leaves hidle hleaves.1 hleaves.2.1 hleaves.2.2
  · exact .went _ .polling s.running hidle trivial (by simp)
  · exact .went _ .waiting s.running hidle trivial (by simp)
  · exact .went _ .looping s.running hidle trivial (by simp)

/-- An event does one of these. -/
theorem moved_of_step {event : Event} (hstep : step texts s event = some s') :
    Moved texts s event s' := by
  cases event with
  | put url body =>
      simp only [step] at hstep
      split at hstep
      next hstopping =>
          cases hstep
          exact .rejected url body hstopping
      next hstopping =>
          cases hstep
          exact .accepted url body (Bool.eq_false_iff.mpr hstopping)
  | destroy =>
      cases hstep
      exact .stopped
  | multiInit ok =>
      simp only [step] at hstep
      split at hstep
      next hworker =>
          split at hstep
          · cases hstep
            exact .went _ .looping s.running (hworker ▸ trivial) trivial (by simp)
          · cases hstep
            exact .failed _ _ true (Or.inl ⟨hworker, rfl⟩)
      next => cases hstep
  | swap =>
      simp only [step] at hstep
      split at hstep
      next hworker =>
          cases hstep
          exact .swapped hworker
      next => cases hstep
  | add added =>
      simp only [step] at hstep
      split at hstep
      next hworker => exact moved_add hworker hstep
      next => cases hstep
  | batchDone =>
      simp only [step] at hstep
      split at hstep
      next hworker =>
          cases hstep
          exact .went _ .performing s.running (hworker ▸ trivial) trivial (by simp)
      next => cases hstep
  | header handle bytes =>
      simp only [step] at hstep
      split at hstep
      next hworker =>
          cases hstep
          exact .calledBack _ handle _ (storageHeaderCallback_call bytes) hworker
      next => cases hstep
  | write handle bytes =>
      simp only [step] at hstep
      split at hstep
      next hworker =>
          cases hstep
          exact .calledBack _ handle _ (storageWriteCallback_call bytes) hworker
      next => cases hstep
  | performed running =>
      simp only [step] at hstep
      split at hstep
      next hworker =>
          cases hstep
          exact .went _ .collecting running (hworker ▸ trivial) trivial (by simp)
      next => cases hstep
  | message easyHandle done result status =>
      simp only [step] at hstep
      split at hstep
      next hworker =>
          cases hstep
          exact moved_message hworker easyHandle done result status
      next => cases hstep
  | noMessage =>
      simp only [step] at hstep
      split at hstep
      next hworker =>
          cases hstep
          exact .went _ .testing s.running (hworker ▸ trivial) trivial (by simp)
      next => cases hstep
  | finish =>
      simp only [step] at hstep
      split at hstep
      next request error hworker =>
          cases hstep
          exact .finished request error hworker
      next => cases hstep
  | test =>
      simp only [step] at hstep
      split at hstep
      next hworker =>
          cases hstep
          exact moved_test hworker
      next => cases hstep
  | polled =>
      simp only [step] at hstep
      split at hstep
      next hworker =>
          cases hstep
          exact .went _ .looping s.running (hworker ▸ trivial) trivial (by simp)
      next => cases hstep
  | wake =>
      simp only [step] at hstep
      split at hstep
      next hworker =>
          split at hstep
          · cases hstep
            exact .went _ .looping s.running (hworker ▸ trivial) trivial (by simp)
          · cases hstep
      next => cases hstep
  | leave =>
      simp only [step] at hstep
      split at hstep
      next hworker =>
          cases hstep
          exact .failed _ _ s.stopping (Or.inr ⟨hworker, rfl⟩)
      next => cases hstep

/-! ## Places -/

section Places

@[simp] theorem callsOf_nil : callsOf [] = [] := rfl

@[simp] theorem callsOf_cons (request : StoragePutRequest)
    (requests : List StoragePutRequest) :
    callsOf (request :: requests) = request.call :: callsOf requests := rfl

@[simp] theorem callsOf_append (xs ys : List StoragePutRequest) :
    callsOf (xs ++ ys) = callsOf xs ++ callsOf ys := List.map_append

/-- A callback changes a request in its place. -/
theorem callsOf_modify {f : StoragePutRequest → StoragePutRequest}
    (hf : ∀ request, (f request).call = request.call) (handle : Nat)
    (active : List (Nat × StoragePutRequest)) :
    callsOf ((modifyFirst Prod.fst handle (Prod.map id f) active).map Prod.snd) =
      callsOf (active.map Prod.snd) := by
  unfold callsOf
  rw [List.map_map, List.map_map]
  exact map_modifyFirst (fun x => hf x.2) handle active

theorem count_eraseKey {handle : Nat} {found : Nat × StoragePutRequest}
    {active : List (Nat × StoragePutRequest)}
    (h : findKey Prod.fst handle active = some found) (call : Nat) :
    (callsOf (active.map Prod.snd)).count call =
      (callsOf ((eraseKey Prod.fst handle active).map Prod.snd)).count call +
        (if found.2.call = call then 1 else 0) := by
  have hperm := ((perm_eraseKey h).map Prod.snd).map StoragePutRequest.call
  have hcount := hperm.count_eq call
  rw [List.map_cons, List.map_cons, List.count_cons] at hcount
  simpa [callsOf] using hcount

theorem batch_eq {worker : Worker} (h : s.worker = worker) :
    batch s = batch { s with worker := worker } := by
  rw [← h]

theorem inFinish_eq {worker : Worker} (h : s.worker = worker) :
    inFinish s = inFinish { s with worker := worker } := by
  rw [← h]

theorem batch_of_idle (h : Idle s.worker) : batch s = [] := by
  unfold batch
  split
  next pending hworker =>
      rw [hworker] at h
      cases pending with
      | nil => rfl
      | cons request batch => exact absurd h id
  next => rfl

theorem inFinish_of_idle (h : Idle s.worker) : inFinish s = [] := by
  unfold inFinish
  split
  next hworker =>
      rw [hworker] at h
      exact absurd h id
  next => rfl

/-- How often a call occurs anywhere. -/
theorem count_census (s : Transport) (call : Nat) :
    (census s).count call =
      (callsOf s.pending).count call + (callsOf (batch s)).count call +
        (callsOf (s.active.map Prod.snd)).count call +
        ((callsOf (inFinish s)).count call + (answered s).count call) := by
  simp only [census, held, List.count_append]

theorem answered_answer (request : StoragePutRequest) (result : Answer) :
    answered (answer request result s) = answered s ++ [request.call] := by
  simp [answered, answer]

/-- Everything that waited is answered. -/
theorem answered_failAll (error : PutError) :
    answered (failAll error s) =
      answered s ++ callsOf s.pending ++ callsOf (s.active.map Prod.snd) := by
  simp [answered, failAll, callsOf, Function.comp_def]

/-- Nothing comes in, and what leaves a place comes to another. -/
theorem perm_census {s s' : Transport}
    (h : ∀ call,
      (callsOf s'.pending).count call + (callsOf (batch s')).count call +
        (callsOf (s'.active.map Prod.snd)).count call +
        ((callsOf (inFinish s')).count call + (answered s').count call) =
      (callsOf s.pending).count call + (callsOf (batch s)).count call +
        (callsOf (s.active.map Prod.snd)).count call +
        ((callsOf (inFinish s)).count call + (answered s).count call)) :
    (census s').Perm (census s) := by
  rw [List.perm_iff_count]
  intro call
  rw [count_census, count_census]
  exact h call

/-- The places behind one event: nothing is lost, and nothing comes in but the
call that is accepted. -/
theorem perm_census_step {event : Event} (hstep : Moved texts s event s') :
    (s'.accepted = s.accepted ∧ (census s').Perm (census s)) ∨
      (s'.accepted = s.accepted + 1 ∧
        (census s').Perm (census s ++ [s.accepted])) := by
  cases hstep with
  | rejected url body => exact Or.inl ⟨rfl, List.Perm.refl _⟩
  | accepted url body =>
      refine Or.inr ⟨rfl, List.perm_iff_count.mpr ?_⟩
      intro call
      rw [List.count_append, count_census, count_census]
      simp only [callsOf_append, callsOf_cons, callsOf_nil, List.count_append]
      show _ + (callsOf (batch s)).count call + _ +
        ((callsOf (inFinish s)).count call + (answered s).count call) = _
      omega
  | stopped => exact Or.inl ⟨rfl, List.Perm.refl _⟩
  | went _ worker running hbefore hafter =>
      refine Or.inl ⟨rfl, perm_census ?_⟩
      intro call
      rw [batch_of_idle hbefore, inFinish_of_idle hbefore,
        batch_of_idle (s := { s with running := running, worker := worker }) hafter,
        inFinish_of_idle
          (s := { s with running := running, worker := worker }) hafter]
      rfl
  | leaves hbefore =>
      refine Or.inl ⟨rfl, perm_census ?_⟩
      intro call
      rw [batch_of_idle hbefore, inFinish_of_idle hbefore]
      rfl
  | swapped hworker =>
      refine Or.inl ⟨rfl, perm_census ?_⟩
      intro call
      simp only [batch, inFinish, hworker, callsOf_nil, List.count_nil]
      show _ + ((0 : Nat) + (answered s).count call) = _
      omega
  | failedToAdd request requests _ error hworker =>
      have hbatch : batch s = request :: requests := batch_eq hworker
      have hfinish : inFinish s = [] := inFinish_eq hworker
      refine Or.inl ⟨rfl, perm_census ?_⟩
      intro call
      rw [answered_answer, hbatch, hfinish]
      simp only [answer, batch, inFinish, answered, callsOf_nil, callsOf_cons,
        List.count_append, List.count_nil, List.count_cons]
      omega
  | added request requests handle code hworker =>
      have hbatch : batch s = request :: requests := batch_eq hworker
      have hfinish : inFinish s = [] := inFinish_eq hworker
      refine Or.inl ⟨rfl, perm_census ?_⟩
      intro call
      rw [hbatch, hfinish]
      simp only [batch, inFinish, answered, callsOf_nil, callsOf_cons,
        callsOf_append, List.map_append, List.map_cons, List.map_nil,
        List.count_append, List.count_nil, List.count_cons]
      omega
  | calledBack _ handle f hf =>
      refine Or.inl ⟨rfl, perm_census ?_⟩
      intro call
      rw [callsOf_modify hf]
      rfl
  | ignored => exact Or.inl ⟨rfl, List.Perm.refl _⟩
  | collected easyHandle result status found hworker hfound =>
      have hbatch : batch s = [] := batch_eq hworker
      have hfinish : inFinish s = [] := inFinish_eq hworker
      refine Or.inl ⟨rfl, perm_census ?_⟩
      intro call
      rw [hbatch, hfinish, count_eraseKey hfound call]
      simp only [batch, inFinish, answered, callsOf_nil, callsOf_cons,
        List.count_nil, List.count_cons, beq_iff_eq]
      omega
  | finished request error hworker =>
      have hbatch : batch s = [] := batch_eq hworker
      have hfinish : inFinish s = [request] := inFinish_eq hworker
      refine Or.inl ⟨rfl, perm_census ?_⟩
      intro call
      rw [answered_answer, hbatch, hfinish]
      simp only [answer, batch, inFinish, answered, callsOf_nil, callsOf_cons,
        List.count_nil, List.count_append, List.count_cons]
      omega
  | failed _ error stopping hworker =>
      have hnone : batch s = [] ∧ inFinish s = [] := by
        rcases hworker with h | h
        · exact ⟨batch_eq h.1, inFinish_eq h.1⟩
        · exact ⟨batch_eq h.1, inFinish_eq h.1⟩
      refine Or.inl ⟨rfl, perm_census ?_⟩
      intro call
      rw [answered_failAll, hnone.1, hnone.2]
      simp only [failAll, batch, inFinish, answered, callsOf_nil, List.map_nil,
        List.count_append, List.count_nil]
      omega

end Places

/-! ## Runs -/

/-- Whatever has been accepted is at one place; a worker that leaves its loop
leaves nothing behind, and nothing more comes in. -/
structure Inv (s : Transport) : Prop where
  census : (census s).Perm (List.range s.accepted)
  left : s.worker = .leaving ∨ s.worker = .exited →
    s.stopping = true ∧ s.pending = [] ∧ s.active = []

theorem inv_start : Inv start := by
  refine ⟨List.Perm.refl _, ?_⟩
  intro h
  rcases h with h | h <;> cases h

theorem not_left_of_idle {worker : Worker} (h : Idle worker) :
    ¬ (worker = .leaving ∨ worker = .exited) := by
  rintro (rfl | rfl)
  · exact h
  · exact h

/-- A worker that leaves leaves nothing behind. -/
theorem left_step {event : Event} (hstep : Moved texts s event s')
    (h : s.worker = .leaving ∨ s.worker = .exited →
      s.stopping = true ∧ s.pending = [] ∧ s.active = [])
    (hleft : s'.worker = .leaving ∨ s'.worker = .exited) :
    s'.stopping = true ∧ s'.pending = [] ∧ s'.active = [] := by
  cases hstep with
  | rejected => exact h hleft
  | accepted url body hstopping =>
      rw [(h hleft).1] at hstopping
      cases hstopping
  | stopped => exact ⟨rfl, (h hleft).2⟩
  | went _ worker running hbefore hafter => exact absurd hleft (not_left_of_idle hafter)
  | leaves hbefore hstopping hpending hactive =>
      exact ⟨hstopping, hpending, hactive⟩
  | failed _ error stopping hworker =>
      refine ⟨?_, rfl, rfl⟩
      rcases hworker with ⟨-, hstopping⟩ | ⟨hleaving, hstopping⟩
      · exact hstopping
      · exact hstopping.trans (h (Or.inl hleaving)).1
  | ignored => exact h hleft
  | calledBack _ handle f hf hworker =>
      rcases hleft with hleft | hleft <;> cases hworker.symm.trans hleft
  | swapped => rcases hleft with hleft | hleft <;> cases hleft
  | failedToAdd => rcases hleft with hleft | hleft <;> cases hleft
  | added => rcases hleft with hleft | hleft <;> cases hleft
  | collected => rcases hleft with hleft | hleft <;> cases hleft
  | finished => rcases hleft with hleft | hleft <;> cases hleft

theorem Inv.step {event : Event} (hinv : Inv s)
    (hstep : Moved texts s event s') : Inv s' := by
  refine ⟨?_, left_step hstep hinv.left⟩
  rcases perm_census_step hstep with ⟨haccepted, hperm⟩ | ⟨haccepted, hperm⟩
  · rw [haccepted]
    exact hperm.trans hinv.census
  · rw [haccepted, List.range_succ]
    exact hperm.trans (hinv.census.append_right _)

theorem Inv.run {events : List Event} (hinv : Inv s)
    (hrun : StoragePutTransport.run texts s events = some s') : Inv s' :=
  runEvents_induction (P := fun _ s => Inv s) hinv
    (fun _ _ _ _ _ hbefore hstep => hbefore.step (moved_of_step hstep)) hrun

/-- A promise that is set stays as it is. -/
theorem answers_step {event : Event} (hstep : Moved texts s event s') :
    s.answers <+: s'.answers := by
  cases hstep with
  | failedToAdd => exact List.prefix_append _ _
  | finished => exact List.prefix_append _ _
  | failed => exact List.prefix_append _ _
  | _ => exact List.prefix_refl _

theorem answers_run {events : List Event}
    (hrun : StoragePutTransport.run texts s events = some s') :
    s.answers <+: s'.answers := by
  refine runEvents_induction (P := fun _ t => s.answers <+: t.answers)
    (List.prefix_refl _) ?_ hrun
  intro _ a event b _ hbefore hstep
  exact hbefore.trans (answers_step (moved_of_step hstep))

/-! ## Etags -/

/-- curl has reported the transfer of this request as done, with a status of
2xx. -/
def Reported (texts : CurlTexts) (events : List Event)
    (request : StoragePutRequest) : Prop :=
  ∃ before handle status after mid,
    events = before ++ .message handle true CURLE_OK status :: after ∧
      StoragePutTransport.run texts start before = some mid ∧
      (findKey Prod.fst handle mid.active).map Prod.snd = some request ∧
      200 ≤ status ∧ status < 300

theorem Reported.append {events : List Event} {request : StoragePutRequest}
    (h : Reported texts events request) (more : List Event) :
    Reported texts (events ++ more) request := by
  obtain ⟨before, handle, status, after, mid, hevents, hrest⟩ := h
  refine ⟨before, handle, status, after ++ more, mid, ?_, hrest⟩
  rw [hevents, List.append_assoc, List.cons_append]

/-- Every etag that is or will be answered has been reported. -/
structure EtagsReported (texts : CurlTexts) (events : List Event)
    (s : Transport) : Prop where
  answered : ∀ call etag, (call, .ok etag) ∈ s.answers →
    ∃ request, Reported texts events request ∧ request.call = call ∧
      request.etag = etag
  finishing : ∀ request, s.worker = .finishing request none →
    Reported texts events request

theorem transferError_eq_none {result : Nat} {status : Int}
    {request : StoragePutRequest}
    (h : transferError texts result status request = none) :
    result = CURLE_OK ∧ 200 ≤ status ∧ status < 300 := by
  unfold transferError at h
  split_ifs at h with hresult hstatus
  refine ⟨not_not.mp hresult, ?_⟩
  omega

theorem finishAnswer_eq_ok {request : StoragePutRequest}
    {error : Option PutError} {etag : Bytes}
    (h : finishAnswer request error = .ok etag) :
    error = none ∧ request.etag = etag := by
  cases error with
  | some error => cases h
  | none =>
      cases h
      exact ⟨rfl, rfl⟩

theorem etagsReported_step {events : List Event} {event : Event}
    (hrun : StoragePutTransport.run texts start events = some s)
    (h : EtagsReported texts events s) (hstep : Moved texts s event s') :
    EtagsReported texts (events ++ [event]) s' := by
  have hanswered : ∀ call etag, (call, Except.ok etag) ∈ s.answers →
      ∃ request, Reported texts (events ++ [event]) request ∧
        request.call = call ∧ request.etag = etag := by
    intro call etag hmem
    obtain ⟨request, hreported, hrequest⟩ := h.answered call etag hmem
    exact ⟨request, hreported.append [event], hrequest⟩
  have hfinishing : ∀ request, s.worker = .finishing request none →
      Reported texts (events ++ [event]) request := by
    intro request hworker
    exact (h.finishing request hworker).append [event]
  cases hstep with
  | rejected => exact ⟨hanswered, hfinishing⟩
  | accepted => exact ⟨hanswered, hfinishing⟩
  | stopped => exact ⟨hanswered, hfinishing⟩
  | calledBack => exact ⟨hanswered, hfinishing⟩
  | ignored => exact ⟨hanswered, hfinishing⟩
  | went _ worker running hbefore hafter =>
      refine ⟨hanswered, ?_⟩
      rintro request rfl
      exact absurd hafter id
  | leaves => exact ⟨hanswered, fun _ hworker => by cases hworker⟩
  | swapped => exact ⟨hanswered, fun _ hworker => by cases hworker⟩
  | added => exact ⟨hanswered, fun _ hworker => by cases hworker⟩
  | failedToAdd =>
      refine ⟨?_, fun _ hworker => by cases hworker⟩
      intro call etag hmem
      rcases List.mem_append.mp hmem with hold | hnew
      · exact hanswered call etag hold
      · cases List.mem_singleton.mp hnew
  | collected easyHandle result status found hworker hfound =>
      refine ⟨hanswered, ?_⟩
      intro request hfinish
      injection hfinish with hrequest herror
      obtain ⟨rfl, hstatus⟩ := transferError_eq_none herror
      refine ⟨events, easyHandle, status, [], s, rfl, hrun, ?_, hstatus⟩
      rw [hfound, Option.map_some, hrequest]
  | finished request error hworker =>
      refine ⟨?_, fun _ hworker => by cases hworker⟩
      intro call etag hmem
      rcases List.mem_append.mp hmem with hold | hnew
      · exact hanswered call etag hold
      · injection List.mem_singleton.mp hnew with hcall hresult
        obtain ⟨rfl, hetag⟩ := finishAnswer_eq_ok hresult.symm
        exact ⟨request, hfinishing request hworker, hcall.symm, hetag⟩
  | failed =>
      refine ⟨?_, fun _ hworker => by cases hworker⟩
      intro call etag hmem
      rcases List.mem_append.mp hmem with hold | hnew
      · exact hanswered call etag hold
      · obtain ⟨_, -, heq⟩ := List.mem_map.mp hnew
        cases heq

theorem etagsReported_run {events : List Event}
    (hrun : StoragePutTransport.run texts start events = some s) :
    EtagsReported texts events s := by
  refine runEvents_induction (P := EtagsReported texts) ?_ ?_ hrun
  · refine ⟨?_, ?_⟩
    · intro call etag hmem
      cases hmem
    · intro request hworker
      cases hworker
  · intro events a event b hbefore h hstep
    exact etagsReported_step hbefore h (moved_of_step hstep)

/-! ## The transport -/

/-- A number that occurs once in a census is at one place, once. -/
theorem one_place {call : Nat} (h : (census s).count call = 1) :
    ∃ place, (held s place).count call = 1 ∧
      ∀ other, other ≠ place → call ∉ held s other := by
  have hsum : (held s .pending).count call + (held s .batch).count call +
      (held s .active).count call + (held s .finished).count call = 1 := by
    rw [← h]
    simp only [census, List.count_append]
  have hothers : ∀ place, (held s place).count call = 1 →
      ∀ other, other ≠ place → call ∉ held s other := by
    intro place hone other hne hmem
    have hpos := List.count_pos_iff.mpr hmem
    cases place <;> cases other <;> first | exact hne rfl | omega
  by_cases hpending : (held s .pending).count call = 1
  · exact ⟨.pending, hpending, hothers _ hpending⟩
  · by_cases hbatch : (held s .batch).count call = 1
    · exact ⟨.batch, hbatch, hothers _ hbatch⟩
    · by_cases hactive : (held s .active).count call = 1
      · exact ⟨.active, hactive, hothers _ hactive⟩
      · have hfinished : (held s .finished).count call = 1 := by omega
        exact ⟨.finished, hfinished, hothers _ hfinished⟩

theorem Inv.count_census (hinv : Inv s) (call : Nat) :
    (StoragePutTransport.census s).count call =
      if call < s.accepted then 1 else 0 := by
  rw [hinv.census.count_eq, List.count_range]

/-- A call that is nowhere else has been answered. -/
theorem Inv.answered_of_exited (hinv : Inv s) (hworker : s.worker = .exited)
    {call : Nat} (hcall : call < s.accepted) : call ∈ answered s := by
  have hcount := hinv.count_census call
  rw [if_pos hcall, StoragePuts.count_census] at hcount
  obtain ⟨-, hpending, hactive⟩ := hinv.left (Or.inr hworker)
  have hbatch : batch s = [] := batch_eq hworker
  have hfinish : inFinish s = [] := inFinish_eq hworker
  rw [hpending, hactive, hbatch, hfinish] at hcount
  simp only [List.map_nil, callsOf_nil, List.count_nil, Nat.zero_add] at hcount
  exact List.count_pos_iff.mp (by omega)

/-- In every run of callers, the destructor, the worker and whatever curl
returns to it: an accepted request is at one of the four places and there once;
its promise is set at most once and is set when `finish` is done with it; an
etag is answered only for a transfer that curl has reported with a status of
2xx; and when the worker has exited every accepted request is answered, and
no other will be accepted. -/
theorem storage_puts_answered_once (texts : CurlTexts) (events : List Event)
    (s : Transport) (hrun : run texts start events = some s) :
    (∀ call < s.accepted, ∃ place, (held s place).count call = 1 ∧
      ∀ other, other ≠ place → call ∉ held s other) ∧
    (∀ call place, call ∈ held s place → call < s.accepted) ∧
    (∀ call, (answered s).count call ≤ 1) ∧
    (∀ call ∈ held s .finished, call ∈ answered s ∨
      ∃ request error, s.worker = .finishing request error ∧
        request.call = call) ∧
    (∀ more s', run texts s more = some s' → s.answers <+: s'.answers) ∧
    (∀ call etag, (call, .ok etag) ∈ s.answers →
      ∃ before handle status after mid request,
        events = before ++ .message handle true CURLE_OK status :: after ∧
          run texts start before = some mid ∧
          (findKey Prod.fst handle mid.active).map Prod.snd = some request ∧
          200 ≤ status ∧ status < 300 ∧
          request.call = call ∧ request.etag = etag) ∧
    (s.worker = .exited →
      (∀ call < s.accepted, ∃ result, (call, result) ∈ s.answers) ∧
        ∀ url body, step texts s (.put url body) = some s) := by
  have hinv : Inv s := inv_start.run hrun
  have hcount := hinv.count_census
  refine ⟨?_, ?_, ?_, ?_, ?_, ?_, ?_⟩
  · intro call hcall
    exact one_place (by rw [hcount, if_pos hcall])
  · intro call place hmem
    by_contra hnot
    have hnone := hcount call
    rw [if_neg hnot, List.count_eq_zero] at hnone
    refine hnone ?_
    simp only [census, List.mem_append]
    cases place with
    | pending => exact Or.inl (Or.inl (Or.inl hmem))
    | batch => exact Or.inl (Or.inl (Or.inr hmem))
    | active => exact Or.inl (Or.inr hmem)
    | finished => exact Or.inr hmem
  · intro call
    have hall := hcount call
    rw [count_census] at hall
    split_ifs at hall <;> omega
  · intro call hmem
    rcases List.mem_append.mp hmem with hfinish | hanswered
    · unfold inFinish at hfinish
      split at hfinish
      next request error hworker =>
          have hcall := List.mem_singleton.mp hfinish
          exact Or.inr ⟨request, error, hworker, hcall.symm⟩
      next => cases hfinish
    · exact Or.inl hanswered
  · intro more s' hmore
    exact answers_run hmore
  · intro call etag hmem
    obtain ⟨request, hreported, hcall, hetag⟩ :=
      (etagsReported_run hrun).answered call etag hmem
    obtain ⟨before, handle, status, after, mid, hevents, hbefore, hfound,
      hlow, hhigh⟩ := hreported
    exact ⟨before, handle, status, after, mid, request, hevents, hbefore,
      hfound, hlow, hhigh, hcall, hetag⟩
  · intro hworker
    refine ⟨?_, ?_⟩
    · intro call hcall
      have hanswered := hinv.answered_of_exited hworker hcall
      obtain ⟨⟨_, result⟩, hmem, rfl⟩ := List.mem_map.mp hanswered
      exact ⟨result, hmem⟩
    · intro url body
      simp only [step]
      rw [if_pos (hinv.left (Or.inr hworker)).1]

/-- Two uploads: curl has no handle for one, and takes the other; then the
transport is destroyed. -/
def twoUploads : List Event :=
  [.put "https://a" [1], .multiInit true, .put "https://b" [2], .swap,
    .add .noHandle, .add (.handle 7 CURLM_OK), .batchDone,
    .header 7 [69, 84, 97, 103, 58, 32, 120, 13, 10], .performed 0,
    .message 7 true CURLE_OK 200, .finish, .destroy, .put "https://c" [3],
    .noMessage, .test, .leave]

/-- `curl_easy_strerror` and `curl_multi_strerror` for a few codes. -/
def someTexts : CurlTexts where
  multiStrerror code := if code = 0 then "No error" else "Unknown error"
  easyStrerror result := if result = 0 then "No error" else "Unknown error"

theorem storage_puts_answered_once_twoUploads :
    ∃ s, run someTexts start twoUploads = some s ∧ s.accepted = 2 ∧
      s.worker = .exited ∧
      (∀ call < 2, ∃ result, (call, result) ∈ s.answers) ∧
      (1, .ok [120]) ∈ s.answers := by
  refine ⟨_, rfl, rfl, rfl, ?_, ?_⟩
  · exact ((storage_puts_answered_once someTexts twoUploads _ rfl).2.2.2.2.2.2
      rfl).1
  · exact List.mem_of_getElem? (i := 1) rfl

end ArkiveSync.StoragePuts
