import ArkiveSync.Proofs.DaemonCalls

/-!
# How the server ends

The loop of `serve` is left when the program stops the server, or behind the
answer to a request to stop; and the process is killed when it writes to a
client that is gone.  `Told` says that a request to stop has been answered in
full: then nothing is handled any more.

## Main results

* `Last.step`, `Causes.step`, `Explained.step`, `Requests.step`: one step of any
  process.
* `serve_loop_ends`: what ends the server, what asks the daemon to stop, and
  what a client knows whose request to stop has been answered.
-/

namespace ArkiveSync.ServeLoop

open DaemonIpc DaemonConnections DaemonCalls

variable {codec : Codec} {host : Ipc.ByteOrder}

/-! ## A request to stop -/

/-- The handler asks the daemon to stop exactly for a request of its own
version. -/
theorem requestsStop_iff (request : Request) :
    requestsStop request = true ↔
      request.protocolVersion = kProtocolVersion ∧ request.command = .stop := by
  unfold requestsStop commandOf
  by_cases hversion : isSupportedProtocolVersion request.protocolVersion = true
  · have hsame : request.protocolVersion = kProtocolVersion :=
      beq_iff_eq.mp hversion
    rw [hversion]
    cases hcommand : request.command <;> simp [hsame]
  · have hother : request.protocolVersion ≠ kProtocolVersion :=
      fun hsame => hversion (beq_iff_eq.mpr hsame)
    simp [hversion, hother]

/-- A request to stop has been handled on the connection. -/
def Asked (call : Call) : Prop :=
  ∃ request response, call.answer = some (request, response) ∧
    request.command = .stop

/-- It has been answered in full. -/
def Told (codec : Codec) (call : Call) : Prop :=
  Asked call ∧ replies codec call ≠ [] ∧ call.turn = .closed ∧
    call.toClient.writer = .idle

/-- The handler has called `requestStop` on the connection. -/
def Requested (call : Call) : Prop :=
  ∃ request response, call.answer = some (request, response) ∧
    requestsStop request = true

section Calls

variable {call call' : Call} {event : Ipc.Event} {next : Next}

theorem told_of_returned {request : Request} {response : Response}
    (h : CallOk codec call) (hclient : call.client = .returned response)
    (hrequest : call.request = some request) (hstop : request.command = .stop) :
    Told codec call := by
  have hreturned := h.client
  rw [hclient] at hreturned
  obtain ⟨hclosed, hidle, hreceived, request', hanswer⟩ := hreturned
  have hsame : request' = request := by
    have hmade := (h.answer request' response hanswer).1
    exact Option.some.inj (hmade.symm.trans hrequest)
  refine ⟨⟨request', response, hanswer, hsame ▸ hstop⟩, ?_, hclosed, hidle⟩
  intro hnone
  obtain ⟨rest, hmessages, -⟩ := h.toClient.inv.outstanding
  rw [hnone] at hmessages
  exact hreceived (List.append_eq_nil_iff.mp hmessages.symm).1

/-- A connection that the server has not taken does not become one on which it
has answered when all are closed. -/
theorem told_hangUp (h : CallOk codec call) (hidle : Idle call)
    (htold : Told codec { call with turn := .closed }) : Told codec call := by
  rcases hidle with hwaiting | hclosed
  · have hturn := h.turn
    rw [hwaiting] at hturn
    obtain ⟨request, response, hanswer, -⟩ := htold.1
    rw [show call.answer = none from hturn.1] at hanswer
    cases hanswer
  · exact ⟨htold.1, htold.2.1, hclosed, htold.2.2.2⟩

/-- The client's steps do not change what the server has done. -/
theorem told_clientStep (h : clientStep codec host call event = some call')
    (htold : Told codec call') : Told codec call := by
  obtain ⟨hturn, hanswer, -, hwriter⟩ := clientStep_keeps h
  obtain ⟨hasked, hreplies, hclosed, hidle⟩ := htold
  rw [Asked, hanswer] at hasked
  rw [replies, hanswer] at hreplies
  exact ⟨hasked, hreplies, hturn ▸ hclosed, hwriter ▸ hidle⟩

/-- Behind the whole answer to a request to stop, the server leaves its
loop. -/
theorem told_serverStep (hcodec : codec.Faithful) (h : CallOk codec call)
    (hstep : serverStep codec host call event = some (call', next))
    (htold : Told codec call') : next = .stop := by
  obtain ⟨⟨request, response, hanswer, hstop⟩, -, -, hidle⟩ := htold
  rcases serverStep_cases hstep with
    ⟨hturn, hevent, connection, hmoved, hnext⟩ |
    ⟨sent, hturn, hevent, -, connection, hmoved, hnext⟩ |
    ⟨sent, hturn, -, -, rfl, -⟩
  · obtain ⟨-, -, -, hnone, -⟩ :=
      h.serverReceived hcodec hturn hevent hmoved hnext
    rw [hnone] at hanswer
    cases hanswer
  · obtain ⟨-, -, -, hsame, -, -, hlast⟩ :=
      h.serverSent hturn hevent hmoved hnext
    have hsending := h.turn
    rw [hturn] at hsending
    obtain ⟨⟨response', hanswer'⟩, -⟩ := hsending
    rw [hsame, hanswer'] at hanswer
    cases hanswer
    exact hlast hidle hstop
  · have hsending := h.turn
    rw [hturn] at hsending
    exact absurd hidle hsending.2.1

/-- What the server has not sent has not been answered. -/
theorem told_handle {outcome : Except String Response}
    (hstep : handle codec host outcome call = some (call', next)) :
    ¬ Told codec call' := by
  intro htold
  unfold handle at hstep
  cases hturn : call.turn with
  | handling request =>
      rw [hturn] at hstep
      dsimp only at hstep
      cases hsend : (codec.serializeResponse (respond outcome request)).bind
          (Ipc.send host) with
      | none =>
          rw [hsend] at hstep
          cases hstep
          exact htold.2.1 (begun_of_send_none hsend)
      | some writer =>
          rw [hsend] at hstep
          cases hstep
          cases htold.2.2.1
  | waiting =>
      rw [hturn] at hstep
      cases hstep
  | receiving =>
      rw [hturn] at hstep
      cases hstep
  | sending request =>
      rw [hturn] at hstep
      cases hstep
  | closed =>
      rw [hturn] at hstep
      cases hstep

/-- The loop is left behind an answer. -/
theorem serverStep_stop
    (h : serverStep codec host call event = some (call', .stop)) :
    ∃ request, call.turn = .sending request := by
  rcases serverStep_cases h with ⟨-, -, connection, -, hnext⟩ |
    ⟨request, hturn, -⟩ | ⟨request, hturn, -⟩
  · unfold serverReceived at hnext
    split at hnext
    next => split at hnext <;> cases hnext
    next => split at hnext <;> cases hnext
  · exact ⟨request, hturn⟩
  · exact ⟨request, hturn⟩

/-- The server goes on with the answer that it has begun. -/
theorem serverStep_sending {request : Request}
    (h : serverStep codec host call event = some (call', next))
    (hturn : call'.turn = .sending request) : call.turn = .sending request := by
  rcases serverStep_cases h with ⟨hbefore, -, connection, -, hnext⟩ |
    ⟨sent, hbefore, -, -, connection, -, hnext⟩ | ⟨sent, -, -, -, rfl, -⟩
  · unfold serverReceived at hnext
    split at hnext
    next => split at hnext <;> (cases hnext; cases hturn)
    next =>
      split at hnext
      next => cases hnext; cases hturn
      next => cases hnext; cases hturn
      next =>
        cases hnext
        exact hturn
  · unfold serverSent at hnext
    split at hnext
    next => cases hnext; cases hturn
    next => cases hnext; cases hturn
    next =>
      cases hnext
      exact hturn
  · cases hturn

/-- The loop is left, or the process killed, on a connection that has been
answered. -/
theorem serverStep_next (hcodec : codec.Faithful) (h : CallOk codec call)
    (hstep : serverStep codec host call event = some (call', next)) :
    (next = .stop → Asked call') ∧
      (next = .die → ¬ call.client.Open ∧ ∃ request, call.turn = .sending request) := by
  rcases serverStep_cases hstep with
    ⟨hturn, hevent, connection, hmoved, hnext⟩ |
    ⟨sent, hturn, hevent, -, connection, hmoved, hnext⟩ |
    ⟨sent, hturn, -, hgone, rfl, rfl⟩
  · obtain ⟨-, -, -, -, hstay | hloop⟩ :=
      h.serverReceived hcodec hturn hevent hmoved hnext
    · subst hstay
      exact ⟨by simp, by simp⟩
    · subst hloop
      exact ⟨by simp, by simp⟩
  · obtain ⟨-, -, -, hanswer, hdie, hstop, -⟩ :=
      h.serverSent hturn hevent hmoved hnext
    have hsending := h.turn
    rw [hturn] at hsending
    obtain ⟨⟨response, hsome⟩, -⟩ := hsending
    refine ⟨?_, fun h => absurd h hdie⟩
    intro hleft
    exact ⟨sent, response, hanswer.trans hsome, hstop hleft⟩
  · exact ⟨by simp, fun _ => ⟨hgone, sent, hturn⟩⟩

end Calls

/-! ## Behind a step of the server -/

section Proceed

variable {s : System} {i : Nat} {call : Call} {next : Next}

@[simp] theorem proceed_handled (s : System) (next : Next) :
    (proceed s next).handled = s.handled := by
  cases next with
  | loop =>
      show (loopHead s).handled = _
      unfold loopHead
      split <;> rfl
  | stay => rfl
  | stop => rfl
  | die => rfl

@[simp] theorem proceed_stopRequested (s : System) (next : Next) :
    (proceed s next).stopRequested = s.stopRequested := by
  cases next with
  | loop =>
      show (loopHead s).stopRequested = _
      unfold loopHead
      split <;> rfl
  | stay => rfl
  | stop => rfl
  | die => rfl

theorem hangUp_calls {server : Server}
    (h : (hangUp server s).calls[i]? = some call) :
    ∃ before, s.calls[i]? = some before ∧
      call = { before with turn := .closed } := by
  rw [getElem_hangUp] at h
  obtain ⟨before, hbefore, heq⟩ := Option.map_eq_some_iff.mp h
  exact ⟨before, hbefore, heq.symm⟩

theorem loopHead_calls (h : (loopHead s).calls[i]? = some call) :
    ∃ before, s.calls[i]? = some before ∧
      (call = before ∨ call = { before with turn := .closed }) := by
  unfold loopHead at h
  split at h
  · obtain ⟨before, hbefore, hcall⟩ := hangUp_calls h
    exact ⟨before, hbefore, Or.inr hcall⟩
  · exact ⟨call, h, Or.inl rfl⟩

/-- A connection is closed at most. -/
theorem proceed_calls (h : (proceed s next).calls[i]? = some call) :
    ∃ before, s.calls[i]? = some before ∧
      (call = before ∨
        (next ≠ .stay ∧ call = { before with turn := .closed })) := by
  cases next with
  | stay => exact ⟨call, h, Or.inl rfl⟩
  | loop =>
      obtain ⟨before, hbefore, hcall⟩ := loopHead_calls h
      exact ⟨before, hbefore, hcall.imp_right (fun hc => ⟨by simp, hc⟩)⟩
  | stop =>
      obtain ⟨before, hbefore, hcall⟩ :=
        hangUp_calls (s := { s with stopping := true }) h
      exact ⟨before, hbefore, Or.inr ⟨by simp, hcall⟩⟩
  | die =>
      obtain ⟨before, hbefore, hcall⟩ := hangUp_calls h
      exact ⟨before, hbefore, Or.inr ⟨by simp, hcall⟩⟩

theorem proceed_ended (h : (proceed s next).server = .ended)
    (hs : s.server ≠ .ended) : (proceed s next).stopping = true ∧
      (s.stopping = true ∨ next = .stop) := by
  cases next with
  | stay => exact absurd h hs
  | loop =>
      change (loopHead s).server = .ended at h
      show (loopHead s).stopping = true ∧ _
      unfold loopHead at h ⊢
      by_cases hstopping : s.stopping = true
      · rw [if_pos hstopping]
        exact ⟨hstopping, Or.inl hstopping⟩
      · rw [if_neg hstopping] at h
        cases h
  | stop => exact ⟨rfl, Or.inr rfl⟩
  | die => cases h

end Proceed

/-! ## The last answer -/

/-- A request to stop that has been answered was the last one, and the server
has ended; the request that is being answered is the last one so far. -/
structure Last (codec : Codec) (s : System) : Prop where
  told : ∀ (i : Nat) call, s.calls[i]? = some call → Told codec call →
    s.server = .ended ∧ s.handled.getLast? = some i
  sending : ∀ (i : Nat) call request, s.calls[i]? = some call →
    call.turn = .sending request → s.handled.getLast? = some i

section Last

variable {s s' : System} {i : Nat} {call call' : Call} {next : Next}

theorem last_start : Last codec start :=
  ⟨fun i call h => by simp [start] at h,
    fun i call request h => by simp [start] at h⟩

/-- A step that does not concern the server. -/
theorem Last.set (h : Last codec s) (hcall : s.calls[i]? = some call)
    (htold : Told codec call' → Told codec call)
    (hturn : call'.turn = call.turn) :
    Last codec { s with calls := s.calls.set i call' } := by
  constructor
  · intro j other hother hj
    rcases set_cases hcall hother with ⟨rfl, rfl⟩ | ⟨-, hother⟩
    · exact h.told j call hcall (htold hj)
    · exact h.told j other hother hj
  · intro j other request hother hj
    rcases set_cases hcall hother with ⟨rfl, rfl⟩ | ⟨-, hother⟩
    · exact h.sending j call request hcall (hturn.symm.trans hj)
    · exact h.sending j other request hother hj

theorem Last.append (h : Last codec s) (hturn : call.turn = .waiting) :
    Last codec { s with calls := s.calls ++ [call] } := by
  constructor
  · intro j other hother hj
    rcases append_cases hother with hother | rfl
    · exact h.told j other hother hj
    · rw [Told, hturn] at hj
      cases hj.2.2.1
  · intro j other request hother hj
    rcases append_cases hother with hother | rfl
    · exact h.sending j other request hother hj
    · rw [hturn] at hj
      cases hj

/-- Behind what the server has done with the connection that it has. -/
theorem last_proceed (hcall : s.calls[i]? = some call)
    (hserved : Served call next)
    (htold : Told codec call → next = .stop ∧ s.handled.getLast? = some i)
    (hsending : ∀ request, call.turn = .sending request →
      s.handled.getLast? = some i)
    (hothers : ∀ (j : Nat) other, s.calls[j]? = some other → j ≠ i →
      CallOk codec other ∧ Idle other ∧ ¬ Told codec other) :
    Last codec (proceed s next) := by
  constructor
  · intro j other hother hj
    obtain ⟨before, hbefore, hclosed⟩ := proceed_calls hother
    by_cases hsame : j = i
    · subst hsame
      rw [hcall] at hbefore
      cases hbefore
      have hagain : Told codec call := by
        rcases hclosed with rfl | ⟨hne, rfl⟩
        · exact hj
        · exact ⟨hj.1, hj.2.1, hserved.close hne, hj.2.2.2⟩
      obtain ⟨rfl, hlast⟩ := htold hagain
      exact ⟨rfl, hlast⟩
    · obtain ⟨hok, hidle, hnot⟩ := hothers j before hbefore hsame
      rcases hclosed with rfl | ⟨-, rfl⟩
      · exact absurd hj hnot
      · exact absurd (told_hangUp hok hidle hj) hnot
  · intro j other request hother hj
    obtain ⟨before, hbefore, hclosed⟩ := proceed_calls hother
    rw [proceed_handled]
    by_cases hsame : j = i
    · subst hsame
      rw [hcall] at hbefore
      cases hbefore
      rcases hclosed with rfl | ⟨-, rfl⟩
      · exact hsending request hj
      · cases hj
    · obtain ⟨-, hidle, -⟩ := hothers j before hbefore hsame
      rcases hclosed with rfl | ⟨-, rfl⟩
      · rcases hidle with hwaiting | hclosed
        · rw [hwaiting] at hj
          cases hj
        · rw [hclosed] at hj
          cases hj
      · cases hj

/-- The connections beside the one that is served. -/
theorem others_of_serving (hinv : Inv codec s) (h : Last codec s)
    (hserver : s.server = .serving i) {j : Nat} {other : Call}
    (hother : s.calls[j]? = some other) (hj : j ≠ i) :
    CallOk codec other ∧ Idle other ∧ ¬ Told codec other := by
  refine ⟨hinv.calls j other hother, ?_, ?_⟩
  · refine hinv.idle j other hother ?_
    intro hsame
    exact hj (Server.serving.inj (hsame.symm.trans hserver))
  · intro htold
    cases (h.told j other hother htold).1.symm.trans hserver

theorem idle_not_sending {request : Request} (h : Idle call) :
    call.turn ≠ .sending request := by
  intro hsending
  rcases h with hturn | hturn
  · rw [hturn] at hsending
    cases hsending
  · rw [hturn] at hsending
    cases hsending

theorem Last.step {event : Event} (hcodec : codec.Faithful)
    (hinv : Inv codec s) (h : Last codec s)
    (hstep : step codec host s event = some s') : Last codec s' := by
  cases event with
  | connect request =>
      obtain ⟨-, rfl⟩ := step_connect hstep
      exact h.append (connect_fresh codec host request).1
  | client i event =>
      obtain ⟨call, call', hcall, hmoved, rfl⟩ := step_client hstep
      exact h.set hcall (told_clientStep hmoved) (clientStep_keeps hmoved).1
  | kill i =>
      obtain ⟨call, hcall, -, rfl⟩ := step_kill hstep
      exact h.set hcall id rfl
  | accept i =>
      obtain ⟨call, hcall, haccepting, -, rfl⟩ := step_accept hstep
      constructor
      · intro j other hother hj
        rcases set_cases hcall hother with ⟨-, rfl⟩ | ⟨-, hother⟩
        · cases hj.2.2.1
        · have hended := (h.told j other hother hj).1
          rw [haccepting] at hended
          cases hended
      · intro j other request hother hj
        rcases set_cases hcall hother with ⟨-, rfl⟩ | ⟨-, hother⟩
        · cases hj
        · exact h.sending j other request hother hj
  | acceptFailed =>
      obtain ⟨haccepting, rfl⟩ := step_acceptFailed hstep
      have hidle : ∀ (j : Nat) other, s.calls[j]? = some other → Idle other := by
        intro j other hother
        refine hinv.idle j other hother ?_
        rw [haccepting]
        simp
      constructor
      · intro j other hother hj
        obtain ⟨before, hbefore, hclosed⟩ := loopHead_calls hother
        have htold : Told codec before := by
          rcases hclosed with rfl | rfl
          · exact hj
          · exact told_hangUp (hinv.calls j before hbefore)
              (hidle j before hbefore) hj
        have hended := (h.told j before hbefore htold).1
        rw [haccepting] at hended
        cases hended
      · intro j other request hother hj
        obtain ⟨before, hbefore, hclosed⟩ := loopHead_calls hother
        rcases hclosed with rfl | rfl
        · exact absurd hj (idle_not_sending (hidle j _ hbefore))
        · cases hj
  | server event =>
      obtain ⟨i, call, call', next, hserver, hcall, hmoved, rfl⟩ :=
        step_server hstep
      have hok := hinv.calls i call hcall
      obtain ⟨-, hserved, -, hanswer⟩ := hok.serverStep hcodec hmoved
      refine last_proceed (set_self hcall) hserved ?_ ?_ ?_
      · intro htold
        have hnext := told_serverStep hcodec hok hmoved htold
        subst hnext
        obtain ⟨request, hturn⟩ := serverStep_stop hmoved
        exact ⟨rfl, h.sending i call request hcall hturn⟩
      · intro request hturn
        exact h.sending i call request hcall (serverStep_sending hmoved hturn)
      · intro j other hother hj
        rw [set_other hj] at hother
        exact others_of_serving hinv h hserver hother hj
  | handle outcome =>
      obtain ⟨i, call, call', next, hserver, hcall, hmoved, rfl⟩ :=
        step_handle hstep
      obtain ⟨-, -, -, -, -, -, hserved, -⟩ :=
        (hinv.calls i call hcall).handle hmoved
      refine last_proceed (set_self hcall) hserved ?_ ?_ ?_
      · intro htold
        exact absurd htold (told_handle hmoved)
      · intro _ _
        exact List.getLast?_concat
      · intro j other hother hj
        rw [set_other hj] at hother
        exact others_of_serving hinv h hserver hother hj
  | stop =>
      rcases step_stop hstep with ⟨-, rfl⟩ | ⟨-, rfl⟩
      · exact ⟨h.told, h.sending⟩
      · have hnext : Last codec { s with
            calls := s.calls ++ [connected none .failed] } := h.append rfl
        exact ⟨hnext.told, hnext.sending⟩

end Last

/-! ## What ends the server -/

/-- The process of a client was killed, or one of its system calls failed. -/
def Lost (events : List Event) : Prop :=
  ∃ i, .kill i ∈ events ∨ .client i .readFailed ∈ events ∨
    .client i .writeFailed ∈ events

/-- Why the server is not in its loop any more. -/
structure Causes (events : List Event) (s : System) : Prop where
  stopping : s.stopping = true → .stop ∈ events ∨
    (s.server = .ended ∧ ∃ (i : Nat) (call : Call),
      s.calls[i]? = some call ∧ Asked call ∧ s.handled.getLast? = some i)
  ended : s.server = .ended → s.stopping = true
  killed : s.server = .killed → Lost events

theorem Lost.append {events more : List Event} (h : Lost events) :
    Lost (events ++ more) := by
  obtain ⟨i, hkill | hread | hwrite⟩ := h
  · exact ⟨i, Or.inl (List.mem_append_left _ hkill)⟩
  · exact ⟨i, Or.inr (Or.inl (List.mem_append_left _ hread))⟩
  · exact ⟨i, Or.inr (Or.inr (List.mem_append_left _ hwrite))⟩

section Clients

variable {call call' : Call} {event : Ipc.Event}

theorem requests_ne_nil (h : CallOk codec call)
    (hreceived : call.toServer.received ≠ []) : requests codec call ≠ [] := by
  intro hnone
  obtain ⟨rest, hmessages, -⟩ := h.toServer.inv.outstanding
  rw [hnone] at hmessages
  exact hreceived (List.append_eq_nil_iff.mp hmessages.symm).1

theorem connect_failed (request : Request)
    (h : (connect codec host request).client = .failed) :
    requests codec (connect codec host request) = [] := by
  unfold connect at h ⊢
  cases hsend : (codec.serializeRequest request).bind (Ipc.send host) with
  | none => exact begun_of_send_none hsend
  | some writer =>
      rw [hsend] at h
      cases h

/-- A client fails when the server has closed the connection, or with its own
system call. -/
theorem clientStep_failed (h : CallOk codec call)
    (hstep : clientStep codec host call event = some call')
    (hfailed : call'.client = .failed) :
    call'.turn = .closed ∨ event = .readFailed ∨ event = .writeFailed := by
  have hclient := h.client
  rcases clientStep_cases hstep with ⟨-, -, hclosed, rfl⟩ |
    ⟨hsending, hevent, -, connection, hmoved, rfl⟩ |
    ⟨hreceiving, hevent, connection, hmoved, rfl⟩
  · exact Or.inl hclosed
  · rw [hsending] at hclient
    obtain ⟨-, hunfailed, -⟩ := hclient
    have hwriter : connection.writer = .failed := by
      unfold clientSent at hfailed
      dsimp only at hfailed
      split at hfailed
      next => cases hfailed
      next hwriter => exact hwriter
      next =>
        rw [hsending] at hfailed
        cases hfailed
    exact Or.inr (Or.inr
      (writeFailed_of_failed hevent hmoved hunfailed hwriter))
  · rw [hreceiving] at hclient
    obtain ⟨-, hnone, -, hunfailed⟩ := hclient
    have hdirection : Direction (replies codec call) connection :=
      h.toClient.read hevent hmoved
    have hwriter := (step_isRead hevent .idle hmoved).1
    rw [(clientReceived_keeps codec _).1]
    by_cases hreader : connection.reader = .failed
    · exact Or.inr (Or.inl
        (readFailed_of_failed hevent hmoved hunfailed hreader))
    · left
      cases hreceived : connection.received with
      | cons bytes rest =>
          exact (closed_of_received codec { call with toClient := connection }
            hdirection (h.turn.congr rfl rfl rfl rfl hwriter) hreceived
            hreader).1
      | nil =>
          unfold clientReceived at hfailed
          simp only [hreceived] at hfailed
          split at hfailed
          next hfailed' => exact absurd hfailed' hreader
          next hrejected =>
            have hok := hdirection.inv.reader
            rw [hrejected] at hok
            exact absurd hok id
          next =>
            rw [hreceiving] at hfailed
            cases hfailed

end Clients

section Steps

variable {s s' : System} {event : Event} {i : Nat} {call call' : Call}
variable {next : Next}

theorem loopHead_stopping (s : System) : (loopHead s).stopping = s.stopping := by
  unfold loopHead
  split <;> rfl

theorem proceed_stopping (h : s.stopping = true) :
    (proceed s next).stopping = true := by
  cases next with
  | stay => exact h
  | loop => exact (loopHead_stopping s).trans h
  | stop => rfl
  | die => exact h

/-- A server that is to stop stays so. -/
theorem step_stopping (h : s.stopping = true)
    (hstep : step codec host s event = some s') : s'.stopping = true := by
  cases event with
  | connect request =>
      obtain ⟨-, rfl⟩ := step_connect hstep
      exact h
  | client i event =>
      obtain ⟨call, call', -, -, rfl⟩ := step_client hstep
      exact h
  | kill i =>
      obtain ⟨call, -, -, rfl⟩ := step_kill hstep
      exact h
  | accept i =>
      obtain ⟨call, -, -, -, rfl⟩ := step_accept hstep
      exact h
  | acceptFailed =>
      obtain ⟨-, rfl⟩ := step_acceptFailed hstep
      exact (loopHead_stopping s).trans h
  | server event =>
      obtain ⟨i, call, call', next, -, -, -, rfl⟩ := step_server hstep
      exact proceed_stopping h
  | handle outcome =>
      obtain ⟨i, call, call', next, -, -, -, rfl⟩ := step_handle hstep
      exact proceed_stopping h
  | stop =>
      rcases step_stop hstep with ⟨-, rfl⟩ | ⟨-, rfl⟩
      · rfl
      · rfl

/-- A server that has ended takes no step. -/
theorem step_gone (hgone : s.server.Gone)
    (hstep : step codec host s event = some s') :
    s'.server = s.server ∧ s'.handled = s.handled ∧
      s'.stopRequested = s.stopRequested := by
  have hserving : ∀ i, s.server ≠ .serving i := by
    intro i hi
    rw [hi] at hgone
    exact hgone
  have haccepting : s.server ≠ .accepting := by
    intro ha
    rw [ha] at hgone
    exact hgone
  cases event with
  | connect request => exact absurd hgone (step_connect hstep).1
  | client i event =>
      obtain ⟨call, call', -, -, rfl⟩ := step_client hstep
      exact ⟨rfl, rfl, rfl⟩
  | kill i =>
      obtain ⟨call, -, -, rfl⟩ := step_kill hstep
      exact ⟨rfl, rfl, rfl⟩
  | accept i =>
      obtain ⟨call, -, ha, -⟩ := step_accept hstep
      exact absurd ha haccepting
  | acceptFailed => exact absurd (step_acceptFailed hstep).1 haccepting
  | server event =>
      obtain ⟨i, call, call', next, hi, -⟩ := step_server hstep
      exact absurd hi (hserving i)
  | handle outcome =>
      obtain ⟨i, call, call', next, hi, -⟩ := step_handle hstep
      exact absurd hi (hserving i)
  | stop =>
      rcases step_stop hstep with ⟨-, rfl⟩ | ⟨hopen, -⟩
      · exact ⟨rfl, rfl, rfl⟩
      · exact absurd hgone hopen

/-- The server starts to stop when it is told to by the program, or behind the
answer to a request to stop. -/
theorem stopping_step (hcodec : codec.Faithful) (hinv : Inv codec s)
    (hlast : Last codec s) (hs : s.stopping = false)
    (hstep : step codec host s event = some s') (h : s'.stopping = true) :
    event = .stop ∨ (s'.server = .ended ∧ ∃ (i : Nat) (call : Call),
      s'.calls[i]? = some call ∧ Asked call ∧ s'.handled.getLast? = some i) := by
  have hnot : s.stopping ≠ true := by
    rw [hs]
    simp
  cases event with
  | connect request =>
      obtain ⟨-, rfl⟩ := step_connect hstep
      exact absurd h hnot
  | client i event =>
      obtain ⟨call, call', -, -, rfl⟩ := step_client hstep
      exact absurd h hnot
  | kill i =>
      obtain ⟨call, -, -, rfl⟩ := step_kill hstep
      exact absurd h hnot
  | accept i =>
      obtain ⟨call, -, -, -, rfl⟩ := step_accept hstep
      exact absurd h hnot
  | acceptFailed =>
      obtain ⟨-, rfl⟩ := step_acceptFailed hstep
      rw [loopHead_stopping] at h
      exact absurd h hnot
  | server event =>
      obtain ⟨i, call, call', next, hserver, hcall, hmoved, rfl⟩ :=
        step_server hstep
      cases next with
      | stay => exact absurd h hnot
      | loop =>
          change (loopHead _).stopping = true at h
          rw [loopHead_stopping] at h
          exact absurd h hnot
      | die => exact absurd h hnot
      | stop =>
          right
          have hok := hinv.calls i call hcall
          have hasked : Asked call' :=
            (serverStep_next hcodec hok hmoved).1 rfl
          obtain ⟨request, hturn⟩ := serverStep_stop hmoved
          refine ⟨rfl, i, { call' with turn := .closed }, ?_, hasked,
            hlast.sending i call request hcall hturn⟩
          show (hangUp .ended _).calls[i]? = _
          rw [getElem_hangUp]
          show (s.calls.set i call')[i]?.map _ = _
          rw [set_self hcall]
          rfl
  | handle outcome =>
      obtain ⟨i, call, call', next, hserver, hcall, hmoved, rfl⟩ :=
        step_handle hstep
      obtain ⟨-, -, -, -, -, -, -, -, hstay | hloop⟩ :=
        (hinv.calls i call hcall).handle hmoved
      · subst hstay
        exact absurd h hnot
      · subst hloop
        change (loopHead _).stopping = true at h
        rw [loopHead_stopping] at h
        exact absurd h hnot
  | stop => exact Or.inl rfl

/-- Only a server that is to stop leaves its loop. -/
theorem ended_step (hs : s.server ≠ .ended)
    (hstep : step codec host s event = some s') (h : s'.server = .ended) :
    s'.stopping = true := by
  cases event with
  | connect request =>
      obtain ⟨-, rfl⟩ := step_connect hstep
      exact absurd h hs
  | client i event =>
      obtain ⟨call, call', -, -, rfl⟩ := step_client hstep
      exact absurd h hs
  | kill i =>
      obtain ⟨call, -, -, rfl⟩ := step_kill hstep
      exact absurd h hs
  | accept i =>
      obtain ⟨call, -, -, -, rfl⟩ := step_accept hstep
      cases h
  | acceptFailed =>
      obtain ⟨-, rfl⟩ := step_acceptFailed hstep
      change (proceed s .loop).server = .ended at h
      exact (proceed_ended h hs).1
  | server event =>
      obtain ⟨i, call, call', next, -, -, -, rfl⟩ := step_server hstep
      exact (proceed_ended h hs).1
  | handle outcome =>
      obtain ⟨i, call, call', next, -, -, -, rfl⟩ := step_handle hstep
      exact (proceed_ended h hs).1
  | stop =>
      rcases step_stop hstep with ⟨-, rfl⟩ | ⟨-, rfl⟩
      · rfl
      · rfl

theorem loopHead_killed (s : System) : (loopHead s).server ≠ .killed := by
  unfold loopHead
  split
  · exact nofun
  · exact nofun

/-- The process is killed when it writes to a client that has failed. -/
theorem killed_step (hcodec : codec.Faithful) (hinv : Inv codec s)
    (hs : s.server ≠ .killed) (hstep : step codec host s event = some s')
    (h : s'.server = .killed) :
    ∃ (i : Nat) (call : Call) (request : Request), s.calls[i]? = some call ∧
      call.client = .failed ∧ call.turn = .sending request := by
  cases event with
  | connect request =>
      obtain ⟨-, rfl⟩ := step_connect hstep
      exact absurd h hs
  | client i event =>
      obtain ⟨call, call', -, -, rfl⟩ := step_client hstep
      exact absurd h hs
  | kill i =>
      obtain ⟨call, -, -, rfl⟩ := step_kill hstep
      exact absurd h hs
  | accept i =>
      obtain ⟨call, -, -, -, rfl⟩ := step_accept hstep
      cases h
  | acceptFailed =>
      obtain ⟨-, rfl⟩ := step_acceptFailed hstep
      exact absurd h (loopHead_killed _)
  | server event =>
      obtain ⟨i, call, call', next, hserver, hcall, hmoved, rfl⟩ :=
        step_server hstep
      have hok := hinv.calls i call hcall
      cases next with
      | stay => exact absurd h hs
      | loop => exact absurd h (loopHead_killed _)
      | stop => cases h
      | die =>
          obtain ⟨hgone, request, hturn⟩ :=
            (serverStep_next hcodec hok hmoved).2 rfl
          refine ⟨i, call, request, hcall, ?_, hturn⟩
          have hclient := hok.client
          cases hc : call.client with
          | sending =>
              rw [hc] at hgone
              exact absurd trivial hgone
          | receiving =>
              rw [hc] at hgone
              exact absurd trivial hgone
          | returned response =>
              rw [hc, ClientOk, hturn] at hclient
              cases hclient.1
          | failed => rfl
  | handle outcome =>
      obtain ⟨i, call, call', next, hserver, hcall, hmoved, rfl⟩ :=
        step_handle hstep
      obtain ⟨-, -, -, -, -, -, -, -, hstay | hloop⟩ :=
        (hinv.calls i call hcall).handle hmoved
      · subst hstay
        exact absurd h hs
      · subst hloop
        exact absurd h (loopHead_killed _)
  | stop =>
      rcases step_stop hstep with ⟨-, rfl⟩ | ⟨-, rfl⟩
      · exact absurd h hs
      · exact absurd h hs

/-- A client fails when the server has closed its connection, when its request
cannot be sent, or when it was killed or a system call of it failed. -/
def Explained (codec : Codec) (events : List Event) (s : System) : Prop :=
  ∀ (i : Nat) call, s.calls[i]? = some call → call.client = .failed →
    call.turn = .closed ∨ requests codec call = [] ∨ Lost events

theorem Explained.of_append {events : List Event} (h : Explained codec events s)
    (hcall : call.client = .failed → requests codec call = []) :
    Explained codec events { s with calls := s.calls ++ [call] } := by
  intro j other hother hfailed
  rcases append_cases hother with hother | rfl
  · exact h j other hother hfailed
  · exact Or.inr (Or.inl (hcall hfailed))

/-- A step of the server on a connection that it has not closed. -/
theorem Explained.of_server {events : List Event}
    (h : Explained codec events s) (hcall : s.calls[i]? = some call)
    (hturn : call.turn ≠ .closed) (hclient : call'.client = call.client)
    (hrequest : call'.request = call.request) :
    Explained codec events { s with calls := s.calls.set i call' } := by
  intro j other hother hfailed
  rcases set_cases hcall hother with ⟨rfl, rfl⟩ | ⟨-, hother⟩
  · rcases h j call hcall (hclient.symm.trans hfailed) with hclosed | hcause
    · exact absurd hclosed hturn
    · rw [requests, hrequest]
      exact Or.inr hcause
  · exact h j other hother hfailed

theorem Explained.proceed {events : List Event} (h : Explained codec events s) :
    Explained codec events (proceed s next) := by
  intro j other hother hfailed
  obtain ⟨before, hbefore, rfl | ⟨-, rfl⟩⟩ := proceed_calls hother
  · exact h j _ hbefore hfailed
  · exact Or.inl rfl

theorem Explained.step {events : List Event} (hcodec : codec.Faithful)
    (hinv : Inv codec s) (h : Explained codec events s)
    (hstep : DaemonIpc.step codec host s event = some s') :
    Explained codec (events ++ [event]) s' := by
  have hbefore : Explained codec (events ++ [event]) s := by
    intro j other hother hfailed
    exact (h j other hother hfailed).imp_right (Or.imp_right Lost.append)
  have hin : event ∈ events ++ [event] :=
    List.mem_append_right _ (List.mem_singleton.mpr rfl)
  cases event with
  | connect request =>
      obtain ⟨-, rfl⟩ := step_connect hstep
      exact hbefore.of_append (connect_failed request)
  | client i event =>
      obtain ⟨call, call', hcall, hmoved, rfl⟩ := step_client hstep
      intro j other hother hfailed
      rcases set_cases hcall hother with ⟨rfl, rfl⟩ | ⟨-, hother⟩
      · rcases clientStep_failed (hinv.calls j call hcall) hmoved hfailed with
          hclosed | rfl | rfl
        · exact Or.inl hclosed
        · exact Or.inr (Or.inr ⟨j, Or.inr (Or.inl hin)⟩)
        · exact Or.inr (Or.inr ⟨j, Or.inr (Or.inr hin)⟩)
      · exact hbefore j other hother hfailed
  | kill i => exact fun _ _ _ _ => Or.inr (Or.inr ⟨i, Or.inl hin⟩)
  | accept i =>
      obtain ⟨call, hcall, -, hwaiting, rfl⟩ := step_accept hstep
      exact hbefore.of_server hcall (by rw [hwaiting]; simp) rfl rfl
  | acceptFailed =>
      obtain ⟨-, rfl⟩ := step_acceptFailed hstep
      show Explained codec _ (DaemonIpc.proceed s .loop)
      exact hbefore.proceed
  | server event =>
      obtain ⟨i, call, call', next, hserver, hcall, hmoved, rfl⟩ :=
        step_server hstep
      have hok := hinv.calls i call hcall
      obtain ⟨-, -, hclient, -⟩ := hok.serverStep hcodec hmoved
      have hbusy := hinv.busy hserver hcall
      exact (hbefore.of_server hcall hbusy.ne_closed hclient
        (serverStep_request hmoved)).proceed
  | handle outcome =>
      obtain ⟨i, call, call', next, hserver, hcall, hmoved, rfl⟩ :=
        step_handle hstep
      obtain ⟨-, -, -, -, -, -, -, hclient, -⟩ :=
        (hinv.calls i call hcall).handle hmoved
      have hbusy := hinv.busy hserver hcall
      have hset := hbefore.of_server hcall hbusy.ne_closed hclient
        (handle_request hmoved)
      exact Explained.proceed (s := { s with
        calls := s.calls.set i call'
        stopRequested := s.stopRequested || callsStop call
        handled := s.handled ++ [i] }) hset
  | stop =>
      rcases step_stop hstep with ⟨-, rfl⟩ | ⟨-, rfl⟩
      · exact hbefore
      · have hnone : requests codec (connected none .failed) = [] := rfl
        exact hbefore.of_append (fun _ => hnone)

/-! ## What asks the daemon to stop -/

/-- `gStopRequested`. -/
def Requests (s : System) : Prop :=
  s.stopRequested = true ↔
    ∃ (i : Nat) (call : Call), s.calls[i]? = some call ∧ Requested call

/-- What was answered on the connections does not change. -/
theorem Requests.congr (h : Requests s) (hsame : s'.stopRequested = s.stopRequested)
    (hforth : ∀ (i : Nat) call, s.calls[i]? = some call → call.answer ≠ none →
      ∃ call', s'.calls[i]? = some call' ∧ call'.answer = call.answer)
    (hback : ∀ (i : Nat) call', s'.calls[i]? = some call' → call'.answer ≠ none →
      ∃ call, s.calls[i]? = some call ∧ call'.answer = call.answer) :
    Requests s' := by
  unfold Requests at h ⊢
  rw [hsame, h]
  constructor
  · rintro ⟨i, call, hcall, request, response, hanswer, hrequested⟩
    obtain ⟨call', hcall', hkept⟩ := hforth i call hcall (by rw [hanswer]; simp)
    exact ⟨i, call', hcall', request, response, hkept.trans hanswer, hrequested⟩
  · rintro ⟨i, call', hcall', request, response, hanswer, hrequested⟩
    obtain ⟨call, hcall, hkept⟩ := hback i call' hcall' (by rw [hanswer]; simp)
    exact ⟨i, call, hcall, request, response, hkept.symm.trans hanswer,
      hrequested⟩

theorem Requests.set (h : Requests s) (hcall : s.calls[i]? = some call)
    (hanswer : call'.answer = call.answer) :
    Requests { s with calls := s.calls.set i call' } := by
  refine h.congr rfl ?_ ?_
  · intro j other hother _
    by_cases hj : j = i
    · subst hj
      rw [hcall] at hother
      cases hother
      exact ⟨call', set_self hcall, hanswer⟩
    · exact ⟨other, (set_other hj).trans hother, rfl⟩
  · intro j other hother _
    rcases set_cases hcall hother with ⟨rfl, rfl⟩ | ⟨-, hother⟩
    · exact ⟨call, hcall, hanswer⟩
    · exact ⟨other, hother, rfl⟩

theorem Requests.append (h : Requests s) (hanswer : call.answer = none) :
    Requests { s with calls := s.calls ++ [call] } := by
  refine h.congr rfl ?_ ?_
  · intro j other hother _
    exact ⟨other, append_of_some hother, rfl⟩
  · intro j other hother hsome
    rcases append_cases hother with hother | rfl
    · exact ⟨other, hother, rfl⟩
    · exact absurd hanswer hsome

theorem Requests.proceed (h : Requests s) : Requests (proceed s next) := by
  refine h.congr (proceed_stopRequested s next) ?_ ?_
  · intro j other hother hsome
    obtain ⟨other', hother', hkept⟩ := (later_proceed s next).calls j other hother
    exact ⟨other', hother', hkept.answer hsome⟩
  · intro j other hother _
    obtain ⟨before, hbefore, rfl | ⟨-, rfl⟩⟩ := proceed_calls hother
    · exact ⟨_, hbefore, rfl⟩
    · exact ⟨before, hbefore, rfl⟩

/-- The handler asks for it. -/
theorem Requests.handle {outcome : Except String Response}
    (hinv : Inv codec s) (h : Requests s) (hcall : s.calls[i]? = some call)
    (hmoved : handle codec host outcome call = some (call', next)) :
    Requests { s with
      calls := s.calls.set i call'
      stopRequested := s.stopRequested || callsStop call
      handled := s.handled ++ [i] } := by
  obtain ⟨request, hturn, -, hnone, hanswer, -⟩ :=
    (hinv.calls i call hcall).handle hmoved
  have hcalls : callsStop call = requestsStop request := by
    unfold callsStop
    rw [hturn]
  unfold Requests at h ⊢
  show (s.stopRequested || callsStop call) = true ↔
    ∃ (j : Nat) (other : Call), (s.calls.set i call')[j]? = some other ∧ _
  rw [Bool.or_eq_true, h, hcalls]
  constructor
  · rintro (⟨j, other, hother, hrequested⟩ | hstop)
    · refine ⟨j, other, ?_, hrequested⟩
      rw [set_other ?_]
      · exact hother
      · rintro rfl
        rw [hcall] at hother
        cases hother
        obtain ⟨_, _, hsome, -⟩ := hrequested
        rw [hnone] at hsome
        cases hsome
    · exact ⟨i, call', set_self hcall, request, _, hanswer, hstop⟩
  · rintro ⟨j, other, hother, hrequested⟩
    rcases set_cases hcall hother with ⟨rfl, rfl⟩ | ⟨-, hother⟩
    · obtain ⟨request', _, hsome, hstop⟩ := hrequested
      rw [hanswer] at hsome
      cases hsome
      exact Or.inr hstop
    · exact Or.inl ⟨j, other, hother, hrequested⟩

theorem Requests.step (hcodec : codec.Faithful) (hinv : Inv codec s)
    (h : Requests s) (hstep : DaemonIpc.step codec host s event = some s') :
    Requests s' := by
  cases event with
  | connect request =>
      obtain ⟨-, rfl⟩ := step_connect hstep
      exact h.append (connect_fresh codec host request).2.1
  | client i event =>
      obtain ⟨call, call', hcall, hmoved, rfl⟩ := step_client hstep
      exact h.set hcall (clientStep_keeps hmoved).2.1
  | kill i =>
      obtain ⟨call, hcall, -, rfl⟩ := step_kill hstep
      exact h.set hcall rfl
  | accept i =>
      obtain ⟨call, hcall, -, -, rfl⟩ := step_accept hstep
      exact h.set (s := s) hcall rfl
  | acceptFailed =>
      obtain ⟨-, rfl⟩ := step_acceptFailed hstep
      show Requests (DaemonIpc.proceed s .loop)
      exact h.proceed
  | server event =>
      obtain ⟨i, call, call', next, -, hcall, hmoved, rfl⟩ := step_server hstep
      obtain ⟨-, -, -, hanswer⟩ :=
        (hinv.calls i call hcall).serverStep hcodec hmoved
      exact (h.set hcall hanswer).proceed
  | handle outcome =>
      obtain ⟨i, call, call', next, -, hcall, hmoved, rfl⟩ := step_handle hstep
      exact (Requests.handle hinv h hcall hmoved).proceed
  | stop =>
      rcases step_stop hstep with ⟨-, rfl⟩ | ⟨-, rfl⟩
      · exact h
      · have hnone : (connected none .failed).answer = none := rfl
        exact h.append hnone

end Steps

/-! ## Any run -/

/-- What holds after any run of the server. -/
structure Loop (codec : Codec) (events : List Event) (s : System) : Prop where
  inv : Inv codec s
  last : Last codec s
  causes : Causes events s
  explained : Explained codec events s
  requests : Requests s

section Runs

variable {s s' : System} {event : Event} {events : List Event}

theorem loop_start : Loop codec [] start :=
  { inv := inv_start
    last := last_start
    causes := ⟨by simp [start], by simp [start], by simp [start]⟩
    explained := fun i call h => by simp [start] at h
    requests := by simp [Requests, start] }

theorem Causes.step (hcodec : codec.Faithful) (h : Loop codec events s)
    (hstep : step codec host s event = some s') :
    Causes (events ++ [event]) s' := by
  have hin : event ∈ events ++ [event] :=
    List.mem_append_right _ (List.mem_singleton.mpr rfl)
  refine ⟨?_, ?_, ?_⟩
  · intro hstopping
    by_cases hs : s.stopping = true
    · rcases h.causes.stopping hs with hstop | ⟨hended, i, call, hcall, hasked, hlast⟩
      · exact Or.inl (List.mem_append_left _ hstop)
      · obtain ⟨hserver, hhandled, -⟩ :=
          step_gone (by rw [hended]; trivial) hstep
        obtain ⟨call', hcall', hkept⟩ :=
          (step_later hcodec h.inv hstep).calls i call hcall
        obtain ⟨request, response, hanswer, hstop⟩ := hasked
        have hsame := hkept.answer (by rw [hanswer]; simp)
        exact Or.inr ⟨hserver.trans hended, i, call', hcall',
          ⟨request, response, hsame.trans hanswer, hstop⟩,
          hhandled.symm ▸ hlast⟩
    · rcases stopping_step hcodec h.inv h.last (Bool.eq_false_iff.mpr hs) hstep
        hstopping with rfl | hended
      · exact Or.inl hin
      · exact Or.inr hended
  · intro hended
    by_cases hs : s.server = .ended
    · exact step_stopping (h.causes.ended hs) hstep
    · exact ended_step hs hstep hended
  · intro hkilled
    by_cases hs : s.server = .killed
    · exact (h.causes.killed hs).append
    · obtain ⟨i, call, request, hcall, hfailed, hturn⟩ :=
        killed_step hcodec h.inv hs hstep hkilled
      have hok := h.inv.calls i call hcall
      have hsending := hok.turn
      rw [hturn] at hsending
      rcases h.explained i call hcall hfailed with hclosed | hnone | hlost
      · rw [hturn] at hclosed
        cases hclosed
      · exact absurd hnone (requests_ne_nil hok hsending.2.2.2)
      · exact hlost.append

theorem Loop.run (hcodec : codec.Faithful)
    (hrun : run codec host start events = some s) : Loop codec events s := by
  refine Library.runEvents_induction
    (P := fun events s => Loop codec events s) loop_start ?_ hrun
  intro events a event b _ h hstep
  exact ⟨h.inv.step hcodec hstep, h.last.step hcodec h.inv hstep,
    Causes.step hcodec h hstep, h.explained.step hcodec h.inv hstep,
    h.requests.step hcodec h.inv hstep⟩

/-- A server that has ended stays so, and handles nothing more. -/
theorem run_gone (hgone : s.server.Gone)
    (hrun : run codec host s events = some s') :
    s'.server = s.server ∧ s'.handled = s.handled := by
  refine Library.runEvents_induction
    (P := fun _ s' => s'.server = s.server ∧ s'.handled = s.handled)
    ⟨rfl, rfl⟩ ?_ hrun
  intro _ a _ b _ ha hstep
  obtain ⟨hserver, hhandled, -⟩ :=
    step_gone (by rw [ha.1]; exact hgone) hstep
  exact ⟨hserver.trans ha.1, hhandled.trans ha.2⟩

end Runs

/-- The server leaves its loop only when the program stops it or behind a
request to stop, of whatever version; its process is killed only when a client
is lost; a client whose request to stop is answered has had the last request
that is handled; and the daemon is asked to stop exactly by a request to stop of
its own version. -/
theorem serve_loop_ends (codec : Codec) (host : Ipc.ByteOrder)
    (hcodec : codec.Faithful) (events : List Event) (s : System)
    (hrun : run codec host start events = some s) :
    (s.server = .ended → .stop ∈ events ∨ ∃ (i : Nat) (call : Call),
      s.calls[i]? = some call ∧ Asked call ∧ s.handled.getLast? = some i) ∧
    (s.server = .killed → Lost events) ∧
    (∀ (i : Nat) call request response, s.calls[i]? = some call →
      call.request = some request → request.command = .stop →
      call.client = .returned response →
      s.server = .ended ∧ ∀ more s', run codec host s more = some s' →
        s'.server = .ended ∧ s'.handled = s.handled ∧
          s'.handled.getLast? = some i) ∧
    (s.stopRequested = true ↔ ∃ (i : Nat) (call : Call), ∃ request response,
      s.calls[i]? = some call ∧ call.answer = some (request, response) ∧
        request.protocolVersion = kProtocolVersion ∧
        request.command = .stop) := by
  have hloop : Loop codec events s := Loop.run hcodec hrun
  refine ⟨?_, hloop.causes.killed, ?_, ?_⟩
  · intro hended
    rcases hloop.causes.stopping (hloop.causes.ended hended) with hstop | ⟨-, hasked⟩
    · exact Or.inl hstop
    · exact Or.inr hasked
  · intro i call request response hcall hrequest hstop hreturned
    have htold := told_of_returned (hloop.inv.calls i call hcall) hreturned
      hrequest hstop
    obtain ⟨hended, hlast⟩ := hloop.last.told i call hcall htold
    refine ⟨hended, ?_⟩
    intro more s' hmore
    obtain ⟨hserver, hhandled⟩ := run_gone (by rw [hended]; trivial) hmore
    exact ⟨hserver.trans hended, hhandled, hhandled.symm ▸ hlast⟩
  · have hrequests := hloop.requests
    unfold Requests at hrequests
    rw [hrequests]
    constructor
    · rintro ⟨i, call, hcall, request, response, hanswer, hstop⟩
      exact ⟨i, call, request, response, hcall, hanswer,
        (requestsStop_iff request).mp hstop⟩
    · rintro ⟨i, call, request, response, hcall, hanswer, hstop⟩
      exact ⟨i, call, hcall, request, response, hanswer,
        (requestsStop_iff request).mpr hstop⟩

/-- `arkive-sync daemon stop` of another version, and what the daemon
answers. -/
def otherStop : Request := { protocolVersion := 2, command := .stop }

def unsupportedResponse : Response :=
  { protocolVersion := 1, error := "Unsupported IPC protocol version" }

def unsupportedBytes : Bytes :=
  [8, 1, 26, 32, 85, 110, 115, 117, 112, 112, 111, 114, 116, 101, 100, 32,
    73, 80, 67, 32, 112, 114, 111, 116, 111, 99, 111, 108, 32, 118, 101,
    114, 115, 105, 111, 110]

def stopCodec : Codec :=
  { serializeRequest := fun message =>
      if message = otherStop then some [8, 2, 16, 2] else none
    parseRequest := fun bytes =>
      if bytes = [8, 2, 16, 2] then some otherStop else none
    serializeResponse := fun message =>
      if message = unsupportedResponse then some unsupportedBytes else none
    parseResponse := fun bytes =>
      if bytes = unsupportedBytes then some unsupportedResponse else none }

theorem stopCodec_faithful : stopCodec.Faithful := by
  constructor
  · intro message bytes message' hserialize hparse
    simp only [stopCodec, Option.ite_none_right_eq_some,
      Option.some.injEq] at hserialize hparse
    rw [hserialize.1, ← hparse.2]
  · intro message bytes message' hserialize hparse
    simp only [stopCodec, Option.ite_none_right_eq_some,
      Option.some.injEq] at hserialize hparse
    rw [hserialize.1, ← hparse.2]

def stopRun : List Event :=
  [.connect otherStop, .client 0 (.write 4), .client 0 (.write 4),
    .accept 0, .server (.read 4), .server (.read 4),
    .handle (.error "not called"), .server (.write 4), .server (.write 36),
    .client 0 (.read 4), .client 0 (.read 36)]

/-- The server has ended, and the daemon goes on without it. -/
theorem serve_loop_ends_otherStop :
    ∃ s, run stopCodec .little start stopRun = some s ∧
      s.server = .ended ∧ s.stopRequested = false ∧
      s.handled.getLast? = some 0 := by
  obtain ⟨s, hrun, hnot, call, hcall, hrequest, hreturned⟩ :
      ∃ s, run stopCodec .little start stopRun = some s ∧
        s.stopRequested = false ∧ ∃ call, s.calls[0]? = some call ∧
          call.request = some otherStop ∧
          call.client = .returned unsupportedResponse :=
    ⟨_, rfl, rfl, _, rfl, rfl, rfl⟩
  obtain ⟨hended, hlater⟩ := (serve_loop_ends stopCodec .little
    stopCodec_faithful stopRun s hrun).2.2.1 0 call _ _ hcall hrequest rfl
    hreturned
  exact ⟨s, hrun, hended, hnot, (hlater [] s rfl).2.2⟩

end ArkiveSync.ServeLoop
