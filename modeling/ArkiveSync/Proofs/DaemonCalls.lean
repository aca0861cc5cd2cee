import ArkiveSync.Proofs.DaemonConnections

/-!
# Every request is handled at most once, and answered for itself

The server has one connection at a time.  Whatever the order in which the
processes take their steps, and whichever of them fail or are killed, a request
reaches the handler at most once, and a client that returns a response has the
one that the handler has given to its own request.

## Main results

* `Inv.step`: the connections beside the one that is served are untouched or
  closed.
* `requests_answered`: what this says of any run, and of how it goes on.
-/

namespace ArkiveSync.DaemonCalls

open DaemonIpc DaemonConnections

variable {codec : Codec} {host : Ipc.ByteOrder}

/-! ## What every step keeps -/

/-- The server has closed the connection or not yet taken it. -/
def Idle (call : Call) : Prop := call.turn = .waiting ∨ call.turn = .closed

/-- All connections, and which of them the server has. -/
structure Inv (codec : Codec) (s : System) : Prop where
  calls : ∀ (i : Nat) call, s.calls[i]? = some call → CallOk codec call
  serving : ∀ i, s.server = .serving i →
    ∃ call, s.calls[i]? = some call ∧ Busy call.turn
  idle : ∀ (i : Nat) call, s.calls[i]? = some call → s.server ≠ .serving i → Idle call
  gone : s.server.Gone → ∀ (i : Nat) call, s.calls[i]? = some call →
    call.turn = .closed
  once : s.handled.Nodup
  handled : ∀ i, i ∈ s.handled ↔
    ∃ call, s.calls[i]? = some call ∧ call.answer ≠ none

theorem inv_start : Inv codec start :=
  { calls := fun i call h => by simp [start] at h
    serving := fun i h => by simp [start] at h
    idle := fun i call h => by simp [start] at h
    gone := fun h => absurd h id
    once := List.nodup_nil
    handled := fun i => by simp [start] }

theorem Inv.busy {s : System} {i : Nat} {call : Call} (h : Inv codec s)
    (hserver : s.server = .serving i) (hcall : s.calls[i]? = some call) :
    Busy call.turn := by
  obtain ⟨served, hserved, hbusy⟩ := h.serving i hserver
  rw [hcall] at hserved
  cases hserved
  exact hbusy

/-- Where the server is in no connection, or has just left one. -/
structure Between (codec : Codec) (s : System) : Prop where
  calls : ∀ (i : Nat) call, s.calls[i]? = some call → CallOk codec call
  idle : ∀ (i : Nat) call, s.calls[i]? = some call → Idle call
  once : s.handled.Nodup
  handled : ∀ i, i ∈ s.handled ↔
    ∃ call, s.calls[i]? = some call ∧ call.answer ≠ none

section Server

variable {s s' : System} {i : Nat} {call call' : Call} {next : Next}

theorem getElem_hangUp {server : Server} :
    (hangUp server s).calls[i]? =
      s.calls[i]?.map (fun call => { call with turn := .closed }) :=
  List.getElem?_map

theorem Between.accepting (h : Between codec s) :
    Inv codec { s with server := .accepting } :=
  { calls := h.calls
    serving := fun i h => by cases h
    idle := fun i call hcall _ => h.idle i call hcall
    gone := fun hgone => absurd hgone id
    once := h.once
    handled := h.handled }

theorem Between.hangUp {server : Server} (h : Between codec s)
    (hgone : server.Gone) : Inv codec (hangUp server s) := by
  have hclosed : ∀ (i : Nat) call, (DaemonIpc.hangUp server s).calls[i]? = some call →
      ∃ before, s.calls[i]? = some before ∧
        call = { before with turn := .closed } := by
    intro i call hcall
    rw [getElem_hangUp] at hcall
    obtain ⟨before, hbefore, heq⟩ := Option.map_eq_some_iff.mp hcall
    exact ⟨before, hbefore, heq.symm⟩
  refine ⟨?_, ?_, ?_, ?_, h.once, ?_⟩
  · intro i call hcall
    obtain ⟨before, hbefore, rfl⟩ := hclosed i call hcall
    exact (h.calls i before hbefore).hangUp
  · intro i hserving
    have hserver : server = .serving i := hserving
    rw [hserver] at hgone
    exact absurd hgone id
  · intro i call hcall _
    obtain ⟨before, -, rfl⟩ := hclosed i call hcall
    exact Or.inr rfl
  · intro _ i call hcall
    obtain ⟨before, -, rfl⟩ := hclosed i call hcall
    rfl
  · intro i
    show i ∈ s.handled ↔ _
    rw [h.handled i, getElem_hangUp]
    constructor
    · rintro ⟨call, hcall, hanswer⟩
      exact ⟨{ call with turn := .closed }, by rw [hcall]; rfl, hanswer⟩
    · rintro ⟨call, hcall, hanswer⟩
      obtain ⟨before, hbefore, rfl⟩ := hclosed i call
        (by rw [getElem_hangUp]; exact hcall)
      exact ⟨before, hbefore, hanswer⟩

theorem Between.loopHead (h : Between codec s) : Inv codec (loopHead s) := by
  unfold DaemonIpc.loopHead
  split
  · exact h.hangUp trivial
  · exact h.accepting

/-- Behind what the server has done with the connection that it has. -/
theorem inv_proceed (hcalls : ∀ (i : Nat) call, s.calls[i]? = some call →
      CallOk codec call)
    (hserver : s.server = .serving i) (hcall : s.calls[i]? = some call)
    (hserved : Served call next)
    (hidle : ∀ (j : Nat) call, s.calls[j]? = some call → j ≠ i → Idle call)
    (honce : s.handled.Nodup)
    (hhandled : ∀ i, i ∈ s.handled ↔
      ∃ call, s.calls[i]? = some call ∧ call.answer ≠ none) :
    Inv codec (proceed s next) := by
  by_cases hstay : next = .stay
  · subst hstay
    refine ⟨hcalls, ?_, ?_, ?_, honce, hhandled⟩
    · intro j hj
      have hsame : i = j := Server.serving.inj (hserver.symm.trans hj)
      exact hsame ▸ ⟨call, hcall, hserved.stay rfl⟩
    · intro j other hother hj
      refine hidle j other hother ?_
      rintro rfl
      exact hj hserver
    · intro hgone
      rw [show (proceed s .stay).server = .serving i from hserver] at hgone
      exact absurd hgone id
  · have hclosed := hserved.close hstay
    have hbetween : Between codec s := by
      refine ⟨hcalls, ?_, honce, hhandled⟩
      intro j other hother
      by_cases hj : j = i
      · rw [hj, hcall] at hother
        cases hother
        exact Or.inr hclosed
      · exact hidle j other hother hj
    cases next with
    | stay => exact absurd rfl hstay
    | loop => exact hbetween.loopHead
    | stop =>
        exact Between.hangUp (s := { s with stopping := true })
          ⟨hbetween.calls, hbetween.idle, honce, hhandled⟩ trivial
    | die => exact hbetween.hangUp trivial

end Server

/-! ## One connection of all -/

section Sets

variable {calls : List Call} {call call' other : Call} {i j : Nat}

theorem set_self (h : calls[i]? = some call) :
    (calls.set i call')[i]? = some call' := by
  obtain ⟨hlt, -⟩ := List.getElem?_eq_some_iff.mp h
  rw [List.getElem?_set_self hlt]

theorem set_other (h : j ≠ i) : (calls.set i call')[j]? = calls[j]? :=
  List.getElem?_set_ne h.symm

theorem set_cases (h : calls[i]? = some call)
    (hother : (calls.set i call')[j]? = some other) :
    (j = i ∧ other = call') ∨ (j ≠ i ∧ calls[j]? = some other) := by
  by_cases hj : j = i
  · subst hj
    rw [set_self h] at hother
    exact Or.inl ⟨rfl, (Option.some.inj hother).symm⟩
  · rw [set_other hj] at hother
    exact Or.inr ⟨hj, hother⟩

theorem append_cases (h : (calls ++ [call])[j]? = some other) :
    calls[j]? = some other ∨ other = call := by
  by_cases hj : j < calls.length
  · rw [List.getElem?_append_left hj] at h
    exact Or.inl h
  · rw [List.getElem?_append_right (Nat.le_of_not_lt hj)] at h
    have hmem := List.mem_of_getElem? h
    exact Or.inr (List.mem_singleton.mp hmem)

theorem append_of_some (h : calls[j]? = some other) :
    (calls ++ [call])[j]? = some other := by
  obtain ⟨hlt, -⟩ := List.getElem?_eq_some_iff.mp h
  rw [List.getElem?_append_left hlt, h]

/-- Which connections have been handled when one is changed. -/
theorem answered_set (h : calls[i]? = some call)
    (hanswer : call'.answer = call.answer) :
    (∃ other, (calls.set i call')[j]? = some other ∧ other.answer ≠ none) ↔
      ∃ other, calls[j]? = some other ∧ other.answer ≠ none := by
  by_cases hj : j = i
  · subst hj
    rw [set_self h, h]
    simp [hanswer]
  · rw [set_other hj]

end Sets

/-! ## One step -/

section Steps

variable {s s' : System} {i : Nat} {call call' : Call}

/-- A step of a process that does not concern the server. -/
theorem Inv.set (h : Inv codec s) (hcall : s.calls[i]? = some call)
    (hok : CallOk codec call') (hturn : call'.turn = call.turn)
    (hanswer : call'.answer = call.answer) :
    Inv codec { s with calls := s.calls.set i call' } := by
  refine ⟨?_, ?_, ?_, ?_, h.once, ?_⟩
  · intro j other hother
    rcases set_cases hcall hother with ⟨-, rfl⟩ | ⟨-, hother⟩
    · exact hok
    · exact h.calls j other hother
  · intro j hj
    obtain ⟨served, hserved, hbusy⟩ := h.serving j hj
    by_cases hsame : j = i
    · subst hsame
      rw [hcall] at hserved
      cases hserved
      exact ⟨call', set_self hcall, hturn.symm ▸ hbusy⟩
    · exact ⟨served, (set_other hsame).trans hserved, hbusy⟩
  · intro j other hother hj
    rcases set_cases hcall hother with ⟨rfl, rfl⟩ | ⟨-, hother⟩
    · have hidle := h.idle j call hcall hj
      rwa [Idle, ← hturn] at hidle
    · exact h.idle j other hother hj
  · intro hgone j other hother
    rcases set_cases hcall hother with ⟨rfl, rfl⟩ | ⟨-, hother⟩
    · exact hturn.trans (h.gone hgone j call hcall)
    · exact h.gone hgone j other hother
  · intro j
    exact (h.handled j).trans (answered_set hcall hanswer).symm

/-- A connection is made. -/
theorem Inv.append (h : Inv codec s) (hgone : ¬ s.server.Gone)
    (hok : CallOk codec call) (hturn : call.turn = .waiting)
    (hanswer : call.answer = none) :
    Inv codec { s with calls := s.calls ++ [call] } := by
  refine ⟨?_, ?_, ?_, fun hg => absurd hg hgone, h.once, ?_⟩
  · intro j other hother
    rcases append_cases hother with hother | rfl
    · exact h.calls j other hother
    · exact hok
  · intro j hj
    obtain ⟨served, hserved, hbusy⟩ := h.serving j hj
    exact ⟨served, append_of_some hserved, hbusy⟩
  · intro j other hother hj
    rcases append_cases hother with hother | rfl
    · exact h.idle j other hother hj
    · exact Or.inl hturn
  · intro j
    rw [h.handled j]
    constructor
    · rintro ⟨other, hother, hsome⟩
      exact ⟨other, append_of_some hother, hsome⟩
    · rintro ⟨other, hother, hsome⟩
      rcases append_cases hother with hother | rfl
      · exact ⟨other, hother, hsome⟩
      · exact absurd hanswer hsome

theorem Inv.stopping (h : Inv codec s) (stopping : Bool) :
    Inv codec { s with stopping := stopping } :=
  ⟨h.calls, h.serving, h.idle, h.gone, h.once, h.handled⟩

theorem connect_fresh (codec : Codec) (host : Ipc.ByteOrder)
    (request : Request) :
    (connect codec host request).turn = .waiting ∧
      (connect codec host request).answer = none ∧
      (connect codec host request).request = some request := by
  unfold connect
  split <;> exact ⟨rfl, rfl, rfl⟩

/-- A connection is taken. -/
theorem Inv.accept (h : Inv codec s)
    (hstep : step codec host s (.accept i) = some s') : Inv codec s' := by
  obtain ⟨call, hcall, haccepting, hwaiting, rfl⟩ := step_accept hstep
  have hother : ∀ j, s.server ≠ .serving j := by
    intro j hj
    rw [haccepting] at hj
    cases hj
  refine ⟨?_, ?_, ?_, fun hg => absurd hg id, h.once, ?_⟩
  · intro j other hj
    rcases set_cases hcall hj with ⟨-, rfl⟩ | ⟨-, hj⟩
    · exact (h.calls i call hcall).accept hwaiting
    · exact h.calls j other hj
  · intro j hj
    cases hj
    exact ⟨_, set_self hcall, trivial⟩
  · intro j other hj hne
    rcases set_cases hcall hj with ⟨rfl, -⟩ | ⟨-, hj⟩
    · exact absurd rfl hne
    · exact h.idle j other hj (hother j)
  · intro j
    rw [h.handled j]
    exact (answered_set hcall (by rfl)).symm

/-- A system call of the server. -/
theorem Inv.server {event : Ipc.Event} (hcodec : codec.Faithful)
    (h : Inv codec s) (hstep : step codec host s (.server event) = some s') :
    Inv codec s' := by
  obtain ⟨i, call, call', next, hserver, hcall, hmoved, rfl⟩ := step_server hstep
  obtain ⟨hok, hserved, -, hanswer⟩ :=
    (h.calls i call hcall).serverStep hcodec hmoved
  refine inv_proceed ?_ hserver (set_self hcall) hserved ?_ h.once ?_
  · intro j other hj
    rcases set_cases hcall hj with ⟨-, rfl⟩ | ⟨-, hj⟩
    · exact hok
    · exact h.calls j other hj
  · intro j other hj hne
    rcases set_cases hcall hj with ⟨rfl, -⟩ | ⟨-, hj⟩
    · exact absurd rfl hne
    · refine h.idle j other hj ?_
      intro hsame
      exact hne (Server.serving.inj (hsame.symm.trans hserver))
  · intro j
    exact (h.handled j).trans (answered_set hcall hanswer).symm

/-- The handler is called for a connection that it has not been called for. -/
theorem Inv.handle {outcome : Except String Response} (h : Inv codec s)
    (hstep : step codec host s (.handle outcome) = some s') : Inv codec s' := by
  obtain ⟨i, call, call', next, hserver, hcall, hmoved, rfl⟩ := step_handle hstep
  obtain ⟨request, -, -, hnone, hanswer, hok, hserved, -, -⟩ :=
    (h.calls i call hcall).handle hmoved
  have hfresh : i ∉ s.handled := by
    intro hin
    obtain ⟨other, hother, hsome⟩ := (h.handled i).mp hin
    rw [hcall] at hother
    cases hother
    exact hsome hnone
  refine inv_proceed ?_ hserver (set_self hcall) hserved ?_ ?_ ?_
  · intro j other hj
    rcases set_cases hcall hj with ⟨-, rfl⟩ | ⟨-, hj⟩
    · exact hok
    · exact h.calls j other hj
  · intro j other hj hne
    rcases set_cases hcall hj with ⟨rfl, -⟩ | ⟨-, hj⟩
    · exact absurd rfl hne
    · refine h.idle j other hj ?_
      intro hsame
      exact hne (Server.serving.inj (hsame.symm.trans hserver))
  · refine List.nodup_append.mpr ⟨h.once, List.nodup_singleton i, ?_⟩
    intro a ha b hb
    rw [List.mem_singleton.mp hb]
    rintro rfl
    exact hfresh ha
  · intro j
    rw [List.mem_append, List.mem_singleton]
    show _ ↔ ∃ other, (s.calls.set i call')[j]? = some other ∧ _
    by_cases hj : j = i
    · subst hj
      refine iff_of_true (Or.inr rfl) ⟨call', set_self hcall, ?_⟩
      rw [hanswer]
      simp
    · rw [set_other hj, ← h.handled j]
      exact or_iff_left hj

theorem Inv.step {event : Event} (hcodec : codec.Faithful) (h : Inv codec s)
    (hstep : step codec host s event = some s') : Inv codec s' := by
  cases event with
  | connect request =>
      obtain ⟨hgone, rfl⟩ := step_connect hstep
      obtain ⟨hturn, hanswer, -⟩ := connect_fresh codec host request
      exact h.append hgone (callOk_connect request) hturn hanswer
  | client i event =>
      obtain ⟨call, call', hcall, hmoved, rfl⟩ := step_client hstep
      obtain ⟨hturn, hanswer, -⟩ := clientStep_keeps hmoved
      exact h.set hcall ((h.calls i call hcall).clientStep hcodec hmoved) hturn
        hanswer
  | kill i =>
      obtain ⟨call, hcall, -, rfl⟩ := step_kill hstep
      exact h.set hcall (h.calls i call hcall).kill rfl rfl
  | accept i => exact h.accept hstep
  | acceptFailed =>
      obtain ⟨haccepting, rfl⟩ := step_acceptFailed hstep
      refine Between.loopHead ⟨h.calls, ?_, h.once, h.handled⟩
      intro i call hcall
      refine h.idle i call hcall ?_
      rw [haccepting]
      simp
  | server event => exact h.server hcodec hstep
  | handle outcome => exact h.handle hstep
  | stop =>
      rcases step_stop hstep with ⟨-, rfl⟩ | ⟨hgone, rfl⟩
      · exact h.stopping true
      · exact (h.append hgone (callOk_connected none rfl) rfl rfl).stopping true

theorem Inv.run {events : List Event} (hcodec : codec.Faithful)
    (h : Inv codec s) (hrun : run codec host s events = some s') :
    Inv codec s' := by
  refine Library.runEvents_induction (P := fun _ s' => Inv codec s') h ?_ hrun
  intro _ a _ b _ ha hstep
  exact ha.step hcodec hstep

end Steps

/-! ## What stays as it is -/

/-- What was asked, answered and returned on a connection. -/
structure Kept (call call' : Call) : Prop where
  request : call'.request = call.request
  answer : call.answer ≠ none → call'.answer = call.answer
  returned : ∀ response, call.client = .returned response →
    call'.client = .returned response

/-- A later state: the connections have kept their places, and what was handled
was handled in this order. -/
structure Later (s s' : System) : Prop where
  handled : s.handled <+: s'.handled
  calls : ∀ (i : Nat) call, s.calls[i]? = some call →
    ∃ call', s'.calls[i]? = some call' ∧ Kept call call'

section Later

variable {s s' t : System} {i : Nat} {call call' : Call} {next : Next}

theorem Kept.refl (call : Call) : Kept call call :=
  ⟨rfl, fun _ => rfl, fun _ h => h⟩

theorem Later.refl (s : System) : Later s s :=
  ⟨List.prefix_refl _, fun _ call hcall => ⟨call, hcall, Kept.refl call⟩⟩

theorem Later.trans (h : Later s t) (h' : Later t s') : Later s s' := by
  refine ⟨h.handled.trans h'.handled, ?_⟩
  intro i call hcall
  obtain ⟨middle, hmiddle, hkept⟩ := h.calls i call hcall
  obtain ⟨last, hlast, hkept'⟩ := h'.calls i middle hmiddle
  refine ⟨last, hlast, hkept'.request.trans hkept.request, ?_, ?_⟩
  · intro hsome
    have hanswer := hkept.answer hsome
    rw [← hanswer]
    exact hkept'.answer (hanswer ▸ hsome)
  · intro response hreturned
    exact hkept'.returned response (hkept.returned response hreturned)

theorem Later.of_set (hcall : s.calls[i]? = some call) (hkept : Kept call call')
    (hcalls : t.calls = s.calls.set i call') (hhandled : s.handled <+: t.handled) :
    Later s t := by
  refine ⟨hhandled, ?_⟩
  intro j other hother
  rw [hcalls]
  by_cases hj : j = i
  · subst hj
    rw [hcall] at hother
    cases hother
    exact ⟨call', set_self hcall, hkept⟩
  · exact ⟨other, (set_other hj).trans hother, Kept.refl other⟩

theorem later_append (hcalls : t.calls = s.calls ++ [call])
    (hhandled : t.handled = s.handled) : Later s t := by
  refine ⟨by rw [hhandled], ?_⟩
  intro j other hother
  rw [hcalls]
  exact ⟨other, append_of_some hother, Kept.refl other⟩

theorem later_stopping (s : System) : Later s { s with stopping := true } :=
  ⟨List.prefix_refl _, fun _ call hcall => ⟨call, hcall, Kept.refl call⟩⟩

theorem later_hangUp (server : Server) (s : System) :
    Later s (hangUp server s) := by
  refine ⟨List.prefix_refl _, ?_⟩
  intro i call hcall
  exact ⟨{ call with turn := .closed }, by rw [getElem_hangUp, hcall]; rfl,
    rfl, fun _ => rfl, fun _ h => h⟩

theorem later_loopHead (s : System) : Later s (loopHead s) := by
  unfold loopHead
  split
  · exact later_hangUp .ended s
  · exact ⟨List.prefix_refl _, fun _ call hcall => ⟨call, hcall, Kept.refl call⟩⟩

theorem later_proceed (s : System) (next : Next) : Later s (proceed s next) := by
  cases next with
  | stay => exact Later.refl s
  | loop => exact later_loopHead s
  | stop => exact (later_stopping s).trans (later_hangUp .ended _)
  | die => exact later_hangUp .killed s

/-- A client that has returned makes no step. -/
theorem clientStep_kept {event : Ipc.Event}
    (h : clientStep codec host call event = some call') : Kept call call' := by
  obtain ⟨-, hanswer, hrequest, -⟩ := clientStep_keeps h
  refine ⟨hrequest, fun _ => hanswer, ?_⟩
  intro response hreturned
  rcases clientStep_cases h with ⟨hclient, -⟩ | ⟨hclient, -⟩ | ⟨hclient, -⟩
  · rw [hreturned] at hclient
    cases hclient
  · rw [hreturned] at hclient
    cases hclient
  · rw [hreturned] at hclient
    cases hclient

theorem step_later {event : Event} (hcodec : codec.Faithful)
    (h : Inv codec s) (hstep : step codec host s event = some s') :
    Later s s' := by
  cases event with
  | connect request =>
      obtain ⟨-, rfl⟩ := step_connect hstep
      exact later_append rfl rfl
  | client i event =>
      obtain ⟨call, call', hcall, hmoved, rfl⟩ := step_client hstep
      exact Later.of_set hcall (clientStep_kept hmoved) rfl (List.prefix_refl _)
  | kill i =>
      obtain ⟨call, hcall, hopen, rfl⟩ := step_kill hstep
      have hkept : Kept call { call with client := .failed } := by
        refine ⟨rfl, fun _ => rfl, ?_⟩
        intro response hreturned
        rw [hreturned] at hopen
        exact absurd hopen id
      exact Later.of_set hcall hkept rfl (List.prefix_refl _)
  | accept i =>
      obtain ⟨call, hcall, -, -, rfl⟩ := step_accept hstep
      have hkept : Kept call { call with
          turn := .receiving
          toServer := { call.toServer with reader := .size [] } } :=
        ⟨rfl, fun _ => rfl, fun _ h => h⟩
      exact Later.of_set hcall hkept rfl (List.prefix_refl _)
  | acceptFailed =>
      obtain ⟨-, rfl⟩ := step_acceptFailed hstep
      exact later_loopHead s
  | server event =>
      obtain ⟨i, call, call', next, -, hcall, hmoved, rfl⟩ := step_server hstep
      obtain ⟨hok, -, hclient, hanswer⟩ :=
        (h.calls i call hcall).serverStep hcodec hmoved
      have hrequest : call'.request = call.request := serverStep_request hmoved
      have hset : Later s { s with calls := s.calls.set i call' } :=
        Later.of_set hcall
          ⟨hrequest, fun _ => hanswer, fun _ h => hclient.trans h⟩ rfl
          (List.prefix_refl _)
      exact hset.trans (later_proceed _ next)
  | handle outcome =>
      obtain ⟨i, call, call', next, -, hcall, hmoved, rfl⟩ := step_handle hstep
      obtain ⟨request, -, -, hnone, -, -, -, hclient, -⟩ :=
        (h.calls i call hcall).handle hmoved
      have hset : Later s { s with
          calls := s.calls.set i call'
          stopRequested := s.stopRequested || callsStop call
          handled := s.handled ++ [i] } :=
        Later.of_set hcall
          ⟨handle_request hmoved, fun hsome => absurd hnone hsome,
            fun _ h => hclient.trans h⟩ rfl (List.prefix_append _ _)
      exact hset.trans (later_proceed _ next)
  | stop =>
      rcases step_stop hstep with ⟨-, rfl⟩ | ⟨-, rfl⟩
      · exact later_stopping s
      · exact later_append rfl rfl

theorem run_later {events : List Event} (hcodec : codec.Faithful)
    (h : Inv codec s) (hrun : run codec host s events = some s') :
    Later s s' := by
  have hboth : Inv codec s' ∧ Later s s' := by
    refine Library.runEvents_induction
      (P := fun _ s' => Inv codec s' ∧ Later s s') ⟨h, Later.refl s⟩ ?_ hrun
    intro _ a _ b _ ha hstep
    exact ⟨ha.1.step hcodec hstep, ha.2.trans (step_later hcodec ha.1 hstep)⟩
  exact hboth.2

end Later

/-! ## Any run -/

/-- A request is handled at most once, whatever the order of the steps and
whatever fails, and it is the one that the client has made; a client that
returns has the answer of the handler to its own request, in the version of the
protocol, and a request that the daemon does not support is answered with an
error.  What was handled and answered stays as it was, so that a request made
after a response has been returned is handled after it. -/
theorem requests_answered (codec : Codec) (host : Ipc.ByteOrder)
    (hcodec : codec.Faithful) (events : List Event) (s : System)
    (hrun : run codec host start events = some s) :
    s.handled.Nodup ∧
    (∀ i, i ∈ s.handled ↔
      ∃ call, s.calls[i]? = some call ∧ call.answer ≠ none) ∧
    (∀ (i : Nat) call, s.calls[i]? = some call →
      (∀ request response, call.answer = some (request, response) →
        call.request = some request ∧ Answers request response ∧
          response.protocolVersion = kProtocolVersion ∧
          ∀ error, commandOf request = .error error →
            response = { protocolVersion := kProtocolVersion, error := error }) ∧
      (∀ response, call.client = .returned response →
        ∃ request, call.request = some request ∧
          call.answer = some (request, response))) ∧
    (∀ more s', run codec host s more = some s' → Later s s') := by
  have hinv : Inv codec s := inv_start.run hcodec hrun
  refine ⟨hinv.once, hinv.handled, ?_, ?_⟩
  · intro i call hcall
    have hok := hinv.calls i call hcall
    constructor
    · intro request response hanswer
      obtain ⟨hrequest, outcome, rfl⟩ := hok.answer request response hanswer
      exact ⟨hrequest, ⟨outcome, rfl⟩, respond_protocolVersion outcome request,
        fun error herror => respond_of_error herror⟩
    · intro response hreturned
      have hclient := hok.client
      rw [hreturned] at hclient
      obtain ⟨-, -, -, request, hanswer⟩ := hclient
      exact ⟨request, (hok.answer request response hanswer).1, hanswer⟩
  · intro more s' hmore
    exact run_later hcodec hinv hmore

/-- `arkive-sync status`, and what the daemon answers. -/
def statusRequest : Request := { protocolVersion := 1, command := .status }

def runningResponse : Response :=
  { protocolVersion := 1, ok := true, state := "running" }

/-- The two messages as the library writes them. -/
def statusCodec : Codec :=
  { serializeRequest := fun message =>
      if message = statusRequest then some [8, 1, 16, 1] else none
    parseRequest := fun bytes =>
      if bytes = [8, 1, 16, 1] then some statusRequest else none
    serializeResponse := fun message =>
      if message = runningResponse then
        some [8, 1, 16, 1, 34, 7, 114, 117, 110, 110, 105, 110, 103]
      else none
    parseResponse := fun bytes =>
      if bytes = [8, 1, 16, 1, 34, 7, 114, 117, 110, 110, 105, 110, 103] then
        some runningResponse
      else none }

theorem statusCodec_faithful : statusCodec.Faithful := by
  constructor
  · intro message bytes message' hserialize hparse
    simp only [statusCodec, Option.ite_none_right_eq_some,
      Option.some.injEq] at hserialize hparse
    rw [hserialize.1, ← hparse.2]
  · intro message bytes message' hserialize hparse
    simp only [statusCodec, Option.ite_none_right_eq_some,
      Option.some.injEq] at hserialize hparse
    rw [hserialize.1, ← hparse.2]

def statusRun : List Event :=
  [.connect statusRequest, .client 0 (.write 4), .client 0 (.write 4),
    .accept 0, .server (.read 4), .server (.read 4),
    .handle (.ok { ok := true, state := "running" }), .server (.write 4),
    .server (.write 13), .client 0 (.read 4), .client 0 (.read 13)]

theorem requests_answered_status :
    ∃ s, run statusCodec .little start statusRun = some s ∧
      s.handled = [0] ∧ ∃ call, s.calls[0]? = some call ∧
        call.client = .returned runningResponse ∧
        call.answer = some (statusRequest, runningResponse) := by
  obtain ⟨s, hrun, hhandled, call, hcall, hrequest, hreturned⟩ :
      ∃ s, run statusCodec .little start statusRun = some s ∧
        s.handled = [0] ∧ ∃ call, s.calls[0]? = some call ∧
          call.request = some statusRequest ∧
          call.client = .returned runningResponse :=
    ⟨_, rfl, rfl, _, rfl, rfl, rfl⟩
  obtain ⟨request, hmade, hanswer⟩ := ((requests_answered statusCodec .little
    statusCodec_faithful statusRun s hrun).2.2.1 0 call hcall).2 _ hreturned
  have hsame : request = statusRequest :=
    Option.some.inj (hmade.symm.trans hrequest)
  exact ⟨s, hrun, hhandled, call, hcall, hreturned, hsame ▸ hanswer⟩

end ArkiveSync.DaemonCalls
