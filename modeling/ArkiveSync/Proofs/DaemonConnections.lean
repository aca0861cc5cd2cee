import ArkiveSync.Model.DaemonIpc
import ArkiveSync.Proofs.IpcFraming

/-!
# One connection to the daemon

The two ends of a connection share only the bytes between them.  `CallOk` says
what these bytes are: towards the server the request of this client, towards
the client the response to this request.  Both directions are framed, so that
either end parses what the other has serialized.

## Main results

* `Direction.writer_idle`: a message that has arrived has been written to its
  end, also when a later call of `write` fails.
* `CallOk.clientStep`, `CallOk.serverStep`, `CallOk.handle`: the steps of either
  end keep what the two can rely on.
-/

namespace ArkiveSync.DaemonConnections

open DaemonIpc

/-! ## Messages -/

/-- The message, if `send` has taken it. -/
def begun (message : Option Bytes) : List Bytes :=
  (message.filter (fun bytes => bytes.length ≤ Ipc.kMaxMessageSize)).toList

section Messages

variable {host : Ipc.ByteOrder} {message : Option Bytes}
variable {writer : Ipc.WriteState}

theorem begun_of_send_none (h : message.bind (Ipc.send host) = none) :
    begun message = [] := by
  cases message with
  | none => rfl
  | some bytes =>
      have hlong : Ipc.kMaxMessageSize < bytes.length :=
        IpcFraming.send_none_iff.mp h
      simp [begun, Option.filter, Nat.not_le.mpr hlong]

theorem begun_of_send_some (h : message.bind (Ipc.send host) = some writer) :
    ∃ bytes, message = some bytes ∧ begun message = [bytes] ∧
      bytes.length ≤ Ipc.kMaxMessageSize ∧ Ipc.send host bytes = some writer := by
  cases message with
  | none => cases h
  | some bytes =>
      have hsend : Ipc.send host bytes = some writer := h
      have hfits := (IpcFraming.send_some hsend).1
      exact ⟨bytes, rfl, by simp [begun, Option.filter, hfits], hfits, hsend⟩

theorem begun_eq_singleton {bytes : Bytes} (h : bytes ∈ begun message) :
    message = some bytes ∧ begun message = [bytes] := by
  unfold begun at h ⊢
  cases message with
  | none => cases h
  | some bytes' =>
      by_cases hfits : bytes'.length ≤ Ipc.kMaxMessageSize
      · rw [Option.filter_some_pos (by simpa using hfits)] at h ⊢
        cases List.mem_singleton.mp h
        exact ⟨rfl, rfl⟩
      · rw [Option.filter_some_neg (by simpa using hfits)] at h
        cases h

end Messages

/-! ## One direction -/

section Directions

variable {host : Ipc.ByteOrder} {messages : List Bytes}
variable {s s' : Ipc.Connection} {event : Ipc.Event}

/-- A direction of a connection.  After a failed write it is as if the bytes
that were not written were still to come. -/
structure Direction (messages : List Bytes) (s : Ipc.Connection) : Prop where
  inv : IpcFraming.Inv messages s
  cut : s.writer = .failed → ∃ writer, Ipc.unwritten writer ≠ [] ∧
    IpcFraming.Inv messages { s with writer := writer }

theorem direction_start : Direction [] Ipc.start :=
  ⟨IpcFraming.inv_start, fun h => by cases h⟩

theorem sent_of_isWrite (h : isWrite event = true) : Ipc.sent [event] = [] := by
  cases event <;> first | rfl | cases h

theorem sent_of_isRead (h : isRead event = true) : Ipc.sent [event] = [] := by
  cases event <;> first | rfl | cases h

/-- The writing end does not touch the reading end. -/
theorem step_isWrite (h : isWrite event = true)
    (hstep : Ipc.step host host s event = some s') :
    s'.reader = s.reader ∧ s'.received = s.received ∧
      (s'.writer = .failed → s.stream = s'.stream ∧
        Ipc.unwritten s.writer ≠ []) := by
  cases event with
  | write n =>
      obtain ⟨hsome, -, -, rfl⟩ := Ipc.step_write hstep
      refine ⟨rfl, rfl, ?_⟩
      intro hfailed
      exact absurd hfailed (IpcFraming.wrote_ne_failed hsome _)
  | writeInterrupted =>
      have hsame := Ipc.step_interrupted (Or.inl rfl) hstep
      subst hsame
      simp only [Ipc.step, Option.ite_none_right_eq_some] at hstep
      exact ⟨rfl, rfl, fun _ => ⟨rfl, hstep.1⟩⟩
  | writeFailed =>
      have hnext := Ipc.step_writeFailed hstep
      simp only [Ipc.step, Option.ite_none_right_eq_some] at hstep
      subst hnext
      exact ⟨rfl, rfl, fun _ => ⟨rfl, hstep.1⟩⟩
  | send message => cases h
  | receive => cases h
  | read n => cases h
  | readInterrupted => cases h
  | readFailed => cases h

/-- The reading end does not touch the writing end, and does not depend on
it. -/
theorem step_isRead (h : isRead event = true) (writer : Ipc.WriteState)
    (hstep : Ipc.step host host s event = some s') :
    s'.writer = s.writer ∧
      Ipc.step host host { s with writer := writer } event =
        some { s' with writer := writer } := by
  cases event with
  | read n =>
      obtain ⟨hpos, hwanted, hstream, rfl⟩ := Ipc.step_read hstep
      exact ⟨rfl, if_pos ⟨hpos, hwanted, hstream⟩⟩
  | readInterrupted =>
      have hsame := Ipc.step_interrupted (Or.inr rfl) hstep
      subst hsame
      simp only [Ipc.step, Option.ite_none_right_eq_some] at hstep
      exact ⟨rfl, if_pos hstep.1⟩
  | readFailed =>
      obtain ⟨hwanted, rfl⟩ := Ipc.step_readFailed hstep
      exact ⟨rfl, if_pos hwanted⟩
  | send message => cases h
  | receive => cases h
  | write n => cases h
  | writeInterrupted => cases h
  | writeFailed => cases h

theorem Direction.write (hs : Direction messages s) (h : isWrite event = true)
    (hstep : Ipc.step host host s event = some s') : Direction messages s' := by
  have hinv := hs.inv.step hstep
  rw [sent_of_isWrite h, List.append_nil] at hinv
  refine ⟨hinv, ?_⟩
  intro hfailed
  obtain ⟨hreader, hreceived, hcut⟩ := step_isWrite h hstep
  obtain ⟨hstream, hunwritten⟩ := hcut hfailed
  have hsame : { s' with writer := s.writer } = s := by
    rw [hreader, hreceived, ← hstream]
  exact ⟨s.writer, hunwritten, hsame ▸ hs.inv⟩

theorem Direction.read (hs : Direction messages s) (h : isRead event = true)
    (hstep : Ipc.step host host s event = some s') : Direction messages s' := by
  have hinv := hs.inv.step hstep
  rw [sent_of_isRead h, List.append_nil] at hinv
  refine ⟨hinv, ?_⟩
  intro hfailed
  have hwriter := (step_isRead h s.writer hstep).1
  obtain ⟨writer, hunwritten, hwhole⟩ := hs.cut (hwriter ▸ hfailed)
  have hnext := hwhole.step (step_isRead h writer hstep).2
  rw [sent_of_isRead h, List.append_nil] at hnext
  exact ⟨writer, hunwritten, hnext⟩

theorem step_receive_of_idle (hidle : s.reader = .idle) :
    Ipc.step .little .little s .receive =
      some { s with reader := .size [] } := if_pos hidle

/-- A call of `receive` begins. -/
theorem Direction.receive (hs : Direction messages s) (hidle : s.reader = .idle) :
    Direction messages { s with reader := .size [] } := by
  have hinv := hs.inv.receive (step_receive_of_idle hidle)
  refine ⟨hinv, ?_⟩
  intro hfailed
  obtain ⟨writer, hunwritten, hwhole⟩ := hs.cut hfailed
  exact ⟨writer, hunwritten,
    hwhole.receive (step_receive_of_idle hidle)⟩

/-- A message that `send` takes is outstanding. -/
theorem Direction.send {bytes : Bytes} {writer : Ipc.WriteState}
    (hs : Direction [] s) (hidle : s.writer = .idle)
    (hsend : Ipc.send host bytes = some writer) :
    Direction [bytes] { s with writer := writer } := by
  obtain ⟨hfits, hwriter⟩ := IpcFraming.send_some hsend
  have hstep : Ipc.step host host s (.send bytes) =
      some { s with writer := writer } := by
    simp only [Ipc.step]
    rw [if_pos hidle, hsend]
  have hinv := hs.inv.send hstep
  rw [IpcFraming.sent_send_of_le hfits] at hinv
  refine ⟨hinv, ?_⟩
  intro hfailed
  rw [hwriter] at hfailed
  cases hfailed

/-- When everything has been received, nothing was left to write. -/
theorem pending_of_received (hinv : IpcFraming.Inv messages s)
    (hreceived : s.received = messages) (hwriter : s.writer ≠ .failed)
    (hreader : s.reader ≠ .failed) : IpcFraming.pending s.writer = [] := by
  obtain ⟨rest, hmessages, hbytes⟩ := hinv.outstanding
  obtain ⟨left, hleft, hall⟩ := hbytes hreader
  have hrest : rest = [] := by
    rw [hreceived] at hmessages
    exact List.append_right_eq_self.mp hmessages.symm
  rw [hrest, List.flatMap_nil, List.append_eq_nil_iff,
    List.append_eq_nil_iff] at hall
  rw [← hleft hwriter]
  exact hall.2.2

theorem pending_ne_nil {writer : Ipc.WriteState}
    (h : Ipc.unwritten writer ≠ []) : IpcFraming.pending writer ≠ [] := by
  cases writer with
  | size left message =>
      intro hnil
      exact h (List.append_eq_nil_iff.mp hnil).1
  | body left => exact h
  | idle => exact absurd rfl h
  | failed => exact absurd rfl h

/-- A writing end that is not between two messages has something to write. -/
theorem unwritten_ne_nil {writer : Ipc.WriteState}
    (hok : IpcFraming.WriterOk writer) (hidle : writer ≠ .idle)
    (hfailed : writer ≠ .failed) : Ipc.unwritten writer ≠ [] := by
  cases writer with
  | size left message => exact hok
  | body left => exact hok
  | idle => exact absurd rfl hidle
  | failed => exact absurd rfl hfailed

theorem Direction.writer_idle (hs : Direction messages s)
    (hreceived : s.received = messages) (hreader : s.reader ≠ .failed) :
    s.writer = .idle := by
  by_contra hidle
  by_cases hfailed : s.writer = .failed
  · obtain ⟨writer, hunwritten, hwhole⟩ := hs.cut hfailed
    have hne : writer ≠ .failed := by
      rintro rfl
      exact hunwritten rfl
    exact pending_ne_nil hunwritten
      (pending_of_received hwhole hreceived hne hreader)
  · exact pending_ne_nil (unwritten_ne_nil hs.inv.writer hidle hfailed)
      (pending_of_received hs.inv hreceived hfailed hreader)

/-- A received message is the one that was sent. -/
theorem Direction.received_cons {message : Option Bytes} {bytes : Bytes}
    {rest : List Bytes} (hs : Direction (begun message) s)
    (hreceived : s.received = bytes :: rest) :
    message = some bytes ∧ s.received = begun message := by
  obtain ⟨later, hmessages, -⟩ := hs.inv.outstanding
  have hmem : bytes ∈ begun message := by
    rw [hmessages, hreceived]
    exact List.mem_append_left _ List.mem_cons_self
  obtain ⟨hsome, hbegun⟩ := begun_eq_singleton hmem
  refine ⟨hsome, ?_⟩
  rw [hbegun, hreceived, List.cons_append] at hmessages
  obtain ⟨-, hnil⟩ := List.cons.inj hmessages
  rw [hreceived, hbegun, (List.append_eq_nil_iff.mp hnil.symm).1]

/-- A call of `receive` that goes on has not returned. -/
theorem step_isRead_idle (h : isRead event = true)
    (hstep : Ipc.step host host s event = some s') (hreader : s.reader ≠ .idle)
    (hreceived : s'.received = []) : s'.reader ≠ .idle := by
  cases event with
  | read n =>
      obtain ⟨-, -, -, rfl⟩ := Ipc.step_read hstep
      have hnone := (List.append_eq_nil_iff.mp hreceived).2
      intro hidle
      cases hs : s.reader with
      | size got =>
          simp only [hs, Ipc.readSome] at hidle hnone
          split_ifs at hidle hnone
          simp at hnone
      | body size got =>
          simp only [hs, Ipc.readSome] at hidle hnone
          split_ifs at hidle hnone
          simp at hnone
      | idle => exact hreader hs
      | rejected =>
          rw [hs] at hidle
          cases hidle
      | failed =>
          rw [hs] at hidle
          cases hidle
  | readInterrupted =>
      cases Ipc.step_interrupted (Or.inr rfl) hstep
      exact hreader
  | readFailed =>
      obtain ⟨-, rfl⟩ := Ipc.step_readFailed hstep
      simp
  | send message => cases h
  | receive => cases h
  | write n => cases h
  | writeInterrupted => cases h
  | writeFailed => cases h

/-- A call of `write`, or of `read`, that makes an end fail has failed. -/
theorem writeFailed_of_failed (hevent : isWrite event = true)
    (hstep : Ipc.step host host s event = some s') (hs : s.writer ≠ .failed)
    (hfailed : s'.writer = .failed) : event = .writeFailed := by
  cases event with
  | writeFailed => rfl
  | write n =>
      obtain ⟨hsome, -, -, rfl⟩ := Ipc.step_write hstep
      exact absurd hfailed (IpcFraming.wrote_ne_failed hsome _)
  | writeInterrupted =>
      cases Ipc.step_interrupted (Or.inl rfl) hstep
      exact absurd hfailed hs
  | send message => cases hevent
  | receive => cases hevent
  | read n => cases hevent
  | readInterrupted => cases hevent
  | readFailed => cases hevent

theorem readFailed_of_failed (hevent : isRead event = true)
    (hstep : Ipc.step host host s event = some s') (hs : s.reader ≠ .failed)
    (hfailed : s'.reader = .failed) : event = .readFailed := by
  cases event with
  | readFailed => rfl
  | read n =>
      obtain ⟨hpos, hwanted, -, rfl⟩ := Ipc.step_read hstep
      exact absurd hfailed
        (IpcFraming.readSome_ne_failed (Nat.lt_of_lt_of_le hpos hwanted))
  | readInterrupted =>
      cases Ipc.step_interrupted (Or.inr rfl) hstep
      exact absurd hfailed hs
  | send message => cases hevent
  | receive => cases hevent
  | write n => cases hevent
  | writeInterrupted => cases hevent
  | writeFailed => cases hevent

end Directions

/-! ## One connection -/

/-- The messages that the client, and the server, has begun to send. -/
def requests (codec : Codec) (call : Call) : List Bytes :=
  begun (call.request.bind codec.serializeRequest)

def replies (codec : Codec) (call : Call) : List Bytes :=
  begun (call.answer.bind (fun answer => codec.serializeResponse answer.2))

/-- What holds where the client is. -/
def ClientOk : Client → Call → Prop
  | .sending, call =>
      call.toServer.writer ≠ .idle ∧ call.toServer.writer ≠ .failed ∧
        call.toClient.reader = .idle ∧ call.toClient.received = []
  | .receiving, call =>
      call.toServer.writer = .idle ∧ call.toClient.received = [] ∧
        call.toClient.reader ≠ .idle ∧ call.toClient.reader ≠ .failed
  | .returned response, call =>
      call.turn = .closed ∧ call.toClient.writer = .idle ∧
        call.toClient.received ≠ [] ∧
        ∃ request, call.answer = some (request, response)
  | .failed, _ => True

/-- What holds where the server is with the connection. -/
def TurnOk : Turn → Call → Prop
  | .waiting, call =>
      call.answer = none ∧ call.toServer.received = [] ∧
        call.toServer.reader = .idle ∧ call.toClient.writer = .idle
  | .receiving, call =>
      call.answer = none ∧ call.toServer.received = [] ∧
        call.toServer.reader ≠ .idle ∧ call.toServer.reader ≠ .failed ∧
        call.toClient.writer = .idle
  | .handling request, call =>
      call.answer = none ∧ call.request = some request ∧
        call.toClient.writer = .idle ∧ call.toServer.received ≠ []
  | .sending request, call =>
      (∃ response, call.answer = some (request, response)) ∧
        call.toClient.writer ≠ .idle ∧ call.toClient.writer ≠ .failed ∧
        call.toServer.received ≠ []
  | .closed, _ => True

/-- What holds of the server's turn does not depend on the other fields. -/
theorem TurnOk.congr {turn : Turn} {a b : Call} (h : TurnOk turn a)
    (hanswer : b.answer = a.answer) (hrequest : b.request = a.request)
    (hreceived : b.toServer.received = a.toServer.received)
    (hreader : b.toServer.reader = a.toServer.reader)
    (hwriter : b.toClient.writer = a.toClient.writer) : TurnOk turn b := by
  cases turn with
  | waiting => rwa [TurnOk, hanswer, hreceived, hreader, hwriter]
  | receiving => rwa [TurnOk, hanswer, hreceived, hreader, hwriter]
  | handling request => rwa [TurnOk, hanswer, hrequest, hwriter, hreceived]
  | sending request => rwa [TurnOk, hanswer, hwriter, hreceived]
  | closed => trivial

/-- What holds of a client that has not ended depends on its own ends. -/
theorem ClientOk.congr {client : Client} {a b : Call} (h : ClientOk client a)
    (hwriter : b.toServer.writer = a.toServer.writer)
    (hreader : b.toClient.reader = a.toClient.reader)
    (hreceived : b.toClient.received = a.toClient.received)
    (hclosed : client.Open ∨ a.turn ≠ .closed) : ClientOk client b := by
  cases client with
  | sending => rwa [ClientOk, hwriter, hreader, hreceived]
  | receiving => rwa [ClientOk, hwriter, hreceived, hreader]
  | returned response =>
      rcases hclosed with hopen | hne
      · exact absurd hopen id
      · exact absurd h.1 hne
  | failed => trivial

structure CallOk (codec : Codec) (call : Call) : Prop where
  toServer : Direction (requests codec call) call.toServer
  toClient : Direction (replies codec call) call.toClient
  client : ClientOk call.client call
  turn : TurnOk call.turn call
  answer : ∀ request response, call.answer = some (request, response) →
    call.request = some request ∧ Answers request response
  asked : call.client.Open → requests codec call ≠ []

section Calls

variable {codec : Codec} {host : Ipc.ByteOrder} {call call' : Call}
variable {event : Ipc.Event}

theorem begun_none : begun none = [] := rfl

theorem callOk_connected (request : Option Request)
    (h : begun (request.bind codec.serializeRequest) = []) :
    CallOk codec (connected request .failed) :=
  { toServer := by
      show Direction (begun (request.bind codec.serializeRequest)) Ipc.start
      rw [h]
      exact direction_start
    toClient := direction_start
    client := trivial
    turn := ⟨rfl, rfl, rfl, rfl⟩
    answer := fun _ _ hanswer => by cases hanswer
    asked := fun hopen => absurd hopen id }

theorem callOk_connect (request : Request) :
    CallOk codec (connect codec host request) := by
  unfold connect
  cases hsend : (codec.serializeRequest request).bind (Ipc.send host) with
  | none => exact callOk_connected (some request) (begun_of_send_none hsend)
  | some writer =>
      obtain ⟨bytes, -, hbegun, -, htaken⟩ := begun_of_send_some hsend
      have hwriter := (IpcFraming.send_some htaken).2
      have hdirection := direction_start.send rfl htaken
      refine ⟨?_, direction_start, ?_, ⟨rfl, rfl, rfl, rfl⟩, ?_, ?_⟩
      · show Direction (begun (codec.serializeRequest request)) _
        rw [hbegun]
        exact hdirection
      · show writer ≠ .idle ∧ writer ≠ .failed ∧ _
        rw [hwriter]
        exact ⟨by simp, by simp, rfl, rfl⟩
      · intro _ _ hanswer
        cases hanswer
      · intro _
        show begun (codec.serializeRequest request) ≠ []
        rw [hbegun]
        exact List.cons_ne_nil _ _

theorem CallOk.hangUp (h : CallOk codec call) :
    CallOk codec { call with turn := .closed } := by
  refine ⟨h.toServer, h.toClient, ?_, trivial, h.answer, h.asked⟩
  have hclient := h.client
  show ClientOk call.client _
  cases hc : call.client with
  | sending => rwa [hc] at hclient
  | receiving => rwa [hc] at hclient
  | returned response =>
      rw [hc] at hclient
      exact ⟨rfl, hclient.2⟩
  | failed => trivial

theorem CallOk.kill (h : CallOk codec call) :
    CallOk codec { call with client := .failed } := by
  exact ⟨h.toServer, h.toClient, trivial, h.turn.congr rfl rfl rfl rfl rfl,
    h.answer, fun hopen => absurd hopen id⟩

theorem CallOk.accept (h : CallOk codec call) (hwaiting : call.turn = .waiting) :
    CallOk codec { call with
      turn := .receiving
      toServer := { call.toServer with reader := .size [] } } := by
  have hturn := h.turn
  rw [hwaiting] at hturn
  obtain ⟨hanswer, hreceived, hreader, hwriter⟩ := hturn
  refine ⟨h.toServer.receive hreader, h.toClient, ?_, ?_, h.answer, h.asked⟩
  · exact h.client.congr rfl rfl rfl (Or.inr (by rw [hwaiting]; simp))
  · exact ⟨hanswer, hreceived, by simp, by simp, hwriter⟩

/-! ### The client -/

/-- A system call of `send` in the client. -/
theorem CallOk.clientSent {connection : Ipc.Connection} (h : CallOk codec call)
    (hclient : call.client = .sending) (hevent : isWrite event = true)
    (hstep : Ipc.step host host call.toServer event = some connection) :
    CallOk codec (clientSent { call with toServer := connection }) := by
  obtain ⟨hreader, hreceived, -⟩ := step_isWrite hevent hstep
  have hdirection := h.toServer.write hevent hstep
  have hsending := h.client
  rw [hclient] at hsending
  obtain ⟨-, -, hidle, hnone⟩ := hsending
  have hbegun : requests codec call ≠ [] :=
    h.asked (by rw [hclient]; trivial)
  unfold DaemonIpc.clientSent
  dsimp only
  split
  next hwriter =>
    exact ⟨hdirection, h.toClient.receive hidle,
      ⟨hwriter, hnone, by simp, by simp⟩,
      h.turn.congr rfl rfl hreceived hreader rfl, h.answer, fun _ => hbegun⟩
  next =>
    exact ⟨hdirection, h.toClient, trivial,
      h.turn.congr rfl rfl hreceived hreader rfl, h.answer, fun _ => hbegun⟩
  next hne hnf =>
    refine ⟨hdirection, h.toClient, ?_,
      h.turn.congr rfl rfl hreceived hreader rfl, h.answer, fun _ => hbegun⟩
    show ClientOk call.client _
    rw [hclient]
    exact ⟨hne, hnf, hidle, hnone⟩

/-- The message that has been received is complete, so the server has sent all
of it. -/
theorem closed_of_received (codec : Codec) (call : Call) {bytes : Bytes}
    {rest : List Bytes}
    (hdirection : Direction (replies codec call) call.toClient)
    (hturn : TurnOk call.turn call)
    (hreceived : call.toClient.received = bytes :: rest)
    (hreader : call.toClient.reader ≠ .failed) :
    call.turn = .closed ∧ call.toClient.writer = .idle := by
  obtain ⟨hmessage, hall⟩ := hdirection.received_cons hreceived
  have hidle : call.toClient.writer = .idle := hdirection.writer_idle hall hreader
  refine ⟨?_, hidle⟩
  have hsome : call.answer ≠ none := by
    intro hnone
    rw [hnone] at hmessage
    cases hmessage
  cases ht : call.turn with
  | waiting =>
      rw [ht] at hturn
      exact absurd hturn.1 hsome
  | receiving =>
      rw [ht] at hturn
      exact absurd hturn.1 hsome
  | handling request =>
      rw [ht] at hturn
      exact absurd hturn.1 hsome
  | sending request =>
      rw [ht] at hturn
      exact absurd hidle hturn.2.1
  | closed => rfl

/-- What the client parses is what the server has serialized. -/
theorem parsed (call : Call) {bytes : Bytes} {rest : List Bytes}
    {response : Response} (hcodec : codec.Faithful)
    (hdirection : Direction (replies codec call) call.toClient)
    (hreceived : call.toClient.received = bytes :: rest)
    (hparse : codec.parseResponse bytes = some response) :
    ∃ request, call.answer = some (request, response) := by
  obtain ⟨hmessage, -⟩ := hdirection.received_cons hreceived
  obtain ⟨⟨request, answer⟩, hanswer, hbytes⟩ :=
    Option.bind_eq_some_iff.mp hmessage
  have hsame : response = answer :=
    hcodec.response answer bytes response hbytes hparse
  exact ⟨request, hsame ▸ hanswer⟩

/-- A message is not returned by a call that has failed. -/
theorem step_isRead_failed {s s' : Ipc.Connection} (h : isRead event = true)
    (hstep : Ipc.step host host s event = some s') (hreceived : s.received = [])
    (hsome : s'.received ≠ []) : s'.reader ≠ .failed := by
  cases event with
  | read n =>
      obtain ⟨hpos, hwanted, -, rfl⟩ := Ipc.step_read hstep
      exact IpcFraming.readSome_ne_failed (Nat.lt_of_lt_of_le hpos hwanted)
  | readInterrupted =>
      cases Ipc.step_interrupted (Or.inr rfl) hstep
      exact absurd hreceived hsome
  | readFailed =>
      obtain ⟨-, rfl⟩ := Ipc.step_readFailed hstep
      exact absurd hreceived hsome
  | send message => cases h
  | receive => cases h
  | write n => cases h
  | writeInterrupted => cases h
  | writeFailed => cases h

/-- A system call of `receive` in the client. -/
theorem CallOk.clientReceived {connection : Ipc.Connection}
    (hcodec : codec.Faithful) (h : CallOk codec call)
    (hclient : call.client = .receiving) (hevent : isRead event = true)
    (hstep : Ipc.step host host call.toClient event = some connection) :
    CallOk codec (clientReceived codec { call with toClient := connection }) := by
  have hwriter := (step_isRead hevent .idle hstep).1
  have hdirection : Direction (replies codec call) connection :=
    h.toClient.read hevent hstep
  have hreceiving := h.client
  rw [hclient] at hreceiving
  obtain ⟨hidle, hnone, hreader, -⟩ := hreceiving
  have hturn : TurnOk call.turn { call with toClient := connection } :=
    h.turn.congr rfl rfl rfl rfl hwriter
  unfold DaemonIpc.clientReceived
  dsimp only
  cases hreceived : connection.received with
  | cons bytes rest =>
      have hunfailed : connection.reader ≠ .failed :=
        step_isRead_failed hevent hstep hnone (by rw [hreceived]; simp)
      obtain ⟨hclosed, hsent⟩ := closed_of_received codec
        { call with toClient := connection } hdirection hturn hreceived hunfailed
      dsimp only
      cases hparse : codec.parseResponse bytes with
      | some response =>
          have hanswer := parsed { call with toClient := connection } hcodec
            hdirection hreceived hparse
          exact ⟨h.toServer, hdirection,
            ⟨hclosed, hsent, by rw [hreceived]; simp, hanswer⟩,
            hturn.congr rfl rfl rfl rfl rfl, h.answer,
            fun hopen => absurd hopen id⟩
      | none =>
          exact ⟨h.toServer, hdirection, trivial,
            hturn.congr rfl rfl rfl rfl rfl, h.answer,
            fun hopen => absurd hopen id⟩
  | nil =>
      have hbusy : connection.reader ≠ .idle :=
        step_isRead_idle hevent hstep hreader hreceived
      have hfailed : CallOk codec { call with
          client := .failed
          toClient := connection } :=
        ⟨h.toServer, hdirection, trivial, hturn.congr rfl rfl rfl rfl rfl,
          h.answer, fun hopen => absurd hopen id⟩
      dsimp only
      split
      next => exact hfailed
      next => exact hfailed
      next hunfailed hrejected =>
        refine ⟨h.toServer, hdirection, ?_, hturn, h.answer, h.asked⟩
        show ClientOk call.client _
        rw [hclient]
        exact ⟨hidle, hreceived, hbusy, hunfailed⟩

/-- What the steps of a client leave as it is. -/
theorem clientSent_keeps (call : Call) :
    (clientSent call).turn = call.turn ∧
      (clientSent call).answer = call.answer ∧
      (clientSent call).request = call.request ∧
      (clientSent call).toClient.writer = call.toClient.writer := by
  unfold clientSent
  split <;> exact ⟨rfl, rfl, rfl, rfl⟩

theorem clientReceived_keeps (codec : Codec) (call : Call) :
    (clientReceived codec call).turn = call.turn ∧
      (clientReceived codec call).answer = call.answer ∧
      (clientReceived codec call).request = call.request ∧
      (clientReceived codec call).toClient.writer = call.toClient.writer := by
  unfold clientReceived
  split
  next => split <;> exact ⟨rfl, rfl, rfl, rfl⟩
  next => split <;> exact ⟨rfl, rfl, rfl, rfl⟩

/-- A system call of the client. -/
theorem clientStep_cases (h : clientStep codec host call event = some call') :
    (call.client = .sending ∧ isWrite event = true ∧ call.turn = .closed ∧
      call' = { call with client := .failed }) ∨
    (call.client = .sending ∧ isWrite event = true ∧ call.turn ≠ .closed ∧
      ∃ connection,
        Ipc.step host host call.toServer event = some connection ∧
        call' = clientSent { call with toServer := connection }) ∨
    (call.client = .receiving ∧ isRead event = true ∧ ∃ connection,
      Ipc.step host host call.toClient event = some connection ∧
        call' = clientReceived codec { call with toClient := connection }) := by
  unfold clientStep at h
  cases hclient : call.client with
  | sending =>
      rw [hclient] at h
      dsimp only at h
      simp only [Option.ite_none_right_eq_some] at h
      obtain ⟨hevent, h⟩ := h
      by_cases hclosed : call.turn = .closed
      · rw [if_pos hclosed] at h
        exact Or.inl ⟨rfl, hevent, hclosed, (Option.some.inj h).symm⟩
      · rw [if_neg hclosed] at h
        obtain ⟨connection, hstep, hcall⟩ := Option.map_eq_some_iff.mp h
        exact Or.inr (Or.inl
          ⟨rfl, hevent, hclosed, connection, hstep, hcall.symm⟩)
  | receiving =>
      rw [hclient] at h
      dsimp only at h
      simp only [Option.ite_none_right_eq_some] at h
      obtain ⟨hevent, h⟩ := h
      obtain ⟨connection, hstep, hcall⟩ := Option.map_eq_some_iff.mp h
      exact Or.inr (Or.inr ⟨rfl, hevent, connection, hstep, hcall.symm⟩)
  | returned response =>
      rw [hclient] at h
      cases h
  | failed =>
      rw [hclient] at h
      cases h

theorem CallOk.clientStep (hcodec : codec.Faithful) (h : CallOk codec call)
    (hstep : clientStep codec host call event = some call') :
    CallOk codec call' := by
  rcases clientStep_cases hstep with ⟨-, -, -, rfl⟩ |
    ⟨hclient, hevent, -, connection, hmoved, rfl⟩ |
    ⟨hclient, hevent, connection, hmoved, rfl⟩
  · exact h.kill
  · exact h.clientSent hclient hevent hmoved
  · exact h.clientReceived hcodec hclient hevent hmoved

theorem clientStep_keeps (h : clientStep codec host call event = some call') :
    call'.turn = call.turn ∧ call'.answer = call.answer ∧
      call'.request = call.request ∧
      call'.toClient.writer = call.toClient.writer := by
  rcases clientStep_cases h with ⟨-, -, -, rfl⟩ |
    ⟨-, -, -, connection, -, rfl⟩ | ⟨-, hevent, connection, hmoved, rfl⟩
  · exact ⟨rfl, rfl, rfl, rfl⟩
  · exact clientSent_keeps _
  · obtain ⟨hturn, hanswer, hrequest, hwriter⟩ := clientReceived_keeps codec
      { call with toClient := connection }
    exact ⟨hturn, hanswer, hrequest,
      hwriter.trans (step_isRead hevent .idle hmoved).1⟩

/-! ### The server -/

/-- The server has taken the connection and has not closed it. -/
def Busy : Turn → Prop
  | .receiving => True
  | .handling _ => True
  | .sending _ => True
  | _ => False

theorem Busy.ne_closed {turn : Turn} (h : Busy turn) : turn ≠ .closed := by
  rintro rfl
  exact h

/-- How the server leaves a connection with a system call or an answer. -/
structure Served (call' : Call) (next : Next) : Prop where
  stay : next = .stay → Busy call'.turn
  close : next ≠ .stay → call'.turn = .closed

theorem Served.of_closed {next : Next} (hnext : next ≠ .stay)
    (hturn : call'.turn = .closed) : Served call' next :=
  ⟨fun h => absurd h hnext, fun _ => hturn⟩

/-- A system call of `receive` in the server. -/
theorem CallOk.serverReceived {connection : Ipc.Connection} {next : Next}
    (hcodec : codec.Faithful) (h : CallOk codec call)
    (hturn : call.turn = .receiving) (hevent : isRead event = true)
    (hstep : Ipc.step host host call.toServer event = some connection)
    (hnext : serverReceived codec { call with toServer := connection } =
      (call', next)) :
    CallOk codec call' ∧ Served call' next ∧ call'.client = call.client ∧
      call'.answer = none ∧ (next = .stay ∨ next = .loop) := by
  have hwriter := (step_isRead hevent .idle hstep).1
  have hdirection : Direction (requests codec call) connection :=
    h.toServer.read hevent hstep
  have hreceiving := h.turn
  rw [hturn] at hreceiving
  obtain ⟨hanswer, -, hreader, -, hidle⟩ := hreceiving
  have hopen : call.turn ≠ .closed := by
    rw [hturn]
    simp
  have hclosed : CallOk codec { call with
      turn := .closed
      toServer := connection } :=
    ⟨hdirection, h.toClient, h.client.congr hwriter rfl rfl (Or.inr hopen),
      trivial, h.answer, h.asked⟩
  have hloop : Served { call with
      turn := .closed
      toServer := connection } .loop :=
    Served.of_closed (by simp) rfl
  unfold DaemonIpc.serverReceived at hnext
  dsimp only at hnext
  cases hreceived : connection.received with
  | cons bytes rest =>
      rw [hreceived] at hnext
      dsimp only at hnext
      cases hparse : codec.parseRequest bytes with
      | some request =>
          rw [hparse] at hnext
          cases hnext
          obtain ⟨hmessage, -⟩ := hdirection.received_cons hreceived
          obtain ⟨sent, hsent, hbytes⟩ := Option.bind_eq_some_iff.mp hmessage
          have hsame : request = sent :=
            hcodec.request sent bytes request hbytes hparse
          subst hsame
          exact ⟨⟨hdirection, h.toClient,
            h.client.congr hwriter rfl rfl (Or.inr hopen),
            ⟨hanswer, hsent, hidle, by rw [hreceived]; simp⟩, h.answer,
            h.asked⟩,
            ⟨fun _ => trivial, fun hne => absurd rfl hne⟩, rfl, hanswer,
            Or.inl rfl⟩
      | none =>
          rw [hparse] at hnext
          cases hnext
          exact ⟨hclosed, hloop, rfl, hanswer, Or.inr rfl⟩
  | nil =>
      rw [hreceived] at hnext
      have hbusy : connection.reader ≠ .idle :=
        step_isRead_idle hevent hstep hreader hreceived
      dsimp only at hnext
      split at hnext
      next =>
        cases hnext
        exact ⟨hclosed, hloop, rfl, hanswer, Or.inr rfl⟩
      next =>
        cases hnext
        exact ⟨hclosed, hloop, rfl, hanswer, Or.inr rfl⟩
      next hunfailed hrejected =>
        cases hnext
        refine ⟨⟨hdirection, h.toClient,
          h.client.congr hwriter rfl rfl (Or.inr hopen), ?_, h.answer, h.asked⟩,
          ⟨fun _ => ?_, fun hne => absurd rfl hne⟩, rfl, hanswer, Or.inl rfl⟩
        · show TurnOk call.turn _
          rw [hturn]
          exact ⟨hanswer, hreceived, hbusy, hunfailed, hidle⟩
        · show Busy call.turn
          rw [hturn]
          trivial

/-- A system call of `send` in the server. -/
theorem CallOk.serverSent {connection : Ipc.Connection} {next : Next}
    {request : Request} (h : CallOk codec call)
    (hturn : call.turn = .sending request) (hevent : isWrite event = true)
    (hstep : Ipc.step host host call.toClient event = some connection)
    (hnext : serverSent request { call with toClient := connection } =
      (call', next)) :
    CallOk codec call' ∧ Served call' next ∧ call'.client = call.client ∧
      call'.answer = call.answer ∧ next ≠ .die ∧
      (next = .stop → request.command = .stop) ∧
      (call'.toClient.writer = .idle → request.command = .stop →
        next = .stop) := by
  obtain ⟨hreader, hreceived, -⟩ := step_isWrite hevent hstep
  have hdirection : Direction (replies codec call) connection :=
    h.toClient.write hevent hstep
  have hsending := h.turn
  rw [hturn] at hsending
  have hopen : call.turn ≠ .closed := by
    rw [hturn]
    simp
  have hclosed : CallOk codec { call with
      turn := .closed
      toClient := connection } :=
    ⟨h.toServer, hdirection, h.client.congr rfl hreader hreceived (Or.inr hopen),
      trivial, h.answer, h.asked⟩
  unfold DaemonIpc.serverSent at hnext
  dsimp only at hnext
  split at hnext
  next hidle =>
    cases hnext
    refine ⟨hclosed, ⟨?_, fun _ => rfl⟩, rfl, rfl, ?_, ?_, ?_⟩
    · split_ifs <;> simp
    · split_ifs <;> simp
    · split_ifs with hstop
      · exact fun _ => hstop
      · simp
    · intro _ hstop
      rw [if_pos hstop]
  next hfailed =>
    cases hnext
    refine ⟨hclosed, Served.of_closed (by simp) rfl, rfl, rfl, by simp,
      by simp, ?_⟩
    intro hidle
    rw [hfailed] at hidle
    cases hidle
  next hidle hfailed =>
    cases hnext
    refine ⟨⟨h.toServer, hdirection,
      h.client.congr rfl hreader hreceived (Or.inr hopen), ?_, h.answer,
        h.asked⟩,
      ⟨fun _ => ?_, fun hne => absurd rfl hne⟩, rfl, rfl, by simp, by simp, ?_⟩
    · show TurnOk call.turn _
      rw [hturn]
      exact ⟨hsending.1, hidle, hfailed, hsending.2.2.2⟩
    · show Busy call.turn
      rw [hturn]
      trivial
    · intro h
      exact absurd h hidle

/-- A system call of the server. -/
theorem serverStep_cases {next : Next}
    (h : serverStep codec host call event = some (call', next)) :
    (call.turn = .receiving ∧ isRead event = true ∧ ∃ connection,
      Ipc.step host host call.toServer event = some connection ∧
        serverReceived codec { call with toServer := connection } =
          (call', next)) ∨
    (∃ request, call.turn = .sending request ∧ isWrite event = true ∧
      call.client.Open ∧ ∃ connection,
        Ipc.step host host call.toClient event = some connection ∧
        serverSent request { call with toClient := connection } =
          (call', next)) ∨
    (∃ request, call.turn = .sending request ∧ isWrite event = true ∧
      ¬ call.client.Open ∧ call' = { call with turn := .closed } ∧
      next = .die) := by
  unfold serverStep at h
  cases hturn : call.turn with
  | receiving =>
      rw [hturn] at h
      dsimp only at h
      simp only [Option.ite_none_right_eq_some] at h
      obtain ⟨hevent, h⟩ := h
      obtain ⟨connection, hstep, hcall⟩ := Option.map_eq_some_iff.mp h
      exact Or.inl ⟨rfl, hevent, connection, hstep, hcall⟩
  | sending request =>
      rw [hturn] at h
      dsimp only at h
      simp only [Option.ite_none_right_eq_some] at h
      obtain ⟨hevent, h⟩ := h
      by_cases hopen : call.client.Open
      · rw [if_pos hopen] at h
        obtain ⟨connection, hstep, hcall⟩ := Option.map_eq_some_iff.mp h
        exact Or.inr (Or.inl
          ⟨request, rfl, hevent, hopen, connection, hstep, hcall⟩)
      · rw [if_neg hopen] at h
        cases h
        exact Or.inr (Or.inr ⟨request, rfl, hevent, hopen, rfl, rfl⟩)
  | waiting =>
      rw [hturn] at h
      cases h
  | handling request =>
      rw [hturn] at h
      cases h
  | closed =>
      rw [hturn] at h
      cases h

theorem CallOk.serverStep {next : Next} (hcodec : codec.Faithful)
    (h : CallOk codec call)
    (hstep : serverStep codec host call event = some (call', next)) :
    CallOk codec call' ∧ Served call' next ∧ call'.client = call.client ∧
      call'.answer = call.answer := by
  rcases serverStep_cases hstep with
    ⟨hturn, hevent, connection, hmoved, hnext⟩ |
    ⟨request, hturn, hevent, -, connection, hmoved, hnext⟩ |
    ⟨request, hturn, hevent, -, rfl, rfl⟩
  · obtain ⟨hok, hserved, hclient, hanswer, -⟩ :=
      h.serverReceived hcodec hturn hevent hmoved hnext
    have hnone := h.turn
    rw [hturn] at hnone
    exact ⟨hok, hserved, hclient, hanswer.trans hnone.1.symm⟩
  · obtain ⟨hok, hserved, hclient, hanswer, -⟩ :=
      h.serverSent hturn hevent hmoved hnext
    exact ⟨hok, hserved, hclient, hanswer⟩
  · exact ⟨h.hangUp, Served.of_closed (by simp) rfl, rfl, rfl⟩

/-- The handler is called with the request of the client. -/
theorem CallOk.handle {next : Next} {outcome : Except String Response}
    (h : CallOk codec call)
    (hstep : handle codec host outcome call = some (call', next)) :
    ∃ request, call.turn = .handling request ∧ call.request = some request ∧
      call.answer = none ∧
      call'.answer = some (request, respond outcome request) ∧
      CallOk codec call' ∧ Served call' next ∧ call'.client = call.client ∧
      (next = .stay ∨ next = .loop) := by
  unfold DaemonIpc.handle at hstep
  cases hturn : call.turn with
  | handling request =>
      rw [hturn] at hstep
      dsimp only at hstep
      have hhandling := h.turn
      rw [hturn] at hhandling
      obtain ⟨hanswer, hrequest, hidle, hreceived⟩ := hhandling
      have hopen : call.turn ≠ .closed := by
        rw [hturn]
        simp
      have hbefore : replies codec call = [] := by
        rw [replies, hanswer]
        rfl
      have hempty : Direction [] call.toClient := hbefore ▸ h.toClient
      have hresponds : ∀ request' response,
          some (request, respond outcome request) = some (request', response) →
          call.request = some request' ∧ Answers request' response := by
        intro request' response heq
        cases heq
        exact ⟨hrequest, outcome, rfl⟩
      cases hsend : (codec.serializeResponse (respond outcome request)).bind
          (Ipc.send host) with
      | none =>
          rw [hsend] at hstep
          cases hstep
          refine ⟨request, rfl, hrequest, hanswer, rfl,
            ⟨h.toServer, ?_, ?_, trivial, hresponds, h.asked⟩,
            Served.of_closed (by simp) rfl, rfl, Or.inr rfl⟩
          · show Direction
              (begun (codec.serializeResponse (respond outcome request))) _
            rw [begun_of_send_none hsend]
            exact hempty
          · exact h.client.congr rfl rfl rfl (Or.inr hopen)
      | some writer =>
          rw [hsend] at hstep
          cases hstep
          obtain ⟨bytes, -, hbegun, -, htaken⟩ := begun_of_send_some hsend
          have hwriter := (IpcFraming.send_some htaken).2
          refine ⟨request, rfl, hrequest, hanswer, rfl,
            ⟨h.toServer, ?_, ?_, ?_, hresponds, h.asked⟩,
            ⟨fun _ => trivial, fun hne => absurd rfl hne⟩, rfl, Or.inl rfl⟩
          · show Direction
              (begun (codec.serializeResponse (respond outcome request))) _
            rw [hbegun]
            exact hempty.send hidle htaken
          · exact h.client.congr rfl rfl rfl (Or.inr hopen)
          · refine ⟨⟨_, rfl⟩, ?_, ?_, hreceived⟩
            · rw [hwriter]
              simp
            · rw [hwriter]
              simp
  | waiting =>
      rw [hturn] at hstep
      cases hstep
  | receiving =>
      rw [hturn] at hstep
      cases hstep
  | sending request =>
      rw [hturn] at hstep
      cases hstep
  | closed =>
      rw [hturn] at hstep
      cases hstep

/-! ### The request -/

theorem serverStep_request {next : Next}
    (h : serverStep codec host call event = some (call', next)) :
    call'.request = call.request := by
  rcases serverStep_cases h with ⟨-, -, connection, -, hnext⟩ |
    ⟨request, -, -, -, connection, -, hnext⟩ | ⟨request, -, -, -, rfl, -⟩
  · unfold serverReceived at hnext
    split at hnext
    next => split at hnext <;> (cases hnext; rfl)
    next => split at hnext <;> (cases hnext; rfl)
  · unfold serverSent at hnext
    split at hnext <;> (cases hnext; rfl)
  · rfl

theorem handle_request {next : Next} {outcome : Except String Response}
    (h : handle codec host outcome call = some (call', next)) :
    call'.request = call.request := by
  unfold handle at h
  split at h
  next =>
    dsimp only at h
    split at h <;> (cases h; rfl)
  next => cases h

end Calls

end ArkiveSync.DaemonConnections
