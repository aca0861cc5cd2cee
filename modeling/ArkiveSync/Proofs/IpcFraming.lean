import ArkiveSync.Model.Ipc

/-!
# Framed messages arrive

However `write` and `read` cut the bytes up, and however often they are
interrupted, the calls of `receive` return the messages that were sent.  At any
time the bytes that the reading end has of the current message, those on their
way and those that the writing end has left are the frames of the messages that
are still to be received.

## Main results

* `Inv.step`: one event keeps these bytes together.
* `Inv.transfers`: as long as a message is outstanding, some byte can be moved
  or the next message be asked for.
* `ipc_framing`: both over whole runs, and what happens to a message or a size
  above the limit.
-/

namespace ArkiveSync.IpcFraming

open Ipc

/-! ## What the two ends hold -/

/-- The part of a frame that the reading end has. -/
def partialFrame : ReadState → Bytes
  | .size got => got
  | .body size got => wireSize size ++ got
  | _ => []

/-- The part of a frame that the writing end has left. -/
def pending : WriteState → Bytes
  | .size left message => left ++ message
  | .body left => left
  | _ => []

/-- A loop is left when nothing is missing; no size has been rejected. -/
def ReaderOk : ReadState → Prop
  | .size got => got.length < 4
  | .body size got => got.length < size ∧ size ≤ kMaxMessageSize
  | .rejected => False
  | _ => True

def WriterOk : WriteState → Prop
  | .size left _ => left ≠ []
  | .body left => left ≠ []
  | _ => True

/-- What has been sent and not been received is on its way. -/
structure Inv (sent : List Bytes) (s : Connection) : Prop where
  fits : ∀ message ∈ sent, message.length ≤ kMaxMessageSize
  writer : WriterOk s.writer
  reader : ReaderOk s.reader
  outstanding : ∃ rest, sent = s.received ++ rest ∧
    (s.reader ≠ .failed → ∃ left,
      (s.writer ≠ .failed → left = pending s.writer) ∧
      partialFrame s.reader ++ (s.stream ++ left) = rest.flatMap frame)

theorem inv_start : Inv [] start :=
  ⟨by simp, trivial, trivial, [], rfl, fun _ => ⟨[], fun _ => rfl, rfl⟩⟩

/-! ## Writing -/

section Writing

variable {host : ByteOrder} {message : Bytes} {writer : WriteState}

theorem send_some (h : send host message = some writer) :
    message.length ≤ kMaxMessageSize ∧
      writer = .size (wireSize message.length) message := by
  unfold send at h
  split at h
  · cases h
  · rename_i hle
    have hfits : message.length ≤ kMaxMessageSize := Nat.le_of_not_lt hle
    rw [storeUInt32_htonl, Nat.mod_eq_of_lt (length_lt_of_le hfits)] at h
    exact ⟨hfits, (Option.some.inj h).symm⟩

theorem send_none_iff :
    send host message = none ↔ kMaxMessageSize < message.length := by
  unfold send
  split
  next h => exact iff_of_true rfl h
  next h => exact iff_of_false (by simp) h

theorem writerOk_wrote (hok : WriterOk writer) (left : Bytes) :
    WriterOk (wrote writer left) := by
  cases writer with
  | size header message =>
      cases left with
      | nil =>
          cases message with
          | nil => trivial
          | cons b rest => exact List.cons_ne_nil b rest
      | cons b rest => exact List.cons_ne_nil b rest
  | body bytes =>
      cases left with
      | nil => trivial
      | cons b rest => exact List.cons_ne_nil b rest
  | idle => trivial
  | failed => trivial

/-- What is written and what is left is what there was to write. -/
theorem pending_wrote {n : Nat} (hunwritten : unwritten writer ≠ []) :
    (unwritten writer).take n ++
      pending (wrote writer ((unwritten writer).drop n)) = pending writer := by
  cases writer with
  | size left message =>
      show left.take n ++ pending (wrote _ (left.drop n)) = left ++ message
      rw [← List.take_append_drop n left, List.append_assoc]
      congr 1
      · rw [List.take_append_drop]
      · rw [List.take_append_drop]
        cases hdrop : left.drop n with
        | nil =>
            cases message with
            | nil => rfl
            | cons b rest => rfl
        | cons b rest => rfl
  | body left =>
      show left.take n ++ pending (wrote _ (left.drop n)) = left
      conv_rhs => rw [← List.take_append_drop n left]
      congr 1
      cases left.drop n with
      | nil => rfl
      | cons b rest => rfl
  | idle => exact absurd rfl hunwritten
  | failed => exact absurd rfl hunwritten

theorem wrote_ne_failed (hunwritten : unwritten writer ≠ []) (left : Bytes) :
    wrote writer left ≠ .failed := by
  cases writer with
  | size header message =>
      cases left with
      | nil => cases message <;> simp [wrote]
      | cons b rest => simp [wrote]
  | body bytes => cases left <;> simp [wrote]
  | idle => exact absurd rfl hunwritten
  | failed => exact absurd rfl hunwritten

end Writing

/-! ## Reading -/

section Reading

variable {peer : ByteOrder} {reader : ReadState} {bytes tail : Bytes}
variable {rest : List Bytes}

/-- A size in front of frames is the length of the first message. -/
theorem first_of_size {size : Nat} {tail : Bytes}
    (hfits : ∀ m ∈ rest, m.length ≤ kMaxMessageSize)
    (hsize : size < 4294967296)
    (h : wireSize size ++ tail = rest.flatMap frame) :
    ∃ m rest', rest = m :: rest' ∧ size = m.length ∧
      tail = m ++ rest'.flatMap frame := by
  cases rest with
  | nil =>
      have hlength := congrArg List.length h
      rw [List.length_append, length_wireSize] at hlength
      simp at hlength
  | cons m rest' =>
      rw [List.flatMap_cons] at h
      obtain ⟨hlength, htail⟩ :=
        size_of_frame_append (hfits m (List.mem_cons_self ..)) hsize h
      exact ⟨m, rest', rfl, hlength, htail⟩

/-- A read moves bytes from the stream to the partial frame, and takes a message
off when its frame is complete. -/
theorem readSome_spec (hok : ReaderOk reader) (hpos : 0 < bytes.length)
    (hle : bytes.length ≤ wanted reader)
    (hfits : ∀ m ∈ rest, m.length ≤ kMaxMessageSize)
    (h : partialFrame reader ++ (bytes ++ tail) = rest.flatMap frame) :
    ReaderOk (readSome peer bytes reader).1 ∧
      ∃ rest', rest = (readSome peer bytes reader).2.toList ++ rest' ∧
        partialFrame (readSome peer bytes reader).1 ++ tail =
          rest'.flatMap frame := by
  cases reader with
  | size got =>
      have hle' : bytes.length ≤ 4 - got.length := hle
      have h' : (got ++ bytes) ++ tail = rest.flatMap frame := by
        rw [List.append_assoc]
        exact h
      unfold readSome
      dsimp only
      split
      next hshort => exact ⟨hshort, rest, rfl, h'⟩
      next hfull =>
          have hlength : (got ++ bytes).length = 4 := by
            rw [List.length_append] at hfull ⊢
            omega
          rw [ntohl_loadUInt32 peer hlength]
          have hsize : ofWire (got ++ bytes) < 4294967296 :=
            ofLowFirst_lt (by rw [List.length_reverse, hlength])
          rw [← wireSize_ofWire hlength] at h'
          generalize ofWire (got ++ bytes) = size at h' hsize ⊢
          obtain ⟨m, rest', rfl, rfl, htail⟩ := first_of_size hfits hsize h'
          have hm := hfits m (List.mem_cons_self ..)
          rw [if_neg (Nat.not_lt.mpr hm)]
          split
          next hne =>
              refine ⟨⟨Nat.pos_of_ne_zero hne, hm⟩, m :: rest', rfl, ?_⟩
              rw [partialFrame, List.append_nil]
              exact h'
          next hzero =>
              have hnil : m = [] := List.length_eq_zero_iff.mp
                (not_not.mp hzero)
              subst hnil
              exact ⟨trivial, rest', rfl, htail⟩
  | body size got =>
      have hle' : bytes.length ≤ size - got.length := hle
      obtain ⟨hgot, hmax⟩ : got.length < size ∧ size ≤ kMaxMessageSize := hok
      have h' : wireSize size ++ ((got ++ bytes) ++ tail) =
          rest.flatMap frame := by
        rw [← h]
        simp [partialFrame, List.append_assoc]
      unfold readSome
      dsimp only
      split
      next hshort =>
          refine ⟨⟨hshort, hmax⟩, rest, rfl, ?_⟩
          rw [← h', partialFrame, List.append_assoc]
      next hfull =>
          have hmaxValue : kMaxMessageSize = 16777216 := rfl
          obtain ⟨m, rest', rfl, hm, htail⟩ :=
            first_of_size hfits (by omega) h'
          have hlength : (got ++ bytes).length = m.length := by
            rw [List.length_append] at hfull ⊢
            omega
          obtain ⟨rfl, hrest⟩ := List.append_inj htail hlength
          exact ⟨trivial, rest', rfl, hrest⟩
  | idle => exact absurd hle (Nat.not_le.mpr hpos)
  | rejected => exact absurd hok id
  | failed => exact absurd hle (Nat.not_le.mpr hpos)

theorem readSome_ne_failed (hle : 0 < wanted reader) :
    (readSome peer bytes reader).1 ≠ .failed := by
  cases reader with
  | size got =>
      unfold readSome
      dsimp only
      split_ifs <;> simp
  | body size got =>
      unfold readSome
      dsimp only
      split_ifs <;> simp
  | idle => exact absurd hle (lt_irrefl 0)
  | rejected => exact absurd hle (lt_irrefl 0)
  | failed => exact absurd hle (lt_irrefl 0)

end Reading

/-! ## One event -/

section Steps

variable {host peer : ByteOrder} {messages : List Bytes} {s s' : Connection}

theorem sent_append (before events : List Event) :
    sent (before ++ events) = sent before ++ sent events :=
  List.filterMap_append

theorem sent_send_of_le {message : Bytes}
    (h : message.length ≤ kMaxMessageSize) : sent [.send message] = [message] := by
  simp [sent, Nat.not_lt.mpr h]

theorem sent_send_of_gt {message : Bytes}
    (h : kMaxMessageSize < message.length) : sent [.send message] = [] := by
  simp [sent, h]

/-- A message that is sent is outstanding. -/
theorem Inv.send {message : Bytes} (hinv : Inv messages s)
    (hstep : step host peer s (.send message) = some s') :
    Inv (messages ++ sent [.send message]) s' := by
  simp only [step] at hstep
  split at hstep
  · rename_i hidle
    cases hsend : Ipc.send host message with
    | none =>
        rw [hsend] at hstep
        cases hstep
        rw [sent_send_of_gt (send_none_iff.mp hsend), List.append_nil]
        exact hinv
    | some writer =>
        rw [hsend] at hstep
        cases hstep
        obtain ⟨hfits, rfl⟩ := send_some hsend
        obtain ⟨rest, hmessages, hbytes⟩ := hinv.outstanding
        rw [sent_send_of_le hfits]
        refine ⟨?_, ?_, hinv.reader, rest ++ [message], ?_, ?_⟩
        · intro m hm
          rcases List.mem_append.mp hm with h | h
          · exact hinv.fits m h
          · rw [List.mem_singleton.mp h]
            exact hfits
        · exact List.ne_nil_of_length_eq_add_one (length_wireSize _)
        · rw [hmessages, List.append_assoc]
        · intro hreader
          obtain ⟨left, hleft, hall⟩ := hbytes hreader
          have hnone : left = [] := by
            rw [hleft (by rw [hidle]; simp), hidle]
            rfl
          subst hnone
          refine ⟨frame message, fun _ => rfl, ?_⟩
          rw [List.append_nil] at hall
          rw [List.flatMap_append, ← hall, List.flatMap_singleton,
            List.append_assoc]
  · cases hstep

/-- What is written is on its way. -/
theorem Inv.write {n : Nat} (hinv : Inv messages s)
    (hstep : step host peer s (.write n) = some s') : Inv messages s' := by
  obtain ⟨hsome, -, -, rfl⟩ := step_write hstep
  obtain ⟨rest, hmessages, hbytes⟩ := hinv.outstanding
  refine ⟨hinv.fits, writerOk_wrote hinv.writer _, hinv.reader, rest,
    hmessages, ?_⟩
  intro hreader
  obtain ⟨left, hleft, hall⟩ := hbytes hreader
  have hpending : left = pending s.writer := by
    apply hleft
    intro hfailed
    rw [hfailed] at hsome
    exact hsome rfl
  refine ⟨_, fun _ => rfl, ?_⟩
  rw [List.append_assoc s.stream, pending_wrote hsome, ← hpending]
  exact hall

/-- What is read has been on its way. -/
theorem Inv.read {n : Nat} (hinv : Inv messages s)
    (hstep : step host peer s (.read n) = some s') : Inv messages s' := by
  obtain ⟨hpos, hwanted, hstream, rfl⟩ := step_read hstep
  have hlength : (s.stream.take n).length = n := by
    rw [List.length_take]
    omega
  have hreader : s.reader ≠ .failed := by
    intro hfailed
    rw [hfailed] at hwanted
    exact absurd hwanted (Nat.not_le.mpr hpos)
  obtain ⟨rest, hmessages, hbytes⟩ := hinv.outstanding
  obtain ⟨left, hleft, hall⟩ := hbytes hreader
  have hrest : ∀ m ∈ rest, m.length ≤ kMaxMessageSize := by
    intro m hm
    refine hinv.fits m ?_
    rw [hmessages]
    exact List.mem_append_right _ hm
  rw [← List.take_append_drop n s.stream, List.append_assoc] at hall
  obtain ⟨hok, rest', hsplit, hall'⟩ :=
    readSome_spec hinv.reader (hlength.symm ▸ hpos) (hlength.symm ▸ hwanted)
      hrest hall
  refine ⟨hinv.fits, hinv.writer, hok, rest', ?_, ?_⟩
  · rw [hmessages, List.append_assoc, ← hsplit]
  · intro _
    exact ⟨left, hleft, hall'⟩

/-- A call of `receive` begins with nothing. -/
theorem Inv.receive (hinv : Inv messages s)
    (hstep : step host peer s .receive = some s') : Inv messages s' := by
  obtain ⟨hidle, rfl⟩ := step_receive hstep
  obtain ⟨rest, hmessages, hbytes⟩ := hinv.outstanding
  refine ⟨hinv.fits, hinv.writer, Nat.zero_lt_succ 3, rest, hmessages, ?_⟩
  intro _
  have hall := hbytes (by rw [hidle]; simp)
  rw [hidle] at hall
  exact hall

/-- After a failed write nothing more is written. -/
theorem Inv.writeFailed (hinv : Inv messages s)
    (hstep : step host peer s .writeFailed = some s') : Inv messages s' := by
  cases step_writeFailed hstep
  obtain ⟨rest, hmessages, hbytes⟩ := hinv.outstanding
  refine ⟨hinv.fits, trivial, hinv.reader, rest, hmessages, ?_⟩
  intro hreader
  obtain ⟨left, -, hall⟩ := hbytes hreader
  exact ⟨left, fun h => absurd rfl h, hall⟩

/-- After a failed read nothing more is received. -/
theorem Inv.readFailed (hinv : Inv messages s)
    (hstep : step host peer s .readFailed = some s') : Inv messages s' := by
  obtain ⟨-, rfl⟩ := step_readFailed hstep
  obtain ⟨rest, hmessages, -⟩ := hinv.outstanding
  exact ⟨hinv.fits, hinv.writer, trivial, rest, hmessages,
    fun h => absurd rfl h⟩

/-- One event keeps the bytes of the outstanding messages together. -/
theorem Inv.step {event : Event} (hinv : Inv messages s)
    (hstep : Ipc.step host peer s event = some s') :
    Inv (messages ++ sent [event]) s' := by
  cases event with
  | send message => exact hinv.send hstep
  | write n => exact (List.append_nil messages).symm ▸ hinv.write hstep
  | read n => exact (List.append_nil messages).symm ▸ hinv.read hstep
  | receive => exact (List.append_nil messages).symm ▸ hinv.receive hstep
  | writeFailed => exact (List.append_nil messages).symm ▸ hinv.writeFailed hstep
  | readFailed => exact (List.append_nil messages).symm ▸ hinv.readFailed hstep
  | writeInterrupted =>
      cases step_interrupted (Or.inl rfl) hstep
      exact (List.append_nil messages).symm ▸ hinv
  | readInterrupted =>
      cases step_interrupted (Or.inr rfl) hstep
      exact (List.append_nil messages).symm ▸ hinv

theorem Inv.run {events : List Event} (hinv : Inv messages s)
    (hrun : Ipc.run host peer s events = some s') :
    Inv (messages ++ sent events) s' := by
  refine Library.runEvents_induction
    (P := fun events s' => Inv (messages ++ sent events) s') ?_ ?_ hrun
  · rw [show sent [] = [] from rfl, List.append_nil]
    exact hinv
  · intro events a event b _ hbefore hstep
    rw [sent_append, ← List.append_assoc]
    exact hbefore.step hstep

end Steps

/-! ## Every message arrives -/

section Progress

variable {host peer : ByteOrder} {messages : List Bytes} {s s' : Connection}

/-- The events that move bytes, or ask for the next message. -/
def Transfers : Event → Prop
  | .write _ => True
  | .receive => True
  | .read _ => True
  | _ => False

/-- No call has thrown. -/
def Unfailed (s : Connection) : Prop :=
  s.writer ≠ .failed ∧ s.reader ≠ .failed

/-- A bound on what can still be moved: every byte is written and read. -/
def work (s : Connection) : Nat :=
  3 * (pending s.writer).length + 2 * s.stream.length +
    (if s.reader = .idle then 1 else 0)

theorem work_step_lt {event : Event} (htransfers : Transfers event)
    (hstep : step host peer s event = some s') : work s' < work s := by
  cases event with
  | write n =>
      obtain ⟨hsome, hpos, hle, rfl⟩ := step_write hstep
      have hlength := congrArg List.length (pending_wrote (n := n) hsome)
      rw [List.length_append, List.length_take] at hlength
      simp only [work, List.length_append, List.length_take]
      omega
  | receive =>
      obtain ⟨hidle, rfl⟩ := step_receive hstep
      simp only [work, hidle, if_true]
      rw [if_neg (by simp)]
      omega
  | read n =>
      obtain ⟨hpos, -, hstream, rfl⟩ := step_read hstep
      simp only [work, List.length_drop]
      split_ifs <;> omega
  | send message => exact absurd htransfers id
  | writeInterrupted => exact absurd htransfers id
  | writeFailed => exact absurd htransfers id
  | readInterrupted => exact absurd htransfers id
  | readFailed => exact absurd htransfers id

theorem Unfailed.step {event : Event} (hs : Unfailed s)
    (htransfers : Transfers event)
    (hstep : Ipc.step host peer s event = some s') : Unfailed s' := by
  cases event with
  | write n =>
      obtain ⟨hsome, -, -, rfl⟩ := step_write hstep
      exact ⟨wrote_ne_failed hsome _, hs.2⟩
  | receive =>
      obtain ⟨-, rfl⟩ := step_receive hstep
      exact ⟨hs.1, by simp⟩
  | read n =>
      obtain ⟨hpos, hwanted, -, rfl⟩ := step_read hstep
      exact ⟨hs.1, readSome_ne_failed (Nat.lt_of_lt_of_le hpos hwanted)⟩
  | send message => exact absurd htransfers id
  | writeInterrupted => exact absurd htransfers id
  | writeFailed => exact absurd htransfers id
  | readInterrupted => exact absurd htransfers id
  | readFailed => exact absurd htransfers id

theorem sent_transfers {events : List Event}
    (h : ∀ event ∈ events, Transfers event) : sent events = [] := by
  refine List.filterMap_eq_nil_iff.mpr ?_
  intro event hevent
  have htransfers := h event hevent
  cases event with
  | send message => exact absurd htransfers id
  | _ => rfl

/-- A writing end with nothing left is between two messages. -/
theorem unwritten_ne_nil {writer : WriteState} (hok : WriterOk writer)
    (h : pending writer ≠ []) : unwritten writer ≠ [] := by
  cases writer with
  | size left message => exact hok
  | body left => exact hok
  | idle => exact h
  | failed => exact h

/-- A reading end inside a frame wants some of it. -/
theorem wanted_pos {reader : ReadState} (hok : ReaderOk reader)
    (hidle : reader ≠ .idle) (hfailed : reader ≠ .failed) : 0 < wanted reader := by
  cases reader with
  | size got => exact Nat.sub_pos_of_lt hok
  | body size got => exact Nat.sub_pos_of_lt hok.1
  | idle => exact absurd rfl hidle
  | rejected => exact absurd hok id
  | failed => exact absurd rfl hfailed

/-- What the reading end has of a frame is not all of it. -/
theorem partialFrame_ne {reader : ReadState} {rest : List Bytes}
    (hok : ReaderOk reader) (hidle : reader ≠ .idle) (hfailed : reader ≠ .failed)
    (hfits : ∀ m ∈ rest, m.length ≤ kMaxMessageSize) (hrest : rest ≠ []) :
    partialFrame reader ≠ rest.flatMap frame := by
  intro h
  cases reader with
  | size got =>
      cases rest with
      | nil => exact hrest rfl
      | cons m rest =>
          have hlength := congrArg List.length h
          have hgot : got.length < 4 := hok
          rw [List.flatMap_cons, frame, List.length_append, List.length_append,
            length_wireSize, partialFrame] at hlength
          omega
  | body size got =>
      obtain ⟨hgot, hmax⟩ : got.length < size ∧ size ≤ kMaxMessageSize := hok
      have hmaxValue : kMaxMessageSize = 16777216 := rfl
      obtain ⟨m, rest', -, hm, hall⟩ := first_of_size hfits (by omega) h
      have hlength := congrArg List.length hall
      rw [List.length_append] at hlength
      omega
  | idle => exact hidle rfl
  | rejected => exact hok
  | failed => exact hfailed rfl

/-- As long as a message is outstanding, something can be moved. -/
theorem Inv.transfers (hinv : Inv messages s) (hs : Unfailed s)
    (hreceived : s.received ≠ messages) :
    ∃ event s', Transfers event ∧ Ipc.step host peer s event = some s' := by
  obtain ⟨rest, hmessages, hbytes⟩ := hinv.outstanding
  obtain ⟨left, hleft, hall⟩ := hbytes hs.2
  have hpending := hleft hs.1
  by_cases hwriter : pending s.writer = []
  · by_cases hidle : s.reader = .idle
    · exact ⟨.receive, _, trivial, if_pos hidle⟩
    · have hrest : rest ≠ [] := by
        rintro rfl
        exact hreceived (by rw [hmessages, List.append_nil])
      have hfits : ∀ m ∈ rest, m.length ≤ kMaxMessageSize := by
        intro m hm
        refine hinv.fits m ?_
        rw [hmessages]
        exact List.mem_append_right _ hm
      have hstream : s.stream ≠ [] := by
        intro hnil
        rw [hpending, hwriter, hnil, List.append_nil, List.append_nil] at hall
        exact partialFrame_ne hinv.reader hidle hs.2 hfits hrest hall
      have hwanted := wanted_pos hinv.reader hidle hs.2
      exact ⟨.read 1, _, trivial,
        if_pos ⟨Nat.one_pos, hwanted, List.length_pos_of_ne_nil hstream⟩⟩
  · have hsome := unwritten_ne_nil hinv.writer hwriter
    exact ⟨.write 1, _, trivial,
      if_pos ⟨Nat.one_pos, List.length_pos_of_ne_nil hsome⟩⟩

/-- The two ends can always finish. -/
theorem Inv.completes (hinv : Inv messages s) (hs : Unfailed s) :
    ∃ events s', (∀ event ∈ events, Transfers event) ∧
      Ipc.run host peer s events = some s' ∧ s'.received = messages := by
  induction hwork : work s using Nat.strong_induction_on generalizing s with
  | _ w ih =>
      by_cases hreceived : s.received = messages
      · exact ⟨[], s, by simp, rfl, hreceived⟩
      · have hmore : ∃ event s', Transfers event ∧
            Ipc.step host peer s event = some s' :=
          hinv.transfers hs hreceived
        obtain ⟨event, mid, htransfers, hstep⟩ := hmore
        have hmid : Inv messages mid := by
          have hnext := hinv.step hstep
          rwa [sent_transfers (by simpa using htransfers), List.append_nil] at hnext
        have hlt := work_step_lt htransfers hstep
        obtain ⟨events, s', hevents, hrun, hdone⟩ :=
          ih (work mid) (hwork ▸ hlt) hmid (hs.step htransfers hstep) rfl
        refine ⟨event :: events, s', ?_, ?_, hdone⟩
        · intro e he
          rcases List.mem_cons.mp he with rfl | he
          · exact htransfers
          · exact hevents e he
        · rw [Ipc.run, Library.runEvents_cons, hstep]
          exact hrun

end Progress

/-! ## A size above the limit -/

section Oversize

variable {host peer : ByteOrder} {size : Nat} {rest : Bytes}
variable {received : List Bytes} {s s' : Connection}

/-- The size is being read, or all of it has been and it was rejected; of what
follows it nothing is read. -/
def Oversize (size : Nat) (rest : Bytes) (received : List Bytes)
    (s : Connection) : Prop :=
  s.received = received ∧
    ∃ got left written, got ++ left = wireSize size ∧
      s.stream = left ++ (rest ++ written) ∧
      (left = [] → s.reader = .rejected) ∧
      (left ≠ [] → s.reader = .size got ∨ s.reader = .failed)

theorem Oversize.wanted (h : Oversize size rest received s)
    (hwanted : wanted s.reader ≠ 0) :
    ∃ got left written, got ++ left = wireSize size ∧
      s.stream = left ++ (rest ++ written) ∧ left ≠ [] ∧
      s.reader = .size got := by
  obtain ⟨-, got, left, written, hsize, hstream, hdone, hmore⟩ := h
  by_cases hleft : left = []
  · rw [hdone hleft] at hwanted
    exact absurd rfl hwanted
  · rcases hmore hleft with hreader | hreader
    · exact ⟨got, left, written, hsize, hstream, hleft, hreader⟩
    · rw [hreader] at hwanted
      exact absurd rfl hwanted

theorem Oversize.read {n : Nat} (hmax : kMaxMessageSize < size)
    (hsize : size < 4294967296) (h : Oversize size rest received s)
    (hstep : step host peer s (.read n) = some s') :
    Oversize size rest received s' := by
  obtain ⟨hpos, hwanted, -, rfl⟩ := step_read hstep
  obtain ⟨got, left, written, hgot, hstream, -, hreader⟩ :=
    h.wanted (Nat.ne_of_gt (Nat.lt_of_lt_of_le hpos hwanted))
  have hlength : got.length + left.length = 4 := by
    rw [← List.length_append, hgot, length_wireSize]
  have hle : n ≤ left.length := by
    rw [hreader] at hwanted
    simp only [Ipc.wanted] at hwanted
    omega
  have hall : (got ++ left.take n) ++ left.drop n = wireSize size := by
    rw [List.append_assoc, List.take_append_drop, hgot]
  simp only [hreader, hstream, List.take_append_of_le_length hle,
    List.drop_append_of_le_length hle, readSome]
  by_cases hdrop : left.drop n = []
  · -- the last byte of the size
    rw [hdrop, List.append_nil] at hall
    rw [hall, if_neg (by rw [length_wireSize]; omega),
      ntohl_loadUInt32 peer (length_wireSize size), ofWire_wireSize hsize,
      if_pos hmax]
    refine ⟨?_, wireSize size, [], written, List.append_nil _, ?_, ?_, ?_⟩
    · simpa using h.1
    · simp [hdrop]
    · intro _
      rfl
    · intro hne
      exact absurd rfl hne
  · have hshort : (got ++ left.take n).length < 4 := by
      have hpos := List.length_pos_of_ne_nil hdrop
      rw [List.length_drop] at hpos
      rw [List.length_append, List.length_take]
      omega
    rw [if_pos hshort]
    refine ⟨?_, got ++ left.take n, left.drop n, written, hall, rfl, ?_, ?_⟩
    · simpa using h.1
    · intro hnil
      exact absurd hnil hdrop
    · intro _
      exact Or.inl rfl

theorem Oversize.step {event : Event} (hmax : kMaxMessageSize < size)
    (hsize : size < 4294967296) (h : Oversize size rest received s)
    (hstep : Ipc.step host peer s event = some s') :
    Oversize size rest received s' := by
  cases event with
  | read n => exact h.read hmax hsize hstep
  | send message =>
      simp only [Ipc.step] at hstep
      split at hstep
      · split at hstep
        · cases hstep
          exact h
        · cases hstep
          exact h
      · cases hstep
  | write n =>
      obtain ⟨-, -, -, rfl⟩ := step_write hstep
      obtain ⟨hreceived, got, left, written, hgot, hstream, hdone, hmore⟩ := h
      refine ⟨hreceived, got, left,
        written ++ (unwritten s.writer).take n, hgot, ?_, hdone, hmore⟩
      simp only [hstream, List.append_assoc]
  | receive =>
      obtain ⟨hidle, rfl⟩ := step_receive hstep
      obtain ⟨-, got, left, written, -, -, hdone, hmore⟩ := h
      rw [hidle] at hdone hmore
      by_cases hleft : left = []
      · exact absurd (hdone hleft) (by simp)
      · exact absurd (hmore hleft) (by simp)
  | readFailed =>
      obtain ⟨hwanted, rfl⟩ := step_readFailed hstep
      obtain ⟨got, left, written, hgot, hstream, hleft, -⟩ := h.wanted hwanted
      exact ⟨h.1, got, left, written, hgot, hstream,
        fun hnil => absurd hnil hleft, fun _ => Or.inr rfl⟩
  | writeFailed =>
      cases step_writeFailed hstep
      exact h
  | writeInterrupted =>
      cases step_interrupted (Or.inl rfl) hstep
      exact h
  | readInterrupted =>
      cases step_interrupted (Or.inr rfl) hstep
      exact h

theorem Oversize.run {events : List Event} (hmax : kMaxMessageSize < size)
    (hsize : size < 4294967296) (h : Oversize size rest received s)
    (hrun : Ipc.run host peer s events = some s') :
    Oversize size rest received s' := by
  refine Library.runEvents_induction
    (P := fun _ s' => Oversize size rest received s') h ?_ hrun
  intro events a event b _ hbefore hstep
  exact hbefore.step hmax hsize hstep

end Oversize

/-! ## The connection -/

/-- However the bytes are cut up and however often a call is interrupted, the
messages arrive as they were sent: what has been received is what was sent
first, no size is rejected, and unless a call fails, moving bytes ends, and
ends with all messages.  A message above the limit is refused with nothing
written; a size above it is rejected with nothing read of what follows. -/
theorem ipc_framing (host peer : ByteOrder) :
    (∀ events s, run host peer start events = some s →
      s.received <+: sent events ∧
      (s.received.length = (sent events).length → s.received = sent events) ∧
      s.reader ≠ .rejected ∧
      (Unfailed s →
        (s.received ≠ sent events →
          ∃ event s', Transfers event ∧ step host peer s event = some s') ∧
        ∃ more s', (∀ event ∈ more, Transfers event) ∧
          run host peer s more = some s' ∧ s'.received = sent events)) ∧
    (∀ s event s', Transfers event → step host peer s event = some s' →
      work s' < work s) ∧
    (∀ s event s', event = .writeInterrupted ∨ event = .readInterrupted →
      step host peer s event = some s' → s' = s) ∧
    (∀ s message s', kMaxMessageSize < message.length →
      step host peer s (.send message) = some s' →
        send host message = none ∧ s' = s) ∧
    (∀ size rest events s s', kMaxMessageSize < size → size < 4294967296 →
      s.reader = .size [] → s.stream = wireSize size ++ rest →
      run host peer s events = some s' →
        s'.received = s.received ∧
          ∃ got left written, got ++ left = wireSize size ∧
            s'.stream = left ++ (rest ++ written) ∧
            (left = [] → s'.reader = .rejected) ∧
            (left ≠ [] → s'.reader = .size got ∨ s'.reader = .failed)) := by
  refine ⟨?_, ?_, ?_, ?_, ?_⟩
  · intro events s hrun
    have hinv : Inv (sent events) s := inv_start.run hrun
    obtain ⟨rest, hsent, -⟩ := hinv.outstanding
    have hfirst : s.received <+: sent events := ⟨rest, hsent.symm⟩
    refine ⟨hfirst, hfirst.eq_of_length, ?_, ?_⟩
    · intro hrejected
      have hok := hinv.reader
      rw [hrejected] at hok
      exact hok
    · intro hs
      exact ⟨hinv.transfers hs, hinv.completes hs⟩
  · intro s event s' htransfers hstep
    exact work_step_lt htransfers hstep
  · intro s event s' hevent hstep
    exact step_interrupted hevent hstep
  · intro s message s' hlong hstep
    have hsend : send host message = none := send_none_iff.mpr hlong
    refine ⟨hsend, ?_⟩
    simp only [step, hsend, Option.ite_none_right_eq_some,
      Option.some.injEq] at hstep
    exact hstep.2.symm
  · intro size rest events s s' hmax hsize hreader hstream hrun
    have hfirst : Oversize size rest s.received s := by
      refine ⟨rfl, [], wireSize size, [], rfl, ?_, ?_, fun _ => Or.inl hreader⟩
      · rw [hstream, List.append_nil]
      · intro hnil
        exact absurd (congrArg List.length hnil) (by simp [length_wireSize])
    exact hfirst.run hmax hsize hrun

/-- Two bytes and an empty message, cut up and interrupted. -/
def cutUp : List Event :=
  [.send [111, 107], .write 3, .receive, .read 2, .readInterrupted, .write 1,
    .read 2, .writeInterrupted, .write 2, .read 1, .send [], .read 1,
    .write 4, .receive, .read 4]

/-- A size of one byte more than the limit, and a byte behind it. -/
def tooLong : Connection :=
  { start with stream := [1, 0, 0, 1, 7], reader := .size [] }

theorem ipc_framing_cutUp :
    ((run .little .big start cutUp).map Connection.received = some (sent cutUp)) ∧
      sent cutUp = [[111, 107], []] ∧
      (run .little .big tooLong [.read 3, .read 1]).map Connection.received =
        some [] ∧
      run .little .big tooLong [.read 3, .read 1] =
        some { start with stream := [7], reader := .rejected } := by
  refine ⟨?_, rfl, ?_, by decide⟩
  · obtain ⟨s, hrun, hlength⟩ : ∃ s, run .little .big start cutUp = some s ∧
        s.received.length = (sent cutUp).length := ⟨_, rfl, rfl⟩
    rw [hrun, Option.map_some,
      ((ipc_framing .little .big).1 cutUp s hrun).2.1 hlength]
  · obtain ⟨s, hrun⟩ : ∃ s, run .little .big tooLong [.read 3, .read 1] =
        some s := ⟨_, rfl⟩
    have hreceived := ((ipc_framing .little .big).2.2.2.2 16777217 [7]
      [.read 3, .read 1] tooLong s (by decide) (by decide) rfl (by decide)
      hrun).1
    rw [hrun, Option.map_some, hreceived]
    rfl

end ArkiveSync.IpcFraming
