import ArkiveSync.Library.Runs
import ArkiveSync.Model.Base64

/-!
# Messages on a socket

`UnixConnection` of `platform/linux/Ipc.cpp`.  A message is sent as its size,
four bytes in network order, and its bytes; both ends loop over `write` and
`read` calls, each of which moves some of the bytes, is interrupted, or fails.

A connection has two directions that share nothing; this is one of them, with
the end that writes and the end that reads taking their steps in any order.
An end whose call has thrown closes the connection.

## Main results

* `storeUInt32_htonl`, `ntohl_loadUInt32`: what is on the wire does not depend
  on the byte order of either host.
* `frame_append_inj`: a frame can be told from whatever follows it.
-/

namespace ArkiveSync

namespace Ipc

/-- `kMaxMessageSize`. -/
def kMaxMessageSize : Nat := 16777216

/-! ## Byte order -/

/-- How a host keeps a number in memory. -/
inductive ByteOrder where
  | little
  | big
  deriving DecidableEq, Repr

/-- The four bytes of a `uint32_t`, the low one first. -/
def lowFirst (x : Nat) : Bytes :=
  [UInt8.ofNat (x % 256), UInt8.ofNat (x / 256 % 256),
    UInt8.ofNat (x / 65536 % 256), UInt8.ofNat (x / 16777216 % 256)]

/-- The number that has these bytes, the low one first. -/
def ofLowFirst : Bytes → Nat
  | [] => 0
  | b :: rest => b.toNat + 256 * ofLowFirst rest

/-- A `uint32_t` in memory. -/
def storeUInt32 : ByteOrder → Nat → Bytes
  | .little, x => lowFirst x
  | .big, x => (lowFirst x).reverse

/-- The `uint32_t` that is in memory. -/
def loadUInt32 : ByteOrder → Bytes → Nat
  | .little, bytes => ofLowFirst bytes
  | .big, bytes => ofLowFirst bytes.reverse

/-- `htonl`: a host that keeps the low byte first exchanges the bytes. -/
def htonl : ByteOrder → Nat → Nat
  | .little, x => ofLowFirst (lowFirst x).reverse
  | .big, x => x

/-- `ntohl`. -/
def ntohl : ByteOrder → Nat → Nat := htonl

theorem toNat_ofNat_mod (x : Nat) : (UInt8.ofNat (x % 256)).toNat = x % 256 := by
  rw [UInt8.toNat_ofNat']
  omega

theorem ofLowFirst_lowFirst {x : Nat} (hx : x < 4294967296) :
    ofLowFirst (lowFirst x) = x := by
  simp only [lowFirst, ofLowFirst, toNat_ofNat_mod]
  omega

/-- Four bytes are those of their number. -/
theorem lowFirst_ofLowFirst {bytes : Bytes} (h : bytes.length = 4) :
    lowFirst (ofLowFirst bytes) = bytes := by
  match bytes, h with
  | [b₀, b₁, b₂, b₃], _ =>
      have h₀ := b₀.toNat_lt
      have h₁ := b₁.toNat_lt
      have h₂ := b₂.toNat_lt
      have h₃ := b₃.toNat_lt
      simp only [ofLowFirst, lowFirst]
      rw [ofNat_eq_of_toNat (b := b₀) (by omega),
        ofNat_eq_of_toNat (b := b₁) (by omega),
        ofNat_eq_of_toNat (b := b₂) (by omega),
        ofNat_eq_of_toNat (b := b₃) (by omega)]

theorem length_lowFirst (x : Nat) : (lowFirst x).length = 4 := rfl

theorem ofLowFirst_lt {bytes : Bytes} (h : bytes.length = 4) :
    ofLowFirst bytes < 4294967296 := by
  match bytes, h with
  | [b₀, b₁, b₂, b₃], _ =>
      have h₀ := b₀.toNat_lt
      have h₁ := b₁.toNat_lt
      have h₂ := b₂.toNat_lt
      have h₃ := b₃.toNat_lt
      simp only [ofLowFirst]
      omega

/-- The size on the wire. -/
def wireSize (x : Nat) : Bytes := (lowFirst x).reverse

/-- The size that is on the wire. -/
def ofWire (bytes : Bytes) : Nat := ofLowFirst bytes.reverse

theorem length_wireSize (x : Nat) : (wireSize x).length = 4 := rfl

theorem ofWire_wireSize {x : Nat} (hx : x < 4294967296) :
    ofWire (wireSize x) = x := by
  unfold ofWire wireSize
  rw [List.reverse_reverse, ofLowFirst_lowFirst hx]

theorem wireSize_ofWire {bytes : Bytes} (h : bytes.length = 4) :
    wireSize (ofWire bytes) = bytes := by
  unfold ofWire wireSize
  rw [lowFirst_ofLowFirst (by rw [List.length_reverse, h]),
    List.reverse_reverse]

/-- Either host puts the same bytes on the wire. -/
theorem storeUInt32_htonl (host : ByteOrder) (x : Nat) :
    storeUInt32 host (htonl host x) = wireSize x := by
  cases host with
  | little =>
      show lowFirst (ofLowFirst (lowFirst x).reverse) = _
      rw [lowFirst_ofLowFirst (by rw [List.length_reverse, length_lowFirst])]
      rfl
  | big => rfl

/-- Either host reads the same size off the wire. -/
theorem ntohl_loadUInt32 (host : ByteOrder) {bytes : Bytes}
    (h : bytes.length = 4) : ntohl host (loadUInt32 host bytes) = ofWire bytes := by
  cases host with
  | little =>
      show ofLowFirst (lowFirst (ofLowFirst bytes)).reverse = _
      rw [lowFirst_ofLowFirst h]
      rfl
  | big => rfl

/-! ## The two ends -/

/-- How far a call of `send` is: in `writeAll` of the size or of the message. -/
inductive WriteState where
  | idle
  | size (left message : Bytes)
  | body (left : Bytes)
  | failed
  deriving DecidableEq, Repr

/-- How far a call of `receive` is: in `readAll` of the size or of the message;
or how it has ended. -/
inductive ReadState where
  | idle
  | size (got : Bytes)
  | body (size : Nat) (got : Bytes)
  | rejected
  | failed
  deriving DecidableEq, Repr

/-- The beginning of `send`; `none` is the exception for a message that is too
long. -/
def send (host : ByteOrder) (message : Bytes) : Option WriteState :=
  if message.length > kMaxMessageSize then
    none
  else
    some (.size (storeUInt32 host (htonl host (message.length % 4294967296)))
      message)

/-- Behind `writeAll` of the size, and behind that of the message. -/
def wrote : WriteState → Bytes → WriteState
  | .size _ message, [] => if message.isEmpty then .idle else .body message
  | .size _ message, left => .size left message
  | .body _, [] => .idle
  | .body _, left => .body left
  | state, _ => state

/-- The bytes that the current `writeAll` has not written. -/
def unwritten : WriteState → Bytes
  | .size left _ => left
  | .body left => left
  | _ => []

/-- How many bytes the current `readAll` still wants. -/
def wanted : ReadState → Nat
  | .size got => 4 - got.length
  | .body size got => size - got.length
  | _ => 0

/-- Behind a `read` of some bytes: the state, and the message when `receive`
returns. -/
def readSome (host : ByteOrder) (bytes : Bytes) :
    ReadState → ReadState × Option Bytes
  | .size got =>
      let got := got ++ bytes
      if got.length < 4 then
        (.size got, none)
      else
        let size := ntohl host (loadUInt32 host got)
        if size > kMaxMessageSize then
          (.rejected, none)
        else if size ≠ 0 then
          (.body size [], none)
        else
          (.idle, some [])
  | .body size got =>
      let got := got ++ bytes
      if got.length < size then
        (.body size got, none)
      else
        (.idle, some got)
  | state => (state, none)

/-! ## The connection -/

/-- The writing end, the bytes on their way, the reading end, and the messages
that its calls of `receive` have returned. -/
structure Connection where
  writer : WriteState
  stream : Bytes
  reader : ReadState
  received : List Bytes
  deriving DecidableEq, Repr

/-- Nothing has been sent. -/
def start : Connection :=
  { writer := .idle, stream := [], reader := .idle, received := [] }

/-- What either end does, and what its system calls return. -/
inductive Event where
  | send (message : Bytes)
  | write (n : Nat)
  | writeInterrupted
  | writeFailed
  | receive
  | read (n : Nat)
  | readInterrupted
  | readFailed
  deriving DecidableEq, Repr

/-- One event; `none` when it cannot happen.  A `write` takes any part of what
it is given, a `read` returns any part of what is there and is wanted. -/
def step (host peer : ByteOrder) (s : Connection) : Event → Option Connection
  | .send message =>
      if s.writer = .idle then
        match send host message with
        | none => some s
        | some writer => some { s with writer := writer }
      else
        none
  | .write n =>
      if 0 < n ∧ n ≤ (unwritten s.writer).length then
        some { s with
          writer := wrote s.writer ((unwritten s.writer).drop n)
          stream := s.stream ++ (unwritten s.writer).take n }
      else
        none
  | .writeInterrupted => if unwritten s.writer ≠ [] then some s else none
  | .writeFailed =>
      if unwritten s.writer ≠ [] then some { s with writer := .failed } else none
  | .receive =>
      if s.reader = .idle then some { s with reader := .size [] } else none
  | .read n =>
      if 0 < n ∧ n ≤ wanted s.reader ∧ n ≤ s.stream.length then
        let next := readSome peer (s.stream.take n) s.reader
        some { s with
          reader := next.1
          stream := s.stream.drop n
          received := s.received ++ next.2.toList }
      else
        none
  | .readInterrupted => if wanted s.reader ≠ 0 then some s else none
  | .readFailed =>
      if wanted s.reader ≠ 0 then some { s with reader := .failed } else none

section Steps

variable {host peer : ByteOrder} {s s' : Connection} {n : Nat}

theorem step_write (h : step host peer s (.write n) = some s') :
    unwritten s.writer ≠ [] ∧ 0 < n ∧ n ≤ (unwritten s.writer).length ∧
      s' = { s with
        writer := wrote s.writer ((unwritten s.writer).drop n)
        stream := s.stream ++ (unwritten s.writer).take n } := by
  simp only [step, Option.ite_none_right_eq_some, Option.some.injEq] at h
  obtain ⟨⟨hpos, hle⟩, rfl⟩ := h
  refine ⟨?_, hpos, hle, rfl⟩
  exact List.ne_nil_of_length_pos (Nat.lt_of_lt_of_le hpos hle)

theorem step_read (h : step host peer s (.read n) = some s') :
    0 < n ∧ n ≤ wanted s.reader ∧ n ≤ s.stream.length ∧
      s' = { s with
        reader := (readSome peer (s.stream.take n) s.reader).1
        stream := s.stream.drop n
        received := s.received ++
          (readSome peer (s.stream.take n) s.reader).2.toList } := by
  simp only [step, Option.ite_none_right_eq_some, Option.some.injEq] at h
  obtain ⟨⟨hpos, hwanted, hstream⟩, rfl⟩ := h
  exact ⟨hpos, hwanted, hstream, rfl⟩

theorem step_receive (h : step host peer s .receive = some s') :
    s.reader = .idle ∧ s' = { s with reader := .size [] } := by
  simp only [step, Option.ite_none_right_eq_some, Option.some.injEq] at h
  exact ⟨h.1, h.2.symm⟩

theorem step_writeFailed (h : step host peer s .writeFailed = some s') :
    s' = { s with writer := .failed } := by
  simp only [step, Option.ite_none_right_eq_some, Option.some.injEq] at h
  exact h.2.symm

theorem step_readFailed (h : step host peer s .readFailed = some s') :
    wanted s.reader ≠ 0 ∧ s' = { s with reader := .failed } := by
  simp only [step, Option.ite_none_right_eq_some, Option.some.injEq] at h
  exact ⟨h.1, h.2.symm⟩

/-- An interrupted call is made again. -/
theorem step_interrupted {event : Event}
    (hevent : event = .writeInterrupted ∨ event = .readInterrupted)
    (h : step host peer s event = some s') : s' = s := by
  rcases hevent with rfl | rfl
  · simp only [step, Option.ite_none_right_eq_some, Option.some.injEq] at h
    exact h.2.symm
  · simp only [step, Option.ite_none_right_eq_some, Option.some.injEq] at h
    exact h.2.symm

end Steps

/-- A run of events. -/
def run (host peer : ByteOrder) (s : Connection) (events : List Event) :
    Option Connection :=
  Library.runEvents (step host peer) s events

/-- The messages whose sending has begun. -/
def sent (events : List Event) : List Bytes :=
  events.filterMap (fun
    | .send message =>
        if message.length > kMaxMessageSize then none else some message
    | _ => none)

/-! ## Frames -/

/-- A message on the wire. -/
def frame (message : Bytes) : Bytes := wireSize message.length ++ message

theorem length_lt_of_le {message : Bytes} (h : message.length ≤ kMaxMessageSize) :
    message.length < 4294967296 := by
  have hmax : kMaxMessageSize = 16777216 := rfl
  omega

/-- The size in front of a frame is that of its message. -/
theorem size_of_frame_append {message : Bytes} {size : Nat} {rest rest' : Bytes}
    (hmessage : message.length ≤ kMaxMessageSize)
    (hsize : size < 4294967296)
    (h : wireSize size ++ rest = frame message ++ rest') :
    size = message.length ∧ rest = message ++ rest' := by
  rw [frame, List.append_assoc] at h
  obtain ⟨hwire, hrest⟩ := List.append_inj h
    (by rw [length_wireSize, length_wireSize])
  refine ⟨?_, hrest⟩
  have hread := congrArg ofWire hwire
  rwa [ofWire_wireSize hsize, ofWire_wireSize (length_lt_of_le hmessage)]
    at hread

/-- A frame can be told from whatever follows it. -/
theorem frame_append_inj {message message' rest rest' : Bytes}
    (hmessage : message.length ≤ kMaxMessageSize)
    (hmessage' : message'.length ≤ kMaxMessageSize)
    (h : frame message ++ rest = frame message' ++ rest') :
    message = message' ∧ rest = rest' := by
  rw [frame, List.append_assoc] at h
  obtain ⟨hlength, hrest⟩ := size_of_frame_append hmessage'
    (length_lt_of_le hmessage) h
  exact List.append_inj hrest hlength

end Ipc

end ArkiveSync
