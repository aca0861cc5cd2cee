import ArkiveSync.Model.Ipc

/-!
# Requests to the daemon

`DaemonIpcServer::serve`, the handler of `makeDaemonIpcHandler`, and
`IpcProtocolClient::request`.  Every run of the program makes one connection for
each of its requests; the daemon answers the connections one after the other,
on a thread of its own.  `Call` is one connection with the process at either
end of it, `System` all connections and the server, and the ends take their
steps in any order.

The messages are serialized and parsed by a library, `Codec`; what a command
does to the daemon is left open, only what it answers is there.  A process that
writes to a connection whose other end is closed is killed by `SIGPIPE`, which
the program does not handle.
-/

namespace ArkiveSync

namespace DaemonIpc

/-! ## The messages -/

/-- `ipc::kProtocolVersion`. -/
def kProtocolVersion : Nat := 1

/-- `ipc::isSupportedProtocolVersion`. -/
def isSupportedProtocolVersion (version : Nat) : Bool :=
  version == kProtocolVersion

/-- `enum Command`; a number without a name is kept as it is. -/
inductive Command where
  | unspecified
  | status
  | stop
  | login
  | logout
  | syncAdd
  | syncRun
  | syncList
  | syncRemove
  | syncPull
  | other (number : Int)
  deriving DecidableEq, Repr

/-- `message Request`. -/
structure Request where
  protocolVersion : Nat
  command : Command
  email : String := ""
  password : String := ""
  path : String := ""
  deriving DecidableEq, Repr

/-- `message SyncRoot`. -/
structure SyncRoot where
  id : String
  path : String
  enabled : Bool
  mode : String
  deriving DecidableEq, Repr

/-- `message Response`. -/
structure Response where
  protocolVersion : Nat := 0
  ok : Bool := false
  error : String := ""
  state : String := ""
  syncRootCount : Nat := 0
  authenticated : Bool := false
  vaultUnlocked : Bool := false
  email : String := ""
  syncRootId : String := ""
  syncRootPath : String := ""
  scannedRootCount : Nat := 0
  syncRoots : List SyncRoot := []
  syncedEntryCount : Nat := 0
  deriving DecidableEq, Repr

/-- `ipc::serialize` and `ipc::parse` of either message; `none` is the
exception. -/
structure Codec where
  serializeRequest : Request → Option Bytes
  parseRequest : Bytes → Option Request
  serializeResponse : Response → Option Bytes
  parseResponse : Bytes → Option Response

/-- What is parsed from a serialized message is this message. -/
structure Codec.Faithful (codec : Codec) : Prop where
  request : ∀ message bytes message',
    codec.serializeRequest message = some bytes →
    codec.parseRequest bytes = some message' → message' = message
  response : ∀ message bytes message',
    codec.serializeResponse message = some bytes →
    codec.parseResponse bytes = some message' → message' = message

/-! ## The handler -/

/-- A function of `ipc::commands`, with what it takes from the request. -/
inductive CommandCall where
  | status
  | login (email password : String)
  | logout
  | syncAdd (path : String)
  | syncRun
  | syncList
  | syncRemove (path : String)
  | syncPull
  | stop
  deriving DecidableEq, Repr

/-- The `switch` of the handler: the command that is run, or the error that is
answered at once. -/
def commandOf (request : Request) : Except String CommandCall :=
  if !isSupportedProtocolVersion request.protocolVersion then
    .error "Unsupported IPC protocol version"
  else
    match request.command with
    | .status => .ok .status
    | .login => .ok (.login request.email request.password)
    | .logout => .ok .logout
    | .syncAdd => .ok (.syncAdd request.path)
    | .syncRun => .ok .syncRun
    | .syncList => .ok .syncList
    | .syncRemove => .ok (.syncRemove request.path)
    | .syncPull => .ok .syncPull
    | .stop => .ok .stop
    | .unspecified => .error "Unsupported IPC command"
    | .other _ => .error "Unsupported IPC command"

/-- The handler calls `requestStop`. -/
def requestsStop (request : Request) : Bool :=
  match commandOf request with
  | .ok .stop => true
  | _ => false

/-- `ipc::commands::stop`, behind `requestStop()`. -/
def stopResponse : Response := { ok := true, state := "stopping" }

/-- The handler; `outcome` is what a command that reaches the services of the
daemon returns, or the text of its exception. -/
def makeDaemonIpcHandler (outcome : Except String Response)
    (request : Request) : Except String Response :=
  match commandOf request with
  | .error error => .ok { protocolVersion := kProtocolVersion, error := error }
  | .ok .stop => .ok stopResponse
  | .ok _ => outcome

/-- What `serve` sends for a request. -/
def respond (outcome : Except String Response) (request : Request) : Response :=
  match makeDaemonIpcHandler outcome request with
  | .ok response => { response with protocolVersion := kProtocolVersion }
  | .error error => { protocolVersion := kProtocolVersion, error := error }

/-- Some command answers the request with the response. -/
def Answers (request : Request) (response : Response) : Prop :=
  ∃ outcome, response = respond outcome request

theorem respond_protocolVersion (outcome : Except String Response)
    (request : Request) :
    (respond outcome request).protocolVersion = kProtocolVersion := by
  unfold respond
  cases makeDaemonIpcHandler outcome request with
  | ok response => rfl
  | error error => rfl

/-- A request that runs no command is answered with the error. -/
theorem respond_of_error {outcome : Except String Response} {request : Request}
    {error : String} (h : commandOf request = .error error) :
    respond outcome request =
      { protocolVersion := kProtocolVersion, error := error } := by
  unfold respond makeDaemonIpcHandler
  rw [h]

theorem respond_of_stop {outcome : Except String Response} {request : Request}
    (h : commandOf request = .ok .stop) :
    respond outcome request =
      { stopResponse with protocolVersion := kProtocolVersion } := by
  unfold respond makeDaemonIpcHandler
  rw [h]

/-! ## One connection -/

/-- How far `IpcProtocolClient::request` is; `failed` is its exception, or the
end of its process. -/
inductive Client where
  | sending
  | receiving
  | returned (response : Response)
  | failed
  deriving DecidableEq, Repr

/-- How far `serve` is with a connection. -/
inductive Turn where
  | waiting
  | receiving
  | handling (request : Request)
  | sending (request : Request)
  | closed
  deriving DecidableEq, Repr

/-- A connection, the request of the process that has made it, and what `serve`
has answered.  The connection that `DaemonIpcServer::stop` makes has no
request. -/
structure Call where
  request : Option Request
  client : Client
  turn : Turn
  toServer : Ipc.Connection
  toClient : Ipc.Connection
  answer : Option (Request × Response)
  deriving DecidableEq, Repr

/-- The events of `writeAll`, and those of `readAll`. -/
def isWrite : Ipc.Event → Bool
  | .write _ => true
  | .writeInterrupted => true
  | .writeFailed => true
  | _ => false

def isRead : Ipc.Event → Bool
  | .read _ => true
  | .readInterrupted => true
  | .readFailed => true
  | _ => false

/-- A connection on which nothing has been sent. -/
def connected (request : Option Request) (client : Client) : Call :=
  { request := request, client := client, turn := .waiting,
    toServer := Ipc.start, toClient := Ipc.start, answer := none }

/-- `IpcProtocolClient::request`, up to the first `write`. -/
def connect (codec : Codec) (host : Ipc.ByteOrder) (request : Request) : Call :=
  match (codec.serializeRequest request).bind (Ipc.send host) with
  | none => connected (some request) .failed
  | some writer =>
      { connected (some request) .sending with
        toServer := { Ipc.start with writer := writer } }

/-- Behind a system call of `send` in the client. -/
def clientSent (call : Call) : Call :=
  match call.toServer.writer with
  | .idle =>
      { call with
        client := .receiving
        toClient := { call.toClient with reader := .size [] } }
  | .failed => { call with client := .failed }
  | _ => call

/-- Behind a system call of `receive` in the client. -/
def clientReceived (codec : Codec) (call : Call) : Call :=
  match call.toClient.received with
  | bytes :: _ =>
      match codec.parseResponse bytes with
      | some response => { call with client := .returned response }
      | none => { call with client := .failed }
  | [] =>
      match call.toClient.reader with
      | .failed => { call with client := .failed }
      | .rejected => { call with client := .failed }
      | _ => call

/-- A system call of the client. -/
def clientStep (codec : Codec) (host : Ipc.ByteOrder) (call : Call)
    (event : Ipc.Event) : Option Call :=
  match call.client with
  | .sending =>
      if isWrite event then
        if call.turn = .closed then
          some { call with client := .failed }
        else
          (Ipc.step host host call.toServer event).map (fun connection =>
            clientSent { call with toServer := connection })
      else none
  | .receiving =>
      if isRead event then
        (Ipc.step host host call.toClient event).map (fun connection =>
          clientReceived codec { call with toClient := connection })
      else none
  | _ => none

/-- The process of the client has not ended. -/
def Client.Open : Client → Prop
  | .sending => True
  | .receiving => True
  | _ => False

instance : DecidablePred Client.Open := fun client =>
  match client with
  | .sending => isTrue trivial
  | .receiving => isTrue trivial
  | .returned _ => isFalse id
  | .failed => isFalse id

/-- Where `serve` goes on. -/
inductive Next where
  | stay
  | loop
  | stop
  | die
  deriving DecidableEq, Repr

/-- Behind a system call of `receive` in the server. -/
def serverReceived (codec : Codec) (call : Call) : Call × Next :=
  match call.toServer.received with
  | bytes :: _ =>
      match codec.parseRequest bytes with
      | some request => ({ call with turn := .handling request }, .stay)
      | none => ({ call with turn := .closed }, .loop)
  | [] =>
      match call.toServer.reader with
      | .failed => ({ call with turn := .closed }, .loop)
      | .rejected => ({ call with turn := .closed }, .loop)
      | _ => (call, .stay)

/-- Behind a system call of `send` in the server. -/
def serverSent (request : Request) (call : Call) : Call × Next :=
  match call.toClient.writer with
  | .idle =>
      ({ call with turn := .closed },
        if request.command = .stop then .stop else .loop)
  | .failed => ({ call with turn := .closed }, .loop)
  | _ => (call, .stay)

/-- A system call of the server. -/
def serverStep (codec : Codec) (host : Ipc.ByteOrder) (call : Call)
    (event : Ipc.Event) : Option (Call × Next) :=
  match call.turn with
  | .receiving =>
      if isRead event then
        (Ipc.step host host call.toServer event).map (fun connection =>
          serverReceived codec { call with toServer := connection })
      else none
  | .sending request =>
      if isWrite event then
        if call.client.Open then
          (Ipc.step host host call.toClient event).map (fun connection =>
            serverSent request { call with toClient := connection })
        else
          some ({ call with turn := .closed }, .die)
      else none
  | _ => none

/-- `serve`, from the handler up to the first `write`. -/
def handle (codec : Codec) (host : Ipc.ByteOrder)
    (outcome : Except String Response) (call : Call) : Option (Call × Next) :=
  match call.turn with
  | .handling request =>
      let response := respond outcome request
      let call := { call with answer := some (request, response) }
      match (codec.serializeResponse response).bind (Ipc.send host) with
      | none => some ({ call with turn := .closed }, .loop)
      | some writer =>
          some ({ call with
            turn := .sending request
            toClient := { call.toClient with writer := writer } }, .stay)
  | _ => none

/-- The handler calls `requestStop` for the request that it is given. -/
def callsStop (call : Call) : Bool :=
  match call.turn with
  | .handling request => requestsStop request
  | _ => false

/-! ## The server and its clients -/

/-- The thread of the server. -/
inductive Server where
  | accepting
  | serving (i : Nat)
  | ended
  | killed
  deriving DecidableEq, Repr

/-- All connections in the order in which they were made, the thread of the
server, `stopping_` and `gStopRequested`, and the connections whose requests
have been handled, in this order. -/
structure System where
  calls : List Call
  server : Server
  stopping : Bool
  stopRequested : Bool
  handled : List Nat
  deriving DecidableEq, Repr

/-- `DaemonIpcServer::start`. -/
def start : System :=
  { calls := [], server := .accepting, stopping := false,
    stopRequested := false, handled := [] }

/-- The server has left its loop, or its process has ended. -/
def Server.Gone : Server → Prop
  | .ended => True
  | .killed => True
  | _ => False

instance : DecidablePred Server.Gone := fun server =>
  match server with
  | .ended => isTrue trivial
  | .killed => isTrue trivial
  | .accepting => isFalse id
  | .serving _ => isFalse id

/-- All connections are closed. -/
def hangUp (server : Server) (s : System) : System :=
  { s with
    server := server
    calls := s.calls.map (fun call => { call with turn := .closed }) }

/-- The condition of the loop. -/
def loopHead (s : System) : System :=
  if s.stopping then hangUp .ended s else { s with server := .accepting }

def proceed (s : System) : Next → System
  | .stay => s
  | .loop => loopHead s
  | .stop => hangUp .ended { s with stopping := true }
  | .die => hangUp .killed s

/-- A step of one of the processes, and what its system call returns. -/
inductive Event where
  | connect (request : Request)
  | client (i : Nat) (event : Ipc.Event)
  | kill (i : Nat)
  | accept (i : Nat)
  | acceptFailed
  | server (event : Ipc.Event)
  | handle (outcome : Except String Response)
  | stop
  deriving Repr

/-- One event; `none` when it cannot happen.  `stop` is
`DaemonIpcServer::stop`, which makes a connection and closes it. -/
def step (codec : Codec) (host : Ipc.ByteOrder) (s : System) :
    Event → Option System
  | .connect request =>
      if s.server.Gone then none
      else some { s with calls := s.calls ++ [connect codec host request] }
  | .client i event =>
      s.calls[i]?.bind fun call =>
        (clientStep codec host call event).map fun call =>
          { s with calls := s.calls.set i call }
  | .kill i =>
      s.calls[i]?.bind fun call =>
        if call.client.Open then
          some { s with calls := s.calls.set i { call with client := .failed } }
        else none
  | .accept i =>
      s.calls[i]?.bind fun call =>
        if s.server = .accepting ∧ call.turn = .waiting then
          some { s with
            server := .serving i
            calls := s.calls.set i { call with
              turn := .receiving
              toServer := { call.toServer with reader := .size [] } } }
        else none
  | .acceptFailed => if s.server = .accepting then some (loopHead s) else none
  | .server event =>
      match s.server with
      | .serving i =>
          s.calls[i]?.bind fun call =>
            (serverStep codec host call event).map fun (call, next) =>
              proceed { s with calls := s.calls.set i call } next
      | _ => none
  | .handle outcome =>
      match s.server with
      | .serving i =>
          s.calls[i]?.bind fun call =>
            (handle codec host outcome call).map fun (call', next) =>
              proceed { s with
                calls := s.calls.set i call'
                stopRequested := s.stopRequested || callsStop call
                handled := s.handled ++ [i] } next
      | _ => none
  | .stop =>
      if s.server.Gone then some { s with stopping := true }
      else some { s with
        stopping := true
        calls := s.calls ++ [connected none .failed] }

section Steps

variable {codec : Codec} {host : Ipc.ByteOrder} {s s' : System} {i : Nat}
variable {event : Ipc.Event} {outcome : Except String Response}

theorem step_connect {request : Request}
    (h : step codec host s (.connect request) = some s') :
    ¬ s.server.Gone ∧
      s' = { s with calls := s.calls ++ [connect codec host request] } := by
  simp only [step, Option.ite_none_left_eq_some, Option.some.injEq] at h
  exact ⟨h.1, h.2.symm⟩

theorem step_client (h : step codec host s (.client i event) = some s') :
    ∃ call call', s.calls[i]? = some call ∧
      clientStep codec host call event = some call' ∧
      s' = { s with calls := s.calls.set i call' } := by
  obtain ⟨call, hcall, h⟩ := Option.bind_eq_some_iff.mp h
  obtain ⟨call', hstep, h⟩ := Option.map_eq_some_iff.mp h
  exact ⟨call, call', hcall, hstep, h.symm⟩

theorem step_kill (h : step codec host s (.kill i) = some s') :
    ∃ call, s.calls[i]? = some call ∧ call.client.Open ∧
      s' = { s with calls := s.calls.set i { call with client := .failed } } := by
  obtain ⟨call, hcall, h⟩ := Option.bind_eq_some_iff.mp h
  simp only [Option.ite_none_right_eq_some, Option.some.injEq] at h
  exact ⟨call, hcall, h.1, h.2.symm⟩

theorem step_accept (h : step codec host s (.accept i) = some s') :
    ∃ call, s.calls[i]? = some call ∧ s.server = .accepting ∧
      call.turn = .waiting ∧
      s' = { s with
        server := .serving i
        calls := s.calls.set i { call with
          turn := .receiving
          toServer := { call.toServer with reader := .size [] } } } := by
  obtain ⟨call, hcall, h⟩ := Option.bind_eq_some_iff.mp h
  simp only [Option.ite_none_right_eq_some, Option.some.injEq] at h
  obtain ⟨⟨hserver, hturn⟩, rfl⟩ := h
  exact ⟨call, hcall, hserver, hturn, rfl⟩

theorem step_acceptFailed (h : step codec host s .acceptFailed = some s') :
    s.server = .accepting ∧ s' = loopHead s := by
  simp only [step, Option.ite_none_right_eq_some, Option.some.injEq] at h
  exact ⟨h.1, h.2.symm⟩

theorem step_server (h : step codec host s (.server event) = some s') :
    ∃ i call call' next, s.server = .serving i ∧ s.calls[i]? = some call ∧
      serverStep codec host call event = some (call', next) ∧
      s' = proceed { s with calls := s.calls.set i call' } next := by
  cases hserver : s.server with
  | serving i =>
      simp only [step, hserver] at h
      obtain ⟨call, hcall, h⟩ := Option.bind_eq_some_iff.mp h
      obtain ⟨⟨call', next⟩, hstep, h⟩ := Option.map_eq_some_iff.mp h
      exact ⟨i, call, call', next, rfl, hcall, hstep, h.symm⟩
  | accepting =>
      simp only [step, hserver] at h
      cases h
  | ended =>
      simp only [step, hserver] at h
      cases h
  | killed =>
      simp only [step, hserver] at h
      cases h

theorem step_handle (h : step codec host s (.handle outcome) = some s') :
    ∃ i call call' next, s.server = .serving i ∧ s.calls[i]? = some call ∧
      handle codec host outcome call = some (call', next) ∧
      s' = proceed { s with
        calls := s.calls.set i call'
        stopRequested := s.stopRequested || callsStop call
        handled := s.handled ++ [i] } next := by
  cases hserver : s.server with
  | serving i =>
      simp only [step, hserver] at h
      obtain ⟨call, hcall, h⟩ := Option.bind_eq_some_iff.mp h
      obtain ⟨⟨call', next⟩, hstep, h⟩ := Option.map_eq_some_iff.mp h
      exact ⟨i, call, call', next, rfl, hcall, hstep, h.symm⟩
  | accepting =>
      simp only [step, hserver] at h
      cases h
  | ended =>
      simp only [step, hserver] at h
      cases h
  | killed =>
      simp only [step, hserver] at h
      cases h

theorem step_stop (h : step codec host s .stop = some s') :
    (s.server.Gone ∧ s' = { s with stopping := true }) ∨
      (¬ s.server.Gone ∧ s' = { s with
        stopping := true
        calls := s.calls ++ [connected none .failed] }) := by
  simp only [step] at h
  split at h
  next hgone => exact Or.inl ⟨hgone, (Option.some.inj h).symm⟩
  next hgone => exact Or.inr ⟨hgone, (Option.some.inj h).symm⟩

end Steps

/-- A run of events. -/
def run (codec : Codec) (host : Ipc.ByteOrder) (s : System)
    (events : List Event) : Option System :=
  Library.runEvents (step codec host) s events

end DaemonIpc

end ArkiveSync
