import ArkiveSync.Library.KeyedList
import ArkiveSync.Library.Runs
import ArkiveSync.Model.SearchTokens
import Mathlib.Data.List.Range

/-!
# The transport of storage uploads

`StoragePutTransport::Impl` of `networking/StoragePutTransport.cpp`.  Calls of
`put` push requests under a lock and wait for their promises; one worker thread
takes them over, hands them to curl, and sets the promises when curl reports
the transfers or when something fails.

An event is one critical section, or a part of the worker's code between two of
its calls.  What curl returns is part of the event: it may report any handle, as
often as it likes.  A worker that waits on the condition goes on at any time at
which the condition holds.

## Main results

* `storageHeaderCallback_call`, `storageWriteCallback_call`: what curl calls
  back does not change which call a request belongs to.
-/

namespace ArkiveSync

open Library

namespace StoragePutTransport

/-! ## Requests -/

/-- `StoragePutRequest`, with the accepted call of `put` that waits for its
promise. -/
structure StoragePutRequest where
  call : Nat
  url : String
  body : Bytes
  response : Bytes := []
  etag : Bytes := []
  deriving DecidableEq, Repr

/-- `storageWriteCallback`. -/
def storageWriteCallback (bytes : Bytes) (request : StoragePutRequest) :
    StoragePutRequest :=
  { request with response := request.response ++ bytes }

/-- `kEtagPrefix`: `etag:`. -/
def kEtagPrefix : Bytes := [101, 116, 97, 103, 58]

/-- A blank or a tab. -/
def isBlank (ch : UInt8) : Bool := ch == 32 || ch == 9

/-- What is cut off the end of a header line. -/
def isLineEnd (ch : UInt8) : Bool := ch == 13 || ch == 10 || isBlank ch

/-- `storageHeaderCallback`. -/
def storageHeaderCallback (header : Bytes) (request : StoragePutRequest) :
    StoragePutRequest :=
  if header.length < kEtagPrefix.length then
    request
  else if (header.take kEtagPrefix.length).map FileEncryptor.toLower ≠
      kEtagPrefix then
    request
  else
    let value := header.drop kEtagPrefix.length
    { request with etag := (value.dropWhile isBlank).rdropWhile isLineEnd }

@[simp] theorem storageWriteCallback_call (bytes : Bytes)
    (request : StoragePutRequest) :
    (storageWriteCallback bytes request).call = request.call := rfl

@[simp] theorem storageHeaderCallback_call (header : Bytes)
    (request : StoragePutRequest) :
    (storageHeaderCallback header request).call = request.call := by
  unfold storageHeaderCallback
  split_ifs <;> rfl

/-- The calls that wait for these requests. -/
def callsOf (requests : List StoragePutRequest) : List Nat :=
  requests.map StoragePutRequest.call

/-! ## Promises -/

/-- The exceptions that a promise is set to. -/
inductive PutError where
  | runtimeError (what : String)
  | httpError (statusCode : Int) (body : Bytes)
  deriving DecidableEq, Repr

/-- What a promise is set to. -/
abbrev Answer := Except PutError Bytes

/-- `curl_multi_strerror` and `curl_easy_strerror`. -/
structure CurlTexts where
  multiStrerror : Int → String
  easyStrerror : Nat → String

/-- `CURLM_OK`. -/
def CURLM_OK : Int := 0

/-- `CURLE_OK`. -/
def CURLE_OK : Nat := 0

/-- The exception that `collectCompleted` hands to `finish`, if any. -/
def transferError (texts : CurlTexts) (result : Nat) (status : Int)
    (request : StoragePutRequest) : Option PutError :=
  if result ≠ CURLE_OK then
    some (.runtimeError (texts.easyStrerror result))
  else if status < 200 ∨ status ≥ 300 then
    some (.httpError (BitVec.ofInt 32 status).toInt request.response)
  else
    none

/-- What `finish` sets the promise to. -/
def finishAnswer (request : StoragePutRequest) : Option PutError → Answer
  | some error => .error error
  | none => .ok request.etag

/-! ## The transport -/

/-- Where the worker is: in `addPending` with what is left of its batch, in
`finish`, or between two calls of `run`. -/
inductive Worker where
  | starting
  | looping
  | adding (pending : List StoragePutRequest)
  | performing
  | collecting
  | finishing (request : StoragePutRequest) (error : Option PutError)
  | testing
  | polling
  | waiting
  | leaving
  | exited
  deriving DecidableEq, Repr

/-- The members of `Impl` and the local variables of the worker; how many calls
of `put` have been accepted, and the promises that have been set, the latest
one last. -/
structure Transport where
  stopping : Bool
  pending : List StoragePutRequest
  active : List (Nat × StoragePutRequest)
  running : Int
  worker : Worker
  accepted : Nat
  answers : List (Nat × Answer)
  deriving DecidableEq, Repr

/-- The constructor has started the worker. -/
def start : Transport :=
  { stopping := false, pending := [], active := [], running := 0,
    worker := .starting, accepted := 0, answers := [] }

/-- A promise is set. -/
def answer (request : StoragePutRequest) (result : Answer) (s : Transport) :
    Transport :=
  { s with answers := s.answers ++ [(request.call, result)] }

/-- `failAll`. -/
def failAll (error : PutError) (s : Transport) : Transport :=
  { s with
    pending := []
    active := []
    answers := s.answers ++
      (s.pending ++ s.active.map Prod.snd).map
        (fun request => (request.call, .error error)) }

/-- How curl takes a request that `addPending` hands to it. -/
inductive Added where
  | noHandle
  | noHeaders
  | handle (handle : Nat) (code : Int)
  deriving DecidableEq, Repr

/-- A turn of the loop of `addPending`.  A new handle is none of those that are
in use. -/
def addRequest (texts : CurlTexts) (request : StoragePutRequest) (s : Transport) :
    Added → Option Transport
  | .noHandle =>
      some (answer request
        (.error (.runtimeError "failed to initialize curl storage handle")) s)
  | .noHeaders =>
      some (answer request
        (.error (.runtimeError "failed to append curl storage header")) s)
  | .handle handle code =>
      if (findKey Prod.fst handle s.active).isSome then
        none
      else if code ≠ CURLM_OK then
        some (answer request (.error (.runtimeError (texts.multiStrerror code))) s)
      else
        some { s with active := s.active ++ [(handle, request)] }

/-- A turn of the loop of `collectCompleted`, up to the call of `finish`. -/
def collectMessage (texts : CurlTexts) (easyHandle : Nat) (done : Bool)
    (result : Nat) (status : Int) (s : Transport) : Transport :=
  if !done then
    s
  else
    match findKey Prod.fst easyHandle s.active with
    | none => s
    | some found =>
        { s with
          active := eraseKey Prod.fst easyHandle s.active
          worker := .finishing found.2
            (transferError texts result status found.2) }

/-- Behind the test of the loop of `run`. -/
def tested (s : Transport) : Worker :=
  if s.stopping ∧ s.pending = [] ∧ s.active = [] then
    .leaving
  else if s.running > 0 then
    .polling
  else if s.pending = [] then
    .waiting
  else
    .looping

/-- What the callers, the destructor and the worker do, and what curl returns
to the worker. -/
inductive Event where
  | put (url : String) (body : Bytes)
  | destroy
  | multiInit (ok : Bool)
  | swap
  | add (added : Added)
  | batchDone
  | header (handle : Nat) (bytes : Bytes)
  | write (handle : Nat) (bytes : Bytes)
  | performed (running : Int)
  | message (easyHandle : Nat) (done : Bool) (result : Nat) (status : Int)
  | noMessage
  | finish
  | test
  | polled
  | wake
  | leave
  deriving DecidableEq, Repr

/-- One event; `none` when it cannot happen.  A `put` behind the destructor's
lock throws and leaves everything as it is. -/
def step (texts : CurlTexts) (s : Transport) : Event → Option Transport
  | .put url body =>
      if s.stopping then
        some s
      else
        some { s with
          pending := s.pending ++ [{ call := s.accepted, url := url, body := body }]
          accepted := s.accepted + 1 }
  | .destroy => some { s with stopping := true }
  | .multiInit ok =>
      match s.worker with
      | .starting =>
          if ok then
            some { s with worker := .looping }
          else
            some (failAll (.runtimeError "failed to initialize curl multi handle")
              { s with stopping := true, worker := .exited })
      | _ => none
  | .swap =>
      match s.worker with
      | .looping => some { s with pending := [], worker := .adding s.pending }
      | _ => none
  | .add added =>
      match s.worker with
      | .adding (request :: batch) =>
          addRequest texts request { s with worker := .adding batch } added
      | _ => none
  | .batchDone =>
      match s.worker with
      | .adding [] => some { s with worker := .performing }
      | _ => none
  | .header handle bytes =>
      match s.worker with
      | .performing =>
          some { s with
            active := modifyFirst Prod.fst handle
              (Prod.map id (storageHeaderCallback bytes)) s.active }
      | _ => none
  | .write handle bytes =>
      match s.worker with
      | .performing =>
          some { s with
            active := modifyFirst Prod.fst handle
              (Prod.map id (storageWriteCallback bytes)) s.active }
      | _ => none
  | .performed running =>
      match s.worker with
      | .performing => some { s with running := running, worker := .collecting }
      | _ => none
  | .message easyHandle done result status =>
      match s.worker with
      | .collecting =>
          some (collectMessage texts easyHandle done result status s)
      | _ => none
  | .noMessage =>
      match s.worker with
      | .collecting => some { s with worker := .testing }
      | _ => none
  | .finish =>
      match s.worker with
      | .finishing request error =>
          some (answer request (finishAnswer request error)
            { s with worker := .collecting })
      | _ => none
  | .test =>
      match s.worker with
      | .testing => some { s with worker := tested s }
      | _ => none
  | .polled =>
      match s.worker with
      | .polling => some { s with worker := .looping }
      | _ => none
  | .wake =>
      match s.worker with
      | .waiting =>
          if s.stopping ∨ s.pending ≠ [] then
            some { s with worker := .looping }
          else
            none
      | _ => none
  | .leave =>
      match s.worker with
      | .leaving =>
          some (failAll (.runtimeError "storage upload transport stopped")
            { s with worker := .exited })
      | _ => none

/-- A run of events. -/
def run (texts : CurlTexts) (s : Transport) (events : List Event) :
    Option Transport :=
  runEvents (step texts) s events

/-! ## Places -/

/-- The local batch of `addPending`. -/
def batch (s : Transport) : List StoragePutRequest :=
  match s.worker with
  | .adding pending => pending
  | _ => []

/-- The request that `finish` has been called with. -/
def inFinish (s : Transport) : List StoragePutRequest :=
  match s.worker with
  | .finishing request _ => [request]
  | _ => []

/-- The calls whose promise has been set. -/
def answered (s : Transport) : List Nat := s.answers.map Prod.fst

/-- Where a request may be. -/
inductive Place where
  | pending
  | batch
  | active
  | finished
  deriving DecidableEq, Repr

/-- The calls whose requests are at a place. -/
def held (s : Transport) : Place → List Nat
  | .pending => callsOf s.pending
  | .batch => callsOf (batch s)
  | .active => callsOf (s.active.map Prod.snd)
  | .finished => callsOf (inFinish s) ++ answered s

/-- All places. -/
def census (s : Transport) : List Nat :=
  held s .pending ++ held s .batch ++ held s .active ++ held s .finished

end StoragePutTransport

end ArkiveSync
