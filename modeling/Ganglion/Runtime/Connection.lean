import Mathlib.Logic.Function.Basic
import Ganglion.Lib.Channel

/-!
# Raft connections

The client side of the raft transport (`DialerRaftConnection`, `IdleStream`) with the peers it talks to. A call goes
through the `await` points of `call` and `try_call` one event at a time, and can be cancelled at each of them; the idle
task and the peers (`serve_connection`) move between any two of its steps.

* Streams have numbers, and a stream that was dropped is still there: its peer may answer on it at any time.
* A frame is written and read in parts, as `write_frame` and `read_frame` do. A request carries the call and the
  attempt that sent it, which no step of the client looks at.
* Failures are free: any dial, write or read, and the idle task, may fail at any time in any way.

`Connection.step` is one step of all of them.
-/

namespace Ganglion

/-- `io::ErrorKind`; `other` is any kind that the transport does not name. -/
inductive ErrorKind where
  | connectionRefused
  | connectionReset
  | connectionAborted
  | brokenPipe
  | unexpectedEof
  | timedOut
  | invalidData
  | other
  deriving DecidableEq

/-- `PeerHealth::explicit_failure`. -/
def explicitFailure : ErrorKind → Bool
  | .connectionRefused | .connectionReset | .connectionAborted | .brokenPipe | .unexpectedEof => true
  | .timedOut | .invalidData | .other => false

/-! ## Frames -/

/-- `WireRequest`, over the payloads `B`. -/
inductive WireRequest (B : Type) where
  | appendEntries (rpc : B)
  | vote (rpc : B)
  | installSnapshot (rpc : B)
  | clientWrite (command : B)
  deriving DecidableEq

/-- What a raft core answers: a response, an error of the operation, or `RaftError::Fatal`. -/
inductive RaftReply (B : Type) where
  | ok (response : B)
  | apiError (error : B)
  | fatal (error : B)
  deriving DecidableEq

/-- `WireResponse`. -/
inductive WireResponse (B : Type) where
  | appendEntries (reply : RaftReply B)
  | vote (reply : RaftReply B)
  | installSnapshot (reply : RaftReply B)
  | clientWrite (result : Except B B)
  deriving DecidableEq

section

variable {B : Type}

/-- `fatal` of `try_call`. -/
def WireResponse.fatal : WireResponse B → Bool
  | .appendEntries (.fatal _) | .vote (.fatal _) | .installSnapshot (.fatal _) => true
  | _ => false

/-- `matching` of `try_call`. -/
def matching : WireRequest B → WireResponse B → Bool
  | .appendEntries _, .appendEntries _ | .vote _, .vote _ | .installSnapshot _, .installSnapshot _ => true
  | _, _ => false

/-- The responses that `serve_connection` can write for a request. -/
def serves : WireRequest B → WireResponse B → Bool
  | .clientWrite _, .clientWrite _ => true
  | request, response => matching request response

end

/-! ## The connection -/

/-- The first try of a call, or the one that verifies a disconnect. -/
inductive Attempt where
  | first
  | retry
  deriving DecidableEq

/-- A request frame, with the call and the attempt it belongs to. -/
structure RequestFrame (B : Type) where
  call : Nat
  attempt : Attempt
  request : WireRequest B
  deriving DecidableEq

/-- A stream by its number. -/
abbrev StreamId := Nat

/-- The task of an `IdleStream`: it waits on the stream it owns, dials, or has ended with what `acquire` gets. -/
inductive IdleTask where
  | reading (stream : StreamId)
  | probing
  | ended (stream : Option StreamId)
  deriving DecidableEq

/-- The stream that an idle task owns, or has for `acquire`. -/
def IdleTask.stream : IdleTask → Option StreamId
  | .reading stream => some stream
  | .probing => none
  | .ended stream => stream

/-- The parts of a frame that `write_frame` awaits. -/
inductive WritePart where
  | tag
  | length
  | body
  | flush
  deriving DecidableEq

/-- The parts of a frame that `read_frame` awaits. -/
inductive ReadPart where
  | tag
  | length
  | body
  deriving DecidableEq

/-- What `try_call` awaits, with the stream or the idle task that it owns meanwhile. -/
inductive Phase where
  | acquiring (task : IdleTask)
  | dialing
  | writing (stream : StreamId) (part : WritePart)
  | reading (stream : StreamId) (part : ReadPart)
  deriving DecidableEq

/-- A call under way. -/
structure Call (B : Type) where
  id : Nat
  attempt : Attempt
  request : WireRequest B
  phase : Phase
  deriving DecidableEq

/-- The frame of a call. -/
def Call.frame {B : Type} (call : Call B) : RequestFrame B where
  call := call.id
  attempt := call.attempt
  request := call.request

/-- A call that has returned; a response is kept with the request that the peer answered. -/
structure Completion (B : Type) where
  call : Nat
  request : WireRequest B
  result : Except ErrorKind (RequestFrame B × WireResponse B)
  deriving DecidableEq

/-- `DialerRaftConnection` (`stream`, `idle` and the flag of its `PeerHealth`), the call that borrows it, the streams
dialed so far, and what the calls have returned. -/
structure Connection (B : Type) where
  stream : Option StreamId
  idle : Option IdleTask
  monitorIdle : Bool
  call : Option (Call B)
  channels : StreamId → Channel (RequestFrame B) (WireResponse B)
  dialed : Nat
  started : Nat
  completed : List (Completion B)

namespace Connection

variable {B : Type}

/-- `new_client`. -/
def new (monitorIdle : Bool) : Connection B where
  stream := none
  idle := none
  monitorIdle := monitorIdle
  call := none
  channels := fun _ => .fresh
  dialed := 0
  started := 0
  completed := []

/-- A dial that succeeds gives a new stream. -/
def dial (conn : Connection B) : Connection B :=
  { conn with channels := Function.update conn.channels conn.dialed .fresh, dialed := conn.dialed + 1 }

/-- `try_call` from `self.stream.take()` to the next `await`. -/
def takeStream (conn : Connection B) (call : Call B) : Connection B :=
  match conn.stream with
  | some stream => { conn with stream := none, call := some { call with phase := .writing stream .tag } }
  | none => { conn with call := some { call with phase := .dialing } }

/-- `try_call` up to its first `await`. -/
def tryCall (conn : Connection B) (id : Nat) (attempt : Attempt) (request : WireRequest B) : Connection B :=
  match conn.idle with
  | some task =>
    { conn with
      idle := none
      call := some { id := id, attempt := attempt, request := request, phase := .acquiring task } }
  | none => conn.takeStream { id := id, attempt := attempt, request := request, phase := .dialing }

/-- `park_idle_stream`. -/
def parkIdleStream (conn : Connection B) : Connection B :=
  if conn.monitorIdle then
    match conn.stream with
    | some stream => { conn with stream := none, idle := some (.reading stream) }
    | none => conn
  else conn

/-- The call returns. -/
def complete (conn : Connection B) (call : Call B) (result : Except ErrorKind (RequestFrame B × WireResponse B)) :
    Connection B :=
  { conn with call := none, completed := conn.completed ++ [⟨call.id, call.request, result⟩] }

/-- `call` after a `try_call` that failed. -/
def failed (conn : Connection B) (call : Call B) (kind : ErrorKind) : Connection B :=
  if call.attempt = .first ∧ explicitFailure kind then conn.tryCall call.id .retry call.request
  else ({ conn with stream := none } : Connection B).complete call (.error kind)

/-- The end of `try_call`, and `call` after it. -/
def succeeded (conn : Connection B) (call : Call B) (stream : StreamId)
    (answer : RequestFrame B × WireResponse B) : Connection B :=
  let conn := if !answer.2.fatal && matching call.request answer.2 then { conn with stream := some stream } else conn
  conn.parkIdleStream.complete call (.ok answer)

/-! ## Events -/

/-- What the idle task is woken by. -/
inductive IdleEvent where
  | stop
  | closed
  | readError (kind : ErrorKind)
  | strayByte
  | probeDialed
  | probeFailed (kind : ErrorKind)
  | probeTimedOut
  | aborted
  deriving DecidableEq

/-- A step of the idle task; `stopped` says that `acquire` has sent the stop, and `fresh` is the next stream. -/
def idleStep (stopped : Bool) (fresh : StreamId) : IdleTask → IdleEvent → Option IdleTask
  | .reading stream, .stop => if stopped then some (.ended (some stream)) else none
  | .reading _, .closed => some (if explicitFailure .unexpectedEof then .probing else .ended none)
  | .reading _, .readError kind => some (if explicitFailure kind then .probing else .ended none)
  | .reading _, .strayByte => some (.ended none)
  | .probing, .stop => if stopped then some (.ended none) else none
  | .probing, .probeDialed => some (.ended (some fresh))
  | .probing, .probeFailed _ => some (.ended none)
  | .probing, .probeTimedOut => some (.ended none)
  -- a task that panics or is shut down: `acquire` gets no stream
  | .reading _, .aborted => some (.ended none)
  | .probing, .aborted => some (.ended none)
  | _, _ => none

/-- What can happen to a connection. -/
inductive Event (B : Type) where
  | begin (request : WireRequest B)
  | acquired
  | dialOk
  | dialFailed (kind : ErrorKind)
  | wrote
  | writeFailed (kind : ErrorKind)
  | received
  | readFailed (kind : ErrorKind)
  | retryTimedOut
  | cancelled
  | idle (event : IdleEvent)
  | setMonitorIdle (enabled : Bool)
  | peerAccepts (stream : StreamId)
  | peerAnswers (stream : StreamId) (response : WireResponse B)

/-- A step of the call under way. -/
def callStep (conn : Connection B) (call : Call B) : Event B → Option (Connection B)
  | .acquired =>
    match call.phase with
    | .acquiring (.ended stream) => some (({ conn with stream := stream } : Connection B).takeStream call)
    | _ => none
  | .dialOk =>
    match call.phase with
    | .dialing => some { conn.dial with call := some { call with phase := .writing conn.dialed .tag } }
    | _ => none
  | .dialFailed kind =>
    match call.phase with
    | .dialing => some (conn.failed call kind)
    | _ => none
  | .wrote =>
    match call.phase with
    | .writing stream .tag => some { conn with call := some { call with phase := .writing stream .length } }
    | .writing stream .length => some { conn with call := some { call with phase := .writing stream .body } }
    | .writing stream .body =>
      some { conn with
        channels := Function.update conn.channels stream ((conn.channels stream).send call.frame)
        call := some { call with phase := .writing stream .flush } }
    | .writing stream .flush => some { conn with call := some { call with phase := .reading stream .tag } }
    | _ => none
  | .writeFailed kind =>
    match call.phase with
    | .writing _ _ => some (conn.failed call kind)
    | _ => none
  | .received =>
    match call.phase with
    | .reading stream part =>
      match (conn.channels stream).receive, part with
      | some _, .tag => some { conn with call := some { call with phase := .reading stream .length } }
      | some _, .length => some { conn with call := some { call with phase := .reading stream .body } }
      | some (answer, channel), .body =>
        some (({ conn with channels := Function.update conn.channels stream channel } : Connection B).succeeded call
          stream answer)
      | none, _ => none
    | _ => none
  | .readFailed kind =>
    match call.phase with
    | .reading _ _ => some (conn.failed call kind)
    | _ => none
  | .retryTimedOut =>
    match call.attempt with
    | .retry => some (({ conn with stream := none } : Connection B).complete call (.error .timedOut))
    | .first => none
  -- the future is dropped, with the stream or the idle task it owns
  | .cancelled => some { conn with call := none }
  | _ => none

/-- The streams after an event of the idle task: a probe may have dialed one. -/
def probed (conn : Connection B) (event : IdleEvent) : Connection B :=
  if event = .probeDialed then conn.dial else conn

/-- The idle task moves, wherever it is: with the connection, or with a call that waits for it. -/
def idleMoves (conn : Connection B) (event : IdleEvent) : Option (Connection B) :=
  match conn.idle, conn.call with
  | some task, _ =>
    (idleStep false conn.dialed task event).map fun task => { conn.probed event with idle := some task }
  | none, some call =>
    match call.phase with
    | .acquiring task =>
      (idleStep true conn.dialed task event).map fun task =>
        { conn.probed event with call := some { call with phase := .acquiring task } }
    | _ => none
  | none, none => none

/-- A step of the connection and its peers; `none` where the event cannot happen. -/
def step (conn : Connection B) (event : Event B) : Option (Connection B) :=
  match event with
  | .begin request =>
    match conn.call with
    | none => some (({ conn with started := conn.started + 1 } : Connection B).tryCall conn.started .first request)
    | some _ => none
  | .idle event => conn.idleMoves event
  | .setMonitorIdle enabled => some { conn with monitorIdle := enabled }
  | .peerAccepts stream =>
    (conn.channels stream).accept.map fun channel =>
      { conn with channels := Function.update conn.channels stream channel }
  | .peerAnswers stream response =>
    match (conn.channels stream).serving with
    | some frame =>
      if serves frame.request response then
        ((conn.channels stream).answer response).map fun channel =>
          { conn with channels := Function.update conn.channels stream channel }
      else none
    | none => none
  | event => conn.call.bind fun call => conn.callStep call event

end Connection

end Ganglion
