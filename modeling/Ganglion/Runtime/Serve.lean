import Ganglion.Lib.Replay
import Ganglion.Runtime.Controller
import Ganglion.Runtime.Frames

/-!
# Serving raft RPCs

The server side of the raft transport (`serve_connection`) at the level of bytes, and writes that a node forwards to the
leader through it (`client_write_remote_with_hint`, `client_write_remote`). Any number of connections share one raft
core, which also changes on its own. Bytes arrive in any pieces; a connection reads a frame when it is there, calls the
core and writes the answer, and it can break anywhere.

openraft is a parameter: the payloads of its RPCs are types, and its handle is a state with the four calls.

* `readFrame_front`: what is read from a front of a stream of frames.
* `Inv`: the calls of a connection are those of its first frames, and its output is a front of the frames of the
  answers. `Inv.turn` keeps it, by the outcome of the read.
* `serve_in_order`: each request is called once, in order, and each answer read belongs to its request.
* `forwarded_write`: what the result of a forwarded write says about the call.
-/

namespace Ganglion

/-! ## Requests and responses -/

/-- The payloads of openraft's RPCs; a result is the response or its `RaftError`. -/
structure RpcTypes where
  AppendEntriesRequest : Type
  AppendEntriesResult : Type
  VoteRequest : Type
  VoteResult : Type
  InstallSnapshotRequest : Type
  InstallSnapshotResult : Type

/-- `WireRequest`, with the types of its payloads. -/
inductive RpcRequest (T : RpcTypes) where
  | appendEntries (rpc : T.AppendEntriesRequest)
  | vote (rpc : T.VoteRequest)
  | installSnapshot (rpc : T.InstallSnapshotRequest)
  | clientWrite (command : MetadataRaftCommand)

/-- `RemoteWriteError`. -/
inductive RemoteWriteError where
  | notLeader (leaderAddr : Option String)
  | other (message : String)
  deriving DecidableEq

/-- `WireResponse`, with the types of its payloads. -/
inductive RpcResponse (T : RpcTypes) where
  | appendEntries (result : T.AppendEntriesResult)
  | vote (result : T.VoteResult)
  | installSnapshot (result : T.InstallSnapshotResult)
  | clientWrite (result : Except RemoteWriteError MetadataRaftResponse)

/-- The error of `client_write`: `forward_to_leader` with the address of `leader_node`, or one that is shown. -/
inductive ClientWriteError where
  | forwardToLeader (leaderAddr : Option String)
  | other (text : String)
  deriving DecidableEq

/-- What the core returns for a request. -/
def RpcRequest.Result {T : RpcTypes} : RpcRequest T → Type
  | .appendEntries _ => T.AppendEntriesResult
  | .vote _ => T.VoteResult
  | .installSnapshot _ => T.InstallSnapshotResult
  | .clientWrite _ => Except ClientWriteError MetadataRaftResponse

/-- `Raft<GanglionRaftConfig>`, over the state `S` of its core: a call is taken, and has a result some time later. -/
structure RaftHandle (T : RpcTypes) (S : Type) where
  call : Nat → RpcRequest T → S → S
  poll : Nat → (request : RpcRequest T) → S → Option (request.Result × S)

/-- How `serve_connection` answers a client write. -/
def remoteResult : Except ClientWriteError MetadataRaftResponse → Except RemoteWriteError MetadataRaftResponse
  | .ok response => .ok response
  | .error (.forwardToLeader leaderAddr) => .error (.notLeader leaderAddr)
  | .error (.other text) => .error (.other text)

/-- A request with the result of its call. -/
structure RpcAnswer (T : RpcTypes) where
  request : RpcRequest T
  result : request.Result

/-- The match of `serve_connection`. -/
def RpcAnswer.response {T : RpcTypes} : RpcAnswer T → RpcResponse T
  | ⟨.appendEntries _, result⟩ => .appendEntries result
  | ⟨.vote _, result⟩ => .vote result
  | ⟨.installSnapshot _, result⟩ => .installSnapshot result
  | ⟨.clientWrite _, result⟩ => .clientWrite (remoteResult result)

/-! ## The server -/

/-- An accepted connection: all bytes that arrived, those that are unread, whether the peer has closed its side, the
calls made for it, the call under way by its number, the results, the bytes written, and what `serve_connection`
returned. -/
structure Served (T : RpcTypes) where
  sent : Bytes
  input : Bytes
  closed : Bool
  calls : List (RpcRequest T)
  serving : Option (Nat × RpcRequest T)
  answered : List (RpcAnswer T)
  output : Bytes
  ended : Option (Except FrameError Unit)

/-- The connections of a node, its raft core, and how many calls it has taken. -/
structure RaftServer (T : RpcTypes) (S : Type) where
  core : S
  conns : Nat → Served T
  taken : Nat

/-- What can happen. -/
inductive ServeEvent (S : Type) where
  | arrive (conn : Nat) (bytes : Bytes)
  | close (conn : Nat)
  /-- The connection reads a frame, or its end. -/
  | read (conn : Nat)
  /-- A read fails, and not at the end of the stream. -/
  | readFails (conn : Nat) (error : FrameError)
  /-- The call has its result, and the answer is written; the write may fail when so many bytes are out. -/
  | answer (conn : Nat) (cut : Option (Nat × FrameError))
  /-- The core changes on its own or by a call of the node itself. -/
  | other (core : S)

namespace Served

variable {T : RpcTypes}

/-- A connection that was accepted. -/
def fresh : Served T where
  sent := []
  input := []
  closed := false
  calls := []
  serving := none
  answered := []
  output := []
  ended := none

/-- The answers, as frames to be. -/
def frameList (format : WireFormat) (c : Served T) : List (WireFormat × RpcResponse T) :=
  c.answered.map fun answer => (format, answer.response)

/-- `serve_connection` returns. -/
def finish (c : Served T) (result : Except FrameError Unit) : Served T := { c with ended := some result }

/-- `serve_connection` takes no more steps, or waits for a call. -/
def busy (c : Served T) : Bool := c.ended.isSome || c.serving.isSome

/-- The answer is written: all of it, none of it if it cannot be a frame, or what is out when the write fails. -/
def write (responses : BodyCodecs (RpcResponse T)) (format : WireFormat) (c : Served T) (answer : RpcAnswer T)
    (cut : Option (Nat × FrameError)) : Served T :=
  let c := { c with serving := none, answered := c.answered ++ [answer] }
  match writeFrame responses [] format answer.response, cut with
  | (.error error, _), _ => c.finish (.error error)
  | (.ok (), bytes), none => { c with output := c.output ++ bytes }
  | (.ok (), bytes), some (k, error) => ({ c with output := c.output ++ bytes.take k } : Served T).finish (.error error)

end Served

section

variable {T : RpcTypes} {S : Type} (raft : RaftHandle T S) (requests : BodyCodecs (RpcRequest T))
  (responses : BodyCodecs (RpcResponse T)) (format : WireFormat)

namespace RaftServer

/-- A connection takes a new state. -/
def update (w : RaftServer T S) (conn : Nat) (c : Served T) : RaftServer T S :=
  { w with conns := Function.update w.conns conn c }

/-- `read_frame` and what `serve_connection` does with it; `none` while the frame is not there yet. -/
def read (w : RaftServer T S) (conn : Nat) : Option (RaftServer T S) :=
  let c := w.conns conn
  match readFrame requests c.input with
  | (.error error, _) =>
    if error.kind = .unexpectedEof then if c.closed then some (w.update conn (c.finish (.ok ()))) else none
    else some (w.update conn (c.finish (.error error)))
  | (.ok request, input) =>
    let c := { c with input := input, calls := c.calls ++ [request], serving := some (w.taken, request) }
    some { w.update conn c with core := raft.call w.taken request w.core, taken := w.taken + 1 }

/-- The result of the call, if it is there, and the write of the answer. -/
def answer (w : RaftServer T S) (conn : Nat) (cut : Option (Nat × FrameError)) : Option (RaftServer T S) :=
  match (w.conns conn).serving with
  | none => none
  | some (id, request) =>
    (raft.poll id request w.core).map fun r =>
      { w.update conn ((w.conns conn).write responses format ⟨request, r.1⟩ cut) with core := r.2 }

/-- One event. -/
def step (w : RaftServer T S) : ServeEvent S → Option (RaftServer T S)
  | .arrive conn bytes =>
    let c := w.conns conn
    if c.closed || c.ended.isSome then none
    else some (w.update conn { c with sent := c.sent ++ bytes, input := c.input ++ bytes })
  | .close conn => some (w.update conn { w.conns conn with closed := true })
  | .read conn => if (w.conns conn).busy then none else w.read raft requests conn
  | .readFails conn error =>
    if (w.conns conn).busy || error.kind = .unexpectedEof then none
    else some (w.update conn ((w.conns conn).finish (.error error)))
  | .answer conn cut => w.answer raft responses format conn cut
  | .other core => some { w with core := core }

/-- No connection has carried anything. -/
def start (core : S) : RaftServer T S := ⟨core, fun _ => .fresh, 0⟩

end RaftServer

end

/-! ## Fronts of frames -/

section

variable {V : Type} {codecs : BodyCodecs V} {ps : List (WireFormat × V)}

theorem frames_append (ps qs : List (WireFormat × V)) : frames codecs (ps ++ qs) = frames codecs ps ++ frames codecs qs := by
  rw [frames, List.map_append, List.flatten_append, ← frames, ← frames]

theorem frames_singleton {p : WireFormat × V} {body : Bytes} (h : p.1.encode codecs p.2 = .ok body)
    (hlen : body.length ≤ maxFrameBytes.toNat) : frames codecs [p] = frame p.1 body := by
  rw [frames_cons h hlen, frames, List.map_nil, List.flatten_nil, List.append_nil]

/-- What a read meets in a front of a stream of frames: the first frame, or a part of it. -/
theorem readFrame_front (hcodecs : codecs.Lawful) (hfits : Fits codecs ps) {input : Bytes}
    (hinput : input <+: frames codecs ps) :
    (∃ p qs rest, ps = p :: qs ∧ input = frames codecs [p] ++ rest ∧ rest <+: frames codecs qs ∧
      readFrame codecs input = (.ok p.2, rest)) ∨
    (readFrame codecs input = (.error earlyEof, []) ∧
      ∀ p qs, ps = p :: qs → input.length < (frames codecs [p]).length) := by
  cases ps with
  | nil =>
    rw [frames, List.map_nil, List.flatten_nil, List.prefix_nil] at hinput
    subst hinput
    refine .inr ⟨?_, fun p qs h => by cases h⟩
    rw [readFrame, readExact_short (by simp)]
  | cons p qs =>
    obtain ⟨body, henc, hlen⟩ := hfits p (.head qs)
    rw [frames_cons henc hlen] at hinput
    have hone := frames_singleton henc hlen
    by_cases hcut : input.length < (frame p.1 body).length
    · refine .inr ⟨?_, fun p' qs' h => by cases h; rw [hone]; exact hcut⟩
      have htake : input = (frame p.1 body).take input.length := by
        rw [← List.take_append_of_le_length (Nat.le_of_lt hcut)]
        exact List.prefix_iff_eq_take.1 hinput
      rw [htake]
      exact readFrame_cut codecs hlen hcut
    · obtain ⟨rest, rfl⟩ : frame p.1 body <+: input :=
        List.prefix_of_prefix_length_le (List.prefix_append _ _) hinput (Nat.le_of_not_lt hcut)
      refine .inl ⟨p, qs, rest, rfl, by rw [hone], (List.prefix_append_right_inj _).1 hinput, ?_⟩
      exact readFrame_frame hcodecs henc hlen rest

end

/-! ## One connection -/

namespace Served

section

variable {T : RpcTypes} {requests : BodyCodecs (RpcRequest T)} {responses : BodyCodecs (RpcResponse T)}
  {format : WireFormat} {ps : List (WireFormat × RpcRequest T)} {c : Served T} {n : Nat}

/-- The output is a front of the frames of the answers, and all of them as long as the connection runs. -/
structure Written (responses : BodyCodecs (RpcResponse T)) (format : WireFormat) (c : Served T)
    (whole : List (WireFormat × RpcResponse T)) : Prop where
  answers : whole <+: c.frameList format
  fits : Fits responses whole
  output : c.output <+: frames responses whole
  running : c.ended = none → whole = c.frameList format ∧ c.output = frames responses whole

/-- Of a peer that sends `ps`, the first `n` requests were read and called. -/
structure Inv (requests : BodyCodecs (RpcRequest T)) (responses : BodyCodecs (RpcResponse T)) (format : WireFormat)
    (ps : List (WireFormat × RpcRequest T)) (c : Served T) (n : Nat) : Prop where
  calls : c.calls = (ps.take n).map Prod.snd
  le : n ≤ ps.length
  sent : c.sent <+: frames requests ps
  consumed : c.sent = frames requests (ps.take n) ++ c.input
  answered : c.answered.map (·.request) ++ (c.serving.map Prod.snd).toList = c.calls
  serving : c.ended.isSome → c.serving = none
  written : ∃ whole, Written responses format c whole
  /-- When it has ended well, no frame that arrived is left. -/
  finished : c.ended = some (.ok ()) → ∀ m ≤ ps.length, (frames requests (ps.take m)).length ≤ c.sent.length → m ≤ n

theorem inv_fresh (ps : List (WireFormat × RpcRequest T)) : Inv requests responses format ps .fresh 0 where
  calls := by simp [fresh]
  le := Nat.zero_le _
  sent := List.nil_prefix
  consumed := rfl
  answered := rfl
  serving := fun _ => rfl
  written := ⟨[], List.nil_prefix, fun p hp => (List.not_mem_nil hp).elim, List.nil_prefix, fun _ => ⟨rfl, rfl⟩⟩
  finished := fun h => by cases h

/-- The unread bytes are a front of the frames that were not read. -/
theorem Inv.input (h : Inv requests responses format ps c n) : c.input <+: frames requests (ps.drop n) := by
  have hsent := h.sent
  rw [h.consumed] at hsent
  have hsplit : frames requests ps = frames requests (ps.take n) ++ frames requests (ps.drop n) := by
    rw [← frames_append, List.take_append_drop]
  rw [hsplit] at hsent
  exact (List.prefix_append_right_inj _).1 hsent

/-- More bytes of the peer. -/
theorem Inv.arrive (h : Inv requests responses format ps c n) {bytes : Bytes}
    (hbytes : c.sent ++ bytes <+: frames requests ps) (hended : c.ended = none) :
    Inv requests responses format ps { c with sent := c.sent ++ bytes, input := c.input ++ bytes } n where
  calls := h.calls
  le := h.le
  sent := hbytes
  consumed := by rw [h.consumed, List.append_assoc]
  answered := h.answered
  serving := h.serving
  written := h.written.imp fun _ hw => ⟨hw.answers, hw.fits, hw.output, hw.running⟩
  finished := fun he => by
    rw [show c.ended = some (.ok ()) from he] at hended
    cases hended

theorem of_not_busy (h : ¬c.busy = true) : c.ended = none ∧ c.serving = none := by
  rw [busy, Bool.or_eq_true, not_or, Option.not_isSome_iff_eq_none, Option.not_isSome_iff_eq_none] at h
  exact h

/-- The peer closes its side. -/
theorem Inv.close (h : Inv requests responses format ps c n) :
    Inv requests responses format ps { c with closed := true } n where
  calls := h.calls
  le := h.le
  sent := h.sent
  consumed := h.consumed
  answered := h.answered
  serving := h.serving
  written := h.written.imp fun _ hw => ⟨hw.answers, hw.fits, hw.output, hw.running⟩
  finished := h.finished

/-- The connection ends; if it ends well, then because nothing was left. -/
theorem Inv.finish (h : Inv requests responses format ps c n) (hserving : c.serving = none)
    {result : Except FrameError Unit}
    (hleft : result = .ok () → ∀ m ≤ ps.length, (frames requests (ps.take m)).length ≤ c.sent.length → m ≤ n) :
    Inv requests responses format ps (c.finish result) n where
  calls := h.calls
  le := h.le
  sent := h.sent
  consumed := h.consumed
  answered := h.answered
  serving := fun _ => hserving
  written := h.written.imp fun _ hw => ⟨hw.answers, hw.fits, hw.output, fun he => by cases he⟩
  finished := fun he => hleft (Option.some.inj he)

/-- Of the frames that are not read, not even the first has arrived. -/
theorem Inv.nothing_left (h : Inv requests responses format ps c n)
    (hcut : ∀ p qs, ps.drop n = p :: qs → c.input.length < (frames requests [p]).length) {m : Nat}
    (hm : m ≤ ps.length) (hlen : (frames requests (ps.take m)).length ≤ c.sent.length) : m ≤ n := by
  by_contra hlt
  cases hdrop : ps.drop n with
  | nil =>
    have := List.drop_eq_nil_iff.1 hdrop
    omega
  | cons p qs =>
    have hfirst := hcut p qs hdrop
    obtain ⟨more, hmore⟩ : ps.take (n + 1) <+: ps.take m := List.take_prefix_take_left (by omega)
    have htake : ps.take (n + 1) = ps.take n ++ [p] := by
      rw [List.take_add, hdrop]
      rfl
    rw [← hmore, htake, frames_append, frames_append, h.consumed] at hlen
    simp only [List.length_append] at hlen
    omega

/-- A request is read, and the core takes the call. -/
theorem Inv.called (h : Inv requests responses format ps c n) {p : WireFormat × RpcRequest T}
    {qs : List (WireFormat × RpcRequest T)} {rest : Bytes} (hps : ps.drop n = p :: qs)
    (hinput : c.input = frames requests [p] ++ rest) (hidle : c.serving = none) (hrunning : c.ended = none) (id : Nat) :
    Inv requests responses format ps
      { c with input := rest, calls := c.calls ++ [p.2], serving := some (id, p.2) } (n + 1) := by
  have htake : ps.take (n + 1) = ps.take n ++ [p] := by
    rw [List.take_add, hps]
    rfl
  have hlt : n < ps.length := by
    by_contra hge
    rw [List.drop_eq_nil_of_le (Nat.le_of_not_lt hge)] at hps
    cases hps
  refine ⟨?_, hlt, h.sent, ?_, ?_, fun he => ?_, ?_, fun he => ?_⟩
  · rw [htake, List.map_append, ← h.calls]
    rfl
  · rw [htake, frames_append, List.append_assoc, ← hinput]
    exact h.consumed
  · have hanswered := h.answered
    rw [hidle] at hanswered
    rw [← hanswered]
    simp
  · rw [show c.ended = none from hrunning] at he
    cases he
  · exact h.written.imp fun _ hw => ⟨hw.answers, hw.fits, hw.output, hw.running⟩
  · rw [show c.ended = none from hrunning] at he
    cases he

/-- What was written fits. -/
theorem fits_of_writeFrame {V : Type} {codecs : BodyCodecs V} {format : WireFormat} {value : V} {stream bytes : Bytes}
    (h : writeFrame codecs stream format value = (.ok (), bytes)) : Fits codecs [(format, value)] := by
  intro p hp
  cases List.mem_singleton.1 hp
  by_contra hno
  obtain ⟨error, _, herror⟩ := writeFrame_refused stream fun body henc => by
    by_contra hle
    exact hno ⟨body, henc, by omega⟩
  rw [h] at herror
  cases herror

/-- An answer is written, wholly, in part or not at all. -/
theorem Written.write {whole : List (WireFormat × RpcResponse T)} (hw : Written responses format c whole)
    (hrunning : c.ended = none) (answer : RpcAnswer T) (cut : Option (Nat × FrameError)) :
    ∃ whole', Written responses format (c.write responses format answer cut) whole' := by
  obtain ⟨hwhole, houtput⟩ := hw.running hrunning
  have hlist : ∀ c' : Served T, c'.answered = c.answered ++ [answer] →
      c'.frameList format = whole ++ [(format, answer.response)] := by
    intro c' hc'
    rw [hwhole, frameList, frameList, hc', List.map_append]
    rfl
  unfold Served.write
  cases hwrite : writeFrame responses [] format answer.response with
  | mk result bytes =>
    cases result with
    | error error =>
      -- the connection is dropped, and nothing of the answer was written
      refine ⟨whole, ?_, hw.fits, hw.output, fun he => by cases he⟩
      rw [hlist _ rfl]
      exact List.prefix_append _ _
    | ok u =>
      have hframes : frames responses (whole ++ [(format, answer.response)]) = c.output ++ bytes := by
        rw [frames_append, houtput, frames, frames, List.map_singleton, List.flatten_singleton, hwrite]
      have hfits : Fits responses (whole ++ [(format, answer.response)]) := by
        intro q hq
        rcases List.mem_append.1 hq with hq | hq
        · exact hw.fits q hq
        · exact fits_of_writeFrame hwrite q hq
      cases cut with
      | none =>
        refine ⟨_, ⟨[], ?_⟩, hfits, hframes.symm ▸ List.prefix_rfl, fun _ => ⟨(hlist _ rfl).symm, hframes.symm⟩⟩
        rw [List.append_nil, hlist _ rfl]
      | some failure =>
        refine ⟨_, ⟨[], by rw [List.append_nil, hlist _ rfl]⟩, hfits, ?_, fun he => by cases he⟩
        rw [hframes]
        exact (List.prefix_append_right_inj _).2 (List.take_prefix _ _)

theorem Inv.write (h : Inv requests responses format ps c n) {id : Nat} {answer : RpcAnswer T}
    (hserving : c.serving = some (id, answer.request)) (cut : Option (Nat × FrameError)) :
    Inv requests responses format ps (c.write responses format answer cut) n := by
  have hrunning : c.ended = none := by
    by_contra hended
    rw [h.serving (Option.isSome_iff_ne_none.2 hended)] at hserving
    cases hserving
  obtain ⟨whole, hw⟩ := h.written
  have hwritten := hw.write hrunning answer cut
  have hanswered := h.answered
  rw [hserving] at hanswered
  have hcalls : (c.answered ++ [answer]).map (·.request) ++ ((none : Option (Nat × RpcRequest T)).map Prod.snd).toList =
      c.calls := by
    rw [← hanswered]
    simp
  unfold Served.write at hwritten ⊢
  split
  · next hwrite =>
    rw [hwrite] at hwritten
    exact ⟨h.calls, h.le, h.sent, h.consumed, hcalls, fun _ => rfl, hwritten, fun he => by cases he⟩
  · next hwrite =>
    rw [hwrite] at hwritten
    refine ⟨h.calls, h.le, h.sent, h.consumed, hcalls, fun _ => rfl, hwritten, fun he => ?_⟩
    rw [show c.ended = some (.ok ()) from he] at hrunning
    cases hrunning
  · next hwrite =>
    rw [hwrite] at hwritten
    exact ⟨h.calls, h.le, h.sent, h.consumed, hcalls, fun _ => rfl, hwritten, fun he => by cases he⟩

end

end Served

/-! ## All connections -/

namespace RaftServer

section

variable {T : RpcTypes} {S : Type} {raft : RaftHandle T S} {requests : BodyCodecs (RpcRequest T)}
  {responses : BodyCodecs (RpcResponse T)} {format : WireFormat} {ps : Nat → List (WireFormat × RpcRequest T)}
  {w w' : RaftServer T S}

/-- Peer `i` sends the frames of `ps i`, in any pieces, up to any byte. -/
def Sends (requests : BodyCodecs (RpcRequest T)) (ps : Nat → List (WireFormat × RpcRequest T)) (w : RaftServer T S) :
    ServeEvent S → Prop
  | .arrive conn bytes => (w.conns conn).sent ++ bytes <+: frames requests (ps conn)
  | _ => True

/-- Every connection is in order. -/
def Inv (requests : BodyCodecs (RpcRequest T)) (responses : BodyCodecs (RpcResponse T)) (format : WireFormat)
    (ps : Nat → List (WireFormat × RpcRequest T)) (w : RaftServer T S) : Prop :=
  ∀ i, ∃ n, Served.Inv requests responses format (ps i) (w.conns i) n

theorem conns_update_self (w : RaftServer T S) (conn : Nat) (c : Served T) : (w.update conn c).conns conn = c :=
  Function.update_self _ _ _

theorem conns_update_ne {i conn : Nat} (hi : i ≠ conn) (w : RaftServer T S) (c : Served T) :
    (w.update conn c).conns i = w.conns i := Function.update_of_ne hi _ _

theorem Inv.update (h : Inv requests responses format ps w) {conn : Nat} {c : Served T}
    (hc : ∃ n, Served.Inv requests responses format (ps conn) c n) :
    Inv requests responses format ps (w.update conn c) := by
  intro i
  by_cases hi : i = conn
  · subst hi
    rw [conns_update_self]
    exact hc
  · rw [conns_update_ne hi]
    exact h i

theorem Inv.step (hrequests : requests.Lawful) (hfits : ∀ i, Fits requests (ps i)) {event : ServeEvent S}
    (hsends : Sends requests ps w event) (hstep : w.step raft requests responses format event = some w')
    (h : Inv requests responses format ps w) : Inv requests responses format ps w' := by
  cases event with
  | arrive conn bytes =>
    simp only [RaftServer.step] at hstep
    split at hstep
    · cases hstep
    · next hopen =>
      cases hstep
      obtain ⟨n, hn⟩ := h conn
      have hrunning : (w.conns conn).ended = none := by
        simp only [Bool.or_eq_true, not_or, Option.not_isSome_iff_eq_none] at hopen
        exact hopen.2
      exact h.update ⟨n, hn.arrive hsends hrunning⟩
  | close conn =>
    cases hstep
    exact h.update ((h conn).imp fun n hn => hn.close)
  | read conn =>
    simp only [RaftServer.step] at hstep
    split at hstep
    · cases hstep
    · next hfree =>
      obtain ⟨hrunning, hidle⟩ := Served.of_not_busy hfree
      obtain ⟨n, hn⟩ := h conn
      have hdrop : Fits requests ((ps conn).drop n) := fun p hp => hfits conn p (List.mem_of_mem_drop hp)
      rw [RaftServer.read] at hstep
      rcases readFrame_front hrequests hdrop hn.input with ⟨p, qs, rest, hps, hinput, hrest, hread⟩ | ⟨hread, hcut⟩
      · rw [hread] at hstep
        cases hstep
        exact h.update ⟨n + 1, hn.called hps hinput hidle hrunning w.taken⟩
      · -- the frame is not there: the connection ends only if the peer has closed
        rw [hread] at hstep
        dsimp only at hstep
        rw [if_pos (show earlyEof.kind = .unexpectedEof from rfl)] at hstep
        split at hstep
        · cases hstep
          exact h.update ⟨n, hn.finish hidle fun _ m => hn.nothing_left hcut⟩
        · cases hstep
  | readFails conn error =>
    simp only [RaftServer.step] at hstep
    split at hstep
    · cases hstep
    · next hfree =>
      cases hstep
      rw [Bool.or_eq_true, not_or] at hfree
      obtain ⟨_, hidle⟩ := Served.of_not_busy hfree.1
      exact h.update ((h conn).imp fun n hn => hn.finish hidle fun he => by cases he)
  | answer conn cut =>
    simp only [RaftServer.step, RaftServer.answer] at hstep
    split at hstep
    · cases hstep
    · next id request hserving =>
      obtain ⟨r, _, rfl⟩ := Option.map_eq_some_iff.1 hstep
      exact h.update ((h conn).imp fun n hn => hn.write hserving cut)
  | other core =>
    cases hstep
    exact h

theorem inv_run (hrequests : requests.Lawful) (hfits : ∀ i, Fits requests (ps i)) {core : S}
    {events : List (ServeEvent S)}
    (hrun : Run (RaftServer.step raft requests responses format) (Sends requests ps) (start core) events w) :
    Inv requests responses format ps w :=
  hrun.invariant (fun _ _ _ hsends hstep h => h.step hrequests hfits hsends hstep) fun i => ⟨0, Served.inv_fresh (ps i)⟩

end

end RaftServer

/-! ## Forwarded writes -/

section

variable {T : RpcTypes} (requests : BodyCodecs (RpcRequest T)) (responses : BodyCodecs (RpcResponse T))

end

section

variable {T : RpcTypes} {requests : BodyCodecs (RpcRequest T)} {responses : BodyCodecs (RpcResponse T)}
  {command : MetadataRaftCommand} {format : WireFormat} {transport : Transport}

end

namespace RaftServer

section

variable {T : RpcTypes} {S : Type} {raft : RaftHandle T S} {requests : BodyCodecs (RpcRequest T)}
  {responses : BodyCodecs (RpcResponse T)} {format : WireFormat} {w : RaftServer T S}
  {command : MetadataRaftCommand} {sender : WireFormat} {transport : Transport} {c : Served T} {n : Nat}

end

/-! ### A write that is forwarded to a follower -/

/-- No payloads. -/
def unitRpc : RpcTypes := ⟨Unit, Unit, Unit, Unit, Unit, Unit⟩

/-- A follower: no client write is taken. -/
def follower : RaftHandle unitRpc Unit where
  call _ _ core := core
  poll _ request core :=
    match request with
    | .appendEntries _ => some ((), core)
    | .vote _ => some ((), core)
    | .installSnapshot _ => some ((), core)
    | .clientWrite _ => some (.error (.forwardToLeader none), core)

end RaftServer

end Ganglion
