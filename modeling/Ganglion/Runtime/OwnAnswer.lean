import Ganglion.Runtime.Connection
import Ganglion.Lib.Replay

/-!
# A call gets its own answer

A stream passes from the connection to a call, from a call to its retry or back, and to the idle task and back. The
invariant `Sound` says what is pending (`Channel.pending`) on it meanwhile.

* A stream that is kept between calls has nothing pending, and there is at most one (`Settled`).
* A call owns all there is; on its stream nothing is pending but its own frame, once that is written (`PhaseOk`).
* What a call receives is then the answer to its own frame (`succeeded_sound`), and only such calls put a stream back.

`step_sound` is the step lemma, `call_receives_own_answer` the statement about all runs.
-/

namespace Ganglion

namespace Connection

variable {B : Type}

/-! ## The invariant -/

/-- What peers have answered, and what calls have returned. -/
structure Lawful (conn : Connection B) : Prop where
  answers : ∀ s, (conn.channels s).Answers fun frame response => serves frame.request response
  completed : ∀ c ∈ conn.completed, ∀ answer, c.result = .ok answer →
    answer.1.call = c.call ∧ answer.1.request = c.request ∧ serves answer.1.request answer.2

/-- Nothing is pending on a stream that is kept between calls, and there is at most one. -/
structure Settled (conn : Connection B) : Prop where
  stored : ∀ s, conn.stream = some s → (conn.channels s).pending = []
  parked : ∀ task s, conn.idle = some task → task.stream = some s → (conn.channels s).pending = []
  alone : ∀ task, conn.idle = some task → conn.stream = none

/-- What is pending on the stream of a call: nothing, or its own frame once that is written. -/
def PhaseOk (channels : StreamId → Channel (RequestFrame B) (WireResponse B)) (frame : RequestFrame B) : Phase → Prop
  | .acquiring task => ∀ s, task.stream = some s → (channels s).pending = []
  | .dialing => True
  | .writing s .flush => (channels s).pending = [frame]
  | .writing s _ => (channels s).pending = []
  | .reading s _ => (channels s).pending = [frame]

/-- The invariant of a connection. -/
structure Sound (conn : Connection B) : Prop extends Lawful conn, Settled conn where
  inFlight : ∀ call, conn.call = some call →
    conn.stream = none ∧ conn.idle = none ∧ PhaseOk conn.channels call.frame call.phase

theorem new_sound (monitorIdle : Bool) : Sound (new monitorIdle : Connection B) where
  answers _ := Channel.answers_fresh
  completed _ h := by cases h
  stored _ h := by cases h
  parked _ _ h := by cases h
  alone _ h := by cases h
  inFlight _ h := by cases h

variable {conn : Connection B} {call : Call B}

/-- A connection without an idle task, whose stream is clean. -/
theorem settled_of_clean (hi : conn.idle = none)
    (hc : ∀ s, conn.stream = some s → (conn.channels s).pending = []) : Settled conn where
  stored := hc
  parked task s h := by rw [hi] at h; cases h
  alone task h := by rw [hi] at h; cases h

theorem settled_of_none (hs : conn.stream = none) (hi : conn.idle = none) : Settled conn :=
  settled_of_clean hi fun s h => by rw [hs] at h; cases h

/-- A call that owns all there is. -/
theorem sound_of_inFlight (hl : Lawful conn) (hs : conn.stream = none) (hi : conn.idle = none)
    (hc : conn.call = some call) (hp : PhaseOk conn.channels call.frame call.phase) : Sound conn where
  toLawful := hl
  toSettled := settled_of_none hs hi
  inFlight call' h := by
    rw [hc] at h
    cases h
    exact ⟨hs, hi, hp⟩

/-- A connection without a call. -/
theorem sound_of_rest (hl : Lawful conn) (hs : Settled conn) (hc : conn.call = none) : Sound conn where
  toLawful := hl
  toSettled := hs
  inFlight call h := by rw [hc] at h; cases h

/-! ## The parts of a call -/

theorem takeStream_sound (hl : Lawful conn) (hs : Settled conn) (hi : conn.idle = none) :
    Sound (conn.takeStream call) := by
  unfold takeStream
  split
  · rename_i s hstream
    exact sound_of_inFlight ⟨hl.answers, hl.completed⟩ rfl hi rfl (hs.stored s hstream)
  · rename_i hstream
    exact sound_of_inFlight ⟨hl.answers, hl.completed⟩ hstream hi rfl trivial

theorem tryCall_sound (hl : Lawful conn) (hs : Settled conn) (id : Nat) (attempt : Attempt)
    (request : WireRequest B) : Sound (conn.tryCall id attempt request) := by
  unfold tryCall
  split
  · rename_i task hidle
    exact sound_of_inFlight ⟨hl.answers, hl.completed⟩ (hs.alone task hidle) rfl rfl
      fun s hstream => hs.parked task s hidle hstream
  · rename_i hidle
    exact takeStream_sound hl hs hidle

theorem complete_sound {result : Except ErrorKind (RequestFrame B × WireResponse B)} (hl : Lawful conn)
    (hs : Settled conn) (hr : ∀ answer, result = .ok answer →
      answer.1.call = call.id ∧ answer.1.request = call.request ∧ serves answer.1.request answer.2) :
    Sound (conn.complete call result) := by
  refine sound_of_rest ⟨hl.answers, fun c hc answer ha => ?_⟩ ⟨hs.stored, hs.parked, hs.alone⟩ rfl
  rcases List.mem_append.1 hc with hc | hc
  · exact hl.completed c hc answer ha
  · rw [List.mem_singleton.1 hc] at ha ⊢
    exact hr answer ha

/-- A failed try keeps no stream; it is tried again or given up. -/
theorem failed_sound (hl : Lawful conn) (hs : conn.stream = none) (hi : conn.idle = none) (kind : ErrorKind) :
    Sound (conn.failed call kind) := by
  unfold failed
  split
  · exact tryCall_sound hl (settled_of_none hs hi) _ _ _
  · exact complete_sound ⟨hl.answers, hl.completed⟩ (settled_of_none rfl hi) fun answer h => by cases h

theorem parkIdleStream_lawful (hl : Lawful conn) : Lawful conn.parkIdleStream := by
  unfold parkIdleStream
  split
  · split
    · exact ⟨hl.answers, hl.completed⟩
    · exact hl
  · exact hl

theorem parkIdleStream_settled (hs : Settled conn) : Settled conn.parkIdleStream := by
  unfold parkIdleStream
  split
  · split
    · rename_i stream hstream
      refine ⟨fun s h => ?_, fun task s htask h => ?_, fun _ _ => rfl⟩
      · cases h
      · cases htask
        cases h
        exact hs.stored stream hstream
    · exact hs
  · exact hs

/-- A call that got the answer to its own request, on a stream with nothing else pending. -/
theorem succeeded_sound {stream : StreamId} {answer : RequestFrame B × WireResponse B} (hl : Lawful conn)
    (hs : conn.stream = none) (hi : conn.idle = none) (hclean : (conn.channels stream).pending = [])
    (hown : answer.1 = call.frame) (hserves : serves answer.1.request answer.2) :
    Sound (conn.succeeded call stream answer) := by
  have hresult : ∀ answer', (.ok answer : Except ErrorKind (RequestFrame B × WireResponse B)) = .ok answer' →
      answer'.1.call = call.id ∧ answer'.1.request = call.request ∧ serves answer'.1.request answer'.2 := by
    intro answer' h
    cases h
    exact ⟨by rw [hown]; rfl, by rw [hown]; rfl, hserves⟩
  unfold succeeded
  split
  · refine complete_sound (parkIdleStream_lawful ⟨hl.answers, hl.completed⟩) (parkIdleStream_settled ?_) hresult
    refine settled_of_clean hi fun s h => ?_
    cases h
    exact hclean
  · exact complete_sound (parkIdleStream_lawful hl) (parkIdleStream_settled (settled_of_none hs hi)) hresult

/-! ## Every step keeps the invariant -/

theorem Lawful.update (hl : Lawful conn) (s : StreamId) {channel : Channel (RequestFrame B) (WireResponse B)}
    (hc : channel.Answers fun frame response => serves frame.request response) :
    Lawful { conn with channels := Function.update conn.channels s channel } := by
  refine ⟨fun t => ?_, hl.completed⟩
  show (Function.update conn.channels s channel t).Answers _
  by_cases hts : t = s
  · rw [hts, Function.update_self]
    exact hc
  · rw [Function.update_of_ne hts]
    exact hl.answers t

theorem Lawful.dial (hl : Lawful conn) : Lawful conn.dial :=
  ⟨(hl.update conn.dialed Channel.answers_fresh).answers, hl.completed⟩

theorem pending_dial : (conn.dial.channels conn.dialed).pending = [] := by
  show (Function.update conn.channels conn.dialed .fresh conn.dialed).pending = []
  rw [Function.update_self, Channel.pending_fresh]

/-- A peer moves: no stream has more or less pending than before. -/
theorem Sound.peer (h : Sound conn) {s : StreamId} {channel : Channel (RequestFrame B) (WireResponse B)}
    (hp : channel.pending = (conn.channels s).pending)
    (hc : channel.Answers fun frame response => serves frame.request response) :
    Sound { conn with channels := Function.update conn.channels s channel } := by
  have hpending : ∀ t, (Function.update conn.channels s channel t).pending = (conn.channels t).pending := by
    intro t
    by_cases hts : t = s
    · rw [hts, Function.update_self, hp]
    · rw [Function.update_of_ne hts]
  refine ⟨h.toLawful.update s hc, ⟨fun t ht => ?_, fun task t ht hstream => ?_, h.alone⟩, fun call hcall => ?_⟩
  · exact (hpending t).trans (h.stored t ht)
  · exact (hpending t).trans (h.parked task t ht hstream)
  · obtain ⟨hs, hi, hphase⟩ := h.inFlight call hcall
    refine ⟨hs, hi, ?_⟩
    revert hphase
    cases call.phase with
    | acquiring task => exact fun hphase t ht => (hpending t).trans (hphase t ht)
    | dialing => exact id
    | writing t part => cases part <;> exact (hpending t).trans
    | reading t part => exact (hpending t).trans

/-- The stream of an idle task after a step: the one it had, or one just dialed. -/
theorem idleStep_clean {stopped : Bool} {task task' : IdleTask} {event : IdleEvent}
    (hstep : idleStep stopped conn.dialed task event = some task')
    (hclean : ∀ s, task.stream = some s → (conn.channels s).pending = []) :
    ∀ s, task'.stream = some s → ((conn.probed event).channels s).pending = [] := by
  intro s hs
  cases task with
  | ended stream => cases hstep
  | probing =>
    cases event with
    | probeDialed =>
      cases hstep
      cases hs
      exact pending_dial
    | stop =>
      simp only [idleStep] at hstep
      split at hstep <;> cases hstep
      cases hs
    | probeFailed | probeTimedOut | aborted =>
      cases hstep
      cases hs
    | closed | readError | strayByte => cases hstep
  | reading stream =>
    cases event with
    | stop =>
      simp only [idleStep] at hstep
      split at hstep <;> cases hstep
      exact hclean s hs
    | closed =>
      cases hstep
      cases hs
    | readError kind =>
      cases hstep
      revert hs
      split <;> exact nofun
    | strayByte | aborted =>
      cases hstep
      cases hs
    | probeDialed | probeFailed | probeTimedOut => cases hstep

@[simp] theorem probed_stream (event : IdleEvent) : (conn.probed event).stream = conn.stream := by
  unfold probed
  split <;> rfl

@[simp] theorem probed_idle (event : IdleEvent) : (conn.probed event).idle = conn.idle := by
  unfold probed
  split <;> rfl

@[simp] theorem probed_call (event : IdleEvent) : (conn.probed event).call = conn.call := by
  unfold probed
  split <;> rfl

theorem Lawful.probed (hl : Lawful conn) (event : IdleEvent) : Lawful (conn.probed event) := by
  unfold Connection.probed
  split
  · exact hl.dial
  · exact hl

theorem idleMoves_sound {conn' : Connection B} {event : IdleEvent} (hstep : conn.idleMoves event = some conn')
    (h : Sound conn) : Sound conn' := by
  have hl := h.toLawful.probed event
  unfold idleMoves at hstep
  split at hstep
  · rename_i task hidle
    obtain ⟨task', htask, rfl⟩ := Option.map_eq_some_iff.1 hstep
    have hstream : (conn.probed event).stream = none := by rw [probed_stream, h.alone task hidle]
    have hcall : (conn.probed event).call = none := by
      rw [probed_call]
      by_contra hne
      obtain ⟨call, hcall⟩ := Option.ne_none_iff_exists'.1 hne
      have := (h.inFlight call hcall).2.1
      rw [hidle] at this
      cases this
    refine sound_of_rest ⟨hl.answers, hl.completed⟩ ⟨fun s hs => ?_, fun t s ht hs => ?_, fun _ _ => hstream⟩ hcall
    · rw [show _ = none from hstream] at hs
      cases hs
    · cases ht
      exact idleStep_clean htask (h.parked task · hidle) s hs
  · rename_i call hidle hcall
    split at hstep
    · rename_i task hphase
      obtain ⟨task', htask, rfl⟩ := Option.map_eq_some_iff.1 hstep
      obtain ⟨hs, hi, hok⟩ := h.inFlight call hcall
      rw [hphase] at hok
      have hstream : (conn.probed event).stream = none := by rw [probed_stream, hs]
      have hidle' : (conn.probed event).idle = none := by rw [probed_idle, hi]
      exact sound_of_inFlight ⟨hl.answers, hl.completed⟩ hstream hidle' rfl (idleStep_clean htask hok)
    · cases hstep
  · cases hstep

section

variable (h : Sound conn) (hcall : conn.call = some call)
include h hcall

/-- A call goes on to its next `await`. -/
theorem Sound.moved {phase : Phase} (hok : PhaseOk conn.channels call.frame phase) :
    Sound { conn with call := some { call with phase := phase } } := by
  obtain ⟨hs, hi, _⟩ := h.inFlight call hcall
  exact sound_of_inFlight ⟨h.answers, h.completed⟩ hs hi rfl hok

/-- A call gives up its stream. -/
theorem Sound.failed (kind : ErrorKind) : Sound (conn.failed call kind) := by
  obtain ⟨hs, hi, _⟩ := h.inFlight call hcall
  exact failed_sound h.toLawful hs hi kind

/-- The frame of a call goes out on a clean stream, so it is the only one pending there. -/
theorem Sound.sent {stream : StreamId} (hclean : (conn.channels stream).pending = []) :
    Sound { conn with
      channels := Function.update conn.channels stream ((conn.channels stream).send call.frame)
      call := some { call with phase := .writing stream .flush } } := by
  obtain ⟨hs, hi, _⟩ := h.inFlight call hcall
  have hl := h.toLawful.update stream ((h.answers stream).send call.frame)
  refine sound_of_inFlight ⟨hl.answers, hl.completed⟩ hs hi rfl ?_
  show (Function.update conn.channels stream ((conn.channels stream).send call.frame) stream).pending = _
  rw [Function.update_self, Channel.pending_send, hclean]
  rfl

/-- The answer that comes in is the one to the frame of the call, and nothing else is pending behind it. -/
theorem Sound.received {stream : StreamId} {answer : RequestFrame B × WireResponse B}
    {channel : Channel (RequestFrame B) (WireResponse B)} (hpending : (conn.channels stream).pending = [call.frame])
    (hreceive : (conn.channels stream).receive = some (answer, channel)) :
    Sound (({ conn with channels := Function.update conn.channels stream channel } : Connection B).succeeded call stream
      answer) := by
  obtain ⟨hs, hi, _⟩ := h.inFlight call hcall
  obtain ⟨hserves, hanswers⟩ := (h.answers stream).receive hreceive
  rw [Channel.pending_of_receive hreceive, List.cons.injEq] at hpending
  refine succeeded_sound (h.toLawful.update stream hanswers) hs hi ?_ hpending.1 hserves
  show (Function.update conn.channels stream channel stream).pending = []
  rw [Function.update_self, hpending.2]

/-- **Every step of a call** keeps the invariant. -/
theorem callStep_sound {conn' : Connection B} {event : Event B} (hstep : conn.callStep call event = some conn') :
    Sound conn' := by
  obtain ⟨hs, hi, hok⟩ := h.inFlight call hcall
  unfold callStep at hstep
  cases event with
  | acquired =>
    dsimp only at hstep
    split at hstep
    · rename_i stream hphase
      cases hstep
      rw [hphase] at hok
      exact takeStream_sound ⟨h.answers, h.completed⟩ (settled_of_clean hi hok) hi
    · cases hstep
  | dialOk =>
    dsimp only at hstep
    split at hstep
    · cases hstep
      have hl := h.toLawful.dial
      exact sound_of_inFlight ⟨hl.answers, hl.completed⟩ hs hi rfl pending_dial
    · cases hstep
  | wrote =>
    dsimp only at hstep
    split at hstep
    · rename_i stream hphase
      cases hstep
      rw [hphase] at hok
      exact h.moved hcall hok
    · rename_i stream hphase
      cases hstep
      rw [hphase] at hok
      exact h.moved hcall hok
    · rename_i stream hphase
      cases hstep
      rw [hphase] at hok
      exact h.sent hcall hok
    · rename_i stream hphase
      cases hstep
      rw [hphase] at hok
      exact h.moved hcall hok
    · cases hstep
  | received =>
    dsimp only at hstep
    split at hstep
    · rename_i stream part hphase
      rw [hphase] at hok
      split at hstep
      · cases hstep
        exact h.moved hcall hok
      · cases hstep
        exact h.moved hcall hok
      · rename_i answer channel hreceive
        cases hstep
        exact h.received hcall hok hreceive
      · cases hstep
    · cases hstep
  | dialFailed kind | writeFailed kind | readFailed kind =>
    dsimp only at hstep
    split at hstep
    · cases hstep
      exact h.failed hcall kind
    · cases hstep
  | retryTimedOut =>
    dsimp only at hstep
    split at hstep
    · cases hstep
      exact complete_sound ⟨h.answers, h.completed⟩ (settled_of_none rfl hi) fun answer ha => by cases ha
    · cases hstep
  | cancelled =>
    cases hstep
    exact sound_of_rest ⟨h.answers, h.completed⟩ (settled_of_none hs hi) rfl
  | begin | idle | setMonitorIdle | peerAccepts | peerAnswers => cases hstep

end

/-- **Every step keeps the invariant.** -/
theorem step_sound {conn' : Connection B} {event : Event B} (hstep : conn.step event = some conn') (h : Sound conn) :
    Sound conn' := by
  have hcallStep : (conn.call.bind fun call => conn.callStep call event) = some conn' → Sound conn' := by
    intro hbind
    obtain ⟨call, hcall, hbind⟩ := Option.bind_eq_some_iff.1 hbind
    exact callStep_sound h hcall hbind
  cases event with
  | begin request =>
    dsimp only [step] at hstep
    split at hstep
    · cases hstep
      apply tryCall_sound
      · exact ⟨h.answers, h.completed⟩
      · exact ⟨h.stored, h.parked, h.alone⟩
    · cases hstep
  | idle event => exact idleMoves_sound hstep h
  | setMonitorIdle enabled =>
    cases hstep
    exact ⟨⟨h.answers, h.completed⟩, ⟨h.stored, h.parked, h.alone⟩, h.inFlight⟩
  | peerAccepts stream =>
    obtain ⟨channel, haccept, rfl⟩ := Option.map_eq_some_iff.1 hstep
    exact h.peer (Channel.pending_accept haccept) ((h.answers stream).accept haccept)
  | peerAnswers stream response =>
    dsimp only [step] at hstep
    split at hstep
    · rename_i frame hserving
      split at hstep
      · rename_i hserves
        obtain ⟨channel, hanswer, rfl⟩ := Option.map_eq_some_iff.1 hstep
        refine h.peer (Channel.pending_answer hanswer) ((h.answers stream).answer hanswer fun q hq => ?_)
        rw [hserving] at hq
        cases hq
        exact hserves
      · cases hstep
    · cases hstep
  | acquired => exact hcallStep hstep
  | dialOk => exact hcallStep hstep
  | dialFailed kind => exact hcallStep hstep
  | wrote => exact hcallStep hstep
  | writeFailed kind => exact hcallStep hstep
  | received => exact hcallStep hstep
  | readFailed kind => exact hcallStep hstep
  | retryTimedOut => exact hcallStep hstep
  | cancelled => exact hcallStep hstep

/-! ## Runs -/

/-- The stream is stored in the connection, or with its idle task. -/
def Keeps (conn : Connection B) (s : StreamId) : Prop :=
  conn.stream = some s ∨ ∃ task, conn.idle = some task ∧ task.stream = some s

theorem run_sound {monitorIdle : Bool} {events : List (Event B)}
    (h : Run step (fun _ _ => True) (new monitorIdle) events conn) : Sound conn :=
  h.invariant (fun _ _ _ _ hstep hs => step_sound hstep hs) (new_sound monitorIdle)

/-- **A call gets the answer to its own request**, whatever was cancelled, dropped, parked or probed before: nothing is
pending on a stream that is kept, and the response of a call that returned answers a frame that this call has sent. -/
theorem call_receives_own_answer {monitorIdle : Bool} {events : List (Event B)}
    (h : Run step (fun _ _ => True) (new monitorIdle) events conn) :
    (∀ s, conn.Keeps s → (conn.channels s).pending = []) ∧
      ∀ c ∈ conn.completed, ∀ frame response, c.result = .ok (frame, response) →
        frame.call = c.call ∧ frame.request = c.request ∧ serves frame.request response := by
  have hsound := run_sound h
  constructor
  · rintro s (hs | ⟨task, htask, hs⟩)
    · exact hsound.stored s hs
    · exact hsound.parked task s htask hs
  · intro c hc frame response hresult
    exact hsound.completed c hc (frame, response) hresult

/-- A call is cancelled after its request went out; the peer answers it while the next call is under way. -/
def lateReply : List (Event Nat) :=
  [.begin (.vote 1), .dialOk, .wrote, .wrote, .wrote, .wrote, .peerAccepts 0, .cancelled,
    .begin (.vote 2), .dialOk, .peerAnswers 0 (.vote (.ok 10)), .wrote, .wrote, .wrote, .wrote,
    .peerAccepts 1, .peerAnswers 1 (.vote (.ok 20)), .received, .received, .received]

/-- The late answer stays on the stream of the cancelled call. -/
theorem call_receives_own_answer_lateReply : ∃ conn : Connection Nat,
    Run step (fun _ _ => True) (new true) lateReply conn ∧
      conn.completed = [⟨1, .vote 2, .ok (⟨1, .first, .vote 2⟩, .vote (.ok 20))⟩] ∧
      (conn.channels 0).pending = [⟨0, .first, .vote 1⟩] ∧ conn.Keeps 1 ∧ (conn.channels 1).pending = [] := by
  have hend : (lateReply.foldlM step (new true)).map
      (fun conn => (conn.completed, (conn.channels 0).pending, conn.idle)) =
      some ([⟨1, .vote 2, .ok (⟨1, .first, .vote 2⟩, .vote (.ok 20))⟩], [⟨0, .first, .vote 1⟩], some (.reading 1)) := by
    decide
  obtain ⟨conn, hconn, heq⟩ := Option.map_eq_some_iff.1 hend
  simp only [Prod.mk.injEq] at heq
  obtain ⟨hcompleted, hpending, hidle⟩ := heq
  have hrun := Run.of_foldlM hconn
  have hkeeps : conn.Keeps 1 := .inr ⟨.reading 1, hidle, rfl⟩
  exact ⟨conn, hrun, hcompleted, hpending, hkeeps, (call_receives_own_answer hrun).1 1 hkeeps⟩

/-- The raft operations never see the response of another operation: `mismatched_response` is not reached. -/
theorem response_matches {monitorIdle : Bool} {events : List (Event B)}
    (h : Run step (fun _ _ => True) (new monitorIdle) events conn) {c : Completion B} (hc : c ∈ conn.completed)
    {frame : RequestFrame B} {response : WireResponse B} (hresult : c.result = .ok (frame, response))
    (hraft : ∀ command, c.request ≠ .clientWrite command) : matching c.request response := by
  obtain ⟨_, hrequest, hserves⟩ := (run_sound h).completed c hc (frame, response) hresult
  rw [show frame.request = c.request from hrequest] at hserves
  cases hr : c.request with
  | clientWrite command => exact absurd hr (hraft command)
  | appendEntries rpc => rwa [hr] at hserves
  | vote rpc => rwa [hr] at hserves
  | installSnapshot rpc => rwa [hr] at hserves

end Connection

end Ganglion
