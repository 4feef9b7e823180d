import Ganglion.Runtime.OwnAnswer

/-!
# What a step of a connection does

The trace of a connection: the frames it sends, what it tells `PeerHealth`, and what its calls return (`Note`), in the
order of the steps of `Connection.step`.

* `Held`: the streams in use are among those dialed so far, so a stream that is dialed is new.
* `Does`: all that a step can do with the call under way, with what it notes (`step_does`). What is said about traces is
  read off it.
-/

namespace Ganglion

/-- The stream that a call owns. -/
def Phase.stream : Phase → Option StreamId
  | acquiring task => task.stream
  | dialing => none
  | writing stream _ | reading stream _ => some stream

/-- The frame of the call is out. -/
def Phase.written : Phase → Bool
  | writing _ .flush | reading _ _ => true
  | _ => false

namespace Connection

variable {B : Type}

/-! ## Traces -/

/-- What a connection does. An observation is made by a call, or by the idle task. -/
inductive Note (B : Type) where
  | sent (stream : StreamId) (frame : RequestFrame B)
  | observed (call : Option Nat) (outcome : Except ErrorKind Unit)
  | returned (call : Nat) (result : Except ErrorKind (RequestFrame B × WireResponse B))

/-- `health.observe` on a `try_call` that failed, and the return of `call` unless it tries again. -/
def failedNotes (call : Call B) (kind : ErrorKind) : List (Note B) :=
  .observed (some call.id) (.error kind) ::
    if call.attempt = .first ∧ explicitFailure kind then [] else [.returned call.id (.error kind)]

/-- What the call under way does at an event. -/
def callNotes (conn : Connection B) (call : Call B) : Event B → List (Note B)
  | .wrote =>
    match call.phase with
    | .writing stream .body => [.sent stream call.frame]
    | _ => []
  | .dialFailed kind | .writeFailed kind | .readFailed kind => failedNotes call kind
  | .retryTimedOut => failedNotes call .timedOut
  | .received =>
    match call.phase with
    | .reading stream .body =>
      match (conn.channels stream).receive with
      | some (answer, _) => [.observed (some call.id) (.ok ()), .returned call.id (.ok answer)]
      | none => []
    | _ => []
  | _ => []

/-- What the idle task tells `PeerHealth`. -/
def idleNotes : IdleEvent → List (Note B)
  | .closed => [.observed none (.error .unexpectedEof)]
  | .readError kind => if explicitFailure kind then [.observed none (.error kind)] else []
  | .probeFailed kind => [.observed none (.error kind)]
  | _ => []

/-- What a connection does at an event. -/
def notes (conn : Connection B) : Event B → List (Note B)
  | .idle event => idleNotes event
  | event =>
    match conn.call with
    | some call => conn.callNotes call event
    | none => []

/-- A connection and what it has done. -/
structure Traced (B : Type) where
  conn : Connection B
  trace : List (Note B)

/-- One step, with its notes. -/
def Traced.step (t : Traced B) (event : Event B) : Option (Traced B) :=
  (t.conn.step event).map fun conn => ⟨conn, t.trace ++ t.conn.notes event⟩

/-! ## The streams in use -/

variable {conn conn' : Connection B} {call : Call B}

/-- The streams that the connection, its idle task and its call own were dialed. -/
structure Held (conn : Connection B) : Prop where
  stored : ∀ s, conn.stream = some s → s < conn.dialed
  parked : ∀ task s, conn.idle = some task → task.stream = some s → s < conn.dialed
  inFlight : ∀ call s, conn.call = some call → call.phase.stream = some s → s < conn.dialed

namespace Held

theorem new (monitorIdle : Bool) : Held (Connection.new monitorIdle : Connection B) :=
  ⟨nofun, nofun, nofun⟩

theorem channels (h : Held conn) (channels : StreamId → Channel (RequestFrame B) (WireResponse B)) :
    Held { conn with channels := channels } := ⟨h.stored, h.parked, h.inFlight⟩

/-- The call moves to a phase with the same stream, or none. -/
theorem phase (h : Held conn) (hc : conn.call = some call) {phase : Phase}
    (hphase : ∀ s, phase.stream = some s → call.phase.stream = some s) :
    Held { conn with call := some { call with phase := phase } } := by
  refine ⟨h.stored, h.parked, fun call' s hc' hs => ?_⟩
  cases hc'
  exact h.inFlight call s hc (hphase s hs)

theorem takeStream (hstored : ∀ s, conn.stream = some s → s < conn.dialed)
    (hparked : ∀ task s, conn.idle = some task → task.stream = some s → s < conn.dialed) :
    Held (conn.takeStream call) := by
  unfold Connection.takeStream
  cases hs : conn.stream with
  | some stream =>
    refine ⟨nofun, hparked, fun call' s hc' hs' => ?_⟩
    cases hc'
    cases hs'
    exact hstored stream hs
  | none =>
    refine ⟨nofun, hparked, fun call' s hc' hs' => ?_⟩
    cases hc'
    cases hs'

theorem tryCall (hstored : ∀ s, conn.stream = some s → s < conn.dialed)
    (hparked : ∀ task s, conn.idle = some task → task.stream = some s → s < conn.dialed) (id : Nat) (attempt : Attempt)
    (request : WireRequest B) : Held (conn.tryCall id attempt request) := by
  unfold Connection.tryCall
  cases hi : conn.idle with
  | some task =>
    refine ⟨hstored, nofun, fun call' s hc' hs' => ?_⟩
    cases hc'
    exact hparked task s hi hs'
  | none => exact takeStream hstored hparked

theorem failed (h : Held conn) (kind : ErrorKind) : Held (conn.failed call kind) := by
  unfold Connection.failed
  split
  · exact tryCall h.stored h.parked _ _ _
  · exact ⟨nofun, h.parked, nofun⟩

theorem succeeded {stream : StreamId} (h : Held conn) (hs : stream < conn.dialed)
    (answer : RequestFrame B × WireResponse B) : Held (conn.succeeded call stream answer) := by
  have hkept : ∀ kept : Connection B, Held kept → Held (kept.parkIdleStream.complete call (.ok answer)) := by
    intro kept hkept
    unfold parkIdleStream complete
    split
    · split
      · next s hstream =>
        refine ⟨nofun, fun task s' ht hs' => ?_, nofun⟩
        cases ht
        cases hs'
        exact hkept.stored s hstream
      · exact ⟨hkept.stored, hkept.parked, nofun⟩
    · exact ⟨hkept.stored, hkept.parked, nofun⟩
  unfold Connection.succeeded
  refine hkept _ ?_
  split
  · refine ⟨fun s h' => ?_, h.parked, h.inFlight⟩
    cases h'
    exact hs
  · exact h

/-- The idle task keeps its stream, drops it, or has a new one. -/
theorem idleStep {stopped : Bool} {fresh : StreamId} {task task' : IdleTask} {event : IdleEvent}
    (h : Connection.idleStep stopped fresh task event = some task') {s : StreamId} (hs : task'.stream = some s) :
    task.stream = some s ∨ (event = .probeDialed ∧ s = fresh) := by
  cases task with
  | ended stream => cases h
  | probing =>
    cases event with
    | probeDialed =>
      cases h
      cases hs
      exact .inr ⟨rfl, rfl⟩
    | stop =>
      simp only [Connection.idleStep] at h
      split at h <;> cases h
      cases hs
    | probeFailed | probeTimedOut | aborted =>
      cases h
      cases hs
    | closed | readError | strayByte => cases h
  | reading stream =>
    cases event with
    | stop =>
      simp only [Connection.idleStep] at h
      split at h <;> cases h
      exact .inl hs
    | closed | strayByte | aborted =>
      cases h
      cases hs
    | readError kind =>
      cases h
      split at hs <;> cases hs
    | probeDialed | probeFailed | probeTimedOut => cases h

theorem dialed_probed (conn : Connection B) (event : IdleEvent) :
    conn.dialed ≤ (conn.probed event).dialed ∧ (event = .probeDialed → conn.dialed < (conn.probed event).dialed) := by
  unfold probed
  split
  · exact ⟨Nat.le_succ _, fun _ => Nat.lt_succ_self _⟩
  · next hne => exact ⟨Nat.le_refl _, fun h => absurd h hne⟩

theorem idleMoves (h : Held conn) {event : IdleEvent} (hstep : conn.idleMoves event = some conn') : Held conn' := by
  obtain ⟨hle, hlt⟩ := dialed_probed conn event
  have htask : ∀ {stopped : Bool} {task task' : IdleTask} {s : StreamId},
      (∀ s, task.stream = some s → s < conn.dialed) → Connection.idleStep stopped conn.dialed task event = some task' →
      task'.stream = some s → s < (conn.probed event).dialed := by
    intro stopped task task' s hheld hidle hs
    rcases idleStep hidle hs with hs | ⟨hevent, rfl⟩
    · exact Nat.lt_of_lt_of_le (hheld s hs) hle
    · exact hlt hevent
  unfold Connection.idleMoves at hstep
  split at hstep
  · next task hi =>
    obtain ⟨task', hidle, rfl⟩ := Option.map_eq_some_iff.1 hstep
    refine ⟨fun s hs => ?_, fun task s ht hs => ?_, fun call s hc hs => ?_⟩
    · exact Nat.lt_of_lt_of_le (h.stored s (probed_stream event ▸ hs)) hle
    · cases ht
      exact htask (fun s hs => h.parked _ s hi hs) hidle hs
    · exact Nat.lt_of_lt_of_le (h.inFlight call s (probed_call event ▸ hc) hs) hle
  · next call hi hc =>
    split at hstep
    · next task hphase =>
      obtain ⟨task', hidle, rfl⟩ := Option.map_eq_some_iff.1 hstep
      refine ⟨fun s hs => ?_, fun task s ht hs => ?_, fun call' s hc' hs => ?_⟩
      · exact Nat.lt_of_lt_of_le (h.stored s (probed_stream event ▸ hs)) hle
      · exact Nat.lt_of_lt_of_le (h.parked task s (probed_idle event ▸ ht) hs) hle
      · cases hc'
        exact htask (fun s hs => h.inFlight call s hc (by rw [hphase]; exact hs)) hidle hs
    · cases hstep
  · cases hstep

theorem callStep (h : Held conn) (hc : conn.call = some call) {event : Event B}
    (hstep : conn.callStep call event = some conn') : Held conn' := by
  unfold Connection.callStep at hstep
  split at hstep
  · split at hstep
    · next stream hphase =>
      cases hstep
      refine takeStream (fun s hs => ?_) h.parked
      exact h.inFlight call s hc (by rw [hphase]; exact hs)
    · cases hstep
  · split at hstep
    · cases hstep
      refine ⟨fun s hs => Nat.lt_succ_of_lt (h.stored s hs), fun task s ht hs => Nat.lt_succ_of_lt (h.parked task s ht hs),
        fun call' s hc' hs => ?_⟩
      cases hc'
      cases hs
      exact Nat.lt_succ_self _
    · cases hstep
  · split at hstep
    · cases hstep
      exact h.failed _
    · cases hstep
  · split at hstep
    · next hphase =>
      cases hstep
      exact h.phase hc fun s hs => by rw [hphase]; exact hs
    · next hphase =>
      cases hstep
      exact h.phase hc fun s hs => by rw [hphase]; exact hs
    · next hphase =>
      cases hstep
      exact (h.phase hc fun s hs => by rw [hphase]; exact hs).channels _
    · next hphase =>
      cases hstep
      exact h.phase hc fun s hs => by rw [hphase]; exact hs
    · cases hstep
  · split at hstep
    · cases hstep
      exact h.failed _
    · cases hstep
  · split at hstep
    · next hphase =>
      split at hstep
      · cases hstep
        exact h.phase hc fun s hs => by rw [hphase]; exact hs
      · cases hstep
        exact h.phase hc fun s hs => by rw [hphase]; exact hs
      · cases hstep
        have hs := h.inFlight call _ hc (by rw [hphase]; rfl)
        apply succeeded
        · exact h.channels _
        · exact hs
      · cases hstep
    · cases hstep
  · split at hstep
    · cases hstep
      exact h.failed _
    · cases hstep
  · split at hstep
    · cases hstep
      exact ⟨nofun, h.parked, nofun⟩
    · cases hstep
  · cases hstep
    exact ⟨h.stored, h.parked, nofun⟩
  · cases hstep

theorem step (h : Held conn) {event : Event B} (hstep : conn.step event = some conn') : Held conn' := by
  have hcall : ∀ {event : Event B}, (conn.call.bind fun call => conn.callStep call event) = some conn' → Held conn' := by
    intro event hstep
    obtain ⟨call, hc, hstep⟩ := Option.bind_eq_some_iff.1 hstep
    exact h.callStep hc hstep
  unfold Connection.step at hstep
  split at hstep
  · split at hstep
    · cases hstep
      apply tryCall
      · exact h.stored
      · exact h.parked
    · cases hstep
  · exact h.idleMoves hstep
  · cases hstep
    exact ⟨h.stored, h.parked, h.inFlight⟩
  · obtain ⟨channel, _, rfl⟩ := Option.map_eq_some_iff.1 hstep
    exact h.channels _
  · split at hstep
    · split at hstep
      · obtain ⟨channel, _, rfl⟩ := Option.map_eq_some_iff.1 hstep
        exact h.channels _
      · cases hstep
    · cases hstep
  · exact hcall hstep

end Held

/-! ## All that a step can do -/

/-- What a step does with the calls, and what it notes. -/
inductive Does (conn conn' : Connection B) : List (Note B) → Prop where
  | begins {request : WireRequest B} {phase : Phase} : conn.call = none →
      conn'.call = some ⟨conn.started, .first, request, phase⟩ → phase.written = false →
      conn'.started = conn.started + 1 → Does conn conn' []
  /-- The call goes on, with the stream that it has or a new one. -/
  | moves {call : Call B} {phase : Phase} {ns : List (Note B)} : conn.call = some call →
      conn'.call = some { call with phase := phase } → phase.written = call.phase.written →
      (∀ s, phase.stream = some s → call.phase.stream = some s ∨ conn.dialed ≤ s) → conn'.started = conn.started →
      (∀ n ∈ ns, ∃ kind, n = .observed none (.error kind)) → Does conn conn' ns
  | rests {ns : List (Note B)} : conn'.call = none → conn'.started = conn.started →
      (∀ n ∈ ns, ∃ kind, n = .observed none (.error kind)) → Does conn conn' ns
  | sends {call : Call B} {s : StreamId} : conn.call = some call → call.phase = .writing s .body →
      conn'.call = some { call with phase := .writing s .flush } → conn'.started = conn.started →
      Does conn conn' [.sent s call.frame]
  | retries {call : Call B} {kind : ErrorKind} : conn.call = some call → call.attempt = .first →
      explicitFailure kind = true → conn'.call = some ⟨call.id, .retry, call.request, .dialing⟩ →
      conn'.started = conn.started → Does conn conn' [.observed (some call.id) (.error kind)]
  | returns {call : Call B} {result : Except ErrorKind (RequestFrame B × WireResponse B)} : conn.call = some call →
      conn'.call = none → conn'.started = conn.started →
      (∀ answer, result = .ok answer →
        answer.1 = call.frame ∧ call.phase.written = true ∧ serves call.request answer.2 = true) →
      Does conn conn' [.observed (some call.id) (result.map fun _ => ()), .returned call.id result]

/-- The call goes on from a phase to another one. -/
theorem moves_phase (hc : conn.call = some call) {before after : Phase} (hphase : call.phase = before)
    (hcall : conn'.call = some { call with phase := after }) (hwritten : after.written = before.written)
    (hstream : ∀ s, after.stream = some s → before.stream = some s ∨ conn.dialed ≤ s)
    (hstarted : conn'.started = conn.started) :
    Does conn conn' [] := by
  subst hphase
  exact .moves hc hcall hwritten hstream hstarted nofun

theorem failed_does (hsound : Sound conn) (hc : conn.call = some call) (kind : ErrorKind) :
    Does conn (conn.failed call kind) (failedNotes call kind) := by
  obtain ⟨hstream, hidle, _⟩ := hsound.inFlight call hc
  unfold failed failedNotes
  by_cases hretry : call.attempt = .first ∧ explicitFailure kind
  · rw [if_pos hretry, if_pos hretry]
    refine .retries hc hretry.1 hretry.2 ?_ ?_
    · rw [tryCall, hidle]
      simp only [takeStream, hstream]
    · rw [tryCall, hidle]
      simp only [takeStream, hstream]
  · rw [if_neg hretry, if_neg hretry]
    exact @Does.returns B conn _ call (.error kind) hc rfl rfl nofun

/-- The answer that a call receives is to its own frame, and of its kind. -/
theorem received_own (hsound : Sound conn) (hc : conn.call = some call) {s : StreamId} {part : ReadPart}
    (hphase : call.phase = .reading s part) {answer : RequestFrame B × WireResponse B}
    {channel : Channel (RequestFrame B) (WireResponse B)} (hr : (conn.channels s).receive = some (answer, channel)) :
    answer.1 = call.frame ∧ serves call.request answer.2 = true := by
  obtain ⟨_, _, hok⟩ := hsound.inFlight call hc
  rw [hphase] at hok
  have hpending := Channel.pending_of_receive hr
  rw [show (conn.channels s).pending = [call.frame] from hok] at hpending
  have hframe : answer.1 = call.frame := (List.cons.inj hpending).1.symm
  have hserves : serves answer.1.request answer.2 = true := ((hsound.answers s).receive hr).1
  rw [hframe] at hserves
  exact ⟨hframe, hserves⟩

theorem succeeded_call {stream : StreamId} {answer : RequestFrame B × WireResponse B} :
    (conn.succeeded call stream answer).call = none ∧ (conn.succeeded call stream answer).started = conn.started ∧
      (conn.succeeded call stream answer).dialed = conn.dialed := by
  unfold succeeded parkIdleStream complete
  dsimp only
  split <;> split <;> (try split) <;> exact ⟨rfl, rfl, rfl⟩

theorem idleNotes_observed {event : IdleEvent} {n : Note B} (h : n ∈ idleNotes event) :
    ∃ kind, n = .observed none (.error kind) := by
  cases event <;> simp only [idleNotes, List.mem_singleton, List.not_mem_nil] at h
  case closed => exact ⟨_, h⟩
  case probeFailed kind => exact ⟨_, h⟩
  case readError kind =>
    split at h
    · exact ⟨kind, List.mem_singleton.1 h⟩
    · cases h

theorem dialed_takeStream : (conn.takeStream call).dialed = conn.dialed ∧ (conn.takeStream call).started = conn.started := by
  unfold takeStream
  split <;> exact ⟨rfl, rfl⟩

theorem dialed_tryCall (id : Nat) (attempt : Attempt) (request : WireRequest B) :
    (conn.tryCall id attempt request).dialed = conn.dialed ∧
      (conn.tryCall id attempt request).started = conn.started := by
  unfold tryCall
  split
  · exact ⟨rfl, rfl⟩
  · exact dialed_takeStream

theorem call_tryCall (id : Nat) (attempt : Attempt) (request : WireRequest B) :
    ∃ phase, (conn.tryCall id attempt request).call = some ⟨id, attempt, request, phase⟩ ∧ phase.written = false := by
  unfold tryCall takeStream
  split
  · exact ⟨_, rfl, rfl⟩
  · split
    · exact ⟨_, rfl, rfl⟩
    · exact ⟨_, rfl, rfl⟩

theorem dialed_failed (kind : ErrorKind) : (conn.failed call kind).dialed = conn.dialed := by
  unfold failed
  split
  · exact (dialed_tryCall _ _ _).1
  · rfl

/-- **All that a step of the call can do.** -/
theorem callStep_does (hsound : Sound conn) (hc : conn.call = some call) {event : Event B}
    (hstep : conn.callStep call event = some conn') :
    Does conn conn' (conn.callNotes call event) ∧ conn.dialed ≤ conn'.dialed := by
  unfold callStep at hstep
  split at hstep
  · split at hstep
    · next stream hphase =>
      cases hstep
      refine ⟨?_, Nat.le_of_eq (@dialed_takeStream B { conn with stream := stream } call).1.symm⟩
      cases stream with
      | some s => exact moves_phase hc hphase rfl rfl (fun s' hs' => .inl hs') rfl
      | none => exact moves_phase hc hphase rfl rfl nofun rfl
    · cases hstep
  · split at hstep
    · next hphase =>
      cases hstep
      refine ⟨moves_phase hc hphase rfl rfl (fun s hs => ?_) rfl, Nat.le_succ _⟩
      cases hs
      exact .inr (Nat.le_refl _)
    · cases hstep
  · split at hstep
    · cases hstep
      exact ⟨failed_does hsound hc _, Nat.le_of_eq (dialed_failed _).symm⟩
    · cases hstep
  · split at hstep
    · next hphase =>
      cases hstep
      simp only [callNotes, hphase]
      exact ⟨moves_phase hc hphase rfl rfl (fun s hs => .inl hs) rfl, Nat.le_refl _⟩
    · next hphase =>
      cases hstep
      simp only [callNotes, hphase]
      exact ⟨moves_phase hc hphase rfl rfl (fun s hs => .inl hs) rfl, Nat.le_refl _⟩
    · next hphase =>
      cases hstep
      simp only [callNotes, hphase]
      exact ⟨.sends hc hphase rfl rfl, Nat.le_refl _⟩
    · next hphase =>
      cases hstep
      simp only [callNotes, hphase]
      exact ⟨moves_phase hc hphase rfl rfl (fun s hs => .inl hs) rfl, Nat.le_refl _⟩
    · cases hstep
  · split at hstep
    · cases hstep
      exact ⟨failed_does hsound hc _, Nat.le_of_eq (dialed_failed _).symm⟩
    · cases hstep
  · split at hstep
    · next hphase =>
      split at hstep
      · next hpart =>
        cases hstep
        simp only [callNotes, hphase]
        exact ⟨moves_phase hc hphase rfl rfl (fun s hs => .inl hs) rfl, Nat.le_refl _⟩
      · next hpart =>
        cases hstep
        simp only [callNotes, hphase]
        exact ⟨moves_phase hc hphase rfl rfl (fun s hs => .inl hs) rfl, Nat.le_refl _⟩
      · next answer channel hr =>
        cases hstep
        simp only [callNotes, hphase, hr]
        obtain ⟨hnone, hstarted, hdialed⟩ := @succeeded_call B
          { conn with channels := Function.update conn.channels _ channel } call _ answer
        refine ⟨@Does.returns B conn _ call (.ok answer) hc hnone hstarted fun answer' h => ?_,
          Nat.le_of_eq hdialed.symm⟩
        cases h
        obtain ⟨hframe, hserves⟩ := received_own hsound hc hphase hr
        exact ⟨hframe, by rw [hphase]; rfl, hserves⟩
      · cases hstep
    · cases hstep
  · split at hstep
    · cases hstep
      exact ⟨failed_does hsound hc _, Nat.le_of_eq (dialed_failed _).symm⟩
    · cases hstep
  · split at hstep
    · next hattempt =>
      cases hstep
      refine ⟨?_, Nat.le_refl _⟩
      have hnotes : failedNotes call .timedOut =
          [.observed (some call.id) (.error .timedOut), .returned call.id (.error .timedOut)] := by
        simp [failedNotes, hattempt]
      rw [callNotes, hnotes]
      exact @Does.returns B conn _ call (.error .timedOut) hc rfl rfl nofun
    · cases hstep
  · cases hstep
    exact ⟨.rests rfl rfl nofun, Nat.le_refl _⟩
  · cases hstep

/-- The idle task moves. -/
theorem idleMoves_does {event : IdleEvent} (hstep : conn.idleMoves event = some conn') :
    Does conn conn' (idleNotes event) ∧ conn.dialed ≤ conn'.dialed := by
  have hle := (Held.dialed_probed conn event).1
  have hstarted : (conn.probed event).started = conn.started := by
    unfold probed
    split <;> rfl
  unfold idleMoves at hstep
  split at hstep
  · obtain ⟨task', _, rfl⟩ := Option.map_eq_some_iff.1 hstep
    refine ⟨?_, hle⟩
    cases hc : conn.call with
    | none => exact .rests ((probed_call event).trans hc) hstarted fun n hn => idleNotes_observed hn
    | some call =>
      exact .moves hc ((probed_call event).trans hc) rfl (fun s hs => .inl hs) hstarted fun n hn => idleNotes_observed hn
  · next call _ hc =>
    split at hstep
    · next task hphase =>
      obtain ⟨task', hidle, rfl⟩ := Option.map_eq_some_iff.1 hstep
      refine ⟨.moves hc rfl (by rw [hphase]; rfl) (fun s hs => ?_) hstarted fun n hn => idleNotes_observed hn, hle⟩
      rw [hphase]
      rcases Held.idleStep hidle hs with hs | ⟨_, rfl⟩
      · exact .inl hs
      · exact .inr (Nat.le_refl _)
    · cases hstep
  · cases hstep

/-- A call that stays as it is. -/
theorem does_keep (hcall : conn'.call = conn.call) (hstarted : conn'.started = conn.started) : Does conn conn' [] := by
  cases hc : conn.call with
  | none => exact .rests (hcall.trans hc) hstarted nofun
  | some call => exact .moves hc (hcall.trans hc) rfl (fun s hs => .inl hs) hstarted nofun

theorem notes_eq (event : Event B) (h : ∀ call, conn.callNotes call event = []) (hidle : ∀ e, event ≠ .idle e) :
    conn.notes event = [] := by
  cases event <;> simp only [notes]
  case idle e => exact absurd rfl (hidle e)
  all_goals
    split
    · exact h _
    · rfl

/-- **All that a step can do.** -/
theorem step_does (hsound : Sound conn) {event : Event B} (hstep : conn.step event = some conn') :
    Does conn conn' (conn.notes event) ∧ conn.dialed ≤ conn'.dialed := by
  have hcall : ∀ {event : Event B}, (∀ e, event ≠ .idle e) →
      (conn.call.bind fun call => conn.callStep call event) = some conn' →
      Does conn conn' (conn.notes event) ∧ conn.dialed ≤ conn'.dialed := by
    intro event hidle hstep
    obtain ⟨call, hc, hstep⟩ := Option.bind_eq_some_iff.1 hstep
    have hnotes : conn.notes event = conn.callNotes call event := by
      cases event with
      | idle e => exact absurd rfl (hidle e)
      | _ => simp only [notes, hc]
    rw [hnotes]
    exact callStep_does hsound hc hstep
  cases event with
  | begin request =>
    simp only [step] at hstep
    split at hstep
    · next hc =>
      cases hstep
      have hnotes : conn.notes (.begin request) = [] := by simp only [notes, hc]
      rw [hnotes]
      obtain ⟨hdialed, hstarted⟩ := @dialed_tryCall B { conn with started := conn.started + 1 } conn.started .first request
      obtain ⟨phase, hphase, hwritten⟩ :=
        @call_tryCall B { conn with started := conn.started + 1 } conn.started .first request
      exact ⟨.begins hc hphase hwritten hstarted, Nat.le_of_eq hdialed.symm⟩
    · cases hstep
  | idle event => exact idleMoves_does hstep
  | setMonitorIdle enabled =>
    cases hstep
    rw [notes_eq (.setMonitorIdle enabled) (fun _ => rfl) nofun]
    exact ⟨does_keep rfl rfl, Nat.le_refl _⟩
  | peerAccepts stream =>
    obtain ⟨channel, _, rfl⟩ := Option.map_eq_some_iff.1 hstep
    rw [notes_eq (.peerAccepts stream) (fun _ => rfl) nofun]
    exact ⟨does_keep rfl rfl, Nat.le_refl _⟩
  | peerAnswers stream response =>
    simp only [step] at hstep
    split at hstep
    · split at hstep
      · obtain ⟨channel, _, rfl⟩ := Option.map_eq_some_iff.1 hstep
        rw [notes_eq (.peerAnswers stream response) (fun _ => rfl) nofun]
        exact ⟨does_keep rfl rfl, Nat.le_refl _⟩
      · cases hstep
    · cases hstep
  | acquired => exact hcall nofun hstep
  | dialOk => exact hcall nofun hstep
  | dialFailed kind => exact hcall nofun hstep
  | wrote => exact hcall nofun hstep
  | writeFailed kind => exact hcall nofun hstep
  | received => exact hcall nofun hstep
  | readFailed kind => exact hcall nofun hstep
  | retryTimedOut => exact hcall nofun hstep
  | cancelled => exact hcall nofun hstep

end Connection

end Ganglion
