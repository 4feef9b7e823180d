import Ganglion.Runtime.RpcSteps

/-!
# What a raft operation does to the peer

* `TraceInv`: what the trace of a connection says about the call under way, kept by every step (`TraceInv.step`).
* `rpc_trace`: a request is sent at most once, and once more on a new stream when the peer explicitly failed; each try
  is observed once, and the last observation is what the call returns.
* `network_result`: what openraft gets from the network methods.
-/

namespace Ganglion

/-- The reply of the raft core in a response. -/
def WireResponse.reply {B : Type} : WireResponse B → Option (RaftReply B)
  | appendEntries reply | vote reply | installSnapshot reply => some reply
  | clientWrite _ => none

namespace Connection

variable {B : Type} {conn conn' : Connection B} {call : Call B}

/-! ## What the trace says -/

/-- The call that a note is about. -/
def Note.call? : Note B → Option Nat
  | sent _ frame => some frame.call
  | observed call _ => call
  | returned call _ => some call

/-- The note is an observation by the call. -/
def Note.observedBy (id : Nat) : Note B → Bool
  | observed (some call) _ => call == id
  | _ => false

/-- What is true of a note and what came before it. -/
def Orderly (past : List (Note B)) : Note B → Prop
  /- A frame is sent after those of earlier calls, and again only as a retry: after the first try failed explicitly, and
  on a stream that nothing was sent on. -/
  | .sent stream frame =>
    (∀ s f, .sent s f ∈ past → f.call < frame.call ∨
      f.call = frame.call ∧ f.request = frame.request ∧ f.attempt = .first ∧ frame.attempt = .retry) ∧
    (frame.attempt = .retry → (∃ kind, explicitFailure kind = true ∧ .observed (some frame.call) (.error kind) ∈ past) ∧
      ∀ s f, .sent s f ∈ past → s ≠ stream)
  /- A call is observed again only after it failed explicitly, and only once. -/
  | .observed (some id) _ =>
    (∀ o, .observed (some id) o ∈ past → ∃ kind, explicitFailure kind = true ∧ o = .error kind) ∧
      past.countP (Note.observedBy id) ≤ 1
  /- The idle task observes failures only. -/
  | .observed none outcome => ∃ kind, outcome = .error kind
  /- A call returns once, what was observed last, and an answer to a frame that it sent. -/
  | .returned id result =>
    (∀ r, .returned id r ∉ past) ∧ past.getLast? = some (.observed (some id) (result.map fun _ => ())) ∧
      ∀ answer, result = .ok answer →
        answer.1.call = id ∧ serves answer.1.request answer.2 = true ∧ ∃ s, .sent s answer.1 ∈ past

/-- What the trace says about the call under way. -/
structure CallTrace (call : Call B) (past : List (Note B)) : Prop where
  sent : ∀ s f, .sent s f ∈ past → f.call = call.id → f.request = call.request ∧
    (call.attempt = .first → f.attempt = .first) ∧ (f.attempt = call.attempt → call.phase.written = true)
  written : call.phase.written = true → ∃ s, .sent s call.frame ∈ past
  observed : ∀ o, .observed (some call.id) o ∈ past →
    call.attempt = .retry ∧ ∃ kind, explicitFailure kind = true ∧ o = .error kind
  retried : call.attempt = .retry → ∃ kind, explicitFailure kind = true ∧ .observed (some call.id) (.error kind) ∈ past
  once : past.countP (Note.observedBy call.id) ≤ 1
  returned : ∀ r, .returned call.id r ∉ past
  stream : call.attempt = .retry → call.phase.written = false → ∀ s, call.phase.stream = some s →
    ∀ s' f, .sent s' f ∈ past → s' ≠ s

/-- What the trace says about the connection. -/
structure TraceInv (conn : Connection B) (past : List (Note B)) : Prop where
  ids : ∀ n ∈ past, ∀ id, n.call? = some id → id < conn.started
  streams : ∀ s f, .sent s f ∈ past → s < conn.dialed
  current : ∀ call, conn.call = some call → call.id + 1 = conn.started ∧ CallTrace call past

theorem attempt_cases (a : Attempt) : a = .first ∨ a = .retry := by
  cases a
  · exact .inl rfl
  · exact .inr rfl

/-- Notes of the idle task say nothing about a call. -/
theorem mem_of_idle {past ns : List (Note B)} (hns : ∀ n ∈ ns, ∃ kind, n = .observed none (.error kind)) {n : Note B}
    (hn : n ∈ past ++ ns) {id : Nat} (hid : n.call? = some id) : n ∈ past := by
  rcases List.mem_append.1 hn with hn | hn
  · exact hn
  · obtain ⟨kind, rfl⟩ := hns n hn
    cases hid

theorem always_idle {past ns : List (Note B)} (hns : ∀ n ∈ ns, ∃ kind, n = .observed none (.error kind)) :
    Trace.Always Orderly past ns := by
  induction ns generalizing past with
  | nil => trivial
  | cons n ns ih =>
    obtain ⟨kind, rfl⟩ := hns n List.mem_cons_self
    exact ⟨⟨kind, rfl⟩, ih fun n hn => hns n (List.mem_cons_of_mem _ hn)⟩

variable {past ns : List (Note B)}

theorem countP_observedBy {id : Nat} (h : ∀ o, .observed (some id) o ∉ past) :
    past.countP (Note.observedBy id) = 0 := by
  rw [List.countP_eq_zero]
  intro n hn hby
  unfold Note.observedBy at hby
  split at hby
  · next o =>
    rw [beq_iff_eq.1 hby] at hn
    exact h o hn
  · cases hby

/-- A call that has just begun is not in the trace. -/
theorem CallTrace.begun (hids : ∀ n ∈ past, ∀ id, n.call? = some id → id < conn.started) {request : WireRequest B}
    {phase : Phase} (hwritten : phase.written = false) : CallTrace ⟨conn.started, .first, request, phase⟩ past where
  sent s f hs hf := absurd (hids _ hs f.call rfl) (by rw [hf]; exact Nat.lt_irrefl _)
  written h := by
    rw [hwritten] at h
    cases h
  observed o ho := absurd (hids _ ho conn.started rfl) (Nat.lt_irrefl _)
  retried h := by cases h
  once := by
    have hzero := countP_observedBy fun o ho => absurd (hids _ ho conn.started rfl) (Nat.lt_irrefl _)
    exact Nat.le_trans (Nat.le_of_eq hzero) (Nat.zero_le 1)
  returned r hr := absurd (hids _ hr conn.started rfl) (Nat.lt_irrefl _)
  stream h := by cases h

/-- The call goes on while the idle task makes notes. -/
theorem CallTrace.moved (h : CallTrace call past) (hns : ∀ n ∈ ns, ∃ kind, n = .observed none (.error kind))
    {phase : Phase} (hwritten : phase.written = call.phase.written)
    (hstreams : ∀ s f, .sent s f ∈ past → s < conn.dialed)
    (hstream : ∀ s, phase.stream = some s → call.phase.stream = some s ∨ conn.dialed ≤ s) :
    CallTrace { call with phase := phase } (past ++ ns) where
  sent s f hs hf := by
    obtain ⟨hrequest, hfirst, hw⟩ := h.sent s f (mem_of_idle hns hs rfl) hf
    exact ⟨hrequest, hfirst, fun ha => hwritten.trans (hw ha)⟩
  written hw := by
    obtain ⟨s, hs⟩ := h.written (hwritten ▸ hw)
    exact ⟨s, List.mem_append_left _ hs⟩
  observed o ho := h.observed o (mem_of_idle hns ho rfl)
  retried ha := by
    obtain ⟨kind, hkind, ho⟩ := h.retried ha
    exact ⟨kind, hkind, List.mem_append_left _ ho⟩
  once := by
    have hzero : ns.countP (Note.observedBy call.id) = 0 := by
      rw [List.countP_eq_zero]
      intro n hn
      obtain ⟨kind, rfl⟩ := hns n hn
      simp [Note.observedBy]
    rw [List.countP_append, hzero]
    exact h.once
  returned r hr := h.returned r (mem_of_idle hns hr rfl)
  stream ha hw s hs s' f hs' := by
    have hs' := mem_of_idle hns hs' rfl
    rcases hstream s hs with hs | hle
    · exact h.stream ha (hwritten ▸ hw) s hs s' f hs'
    · exact Nat.ne_of_lt (Nat.lt_of_lt_of_le (hstreams s' f hs') hle)

/-- The frame of the call goes out. -/
theorem CallTrace.send (h : CallTrace call past) {s : StreamId} :
    CallTrace { call with phase := .writing s .flush } (past ++ [.sent s call.frame]) where
  sent s' f hs' hf := by
    rcases List.mem_append.1 hs' with hs' | hs'
    · obtain ⟨hrequest, hfirst, _⟩ := h.sent s' f hs' hf
      exact ⟨hrequest, hfirst, fun _ => rfl⟩
    · cases List.mem_singleton.1 hs'
      exact ⟨rfl, fun ha => ha, fun _ => rfl⟩
  written _ := ⟨s, List.mem_append_right _ (List.mem_singleton_self _)⟩
  observed o ho := by
    rcases List.mem_append.1 ho with ho | ho
    · exact h.observed o ho
    · cases List.mem_singleton.1 ho
  retried ha := by
    obtain ⟨kind, hkind, ho⟩ := h.retried ha
    exact ⟨kind, hkind, List.mem_append_left _ ho⟩
  once := by
    rw [List.countP_append]
    simpa [Note.observedBy] using h.once
  returned r hr := by
    rcases List.mem_append.1 hr with hr | hr
    · exact h.returned r hr
    · cases List.mem_singleton.1 hr
  stream _ hw := by cases hw

/-- The first try of the call failed explicitly. -/
theorem CallTrace.retry (h : CallTrace call past) (ha : call.attempt = .first) {kind : ErrorKind}
    (hkind : explicitFailure kind = true) :
    CallTrace ⟨call.id, .retry, call.request, .dialing⟩ (past ++ [.observed (some call.id) (.error kind)]) where
  sent s f hs hf := by
    rcases List.mem_append.1 hs with hs | hs
    · obtain ⟨hrequest, hfirst, _⟩ := h.sent s f hs hf
      refine ⟨hrequest, nofun, fun h => ?_⟩
      rw [hfirst ha] at h
      cases h
    · cases List.mem_singleton.1 hs
  written hw := by cases hw
  observed o ho := by
    refine ⟨rfl, ?_⟩
    rcases List.mem_append.1 ho with ho | ho
    · exact (h.observed o ho).2
    · cases List.mem_singleton.1 ho
      exact ⟨kind, hkind, rfl⟩
  retried _ := ⟨kind, hkind, List.mem_append_right _ (List.mem_singleton_self _)⟩
  once := by
    have hzero : past.countP (Note.observedBy call.id) = 0 := by
      refine countP_observedBy fun o ho => ?_
      rw [(h.observed o ho).1] at ha
      cases ha
    rw [List.countP_append, hzero]
    simp [Note.observedBy]
  returned r hr := by
    rcases List.mem_append.1 hr with hr | hr
    · exact h.returned r hr
    · cases List.mem_singleton.1 hr
  stream _ _ s hs := by cases hs

/-- The frame that a call sends is in order. -/
theorem orderly_sent (h : TraceInv conn past) (hc : conn.call = some call) {s : StreamId}
    (hphase : call.phase = .writing s .body) : Orderly past (.sent s call.frame) := by
  obtain ⟨hid, htrace⟩ := h.current call hc
  have hwritten : call.phase.written = false := by rw [hphase]; rfl
  refine ⟨fun s' f hs' => ?_, fun ha => ⟨htrace.retried ha, fun s' f hs' => ?_⟩⟩
  · have hlt : f.call < conn.started := h.ids _ hs' f.call rfl
    rcases Nat.lt_or_ge f.call call.id with hlt' | hge
    · exact .inl hlt'
    · have hcall : f.call = call.id := by omega
      obtain ⟨hrequest, hfirst, hw⟩ := htrace.sent s' f hs' hcall
      -- the frame of this try is not out, so the other one is of the first try and this is a retry
      have hne : f.attempt ≠ call.attempt := fun heq => by
        rw [hw heq] at hwritten
        cases hwritten
      have hretry : call.attempt = .retry := by
        rcases attempt_cases call.attempt with ha | ha
        · exact absurd ((hfirst ha).trans ha.symm) hne
        · exact ha
      have hf : f.attempt = .first := by
        rcases attempt_cases f.attempt with ha | ha
        · exact ha
        · exact absurd (ha.trans hretry.symm) hne
      exact .inr ⟨hcall, hrequest, hf, hretry⟩
  · exact htrace.stream ha hwritten s (by rw [hphase]; rfl) s' f hs'

/-- One step: the notes are in order, and the invariant is kept. -/
theorem TraceInv.step (h : TraceInv conn past) (hheld : Held conn) (hle : conn.dialed ≤ conn'.dialed)
    (hdoes : Does conn conn' ns) : TraceInv conn' (past ++ ns) ∧ Trace.Always Orderly past ns := by
  have hids : ∀ {m : Nat}, conn.started ≤ m → ∀ n ∈ past, ∀ id, n.call? = some id → id < m :=
    fun hm n hn id hid => Nat.lt_of_lt_of_le (h.ids n hn id hid) hm
  have hstreams : ∀ s f, .sent s f ∈ past → s < conn'.dialed :=
    fun s f hs => Nat.lt_of_lt_of_le (h.streams s f hs) hle
  cases hdoes with
  | begins hnone hcall hwritten hstarted =>
    rw [List.append_nil]
    refine ⟨⟨hids (by omega), hstreams, fun call hc => ?_⟩, trivial⟩
    rw [hcall] at hc
    cases hc
    exact ⟨hstarted.symm, .begun h.ids hwritten⟩
  | @moves call phase _ hc hcall hwritten hstream hstarted hns =>
    obtain ⟨hid, htrace⟩ := h.current call hc
    refine ⟨⟨fun n hn id hid => ?_, fun s f hs => ?_, fun call' hc' => ?_⟩, always_idle hns⟩
    · exact hids (Nat.le_of_eq hstarted.symm) n (mem_of_idle hns hn hid) id hid
    · exact hstreams s f (mem_of_idle hns hs rfl)
    · rw [hcall] at hc'
      cases hc'
      exact ⟨hid.trans hstarted.symm, htrace.moved hns hwritten h.streams hstream⟩
  | rests hnone hstarted hns =>
    refine ⟨⟨fun n hn id hid => ?_, fun s f hs => ?_, fun call' hc' => ?_⟩, always_idle hns⟩
    · exact hids (Nat.le_of_eq hstarted.symm) n (mem_of_idle hns hn hid) id hid
    · exact hstreams s f (mem_of_idle hns hs rfl)
    · rw [hnone] at hc'
      cases hc'
  | @sends call s hc hphase hcall hstarted =>
    obtain ⟨hid, htrace⟩ := h.current call hc
    refine ⟨⟨fun n hn id hn' => ?_, fun s' f hs => ?_, fun call' hc' => ?_⟩, orderly_sent h hc hphase, trivial⟩
    · rcases List.mem_append.1 hn with hn | hn
      · exact hids (Nat.le_of_eq hstarted.symm) n hn id hn'
      · cases List.mem_singleton.1 hn
        cases hn'
        show call.id < conn'.started
        omega
    · rcases List.mem_append.1 hs with hs | hs
      · exact hstreams s' f hs
      · cases List.mem_singleton.1 hs
        exact Nat.lt_of_lt_of_le (hheld.inFlight call s hc (by rw [hphase]; rfl)) hle
    · rw [hcall] at hc'
      cases hc'
      exact ⟨hid.trans hstarted.symm, htrace.send⟩
  | @retries call kind hc ha hkind hcall hstarted =>
    obtain ⟨hid, htrace⟩ := h.current call hc
    refine ⟨⟨fun n hn id hn' => ?_, fun s' f hs => ?_, fun call' hc' => ?_⟩,
      ⟨fun o ho => (htrace.observed o ho).2, htrace.once⟩, trivial⟩
    · rcases List.mem_append.1 hn with hn | hn
      · exact hids (Nat.le_of_eq hstarted.symm) n hn id hn'
      · cases List.mem_singleton.1 hn
        cases hn'
        omega
    · rcases List.mem_append.1 hs with hs | hs
      · exact hstreams s' f hs
      · cases List.mem_singleton.1 hs
    · rw [hcall] at hc'
      cases hc'
      exact ⟨hid.trans hstarted.symm, htrace.retry ha hkind⟩
  | @returns call result hc hnone hstarted hanswer =>
    obtain ⟨hid, htrace⟩ := h.current call hc
    refine ⟨⟨fun n hn id hn' => ?_, fun s' f hs => ?_, fun call' hc' => ?_⟩,
      ⟨fun o ho => (htrace.observed o ho).2, htrace.once⟩, ⟨fun r hr => ?_, List.getLast?_concat, fun answer hok => ?_⟩,
      trivial⟩
    · rcases List.mem_append.1 hn with hn | hn
      · exact hids (Nat.le_of_eq hstarted.symm) n hn id hn'
      · rcases List.mem_pair.1 hn with rfl | rfl <;> (cases hn'; omega)
    · rcases List.mem_append.1 hs with hs | hs
      · exact hstreams s' f hs
      · rcases List.mem_pair.1 hs with hs | hs <;> cases hs
    · rw [hnone] at hc'
      cases hc'
    · rcases List.mem_append.1 hr with hr | hr
      · exact htrace.returned r hr
      · cases List.mem_singleton.1 hr
    · obtain ⟨hframe, hwritten, hserves⟩ := hanswer answer hok
      obtain ⟨s, hs⟩ := htrace.written hwritten
      rw [hframe]
      exact ⟨rfl, hserves, s, List.mem_append_left _ hs⟩

/-! ## Runs -/

namespace Traced

/-- A new connection has done nothing. -/
def new (monitorIdle : Bool) : Traced B := ⟨.new monitorIdle, []⟩

/-- What holds along a run. -/
structure Inv (t : Traced B) : Prop where
  sound : Sound t.conn
  held : Held t.conn
  trace : TraceInv t.conn t.trace
  orderly : Trace.Always Orderly [] t.trace

theorem inv_run {monitorIdle : Bool} {events : List (Event B)} {t : Traced B}
    (hrun : Run Traced.step (fun _ _ => True) (Traced.new monitorIdle) events t) : t.Inv := by
  refine hrun.invariant (fun t event t' _ hstep h => ?_)
    ⟨new_sound monitorIdle, .new monitorIdle, ⟨nofun, nofun, nofun⟩, trivial⟩
  obtain ⟨conn, hconn, rfl⟩ := Option.map_eq_some_iff.1 hstep
  obtain ⟨hdoes, hle⟩ := step_does h.sound hconn
  obtain ⟨htrace, horderly⟩ := h.trace.step h.held hle hdoes
  exact ⟨step_sound hconn h.sound, h.held.step hconn, htrace, Trace.always_append.2 ⟨h.orderly, horderly⟩⟩

end Traced

/-! ## The network methods -/

/-- `RPCError`, as the network methods answer with it. -/
inductive RpcError (B : Type) where
  | unreachable (kind : ErrorKind)
  | remoteError (target : UInt64) (error : RaftReply B)
  | mismatchedResponse (target : UInt64)
  deriving DecidableEq

/-- A network method: what becomes of the result of `call`, where `expected` picks the responses of its own kind. -/
def networkResult (expected : WireResponse B → Option (RaftReply B)) (target : UInt64) :
    Except ErrorKind (WireResponse B) → Except (RpcError B) B
  | .error kind => .error (.unreachable kind)
  | .ok response =>
    match expected response with
    | some (.ok response) => .ok response
    | some error => .error (.remoteError target error)
    | none => .error (.mismatchedResponse target)

/-- `append_entries`. -/
def appendEntries : UInt64 → Except ErrorKind (WireResponse B) → Except (RpcError B) B :=
  networkResult fun
    | .appendEntries reply => some reply
    | _ => none

/-- `install_snapshot`. -/
def installSnapshot : UInt64 → Except ErrorKind (WireResponse B) → Except (RpcError B) B :=
  networkResult fun
    | .installSnapshot reply => some reply
    | _ => none

/-- `vote`. -/
def vote : UInt64 → Except ErrorKind (WireResponse B) → Except (RpcError B) B :=
  networkResult fun
    | .vote reply => some reply
    | _ => none

/-- The network method of a request. A client write does not go through a connection. -/
def networkMethod (target : UInt64) : WireRequest B → Except ErrorKind (WireResponse B) → Except (RpcError B) B
  | .appendEntries _ => appendEntries target
  | .vote _ => vote target
  | .installSnapshot _ => installSnapshot target
  | .clientWrite _ => fun _ => .error (.mismatchedResponse target)

/-- What a network method makes of the reply of a raft core. -/
def replyResult (target : UInt64) : RaftReply B → Except (RpcError B) B
  | .ok response => .ok response
  | error => .error (.remoteError target error)

theorem networkResult_some {expected : WireResponse B → Option (RaftReply B)} {response : WireResponse B}
    {reply : RaftReply B} (h : expected response = some reply) (target : UInt64) :
    networkResult expected target (.ok response) = replyResult target reply := by
  rw [networkResult, h]
  cases reply <;> rfl

/-- The response of a raft core is handed on as it is. -/
theorem network_result {request : WireRequest B} {response : WireResponse B} (h : serves request response = true)
    (hraft : ∀ command, request ≠ .clientWrite command) (target : UInt64) :
    ∃ reply, response.reply = some reply ∧
      networkMethod target request (.ok response) = replyResult target reply := by
  cases request with
  | clientWrite command => exact absurd rfl (hraft command)
  | appendEntries rpc =>
    cases response with
    | appendEntries reply =>
      refine ⟨reply, rfl, ?_⟩
      unfold networkMethod appendEntries
      exact networkResult_some rfl target
    | _ => cases h
  | vote rpc =>
    cases response with
    | vote reply =>
      refine ⟨reply, rfl, ?_⟩
      unfold networkMethod vote
      exact networkResult_some rfl target
    | _ => cases h
  | installSnapshot rpc =>
    cases response with
    | installSnapshot reply =>
      refine ⟨reply, rfl, ?_⟩
      unfold networkMethod installSnapshot
      exact networkResult_some rfl target
    | _ => cases h

/-- **What raft operations do to the peer.** In every run of a connection with its idle task and its peers, each note is
in order (`Orderly`): a call sends its request at most once for each try, in the order of the calls; it tries again only
after the peer failed explicitly, at most once, and then on a stream that nothing was sent on; `PeerHealth` is told the
outcome of each try once, and of failures alone by the idle task; a call returns once, with the last outcome. What a call
returns is an answer to a frame that it sent, and the network methods give it to openraft as the peer's reply: a response
of another operation is never seen. -/
theorem rpc_trace {monitorIdle : Bool} {events : List (Event B)} {t : Traced B}
    (hrun : Run Traced.step (fun _ _ => True) (Traced.new monitorIdle) events t) :
    (∀ before note after, t.trace = before ++ note :: after → Orderly before note) ∧
    ∀ id answer, .returned id (.ok answer) ∈ t.trace → (∀ command, answer.1.request ≠ .clientWrite command) →
      ∀ target, ∃ reply, answer.2.reply = some reply ∧
        networkMethod target answer.1.request (.ok answer.2) = replyResult target reply := by
  have horderly : ∀ before note after, t.trace = before ++ note :: after → Orderly before note := by
    intro before note after htrace
    have halways := (Traced.inv_run hrun).orderly
    rw [htrace] at halways
    exact halways.at
  refine ⟨horderly, fun id answer hmem hraft target => ?_⟩
  obtain ⟨before, after, htrace⟩ := List.append_of_mem hmem
  obtain ⟨_, _, hanswer⟩ := horderly before _ after htrace
  exact network_result (hanswer answer rfl).2.1 hraft target

/-- The first try of a vote is reset by the peer, the retry is answered. -/
def resetOnce : List (Event Nat) :=
  [.begin (.vote 1), .dialOk, .wrote, .wrote, .wrote, .wrote, .readFailed .connectionReset, .dialOk, .wrote, .wrote,
    .wrote, .wrote, .peerAccepts 1, .peerAnswers 1 (.vote (.ok 10)), .received, .received, .received]

theorem rpc_trace_resetOnce : ∃ t : Traced Nat, Run Traced.step (fun _ _ => True) (Traced.new true) resetOnce t ∧
    (∀ before note after, t.trace = before ++ note :: after → Orderly before note) ∧ t.trace.length = 5 := by
  have hend : (resetOnce.foldlM Traced.step (Traced.new true : Traced Nat)).map (fun t => t.trace.length) = some 5 := by
    decide
  obtain ⟨t, ht, hlength⟩ := Option.map_eq_some_iff.1 hend
  have hrun := Run.of_foldlM ht
  exact ⟨t, hrun, (rpc_trace hrun).1, hlength⟩

end Connection

end Ganglion
