import Ganglion.Runtime.PeerHealth
import Ganglion.Runtime.RpcSteps

/-!
# Suspected peers

The connections of a node share one `PeerHealth`: whatever a call or an idle task of any of them observes goes into the
failures of the peers, in the order in which it happens. A node may have several connections to one peer. The flag of
`monitor_idle`, which they share too, is set for each connection on its own here, so that more can happen.

* `Paired`: a call that is answered is observed as a success at once, and nothing else is.
* `suspected_peers`: so a peer is suspected from an explicit failure on, for as long as no raft operation on it is
  answered, with the failures counted since then.
-/

namespace Ganglion

open Std Connection

/-- A note of a connection, with the time at which it is made. -/
structure TimedNote (B T : Type) where
  conn : Nat
  note : Note B
  now : T

namespace TimedNote

variable {B T : Type} (target : Nat → UInt64)

/-- What `PeerHealth` observes of a note. The connection is to the peer `target n.conn`. -/
def observation (n : TimedNote B T) : Option (Observation T) :=
  match n.note with
  | .observed _ outcome => some ⟨target n.conn, outcome, n.now⟩
  | _ => none

/-- An explicit failure of the peer. -/
def failureOf (p : UInt64) (n : TimedNote B T) : Bool :=
  match n.note with
  | .observed _ (.error kind) => target n.conn == p && explicitFailure kind
  | _ => false

/-- A raft operation on the peer is answered. -/
def Answered (p : UInt64) (n : TimedNote B T) : Prop :=
  target n.conn = p ∧ ∃ id answer, n.note = .returned id (.ok answer)

end TimedNote

/-- The connections of a node, by number, and what they have done. -/
structure PeerNetwork (B T : Type) where
  conns : Nat → Connection B
  log : List (TimedNote B T)

/-- Something happens to a connection. -/
structure NetworkEvent (B T : Type) where
  conn : Nat
  event : Connection.Event B
  now : T

namespace PeerNetwork

variable {B T : Type}

/-- New connections. -/
def start : PeerNetwork B T := ⟨fun _ => .new false, []⟩

/-- One step. -/
def step (w : PeerNetwork B T) (e : NetworkEvent B T) : Option (PeerNetwork B T) :=
  ((w.conns e.conn).step e.event).map fun conn =>
    { conns := Function.update w.conns e.conn conn
      log := w.log ++ ((w.conns e.conn).notes e.event).map fun note => ⟨e.conn, note, e.now⟩ }

/-! ## Calls and observations -/

/-- The calls that return, and the successes that are observed: they come in pairs. -/
structure Paired (log : List (TimedNote B T)) : Prop where
  returned : ∀ before i id result now after, log = before ++ ⟨i, .returned id result, now⟩ :: after →
    before.getLast? = some ⟨i, .observed (some id) (result.map fun _ => ()), now⟩
  success : ∀ before i call now after, log = before ++ ⟨i, .observed call (.ok ()), now⟩ :: after →
    ∃ id answer rest, after = ⟨i, .returned id (.ok answer), now⟩ :: rest

theorem Paired.nil : Paired ([] : List (TimedNote B T)) :=
  ⟨fun before i id result now after h => by simp at h, fun before i call now after h => by simp at h⟩

theorem Paired.append {xs ys : List (TimedNote B T)} (hxs : Paired xs) (hys : Paired ys) : Paired (xs ++ ys) := by
  refine ⟨fun before i id result now after h => ?_, fun before i call now after h => ?_⟩
  · rcases Trace.append_eq_append_cons h with ⟨rest, hx, rfl⟩ | ⟨mid, rfl, hy⟩
    · exact hxs.returned before i id result now rest hx
    · have hlast := hys.returned mid i id result now after hy
      have hne : mid ≠ [] := by
        rintro rfl
        cases hlast
      rw [List.getLast?_append_of_ne_nil _ hne, hlast]
  · rcases Trace.append_eq_append_cons h with ⟨rest, hx, rfl⟩ | ⟨mid, rfl, hy⟩
    · obtain ⟨id, answer, rest', rfl⟩ := hxs.success before i call now rest hx
      exact ⟨id, answer, rest' ++ ys, rfl⟩
    · exact hys.success mid i call now after hy

/-- Frames that are sent and failures that are observed. -/
theorem paired_of_failures {ns : List (Note B)}
    (h : ∀ n ∈ ns, (∃ s f, n = .sent s f) ∨ ∃ call kind, n = .observed call (.error kind)) (i : Nat) (now : T) :
    Paired (ns.map fun note => (⟨i, note, now⟩ : TimedNote B T)) := by
  have hnote : ∀ {before after : List (TimedNote B T)} {n : TimedNote B T},
      (ns.map fun note => (⟨i, note, now⟩ : TimedNote B T)) = before ++ n :: after → n.note ∈ ns := by
    intro before after n heq
    have hmem : n ∈ ns.map fun note => (⟨i, note, now⟩ : TimedNote B T) :=
      heq ▸ List.mem_append_right _ List.mem_cons_self
    obtain ⟨note, hn, rfl⟩ := List.mem_map.1 hmem
    exact hn
  refine ⟨fun before j id result t after heq => ?_, fun before j call t after heq => ?_⟩
  · obtain ⟨_, _, hn⟩ | ⟨_, _, hn⟩ := h _ (hnote heq) <;> cases hn
  · obtain ⟨_, _, hn⟩ | ⟨_, _, hn⟩ := h _ (hnote heq) <;> cases hn

/-- What a call that returns has observed. -/
theorem paired_returns (call : Nat) (result : Except ErrorKind (RequestFrame B × WireResponse B)) (i : Nat) (now : T) :
    Paired ([⟨i, .observed (some call) (result.map fun _ => ()), now⟩, ⟨i, .returned call result, now⟩] :
      List (TimedNote B T)) := by
  refine ⟨fun before j id r t after heq => ?_, fun before j c t after heq => ?_⟩
  · rcases before with _ | ⟨x, _ | ⟨y, before⟩⟩
    · cases heq
    · cases heq
      rfl
    · simp at heq
  · rcases before with _ | ⟨x, _ | ⟨y, before⟩⟩
    · simp only [List.nil_append, List.cons.injEq, TimedNote.mk.injEq, Note.observed.injEq] at heq
      obtain ⟨⟨rfl, ⟨rfl, hok⟩, rfl⟩, rfl⟩ := heq
      cases result with
      | error kind => cases hok
      | ok answer => exact ⟨call, answer, [], rfl⟩
    · cases heq
    · simp at heq

/-- The notes of a step are paired. -/
theorem paired_does {conn conn' : Connection B} {ns : List (Note B)} (h : Does conn conn' ns) (i : Nat) (now : T) :
    Paired (ns.map fun note => (⟨i, note, now⟩ : TimedNote B T)) := by
  cases h with
  | begins => exact .nil
  | moves _ _ _ _ _ hns =>
    refine paired_of_failures (fun n hn => ?_) i now
    obtain ⟨kind, rfl⟩ := hns n hn
    exact .inr ⟨none, kind, rfl⟩
  | rests _ _ hns =>
    refine paired_of_failures (fun n hn => ?_) i now
    obtain ⟨kind, rfl⟩ := hns n hn
    exact .inr ⟨none, kind, rfl⟩
  | sends => exact paired_of_failures (fun n hn => .inl ⟨_, _, List.mem_singleton.1 hn⟩) i now
  | retries => exact paired_of_failures (fun n hn => .inr ⟨_, _, List.mem_singleton.1 hn⟩) i now
  | returns => exact paired_returns _ _ i now

/-- What holds along a run. -/
structure Inv (w : PeerNetwork B T) : Prop where
  sound : ∀ i, Sound (w.conns i)
  paired : Paired w.log

theorem inv_run {w : PeerNetwork B T} {events : List (NetworkEvent B T)}
    (hrun : Run PeerNetwork.step (fun _ _ => True) start events w) : w.Inv := by
  refine hrun.invariant (fun w e w' _ hstep h => ?_) ⟨fun _ => new_sound false, .nil⟩
  obtain ⟨conn, hconn, rfl⟩ := Option.map_eq_some_iff.1 hstep
  refine ⟨fun i => ?_, h.paired.append (paired_does (step_does (h.sound e.conn) hconn).1 e.conn e.now)⟩
  by_cases hi : i = e.conn
  · subst hi
    simpa using step_sound hconn (h.sound e.conn)
  · simpa [Function.update_of_ne hi] using h.sound i

/-! ## The failures of the peers -/

section

variable (target : Nat → UInt64)

/-- What was observed. -/
def observations (log : List (TimedNote B T)) : List (Observation T) := log.filterMap (TimedNote.observation target)

/-- The failures that the `PeerHealth` of the node holds. -/
def failures (w : PeerNetwork B T) : PeerFailures T := PeerHealth.observeAll (observations target w.log)

variable {target} {p : UInt64} {log before after : List (TimedNote B T)} {first n : TimedNote B T}

theorem observation_eq_some {o : Observation T} (h : n.observation target = some o) :
    ∃ call outcome, n.note = .observed call outcome ∧ o = ⟨target n.conn, outcome, n.now⟩ := by
  unfold TimedNote.observation at h
  split at h
  · next call outcome hnote =>
    cases h
    exact ⟨call, outcome, hnote, rfl⟩
  · cases h

/-- A failure in the log is the failure that is observed. -/
theorem failureOf_observation {o : Observation T} (h : n.observation target = some o) :
    o.failureOf p = n.failureOf target p := by
  obtain ⟨call, outcome, hnote, rfl⟩ := observation_eq_some h
  unfold TimedNote.failureOf Observation.failureOf
  rw [hnote]
  cases outcome with
  | ok u => simp
  | error kind => rfl

theorem failureOf_of_none (h : n.observation target = none) : n.failureOf target p = false := by
  unfold TimedNote.observation at h
  unfold TimedNote.failureOf
  split at h
  · cases h
  · next hnote =>
    split
    · next call kind heq => exact absurd heq (hnote call _)
    · rfl

/-- The failures that are counted. -/
theorem filter_observations (log : List (TimedNote B T)) :
    (observations target log).filter (Observation.failureOf p) =
      observations target (log.filter (TimedNote.failureOf target p)) := by
  induction log with
  | nil => rfl
  | cons n log ih =>
    cases ho : n.observation target with
    | none =>
      rw [observations, List.filterMap_cons_none ho, List.filter_cons_of_neg (by simp [failureOf_of_none ho])]
      exact ih
    | some o =>
      rw [observations, List.filterMap_cons_some ho]
      cases hf : n.failureOf target p with
      | false =>
        rw [List.filter_cons_of_neg (by simp [failureOf_observation ho, hf]), List.filter_cons_of_neg (by simp [hf])]
        exact ih
      | true =>
        rw [List.filter_cons_of_pos (by rw [failureOf_observation ho, hf]), List.filter_cons_of_pos hf, observations,
          List.filterMap_cons_some ho]
        exact congrArg (o :: ·) ih

/-- Every failure is observed. -/
theorem observations_filter_concat {xs : List (TimedNote B T)} (hn : n.failureOf target p = true) :
    ∃ call kind, n.note = .observed call (.error kind) ∧
      observations target (xs ++ [n]) = observations target xs ++ [⟨target n.conn, .error kind, n.now⟩] := by
  obtain ⟨i, note, now⟩ := n
  unfold TimedNote.failureOf at hn
  split at hn
  · next call kind hnote =>
    subst hnote
    exact ⟨call, kind, rfl, by rw [observations, List.filterMap_append]; rfl⟩
  · cases hn

theorem length_failures (log : List (TimedNote B T)) :
    (observations target (log.filter (TimedNote.failureOf target p))).length =
      log.countP (TimedNote.failureOf target p) := by
  rw [List.countP_eq_length_filter, observations, List.length_filterMap_eq_countP, List.countP_eq_length]
  intro n hn
  obtain ⟨call, kind, hnote, hobs⟩ := @observations_filter_concat B T target p n [] (List.mem_filter.1 hn).2
  simp [TimedNote.observation, hnote]

/-- Where an observation comes from. -/
theorem observations_split {xs ys : List (Observation T)} {o : Observation T}
    (h : observations target log = xs ++ o :: ys) :
    ∃ before n after, log = before ++ n :: after ∧ observations target before = xs ∧ n.observation target = some o ∧
      observations target after = ys := by
  obtain ⟨l, r, rfl, hl, hr⟩ := List.filterMap_eq_append_iff.1 h
  obtain ⟨skipped, n, after, rfl, hskipped, hn, hafter⟩ := List.filterMap_eq_cons_iff.1 hr
  refine ⟨l ++ skipped, n, after, by simp, ?_, hn, hafter⟩
  rw [observations, List.filterMap_append, hl, List.filterMap_eq_nil_iff.2 hskipped, List.append_nil]

/-- After a failure, the raft operations that are answered are the successes that are observed. -/
theorem answered_iff (hpaired : Paired log) (hlog : log = before ++ first :: after)
    (hfirst : first.failureOf target p = true) :
    (∀ n ∈ after, ¬n.Answered target p) ↔ ∀ o ∈ observations target after, o.successOf p = false := by
  constructor
  · intro hnone o ho
    by_contra hsuccess
    obtain ⟨n, hn, hobs⟩ := List.mem_filterMap.1 ho
    obtain ⟨call, outcome, hnote, rfl⟩ := observation_eq_some hobs
    obtain ⟨xs, ys, rfl⟩ := List.append_of_mem hn
    obtain ⟨i, note, now⟩ := n
    subst hnote
    cases outcome with
    | error kind => simp [Observation.successOf] at hsuccess
    | ok u =>
      have hpeer : target i = p := by simpa [Observation.successOf] using hsuccess
      obtain ⟨id, answer, rest, rfl⟩ := hpaired.success (before ++ first :: xs) i call now ys (by rw [hlog]; simp)
      exact hnone ⟨i, .returned id (.ok answer), now⟩ (by simp) ⟨hpeer, id, answer, rfl⟩
  · rintro hnone n hn ⟨hpeer, id, answer, hnote⟩
    obtain ⟨xs, ys, rfl⟩ := List.append_of_mem hn
    obtain ⟨i, note, now⟩ := n
    subst hnote
    have hlast := hpaired.returned (before ++ first :: xs) i id (.ok answer) now ys (by rw [hlog]; simp)
    rw [List.getLast?_append_of_ne_nil _ (List.cons_ne_nil _ _)] at hlast
    -- the note before the return is the success, which is not the failure
    have hmem := List.mem_of_getLast? hlast
    rcases List.mem_cons.1 hmem with hhead | hxs
    · rw [← hhead] at hfirst
      cases hfirst
    · have hobs := hnone ⟨target i, .ok (), now⟩ (List.mem_filterMap.2 ⟨_, List.mem_append_left _ hxs, rfl⟩)
      simp [Observation.successOf, show target i = p from hpeer] at hobs

/-- What the entry of a peer says about the log: the failure that it begins with, and what came after. -/
structure Suspicion (target : Nat → UInt64) (p : UInt64) (first : TimedNote B T) (after : List (TimedNote B T))
    (f : PeerTransportFailure T) : Prop where
  began : first.failureOf target p = true
  since : f.since = first.now
  silent : ∀ n ∈ after, ¬n.Answered target p
  attempts : f.attempts.toNat = min ((first :: after).countP (TimedNote.failureOf target p)) u64Max.toNat
  last : ∃ n call, ((first :: after).filter (TimedNote.failureOf target p)).getLast? = some n ∧ f.latest = n.now ∧
    n.note = .observed call (.error f.kind)

/-- An episode of observations is one of the log. -/
theorem suspicion_of_episode {earlier : List (Observation T)} {o : Observation T} {f : PeerTransportFailure T}
    (hpaired : Paired log) (hlog : log = before ++ first :: after) (ho : first.observation target = some o)
    (h : PeerHealth.Episode p earlier o (observations target after) f) : Suspicion target p first after f := by
  have hbegan : first.failureOf target p = true := by
    rw [← failureOf_observation ho]
    exact h.created.1
  have hcons : o :: observations target after = observations target (first :: after) :=
    (List.filterMap_cons_some ho).symm
  refine ⟨hbegan, ?_, (answered_iff hpaired hlog hbegan).2 h.unbroken, ?_, ?_⟩
  · obtain ⟨_, _, _, rfl⟩ := observation_eq_some ho
    exact h.since
  · rw [h.attempts, hcons, filter_observations, length_failures]
  · obtain ⟨last, hlast, hlatest, hkind⟩ := h.last
    rw [hcons, filter_observations] at hlast
    rcases List.eq_nil_or_concat ((first :: after).filter (TimedNote.failureOf target p)) with hnil | ⟨xs, n, hconcat⟩
    · rw [hnil] at hlast
      cases hlast
    · have hn : n.failureOf target p = true := by
        have hmem : n ∈ (first :: after).filter (TimedNote.failureOf target p) := by simp [hconcat]
        exact (List.mem_filter.1 hmem).2
      obtain ⟨call, kind, hnote, hobs⟩ := @observations_filter_concat B T target p n xs hn
      rw [hconcat, List.concat_eq_append, hobs, List.getLast?_concat] at hlast
      cases hlast
      cases hkind
      refine ⟨n, call, ?_, hlatest, hnote⟩
      rw [hconcat, List.concat_eq_append, List.getLast?_concat]

/-- **Suspected peers**: over every run of the connections of a node, the peers that `PeerHealth` holds are those that
failed explicitly and of which no raft operation was answered since, but for those that failed while 256 others were
held; and the entry of a peer counts the failures since the one that it begins with. -/
theorem suspected_peers {w : PeerNetwork B T} {events : List (NetworkEvent B T)}
    (hrun : Run PeerNetwork.step (fun _ _ => True) start events w) (target : Nat → UInt64) :
    (w.failures target).size ≤ 256 ∧
    (∀ (p : UInt64) (f : PeerTransportFailure T), (w.failures target)[p]? = some f →
      ∃ before first after, w.log = before ++ first :: after ∧ Suspicion target p first after f) ∧
    ∀ p : UInt64, (w.failures target)[p]? = none ↔
      ∀ before n after, w.log = before ++ n :: after → n.failureOf target p = true →
        (∀ m ∈ after, ¬m.Answered target p) →
        ((PeerHealth.observeAll (observations target before)).erase p).size = 256 := by
  have hpaired := (inv_run hrun).paired
  refine ⟨PeerHealth.size_observeAll _, fun p f hf => ?_, fun p => ?_⟩
  · obtain ⟨earlier, o, later, hsplit, hepisode⟩ := PeerHealth.episode_of_entry hf
    obtain ⟨before, first, after, hlog, _, ho, rfl⟩ := observations_split hsplit
    exact ⟨before, first, after, hlog, suspicion_of_episode hpaired hlog ho hepisode⟩
  · rw [failures, PeerHealth.entry_none_iff]
    constructor
    · intro hall before n after hlog hn hsilent
      have hanswered := (answered_iff hpaired hlog hn).1 hsilent
      obtain ⟨call, kind, hnote, _⟩ := @observations_filter_concat B T target p n [] hn
      have ho : n.observation target = some ⟨target n.conn, .error kind, n.now⟩ := by
        simp [TimedNote.observation, hnote]
      refine hall _ _ (observations target after) ?_ ((failureOf_observation ho).trans hn) hanswered
      rw [hlog, observations, List.filterMap_append, List.filterMap_cons_some ho]
      rfl
    · intro hall earlier o later hsplit hf hsuccess
      obtain ⟨before, n, after, hlog, rfl, ho, rfl⟩ := observations_split hsplit
      have hn : n.failureOf target p = true := (failureOf_observation ho).symm.trans hf
      exact hall before n after hlog hn ((answered_iff hpaired hlog hn).2 hsuccess)

end

/-! ### A peer that refuses two tries -/

/-- Peer 2 refuses a vote and its retry, while peer 3 answers one. -/
def refusedTwice : List (NetworkEvent Nat Nat) :=
  [⟨0, .begin (.vote 1), 0⟩, ⟨1, .begin (.vote 1), 1⟩, ⟨0, .dialFailed .connectionRefused, 2⟩, ⟨1, .dialOk, 3⟩,
    ⟨1, .wrote, 4⟩, ⟨1, .wrote, 4⟩, ⟨1, .wrote, 4⟩, ⟨1, .wrote, 4⟩, ⟨0, .dialFailed .connectionRefused, 5⟩,
    ⟨1, .peerAccepts 0, 6⟩, ⟨1, .peerAnswers 0 (.vote (.ok 10)), 6⟩, ⟨1, .received, 7⟩, ⟨1, .received, 7⟩,
    ⟨1, .received, 7⟩]

theorem suspected_peers_refusedTwice : ∃ (w : PeerNetwork Nat Nat) (f : PeerTransportFailure Nat),
    Run PeerNetwork.step (fun _ _ => True) start refusedTwice w ∧ f.attempts = 2 ∧
      ∃ before first after, w.log = before ++ first :: after ∧
        Suspicion (fun i => if i = 0 then 2 else 3) 2 first after f := by
  have hend : ((refusedTwice.foldlM PeerNetwork.step (start : PeerNetwork Nat Nat)).bind fun w =>
      (w.failures fun i => if i = 0 then 2 else 3)[(2 : UInt64)]?) = some ⟨2, 5, 2, .connectionRefused⟩ := by
    decide
  obtain ⟨w, hw, hf⟩ := Option.bind_eq_some_iff.1 hend
  have hrun := Run.of_foldlM hw
  exact ⟨w, _, hrun, rfl, (suspected_peers hrun fun i => if i = 0 then 2 else 3).2.1 2 _ hf⟩

end PeerNetwork

end Ganglion
