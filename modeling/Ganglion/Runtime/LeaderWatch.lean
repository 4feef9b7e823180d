import Mathlib.Data.List.Destutter
import Ganglion.Lib.Replay

/-!
# Watching the leader

`RaftMetadataNode::watch_leader` spawns a task that waits for a change of the metrics and forwards their leader to a
channel of its own, which it notifies only when the leader is another one. The metrics go on changing between any two
steps of the task, and its receivers are cloned and dropped at any time.

Both channels are watch channels: they hold one value, and a receiver has seen it or not. `LeaderWatch` keeps what they
have held.

* `Inv`: the leaders shown are some of those since the task was spawned, each another one than the last; and what the task
  has read is the last one, unless there are metrics that it has not seen.
* `leader_watch`: so it is notified no more often than the leader changes, and shows the leader of the last metrics once
  it has seen these; and it is never stuck before that.
-/

namespace Ganglion

/-! ## The forwarding task -/

/-- Where the task stands: at its `select!`, after `changed()` or after `borrow_and_update()`, or it has returned. -/
inductive ForwardPhase where
  | waiting
  | changed
  | read (leader : Option UInt64)
  | returned
  deriving DecidableEq

/-- What the channel of the metrics has held and how much of it the task's receiver has seen, the task, and what the
channel of the leader has held. -/
structure LeaderWatch (M : Type) where
  metrics : List M
  closed : Bool
  seen : Nat
  phase : ForwardPhase
  shown : List (Option UInt64)
  receivers : Nat

/-- What can happen. -/
inductive LeaderEvent (M : Type) where
  /-- The raft core publishes metrics. -/
  | publish (m : M)
  /-- The raft core is gone. -/
  | close
  /-- `metrics.changed()` is `Ok`: there are metrics that were not seen. -/
  | changed
  /-- `metrics.changed()` is an error. -/
  | failed
  /-- `metrics.borrow_and_update()`. -/
  | borrowAndUpdate
  /-- `tx.send_if_modified`. -/
  | sendIfModified
  /-- `tx.closed()`. -/
  | txClosed
  | cloneReceiver
  | dropReceiver

namespace LeaderWatch

variable {M : Type} (currentLeader : M → Option UInt64)

/-- `watch_leader`, when the metrics have been `ms ++ [m]` and the handle has seen the first `seen` of them. -/
def spawned (ms : List M) (m : M) (closed : Bool) (seen : Nat) : LeaderWatch M where
  metrics := ms ++ [m]
  closed := closed
  seen := seen
  phase := .waiting
  shown := [currentLeader m]
  receivers := 1

/-- The leader of the metrics that the channel holds. -/
def leader (s : LeaderWatch M) : Option (Option UInt64) := s.metrics.getLast?.map currentLeader

/-- One step; `none` where the event cannot happen. -/
def step (s : LeaderWatch M) : LeaderEvent M → Option (LeaderWatch M)
  | .publish m => if s.closed then none else some { s with metrics := s.metrics ++ [m] }
  | .close => some { s with closed := true }
  | .changed =>
    if s.phase = .waiting ∧ s.seen < s.metrics.length then
      some { s with phase := .changed, seen := s.metrics.length }
    else none
  | .failed =>
    if s.phase = .waiting ∧ s.seen = s.metrics.length ∧ s.closed then some { s with phase := .returned } else none
  | .borrowAndUpdate =>
    match s.phase, s.leader currentLeader with
    | .changed, some leader => some { s with phase := .read leader, seen := s.metrics.length }
    | _, _ => none
  | .sendIfModified =>
    match s.phase with
    | .read leader =>
      if s.shown.getLast? = some leader then some { s with phase := .waiting }
      else some { s with phase := .waiting, shown := s.shown ++ [leader] }
    | _ => none
  | .txClosed => if s.phase = .waiting ∧ s.receivers = 0 then some { s with phase := .returned } else none
  | .cloneReceiver => if s.receivers = 0 then none else some { s with receivers := s.receivers + 1 }
  | .dropReceiver => if s.receivers = 0 then none else some { s with receivers := s.receivers - 1 }

/-- The events of the task. -/
def IsTask : LeaderEvent M → Prop
  | .changed | .borrowAndUpdate | .sendIfModified => True
  | _ => False

variable {currentLeader} {s s' : LeaderWatch M}

/-! ## The invariant -/

/-- What is shown is some of the leaders, and what the task has in hand comes behind it. -/
def Chosen (leaders shown : List (Option UInt64)) : ForwardPhase → Prop
  | .read leader => shown.getLast? = some leader ∨ (shown ++ [leader]).Sublist leaders
  | _ => True

/-- Once all metrics are seen, their leader is shown, or the task has it in hand. -/
def Current (s : LeaderWatch M) (currentLeader : M → Option UInt64) : Prop :=
  match s.phase with
  | .waiting => s.seen = s.metrics.length → s.shown.getLast? = s.leader currentLeader
  | .changed => True
  | .read leader => s.seen = s.metrics.length → s.leader currentLeader = some leader
  | .returned => s.receivers = 0 ∨ (s.closed = true ∧ s.shown.getLast? = s.leader currentLeader)

/-- The state of a run, when the metrics `later` were published since the task was spawned at `ms ++ [m]`. -/
structure Inv (currentLeader : M → Option UInt64) (ms : List M) (m : M) (s : LeaderWatch M) (later : List M) : Prop where
  metrics_eq : s.metrics = ms ++ m :: later
  head : s.shown.head? = some (currentLeader m)
  seen_le : s.seen ≤ s.metrics.length
  sublist : s.shown.Sublist ((m :: later).map currentLeader)
  distinct : s.shown.IsChain (· ≠ ·)
  chosen : Chosen ((m :: later).map currentLeader) s.shown s.phase
  current : s.Current currentLeader

/-- A front of a list, or what ends with its last element. -/
theorem sublist_concat {α : Type} {xs ys : List α} {y : α} (h : xs.Sublist (ys ++ [y])) :
    xs.getLast? = some y ∨ xs.Sublist ys := by
  obtain ⟨front, last, rfl, hfront, hlast⟩ := List.sublist_append_iff.1 h
  cases hlast with
  | cons _ hnil =>
    rw [List.sublist_nil.1 hnil, List.append_nil]
    exact .inr hfront
  | cons_cons _ hnil =>
    rw [List.sublist_nil.1 hnil, List.getLast?_concat]
    exact .inl rfl

theorem inv_spawned {ms : List M} {m : M} {closed : Bool} {seen : Nat} (hseen : seen ≤ (ms ++ [m]).length) :
    Inv currentLeader ms m (spawned currentLeader ms m closed seen) [] where
  metrics_eq := rfl
  head := rfl
  seen_le := hseen
  sublist := List.Sublist.refl _
  distinct := .singleton _
  chosen := trivial
  current _ := by
    rw [leader, spawned, List.getLast?_concat]
    rfl

/-- The leader of the metrics is the last one. -/
theorem Inv.leader_eq {ms later : List M} {m : M} (h : Inv currentLeader ms m s later) :
    s.leader currentLeader = ((m :: later).map currentLeader).getLast? := by
  rw [leader, h.metrics_eq, List.getLast?_append_of_ne_nil _ (List.cons_ne_nil _ _), List.getLast?_map]

/-- Metrics are published. -/
theorem Inv.publish {ms later : List M} {m n : M} (h : Inv currentLeader ms m s later) (hopen : s.closed = false) :
    Inv currentLeader ms m { s with metrics := s.metrics ++ [n] } (later ++ [n]) := by
  have hlonger : ((m :: later).map currentLeader).Sublist ((m :: (later ++ [n])).map currentLeader) := by
    rw [← List.cons_append, List.map_append]
    exact List.sublist_append_left _ _
  have hunseen : s.seen ≠ (s.metrics ++ [n]).length := by
    have hle := h.seen_le
    rw [List.length_append, List.length_singleton]
    omega
  refine ⟨?_, h.head, ?_, h.sublist.trans hlonger, h.distinct, ?_, ?_⟩
  · show s.metrics ++ [n] = ms ++ m :: (later ++ [n])
    rw [h.metrics_eq, List.append_assoc, List.cons_append]
  · show s.seen ≤ (s.metrics ++ [n]).length
    rw [List.length_append]
    exact Nat.le_trans h.seen_le (Nat.le_add_right _ _)
  · have hchosen := h.chosen
    show Chosen _ s.shown s.phase
    cases hphase : s.phase with
    | read leader =>
      rw [hphase] at hchosen
      exact hchosen.imp_right fun hs => hs.trans hlonger
    | waiting => trivial
    | changed => trivial
    | returned => trivial
  · have hcurrent := h.current
    unfold Current at hcurrent ⊢
    dsimp only
    cases hphase : s.phase with
    | waiting => exact fun hseen => absurd hseen hunseen
    | changed => trivial
    | read leader => exact fun hseen => absurd hseen hunseen
    | returned =>
      rw [hphase] at hcurrent
      rcases hcurrent with hnone | ⟨hclosed, _⟩
      · exact .inl hnone
      · rw [hopen] at hclosed
        cases hclosed

/-- The raft core goes, and receivers are cloned and dropped. -/
theorem Inv.others {ms later : List M} {m : M} (h : Inv currentLeader ms m s later) {closed : Bool} {receivers : Nat}
    (hclosed : s.closed = true → closed = true) (hreceivers : s.receivers = 0 → receivers = 0) :
    Inv currentLeader ms m { s with closed := closed, receivers := receivers } later := by
  refine ⟨h.metrics_eq, h.head, h.seen_le, h.sublist, h.distinct, h.chosen, ?_⟩
  have hcurrent := h.current
  unfold Current at hcurrent ⊢
  dsimp only
  cases hphase : s.phase with
  | waiting =>
    rw [hphase] at hcurrent
    exact hcurrent
  | changed => trivial
  | read leader =>
    rw [hphase] at hcurrent
    exact hcurrent
  | returned =>
    rw [hphase] at hcurrent
    exact hcurrent.imp hreceivers (And.imp_left hclosed)

/-- What the task has read is shown. -/
theorem Inv.sendIfModified {ms later : List M} {m : M} {leader : Option UInt64} (h : Inv currentLeader ms m s later)
    (hphase : s.phase = .read leader) (hother : s.shown.getLast? ≠ some leader) :
    Inv currentLeader ms m { s with phase := .waiting, shown := s.shown ++ [leader] } later := by
  have hchosen := h.chosen
  rw [hphase] at hchosen
  have hcurrent := h.current
  rw [Current, hphase] at hcurrent
  refine ⟨h.metrics_eq, ?_, h.seen_le, hchosen.resolve_left hother, ?_, trivial, fun hseen => ?_⟩
  · show (s.shown ++ [leader]).head? = _
    rw [List.head?_append, h.head]
    rfl
  · show (s.shown ++ [leader]).IsChain (· ≠ ·)
    rw [List.isChain_append]
    refine ⟨h.distinct, .singleton _, fun x hx y hy hxy => hother ?_⟩
    rw [Option.mem_def.1 hx, hxy, ← Option.mem_def.1 hy]
    rfl
  · show (s.shown ++ [leader]).getLast? = s.leader currentLeader
    rw [List.getLast?_concat, hcurrent hseen]

theorem Inv.step {ms later : List M} {m : M} {e : LeaderEvent M} (h : Inv currentLeader ms m s later)
    (hstep : s.step currentLeader e = some s') : ∃ later', Inv currentLeader ms m s' later' := by
  have hcurrent := h.current
  cases e with
  | publish n =>
    simp only [LeaderWatch.step] at hstep
    split at hstep
    · cases hstep
    · next hopen =>
      cases hstep
      exact ⟨later ++ [n], h.publish (by simpa using hopen)⟩
  | close =>
    cases hstep
    exact ⟨later, h.others (fun _ => rfl) id⟩
  | changed =>
    simp only [LeaderWatch.step] at hstep
    split at hstep
    · cases hstep
      exact ⟨later, h.metrics_eq, h.head, Nat.le_refl _, h.sublist, h.distinct, trivial, trivial⟩
    · cases hstep
  | failed =>
    simp only [LeaderWatch.step] at hstep
    split at hstep
    · next hfailed =>
      cases hstep
      rw [Current, hfailed.1] at hcurrent
      exact ⟨later, h.metrics_eq, h.head, h.seen_le, h.sublist, h.distinct, trivial,
        .inr ⟨hfailed.2.2, hcurrent hfailed.2.1⟩⟩
    · cases hstep
  | borrowAndUpdate =>
    simp only [LeaderWatch.step] at hstep
    split at hstep
    · next leader hphase hleader =>
      cases hstep
      refine ⟨later, h.metrics_eq, h.head, Nat.le_refl _, h.sublist, h.distinct, ?_, fun _ => hleader⟩
      rw [h.leader_eq] at hleader
      obtain ⟨front, hfront⟩ := List.getLast?_eq_some_iff.1 hleader
      have hsublist := h.sublist
      rw [hfront] at hsublist
      rcases sublist_concat hsublist with hlast | hbefore
      · exact .inl hlast
      · right
        rw [hfront]
        exact hbefore.append_right [leader]
    · cases hstep
  | sendIfModified =>
    simp only [LeaderWatch.step] at hstep
    split at hstep
    · next leader hphase =>
      split at hstep
      · next hsame =>
        cases hstep
        rw [Current, hphase] at hcurrent
        exact ⟨later, h.metrics_eq, h.head, h.seen_le, h.sublist, h.distinct, trivial,
          fun hseen => hsame.trans (hcurrent hseen).symm⟩
      · next hother =>
        cases hstep
        exact ⟨later, h.sendIfModified hphase hother⟩
    · cases hstep
  | txClosed =>
    simp only [LeaderWatch.step] at hstep
    split at hstep
    · next hclosed =>
      cases hstep
      exact ⟨later, h.metrics_eq, h.head, h.seen_le, h.sublist, h.distinct, trivial, .inl hclosed.2⟩
    · cases hstep
  | cloneReceiver =>
    simp only [LeaderWatch.step] at hstep
    split at hstep
    · cases hstep
    · next hsome =>
      cases hstep
      exact ⟨later, h.others id fun hnone => absurd hnone hsome⟩
  | dropReceiver =>
    simp only [LeaderWatch.step] at hstep
    split at hstep
    · cases hstep
    · cases hstep
      exact ⟨later, h.others id fun hnone => by rw [hnone]⟩

/-! ## Catching up -/

/-- From a change of the metrics on, the task shows their leader. -/
theorem catches_up_changed {l : Option UInt64} (hphase : s.phase = .changed) (hleader : s.leader currentLeader = some l) :
    ∃ s', Run (step currentLeader) (fun _ e => IsTask e) s [.borrowAndUpdate, .sendIfModified] s' ∧
      s'.metrics = s.metrics ∧ s'.shown.getLast? = some l := by
  have hread : s.step currentLeader .borrowAndUpdate = some { s with phase := .read l, seen := s.metrics.length } := by
    simp only [step, hphase, hleader]
  by_cases hsame : s.shown.getLast? = some l
  · have hsend : ({ s with phase := .read l, seen := s.metrics.length } : LeaderWatch M).step currentLeader
        .sendIfModified = some { s with phase := .waiting, seen := s.metrics.length } := by
      simp only [step, if_pos hsame]
    exact ⟨_, .cons trivial hread (.cons trivial hsend (.nil _)), rfl, hsame⟩
  · have hsend : ({ s with phase := .read l, seen := s.metrics.length } : LeaderWatch M).step currentLeader
        .sendIfModified =
          some { s with phase := .waiting, seen := s.metrics.length, shown := s.shown ++ [l] } := by
      simp only [step, if_neg hsame]
    exact ⟨_, .cons trivial hread (.cons trivial hsend (.nil _)), rfl, List.getLast?_concat⟩

/-- A task that waits shows the leader of the metrics, or has a change of them to see. -/
theorem Inv.catches_up_waiting {ms later : List M} {m : M} (h : Inv currentLeader ms m s later)
    (hphase : s.phase = .waiting) :
    ∃ events s', Run (LeaderWatch.step currentLeader) (fun _ e => IsTask e) s events s' ∧ events.length ≤ 3 ∧
      s'.metrics = s.metrics ∧ s'.shown.getLast? = s.leader currentLeader := by
  rcases Nat.lt_or_eq_of_le h.seen_le with hunseen | hseen
  · have hchanged : s.step currentLeader .changed = some { s with phase := .changed, seen := s.metrics.length } := by
      simp only [LeaderWatch.step, hphase, hunseen, and_self, if_true]
    obtain ⟨l, hl⟩ : ∃ l, s.leader currentLeader = some l := by
      rw [h.leader_eq]
      exact ⟨_, List.getLast?_eq_some_getLast (by simp)⟩
    obtain ⟨s', hrun, hmetrics, hshown⟩ := @catches_up_changed M currentLeader
      { s with phase := .changed, seen := s.metrics.length } l rfl hl
    exact ⟨[.changed, .borrowAndUpdate, .sendIfModified], s', .cons trivial hchanged hrun, Nat.le_refl _, hmetrics,
      hshown.trans hl.symm⟩
  · have hcurrent := h.current
    rw [Current, hphase] at hcurrent
    exact ⟨[], s, .nil s, Nat.zero_le _, rfl, hcurrent hseen⟩

/-- As long as the task has not returned, a few steps of it show the leader of the metrics. -/
theorem Inv.catches_up {ms later : List M} {m : M} (h : Inv currentLeader ms m s later) (hlive : s.phase ≠ .returned) :
    ∃ events s', Run (LeaderWatch.step currentLeader) (fun _ e => IsTask e) s events s' ∧ events.length ≤ 4 ∧
      s'.metrics = s.metrics ∧ s'.shown.getLast? = s.leader currentLeader := by
  cases hphase : s.phase with
  | waiting =>
    obtain ⟨events, s', hrun, hlength, hshows⟩ := h.catches_up_waiting hphase
    exact ⟨events, s', hrun, Nat.le_succ_of_le hlength, hshows⟩
  | changed =>
    obtain ⟨l, hl⟩ : ∃ l, s.leader currentLeader = some l := by
      rw [h.leader_eq]
      exact ⟨_, List.getLast?_eq_some_getLast (by simp)⟩
    obtain ⟨s', hrun, hmetrics, hshown⟩ := catches_up_changed hphase hl
    exact ⟨_, s', hrun, by simp, hmetrics, hshown.trans hl.symm⟩
  | read old =>
    -- what it has read may be old: it shows that, and waits again
    obtain ⟨s₁, hsend, hwaiting, hmetrics⟩ : ∃ s₁, s.step currentLeader .sendIfModified = some s₁ ∧
        s₁.phase = .waiting ∧ s₁.metrics = s.metrics := by
      simp only [LeaderWatch.step, hphase]
      split
      · exact ⟨_, rfl, rfl, rfl⟩
      · exact ⟨_, rfl, rfl, rfl⟩
    obtain ⟨later', h₁⟩ := h.step hsend
    obtain ⟨events, s', hrun, hlength, hmetrics', hshown⟩ := h₁.catches_up_waiting hwaiting
    refine ⟨.sendIfModified :: events, s', .cons trivial hsend hrun, Nat.succ_le_succ hlength, hmetrics'.trans hmetrics, ?_⟩
    rw [hshown, leader, leader, hmetrics]
  | returned => exact absurd hphase hlive

/-- **Watching the leader.** In every run of the task, with metrics published between any of its steps and receivers
cloned and dropped at any time: the leaders shown are some of those of the metrics since the task was spawned, in their
order, each another one than the last, so that there are no more of them than the leader changes; when the task waits and
has seen all metrics, it shows their leader; when it has returned, there are no receivers, or the raft core is gone and
its last leader is shown; and otherwise at most four steps of the task show the leader of the metrics. -/
theorem leader_watch {ms : List M} {m : M} {closed : Bool} {seen : Nat} (hseen : seen ≤ (ms ++ [m]).length)
    {events : List (LeaderEvent M)}
    (hrun : Run (step currentLeader) (fun _ _ => True) (spawned currentLeader ms m closed seen) events s) :
    ∃ later, s.metrics = ms ++ m :: later ∧ s.shown.head? = some (currentLeader m) ∧
      s.shown.Sublist ((m :: later).map currentLeader) ∧ s.shown.IsChain (· ≠ ·) ∧
      s.shown.length ≤ (((m :: later).map currentLeader).destutter (· ≠ ·)).length ∧
      (s.phase = .waiting → s.seen = s.metrics.length → s.shown.getLast? = s.leader currentLeader) ∧
      (s.phase = .returned →
        s.receivers = 0 ∨ (s.closed = true ∧ s.shown.getLast? = s.leader currentLeader)) ∧
      (s.phase ≠ .returned → ∃ task s', Run (step currentLeader) (fun _ e => IsTask e) s task s' ∧ task.length ≤ 4 ∧
        s'.metrics = s.metrics ∧ s'.shown.getLast? = s.leader currentLeader) := by
  have hstart : ∃ later, Inv currentLeader ms m (spawned currentLeader ms m closed seen) later :=
    ⟨[], inv_spawned hseen⟩
  obtain ⟨later, h⟩ : ∃ later, Inv currentLeader ms m s later := by
    refine @Run.invariant _ _ _ _ (fun s => ∃ later, Inv currentLeader ms m s later) (fun s e s' _ hstep h => ?_)
      _ _ _ hrun hstart
    obtain ⟨later, h⟩ := h
    exact h.step hstep
  have hcurrent := h.current
  refine ⟨later, h.metrics_eq, h.head, h.sublist, h.distinct, h.distinct.length_le_length_destutter_ne h.sublist,
    fun hphase => ?_, fun hphase => ?_, h.catches_up⟩
  · rw [Current, hphase] at hcurrent
    exact hcurrent
  · rw [Current, hphase] at hcurrent
    exact hcurrent

/-- Node 1 is elected and then node 2, before the task has looked. -/
def elections : List (LeaderEvent (Option UInt64)) :=
  [.publish (some 1), .changed, .publish (some 2), .borrowAndUpdate, .sendIfModified]

/-- The first of the two is not shown. -/
theorem leader_watch_elections : ∃ s : LeaderWatch (Option UInt64),
    Run (step id) (fun _ _ => True) (spawned id [] none false 0) elections s ∧ s.shown = [none, some 2] ∧
      ∃ later, s.metrics = none :: later ∧
        s.shown.length ≤ (((none :: later).map id).destutter (· ≠ ·)).length := by
  obtain ⟨s, hrun, hshown⟩ : ∃ s : LeaderWatch (Option UInt64),
      Run (step id) (fun _ _ => True) (spawned id [] none false 0) elections s ∧ s.shown = [none, some 2] :=
    ⟨_, .cons trivial rfl (.cons trivial rfl (.cons trivial rfl (.cons trivial rfl (.cons trivial rfl (.nil _))))), rfl⟩
  obtain ⟨later, hmetrics, _, _, _, hlength, _⟩ := leader_watch (Nat.zero_le _) hrun
  exact ⟨s, hrun, hshown, later, hmetrics, hlength⟩

end LeaderWatch

end Ganglion
