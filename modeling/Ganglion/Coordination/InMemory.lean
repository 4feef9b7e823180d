import Ganglion.Core.Types
import Ganglion.Lib.Replay
import Mathlib.Data.Nat.Find

/-!
# In-process coordination

`InMemoryCoordination` keeps the snapshot twice: under a lock, and as the value of a watch channel. Both writers store
the first copy and then call `Sender::send`, which drops the value when no receiver is alive; a later `watch()`
subscribes to whatever the channel still holds.

* `step_current`: a call keeps all receivers current, unless it is a `watch()` that finds no receiver and a channel that
  has missed an update.
* `receivers_current`: so all receivers are current in a whole run exactly when no such `watch()` occurs; read off the
  calls alone (`NoUpdateMissed`), when the updates made while no receiver was alive leave the same snapshot.
  `watch_after_missed_update` is a run with another one.
-/

namespace Ganglion

/-! ## The watch channel -/

/-- A tokio watch channel: the stored value, the live receivers and the number of receivers handed out. -/
structure WatchChannel (α : Type) where
  stored : α
  live : List Nat
  subscribed : Nat
  deriving DecidableEq

namespace WatchChannel

variable {α : Type}

/-- `watch::channel` once its first receiver is dropped. -/
def new (v : α) : WatchChannel α := ⟨v, [], 0⟩

/-- `Sender::send`: without a live receiver it fails and stores nothing. -/
def send (c : WatchChannel α) (v : α) : WatchChannel α :=
  if c.live.isEmpty then c else { c with stored := v }

/-- `Sender::subscribe`. -/
def subscribe (c : WatchChannel α) : WatchChannel α :=
  { c with live := c.live ++ [c.subscribed], subscribed := c.subscribed + 1 }

/-- Dropping a receiver. -/
def dropReceiver (c : WatchChannel α) (receiver : Nat) : WatchChannel α :=
  { c with live := c.live.filter (· ≠ receiver) }

/-- `Receiver::borrow`, of a live receiver. -/
def borrow (c : WatchChannel α) (receiver : Nat) : Option α := if receiver ∈ c.live then some c.stored else none

end WatchChannel

/-! ## The provider -/

/-- `InMemoryCoordination`. -/
structure InMemoryCoordination where
  snapshot : CoordinationSnapshot
  sender : WatchChannel CoordinationSnapshot
  deriving DecidableEq

namespace InMemoryCoordination

/-- `InMemoryCoordination::new`. -/
def new (initial : CoordinationSnapshot) : InMemoryCoordination := ⟨initial, .new initial⟩

/-- `update_snapshot`. -/
def updateSnapshot (c : InMemoryCoordination) (next : CoordinationSnapshot) : InMemoryCoordination :=
  ⟨next, c.sender.send next⟩

/-- `set_generation`. -/
def setGeneration (c : InMemoryCoordination) (generation : UInt64) : InMemoryCoordination :=
  let next := { c.snapshot with generation := generation }
  ⟨next, c.sender.send next⟩

/-- `watch`. -/
def watch (c : InMemoryCoordination) : InMemoryCoordination := { c with sender := c.sender.subscribe }

/-- The calls on the provider and on its receivers, each made under the lock or on the channel alone. -/
inductive Call where
  | updateSnapshot (next : CoordinationSnapshot)
  | setGeneration (generation : UInt64)
  | watch
  | dropReceiver (receiver : Nat)
  deriving DecidableEq

/-- One call. -/
def step (c : InMemoryCoordination) : Call → InMemoryCoordination
  | .updateSnapshot next => c.updateSnapshot next
  | .setGeneration generation => c.setGeneration generation
  | .watch => c.watch
  | .dropReceiver receiver => { c with sender := c.sender.dropReceiver receiver }

/-- What a call writes to the snapshot. -/
def Call.written (snapshot : CoordinationSnapshot) : Call → CoordinationSnapshot
  | .updateSnapshot next => next
  | .setGeneration generation => { snapshot with generation := generation }
  | _ => snapshot

/-- What a call makes of the receivers alive and the number handed out. -/
def Call.receivers (receivers : List Nat × Nat) : Call → List Nat × Nat
  | .watch => (receivers.1 ++ [receivers.2], receivers.2 + 1)
  | .dropReceiver receiver => (receivers.1.filter (· ≠ receiver), receivers.2)
  | _ => receivers

/-- The snapshot after the first `n` calls. -/
def written (initial : CoordinationSnapshot) (calls : List Call) (n : Nat) : CoordinationSnapshot :=
  Replay.stateAt Call.written initial calls n

/-- The receivers alive after the first `n` calls. -/
def receivers (calls : List Call) (n : Nat) : List Nat := (Replay.stateAt Call.receivers ([], 0) calls n).1

/-- The updates between a point with a receiver, or the start, and a `watch()` with no receiver since then leave the
snapshot of that point. -/
def NoUpdateMissed (initial : CoordinationSnapshot) (calls : List Call) : Prop :=
  ∀ m n, m ≤ n → calls[n]? = some .watch → m = 0 ∨ receivers calls m ≠ [] →
    (∀ k, m < k → k ≤ n → receivers calls k = []) → written initial calls n = written initial calls m

/-- Every live receiver shows the snapshot. -/
def Current (c : InMemoryCoordination) : Prop :=
  ∀ receiver ∈ c.sender.live, c.sender.borrow receiver = some c.snapshot

/-- A `watch()` that finds no receiver finds the snapshot in the channel. -/
def WatchesCurrent (c : InMemoryCoordination) (e : Call) : Prop :=
  e = .watch → c.sender.live = [] → c.sender.stored = c.snapshot

theorem current_iff {c : InMemoryCoordination} :
    Current c ↔ (c.sender.live ≠ [] → c.sender.stored = c.snapshot) := by
  constructor
  · intro h hne
    obtain ⟨receiver, hr⟩ := List.exists_mem_of_ne_nil _ hne
    have hb := h receiver hr
    rw [WatchChannel.borrow, if_pos hr] at hb
    exact Option.some.inj hb
  · intro h receiver hr
    rw [WatchChannel.borrow, if_pos hr, h (List.ne_nil_of_mem hr)]

/-- A write reaches the channel when there is a receiver to see it. -/
theorem current_send (c : InMemoryCoordination) (next : CoordinationSnapshot) : Current ⟨next, c.sender.send next⟩ := by
  rw [current_iff]
  unfold WatchChannel.send
  split
  · rename_i hempty
    exact fun hne => absurd (List.isEmpty_iff.1 hempty) hne
  · exact fun _ => rfl

/-- The channel keeps its value in a call that leaves no receiver. -/
theorem step_stored {c : InMemoryCoordination} {e : Call} (h : (c.step e).sender.live = []) :
    (c.step e).sender.stored = c.sender.stored := by
  have hsend : ∀ next, (c.sender.send next).live = [] → (c.sender.send next).stored = c.sender.stored := by
    intro next hlive
    unfold WatchChannel.send at hlive ⊢
    split
    · rfl
    · rename_i hne
      rw [if_neg hne] at hlive
      exact absurd (List.isEmpty_iff.2 hlive) hne
  cases e with
  | updateSnapshot next => exact hsend next h
  | setGeneration generation => exact hsend _ h
  | watch => exact absurd h (by simp [step, watch, WatchChannel.subscribe])
  | dropReceiver receiver => rfl

/-- **One call keeps the receivers current exactly when it is not a late `watch()`.** -/
theorem step_current {c : InMemoryCoordination} (h : Current c) (e : Call) :
    Current (c.step e) ↔ WatchesCurrent c e := by
  cases e with
  | updateSnapshot next => exact ⟨fun _ => nofun, fun _ => current_send c next⟩
  | setGeneration generation => exact ⟨fun _ => nofun, fun _ => current_send c _⟩
  | watch =>
    simp only [WatchesCurrent, true_imp_iff, step, watch, current_iff]
    rw [current_iff] at h
    constructor
    · intro hc _
      exact hc (by simp [WatchChannel.subscribe])
    · intro hlate _
      by_cases hlive : c.sender.live = []
      · exact hlate hlive
      · exact h hlive
  | dropReceiver receiver =>
    refine ⟨fun _ => nofun, fun _ => ?_⟩
    rw [current_iff] at h ⊢
    intro hne
    apply h
    intro hempty
    apply hne
    simp [step, WatchChannel.dropReceiver, hempty]

/-! ## Runs -/

section Run

variable (initial : CoordinationSnapshot) (calls : List Call)

theorem stateAt_snapshot (n : Nat) :
    (Replay.stateAt step (new initial) calls n).snapshot = written initial calls n := by
  refine (List.foldl_hom InMemoryCoordination.snapshot ?_).symm
  intro c e
  cases e <;> rfl

theorem receivers_step (c : InMemoryCoordination) (e : Call) :
    Call.receivers (c.sender.live, c.sender.subscribed) e =
      ((c.step e).sender.live, (c.step e).sender.subscribed) := by
  cases e with
  | updateSnapshot next =>
    simp only [step, updateSnapshot, WatchChannel.send, Call.receivers]
    split <;> rfl
  | setGeneration generation =>
    simp only [step, setGeneration, WatchChannel.send, Call.receivers]
    split <;> rfl
  | watch => rfl
  | dropReceiver receiver => rfl

theorem stateAt_live (n : Nat) :
    (Replay.stateAt step (new initial) calls n).sender.live = receivers calls n :=
  (congrArg Prod.fst (@List.foldl_hom _ _ _ (fun c : InMemoryCoordination => (c.sender.live, c.sender.subscribed)) _ _
    (calls.take n) (new initial) receivers_step)).symm

/-- As long as no receiver is alive the channel keeps its value. -/
theorem stored_eq {m n : Nat} (hmn : m ≤ n) (hn : n ≤ calls.length)
    (hnone : ∀ k, m < k → k ≤ n → receivers calls k = []) :
    (Replay.stateAt step (new initial) calls n).sender.stored =
      (Replay.stateAt step (new initial) calls m).sender.stored := by
  induction hmn with
  | refl => rfl
  | @step n hmn ih =>
    rw [← ih (by omega) fun k hk hkn => hnone k hk (by omega)]
    have hlive := hnone (n + 1) (Nat.lt_succ_of_le hmn) (Nat.le_refl _)
    rw [← stateAt_live initial] at hlive
    rw [Replay.stateAt_succ hn] at hlive ⊢
    exact step_stored hlive

/-- So it holds what was written when a receiver was last alive. -/
theorem stored_eq_written {m n : Nat} (hmn : m ≤ n) (hn : n ≤ calls.length) (hm : m = 0 ∨ receivers calls m ≠ [])
    (hcurrent : Current (Replay.stateAt step (new initial) calls m))
    (hnone : ∀ k, m < k → k ≤ n → receivers calls k = []) :
    (Replay.stateAt step (new initial) calls n).sender.stored = written initial calls m := by
  rw [stored_eq initial calls hmn hn hnone]
  rcases hm with rfl | hm
  · rfl
  · rw [current_iff, stateAt_live] at hcurrent
    rw [hcurrent hm, stateAt_snapshot]

theorem current_of_watches
    (h : ∀ (n : Nat) (hn : n < calls.length), WatchesCurrent (Replay.stateAt step (new initial) calls n) calls[n]) :
    ∀ n ≤ calls.length, Current (Replay.stateAt step (new initial) calls n) := by
  intro n
  induction n with
  | zero =>
    intro _ receiver hr
    cases hr
  | succ n ih =>
    intro hn
    rw [Replay.stateAt_succ hn]
    exact (step_current (ih (Nat.le_of_lt hn)) _).2 (h n hn)

theorem noUpdateMissed_of_current (h : ∀ n ≤ calls.length, Current (Replay.stateAt step (new initial) calls n)) :
    NoUpdateMissed initial calls := by
  intro m n hmn hwatch hm hnone
  obtain ⟨hn, hcall⟩ := List.getElem?_eq_some_iff.1 hwatch
  have hnext := h (n + 1) hn
  rw [Replay.stateAt_succ hn, hcall, current_iff] at hnext
  calc written initial calls n
      = (Replay.stateAt step (new initial) calls n).snapshot := (stateAt_snapshot initial calls n).symm
    _ = (Replay.stateAt step (new initial) calls n).sender.stored :=
        (hnext (by simp [step, watch, WatchChannel.subscribe])).symm
    _ = written initial calls m :=
        stored_eq_written initial calls hmn (Nat.le_of_lt hn) hm (h m (by omega)) hnone

theorem current_of_noUpdateMissed (h : NoUpdateMissed initial calls) :
    ∀ n ≤ calls.length, Current (Replay.stateAt step (new initial) calls n) := by
  intro n
  induction n using Nat.strong_induction_on with
  | _ n ih =>
    intro hn
    cases n with
    | zero =>
      intro receiver hr
      cases hr
    | succ n =>
      rw [Replay.stateAt_succ hn]
      refine (step_current (ih n (Nat.lt_succ_self n) (Nat.le_of_lt hn)) _).2 fun hwatch _ => ?_
      -- the last point with a receiver
      let m := Nat.findGreatest (fun k => receivers calls k ≠ []) n
      have hmn : m ≤ n := Nat.findGreatest_le n
      have hm : m = 0 ∨ receivers calls m ≠ [] := or_iff_not_imp_left.2 (Nat.findGreatest_of_ne_zero rfl)
      have hnone : ∀ k, m < k → k ≤ n → receivers calls k = [] := fun k hk hkn =>
        not_not.1 (Nat.findGreatest_is_greatest hk hkn)
      rw [stateAt_snapshot, h m n hmn (List.getElem?_eq_some_iff.2 ⟨hn, hwatch⟩) hm hnone]
      exact stored_eq_written initial calls hmn (Nat.le_of_lt hn) hm (ih m (by omega) (by omega)) hnone

/-- **Receivers are current in every state of a run exactly when every `watch()` without a live receiver finds the
snapshot in the channel**. The calls alone tell when that is: no update made since the last receiver was dropped has left
another snapshot. -/
theorem receivers_current :
    ((∀ n ≤ calls.length, Current (Replay.stateAt step (new initial) calls n)) ↔
      ∀ (n : Nat) (hn : n < calls.length), WatchesCurrent (Replay.stateAt step (new initial) calls n) calls[n]) ∧
    ((∀ n ≤ calls.length, Current (Replay.stateAt step (new initial) calls n)) ↔ NoUpdateMissed initial calls) := by
  refine ⟨⟨fun h n hn => ?_, current_of_watches initial calls⟩,
    noUpdateMissed_of_current initial calls, current_of_noUpdateMissed initial calls⟩
  have hsucc := h (n + 1) hn
  rw [Replay.stateAt_succ hn] at hsucc
  exact (step_current (h n (Nat.le_of_lt hn)) _).1 hsucc

end Run

/-- A receiver that is created after an update made without receivers shows the snapshot before it. -/
theorem watch_after_missed_update :
    let c := [Call.setGeneration 1, .watch].foldl step (new .default)
    c.sender.borrow 0 = some .default ∧ c.snapshot.generation = 1 ∧ ¬Current c := by
  intro c
  have hborrow : c.sender.borrow 0 = some .default := by decide
  refine ⟨hborrow, by decide, fun h => ?_⟩
  have hc := h 0 (by decide)
  rw [hborrow] at hc
  revert hc
  decide

end InMemoryCoordination

end Ganglion
