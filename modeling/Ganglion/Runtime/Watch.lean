import Ganglion.Runtime.Serde
import Ganglion.Runtime.StepLaw

/-!
# The committed watch

`GanglionStateMachine` publishes the committed state through a watch channel: `apply` once per batch, when some command
of the batch raised the flag, `install_snapshot` and `persistent` whenever they succeed. `Watched` runs a machine with
the history of its committed states and of the values it has published.

* `apply_agrees`: a batch that raises no flag has left generation and topology.
* `Coherent`: the watch shows the generation and the topology of the committed state, and the published values are a
  subsequence of the committed states. Every step keeps it (`step_coherent`).
* `committed_monotone`: the generations the watch shows along batches do not decrease.
-/

namespace Ganglion

open Std CoordinationSnapshot

/-- The two snapshots agree on the generation and on everything it versions. -/
def Agrees (s t : CoordinationSnapshot) : Prop := s.generation = t.generation ∧ SameTopology s t

theorem Agrees.refl (s : CoordinationSnapshot) : Agrees s s := ⟨rfl, .refl s⟩

theorem Agrees.trans {s t u : CoordinationSnapshot} (h : Agrees s t) (h' : Agrees t u) : Agrees s u :=
  ⟨h.1.trans h'.1, sameTopology_iff.2 ((sameTopology_iff.1 h.2).trans (sameTopology_iff.1 h'.2))⟩

/-! ## One batch -/

/-- Without the flag a command leaves what watchers are shown. -/
theorem commit_agrees {s : CoordinationSnapshot} {c : MetadataRaftCommand}
    (h : (applyCommand s c).stateChanged = false) : Agrees s (commit s c) := by
  refine ⟨?_, sameTopology_of_not_changed h⟩
  unfold commit
  have ho := applyCommand_outcome s c
  generalize applyCommand s c = a at ho h
  cases ho with
  | rejected r => rfl
  | silent t hg _ _ => exact hg.symm
  | bumped t _ _ => cases h
  | replaced t _ _ => cases h

theorem applyEntry_agrees {inner : StateMachineInner} {e : Entry} (h : (applyEntry inner e).2.1 = false) :
    Agrees inner.state (applyEntry inner e).1.state := by
  unfold applyEntry at h ⊢
  cases hp : e.payload with
  | blank => exact .refl _
  | membership m => exact .refl _
  | normal command =>
    rw [hp] at h
    exact commit_agrees h

/-- The flag of the loop is raised by no entry: then none of them has changed what watchers are shown. -/
theorem applyLoop_agrees (es : List Entry) (inner : StateMachineInner) (b : Bool) (rs : List MetadataRaftResponse)
    (h : (applyLoop inner b rs es).2.1 = false) : b = false ∧ Agrees inner.state (applyLoop inner b rs es).1.state := by
  induction es generalizing inner b rs with
  | nil => exact ⟨h, .refl _⟩
  | cons e es ih =>
    simp only [applyLoop] at h ⊢
    obtain ⟨hb, ha⟩ := ih _ _ _ h
    rw [Bool.or_eq_false_iff] at hb
    exact ⟨hb.1, (applyEntry_agrees hb.2).trans ha⟩

/-- A batch keeps the watch in agreement with the committed state. -/
theorem apply_agrees {sm : GanglionStateMachine} (es : List Entry) (h : Agrees sm.committed sm.inner.state) :
    Agrees (sm.apply es).1.committed (sm.apply es).1.inner.state := by
  simp only [GanglionStateMachine.apply]
  split
  · exact .refl _
  · rename_i hf
    exact h.trans (applyLoop_agrees es _ _ _ (Bool.eq_false_iff.2 hf)).2

/-- The committed states after each entry. -/
def Position.states : Position → List Entry → List CoordinationSnapshot
  | _, [] => []
  | p, e :: es => (p.apply e).state :: (p.apply e).states es

/-- The last of the committed states of a batch. -/
theorem Position.getLast?_states (p : Position) (es : List Entry) :
    (p.state :: p.states es).getLast? = some (es.foldl Position.apply p).state := by
  induction es generalizing p with
  | nil => rfl
  | cons e es ih =>
    rw [Position.states, List.getLast?_cons_cons, ih]
    rfl

/-- A batch that raises the flag is not empty, and it publishes its last committed state. -/
theorem apply_published {sm : GanglionStateMachine} {es : List Entry}
    (h : (applyLoop sm.inner false [] es).2.1 = true) :
    [(sm.apply es).1.committed].Sublist (sm.inner.position.states es) := by
  have hc : (sm.apply es).1.committed = (es.foldl Position.apply sm.inner.position).state := by
    simp only [GanglionStateMachine.apply, if_pos h]
    exact congrArg Position.state (applyLoop_position es sm.inner false [])
  rw [List.singleton_sublist, hc]
  cases es with
  | nil => cases h
  | cons e es =>
    apply List.mem_of_getLast?
    rw [Position.states, Position.getLast?_states]
    rfl

/-! ## Generations along batches -/

/-- No entry lowers the generation. -/
theorem Position.gen_le_apply {p : Position} (hg : p.state.generation < u64Max) (e : Entry) :
    gen p.state ≤ gen (p.apply e).state := by
  unfold Position.apply
  cases e.payload with
  | normal command => exact gen_le_commit command hg
  | blank => exact Nat.le_refl _
  | membership m => exact Nat.le_refl _

theorem Position.gen_le_foldl {p : Position} {es : List Entry}
    (h : ∀ s ∈ p.state :: p.states es, s.generation < u64Max) :
    gen p.state ≤ gen (es.foldl Position.apply p).state := by
  induction es generalizing p with
  | nil => exact Nat.le_refl _
  | cons e es ih =>
    have he := Position.gen_le_apply (h _ List.mem_cons_self) e
    exact Nat.le_trans he (ih fun s hs => h s (List.mem_cons_of_mem _ hs))

namespace GanglionStateMachine

/-- The machine after the first `n` batches. -/
def afterBatches (sm : GanglionStateMachine) (batches : List (List Entry)) (n : Nat) : GanglionStateMachine :=
  Replay.stateAt (fun sm es => (sm.apply es).1) sm batches n

/-- Every committed state of the batches is below the last generation. -/
def BatchesBelow (sm : GanglionStateMachine) (batches : List (List Entry)) : Prop :=
  ∀ (n : Nat) (hn : n < batches.length), ∀ s ∈ (sm.afterBatches batches n).inner.state ::
    (sm.afterBatches batches n).inner.position.states batches[n], s.generation < u64Max

/-- Batches keep the watch in agreement. -/
theorem afterBatches_agrees {sm : GanglionStateMachine} (h : Agrees sm.committed sm.inner.state)
    (batches : List (List Entry)) (n : Nat) :
    Agrees (sm.afterBatches batches n).committed (sm.afterBatches batches n).inner.state := by
  unfold afterBatches Replay.stateAt
  induction batches.take n generalizing sm with
  | nil => exact h
  | cons es ess ih => exact ih (apply_agrees es h)

/-- **The generations the watch shows along batches do not decrease.** -/
theorem committed_monotone {sm : GanglionStateMachine} (h : Agrees sm.committed sm.inner.state)
    {batches : List (List Entry)} (hb : BatchesBelow sm batches) {i j : Nat} (hij : i ≤ j) (hj : j ≤ batches.length) :
    gen (sm.afterBatches batches i).committed ≤ gen (sm.afterBatches batches j).committed := by
  have hgen : ∀ n, gen (sm.afterBatches batches n).committed = gen (sm.afterBatches batches n).inner.state :=
    fun n => congrArg UInt64.toNat (afterBatches_agrees h batches n).1
  rw [hgen, hgen]
  refine Replay.stateAt_rel (R := fun a b : GanglionStateMachine => gen a.inner.state ≤ gen b.inner.state)
    (fun _ => Nat.le_refl _) (fun _ _ _ => Nat.le_trans) (fun n hn => ?_) hij hj
  rw [Replay.stateAt_succ hn]
  have hle := Position.gen_le_foldl (p := (sm.afterBatches batches n).inner.position) (hb n hn)
  rw [← apply_position] at hle
  exact hle

end GanglionStateMachine

/-! ## Runs -/

/-- A machine with its history: the committed states and the published values, oldest first. -/
structure Watched where
  machine : GanglionStateMachine
  states : List CoordinationSnapshot
  published : List CoordinationSnapshot

namespace Watched

/-- `GanglionStateMachine::default`. -/
def start : Watched := ⟨.default, [.default], [.default]⟩

/-- The calls on a machine; an open starts a machine on the content of a file. -/
inductive Event where
  | apply (entries : List Entry)
  | install (snapshot : Snapshot) (o : Persist)
  | build (o : Persist)
  | openPersistent (file : Option Bytes)

variable (codec : SnapshotCodec)

/-- One call. An open that fails leaves no machine. -/
def step (w : Watched) : Event → Option Watched
  | .apply entries =>
    let sm := (w.machine.apply entries).1
    some ⟨sm, w.states ++ w.machine.inner.position.states entries,
      w.published ++ if (applyLoop w.machine.inner false [] entries).2.1 then [sm.committed] else []⟩
  | .install snapshot o =>
    match w.machine.installSnapshot codec snapshot o with
    | (sm, .ok _) => some ⟨sm, w.states ++ [sm.inner.state], w.published ++ [sm.committed]⟩
    | (sm, .error _) => some { w with machine := sm }
  | .build o => some { w with machine := (w.machine.buildSnapshot codec o).1 }
  | .openPersistent file =>
    match GanglionStateMachine.openPersistent codec file with
    | .ok sm => some ⟨sm, w.states ++ [sm.inner.state], w.published ++ [sm.committed]⟩
    | .error _ => none

/-- The watch agrees with the committed state, the histories end in them, and what was published was committed, in the
same order. -/
structure Coherent (w : Watched) : Prop where
  agrees : Agrees w.machine.committed w.machine.inner.state
  current : w.states.getLast? = some w.machine.inner.state
  latest : w.published.getLast? = some w.machine.committed
  sublist : w.published.Sublist w.states

theorem start_coherent : Coherent start := ⟨.refl _, rfl, rfl, .refl _⟩

variable {codec}

/-- A machine that publishes the state it has just installed. -/
theorem Coherent.replaced {w : Watched} (h : Coherent w) {sm : GanglionStateMachine}
    (hsm : sm.committed = sm.inner.state) :
    Coherent ⟨sm, w.states ++ [sm.inner.state], w.published ++ [sm.committed]⟩ := by
  refine ⟨hsm ▸ .refl _, by simp, by simp, h.sublist.append ?_⟩
  rw [hsm]

/-- A failed install leaves the locked state and the watch. -/
theorem installSnapshot_cases (sm : GanglionStateMachine) (s : Snapshot) (o : Persist) :
    (∃ sm', sm.installSnapshot codec s o = (sm', .ok ()) ∧ sm'.committed = sm'.inner.state) ∨
    ∃ sm' e, sm.installSnapshot codec s o = (sm', .error e) ∧ sm'.committed = sm.committed ∧ sm'.inner = sm.inner := by
  unfold GanglionStateMachine.installSnapshot
  split
  · exact .inr ⟨sm, _, rfl, rfl, rfl⟩
  · dsimp only
    split
    · exact .inl ⟨_, rfl, rfl⟩
    · exact .inr ⟨_, _, rfl, rfl, rfl⟩

theorem openPersistent_ok {file : Option Bytes} {sm : GanglionStateMachine}
    (h : GanglionStateMachine.openPersistent codec file = .ok sm) : sm.committed = sm.inner.state := by
  unfold GanglionStateMachine.openPersistent at h
  split at h
  · cases h
    rfl
  · split at h
    · cases h
    · split at h
      · cases h
      · cases h
        rfl

/-- A batch publishes its last state, when a command of it has raised the flag. -/
theorem Coherent.applied {w : Watched} (h : Coherent w) (es : List Entry) :
    Coherent ⟨(w.machine.apply es).1, w.states ++ w.machine.inner.position.states es,
      w.published ++ if (applyLoop w.machine.inner false [] es).2.1 then [(w.machine.apply es).1.committed] else []⟩ := by
  refine ⟨apply_agrees es h.agrees, ?_, ?_, h.sublist.append ?_⟩
  · have hlast := Position.getLast?_states w.machine.inner.position es
    rw [← GanglionStateMachine.apply_position, List.getLast?_cons] at hlast
    rw [List.getLast?_append, h.current]
    simpa [StateMachineInner.position, Option.or_some] using hlast
  · by_cases hf : (applyLoop w.machine.inner false [] es).2.1 = true
    · simp [hf]
    · have hkeep : (w.machine.apply es).1.committed = w.machine.committed := by
        simp only [GanglionStateMachine.apply, if_neg hf]
      simp only [if_neg hf, List.append_nil, hkeep]
      exact h.latest
  · split
    · exact apply_published ‹_›
    · exact List.nil_sublist _

/-- A call that leaves the committed state and the watch. -/
theorem Coherent.kept {w : Watched} (h : Coherent w) {sm : GanglionStateMachine}
    (hc : sm.committed = w.machine.committed) (hi : sm.inner.state = w.machine.inner.state) :
    Coherent { w with machine := sm } := by
  constructor
  · show Agrees sm.committed sm.inner.state
    rw [hc, hi]
    exact h.agrees
  · show w.states.getLast? = some sm.inner.state
    rw [hi]
    exact h.current
  · show w.published.getLast? = some sm.committed
    rw [hc]
    exact h.latest
  · exact h.sublist

/-- Every call keeps the watch coherent. -/
theorem step_coherent {w w' : Watched} {e : Event} (hs : step codec w e = some w') (h : Coherent w) : Coherent w' := by
  cases e with
  | apply es =>
    cases hs
    exact h.applied es
  | install s o =>
    simp only [step] at hs
    obtain ⟨sm, he, hsm⟩ | ⟨sm, err, he, hc, hi⟩ := @installSnapshot_cases codec w.machine s o
    · rw [he] at hs
      cases hs
      exact h.replaced hsm
    · rw [he] at hs
      cases hs
      exact h.kept hc (by rw [hi])
  | build o =>
    cases hs
    have hpos := @GanglionStateMachine.buildSnapshot_position codec w.machine o
    have hc : (w.machine.buildSnapshot codec o).1.committed = w.machine.committed := by
      unfold GanglionStateMachine.buildSnapshot
      dsimp only
      split <;> rfl
    exact h.kept hc (congrArg Position.state hpos)
  | openPersistent file =>
    simp only [step] at hs
    split at hs
    · rename_i sm ho
      cases hs
      exact h.replaced (openPersistent_ok ho)
    · cases hs

open GanglionStateMachine in
/-- **The committed watch is coherent** after any calls: it shows generation and topology of the committed state, what was
published is a subsequence of the committed states that ends in the value shown, and along further batches the
generations it shows do not decrease. -/
theorem watch_coherent {es : List Event} {w : Watched} (h : Run (step codec) (fun _ _ => True) start es w) :
    (w.machine.committed.generation = w.machine.inner.state.generation ∧
        SameTopology w.machine.committed w.machine.inner.state) ∧
      w.states.getLast? = some w.machine.inner.state ∧ w.published.getLast? = some w.machine.committed ∧
      w.published.Sublist w.states ∧
      ∀ batches, BatchesBelow w.machine batches → ∀ i j, i ≤ j → j ≤ batches.length →
        gen (w.machine.afterBatches batches i).committed ≤ gen (w.machine.afterBatches batches j).committed := by
  have hc : Coherent w := Run.invariant (fun _ _ _ _ hs hc => step_coherent hs hc) h start_coherent
  exact ⟨hc.agrees, hc.current, hc.latest, hc.sublist, fun _ hb _ _ hij hj => committed_monotone hc.agrees hb hij hj⟩

/-- An entry that registers broker `a` with a heartbeat. -/
def heartbeatEntry (index : UInt64) (heartbeat : String) : Entry :=
  ⟨⟨⟨1, 1⟩, index⟩,
    .normal (.registerNode
      { NodeInfo.new "a" "a:1" none with labels := (∅ : BTreeMap _ _).insert "heartbeat" heartbeat })⟩

/-- The machine after a registration, and after a heartbeat that watchers are not woken for. -/
def afterHeartbeat : Watched :=
  let sm := (GanglionStateMachine.default.apply [heartbeatEntry 1 "1"]).1
  let sm' := (sm.apply [heartbeatEntry 2 "2"]).1
  ⟨sm', [.default, sm.inner.state, sm'.inner.state], [.default, sm.committed]⟩

theorem watch_coherent_heartbeat :
    afterHeartbeat.machine.committed ≠ afterHeartbeat.machine.inner.state ∧
      SameTopology afterHeartbeat.machine.committed afterHeartbeat.machine.inner.state ∧
      afterHeartbeat.published.Sublist afterHeartbeat.states ∧
      gen (afterHeartbeat.machine.afterBatches [[heartbeatEntry 3 "3"]] 0).committed ≤
        gen (afterHeartbeat.machine.afterBatches [[heartbeatEntry 3 "3"]] 1).committed := by
  have hrun : Run (step serdeSnapshot) (fun _ _ => True) start
      [.apply [heartbeatEntry 1 "1"], .apply [heartbeatEntry 2 "2"]] afterHeartbeat :=
    .cons trivial rfl (.cons trivial rfl (.nil _))
  obtain ⟨⟨_, hst⟩, _, _, hsub, hmono⟩ := watch_coherent hrun
  refine ⟨by decide, hst, hsub, hmono [[heartbeatEntry 3 "3"]] ?_ 0 1 (by decide) (by decide)⟩
  intro n hn
  match n, hn with
  | 0, _ =>
    show ∀ s ∈ afterHeartbeat.machine.inner.state ::
      afterHeartbeat.machine.inner.position.states [heartbeatEntry 3 "3"], s.generation < u64Max
    decide

end Watched

end Ganglion
