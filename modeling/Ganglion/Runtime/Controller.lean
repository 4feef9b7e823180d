import Ganglion.Core.Epoch
import Ganglion.Runtime.Raft

/-!
# Racing controllers

`plan_and_propose_guarded` reads a committed snapshot, plans, sets the next generation, stamps epochs and submits a
guarded replace. A `Cluster` is one committed log with any number of such proposals in flight: a controller may read
any earlier position of the log (a stale replica), and proposals commit in any order, between any other commands.

* `planAndProposeGuarded_turns`: a loop ends as its last turn does, and the turns before have changed nothing.
* `accepted_proposal_current`: an accepted proposal was planned from a state that differs from the state it replaces in
  node labels only, so nothing committed in between is overwritten.
* `fenced_history`: epochs never decrease, and a change of owner raises them.
-/

namespace Ganglion

open Std CoordinationSnapshot

/-! ## The loop of one controller -/

/-- What one turn of the loop submits as `desired` for the snapshot it read. -/
def desiredSnapshot (plan : CoordinationSnapshot → CoordinationSnapshot) (committed : CoordinationSnapshot) :
    CoordinationSnapshot :=
  (stampAssignmentEpochs committed { plan committed with generation := committed.generation + 1 }).1

/-- The command one turn of the loop submits (`write_snapshot_guarded`). -/
def guardedProposal (plan : CoordinationSnapshot → CoordinationSnapshot) (committed : CoordinationSnapshot) :
    MetadataRaftCommand :=
  .applySnapshotGuarded committed.generation (desiredSnapshot plan committed)

@[simp] theorem desiredSnapshot_generation (plan : CoordinationSnapshot → CoordinationSnapshot)
    (committed : CoordinationSnapshot) : (desiredSnapshot plan committed).generation = committed.generation + 1 := rfl

@[simp] theorem desiredSnapshot_nodes (plan : CoordinationSnapshot → CoordinationSnapshot)
    (committed : CoordinationSnapshot) : (desiredSnapshot plan committed).nodes = (plan committed).nodes := rfl

theorem getElem?_desiredSnapshot (plan : CoordinationSnapshot → CoordinationSnapshot) (committed : CoordinationSnapshot)
    (r : ResourceIdentity) : (desiredSnapshot plan committed).assignments[r]? =
      (plan committed).assignments[r]?.map (stampAssignment committed r) :=
  getElem?_stamp _ _ _

/-- An accepted proposal is installed as it was submitted. -/
theorem commit_guardedProposal {plan : CoordinationSnapshot → CoordinationSnapshot} {read s : CoordinationSnapshot}
    (ha : Accepted s (guardedProposal plan read)) : commit s (guardedProposal plan read) = desiredSnapshot plan read :=
  commit_of_payload rfl ha

/-- `OpenraftAdapterError`, as far as a write returns it. -/
inductive OpenraftAdapterError where
  | notLeader
  | staleGeneration
  | generationMismatch (expected actual : UInt64)
  | attributeMismatch (key : String) (actual : Option String)
  | storage
  deriving DecidableEq

/-- What becomes of a command given to `client_write`. -/
inductive ClientWrite where
  /-- It commits and is applied to this state. -/
  | committedIn (s : CoordinationSnapshot)
  | forwardToLeader
  | failed

/-- `submit_command`. -/
def submitCommand (write : ClientWrite) (command : MetadataRaftCommand) :
    Except OpenraftAdapterError MetadataRaftResponse :=
  match write with
  | .forwardToLeader => .error .notLeader
  | .failed => .error .storage
  | .committedIn s =>
    let a := applyCommand s command
    match a.rejection with
    | none => .ok ⟨true, none, a.state⟩
    | some .staleGeneration => .error .staleGeneration
    | some (.generationMismatch expected actual) => .error (.generationMismatch expected actual)
    | some (.attributeMismatch key actual) => .error (.attributeMismatch key actual)

/-- What a loop meets in one turn: the snapshot its replica shows, and what becomes of its write. -/
structure Turn where
  committed : CoordinationSnapshot
  write : ClientWrite

/-- The write of one turn. -/
def Turn.submit (plan : CoordinationSnapshot → CoordinationSnapshot) (turn : Turn) :
    Except OpenraftAdapterError MetadataRaftResponse :=
  submitCommand turn.write (guardedProposal plan turn.committed)

/-- `plan_and_propose_guarded` from turn `attempts` on, when `max_retries - attempts` retries are left. -/
def planAndProposeGuarded (plan : CoordinationSnapshot → CoordinationSnapshot) (turns : Nat → Turn) (attempts : Nat) :
    Nat → Except OpenraftAdapterError MetadataRaftResponse
  | 0 => (turns attempts).submit plan
  | retries + 1 =>
    match (turns attempts).submit plan with
    | .error (.generationMismatch _ _) => planAndProposeGuarded plan turns (attempts + 1) retries
    | other => other

/-- The caller gets a reply exactly when the command was accepted. -/
theorem submitCommand_ok {write : ClientWrite} {command : MetadataRaftCommand} {r : MetadataRaftResponse}
    (h : submitCommand write command = .ok r) :
    ∃ s, write = .committedIn s ∧ Accepted s command ∧ r.snapshot = commit s command := by
  cases write with
  | forwardToLeader => cases h
  | failed => cases h
  | committedIn s =>
    refine ⟨s, rfl, ?_⟩
    simp only [submitCommand] at h
    split at h
    · rename_i hr
      cases h
      exact ⟨hr, rfl⟩
    all_goals cases h

/-- A lost race has committed and left the state. -/
theorem submitCommand_mismatch {write : ClientWrite} {command : MetadataRaftCommand} {expected actual : UInt64}
    (h : submitCommand write command = .error (.generationMismatch expected actual)) :
    ∃ s, write = .committedIn s ∧ commit s command = s := by
  cases write with
  | forwardToLeader => cases h
  | failed => cases h
  | committedIn s =>
    refine ⟨s, rfl, commit_rejected fun ha => ?_⟩
    unfold Accepted at ha
    simp [submitCommand, ha] at h

/-- **The loop of one controller.** It ends as one of its turns does, and its writes of the turns before left the
committed state. -/
theorem planAndProposeGuarded_turns (plan : CoordinationSnapshot → CoordinationSnapshot) (turns : Nat → Turn)
    (attempts retries : Nat) :
    ∃ last, attempts ≤ last ∧ last ≤ attempts + retries ∧
      planAndProposeGuarded plan turns attempts retries = (turns last).submit plan ∧
      ∀ k, attempts ≤ k → k < last →
        ∃ s, (turns k).write = .committedIn s ∧ commit s (guardedProposal plan (turns k).committed) = s := by
  induction retries generalizing attempts with
  | zero => exact ⟨attempts, Nat.le_refl _, Nat.le_refl _, rfl, fun k hk hk' => by omega⟩
  | succ retries ih =>
    simp only [planAndProposeGuarded]
    split
    · rename_i hlost
      obtain ⟨last, hle, hlast, heq, hleft⟩ := ih (attempts + 1)
      refine ⟨last, by omega, by omega, heq, fun k hk hk' => ?_⟩
      rcases Nat.eq_or_lt_of_le hk with rfl | hlt
      · exact submitCommand_mismatch hlost
      · exact hleft k hlt hk'
    · exact ⟨attempts, Nat.le_refl _, by omega, rfl, fun k hk hk' => by omega⟩

/-- A loop that succeeds has installed the plan of its last turn, in the generation that turn read. -/
theorem planAndProposeGuarded_ok {plan : CoordinationSnapshot → CoordinationSnapshot} {turns : Nat → Turn}
    {attempts retries : Nat} {r : MetadataRaftResponse}
    (h : planAndProposeGuarded plan turns attempts retries = .ok r) :
    ∃ last s, attempts ≤ last ∧ last ≤ attempts + retries ∧ (turns last).write = .committedIn s ∧
      s.generation = (turns last).committed.generation ∧ r.snapshot = desiredSnapshot plan (turns last).committed := by
  obtain ⟨last, hle, hlast, heq, _⟩ := planAndProposeGuarded_turns plan turns attempts retries
  obtain ⟨s, hs, ha, hr⟩ := submitCommand_ok (heq.symm.trans h)
  exact ⟨last, s, hle, hlast, hs, generation_of_accepted rfl ha, hr.trans (commit_guardedProposal ha)⟩

/-! ## The cluster -/

/-- A proposal in flight: the log position its controller read, and its plan. -/
structure Proposal where
  readAt : Nat
  plan : CoordinationSnapshot → CoordinationSnapshot

/-- One raft group: the committed commands and the proposals in flight. -/
structure Cluster where
  init : CoordinationSnapshot
  log : List MetadataRaftCommand
  inFlight : List Proposal

/-- What can happen next in the cluster. -/
inductive Event where
  /-- A controller reads the state after `readAt` commands, from whichever replica has it, and proposes. -/
  | plan (readAt : Nat) (plan : CoordinationSnapshot → CoordinationSnapshot)
  /-- The proposal number `i` commits. It stays in flight, so a resent write is covered. -/
  | commitProposal (i : Nat)
  /-- Another command commits. -/
  | commitCommand (command : MetadataRaftCommand)

namespace Cluster

/-- A cluster before its first command. -/
def start (init : CoordinationSnapshot) : Cluster := ⟨init, [], []⟩

/-- The committed state after `n` commands. -/
def stateAt (c : Cluster) (n : Nat) : CoordinationSnapshot := Replay.stateAt commit c.init c.log n

/-- The committed state after all commands. -/
def current (c : Cluster) : CoordinationSnapshot := c.stateAt c.log.length

/-- The command a proposal submits. -/
def proposal (c : Cluster) (p : Proposal) : MetadataRaftCommand := guardedProposal p.plan (c.stateAt p.readAt)

/-- One event. -/
def step (c : Cluster) : Event → Option Cluster
  | .plan readAt plan => if readAt ≤ c.log.length then some { c with inFlight := c.inFlight ++ [⟨readAt, plan⟩] } else none
  | .commitProposal i => c.inFlight[i]?.map fun p => { c with log := c.log ++ [c.proposal p] }
  | .commitCommand command => some { c with log := c.log ++ [command] }

/-- The events of a mixed log: plans with `Q`, and other commands with `W` in the state they commit in. -/
def Mixed (Q : (CoordinationSnapshot → CoordinationSnapshot) → Prop)
    (W : CoordinationSnapshot → MetadataRaftCommand → Prop) (c : Cluster) : Event → Prop
  | .plan _ plan => Q plan
  | .commitProposal _ => True
  | .commitCommand command => W c.current command

variable {Q : (CoordinationSnapshot → CoordinationSnapshot) → Prop}
  {W : CoordinationSnapshot → MetadataRaftCommand → Prop}

/-- What a mixed run keeps: proposals read positions of the log, and each entry of the log is another command or a
proposal that read an earlier position. -/
structure Inv (Q : (CoordinationSnapshot → CoordinationSnapshot) → Prop)
    (W : CoordinationSnapshot → MetadataRaftCommand → Prop) (c : Cluster) : Prop where
  reads : ∀ p ∈ c.inFlight, p.readAt ≤ c.log.length ∧ Q p.plan
  entries : ∀ n (h : n < c.log.length), W (c.stateAt n) c.log[n] ∨
    ∃ p : Proposal, Q p.plan ∧ p.readAt ≤ n ∧ c.log[n] = c.proposal p

/-- A longer log has the same states before its end. -/
theorem stateAt_append (c : Cluster) (ds : List MetadataRaftCommand) {n : Nat} (h : n ≤ c.log.length) :
    stateAt { c with log := c.log ++ ds } n = c.stateAt n := Replay.stateAt_append h ds

/-- One more command is applied to the current state. -/
theorem current_snoc (c : Cluster) (d : MetadataRaftCommand) :
    current { c with log := c.log ++ [d] } = commit c.current d := by
  simp only [current, stateAt, List.length_append, List.length_singleton]
  exact Replay.stateAt_snoc d

/-- Appending one entry keeps the invariant. -/
theorem Inv.snoc {c : Cluster} (hc : Inv Q W c) (command : MetadataRaftCommand)
    (hnew : W c.current command ∨ ∃ p : Proposal, Q p.plan ∧ p.readAt ≤ c.log.length ∧ command = c.proposal p) :
    Inv Q W { c with log := c.log ++ [command] } := by
  refine ⟨fun p hp => ⟨by have := (hc.reads p hp).1; simp; omega, (hc.reads p hp).2⟩, fun n hn => ?_⟩
  have hlen : n ≤ c.log.length := by simp at hn; omega
  rw [stateAt_append c _ hlen]
  have hprop : ∀ p : Proposal, p.readAt ≤ n → proposal { c with log := c.log ++ [command] } p = c.proposal p := by
    intro p hp
    simp only [proposal]
    rw [stateAt_append c _ (Nat.le_trans hp hlen)]
  rcases Nat.lt_or_eq_of_le hlen with h | rfl
  · simp only [List.getElem_append_left h]
    rcases hc.entries n h with hw | ⟨p, hq, hr, he⟩
    · exact Or.inl hw
    · exact Or.inr ⟨p, hq, hr, by rw [hprop p hr, he]⟩
  · simp only [List.getElem_concat_length]
    rcases hnew with hw | ⟨p, hq, hr, he⟩
    · exact Or.inl hw
    · exact Or.inr ⟨p, hq, hr, by rw [hprop p hr, he]⟩

/-- What an event does to the cluster. -/
theorem step_cases {c d : Cluster} {e : Event} (h : c.step e = some d) :
    (∃ readAt plan, e = .plan readAt plan ∧ readAt ≤ c.log.length ∧
      d = { c with inFlight := c.inFlight ++ [⟨readAt, plan⟩] }) ∨
    (∃ i p, e = .commitProposal i ∧ c.inFlight[i]? = some p ∧ d = { c with log := c.log ++ [c.proposal p] }) ∨
    (∃ command, e = .commitCommand command ∧ d = { c with log := c.log ++ [command] }) := by
  cases e with
  | plan readAt plan =>
    simp only [step] at h
    split at h
    · rename_i hr
      exact Or.inl ⟨readAt, plan, rfl, hr, (Option.some.inj h).symm⟩
    · cases h
  | commitProposal i =>
    obtain ⟨p, hp, rfl⟩ := Option.map_eq_some_iff.1 h
    exact Or.inr (Or.inl ⟨i, p, rfl, hp, rfl⟩)
  | commitCommand command => exact Or.inr (Or.inr ⟨command, rfl, (Option.some.inj h).symm⟩)

theorem step_inv {c d : Cluster} {e : Event} (hg : Mixed Q W c e) (he : c.step e = some d) (hc : Inv Q W c) :
    Inv Q W d := by
  obtain ⟨readAt, plan, rfl, hr, rfl⟩ | ⟨i, p, rfl, hp, rfl⟩ | ⟨command, rfl, rfl⟩ := step_cases he
  · refine ⟨fun p hp => ?_, hc.entries⟩
    simp only [List.mem_append, List.mem_singleton] at hp
    rcases hp with hp | rfl
    · exact hc.reads p hp
    · exact ⟨hr, hg⟩
  · have hr := hc.reads p (List.mem_of_getElem? hp)
    exact hc.snoc _ (Or.inr ⟨p, hr.2, hr.1, rfl⟩)
  · exact hc.snoc _ (Or.inl hg)

/-- Every mixed run keeps the invariant. -/
theorem run_inv {init : CoordinationSnapshot} {es : List Event} {c : Cluster}
    (h : Run step (Mixed Q W) (start init) es c) : Inv Q W c :=
  h.invariant (fun _ _ _ hg he hs => step_inv hg he hs)
    ⟨by simp [start], fun n hn => absurd hn (Nat.not_lt_zero n)⟩

/-- A run does not change where the cluster started. -/
theorem run_init {init : CoordinationSnapshot} {es : List Event} {c : Cluster}
    (h : Run step (Mixed Q W) (start init) es c) : c.init = init := by
  refine h.invariant (P := fun c => c.init = init) (fun c e d _ he hs => ?_) rfl
  obtain ⟨_, _, _, _, rfl⟩ | ⟨_, _, _, _, rfl⟩ | ⟨_, _, rfl⟩ := step_cases he <;> exact hs

theorem stateAt_succ {c : Cluster} {n : Nat} (h : n < c.log.length) :
    c.stateAt (n + 1) = commit (c.stateAt n) c.log[n] := Replay.stateAt_succ h

/-- Along a log of merges and proposals the generation versions the topology. -/
theorem follows {c : Cluster} (hc : Inv Q W c) (hW : ∀ s d, W s d → d.payload = none)
    (hgen : ∀ n ≤ c.log.length, (c.stateAt n).generation < u64Max) {i j : Nat} (hij : i ≤ j) (hj : j ≤ c.log.length) :
    Follows (c.stateAt i) (c.stateAt j) := by
  refine Replay.stateAt_rel Version.Follows.refl (fun _ _ _ => Version.Follows.trans) (fun n hn => ?_) hij hj
  show Follows (c.stateAt n) (c.stateAt (n + 1))
  rw [stateAt_succ hn]
  apply commit_follows (hgen n (by omega))
  intro t ht ha
  rcases hc.entries n hn with hw | ⟨p, _, hr, he⟩
  · rw [hW _ _ hw] at ht; cases ht
  · rw [he] at ht ha
    have hg : (c.stateAt n).generation = (c.stateAt p.readAt).generation := generation_of_accepted rfl ha
    cases ht
    rw [hg, UInt64.lt_iff_toNat_lt, desiredSnapshot_generation, toNat_add_one (hgen _ (by omega))]
    omega

/-- **No lost update.** In a log of guarded proposals and commands that replace no snapshot, an accepted proposal finds
generation and topology as its controller read them, at every position since that read, and raises the generation by
one. -/
theorem accepted_proposal_current {init : CoordinationSnapshot} {es : List Event} {c : Cluster}
    (h : Run step (Mixed (fun _ => True) (fun _ d => d.payload = none)) (start init) es c)
    (hgen : ∀ n ≤ c.log.length, (c.stateAt n).generation < u64Max) {p : Proposal} (hp : p ∈ c.inFlight)
    (ha : Accepted c.current (c.proposal p)) :
    (∀ k, p.readAt ≤ k → k ≤ c.log.length →
      (c.stateAt k).generation = c.current.generation ∧ SameTopology (c.stateAt k) c.current) ∧
    gen (commit c.current (c.proposal p)) = gen c.current + 1 := by
  have hinv := run_inv h
  have hread := (hinv.reads p hp).1
  have hg : c.current.generation = (c.stateAt p.readAt).generation := generation_of_accepted rfl ha
  refine ⟨fun k hk hk' => ?_, ?_⟩
  · -- the generation cannot have moved between the read and position `k`, nor after it
    have h₁ := (follows hinv (fun _ _ h => h) hgen hk hk').le
    have h₂ := follows hinv (fun _ _ h => h) hgen hk' (Nat.le_refl _)
    have he : gen (c.stateAt k) = gen c.current := by
      have := h₂.le
      simp only [gen, current] at hg h₁ this ⊢
      rw [← hg] at h₁
      omega
    exact ⟨UInt64.toNat_inj.1 he, sameTopology_iff.2 (h₂.view_eq he)⟩
  · rw [proposal, commit_guardedProposal ha]
    simp only [gen, desiredSnapshot_generation]
    rw [toNat_add_one (hgen _ hread), hg]

/-- A broker whose heartbeat label is `beat`. -/
def brokerA (beat : String) : NodeInfo :=
  { NodeInfo.new "broker-a" "127.0.0.1:9000" none with
    labels := (∅ : BTreeMap String String).insert "heartbeat_unix_ms" beat }

/-- The committed state after `broker-a` registered. -/
def oneBroker : CoordinationSnapshot := commit .default (.registerNode (brokerA "1"))

/-- A plan that was read before a heartbeat and is still in flight after it. -/
def heartbeatRace (plan : CoordinationSnapshot → CoordinationSnapshot) : Cluster :=
  ⟨oneBroker, [.registerNode (brokerA "2")], [⟨0, plan⟩]⟩

theorem heartbeatRace_generations {plan : CoordinationSnapshot → CoordinationSnapshot} {n : Nat}
    (h : n ≤ (heartbeatRace plan).log.length) : ((heartbeatRace plan).stateAt n).generation < u64Max := by
  have : n = 0 ∨ n = 1 := by simp only [heartbeatRace, List.length_cons, List.length_nil] at h; omega
  rcases this with rfl | rfl
  · show oneBroker.generation < u64Max
    decide
  · show (commit oneBroker (.registerNode (brokerA "2"))).generation < u64Max
    decide

theorem accepted_proposal_current_race :
    Accepted (heartbeatRace id).current ((heartbeatRace id).proposal ⟨0, id⟩) ∧
      gen (commit (heartbeatRace id).current ((heartbeatRace id).proposal ⟨0, id⟩)) = 2 := by
  have hrun : Run step (Mixed (fun _ => True) (fun _ d => d.payload = none)) (start oneBroker)
      [.plan 0 id, .commitCommand (.registerNode (brokerA "2"))] (heartbeatRace id) :=
    .cons trivial rfl (.cons rfl rfl (.nil _))
  have ha : Accepted (heartbeatRace id).current ((heartbeatRace id).proposal ⟨0, id⟩) := by decide
  refine ⟨ha, ?_⟩
  rw [(accepted_proposal_current hrun (fun n h => heartbeatRace_generations h) (List.mem_singleton.2 rfl) ha).2]
  decide

/-! ## Fencing -/

/-- The caller's duty on removals: a plan keeps every resource that is assigned in what it was given. -/
def KeepsAssigned (plan : CoordinationSnapshot → CoordinationSnapshot) : Prop :=
  ∀ s (r : ResourceIdentity), r ∈ s.assignments → r ∈ (plan s).assignments

/-- Every resource assigned in `s` is assigned in `t`, under an epoch that is not smaller, and larger when the owner
changed. -/
def Fenced (s t : CoordinationSnapshot) : Prop :=
  ∀ (r : ResourceIdentity) a, s.assignments[r]? = some a →
    ∃ b, t.assignments[r]? = some b ∧ a.epoch ≤ b.epoch ∧ (a.owner ≠ b.owner → a.epoch < b.epoch)

theorem Fenced.refl (s : CoordinationSnapshot) : Fenced s s := fun _ a ha =>
  ⟨a, ha, UInt64.le_refl _, fun h => absurd rfl h⟩

theorem Fenced.trans {s t u : CoordinationSnapshot} (h : Fenced s t) (h' : Fenced t u) : Fenced s u := by
  intro r a ha
  obtain ⟨b, hb, hab, hab'⟩ := h r a ha
  obtain ⟨d, hd, hbd, hbd'⟩ := h' r b hb
  refine ⟨d, hd, UInt64.le_trans hab hbd, fun ho => ?_⟩
  by_cases hob : a.owner = b.owner
  · exact UInt64.lt_of_le_of_lt hab (hbd' (hob ▸ ho))
  · exact UInt64.lt_of_lt_of_le (hab' hob) hbd

/-- Under one epoch a resource has one owner. -/
theorem Fenced.owner_eq {s t : CoordinationSnapshot} (h : Fenced s t) {r : ResourceIdentity}
    {a b : PartitionAssignment} (ha : s.assignments[r]? = some a) (hb : t.assignments[r]? = some b)
    (he : a.epoch = b.epoch) : a.owner = b.owner := by
  obtain ⟨b', hb', _, hlt⟩ := h r a ha
  rw [hb] at hb'
  cases hb'
  by_contra ho
  exact UInt64.lt_irrefl _ (he ▸ hlt ho)

/-- Stamping fences a plan against the snapshot it was made from, and keeps the epoch with the owner. -/
theorem desiredSnapshot_fenced {plan : CoordinationSnapshot → CoordinationSnapshot} {s : CoordinationSnapshot}
    (hk : KeepsAssigned plan) (he : ∀ (r : ResourceIdentity) a, s.assignments[r]? = some a → a.epoch < u64Max)
    {r : ResourceIdentity} {a : PartitionAssignment} (ha : s.assignments[r]? = some a) :
    ∃ b, (desiredSnapshot plan s).assignments[r]? = some b ∧ a.epoch ≤ b.epoch ∧
      (a.owner ≠ b.owner → a.epoch < b.epoch) ∧ (a.owner = b.owner → a.epoch = b.epoch) := by
  have hmem : r ∈ (plan s).assignments := hk s r (by rw [ExtTreeMap.mem_iff_isSome_getElem?, ha]; rfl)
  obtain ⟨b, hb⟩ := Option.isSome_iff_exists.1 (ExtTreeMap.mem_iff_isSome_getElem?.1 hmem)
  refine ⟨stampAssignment s r b, by rw [getElem?_desiredSnapshot, hb]; rfl, ?_⟩
  by_cases ho : a.owner = b.owner
  · have hep : (stampAssignment s r b).epoch = a.epoch := stampAssignment_kept ha ho
    exact ⟨UInt64.le_of_eq hep.symm, fun h => absurd ho h, fun _ => hep.symm⟩
  · have hlt : a.epoch < (stampAssignment s r b).epoch := by
      rw [stampAssignment_moved ha ho, UInt64.lt_iff_toNat_lt, toNat_add_one (he r a ha)]
      omega
    exact ⟨UInt64.le_of_lt hlt, fun _ => hlt, fun h => absurd h ho⟩

/-- An epoch of a stamped plan is 1, or at most one more than the epoch of the same resource in what was read. -/
theorem desiredSnapshot_epoch_le {plan : CoordinationSnapshot → CoordinationSnapshot} {s : CoordinationSnapshot}
    (he : ∀ (r : ResourceIdentity) a, s.assignments[r]? = some a → a.epoch < u64Max) {r : ResourceIdentity}
    {b : PartitionAssignment} (hb : (desiredSnapshot plan s).assignments[r]? = some b) :
    b.epoch.toNat = 1 ∨ ∃ a, s.assignments[r]? = some a ∧ b.epoch.toNat ≤ a.epoch.toNat + 1 := by
  rw [getElem?_desiredSnapshot, Option.map_eq_some_iff] at hb
  obtain ⟨b', _, rfl⟩ := hb
  cases ha : s.assignments[r]? with
  | none => left; rw [stampAssignment_new ha]; rfl
  | some a =>
    refine Or.inr ⟨a, rfl, ?_⟩
    by_cases ho : a.owner = b'.owner
    · rw [stampAssignment_kept ha ho]; omega
    · exact Nat.le_of_eq (by rw [stampAssignment_moved ha ho, toNat_add_one (he r a ha)])

/-- `n` more commits cannot overflow the generation or an epoch of `s`. -/
structure Headroom (n : Nat) (s : CoordinationSnapshot) : Prop where
  generation : gen s + n + 1 < UInt64.size
  epochs : ∀ (r : ResourceIdentity) a, s.assignments[r]? = some a → a.epoch.toNat + n + 1 < UInt64.size

/-- A proposal raises the generation by at most one. -/
theorem gen_commit_proposal_le {plan : CoordinationSnapshot → CoordinationSnapshot} {read s : CoordinationSnapshot}
    (hg : s.generation < u64Max) : gen (commit s (guardedProposal plan read)) ≤ gen s + 1 := by
  by_cases ha : Accepted s (guardedProposal plan read)
  · have he : s.generation = read.generation := generation_of_accepted rfl ha
    rw [commit_guardedProposal ha]
    simp only [gen, desiredSnapshot_generation]
    exact Nat.le_of_eq (by rw [← he, toNat_add_one hg])
  · rw [commit_rejected ha]; omega

/-- Generations grow by at most one a commit. -/
theorem gen_stateAt_le {c : Cluster} (hc : Inv Q W c) (hW : ∀ s d, W s d → d.payload = none)
    (hg : gen c.init + c.log.length + 1 < UInt64.size) : ∀ n ≤ c.log.length, gen (c.stateAt n) ≤ gen c.init + n
  | 0, _ => Nat.le_refl _
  | n + 1, hn => by
    have ih := gen_stateAt_le hc hW hg n (by omega)
    have hlt : (c.stateAt n).generation < u64Max := lt_u64Max_iff.2 (by unfold gen at ih hg; omega)
    have hstep : gen (c.stateAt (n + 1)) ≤ gen (c.stateAt n) + 1 := by
      rw [stateAt_succ (by omega)]
      rcases hc.entries n (by omega) with hw | ⟨p, _, _, he⟩
      · exact gen_commit_le (hW _ _ hw) hlt
      · rw [he]; exact gen_commit_proposal_le hlt
    omega

/-- What the entry at a position does to the assignments: nothing, or it installs a plan stamped against these very
assignments. -/
theorem entry_effect {c : Cluster} (hc : Inv Q W c) (hW : ∀ s d, W s d → d.writesAssignments = false)
    (hgen : ∀ n ≤ c.log.length, (c.stateAt n).generation < u64Max) {n : Nat} (hn : n < c.log.length) :
    (c.stateAt (n + 1)).assignments = (c.stateAt n).assignments ∨
    ∃ p : Proposal, Q p.plan ∧ p.readAt ≤ n ∧ c.stateAt (n + 1) = desiredSnapshot p.plan (c.stateAt p.readAt) ∧
      (c.stateAt p.readAt).assignments = (c.stateAt n).assignments := by
  have hW' : ∀ s d, W s d → d.payload = none := fun s d hw => payload_of_writesAssignments (hW s d hw)
  rw [stateAt_succ hn]
  rcases hc.entries n hn with hw | ⟨p, hq, hr, he⟩
  · exact Or.inl (commit_assignments _ (hW _ _ hw))
  · by_cases ha : Accepted (c.stateAt n) c.log[n]
    · right
      rw [he] at ha ⊢
      have hg : (c.stateAt n).generation = (c.stateAt p.readAt).generation := generation_of_accepted rfl ha
      have hf := follows hc hW' hgen hr (Nat.le_of_lt hn)
      have ht := hf.view_eq (by simp only [gen, hg])
      exact ⟨p, hq, hr, commit_guardedProposal ha, congrArg Prod.fst ht⟩
    · exact Or.inl (by rw [commit_rejected ha])

/-- Every commit leaves room for one commit less. -/
theorem headroom_stateAt {c : Cluster} (hc : Inv Q W c) (hW : ∀ s d, W s d → d.writesAssignments = false)
    (hgen : ∀ n ≤ c.log.length, (c.stateAt n).generation < u64Max) (hroom : Headroom c.log.length c.init) :
    ∀ n ≤ c.log.length, ∀ (r : ResourceIdentity) a, (c.stateAt n).assignments[r]? = some a →
      a.epoch.toNat + (c.log.length - n) + 1 < UInt64.size
  | 0, _, r, a, ha => hroom.epochs r a ha
  | n + 1, hn, r, b, hb => by
    have ih := headroom_stateAt hc hW hgen hroom n (by omega)
    rcases entry_effect hc hW hgen (n := n) (by omega) with heq | ⟨p, _, _, heq, hsame⟩
    · rw [heq] at hb
      have := ih r b hb
      omega
    · rw [heq] at hb
      have hlt : ∀ (r : ResourceIdentity) a, (c.stateAt p.readAt).assignments[r]? = some a → a.epoch < u64Max := by
        intro r a ha
        rw [hsame] at ha
        exact lt_u64Max_iff.2 (by have := ih r a ha; omega)
      rcases desiredSnapshot_epoch_le hlt hb with h1 | ⟨a, ha, hle⟩
      · have := hroom.generation
        omega
      · rw [hsame] at ha
        have := ih r a ha
        omega

/-- With room for the whole log no generation is the last one. -/
theorem Inv.generations {c : Cluster} (hc : Inv Q (fun _ d => d.writesAssignments = false) c)
    (hroom : Headroom c.log.length c.init) {n : Nat} (hn : n ≤ c.log.length) :
    (c.stateAt n).generation < u64Max := by
  have hle := gen_stateAt_le hc (fun _ _ => payload_of_writesAssignments) hroom.generation n hn
  have hlt := hroom.generation
  exact lt_u64Max_iff.2 (by unfold gen at *; omega)

/-- Nor is an epoch. -/
theorem Inv.epochs {c : Cluster} (hc : Inv Q (fun _ d => d.writesAssignments = false) c)
    (hroom : Headroom c.log.length c.init) {n : Nat} (hn : n ≤ c.log.length) (r : ResourceIdentity)
    (a : PartitionAssignment) (ha : (c.stateAt n).assignments[r]? = some a) : a.epoch < u64Max := by
  have hle := headroom_stateAt hc (fun _ _ h => h) (fun _ hn => hc.generations hroom hn) hroom n hn r a ha
  exact lt_u64Max_iff.2 (by omega)

/-- One commit fences every assigned resource, and keeps the epoch with the owner. -/
theorem fenced_succ {c : Cluster} (hc : Inv KeepsAssigned W c) (hW : ∀ s d, W s d → d.writesAssignments = false)
    (hgen : ∀ n ≤ c.log.length, (c.stateAt n).generation < u64Max) (hroom : Headroom c.log.length c.init) {n : Nat}
    (hn : n < c.log.length) {r : ResourceIdentity} {a : PartitionAssignment}
    (ha : (c.stateAt n).assignments[r]? = some a) :
    ∃ b, (c.stateAt (n + 1)).assignments[r]? = some b ∧ a.epoch ≤ b.epoch ∧
      (a.owner ≠ b.owner → a.epoch < b.epoch) ∧ (a.owner = b.owner → a.epoch = b.epoch) := by
  rcases entry_effect hc hW hgen hn with heq | ⟨p, hq, _, heq, hsame⟩
  · exact ⟨a, by rw [heq, ha], UInt64.le_refl _, fun h => absurd rfl h, fun _ => rfl⟩
  · rw [heq]
    refine desiredSnapshot_fenced hq (fun r a ha => ?_) (by rw [hsame, ha])
    rw [hsame] at ha
    have := headroom_stateAt hc hW hgen hroom n (by omega) r a ha
    exact lt_u64Max_iff.2 (by omega)

/-- **Fencing.** In a log of guarded proposals whose plans drop no assigned resource and of commands that write no
assignment, from a state with room for the whole log: between any two committed states, every assigned resource stays
assigned, its epoch does not decrease, and it grows when the owner differs; a commit that keeps the owner keeps the
epoch. -/
theorem fenced_history {init : CoordinationSnapshot} {es : List Event} {c : Cluster}
    (h : Run step (Mixed KeepsAssigned (fun _ d => d.writesAssignments = false)) (start init) es c)
    (hroom : Headroom c.log.length init) :
    (∀ i j, i ≤ j → j ≤ c.log.length → Fenced (c.stateAt i) (c.stateAt j)) ∧
    (∀ i j, i ≤ c.log.length → j ≤ c.log.length → ∀ (r : ResourceIdentity) a b,
      (c.stateAt i).assignments[r]? = some a → (c.stateAt j).assignments[r]? = some b → a.epoch = b.epoch →
      a.owner = b.owner) ∧
    (∀ n < c.log.length, ∀ (r : ResourceIdentity) a b, (c.stateAt n).assignments[r]? = some a →
      (c.stateAt (n + 1)).assignments[r]? = some b → a.owner = b.owner → a.epoch = b.epoch) := by
  have hinv := run_inv h
  have hinit := run_init h
  subst hinit
  have hgen : ∀ n ≤ c.log.length, (c.stateAt n).generation < u64Max := by
    intro n hn
    have := gen_stateAt_le hinv (fun _ _ => payload_of_writesAssignments) hroom.generation n hn
    have := hroom.generation
    exact lt_u64Max_iff.2 (by unfold gen at *; omega)
  have hfence : ∀ i j, i ≤ j → j ≤ c.log.length → Fenced (c.stateAt i) (c.stateAt j) := by
    intro i j hij hj
    refine Replay.stateAt_rel Fenced.refl (fun _ _ _ => Fenced.trans) (fun n hn r a ha => ?_) hij hj
    obtain ⟨b, hb, hle, hlt, _⟩ := fenced_succ hinv (fun _ _ h => h) hgen hroom hn ha
    exact ⟨b, hb, hle, hlt⟩
  refine ⟨hfence, fun i j hi hj r a b ha hb he => ?_, ?_⟩
  · rcases Nat.le_total i j with hij | hji
    · exact (hfence i j hij hj).owner_eq ha hb he
    · exact ((hfence j i hji hi).owner_eq hb ha he.symm).symm
  · intro n hn r a b ha hb ho
    obtain ⟨b', hb', _, _, hkeep⟩ := fenced_succ hinv (fun _ _ h => h) hgen hroom hn ha
    rw [hb] at hb'
    cases hb'
    exact hkeep ho

/-- A queue partition. -/
def queue : ResourceIdentity := ⟨"ns", "contended", 0, none⟩

/-- The plan that gives the queue to `owner`; the epoch it writes is overwritten by the stamp. -/
def assignQueue (owner : String) (s : CoordinationSnapshot) : CoordinationSnapshot :=
  { s with assignments := s.assignments.insert queue (.new queue owner [] 0) }

theorem assignQueue_keeps (owner : String) : KeepsAssigned (assignQueue owner) := by
  intro s r hr
  simp [assignQueue, ExtTreeMap.mem_insert, hr]

/-- Two controllers that both read the empty state, with both proposals committed. -/
def ownerRace : Cluster where
  init := .default
  log := [guardedProposal (assignQueue "broker-a") .default, guardedProposal (assignQueue "broker-b") .default]
  inFlight := [⟨0, assignQueue "broker-a"⟩, ⟨0, assignQueue "broker-b"⟩]

theorem fenced_history_race : Fenced (ownerRace.stateAt 1) (ownerRace.stateAt 2) := by
  have hrun : Run step (Mixed KeepsAssigned (fun _ d => d.writesAssignments = false)) (start .default)
      [.plan 0 (assignQueue "broker-a"), .plan 0 (assignQueue "broker-b"), .commitProposal 0, .commitProposal 1]
      ownerRace :=
    .cons (assignQueue_keeps _) rfl (.cons (assignQueue_keeps _) rfl (.cons trivial rfl (.cons trivial rfl (.nil _))))
  have hroom : Headroom ownerRace.log.length .default := by
    refine ⟨by decide, fun r a ha => ?_⟩
    simp [CoordinationSnapshot.default] at ha
  exact (fenced_history hrun hroom).1 1 2 (by decide) (by decide)

end Cluster

end Ganglion
