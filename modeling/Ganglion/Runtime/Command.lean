import Ganglion.Core.Types
import Ganglion.Lib.Replay

/-!
# Commands of the replicated state machine

`MetadataRaftCommand` and what the closure `apply_command` of `GanglionStateMachine::apply` does with one
(`applyCommand`): the state it leaves, the rejection it answers and whether it raises the flag that wakes watchers.

* `applyCommand_outcome` and `commit_cases` say all a command can do: be rejected, leave the topology and the generation,
  raise the generation by one, or replace the whole snapshot by its payload.
* `commit_follows`: the generation versions the topology as long as it does not overflow and no command replaces the
  snapshot under the same generation.
* `commit_assignments`: only the snapshot commands and `UpdatePartitionGuarded` write assignments.
-/

namespace Ganglion

open Std

/-- `MetadataRaftCommand`. -/
inductive MetadataRaftCommand where
  | applySnapshot (snapshot : CoordinationSnapshot)
  | applySnapshotGuarded (expectedGeneration : UInt64) (snapshot : CoordinationSnapshot)
  | updatePartitionGuarded (expectedGeneration : UInt64) (assignment : PartitionAssignment)
      (attributes : BTreeMap String (Option String))
  | registerNode (node : NodeInfo)
  | deregisterNode (nodeId : String)
  | registerResource (resource : ResourceIdentity)
  | registerResourceWithInitialAttribute (resource : ResourceIdentity) (key value : String)
  | deregisterResource (resource : ResourceIdentity)
  | deregisterResourceWithAttribute (resource : ResourceIdentity) (key : String) (expected : Option String)
  | setAttribute (key value : String)
  | removeAttribute (key : String)
  | compareAndSetAttribute (key : String) (expected : Option String) (value : String)
  | compareAndSetAttributeGuarded (expectedGeneration : UInt64) (key : String) (expected : Option String)
      (value : String)
  | deregisterResourceReplacingAttribute (resource : ResourceIdentity) (key : String) (expected : Option String)
      (value : String)
  deriving DecidableEq

/-- `MetadataRejection`. -/
inductive MetadataRejection where
  | staleGeneration
  | generationMismatch (expected actual : UInt64)
  | attributeMismatch (key : String) (actual : Option String)
  deriving DecidableEq

/-- What `apply_command` leaves behind: the committed state, its answer and the flag `state_changed` it raises. -/
structure Applied where
  state : CoordinationSnapshot
  rejection : Option MetadataRejection
  stateChanged : Bool
  deriving DecidableEq

namespace Applied

/-- `return Some(rejection)`. -/
def reject (s : CoordinationSnapshot) (r : MetadataRejection) : Applied := ⟨s, some r, false⟩

/-- `return None` without touching the flag. -/
def silent (s : CoordinationSnapshot) : Applied := ⟨s, none, false⟩

/-- `generation += 1; state_changed = true; return None`. -/
def bump (s : CoordinationSnapshot) : Applied := ⟨{ s with generation := s.generation + 1 }, none, true⟩

end Applied

open Applied

/-- The loop over the attributes of `UpdatePartitionGuarded`. -/
def mergeAttributes (attributes : BTreeMap String String) (updates : BTreeMap String (Option String)) :
    BTreeMap String String :=
  updates.toList.foldl (fun m p =>
    match p.2 with
    | some value => m.insert p.1 value
    | none => m.erase p.1) attributes

/-- The tail of `apply_command` that both snapshot commands fall through to. -/
def replaceSnapshot (s snapshot : CoordinationSnapshot) : Applied :=
  if snapshot.generation < s.generation then reject s .staleGeneration else ⟨snapshot, none, true⟩

/-- The branch of `CompareAndSetAttribute` and the end of the branch of its guarded form. -/
def setIfExpected (s : CoordinationSnapshot) (key : String) (expected : Option String) (value : String) : Applied :=
  let actual := s.attributes[key]?
  if actual ≠ expected then reject s (.attributeMismatch key actual)
  else if actual ≠ some value then bump { s with attributes := s.attributes.insert key value }
  else silent s

/-- The branch of the two conditional deregistrations; `retirement` is `retirement_attribute`. -/
def deregisterIfExpected (s : CoordinationSnapshot) (resource : ResourceIdentity) (key : String)
    (expected retirement : Option String) : Applied :=
  let actual := s.attributes[key]?
  if actual ≠ expected then reject s (.attributeMismatch key actual)
  else
    let removed := decide (resource ∈ s.resources)
    let s' := { s with resources := s.resources.erase resource }
    match retirement with
    | some value =>
      let s'' := { s' with attributes := s'.attributes.insert key value }
      if removed || decide (actual ≠ some value) then bump s'' else silent s''
    | none =>
      let s'' := { s' with attributes := s'.attributes.erase key }
      if removed || actual.isSome then bump s'' else silent s''

/-- `apply_command`. -/
def applyCommand (s : CoordinationSnapshot) : MetadataRaftCommand → Applied
  | .applySnapshot snapshot => replaceSnapshot s snapshot
  | .applySnapshotGuarded expectedGeneration snapshot =>
    if s.generation ≠ expectedGeneration then reject s (.generationMismatch expectedGeneration s.generation)
    else replaceSnapshot s snapshot
  | .updatePartitionGuarded expectedGeneration assignment attributes =>
    if s.generation ≠ expectedGeneration then reject s (.generationMismatch expectedGeneration s.generation)
    else bump { s with
      assignments := s.assignments.insert assignment.resource assignment
      attributes := mergeAttributes s.attributes attributes }
  | .registerNode node =>
    let nodes := s.nodes.insert node.nodeId node
    match s.nodes[node.nodeId]? with
    | some existing =>
      if existing = node then silent s
      -- a label-only refresh: the record changes, the cluster version does not
      else if existing.endpoint = node.endpoint ∧ existing.adminEndpoint = node.adminEndpoint then
        silent { s with nodes := nodes }
      else bump { s with nodes := nodes }
    | none => bump { s with nodes := nodes }
  | .deregisterNode nodeId =>
    if nodeId ∈ s.nodes then bump { s with nodes := s.nodes.erase nodeId } else silent s
  | .registerResource resource =>
    if resource ∈ s.resources then silent s else bump { s with resources := s.resources.insert resource }
  | .registerResourceWithInitialAttribute resource key value =>
    if resource ∈ s.resources then silent s
    else bump { s with
      attributes := if resource ∈ s.assignments then s.attributes else s.attributes.insert key value
      resources := s.resources.insert resource }
  | .deregisterResource resource =>
    if resource ∈ s.resources then bump { s with resources := s.resources.erase resource } else silent s
  | .deregisterResourceWithAttribute resource key expected => deregisterIfExpected s resource key expected none
  | .deregisterResourceReplacingAttribute resource key expected value =>
    deregisterIfExpected s resource key expected (some value)
  | .setAttribute key value =>
    if s.attributes[key]? ≠ some value then bump { s with attributes := s.attributes.insert key value } else silent s
  | .removeAttribute key =>
    if key ∈ s.attributes then bump { s with attributes := s.attributes.erase key } else silent s
  | .compareAndSetAttributeGuarded expectedGeneration key expected value =>
    if s.generation ≠ expectedGeneration then reject s (.generationMismatch expectedGeneration s.generation)
    else setIfExpected s key expected value
  | .compareAndSetAttribute key expected value => setIfExpected s key expected value

/-! ## What a command can do -/

/-- The snapshot a command would install, for the two commands that replace the committed snapshot. -/
def MetadataRaftCommand.payload : MetadataRaftCommand → Option CoordinationSnapshot
  | .applySnapshot snapshot => some snapshot
  | .applySnapshotGuarded _ snapshot => some snapshot
  | _ => none

/-- The generation a guarded command expects. -/
def MetadataRaftCommand.expectedGeneration : MetadataRaftCommand → Option UInt64
  | .applySnapshotGuarded g _ => some g
  | .updatePartitionGuarded g _ _ => some g
  | .compareAndSetAttributeGuarded g _ _ _ => some g
  | _ => none

namespace CoordinationSnapshot

theorem SameTopology.refl (s : CoordinationSnapshot) : SameTopology s s := sameTopology_iff.2 rfl

/-- Replacing a node record by one with the same address. -/
theorem sameTopology_refresh {s : CoordinationSnapshot} {n : NodeInfo} {existing : NodeInfo}
    (h : s.nodes[n.nodeId]? = some existing) (ha : existing.address = n.address) :
    SameTopology s { s with nodes := s.nodes.insert n.nodeId n } := by
  rw [sameTopology_iff]
  simp only [topology, Prod.mk.injEq, true_and, map_address_eq_iff]
  intro id
  rw [ExtTreeMap.getElem?_insert]
  split
  · rename_i he
    rw [← LawfulEqCmp.eq_of_compare he, h]
    simp [ha]
  · rfl

end CoordinationSnapshot

open CoordinationSnapshot

/-- All outcomes of one command on `s`. -/
inductive Outcome (s : CoordinationSnapshot) (c : MetadataRaftCommand) : Applied → Prop where
  | rejected (r : MetadataRejection) : Outcome s c (reject s r)
  | silent (t : CoordinationSnapshot) : t.generation = s.generation → SameTopology s t → c.payload = none →
      Outcome s c (silent t)
  | bumped (t : CoordinationSnapshot) : t.generation = s.generation → c.payload = none → Outcome s c (bump t)
  | replaced (t : CoordinationSnapshot) : c.payload = some t → s.generation ≤ t.generation → Outcome s c ⟨t, none, true⟩

theorem replaceSnapshot_outcome {s t : CoordinationSnapshot} {c : MetadataRaftCommand} (hc : c.payload = some t) :
    Outcome s c (replaceSnapshot s t) := by
  unfold replaceSnapshot
  split
  · exact .rejected _
  · rename_i h
    exact .replaced t hc (UInt64.not_lt.1 h)

theorem setIfExpected_outcome {s : CoordinationSnapshot} {c : MetadataRaftCommand} (hc : c.payload = none)
    (key : String) (expected : Option String) (value : String) : Outcome s c (setIfExpected s key expected value) := by
  unfold setIfExpected
  dsimp only
  split
  · exact .rejected _
  · split
    · exact .bumped _ rfl hc
    · exact .silent s rfl (.refl s) hc

/-- The catalogue without a resource it does not hold. -/
theorem erase_resource {s : CoordinationSnapshot} {r : ResourceIdentity} (h : r ∉ s.resources) :
    s.resources.erase r = s.resources := by
  apply ExtTreeSet.ext_mem
  intro a
  rw [ExtTreeSet.mem_erase]
  constructor
  · exact And.right
  · intro ha
    refine ⟨fun he => h ?_, ha⟩
    rwa [LawfulEqCmp.eq_of_compare he]

theorem deregisterIfExpected_outcome {s : CoordinationSnapshot} {c : MetadataRaftCommand} (hc : c.payload = none)
    (r : ResourceIdentity) (key : String) (expected retirement : Option String) :
    Outcome s c (deregisterIfExpected s r key expected retirement) := by
  unfold deregisterIfExpected
  dsimp only
  split
  · exact .rejected _
  cases retirement with
  | some value =>
    dsimp only
    split
    · exact .bumped _ rfl hc
    · rename_i h
      simp only [Bool.or_eq_true, decide_eq_true_eq, not_or, Decidable.not_not] at h
      refine .silent _ rfl ⟨rfl, (erase_resource h.1).symm, (OrdMap.insert_eq_self h.2).symm, fun _ => Iff.rfl, ?_⟩ hc
      intro id n m hn hm
      simp_all
  | none =>
    dsimp only
    split
    · exact .bumped _ rfl hc
    · rename_i h
      simp only [Bool.or_eq_true, decide_eq_true_eq, not_or, Option.not_isSome_iff_eq_none] at h
      refine .silent _ rfl ⟨rfl, (erase_resource h.1).symm, (OrdMap.erase_eq_self h.2).symm, fun _ => Iff.rfl, ?_⟩ hc
      intro id n m hn hm
      simp_all

theorem applyCommand_outcome (s : CoordinationSnapshot) (c : MetadataRaftCommand) : Outcome s c (applyCommand s c) := by
  cases c with
  | applySnapshot snapshot => exact replaceSnapshot_outcome rfl
  | applySnapshotGuarded g snapshot =>
    simp only [applyCommand]
    split
    · exact .rejected _
    · exact replaceSnapshot_outcome rfl
  | updatePartitionGuarded g a attrs =>
    simp only [applyCommand]
    split
    · exact .rejected _
    · exact .bumped _ rfl rfl
  | registerNode n =>
    simp only [applyCommand]
    split
    · rename_i existing h
      split
      · exact .silent s rfl (.refl s) rfl
      · split
        · rename_i he
          exact .silent _ rfl (sameTopology_refresh h (Prod.ext he.1 he.2)) rfl
        · exact .bumped _ rfl rfl
    · exact .bumped _ rfl rfl
  | deregisterNode id =>
    simp only [applyCommand]
    split
    · exact .bumped _ rfl rfl
    · exact .silent s rfl (.refl s) rfl
  | registerResource r =>
    simp only [applyCommand]
    split
    · exact .silent s rfl (.refl s) rfl
    · exact .bumped _ rfl rfl
  | registerResourceWithInitialAttribute r key value =>
    simp only [applyCommand]
    split
    · exact .silent s rfl (.refl s) rfl
    · exact .bumped _ rfl rfl
  | deregisterResource r =>
    simp only [applyCommand]
    split
    · exact .bumped _ rfl rfl
    · exact .silent s rfl (.refl s) rfl
  | deregisterResourceWithAttribute r key expected => exact deregisterIfExpected_outcome rfl r key expected none
  | deregisterResourceReplacingAttribute r key expected value =>
    exact deregisterIfExpected_outcome rfl r key expected (some value)
  | setAttribute key value =>
    simp only [applyCommand]
    split
    · exact .bumped _ rfl rfl
    · exact .silent s rfl (.refl s) rfl
  | removeAttribute key =>
    simp only [applyCommand]
    split
    · exact .bumped _ rfl rfl
    · exact .silent s rfl (.refl s) rfl
  | compareAndSetAttributeGuarded g key expected value =>
    simp only [applyCommand]
    split
    · exact .rejected _
    · exact setIfExpected_outcome rfl key expected value
  | compareAndSetAttribute key expected value => exact setIfExpected_outcome rfl key expected value

/-! ## Generations -/

/-- The committed state after a command. -/
def commit (s : CoordinationSnapshot) (c : MetadataRaftCommand) : CoordinationSnapshot := (applyCommand s c).state

/-- The reply to the command carries no rejection. -/
def Accepted (s : CoordinationSnapshot) (c : MetadataRaftCommand) : Prop := (applyCommand s c).rejection = none

instance (s : CoordinationSnapshot) (c : MetadataRaftCommand) : Decidable (Accepted s c) :=
  inferInstanceAs (Decidable (_ = _))

/-- The generation as a number. -/
def gen (s : CoordinationSnapshot) : Nat := s.generation.toNat

/-- The generation versions the topology from `s` to `t`. -/
abbrev Follows (s t : CoordinationSnapshot) : Prop := Version.Follows gen topology s t

/-- What a commit can do: reject, leave generation and topology, raise the generation by one, or install the payload. -/
theorem commit_cases (s : CoordinationSnapshot) (c : MetadataRaftCommand) :
    (¬Accepted s c ∧ commit s c = s) ∨
    (Accepted s c ∧ c.payload = none ∧ (commit s c).generation = s.generation ∧ SameTopology s (commit s c)) ∨
    (Accepted s c ∧ c.payload = none ∧ (commit s c).generation = s.generation + 1) ∨
    (Accepted s c ∧ c.payload = some (commit s c) ∧ s.generation ≤ (commit s c).generation) := by
  unfold Accepted commit
  have ho := applyCommand_outcome s c
  generalize applyCommand s c = a at ho
  cases ho with
  | rejected r => exact Or.inl ⟨nofun, rfl⟩
  | silent t hg hst hc => exact Or.inr (Or.inl ⟨rfl, hc, hg, hst⟩)
  | bumped t hg hc => exact Or.inr (Or.inr (Or.inl ⟨rfl, hc, congrArg (· + 1) hg⟩))
  | replaced t hc hle => exact Or.inr (Or.inr (Or.inr ⟨rfl, hc, hle⟩))

/-- A rejected command leaves the committed state. -/
theorem commit_rejected {s : CoordinationSnapshot} {c : MetadataRaftCommand} (h : ¬Accepted s c) : commit s c = s := by
  obtain ⟨_, he⟩ | ⟨ha, _⟩ | ⟨ha, _⟩ | ⟨ha, _⟩ := commit_cases s c
  · exact he
  all_goals exact absurd ha h

/-- An accepted replace installs its payload. -/
theorem commit_of_payload {s t : CoordinationSnapshot} {c : MetadataRaftCommand} (hp : c.payload = some t)
    (ha : Accepted s c) : commit s c = t := by
  obtain ⟨hn, _⟩ | ⟨_, hc, _⟩ | ⟨_, hc, _⟩ | ⟨_, hc, _⟩ := commit_cases s c
  · exact absurd ha hn
  all_goals
    rw [hp] at hc
    cases hc
  rfl

/-- One command keeps the generation a version of the topology, unless it replaces the snapshot under an equal
generation. -/
theorem commit_follows {s : CoordinationSnapshot} {c : MetadataRaftCommand} (hg : s.generation < u64Max)
    (hp : ∀ t, c.payload = some t → Accepted s c → s.generation < t.generation) : Follows s (commit s c) := by
  obtain ⟨_, he⟩ | ⟨_, _, hgen, hst⟩ | ⟨_, _, hgen⟩ | ⟨ha, hc, _⟩ := commit_cases s c
  · rw [he]
    exact .refl s
  · right
    exact ⟨by rw [gen, gen, hgen], sameTopology_iff.1 hst⟩
  · left
    rw [gen, gen, hgen, toNat_add_one hg]
    omega
  · left
    exact UInt64.lt_iff_toNat_lt.1 (hp _ hc ha)

/-- No command lowers the generation. -/
theorem gen_le_commit {s : CoordinationSnapshot} (c : MetadataRaftCommand) (hg : s.generation < u64Max) :
    gen s ≤ gen (commit s c) := by
  obtain ⟨_, he⟩ | ⟨_, _, hgen, _⟩ | ⟨_, _, hgen⟩ | ⟨_, _, hle⟩ := commit_cases s c
  · exact Nat.le_of_eq (by rw [he])
  · exact Nat.le_of_eq (by rw [gen, gen, hgen])
  · rw [gen, gen, hgen, toNat_add_one hg]
    omega
  · exact UInt64.le_iff_toNat_le.1 hle

/-- A command without a payload raises the generation by at most one. -/
theorem gen_commit_le {s : CoordinationSnapshot} {c : MetadataRaftCommand} (hc : c.payload = none)
    (hg : s.generation < u64Max) : gen (commit s c) ≤ gen s + 1 := by
  obtain ⟨_, he⟩ | ⟨_, _, hgen, _⟩ | ⟨_, _, hgen⟩ | ⟨_, hp, _⟩ := commit_cases s c
  · rw [he]
    omega
  · rw [gen, gen, hgen]
    omega
  · exact Nat.le_of_eq (by rw [gen, gen, hgen, toNat_add_one hg])
  · rw [hc] at hp
    cases hp

/-- A guarded command is only accepted in the generation it expects. -/
theorem generation_of_accepted {s : CoordinationSnapshot} {c : MetadataRaftCommand} {g : UInt64}
    (hc : c.expectedGeneration = some g) (ha : Accepted s c) : s.generation = g := by
  unfold Accepted at ha
  cases c <;> simp only [MetadataRaftCommand.expectedGeneration, Option.some.injEq, reduceCtorEq] at hc
  all_goals
    subst hc
    simp only [applyCommand] at ha
    split at ha
    · simp [reject] at ha
    · rename_i h; exact Decidable.not_not.1 h

/-! ## Assignments -/

/-- The commands that write assignments. -/
def MetadataRaftCommand.writesAssignments : MetadataRaftCommand → Bool
  | .applySnapshot _ => true
  | .applySnapshotGuarded _ _ => true
  | .updatePartitionGuarded _ _ _ => true
  | _ => false

theorem payload_of_writesAssignments {c : MetadataRaftCommand} (h : c.writesAssignments = false) : c.payload = none := by
  cases c <;> first | rfl | cases h

/-- All other commands leave the assignments. -/
theorem commit_assignments (s : CoordinationSnapshot) {c : MetadataRaftCommand} (hc : c.writesAssignments = false) :
    (commit s c).assignments = s.assignments := by
  unfold commit
  cases c <;> simp only [MetadataRaftCommand.writesAssignments, reduceCtorEq] at hc
  all_goals simp only [applyCommand, setIfExpected, deregisterIfExpected]
  all_goals repeat' split
  all_goals rfl

end Ganglion
