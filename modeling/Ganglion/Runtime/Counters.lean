import Ganglion.Runtime.Publication
import Ganglion.Runtime.StepLaw

/-!
# The 64-bit counters

Three additions move a counter: `generation += 1` in apply, `expected + 1` in the controller loop and
`current.epoch + 1` in `next_assignment_epoch`. None of them is checked, while a snapshot replace and a publication take
a generation and epochs from their caller.

* `room_iff`: on one state no command and no plan can overflow exactly when generation and epochs are below the maximum.
* `room_commit`: a command keeps that exactly when it is `Bounded`.
* `counters_exact`: no addition overflows along a log exactly when every command of it is bounded.
  `max_generation_wraps` and `max_epoch_wraps` are accepted commands that are not.
-/

namespace Ganglion

open Std CoordinationSnapshot Applied

/-- `x + 1` does not overflow. -/
def AddOneExact (x : UInt64) : Prop := (x + 1).toNat = x.toNat + 1

theorem addOneExact_iff {x : UInt64} : AddOneExact x ↔ x < u64Max := by
  constructor
  · intro h
    have hlt := (x + 1).toNat_lt
    rw [h] at hlt
    exact lt_u64Max_iff.2 hlt
  · exact toNat_add_one

/-- The command takes a branch with `generation += 1`. -/
def Raises (s : CoordinationSnapshot) (c : MetadataRaftCommand) : Prop :=
  c.payload = none ∧ (applyCommand s c).stateChanged = true

instance (s : CoordinationSnapshot) (c : MetadataRaftCommand) : Decidable (Raises s c) :=
  inferInstanceAs (Decidable (_ ∧ _))

/-- The branches with `generation += 1` add to the generation of the state before. -/
theorem Raises.bumped {s : CoordinationSnapshot} {c : MetadataRaftCommand} (h : Raises s c) :
    ∃ t, t.generation = s.generation ∧ applyCommand s c = bump t := by
  obtain ⟨hc, hch⟩ := h
  have ho := applyCommand_outcome s c
  generalize applyCommand s c = a at ho hch
  cases ho with
  | rejected r => cases hch
  | silent t _ _ _ => cases hch
  | bumped t hg _ => exact ⟨t, hg, rfl⟩
  | replaced t hp _ =>
    rw [hc] at hp
    cases hp

/-- Applying the command does not overflow the generation. -/
def ApplyExact (s : CoordinationSnapshot) (c : MetadataRaftCommand) : Prop := Raises s c → AddOneExact s.generation

/-- One turn of the controller loop on `s` overflows neither the generation nor the epoch of a resource whose owner it
changes. -/
def PlanExact (s : CoordinationSnapshot) (plan : CoordinationSnapshot → CoordinationSnapshot) : Prop :=
  AddOneExact s.generation ∧ ∀ (r : ResourceIdentity) current desired, s.assignments[r]? = some current →
    (plan s).assignments[r]? = some desired → current.owner ≠ desired.owner → AddOneExact current.epoch

/-! ## One state -/

/-- Generation and epochs are below the maximum. -/
structure Room (s : CoordinationSnapshot) : Prop where
  generation : s.generation < u64Max
  epochs : ∀ (r : ResourceIdentity) a, s.assignments[r]? = some a → a.epoch < u64Max

theorem room_default : Room .default := by
  refine ⟨by decide, fun r a ha => ?_⟩
  simp [CoordinationSnapshot.default] at ha

/-- The plan that gives `r` away. -/
def giveAway (r : ResourceIdentity) (a : PartitionAssignment) (s : CoordinationSnapshot) : CoordinationSnapshot :=
  { s with assignments := s.assignments.insert r { a with owner := a.owner ++ "'" } }

/-- There is room exactly when no command and no plan can overflow. -/
theorem room_iff {s : CoordinationSnapshot} : Room s ↔ (∀ c, ApplyExact s c) ∧ ∀ plan, PlanExact s plan := by
  constructor
  · intro h
    have hg := addOneExact_iff.2 h.generation
    exact ⟨fun c _ => hg, fun plan => ⟨hg, fun r current _ hc _ _ => addOneExact_iff.2 (h.epochs r current hc)⟩⟩
  · rintro ⟨_, h⟩
    refine ⟨addOneExact_iff.1 (h id).1, fun r a ha => ?_⟩
    refine addOneExact_iff.1 ((h (giveAway r a)).2 r a _ ha ExtTreeMap.getElem?_insert_self fun ho => ?_)
    have hlen := congrArg String.length ho
    simp at hlen

/-! ## One command -/

/-- A command that leaves room: an accepted snapshot is below the maximum in its generation and epochs, an accepted
publication in its epoch, and a command that raises the generation does not bring it to the maximum. -/
structure Bounded (s : CoordinationSnapshot) (c : MetadataRaftCommand) : Prop where
  replaced : ∀ p, c.payload = some p → Accepted s c → Room p
  published : ∀ g a attributes, c = .updatePartitionGuarded g a attributes → Accepted s c → a.epoch < u64Max
  raised : Raises s c → s.generation + 1 < u64Max

/-- The assignments after a command that does not replace the snapshot: the old ones and the published one. -/
theorem assignments_commit {s : CoordinationSnapshot} {c : MetadataRaftCommand} (hc : c.payload = none)
    {r : ResourceIdentity} {b : PartitionAssignment} (hb : (commit s c).assignments[r]? = some b) :
    s.assignments[r]? = some b ∨
      ∃ g attributes, c = .updatePartitionGuarded g b attributes ∧ Accepted s c := by
  by_cases hk : Cell.assignment r ∈ c.footprint
  swap
  · left
    exact (commit_frame (k := .assignment r) hc hk).symm.trans hb
  by_cases ha : Accepted s c
  swap
  · left
    rwa [commit_rejected ha] at hb
  right
  cases c with
  | updatePartitionGuarded g a attributes =>
    have hr : r = a.resource := by simpa [MetadataRaftCommand.footprint] using hk
    subst hr
    rw [commit_publication ha, ExtTreeMap.getElem?_insert_self] at hb
    cases hb
    exact ⟨g, attributes, rfl, ha⟩
  | _ => simp [MetadataRaftCommand.footprint] at hk

/-- **A command leaves room exactly when it is bounded.** -/
theorem room_commit {s : CoordinationSnapshot} (h : Room s) (c : MetadataRaftCommand) :
    Room (commit s c) ↔ Bounded s c := by
  constructor
  · intro ht
    refine ⟨fun p hp ha => commit_of_payload hp ha ▸ ht, ?_, fun hr => ?_⟩
    · rintro g a attributes rfl ha
      refine ht.epochs a.resource a ?_
      rw [commit_publication ha, ExtTreeMap.getElem?_insert_self]
    · obtain ⟨t, hg, hbump⟩ := hr.bumped
      have hnext : (commit s c).generation = s.generation + 1 := by
        rw [commit, hbump, ← hg]
        rfl
      exact hnext ▸ ht.generation
  · intro hb
    by_cases ha : Accepted s c
    swap
    · rwa [commit_rejected ha]
    cases hp : c.payload with
    | some p =>
      rw [commit_of_payload hp ha]
      exact hb.replaced p hp ha
    | none =>
      constructor
      · rw [commit_generation hp]
        split
        · rename_i hch
          exact hb.raised ⟨hp, hch⟩
        · simpa using h.generation
      · intro r a hr
        obtain hold | ⟨g, attributes, hc, _⟩ := assignments_commit hp hr
        · exact h.epochs r a hold
        · exact hb.published g a attributes hc ha

/-! ## Logs -/

/-- **No counter overflows exactly in the logs of bounded commands.** On the left: on no state that the log reaches from
the empty one does a further command or a turn of the controller loop overflow. -/
theorem counters_exact (log : List MetadataRaftCommand) :
    (∀ n ≤ log.length, (∀ c, ApplyExact (Replay.stateAt commit .default log n) c) ∧
        ∀ plan, PlanExact (Replay.stateAt commit .default log n) plan) ↔
      ∀ (n : Nat) (hn : n < log.length), Bounded (Replay.stateAt commit .default log n) log[n] := by
  simp only [← room_iff]
  constructor
  · intro h n hn
    have hsucc := h (n + 1) hn
    rw [Replay.stateAt_succ hn] at hsucc
    exact (room_commit (h n (Nat.le_of_lt hn)) _).1 hsucc
  · intro h n
    induction n with
    | zero => exact fun _ => room_default
    | succ n ih =>
      intro hn
      rw [Replay.stateAt_succ hn]
      exact (room_commit (ih (Nat.le_of_lt hn)) _).2 (h n hn)

/-- A snapshot of the last generation is accepted from the empty state; the next registration takes the generation back
to 0. -/
theorem max_generation_wraps :
    let log : List MetadataRaftCommand := [.applySnapshot { CoordinationSnapshot.default with generation := u64Max }]
    let next : MetadataRaftCommand := .registerNode (.new "a" "a:1" none)
    let s := Replay.stateAt commit .default log 1
    Accepted .default (log[0]) ∧ Raises s next ∧ ¬ApplyExact s next ∧ (commit s next).generation = 0 := by
  intro log next s
  have hr : Raises s next := by decide
  refine ⟨by decide, hr, fun h => ?_, by decide⟩
  have := h hr
  revert this
  unfold AddOneExact
  decide

/-- The resource whose owner changes at the last epoch. -/
def lastEpoch : CoordinationSnapshot :=
  { CoordinationSnapshot.default with
    assignments := (∅ : BTreeMap _ _).insert ⟨"queue", "orders", 0, none⟩
      (.new ⟨"queue", "orders", 0, none⟩ "a" [] u64Max) }

/-- The same for epochs: the controller stamps epoch 0 on the new owner. -/
theorem max_epoch_wraps :
    let r : ResourceIdentity := ⟨"queue", "orders", 0, none⟩
    let plan := fun s : CoordinationSnapshot => { s with assignments := s.assignments.insert r (.new r "b" [] 0) }
    Accepted .default (.applySnapshot lastEpoch) ∧ ¬PlanExact (commit .default (.applySnapshot lastEpoch)) plan ∧
      (desiredSnapshot plan (commit .default (.applySnapshot lastEpoch))).assignments[r]?.map (·.epoch) = some 0 := by
  intro r plan
  have hc : (commit .default (.applySnapshot lastEpoch)).assignments[r]? = some (.new r "a" [] u64Max) := by decide
  refine ⟨by decide, fun h => ?_, by decide⟩
  have := h.2 r _ (.new r "b" [] 0) hc (by simp [plan]) (by decide)
  revert this
  unfold AddOneExact
  decide

end Ganglion
