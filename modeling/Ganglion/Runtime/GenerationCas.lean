import Ganglion.Runtime.Command

/-!
# The generation as a compare-and-swap guard

A guarded command commits only in the generation it expects. `winner_closes_generation`: an accepted guarded command
that changes the topology is the last one accepted in its generation, unless it is a snapshot replace whose payload
repeats that generation. The exception is real (`guarded_replace_twice`): a snapshot of the committed generation is not
stale, so two replaces that expect the same generation can both be accepted.
-/

namespace Ganglion

open Std CoordinationSnapshot

/-- The committed state after the first `n` commands of a log. -/
def committedAt (init : CoordinationSnapshot) (log : List MetadataRaftCommand) (n : Nat) : CoordinationSnapshot :=
  Replay.stateAt commit init log n

/-- The command expects generation `g`, is accepted in `s` and changes the topology. -/
def Wins (g : UInt64) (s : CoordinationSnapshot) (c : MetadataRaftCommand) : Prop :=
  c.expectedGeneration = some g ∧ Accepted s c ∧ ¬SameTopology s (commit s c)

/-- A change of the topology raises the generation, unless the payload of the command repeats it. -/
theorem gen_lt_of_changed {s : CoordinationSnapshot} {c : MetadataRaftCommand} (hg : s.generation < u64Max)
    (ha : Accepted s c) (hch : ¬SameTopology s (commit s c))
    (hp : ∀ t, c.payload = some t → t.generation ≠ s.generation) : gen s < gen (commit s c) := by
  obtain ⟨hn, _⟩ | ⟨_, _, _, hst⟩ | ⟨_, _, hgen⟩ | ⟨_, hc, hle⟩ := commit_cases s c
  · exact absurd ha hn
  · exact absurd hst hch
  · rw [gen, gen, hgen, toNat_add_one hg]
    omega
  · exact UInt64.lt_iff_toNat_lt.1 (UInt64.lt_of_le_of_ne hle (Ne.symm (hp _ hc)))

/-- Generations never decrease along a log. -/
theorem gen_committedAt_le {init : CoordinationSnapshot} {log : List MetadataRaftCommand}
    (hgen : ∀ n ≤ log.length, (committedAt init log n).generation < u64Max) {i j : Nat} (hij : i ≤ j)
    (hj : j ≤ log.length) : gen (committedAt init log i) ≤ gen (committedAt init log j) := by
  refine Replay.stateAt_rel (R := fun s t => gen s ≤ gen t) (fun _ => Nat.le_refl _) (fun _ _ _ => Nat.le_trans)
    (fun n hn => ?_) hij hj
  rw [Replay.stateAt_succ hn]
  exact gen_le_commit _ (hgen n (by omega))

/-- **One winner.** Once a guarded command that expects `g` is accepted and changes the topology, and its payload, if it
replaces the snapshot, does not carry `g` again, every later command that expects `g` is rejected. -/
theorem winner_closes_generation {init : CoordinationSnapshot} {log : List MetadataRaftCommand}
    (hgen : ∀ n ≤ log.length, (committedAt init log n).generation < u64Max) {g : UInt64} {i j : Nat} (hij : i < j)
    (hj : j < log.length) (hi : Wins g (committedAt init log i) log[i])
    (hp : ∀ t, log[i].payload = some t → t.generation ≠ g) (hg : log[j].expectedGeneration = some g) :
    ¬Accepted (committedAt init log j) log[j] := by
  intro ha
  obtain ⟨hgi, hai, hch⟩ := hi
  have hat : (committedAt init log i).generation = g := generation_of_accepted hgi hai
  have hlt := gen_lt_of_changed (hgen i (by omega)) hai hch (by rw [hat]; exact hp)
  have hnext : committedAt init log (i + 1) = commit (committedAt init log i) log[i] := Replay.stateAt_succ (by omega)
  have hle := gen_committedAt_le hgen (show i + 1 ≤ j from hij) (by omega)
  rw [hnext] at hle
  have hj' : (committedAt init log j).generation = g := generation_of_accepted hg ha
  simp only [gen, hat, hj'] at hlt hle
  omega

/-- Two attribute writes that both expect the initial generation. -/
def racingWrites : List MetadataRaftCommand :=
  [.compareAndSetAttributeGuarded 0 "leader" none "a", .compareAndSetAttributeGuarded 0 "leader" none "b"]

theorem winner_closes_generation_race :
    Accepted (committedAt .default racingWrites 0) racingWrites[0] ∧
      ¬Accepted (committedAt .default racingWrites 1) racingWrites[1] := by
  have ha : Accepted (committedAt .default racingWrites 0) racingWrites[0] := by decide
  have hgen : ∀ n ≤ racingWrites.length, (committedAt .default racingWrites n).generation < u64Max := by decide
  have hwin : Wins 0 (committedAt .default racingWrites 0) racingWrites[0] :=
    ⟨rfl, ha, fun h => absurd h.attributes (by decide)⟩
  exact ⟨ha, winner_closes_generation hgen (by decide) (by decide) hwin (fun t ht => by cases ht) rfl⟩

/-- A snapshot with one attribute, under the generation of the empty state. -/
def sameGeneration (value : String) : CoordinationSnapshot :=
  { CoordinationSnapshot.default with attributes := (∅ : BTreeMap String String).insert "leader" value }

/-- Two guarded replaces whose payloads repeat the generation they expect. -/
def racingReplaces : List MetadataRaftCommand :=
  [.applySnapshotGuarded 0 (sameGeneration "a"), .applySnapshotGuarded 0 (sameGeneration "b")]

/-- Without the condition on the payload there can be two winners: the second replace overwrites the first. -/
theorem guarded_replace_twice :
    ¬∀ (log : List MetadataRaftCommand), (∀ n ≤ log.length, (committedAt .default log n).generation < u64Max) →
      ∀ (g : UInt64) (i j : Nat) (_ : i < j) (_ : j < log.length), Wins g (committedAt .default log i) log[i] →
        ¬Wins g (committedAt .default log j) log[j] := by
  intro h
  have hgen : ∀ n ≤ racingReplaces.length, (committedAt .default racingReplaces n).generation < u64Max := by decide
  have hfirst : Wins 0 (committedAt .default racingReplaces 0) racingReplaces[0] :=
    ⟨rfl, by decide, fun h => absurd h.attributes (by decide)⟩
  have hsecond : Wins 0 (committedAt .default racingReplaces 1) racingReplaces[1] :=
    ⟨rfl, by decide, fun h => absurd h.attributes (by decide)⟩
  exact h racingReplaces hgen 0 0 1 (by decide) (by decide) hfirst hsecond

end Ganglion
