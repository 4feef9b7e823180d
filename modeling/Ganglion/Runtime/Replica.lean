import Ganglion.Runtime.Serde

/-!
# Replica agreement

Replicas follow one committed log `L`. Each applies consecutive entries in batches of any size, builds snapshots,
installs snapshots that were sent, and restarts from its snapshot file; writes of the file may fail. Whatever the mix,
a replica is at a position of the log (`replicas_agree`): state, last applied id and membership are those of applying
`L` one entry at a time up to the last applied id. As log ids grow along `L`, equal ids mean equal states.

The invariant is per machine (`Follower`): the locked state, the current snapshot and the file each stand for some
position of `L`, not necessarily the same one.
-/

namespace Ganglion

open GanglionStateMachine

/-! ## Positions of a log -/

/-- The position after the first `n` entries of the log. -/
def positionAt (L : List Entry) (n : Nat) : Position := Replay.stateAt Position.apply .start L n

/-- The entries up to the one with the given id. -/
def cursor (L : List Entry) : Option LogId → Nat
  | none => 0
  | some id => L.findIdx (fun e => e.logId == id) + 1

/-- Log ids grow along the log. -/
def Increasing (L : List Entry) : Prop := L.Pairwise fun a b => a.logId < b.logId

theorem logId_lt_irrefl (a : LogId) : ¬a < a := by
  intro h
  have : compare a a = .lt := h
  simp at this

variable {L : List Entry}

theorem positionAt_lastApplied_zero : (positionAt L 0).lastApplied = none := rfl

theorem positionAt_lastApplied_succ {n : Nat} (h : n < L.length) :
    (positionAt L (n + 1)).lastApplied = some L[n].logId := by
  rw [positionAt, Replay.stateAt_succ h, Position.apply_lastApplied]

/-- The last applied id tells the position. -/
theorem cursor_positionAt (hL : Increasing L) {n : Nat} (hn : n ≤ L.length) :
    cursor L (positionAt L n).lastApplied = n := by
  cases n with
  | zero => rfl
  | succ n =>
    rw [positionAt_lastApplied_succ hn, cursor, Nat.add_right_cancel_iff, List.findIdx_eq hn]
    refine ⟨by simp, fun j hj => ?_⟩
    have hlt := List.pairwise_iff_getElem.1 hL j n (by omega) (by omega) hj
    simp only [beq_eq_false_iff_ne, ne_eq]
    intro he
    rw [he] at hlt
    exact logId_lt_irrefl _ hlt

/-- The last applied id of a machine tells its position. -/
theorem cursor_eq (hL : Increasing L) {inner : StateMachineInner} {n : Nat} (hn : n ≤ L.length)
    (hp : inner.position = positionAt L n) : cursor L inner.lastApplied = n := by
  have hlast : inner.lastApplied = (positionAt L n).lastApplied := congrArg Position.lastApplied hp
  rw [hlast, cursor_positionAt hL hn]

/-- The next `k` entries of the log move one position to another. -/
theorem foldl_positionAt (n k : Nat) :
    ((L.drop n).take k).foldl Position.apply (positionAt L n) = positionAt L (n + k) :=
  (Replay.stateAt_add n k).symm

/-- A position past the end is the end. -/
theorem positionAt_of_le {n : Nat} (h : L.length ≤ n) : positionAt L n = positionAt L L.length := by
  simp [positionAt, Replay.stateAt, List.take_of_length_le h]

/-- The replies to a batch are the replies to its entries one at a time. -/
theorem mem_zip_replies : ∀ (es : List Entry) (p : Position) {e : Entry} {r : MetadataRaftResponse},
    (e, r) ∈ es.zip (p.replies es) →
      ∃ (m : Nat) (h : m < es.length), es[m] = e ∧ r = ((es.take m).foldl Position.apply p).reply e
  | [], _, _, _, h => by simp at h
  | e' :: es, p, e, r, h => by
    simp only [Position.replies, List.zip_cons_cons, List.mem_cons, Prod.mk.injEq] at h
    rcases h with ⟨rfl, rfl⟩ | h
    · exact ⟨0, by simp, rfl, rfl⟩
    · obtain ⟨m, hm, he, hr⟩ := mem_zip_replies es (p.apply e') h
      exact ⟨m + 1, by simpa using hm, by simpa using he, by simpa using hr⟩

/-! ## The replicas -/

/-- Replicas of one group: the machines, the snapshots sent so far, and the replies given so far. -/
structure Group (ι : Type) where
  machines : ι → GanglionStateMachine
  sent : List Snapshot
  replies : List (Entry × MetadataRaftResponse)

/-- What a replica can do. -/
inductive ReplicaEvent (ι : Type) where
  /-- Apply the next `count` committed entries in one call. -/
  | apply (i : ι) (count : Nat)
  | buildSnapshot (i : ι) (o : Persist)
  /-- Send what `get_current_snapshot` returns. -/
  | send (i : ι)
  /-- Install the snapshot number `k` of those sent. -/
  | installSnapshot (i : ι) (k : Nat) (o : Persist)
  /-- Reopen via `persistent` on what the snapshot file holds. -/
  | restart (i : ι)

namespace Group

variable {ι : Type} [DecidableEq ι]

/-- Replicas that have done nothing; `durable i` says whether replica `i` has a snapshot path. -/
def start (durable : ι → Bool) : Group ι where
  machines i := { GanglionStateMachine.default with persistent := durable i }
  sent := []
  replies := []

/-- The group with replica `i` replaced. -/
def set (g : Group ι) (i : ι) (sm : GanglionStateMachine) : Group ι :=
  { g with machines := Function.update g.machines i sm }

/-- One event, over the committed log `L`. -/
def step (codec : SnapshotCodec) (L : List Entry) (g : Group ι) : ReplicaEvent ι → Option (Group ι)
  | .apply i count =>
    let entries := (L.drop (cursor L (g.machines i).inner.lastApplied)).take count
    let r := (g.machines i).apply entries
    some { g.set i r.1 with replies := g.replies ++ entries.zip r.2 }
  | .buildSnapshot i o => some (g.set i ((g.machines i).buildSnapshot codec o).1)
  | .send i => (g.machines i).inner.currentSnapshot.map fun s => { g with sent := g.sent ++ [s] }
  | .installSnapshot i k o => g.sent[k]?.map fun s => g.set i ((g.machines i).installSnapshot codec s o).1
  | .restart i =>
    match openPersistent codec (g.machines i).file with
    | .ok sm => some (g.set i sm)
    | .error _ => none

end Group

variable (codec : SnapshotCodec)

/-- The snapshot stands for some position of the log. -/
def Valid (L : List Entry) (s : Snapshot) : Prop := ∃ n ≤ L.length, Holds codec (positionAt L n) s

/-- What a machine that follows `L` keeps. -/
structure Follower (L : List Entry) (sm : GanglionStateMachine) : Prop where
  position : ∃ n ≤ L.length, sm.inner.position = positionAt L n
  current : ∀ s, sm.inner.currentSnapshot = some s → Valid codec L s
  file : ∀ b, sm.file = some b → ∃ s, b = codec.storedToVec s ∧ Valid codec L s

variable {codec}

namespace Follower

theorem start (durable : Bool) : Follower codec L { GanglionStateMachine.default with persistent := durable } where
  position := ⟨0, Nat.zero_le _, rfl⟩
  current s h := by cases h
  file b h := by cases h

theorem position_eq {sm : GanglionStateMachine} (h : Follower codec L sm) (hL : Increasing L) :
    sm.inner.position = positionAt L (cursor L sm.inner.lastApplied) := by
  obtain ⟨n, hn, hp⟩ := h.position
  rw [cursor_eq hL hn hp, hp]

/-- Applying the next entries of the log. -/
theorem apply {sm : GanglionStateMachine} (h : Follower codec L sm) (hL : Increasing L) (count : Nat) :
    Follower codec L (sm.apply ((L.drop (cursor L sm.inner.lastApplied)).take count)).1 where
  position := by
    obtain ⟨n, hn, hp⟩ := h.position
    rw [apply_position, cursor_eq hL hn hp, hp, foldl_positionAt]
    rcases Nat.le_total (n + count) L.length with hle | hle
    · exact ⟨n + count, hle, rfl⟩
    · exact ⟨L.length, Nat.le_refl _, positionAt_of_le hle⟩
  current s hs := h.current s (by simpa using hs)
  file b hb := h.file b hb

/-- The file after a write that may have failed. -/
theorem persist {sm : GanglionStateMachine} (h : Follower codec L sm) {s : Snapshot} (hs : Valid codec L s) {o : Persist}
    {b : Bytes} (hb : persistFile codec sm s o = some b) : ∃ s, b = codec.storedToVec s ∧ Valid codec L s := by
  rcases @persistFile_cases codec sm s o with hf | hf
  · exact h.file b (hf ▸ hb)
  · rw [hf] at hb
    exact ⟨s, (Option.some.inj hb).symm, hs⟩

theorem built {sm : GanglionStateMachine} (h : Follower codec L sm) : Valid codec L (builtSnapshot codec sm.inner) := by
  obtain ⟨n, hn, hp⟩ := h.position
  exact ⟨n, hn, hp ▸ builtSnapshot_holds sm.inner⟩

theorem buildSnapshot {sm : GanglionStateMachine} (h : Follower codec L sm) (o : Persist) :
    Follower codec L (sm.buildSnapshot codec o).1 where
  position := by rw [buildSnapshot_position]; exact h.position
  current s hs := by
    unfold GanglionStateMachine.buildSnapshot at hs
    dsimp only at hs
    split at hs
    · cases Option.some.inj hs; exact h.built
    · exact h.current s hs
  file b hb := by
    rw [buildSnapshot_file] at hb
    exact h.persist h.built hb

/-- Restoring a snapshot of the log. -/
theorem installUpdate {sm : GanglionStateMachine} {s : Snapshot} {state : CoordinationSnapshot}
    (hs : Valid codec L s) (hd : codec.decode s.data = some state)
    (hf : ∀ b, sm.file = some b → ∃ s, b = codec.storedToVec s ∧ Valid codec L s) :
    Follower codec L (sm.installUpdate s state) where
  position := by
    obtain ⟨n, hn, hp⟩ := hs
    have : state = (positionAt L n).state := Option.some.inj (hd.symm.trans hp.2.2)
    exact ⟨n, hn, this ▸ installUpdate_position hp⟩
  current s' hs' := by cases Option.some.inj hs'; exact hs
  file := hf

theorem installSnapshot {sm : GanglionStateMachine} (h : Follower codec L sm) {s : Snapshot} (hs : Valid codec L s)
    (o : Persist) : Follower codec L (sm.installSnapshot codec s o).1 := by
  unfold GanglionStateMachine.installSnapshot
  split
  · exact h
  · rename_i state hd
    dsimp only
    split
    · exact installUpdate hs hd (fun b hb => h.persist hs hb)
    · exact ⟨h.position, h.current, fun b hb => h.persist hs hb⟩

/-- Reopening always succeeds, and on a position of the log. -/
theorem reopen {sm : GanglionStateMachine} (h : Follower codec L sm) :
    ∃ sm', openPersistent codec sm.file = .ok sm' ∧ Follower codec L sm' := by
  cases hf : sm.file with
  | none => exact ⟨_, rfl, Follower.start true⟩
  | some b =>
    obtain ⟨s, rfl, n, hn, hs⟩ := h.file b hf
    refine ⟨_, openPersistent_stored hs, installUpdate ⟨n, hn, hs⟩ hs.2.2 (fun b hb => ?_)⟩
    cases Option.some.inj hb
    exact ⟨s, rfl, n, hn, hs⟩

end Follower

/-! ## Agreement -/

/-- The reply is the one that applying the log one entry at a time gives. -/
def Answers (L : List Entry) (e : Entry) (r : MetadataRaftResponse) : Prop :=
  ∃ (n : Nat) (h : n < L.length), L[n] = e ∧ r = (positionAt L n).reply e

/-- An entry has one answer. -/
theorem Answers.unique (hL : Increasing L) {e : Entry} {r r' : MetadataRaftResponse} (h : Answers L e r)
    (h' : Answers L e r') : r = r' := by
  obtain ⟨n, hn, he, rfl⟩ := h
  obtain ⟨n', hn', he', rfl⟩ := h'
  have hid : (positionAt L (n + 1)).lastApplied = (positionAt L (n' + 1)).lastApplied := by
    rw [positionAt_lastApplied_succ hn, positionAt_lastApplied_succ hn', he, he']
  have hcur := cursor_positionAt hL hn
  rw [hid, cursor_positionAt hL hn'] at hcur
  obtain rfl : n' = n := by omega
  rfl

/-- The replies to a batch of the log. -/
theorem answers_batch {n k : Nat} {e : Entry} {r : MetadataRaftResponse}
    (h : (e, r) ∈ ((L.drop n).take k).zip ((positionAt L n).replies ((L.drop n).take k))) : Answers L e r := by
  obtain ⟨m, hm, he, hr⟩ := mem_zip_replies _ _ h
  simp only [List.length_take, List.length_drop] at hm
  refine ⟨n + m, by omega, by simpa using he, ?_⟩
  rw [hr, List.take_take, Nat.min_eq_left (by omega), foldl_positionAt]

namespace Group

variable {ι : Type} [DecidableEq ι]

/-- What a group that follows `L` keeps. -/
structure Inv (codec : SnapshotCodec) (L : List Entry) (g : Group ι) : Prop where
  machines : ∀ i, Follower codec L (g.machines i)
  sent : ∀ s ∈ g.sent, Valid codec L s
  replies : ∀ e r, (e, r) ∈ g.replies → Answers L e r

theorem Inv.set {g : Group ι} (h : Inv codec L g) (i : ι) {sm : GanglionStateMachine} (hsm : Follower codec L sm) :
    Inv codec L (g.set i sm) where
  machines j := by
    rcases eq_or_ne j i with rfl | hne
    · simpa [Group.set] using hsm
    · simpa [Group.set, hne] using h.machines j
  sent := h.sent
  replies := h.replies

theorem step_inv (hL : Increasing L) {g g' : Group ι} {e : ReplicaEvent ι} (he : step codec L g e = some g')
    (h : Inv codec L g) : Inv codec L g' := by
  cases e with
  | apply i count =>
    cases Option.some.inj he
    have hset := h.set i ((h.machines i).apply hL count)
    refine ⟨hset.machines, hset.sent, fun e r hr => ?_⟩
    rcases List.mem_append.1 hr with hr | hr
    · exact h.replies e r hr
    · rw [apply_replies, (h.machines i).position_eq hL] at hr
      exact answers_batch hr
  | buildSnapshot i o =>
    cases Option.some.inj he
    exact h.set i ((h.machines i).buildSnapshot o)
  | send i =>
    obtain ⟨s, hs, rfl⟩ := Option.map_eq_some_iff.1 he
    refine ⟨h.machines, fun t ht => ?_, h.replies⟩
    rcases List.mem_append.1 ht with ht | ht
    · exact h.sent t ht
    · cases List.mem_singleton.1 ht
      exact (h.machines i).current s hs
  | installSnapshot i k o =>
    obtain ⟨s, hs, rfl⟩ := Option.map_eq_some_iff.1 he
    exact h.set i ((h.machines i).installSnapshot (h.sent s (List.mem_of_getElem? hs)) o)
  | restart i =>
    obtain ⟨sm, hsm, hf⟩ := (h.machines i).reopen
    simp only [step, hsm, Option.some.injEq] at he
    exact he ▸ h.set i hf

theorem run_inv (hL : Increasing L) {durable : ι → Bool} {es : List (ReplicaEvent ι)} {g : Group ι}
    (h : Run (step codec L) (fun _ _ => True) (start durable) es g) : Inv codec L g :=
  h.invariant (fun _ _ _ _ he hi => step_inv hL he hi)
    ⟨fun i => Follower.start (durable i), fun _ hs => absurd hs List.not_mem_nil,
      fun _ _ hr => absurd hr List.not_mem_nil⟩

/-- **Replica agreement.** Whatever replicas of one committed log did, in any two histories: state, last applied id and
membership are those of applying the log one entry at a time up to the last applied id; equal ids show equal states;
an entry is always answered the same; and the snapshot file can be reopened. -/
theorem replicas_agree (hL : Increasing L) {durable durable' : ι → Bool} {es es' : List (ReplicaEvent ι)}
    {g g' : Group ι} (h : Run (step codec L) (fun _ _ => True) (start durable) es g)
    (h' : Run (step codec L) (fun _ _ => True) (start durable') es' g') (i j : ι) :
    (g.machines i).inner.position = positionAt L (cursor L (g.machines i).inner.lastApplied) ∧
      ((g.machines i).inner.lastApplied = (g'.machines j).inner.lastApplied →
        (g.machines i).inner.position = (g'.machines j).inner.position) ∧
      (∀ e r, (e, r) ∈ g.replies → Answers L e r) ∧
      (∀ e r r', (e, r) ∈ g.replies → (e, r') ∈ g'.replies → r = r') ∧
      ∃ sm, openPersistent codec (g.machines i).file = .ok sm := by
  have hi := run_inv hL h
  have hi' := run_inv hL h'
  have hpos := (hi.machines i).position_eq hL
  have hpos' := (hi'.machines j).position_eq hL
  refine ⟨hpos, fun heq => ?_, hi.replies, fun e r r' hr hr' => ?_, ?_⟩
  · rw [hpos, hpos', heq]
  · exact (hi.replies e r hr).unique hL (hi'.replies e r' hr')
  · obtain ⟨sm, hsm, _⟩ := (hi.machines i).reopen
    exact ⟨sm, hsm⟩

/-- A membership, an attribute, and the blank entry of a new leader. -/
def shortLog : List Entry :=
  [⟨⟨⟨1, 0⟩, 1⟩, .membership ⟨[], ∅⟩⟩, ⟨⟨⟨1, 0⟩, 2⟩, .normal (.setAttribute "mode" "on")⟩, ⟨⟨⟨2, 1⟩, 3⟩, .blank⟩]

theorem increasing_shortLog : Increasing shortLog := by
  simp only [Increasing, shortLog, List.pairwise_cons, List.mem_cons, List.not_mem_nil, or_false, forall_eq_or_imp,
    forall_eq, false_imp_iff, implies_true, List.Pairwise.nil, and_true]
  decide

/-- One replica builds a snapshot after two entries and restarts from it; the other one installs it. -/
def catchUp : List (ReplicaEvent Bool) :=
  [.apply true 2, .buildSnapshot true .ok, .send true, .installSnapshot false 0 .ok, .apply false 1, .restart true,
    .apply true 5]

theorem step_installSnapshot {g : Group ι} {i : ι} {k : Nat} {s : Snapshot} {p : Position} {o : Persist}
    (hs : g.sent[k]? = some s) (h : Holds codec p s) (ho : persistOk (g.machines i) o = true) :
    step codec L g (.installSnapshot i k o) =
      some (g.set i (installUpdate { g.machines i with file := persistFile codec (g.machines i) s o } s p.state)) := by
  simp [step, hs, installSnapshot_ok h ho]

theorem step_restart {g : Group ι} {i : ι} {s : Snapshot} {p : Position}
    (hf : (g.machines i).file = some (codec.storedToVec s)) (h : Holds codec p s) :
    step codec L g (.restart i) = some (g.set i ((onFile (some (codec.storedToVec s))).installUpdate s p.state)) := by
  simp [step, hf, openPersistent_stored h]

theorem run_catchUp (codec : SnapshotCodec) :
    ∃ g, Run (step codec shortLog) (fun _ _ => True) (start id) catchUp g ∧
      (g.machines true).inner.lastApplied = some ⟨⟨2, 1⟩, 3⟩ ∧
      (g.machines false).inner.lastApplied = some ⟨⟨2, 1⟩, 3⟩ := by
  refine ⟨_, .cons trivial rfl (.cons trivial rfl (.cons trivial rfl (.cons trivial
    (step_installSnapshot rfl (builtSnapshot_holds _) rfl) (.cons trivial rfl
    (.cons trivial (step_restart rfl (builtSnapshot_holds _)) (.cons trivial rfl (.nil _))))))), ?_, ?_⟩
  · rfl
  · rfl

/-- The two replicas of `catchUp` agree at the end. -/
theorem replicas_agree_catchUp :
    ∃ g, Run (step serdeSnapshot shortLog) (fun _ _ => True) (start id) catchUp g ∧
      (g.machines true).inner.lastApplied = some ⟨⟨2, 1⟩, 3⟩ ∧
      (g.machines true).inner.position = (g.machines false).inner.position := by
  obtain ⟨g, hrun, ht, hf⟩ := run_catchUp serdeSnapshot
  exact ⟨g, hrun, ht, (replicas_agree increasing_shortLog hrun hrun true false).2.1 (ht.trans hf.symm)⟩

end Group

end Ganglion
