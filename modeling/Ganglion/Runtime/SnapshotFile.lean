import Ganglion.Runtime.Serde

/-!
# Builds against installs

`build_snapshot` writes the snapshot file and sets the current snapshot under the state lock. `install_snapshot` writes
the file first and takes the lock afterwards, so other tasks can write the file between its two halves. As long as none
does, the file holds the current snapshot whenever no install is under way (`snapshot_file_in_sync`). A build that falls
between the halves leaves an older snapshot in the file than the one installed (`build_overwrites_install`).
-/

namespace Ganglion

open GanglionStateMachine

/-! ## The steps -/

/-- A persistent machine with its tasks: the installs that have written the file and not yet taken the lock, and which
of them wrote the file last, if one did. -/
structure SnapshotTasks where
  machine : GanglionStateMachine
  pending : Nat → Option (Snapshot × CoordinationSnapshot)
  lastWriter : Option Nat

inductive SnapshotEvent where
  | apply (entries : List Entry)
  | buildSnapshot
  /-- The first half of an install: decode and write the file. -/
  | installWrite (task : Nat) (stored : Snapshot)
  /-- The second half of an install: the locked update. -/
  | installUpdate (task : Nat)
  deriving DecidableEq

/-- The log id is ahead of the other one. -/
def isAhead (a b : Option LogId) : Bool := compare b a == .lt

namespace SnapshotTasks

/-- No task is under way. -/
def start (sm : GanglionStateMachine) : SnapshotTasks := ⟨sm, fun _ => none, none⟩

/-- One step of a task; writes succeed, and a snapshot is installed only when it is ahead of the local state. -/
def step (codec : SnapshotCodec) (t : SnapshotTasks) : SnapshotEvent → Option SnapshotTasks
  | .apply entries => some { t with machine := (t.machine.apply entries).1 }
  | .buildSnapshot => some { t with machine := (t.machine.buildSnapshot codec .ok).1, lastWriter := none }
  | .installWrite task stored =>
    match t.pending task, codec.decode stored.data with
    | none, some state =>
      if isAhead stored.snapshotMeta.lastLogId t.machine.inner.lastApplied then
        some
          { machine := { t.machine with file := persistFile codec t.machine stored .ok }
            pending := Function.update t.pending task (some (stored, state))
            lastWriter := some task }
      else none
    | _, _ => none
  | .installUpdate task =>
    (t.pending task).map fun p =>
      { machine := t.machine.installUpdate p.1 p.2
        pending := Function.update t.pending task none
        lastWriter := if t.lastWriter = some task then none else t.lastWriter }

/-- Nothing has written the file between the halves of an install that takes the lock. -/
def NotOverwritten (t : SnapshotTasks) : SnapshotEvent → Prop
  | .installUpdate task => t.lastWriter = some task
  | _ => True

end SnapshotTasks

/-! ## The invariant -/

/-- The file holds exactly the snapshot that `get_current_snapshot` returns. -/
def InSync (codec : SnapshotCodec) (sm : GanglionStateMachine) : Prop :=
  sm.file.map codec.storedFromSlice = sm.inner.currentSnapshot.map some

variable {codec : SnapshotCodec}

theorem inSync_stored {sm : GanglionStateMachine} {s : Snapshot} (hf : sm.file = some (codec.storedToVec s))
    (hc : sm.inner.currentSnapshot = some s) : InSync codec sm := by
  simp [InSync, hf, hc, codec.stored_roundTrip]

namespace SnapshotTasks

structure Inv (codec : SnapshotCodec) (t : SnapshotTasks) : Prop where
  persistent : t.machine.persistent = true
  synced : t.lastWriter = none → InSync codec t.machine
  written : ∀ task, t.lastWriter = some task →
    ∃ s state, t.pending task = some (s, state) ∧ t.machine.file = some (codec.storedToVec s)
  decoded : ∀ task s state, t.pending task = some (s, state) → codec.decode s.data = some state
  readable : ∀ s, t.machine.inner.currentSnapshot = some s → ∃ state, codec.decode s.data = some state

theorem Inv.start {file : Option Bytes} {sm : GanglionStateMachine} (h : openPersistent codec file = .ok sm) :
    Inv codec (start sm) := by
  unfold openPersistent at h
  split at h
  · cases h
    exact ⟨rfl, fun _ => rfl, fun _ h => (by cases h), fun _ _ _ h => (by cases h), fun _ h => by cases h⟩
  · rename_i bytes
    split at h
    · cases h
    · rename_i stored hstored
      split at h
      · cases h
      · rename_i state hstate
        cases h
        refine ⟨rfl, fun _ => ?_, fun _ h => (by cases h), fun _ _ _ h => (by cases h), fun s hs => ?_⟩
        · simp [InSync, SnapshotTasks.start, installUpdate, onFile, hstored]
        · cases Option.some.inj hs
          exact ⟨state, hstate⟩

/-- A build under the lock. -/
theorem Inv.build {t : SnapshotTasks} (h : Inv codec t) :
    Inv codec { t with machine := (t.machine.buildSnapshot codec .ok).1, lastWriter := none } := by
  have hok : persistOk t.machine .ok = true := by simp [persistOk]
  refine ⟨?_, fun _ => ?_, fun _ h => (by cases h), h.decoded, fun s hs => ?_⟩
  · exact (buildSnapshot_persistent t.machine .ok).trans h.persistent
  · apply inSync_stored (s := builtSnapshot codec t.machine.inner)
    · rw [buildSnapshot_file]
      simp [persistFile, h.persistent]
    · simp [buildSnapshot, hok]
  · simp only [buildSnapshot, hok, if_true, Option.some.injEq] at hs
    subst hs
    exact ⟨_, (builtSnapshot_holds t.machine.inner).2.2⟩

theorem step_inv {t t' : SnapshotTasks} {e : SnapshotEvent} (hguard : NotOverwritten t e)
    (he : step codec t e = some t') (h : Inv codec t) : Inv codec t' := by
  cases e with
  | apply entries =>
    cases Option.some.inj he
    refine ⟨h.persistent, fun hw => ?_, h.written, h.decoded, fun s hs => h.readable s (by simpa using hs)⟩
    simpa [InSync] using h.synced hw
  | buildSnapshot =>
    cases Option.some.inj he
    exact h.build
  | installWrite task stored =>
    simp only [step] at he
    split at he
    · rename_i state hnone hdecode
      split at he
      · cases Option.some.inj he
        refine ⟨h.persistent, fun hw => (by cases hw), fun task' hw => ?_, fun task' s st hp => ?_, h.readable⟩
        · cases Option.some.inj hw
          exact ⟨stored, state, by simp, by simp [persistFile, h.persistent]⟩
        · rcases eq_or_ne task' task with rfl | hne
          · simp only [Function.update_self, Option.some.injEq, Prod.mk.injEq] at hp
            obtain ⟨rfl, rfl⟩ := hp
            exact hdecode
          · exact h.decoded task' s st (by simpa [hne] using hp)
      · cases he
    · cases he
  | installUpdate task =>
    have hlast : t.lastWriter = some task := hguard
    obtain ⟨⟨s, state⟩, hp, rfl⟩ := Option.map_eq_some_iff.1 he
    obtain ⟨s', state', hp', hfile⟩ := h.written task hlast
    rw [hp] at hp'
    cases hp'
    refine ⟨h.persistent, fun _ => inSync_stored hfile rfl, fun task' hw => ?_, fun task' s' st hp' => ?_,
      fun s' hs' => ?_⟩
    · simp [hlast] at hw
    · rcases eq_or_ne task' task with rfl | hne
      · simp at hp'
      · exact h.decoded task' s' st (by simpa [hne] using hp')
    · cases Option.some.inj hs'
      exact ⟨state, h.decoded task s state hp⟩

/-- **The snapshot file holds the current snapshot.** In every run of applies, builds and installs in which nothing
writes the file between the two halves of an install, whenever no install is under way the file holds exactly what
`get_current_snapshot` returns, so that reopening does not fall behind it. -/
theorem snapshot_file_in_sync {file : Option Bytes} {sm : GanglionStateMachine} {es : List SnapshotEvent}
    {t : SnapshotTasks} (hopen : openPersistent codec file = .ok sm)
    (h : Run (step codec) NotOverwritten (start sm) es t) (hidle : ∀ task, t.pending task = none) :
    InSync codec t.machine ∧
      ∀ s, t.machine.inner.currentSnapshot = some s →
        ∃ sm', openPersistent codec t.machine.file = .ok sm' ∧ sm'.inner.lastApplied = s.snapshotMeta.lastLogId := by
  have hinv : Inv codec t := h.invariant (fun _ _ _ hg he hi => step_inv hg he hi) (Inv.start hopen)
  have hsync : InSync codec t.machine := by
    apply hinv.synced
    cases hw : t.lastWriter with
    | none => rfl
    | some task =>
      obtain ⟨s, state, hp, _⟩ := hinv.written task hw
      rw [hidle task] at hp
      cases hp
  refine ⟨hsync, fun s hs => ?_⟩
  obtain ⟨state, hstate⟩ := hinv.readable s hs
  unfold InSync at hsync
  rw [hs, Option.map_some, Option.map_eq_some_iff] at hsync
  obtain ⟨bytes, hfile, hbytes⟩ := hsync
  exact ⟨(onFile (some bytes)).installUpdate s state, by simp [openPersistent, hfile, hbytes, hstate], rfl⟩

theorem step_installWrite {t : SnapshotTasks} {task : Nat} {s : Snapshot} {p : Position} (hnew : t.pending task = none)
    (hs : Holds codec p s) (hahead : isAhead p.lastApplied t.machine.inner.lastApplied = true) :
    step codec t (.installWrite task s) =
      some
        { machine := { t.machine with file := persistFile codec t.machine s .ok }
          pending := Function.update t.pending task (some (s, p.state))
          lastWriter := some task } := by
  simp [step, hnew, hs.2.2, hs.1, hahead]

/-- The local log has one entry, and a leader sends a snapshot of five. -/
def localEntry : Entry := ⟨⟨⟨1, 0⟩, 1⟩, .blank⟩

def leaderPosition : Position := ⟨some ⟨⟨1, 0⟩, 5⟩, .default, .default⟩

def leaderSnapshot (codec : SnapshotCodec) : Snapshot :=
  ⟨⟨leaderPosition.lastApplied, leaderPosition.lastMembership, "T1-N0-5-1"⟩, codec.encode leaderPosition.state⟩

theorem leaderSnapshot_holds : Holds codec leaderPosition (leaderSnapshot codec) := ⟨rfl, rfl, codec.decode_encode _⟩

/-- The build comes first: the file ends with the installed snapshot. -/
theorem snapshot_file_in_sync_after_build :
    ∃ t, Run (step serdeSnapshot) NotOverwritten (start (onFile none))
        [.apply [localEntry], .buildSnapshot, .installWrite 0 (leaderSnapshot serdeSnapshot), .installUpdate 0] t ∧
      t.machine.inner.currentSnapshot = some (leaderSnapshot serdeSnapshot) ∧ InSync serdeSnapshot t.machine := by
  have hrun : Run (step serdeSnapshot) NotOverwritten (start (onFile none))
      [.apply [localEntry], .buildSnapshot, .installWrite 0 (leaderSnapshot serdeSnapshot), .installUpdate 0] _ :=
    .cons trivial rfl (.cons trivial rfl (.cons trivial (step_installWrite rfl leaderSnapshot_holds rfl)
      (.cons rfl rfl (.nil _))))
  have hopen : openPersistent serdeSnapshot none = .ok (onFile none) := rfl
  refine ⟨_, hrun, rfl, (snapshot_file_in_sync hopen hrun fun task => ?_).1⟩
  by_cases h : task = 0 <;> simp [h, start]

/-- The build falls between the halves of the install. No task is under way at the end, the node runs on the leader's
snapshot, and the file holds the older one. -/
theorem build_overwrites_install :
    ∃ t old, Run (step serdeSnapshot) (fun _ _ => True) (start (onFile none))
        [.apply [localEntry], .installWrite 0 (leaderSnapshot serdeSnapshot), .buildSnapshot, .installUpdate 0] t ∧
      (∀ task, t.pending task = none) ∧
      t.machine.inner.currentSnapshot = some (leaderSnapshot serdeSnapshot) ∧
      t.machine.file.map serdeSnapshot.storedFromSlice = some (some old) ∧
      old.snapshotMeta.lastLogId = some ⟨⟨1, 0⟩, 1⟩ ∧ ¬InSync serdeSnapshot t.machine := by
  have hrun : Run (step serdeSnapshot) (fun _ _ => True) (start (onFile none))
      [.apply [localEntry], .installWrite 0 (leaderSnapshot serdeSnapshot), .buildSnapshot, .installUpdate 0] _ :=
    .cons trivial rfl (.cons trivial (step_installWrite rfl leaderSnapshot_holds rfl) (.cons trivial rfl
      (.cons trivial rfl (.nil _))))
  have hfile := congrArg some (serdeSnapshot.stored_roundTrip
    (builtSnapshot serdeSnapshot (((onFile none).apply [localEntry]).1).inner))
  refine ⟨_, _, hrun, fun task => ?_, rfl, hfile, rfl, fun hsync => ?_⟩
  · by_cases h : task = 0 <;> simp [h, start]
  · have hsame := Option.some.inj (Option.some.inj (hfile.symm.trans hsync))
    have hid := congrArg (fun s => s.snapshotMeta.lastLogId) hsame
    exact absurd hid (by decide)

end SnapshotTasks

end Ganglion
