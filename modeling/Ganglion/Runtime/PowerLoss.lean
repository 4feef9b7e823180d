import Ganglion.Lib.Disk
import Ganglion.Lib.Replay
import Ganglion.Runtime.SnapshotRuns

/-!
# Snapshots and power losses

`persist_snapshot` as it goes to disk: the tmp file is written in as many writes as `write_all` needs and synced, the
rename puts it at the path, and the parent directory is synced. Each of these steps may be the last one, by an error or
by a power loss; the disk is the one of `Disk`.

A machine runs with its disk (`PoweredMachine`) and with the positions that the path may restore (`restorable`): after
`Ok` the one that was written, after an error behind the rename that one or the ones before. `Inv` says that the disk
restores only these and that the machine reads the file it takes itself to have, so the atomic write of the machine's
model is what the steps amount to. `power_loss_restores`: a power loss at any point leaves a file that opens.
-/

namespace Ganglion

open GanglionStateMachine Disk

/-! ## One write of the file -/

/-- A run of `persist_snapshot`: the writes that `write_all` makes, and how many steps are taken once the tmp file is
created. -/
structure DiskWrite where
  chunks : List Bytes
  steps : Nat
  deriving DecidableEq

namespace DiskWrite

/-- How `persist_snapshot` ends for its caller. -/
def outcome (w : DiskWrite) : Persist :=
  match replacedAfter w.chunks.length w.steps with
  | .notYet => .failedBeforeRename
  | .renamed => .failedAfterRename
  | .done => .ok

/-- The disk after the steps, on the tmp file of that number. -/
def onDisk (w : DiskWrite) (d : Disk UInt8) (file : Nat) : Disk UInt8 :=
  d.applyAll ((replaceOps file w.chunks).take w.steps)

/-- The positions that the path may restore, when the write is for `p`. -/
def restorable (w : DiskWrite) (p : Position) (before : List Position) : List Position :=
  match replacedAfter w.chunks.length w.steps with
  | .notYet => before
  | .renamed => p :: before
  | .done => [p]

end DiskWrite

/-! ## The machine and its disk -/

/-- A machine with a snapshot path, its disk with the number of the next file, and what the path may restore. -/
structure PoweredMachine where
  machine : GanglionStateMachine
  disk : Disk UInt8
  files : Nat
  restorable : List Position

/-- What can happen. -/
inductive PoweredEvent where
  | apply (entries : List Entry)
  | buildSnapshot (w : DiskWrite)
  | installSnapshot (stored : Snapshot) (w : DiskWrite)
  /-- The power is lost, the path holds `found`, and the machine is opened on it. -/
  | powerLoss (found : Option Bytes)
  deriving DecidableEq

namespace PoweredMachine

variable (codec : SnapshotCodec)

/-- A machine opened on what the path holds. -/
def opened (found : Option Bytes) (machine : GanglionStateMachine) : PoweredMachine where
  machine := machine
  disk := holding found
  files := 1
  restorable := [machine.inner.position]

/-- A new path. -/
def start : PoweredMachine := opened none (onFile none)

/-- `persist_snapshot` of a snapshot that stands for `p`, with the machine after the call. -/
def persisted (r : PoweredMachine) (machine : GanglionStateMachine) (w : DiskWrite) (p : Position) : PoweredMachine where
  machine := machine
  disk := w.onDisk r.disk r.files
  files := r.files + 1
  restorable := w.restorable p r.restorable

/-- One event; `none` where the machine does not open. -/
def step (r : PoweredMachine) : PoweredEvent → Option PoweredMachine
  | .apply entries => some { r with machine := (r.machine.apply entries).1 }
  | .buildSnapshot w =>
    some (r.persisted (r.machine.buildSnapshot codec w.outcome).1 w r.machine.inner.position)
  | .installSnapshot stored w =>
    match positionOf codec stored with
    -- data that cannot be read: nothing is written
    | none => some r
    | some p => some (r.persisted (r.machine.installSnapshot codec stored w.outcome).1 w p)
  | .powerLoss found =>
    match openPersistent codec found with
    | .error _ => none
    | .ok machine => some (opened found machine)

/-- The writes of a call are its snapshot's bytes, and a power loss leaves what it can. -/
def Possible (r : PoweredMachine) : PoweredEvent → Prop
  | .apply _ => True
  | .buildSnapshot w => w.chunks.flatten = codec.storedToVec (builtSnapshot codec r.machine.inner)
  | .installSnapshot stored w => w.chunks.flatten = codec.storedToVec stored
  | .powerLoss found => r.disk.Survives found

/-- The machine takes its file to be what is read at the path, and a power loss leaves one of the restorable
positions. -/
structure Inv (r : PoweredMachine) : Prop where
  persistent : r.machine.persistent = true
  file_eq : r.machine.file = r.disk.read
  fresh : ∀ i, r.files ≤ i → r.disk.Fresh i
  restores : ∀ found, r.disk.Survives found → ∃ p ∈ r.restorable, Reopens codec found p

variable {codec} {r : PoweredMachine}

theorem inv_opened {found : Option Bytes} {machine : GanglionStateMachine}
    (h : openPersistent codec found = .ok machine) : Inv codec (opened found machine) := by
  obtain ⟨hp, hfile⟩ := openPersistent_persistent h
  refine ⟨hp, ?_, fun i hi => fresh_holding found (Nat.one_le_iff_ne_zero.1 hi), fun found' hs => ?_⟩
  · rw [opened, read_holding, hfile]
  · rw [survives_holding.1 hs]
    exact ⟨machine.inner.position, .head _, machine, h, rfl⟩

/-- A write of the file, with the machine that takes it as atomic. -/
theorem Inv.persisted (h : Inv codec r) {w : DiskWrite} {stored : Snapshot} {p : Position} (hholds : Holds codec p stored)
    (hw : w.chunks.flatten = codec.storedToVec stored) {machine : GanglionStateMachine}
    (hp : machine.persistent = true) (hfile : machine.file = persistFile codec r.machine stored w.outcome) :
    Inv codec (r.persisted machine w p) := by
  have hfresh : r.disk.Fresh r.files := h.fresh r.files (Nat.le_refl _)
  refine ⟨hp, ?_, fun i hi => ?_, fun found hs => ?_⟩
  · simp only [PoweredMachine.persisted]
    rw [hfile, DiskWrite.onDisk, read_replaceOps hfresh, hw, ← h.file_eq]
    unfold persistFile DiskWrite.outcome
    rw [if_pos h.persistent]
    cases replacedAfter w.chunks.length w.steps with
    | notYet => rfl
    | renamed => rfl
    | done => rfl
  · have hlt : r.files < i := hi
    exact (h.fresh i (by omega)).replaceOps (by omega) w.chunks w.steps
  · have hcases := (survives_replaceOps hfresh w.chunks w.steps).1 hs
    have hnew : Reopens codec (some w.chunks.flatten) p := by
      rw [hw]
      exact reopens_stored hholds
    simp only [PoweredMachine.persisted, DiskWrite.restorable]
    cases hn : replacedAfter w.chunks.length w.steps with
    | notYet =>
      rw [hn] at hcases
      exact h.restores found hcases
    | renamed =>
      rw [hn] at hcases
      rcases hcases with rfl | hold
      · exact ⟨p, .head _, hnew⟩
      · obtain ⟨q, hq, hr⟩ := h.restores found hold
        exact ⟨q, .tail _ hq, hr⟩
    | done =>
      rw [hn] at hcases
      rw [hcases]
      exact ⟨p, .head _, hnew⟩

/-- The file of a machine after an install. -/
theorem installSnapshot_file {sm : GanglionStateMachine} {stored : Snapshot} {p : Position}
    (h : Holds codec p stored) (o : Persist) :
    (sm.installSnapshot codec stored o).1.file = persistFile codec sm stored o ∧
      (sm.installSnapshot codec stored o).1.persistent = sm.persistent := by
  unfold installSnapshot
  rw [h.2.2]
  dsimp only
  split
  · exact ⟨rfl, rfl⟩
  · exact ⟨rfl, rfl⟩

theorem Inv.step {e : PoweredEvent} {r' : PoweredMachine} (h : Inv codec r) (he : Possible codec r e)
    (hstep : r.step codec e = some r') : Inv codec r' := by
  cases e with
  | apply entries =>
    cases Option.some.inj hstep
    exact ⟨h.persistent, h.file_eq, h.fresh, h.restores⟩
  | buildSnapshot w =>
    cases Option.some.inj hstep
    exact h.persisted (builtSnapshot_holds r.machine.inner) he
      ((buildSnapshot_persistent r.machine w.outcome).trans h.persistent) (buildSnapshot_file r.machine w.outcome)
  | installSnapshot stored w =>
    simp only [PoweredMachine.step] at hstep
    split at hstep
    · cases hstep
      exact h
    · rename_i p hpos
      cases hstep
      have hholds : Holds codec p stored := holds_of_positionOf hpos
      obtain ⟨hfile, hpers⟩ := @installSnapshot_file codec r.machine stored p hholds w.outcome
      exact h.persisted hholds he (hpers.trans h.persistent) hfile
  | powerLoss found =>
    simp only [PoweredMachine.step] at hstep
    split at hstep
    · cases hstep
    · rename_i machine hopen
      cases hstep
      exact inv_opened hopen

/-- **A power loss leaves an old snapshot or a new one, never a torn one.** In every run of applies, builds and installs
on a persistent machine, with writes that stop at any step and power losses followed by reopens anywhere, the path opens
after a further power loss, on the position that the last write to return `Ok` was for or on that of a later write that
had come to its rename; and as long as the power stays on the path reads as the machine's model says. -/
theorem power_loss_restores {events : List PoweredEvent}
    (hrun : Run (PoweredMachine.step codec) (Possible codec) start events r) :
    r.machine.file = r.disk.read ∧ ∀ found, r.disk.Survives found →
      ∃ machine, openPersistent codec found = .ok machine ∧ machine.inner.position ∈ r.restorable := by
  have hinv : Inv codec r := hrun.invariant (fun _ _ _ hg he h => h.step hg he) (inv_opened rfl)
  refine ⟨hinv.file_eq, fun found hs => ?_⟩
  obtain ⟨p, hp, machine, hopen, hpos⟩ := hinv.restores found hs
  exact ⟨machine, hopen, by rw [hpos]; exact hp⟩

/-- A machine that has set an attribute, and the write of its snapshot in one piece, up to the rename. -/
noncomputable def renamedOnly : List PoweredEvent :=
  let entries : List Entry := [⟨⟨⟨1, 0⟩, 1⟩, .normal (.setAttribute "mode" "active")⟩]
  [.apply entries,
    .buildSnapshot
      ⟨[serdeSnapshot.storedToVec (builtSnapshot serdeSnapshot ((onFile none).apply entries).1.inner)], 3⟩]

/-- When the power is lost before the directory is synced, the path may be empty still, and opens. -/
theorem power_loss_restores_renamedOnly :
    ∃ r, Run (PoweredMachine.step serdeSnapshot) (Possible serdeSnapshot) start renamedOnly r ∧
      r.disk.Survives none ∧ ∃ machine, openPersistent serdeSnapshot none = .ok machine ∧
        machine.inner.position ∈ r.restorable := by
  have hrun : Run (PoweredMachine.step serdeSnapshot) (Possible serdeSnapshot) start renamedOnly _ :=
    .cons trivial rfl (.cons (List.append_nil _) rfl (.nil _))
  refine ⟨_, hrun, ?_, (power_loss_restores hrun).2 none ?_⟩
  · exact ⟨none, .tail _ (.head _), .none⟩
  · exact ⟨none, .tail _ (.head _), .none⟩

end PoweredMachine

end Ganglion
