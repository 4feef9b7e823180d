import Ganglion.Runtime.Raft

/-!
# The state machine

`GanglionStateMachine`: applying committed entries (`apply`), building, installing and reloading snapshots. A machine
carries the content of its snapshot file; writing the file is atomic (tmp, sync, rename), so a write either replaces the
content or leaves it, and it can fail before or after the rename (`Persist`).

JSON is a parameter (`SnapshotCodec`): the text of a value and a reader that accepts that text. Only the shape that
serde sees is the program's own (`SnapshotWire`: the assignments are a sequence of pairs), and reading it back gives the
snapshot (`ofWire_toWire`).

* `Position` is the triple that entries move together: state, last applied id, membership.
* `apply_position`, `apply_replies`: a batch is its entries one after another, with the same replies.
* `Holds`: a snapshot stands for a position. Building makes one (`builtSnapshot_holds`), installing and reopening
  restore it (`installUpdate_position`, `openPersistent_stored`).
-/

namespace Ganglion

open Std

/-! ## The snapshot text -/

/-- A `CoordinationSnapshot` as serde sees it: `assignment_pairs` turns the assignment map into a sequence. -/
structure SnapshotWire where
  nodes : BTreeMap String NodeInfo
  assignments : List (ResourceIdentity × PartitionAssignment)
  resources : BTreeSet ResourceIdentity
  attributes : BTreeMap String String
  generation : UInt64

/-- `Serialize for CoordinationSnapshot`, with `assignment_pairs::serialize`. -/
def CoordinationSnapshot.toWire (s : CoordinationSnapshot) : SnapshotWire where
  nodes := s.nodes
  assignments := s.assignments.toList
  resources := s.resources
  attributes := s.attributes
  generation := s.generation

/-- `Deserialize for CoordinationSnapshot`, with `assignment_pairs::deserialize`. -/
def CoordinationSnapshot.ofWire (w : SnapshotWire) : CoordinationSnapshot where
  nodes := w.nodes
  assignments := OrdMap.ofPairs w.assignments
  resources := w.resources
  attributes := w.attributes
  generation := w.generation

/-- The pair sequence loses nothing. -/
@[simp] theorem ofWire_toWire (s : CoordinationSnapshot) : CoordinationSnapshot.ofWire s.toWire = s := by
  simp [CoordinationSnapshot.ofWire, CoordinationSnapshot.toWire, OrdMap.ofPairs_toList]

/-- What the state machine takes from serde_json and openraft: texts that read back, and the text of a leader id. -/
structure SnapshotCodec where
  /-- `serde_json::to_vec` on a coordination snapshot. -/
  stateToVec : SnapshotWire → Bytes
  /-- `serde_json::from_slice` to a coordination snapshot. -/
  stateFromSlice : Bytes → Option SnapshotWire
  /-- `serde_json::to_vec` on a `StoredSnapshot`. -/
  storedToVec : Snapshot → Bytes
  /-- `serde_json::from_slice` to a `StoredSnapshot`. -/
  storedFromSlice : Bytes → Option Snapshot
  /-- `Display for LeaderId`. -/
  showLeader : LeaderId → String
  state_roundTrip : ∀ w, stateFromSlice (stateToVec w) = some w
  state_nonempty : ∀ w, stateToVec w ≠ []
  stored_roundTrip : ∀ s, storedFromSlice (storedToVec s) = some s

namespace SnapshotCodec

variable (codec : SnapshotCodec)

/-- The `data` of a snapshot of `s`. -/
def encode (s : CoordinationSnapshot) : Bytes := codec.stateToVec s.toWire

/-- Reading `data`: no bytes stand for the default state. -/
def decode (data : Bytes) : Option CoordinationSnapshot :=
  if data.isEmpty then some .default else (codec.stateFromSlice data).map .ofWire

@[simp] theorem decode_encode (s : CoordinationSnapshot) : codec.decode (codec.encode s) = some s := by
  have hne : (codec.encode s).isEmpty = false := List.isEmpty_eq_false_iff.2 (codec.state_nonempty s.toWire)
  simp only [decode, hne, Bool.false_eq_true, if_false]
  simp [encode, codec.state_roundTrip]

end SnapshotCodec

/-! ## The machine -/

/-- `StateMachineInner`. -/
structure StateMachineInner where
  lastApplied : Option LogId
  lastMembership : StoredMembership
  state : CoordinationSnapshot
  snapshotIdx : UInt64
  currentSnapshot : Option Snapshot
  deriving DecidableEq

/-- `StateMachineInner::default`. -/
def StateMachineInner.default : StateMachineInner where
  lastApplied := none
  lastMembership := .default
  state := .default
  snapshotIdx := 0
  currentSnapshot := none

/-- `GanglionStateMachine`: the locked state, the value of the watch channel, whether it has a snapshot path, and what
the file at that path holds. -/
structure GanglionStateMachine where
  inner : StateMachineInner
  committed : CoordinationSnapshot
  persistent : Bool
  file : Option Bytes
  deriving DecidableEq

/-- `GanglionStateMachine::default`. -/
def GanglionStateMachine.default : GanglionStateMachine := ⟨.default, .default, false, none⟩

/-- How a write of the snapshot file ends. -/
inductive Persist where
  | ok
  | failedBeforeRename
  /-- The rename is done, the parent directory is not synced. -/
  | failedAfterRename
  deriving DecidableEq

namespace GanglionStateMachine

variable (codec : SnapshotCodec)

/-- The file after `persist_snapshot` ends as `o`. -/
def persistFile (sm : GanglionStateMachine) (stored : Snapshot) (o : Persist) : Option Bytes :=
  if sm.persistent then
    match o with
    | .failedBeforeRename => sm.file
    | _ => some (codec.storedToVec stored)
  else sm.file

/-- Whether `persist_snapshot` returns `Ok`. -/
def persistOk (sm : GanglionStateMachine) (o : Persist) : Bool := !sm.persistent || o == .ok

/-- The snapshot `build_snapshot` makes of the locked state. -/
def builtSnapshot (inner : StateMachineInner) : Snapshot where
  snapshotMeta :=
    { lastLogId := inner.lastApplied
      lastMembership := inner.lastMembership
      snapshotId :=
        match inner.lastApplied with
        | some last => s!"{codec.showLeader last.leaderId}-{last.index}-{inner.snapshotIdx + 1}"
        | none => s!"--{inner.snapshotIdx + 1}" }
  data := codec.encode inner.state

/-- `build_snapshot`. -/
def buildSnapshot (sm : GanglionStateMachine) (o : Persist) : GanglionStateMachine × Except StorageError Snapshot :=
  let stored := builtSnapshot codec sm.inner
  let inner := { sm.inner with snapshotIdx := sm.inner.snapshotIdx + 1 }
  let file := persistFile codec sm stored o
  if persistOk sm o then
    ({ sm with inner := { inner with currentSnapshot := some stored }, file := file }, .ok stored)
  else ({ sm with inner := inner, file := file }, .error .writeSnapshot)

/-- The locked update at the end of `install_snapshot`. -/
def installUpdate (sm : GanglionStateMachine) (stored : Snapshot) (state : CoordinationSnapshot) :
    GanglionStateMachine :=
  { sm with
    inner := { sm.inner with
      lastApplied := stored.snapshotMeta.lastLogId
      lastMembership := stored.snapshotMeta.lastMembership
      state := state
      currentSnapshot := some stored }
    committed := state }

/-- `install_snapshot`. -/
def installSnapshot (sm : GanglionStateMachine) (stored : Snapshot) (o : Persist) :
    GanglionStateMachine × Except StorageError Unit :=
  match codec.decode stored.data with
  | none => (sm, .error .readSnapshot)
  | some state =>
    let sm' := { sm with file := persistFile codec sm stored o }
    if persistOk sm o then (sm'.installUpdate stored state, .ok ()) else (sm', .error .writeSnapshot)

/-- The machine `persistent` starts from. -/
def onFile (file : Option Bytes) : GanglionStateMachine :=
  { GanglionStateMachine.default with persistent := true, file := file }

/-- `GanglionStateMachine::persistent` on what the file at the path holds. -/
def openPersistent (file : Option Bytes) : Except StorageError GanglionStateMachine :=
  match file with
  | none => .ok (onFile file)
  | some bytes =>
    match codec.storedFromSlice bytes with
    | none => .error .readSnapshot
    | some stored =>
      match codec.decode stored.data with
      | none => .error .readSnapshot
      | some state => .ok ((onFile file).installUpdate stored state)

end GanglionStateMachine

/-! ## Applying entries -/

/-- What one turn of the loop of `apply` does to the locked state and the flag, and its reply. -/
def applyEntry (inner : StateMachineInner) (entry : Entry) : StateMachineInner × Bool × MetadataRaftResponse :=
  let inner := { inner with lastApplied := some entry.logId }
  match entry.payload with
  | .blank => (inner, false, ⟨true, none, inner.state⟩)
  | .normal command =>
    let a := applyCommand inner.state command
    ({ inner with state := a.state }, a.stateChanged, ⟨a.rejection.isNone, a.rejection, a.state⟩)
  | .membership membership =>
    let inner := { inner with lastMembership := ⟨some entry.logId, membership⟩ }
    (inner, false, ⟨true, none, inner.state⟩)

/-- The loop of `apply`: the locked state, the flag `state_changed` and the replies. -/
def applyLoop (inner : StateMachineInner) (changed : Bool) (replies : List MetadataRaftResponse) :
    List Entry → StateMachineInner × Bool × List MetadataRaftResponse
  | [] => (inner, changed, replies)
  | entry :: entries =>
    let r := applyEntry inner entry
    applyLoop r.1 (changed || r.2.1) (replies ++ [r.2.2]) entries

/-- `apply`. -/
def GanglionStateMachine.apply (sm : GanglionStateMachine) (entries : List Entry) :
    GanglionStateMachine × List MetadataRaftResponse :=
  let r := applyLoop sm.inner false [] entries
  ({ sm with inner := r.1, committed := if r.2.1 then r.1.state else sm.committed }, r.2.2)

/-! ## Positions -/

/-- How far a machine has come in the committed log: what entries change and snapshots carry. -/
structure Position where
  lastApplied : Option LogId
  lastMembership : StoredMembership
  state : CoordinationSnapshot
  deriving DecidableEq

/-- The position of a machine that has applied nothing. -/
def Position.start : Position := ⟨none, .default, .default⟩

def StateMachineInner.position (inner : StateMachineInner) : Position :=
  ⟨inner.lastApplied, inner.lastMembership, inner.state⟩

/-- The position after one entry. -/
def Position.apply (p : Position) (e : Entry) : Position :=
  match e.payload with
  | .blank => { p with lastApplied := some e.logId }
  | .normal command => { p with lastApplied := some e.logId, state := commit p.state command }
  | .membership m => { p with lastApplied := some e.logId, lastMembership := ⟨some e.logId, m⟩ }

/-- The reply to one entry. -/
def Position.reply (p : Position) (e : Entry) : MetadataRaftResponse :=
  match e.payload with
  | .normal command =>
    let a := applyCommand p.state command
    ⟨a.rejection.isNone, a.rejection, a.state⟩
  | _ => ⟨true, none, p.state⟩

/-- The replies to entries applied one after another. -/
def Position.replies : Position → List Entry → List MetadataRaftResponse
  | _, [] => []
  | p, e :: es => p.reply e :: (p.apply e).replies es

@[simp] theorem Position.apply_lastApplied (p : Position) (e : Entry) : (p.apply e).lastApplied = some e.logId := by
  unfold Position.apply
  split <;> rfl

theorem applyEntry_position (inner : StateMachineInner) (e : Entry) :
    (applyEntry inner e).1.position = inner.position.apply e := by
  unfold applyEntry Position.apply
  cases e.payload <;> rfl

theorem applyEntry_reply (inner : StateMachineInner) (e : Entry) :
    (applyEntry inner e).2.2 = inner.position.reply e := by
  unfold applyEntry Position.reply
  cases e.payload <;> rfl

theorem applyEntry_currentSnapshot (inner : StateMachineInner) (e : Entry) :
    (applyEntry inner e).1.currentSnapshot = inner.currentSnapshot := by
  unfold applyEntry
  cases e.payload <;> rfl

theorem applyLoop_position (es : List Entry) (inner : StateMachineInner) (b : Bool) (rs : List MetadataRaftResponse) :
    (applyLoop inner b rs es).1.position = es.foldl Position.apply inner.position := by
  induction es generalizing inner b rs with
  | nil => rfl
  | cons e es ih => simp only [applyLoop, List.foldl_cons, ih, applyEntry_position]

theorem applyLoop_replies (es : List Entry) (inner : StateMachineInner) (b : Bool) (rs : List MetadataRaftResponse) :
    (applyLoop inner b rs es).2.2 = rs ++ inner.position.replies es := by
  induction es generalizing inner b rs with
  | nil => simp [applyLoop, Position.replies]
  | cons e es ih => simp [applyLoop, ih, Position.replies, applyEntry_position, applyEntry_reply]

theorem applyLoop_currentSnapshot (es : List Entry) (inner : StateMachineInner) (b : Bool)
    (rs : List MetadataRaftResponse) : (applyLoop inner b rs es).1.currentSnapshot = inner.currentSnapshot := by
  induction es generalizing inner b rs with
  | nil => rfl
  | cons e es ih => simp only [applyLoop, ih, applyEntry_currentSnapshot]

namespace GanglionStateMachine

/-- A batch moves the machine as its entries do one by one. -/
theorem apply_position (sm : GanglionStateMachine) (es : List Entry) :
    (sm.apply es).1.inner.position = es.foldl Position.apply sm.inner.position := applyLoop_position es _ _ _

/-- A batch is answered as its entries are one by one. -/
theorem apply_replies (sm : GanglionStateMachine) (es : List Entry) :
    (sm.apply es).2 = sm.inner.position.replies es := by
  simp [apply, applyLoop_replies]

@[simp] theorem apply_currentSnapshot (sm : GanglionStateMachine) (es : List Entry) :
    (sm.apply es).1.inner.currentSnapshot = sm.inner.currentSnapshot := applyLoop_currentSnapshot es _ _ _

@[simp] theorem apply_file (sm : GanglionStateMachine) (es : List Entry) : (sm.apply es).1.file = sm.file := rfl

/-! ## Snapshots -/

variable (codec : SnapshotCodec)

/-- The snapshot stands for the position. -/
def Holds (p : Position) (s : Snapshot) : Prop :=
  s.snapshotMeta.lastLogId = p.lastApplied ∧ s.snapshotMeta.lastMembership = p.lastMembership ∧
    codec.decode s.data = some p.state

variable {codec}

theorem builtSnapshot_holds (inner : StateMachineInner) : Holds codec inner.position (builtSnapshot codec inner) :=
  ⟨rfl, rfl, codec.decode_encode inner.state⟩

theorem installUpdate_position {sm : GanglionStateMachine} {s : Snapshot} {p : Position} (h : Holds codec p s) :
    (sm.installUpdate s p.state).inner.position = p := by
  obtain ⟨h₁, h₂, _⟩ := h
  simp only [installUpdate, StateMachineInner.position, h₁, h₂]

/-- What the snapshot file can hold after a write: the old content or the new snapshot. -/
theorem persistFile_cases (sm : GanglionStateMachine) (s : Snapshot) (o : Persist) :
    persistFile codec sm s o = sm.file ∨ persistFile codec sm s o = some (codec.storedToVec s) := by
  unfold persistFile
  split
  · cases o
    · exact Or.inr rfl
    · exact Or.inl rfl
    · exact Or.inr rfl
  · exact Or.inl rfl

/-- Building leaves the position. -/
theorem buildSnapshot_position (sm : GanglionStateMachine) (o : Persist) :
    (sm.buildSnapshot codec o).1.inner.position = sm.inner.position := by
  unfold buildSnapshot
  dsimp only
  split <;> rfl

theorem buildSnapshot_file (sm : GanglionStateMachine) (o : Persist) :
    (sm.buildSnapshot codec o).1.file = persistFile codec sm (builtSnapshot codec sm.inner) o := by
  unfold buildSnapshot
  dsimp only
  split <;> rfl

theorem buildSnapshot_persistent (sm : GanglionStateMachine) (o : Persist) :
    (sm.buildSnapshot codec o).1.persistent = sm.persistent := by
  unfold buildSnapshot
  dsimp only
  split <;> rfl

/-- Installing a snapshot whose write succeeds. -/
theorem installSnapshot_ok {sm : GanglionStateMachine} {s : Snapshot} {p : Position} (h : Holds codec p s) {o : Persist}
    (ho : persistOk sm o = true) :
    (sm.installSnapshot codec s o).1 = installUpdate { sm with file := persistFile codec sm s o } s p.state := by
  simp [installSnapshot, h.2.2, ho]

/-- Reopening on the text of a snapshot restores the position it stands for. -/
theorem openPersistent_stored {s : Snapshot} {p : Position} (h : Holds codec p s) :
    openPersistent codec (some (codec.storedToVec s)) =
      .ok ((onFile (some (codec.storedToVec s))).installUpdate s p.state) := by
  simp only [openPersistent, codec.stored_roundTrip, h.2.2]

end GanglionStateMachine

end Ganglion
