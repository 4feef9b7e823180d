import Ganglion.Lib.Arc
import Ganglion.Lib.Replay
import Ganglion.Runtime.StateMachine

/-!
# Shared snapshots

The collections of a `CoordinationSnapshot` are `Shared`: a copy of a snapshot has the same cells, and `deref_mut` copies
a collection first when another snapshot still has it. Here the state machine runs on counted cells: its state, the value
of the watch channel, and the snapshots in replies, with watchers, in commands or with a planner are rows of handles, and
`apply` reads through them and writes through `make_mut`, access by access as the source has it.

* `applying`: what `apply_command` reads and in which order it writes; `applying_edits` says that the writes come to
  `applyCommand`.
* `HoldsRows`: the cells stand for plain snapshots, with exact counts. One lemma for each access, then `HoldsRows.step`.
* `shared_refines`: on cells the machine does what it does on plain values, whoever holds or writes copies meanwhile.
* `shared_copies`: a collection is copied only for commands that write it, once for each.
-/

namespace Ganglion

open OrdMap

/-! ## Snapshots as handles -/

/-- The shared collections of a snapshot. -/
inductive Column where
  | nodes
  | assignments
  | resources
  | attributes
  deriving DecidableEq

/-- What a collection is. -/
def Column.Carrier : Column → Type
  | .nodes => BTreeMap String NodeInfo
  | .assignments => BTreeMap ResourceIdentity PartitionAssignment
  | .resources => BTreeSet ResourceIdentity
  | .attributes => BTreeMap String String

/-- `Shared::default`. -/
def Column.default : (c : Column) → c.Carrier
  | .nodes => (∅ : BTreeMap String NodeInfo)
  | .assignments => (∅ : BTreeMap ResourceIdentity PartitionAssignment)
  | .resources => (∅ : BTreeSet ResourceIdentity)
  | .attributes => (∅ : BTreeMap String String)

/-- The field of a plain snapshot. -/
def Column.get : (c : Column) → CoordinationSnapshot → c.Carrier
  | .nodes, s => s.nodes
  | .assignments, s => s.assignments
  | .resources, s => s.resources
  | .attributes, s => s.attributes

/-- One access through `deref_mut`, or one to the generation, which is not shared. -/
inductive SnapshotEdit where
  | collection (c : Column) (f : c.Carrier → c.Carrier)
  | generation (f : UInt64 → UInt64)

namespace SnapshotEdit

def nodes (f : BTreeMap String NodeInfo → BTreeMap String NodeInfo) : SnapshotEdit := .collection .nodes f

def assignments (f : BTreeMap ResourceIdentity PartitionAssignment → BTreeMap ResourceIdentity PartitionAssignment) :
    SnapshotEdit := .collection .assignments f

def resources (f : BTreeSet ResourceIdentity → BTreeSet ResourceIdentity) : SnapshotEdit := .collection .resources f

def attributes (f : BTreeMap String String → BTreeMap String String) : SnapshotEdit := .collection .attributes f

/-- The edit of a plain snapshot. -/
def run : SnapshotEdit → CoordinationSnapshot → CoordinationSnapshot
  | .collection .nodes f, s => { s with nodes := f s.nodes }
  | .collection .assignments f, s => { s with assignments := f s.assignments }
  | .collection .resources f, s => { s with resources := f s.resources }
  | .collection .attributes f, s => { s with attributes := f s.attributes }
  | .generation f, s => { s with generation := f s.generation }

/-- The edit writes the collection. -/
def Writes (c : Column) : SnapshotEdit → Prop
  | .collection d _ => d = c
  | .generation _ => False

end SnapshotEdit

/-- All snapshots there are: a row is an owner, with a handle in each collection and a generation. -/
structure SharedSnapshots where
  cells : (c : Column) → Arcs c.Carrier
  generations : List (Option UInt64)

namespace SharedSnapshots

/-- No snapshot. -/
def empty : SharedSnapshots := ⟨fun c => .empty c.default, []⟩

/-- What an owner reads. -/
def read (h : SharedSnapshots) (i : Nat) : Option CoordinationSnapshot := do
  let nodes ← (h.cells .nodes).deref i
  let assignments ← (h.cells .assignments).deref i
  let resources ← (h.cells .resources).deref i
  let attributes ← (h.cells .attributes).deref i
  let generation ← h.generations[i]?.join
  return ⟨nodes, assignments, resources, attributes, generation⟩

/-- A decoded snapshot, or `CoordinationSnapshot::default`: `Shared::new` of each collection. -/
def fresh (h : SharedSnapshots) (s : CoordinationSnapshot) : SharedSnapshots where
  cells c := (h.cells c).fresh (c.get s)
  generations := h.generations ++ [some s.generation]

/-- `CoordinationSnapshot::clone`. -/
def share (h : SharedSnapshots) (i : Nat) : SharedSnapshots where
  cells c := (h.cells c).share i
  generations := h.generations ++ [h.generations[i]?.join]

/-- A snapshot is dropped. -/
def release (h : SharedSnapshots) (i : Nat) : SharedSnapshots where
  cells c := (h.cells c).release i
  generations := h.generations.set i none

/-- A snapshot is moved to where another was. -/
def move (h : SharedSnapshots) (i j : Nat) : SharedSnapshots where
  cells c := (h.cells c).move i j
  generations := (h.generations.set j h.generations[i]?.join).set i none

/-- `send_replace` of a clone. -/
def assign (h : SharedSnapshots) (i j : Nat) : SharedSnapshots where
  cells c := (h.cells c).assign i j
  generations := h.generations.set j h.generations[i]?.join

/-- One access to a snapshot, through `Shared::deref_mut` where it writes a collection. -/
def edit (h : SharedSnapshots) (i : Nat) : SnapshotEdit → SharedSnapshots
  | .collection c f => { h with cells := Function.update h.cells c ((h.cells c).makeMut i f) }
  | .generation f => { h with generations := h.generations.modify i (Option.map f) }

/-- Accesses one after another. -/
def editAll (h : SharedSnapshots) (i : Nat) (edits : List SnapshotEdit) : SharedSnapshots :=
  edits.foldl (fun h e => h.edit i e) h

theorem cells_edit (h : SharedSnapshots) (i : Nat) (c : Column) (f : c.Carrier → c.Carrier) :
    (h.edit i (.collection c f)).cells c = (h.cells c).makeMut i f := Function.update_self _ _ _

/-- The other collections keep their cells. -/
theorem cells_edit_of_not_writes {c : Column} {e : SnapshotEdit} (hw : ¬e.Writes c) (h : SharedSnapshots) (i : Nat) :
    (h.edit i e).cells c = h.cells c := by
  cases e with
  | generation f => rfl
  | collection d f =>
    have hne : c ≠ d := fun hc => hw hc.symm
    exact Function.update_of_ne hne _ _

end SharedSnapshots

/-! ## The accesses of `apply_command` -/

/-- How `apply_command` goes on after it has read the state: what it writes, whether it ends in
`inner.state = snapshot`, its answer and its flag. -/
structure Applying where
  edits : List SnapshotEdit
  replaces : Bool
  rejection : Option MetadataRejection
  stateChanged : Bool

namespace Applying

/-- `return Some(rejection)`. -/
def reject (r : MetadataRejection) : Applying := ⟨[], false, some r, false⟩

/-- `return None` after some writes. -/
def silent (edits : List SnapshotEdit) : Applying := ⟨edits, false, none, false⟩

/-- `generation += 1; state_changed = true; return None` after some writes. -/
def bump (edits : List SnapshotEdit) : Applying := ⟨edits ++ [.generation (· + 1)], false, none, true⟩

/-- The end of `apply_command`, for the commands with a snapshot. -/
def replace (s snapshot : CoordinationSnapshot) : Applying :=
  if snapshot.generation < s.generation then reject .staleGeneration else ⟨[], true, none, true⟩

/-- `CompareAndSetAttribute` and the end of its guarded form. -/
def setIfExpected (s : CoordinationSnapshot) (key : String) (expected : Option String) (value : String) : Applying :=
  let actual := s.attributes[key]?
  if actual ≠ expected then reject (.attributeMismatch key actual)
  else if actual ≠ some value then bump [.attributes (·.insert key value)]
  else silent []

/-- The conditional deregistrations. Both writes are made whether or not they change something. -/
def deregisterIfExpected (s : CoordinationSnapshot) (resource : ResourceIdentity) (key : String)
    (expected retirement : Option String) : Applying :=
  let actual := s.attributes[key]?
  if actual ≠ expected then reject (.attributeMismatch key actual)
  else
    let removed := decide (resource ∈ s.resources)
    match retirement with
    | some value =>
      let edits := [.resources (·.erase resource), .attributes (·.insert key value)]
      if removed || decide (actual ≠ some value) then bump edits else silent edits
    | none =>
      let edits := [.resources (·.erase resource), .attributes (·.erase key)]
      if removed || actual.isSome then bump edits else silent edits

end Applying

open Applying in
/-- `apply_command` as accesses. `insert` and `remove` take `&mut self`, so they go through `deref_mut` even where they
change nothing. -/
def applying (s : CoordinationSnapshot) : MetadataRaftCommand → Applying
  | .applySnapshot snapshot => replace s snapshot
  | .applySnapshotGuarded expectedGeneration snapshot =>
    if s.generation ≠ expectedGeneration then reject (.generationMismatch expectedGeneration s.generation)
    else replace s snapshot
  | .updatePartitionGuarded expectedGeneration assignment attributes =>
    if s.generation ≠ expectedGeneration then reject (.generationMismatch expectedGeneration s.generation)
    else bump (.assignments (·.insert assignment.resource assignment) ::
      attributes.toList.map fun p =>
        match p.2 with
        | some value => .attributes (·.insert p.1 value)
        | none => .attributes (·.erase p.1))
  | .registerNode node =>
    match s.nodes[node.nodeId]? with
    | some existing =>
      if existing = node then silent []
      else if existing.endpoint = node.endpoint ∧ existing.adminEndpoint = node.adminEndpoint then
        silent [.nodes (·.insert node.nodeId node)]
      else bump [.nodes (·.insert node.nodeId node)]
    | none => bump [.nodes (·.insert node.nodeId node)]
  | .deregisterNode nodeId =>
    if nodeId ∈ s.nodes then bump [.nodes (·.erase nodeId)] else silent [.nodes (·.erase nodeId)]
  | .registerResource resource =>
    if resource ∈ s.resources then silent [.resources (·.insert resource)]
    else bump [.resources (·.insert resource)]
  | .registerResourceWithInitialAttribute resource key value =>
    if resource ∈ s.resources then silent []
    else bump ((if resource ∈ s.assignments then [] else [.attributes (·.insert key value)]) ++
      [.resources (·.insert resource)])
  | .deregisterResource resource =>
    if resource ∈ s.resources then bump [.resources (·.erase resource)] else silent [.resources (·.erase resource)]
  | .deregisterResourceWithAttribute resource key expected => Applying.deregisterIfExpected s resource key expected none
  | .deregisterResourceReplacingAttribute resource key expected value =>
    Applying.deregisterIfExpected s resource key expected (some value)
  | .setAttribute key value =>
    if s.attributes[key]? ≠ some value then bump [.attributes (·.insert key value)] else silent []
  | .removeAttribute key =>
    if key ∈ s.attributes then bump [.attributes (·.erase key)] else silent [.attributes (·.erase key)]
  | .compareAndSetAttributeGuarded expectedGeneration key expected value =>
    if s.generation ≠ expectedGeneration then reject (.generationMismatch expectedGeneration s.generation)
    else Applying.setIfExpected s key expected value
  | .compareAndSetAttribute key expected value => Applying.setIfExpected s key expected value

/-! ## The machine on cells -/

/-- The snapshot that an entry carries. -/
def Entry.snapshot (entry : Entry) : Option CoordinationSnapshot :=
  match entry.payload with
  | .normal command => command.payload
  | _ => none

/-- A holder of a snapshot that is neither the state machine nor its channel; the rows of these come first. -/
def holderRow (k : Nat) : Nat := k + 2

/-- The cells, and the rejections answered so far. Row 0 is `inner.state`, row 1 the value of `committed_tx`. -/
structure SharedStore where
  cells : SharedSnapshots
  answers : List (Option MetadataRejection)

/-- What can happen. An entry whose command has a snapshot comes with the holder of that snapshot's handles. -/
inductive SharedEvent where
  /-- A snapshot is decoded, or made with `CoordinationSnapshot::default`. -/
  | receive (snapshot : CoordinationSnapshot)
  /-- A row is cloned: `committed_snapshot`, `borrow().clone()` of a watcher, an entry read from the log. -/
  | copy (row : Nat)
  | discard (holder : Nat)
  /-- A holder writes to its own snapshot. -/
  | edit (holder : Nat) (e : SnapshotEdit)
  | apply (arrivals : List (Entry × Nat))
  /-- `install_snapshot`, or the load at start, of what was decoded from `stored`. -/
  | install (holder : Nat) (stored : Snapshot)

namespace SharedStore

/-- A new machine: its state and the first value of its channel are made apart, each with cells of its own. -/
def start (s : CoordinationSnapshot) : SharedStore := ⟨(SharedSnapshots.empty.fresh s).fresh s, []⟩

/-- One turn of the loop of `apply`, with the flag; `none` if the holder does not have the command's snapshot. -/
def applyEntry (h : SharedStore) (arrival : Entry × Nat) : Option (SharedStore × Bool) :=
  match arrival.1.payload with
  | .normal command => do
    let s ← h.cells.read 0
    let a := applying s command
    let answers := h.answers ++ [a.rejection]
    match command.payload with
    | none => return (⟨(h.cells.editAll 0 a.edits).share 0, answers⟩, a.stateChanged)
    | some snapshot =>
      let row := holderRow arrival.2
      if h.cells.read row = some snapshot then
        let cells := if a.replaces then h.cells.move row 0 else h.cells
        -- a rejected command is dropped with its snapshot; of one that was moved nothing is left to drop
        return (⟨(cells.release row).share 0, answers⟩, a.stateChanged)
      else none
  | _ => return (⟨h.cells.share 0, h.answers ++ [none]⟩, false)

/-- The loop of `apply`. -/
def applyLoop (h : SharedStore) (changed : Bool) : List (Entry × Nat) → Option (SharedStore × Bool)
  | [] => some (h, changed)
  | arrival :: arrivals => do
    let r ← h.applyEntry arrival
    applyLoop r.1 (changed || r.2) arrivals

/-- One event; `none` where it cannot happen. -/
def step (h : SharedStore) : SharedEvent → Option SharedStore
  | .receive snapshot => some { h with cells := h.cells.fresh snapshot }
  | .copy row => some { h with cells := h.cells.share row }
  | .discard holder => some { h with cells := h.cells.release (holderRow holder) }
  | .edit holder e => some { h with cells := h.cells.edit (holderRow holder) e }
  | .apply arrivals =>
    if ∀ arrival ∈ arrivals, arrival.1.snapshot.isSome → holderRow arrival.2 < h.cells.generations.length then do
      let r ← h.applyLoop false arrivals
      return if r.2 then { r.1 with cells := r.1.cells.assign 0 1 } else r.1
    else none
  | .install holder _ => do
    let _ ← h.cells.read (holderRow holder)
    return { h with cells := (h.cells.move (holderRow holder) 0).assign 0 1 }

end SharedStore

/-! ## The machine on plain values -/

/-- The state machine with the snapshots that others hold, each a value of its own. -/
structure PlainStore where
  sm : GanglionStateMachine
  held : List (Option CoordinationSnapshot)
  answers : List (Option MetadataRejection)

namespace PlainStore

/-- All snapshots, as the rows of `SharedStore` have them. -/
def rows (p : PlainStore) : List (Option CoordinationSnapshot) :=
  some p.sm.inner.state :: some p.sm.committed :: p.held

/-- The holders whose snapshots the entries take are left without one. -/
def taken (held : List (Option CoordinationSnapshot)) (arrival : Entry × Nat) : List (Option CoordinationSnapshot) :=
  if arrival.1.snapshot.isSome then held.set arrival.2 none else held

/-- The rows after the entries: each reply is one more holder. -/
def step (p : PlainStore) : SharedEvent → PlainStore
  | .receive snapshot => { p with held := p.held ++ [some snapshot] }
  | .copy row => { p with held := p.held ++ [p.rows[row]?.join] }
  | .discard holder => { p with held := p.held.set holder none }
  | .edit holder e => { p with held := p.held.modify holder (Option.map e.run) }
  | .apply arrivals =>
    let r := p.sm.apply (arrivals.map Prod.fst)
    { sm := r.1
      held := arrivals.foldl taken p.held ++ r.2.map fun reply => some reply.snapshot
      answers := p.answers ++ r.2.map (·.rejection) }
  | .install holder stored =>
    match p.held[holder]?.join with
    | some s => { p with sm := p.sm.installUpdate stored s, held := p.held.set holder none }
    | none => p

end PlainStore

/-! ## Accesses to cells and to plain values -/

section Rows

variable {α β : Type} {rows : List (Option α)} {i : Nat}

theorem map_row (π : α → β) : (rows.map (Option.map π))[i]?.join = (rows[i]?.join).map π := by
  rw [List.getElem?_map]
  rcases rows[i]? with _ | _ | _ <;> rfl

theorem map_modify_row {π : α → β} {F : α → α} {f : β → β} (h : ∀ x, π (F x) = f (π x)) :
    (rows.modify i (Option.map F)).map (Option.map π) = (rows.map (Option.map π)).modify i (Option.map f) := by
  refine List.ext_getElem? fun k => ?_
  simp only [List.getElem?_map, List.getElem?_modify]
  by_cases hk : i = k
  · rcases rows[k]? with _ | _ | x
    · rfl
    · simp
    · simp [hk, h x]
  · rcases rows[k]? with _ | _ | x <;> simp [hk]

theorem map_modify_row_same {π : α → β} {F : α → α} (h : ∀ x, π (F x) = π x) :
    (rows.modify i (Option.map F)).map (Option.map π) = rows.map (Option.map π) := by
  rw [@map_modify_row _ _ _ _ π F id h, Option.map_id_fun]
  exact List.modify_id _ _

end Rows

/-- The cells stand for the snapshots, and all counts are exact. -/
structure HoldsRows (h : SharedSnapshots) (rows : List (Option CoordinationSnapshot)) : Prop where
  cells : ∀ c, (h.cells c).Stands (rows.map (Option.map c.get))
  generations : h.generations = rows.map (Option.map (·.generation))

namespace HoldsRows

variable {h : SharedSnapshots} {rows : List (Option CoordinationSnapshot)} {i j : Nat}

theorem empty : HoldsRows .empty [] := ⟨fun _ => ⟨Arcs.exact_empty _, rfl⟩, rfl⟩

theorem read (hh : HoldsRows h rows) (i : Nat) : h.read i = rows[i]?.join := by
  simp only [SharedSnapshots.read, (hh.cells _).deref, hh.generations, map_row]
  cases rows[i]?.join <;> rfl

theorem length (hh : HoldsRows h rows) : h.generations.length = rows.length := by rw [hh.generations, List.length_map]

theorem fresh (hh : HoldsRows h rows) (s : CoordinationSnapshot) : HoldsRows (h.fresh s) (rows ++ [some s]) := by
  refine ⟨fun c => ?_, ?_⟩
  · rw [List.map_append]
    exact (hh.cells c).fresh (c.get s)
  · rw [List.map_append, ← hh.generations]
    rfl

theorem share (hh : HoldsRows h rows) : HoldsRows (h.share i) (rows ++ [rows[i]?.join]) := by
  refine ⟨fun c => ?_, ?_⟩
  · have hc := (hh.cells c).share (i := i)
    rw [map_row] at hc
    rw [List.map_append]
    exact hc
  · rw [SharedSnapshots.share, hh.generations, map_row, List.map_append]
    rfl

theorem release (hh : HoldsRows h rows) : HoldsRows (h.release i) (rows.set i none) := by
  refine ⟨fun c => ?_, ?_⟩
  · rw [List.map_set]
    exact (hh.cells c).release
  · rw [SharedSnapshots.release, hh.generations, List.map_set, Option.map_none]

theorem assign (hh : HoldsRows h rows) (hij : i ≠ j) (hj : j < rows.length) :
    HoldsRows (h.assign i j) (rows.set j rows[i]?.join) := by
  refine ⟨fun c => ?_, ?_⟩
  · rw [List.map_set, ← map_row]
    exact (hh.cells c).assign hij (by rw [List.length_map]; exact hj)
  · rw [SharedSnapshots.assign, hh.generations, List.map_set, map_row]

theorem move (hh : HoldsRows h rows) (hij : i ≠ j) (hi : i < rows.length) (hj : j < rows.length) :
    HoldsRows (h.move i j) ((rows.set j rows[i]?.join).set i none) := by
  refine ⟨fun c => ?_, ?_⟩
  · rw [List.map_set, List.map_set, ← map_row, Option.map_none]
    exact (hh.cells c).move hij (by rw [List.length_map]; exact hi) (by rw [List.length_map]; exact hj)
  · rw [SharedSnapshots.move, hh.generations, List.map_set, List.map_set, map_row, Option.map_none]

/-- The edited collection, by the edit's own function. -/
theorem get_run (c : Column) (f : c.Carrier → c.Carrier) (s : CoordinationSnapshot) :
    c.get ((SnapshotEdit.collection c f).run s) = f (c.get s) := by
  cases c <;> rfl

/-- The other ones stay. -/
theorem get_run_of_not_writes {c : Column} {e : SnapshotEdit} (h : ¬e.Writes c) (s : CoordinationSnapshot) :
    c.get (e.run s) = c.get s := by
  cases e with
  | generation f => cases c <;> rfl
  | collection d f =>
    cases d <;> cases c <;> first | rfl | exact absurd rfl h

theorem edit (hh : HoldsRows h rows) (e : SnapshotEdit) : HoldsRows (h.edit i e) (rows.modify i (Option.map e.run)) := by
  refine ⟨fun c => ?_, ?_⟩
  · by_cases hw : e.Writes c
    · cases e with
      | generation f => exact hw.elim
      | collection d f =>
        obtain rfl : d = c := hw
        rw [map_modify_row (get_run d f), SharedSnapshots.cells_edit]
        exact (hh.cells d).makeMut
    · rw [map_modify_row_same (get_run_of_not_writes hw), SharedSnapshots.cells_edit_of_not_writes hw]
      exact hh.cells c
  · cases e with
    | collection d f =>
      rw [map_modify_row_same fun s => by cases d <;> rfl]
      exact hh.generations
    | generation f =>
      have hrun : ∀ s, ((SnapshotEdit.generation f).run s).generation = f s.generation := fun _ => rfl
      rw [map_modify_row hrun, ← hh.generations]
      rfl

/-- The edits of one row, all of them. -/
theorem editAll (hh : HoldsRows h rows) {s : CoordinationSnapshot} (hi : rows[i]? = some (some s))
    (edits : List SnapshotEdit) :
    HoldsRows (h.editAll i edits) (rows.set i (some (edits.foldl (fun s e => e.run s) s))) := by
  induction edits generalizing h rows s with
  | nil =>
    obtain ⟨hlt, hrow⟩ := List.getElem?_eq_some_iff.1 hi
    rw [List.foldl_nil, ← hrow, List.set_getElem_self]
    exact hh
  | cons e edits ih =>
    have hstep := hh.edit (i := i) e
    have hmod : rows.modify i (Option.map e.run) = rows.set i (some (e.run s)) := by
      rw [List.modify_eq_set_getElem?, hi]
      rfl
    rw [hmod] at hstep
    have hlt := (List.getElem?_eq_some_iff.1 hi).1
    have := ih hstep (List.getElem?_set_self hlt)
    rw [List.set_set] at this
    exact this

end HoldsRows

/-! ## The accesses come to the command -/

/-- The state that the accesses leave, when `snapshot` is what the command carries. -/
def Applying.result (a : Applying) (s : CoordinationSnapshot) (snapshot : Option CoordinationSnapshot) :
    CoordinationSnapshot :=
  if a.replaces then snapshot.getD s else a.edits.foldl (fun s e => e.run s) s

/-- The attribute edits one after another are the loop of the source. -/
theorem foldl_attributeEdits (updates : List (String × Option String)) (s : CoordinationSnapshot) :
    (updates.map fun p =>
      match p.2 with
      | some value => SnapshotEdit.attributes (·.insert p.1 value)
      | none => SnapshotEdit.attributes (·.erase p.1)).foldl (fun s e => e.run s) s =
    { s with attributes := updates.foldl (fun m p =>
        match p.2 with
        | some value => m.insert p.1 value
        | none => m.erase p.1) s.attributes } := by
  induction updates generalizing s with
  | nil => rfl
  | cons p updates ih =>
    obtain ⟨key, value⟩ := p
    cases value with
    | some value => exact ih _
    | none => exact ih _

/-- A write that changes nothing. -/
theorem silent_of_run_eq {s : CoordinationSnapshot} {e : SnapshotEdit} {snapshot : Option CoordinationSnapshot}
    (h : e.run s = s) :
    Applied.silent s = ⟨(Applying.silent [e]).result s snapshot, (Applying.silent [e]).rejection,
      (Applying.silent [e]).stateChanged⟩ := by
  rw [Applied.silent, Applying.silent, Applying.result, if_neg Bool.false_ne_true, List.foldl_cons, List.foldl_nil, h]

/-- The accesses of `apply_command` leave what it leaves, and it answers alike. -/
theorem applying_spec (s : CoordinationSnapshot) (command : MetadataRaftCommand) :
    applyCommand s command =
      ⟨(applying s command).result s command.payload, (applying s command).rejection,
        (applying s command).stateChanged⟩ := by
  cases command with
  | applySnapshot snapshot =>
    simp only [applyCommand, applying, replaceSnapshot, Applying.replace]
    split <;> rfl
  | applySnapshotGuarded expectedGeneration snapshot =>
    simp only [applyCommand, applying, replaceSnapshot, Applying.replace]
    split
    · rfl
    · split <;> rfl
  | updatePartitionGuarded expectedGeneration assignment attributes =>
    simp only [applyCommand, applying]
    split
    · rfl
    · simp only [Applying.bump, Applying.result, List.cons_append, List.foldl_cons, List.foldl_append,
        foldl_attributeEdits]
      rfl
  | registerNode node =>
    simp only [applyCommand, applying]
    cases s.nodes[node.nodeId]? with
    | none => rfl
    | some existing =>
      dsimp only
      split
      · rfl
      · split <;> rfl
  | deregisterNode nodeId =>
    simp only [applyCommand, applying]
    split
    · rfl
    · next hmem =>
      have herase : s.nodes.erase nodeId = s.nodes := erase_eq_self (Std.ExtTreeMap.getElem?_eq_none hmem)
      exact silent_of_run_eq (congrArg (fun nodes => { s with nodes := nodes }) herase)
  | registerResource resource =>
    simp only [applyCommand, applying]
    split
    · next hmem =>
      have hinsert : s.resources.insert resource = s.resources := insert_eq_self_of_mem hmem
      exact silent_of_run_eq (congrArg (fun resources => { s with resources := resources }) hinsert)
    · rfl
  | registerResourceWithInitialAttribute resource key value =>
    simp only [applyCommand, applying]
    split
    · rfl
    · split <;> rfl
  | deregisterResource resource =>
    simp only [applyCommand, applying]
    split
    · rfl
    · next hmem =>
      have herase : s.resources.erase resource = s.resources := erase_eq_self_of_notMem hmem
      exact silent_of_run_eq (congrArg (fun resources => { s with resources := resources }) herase)
  | deregisterResourceWithAttribute resource key expected =>
    simp only [applyCommand, applying, deregisterIfExpected, Applying.deregisterIfExpected]
    split
    · rfl
    · split <;> rfl
  | deregisterResourceReplacingAttribute resource key expected value =>
    simp only [applyCommand, applying, deregisterIfExpected, Applying.deregisterIfExpected]
    split
    · rfl
    · split <;> rfl
  | setAttribute key value =>
    simp only [applyCommand, applying]
    split <;> rfl
  | removeAttribute key =>
    simp only [applyCommand, applying]
    split
    · rfl
    · next hmem =>
      have herase : s.attributes.erase key = s.attributes := erase_eq_self (Std.ExtTreeMap.getElem?_eq_none hmem)
      exact silent_of_run_eq (congrArg (fun attributes => { s with attributes := attributes }) herase)
  | compareAndSetAttributeGuarded expectedGeneration key expected value =>
    simp only [applyCommand, applying, setIfExpected, Applying.setIfExpected]
    split
    · rfl
    · split
      · rfl
      · split <;> rfl
  | compareAndSetAttribute key expected value =>
    simp only [applyCommand, applying, setIfExpected, Applying.setIfExpected]
    split
    · rfl
    · split <;> rfl

/-- A command with a snapshot writes nothing else. -/
theorem applying_edits_of_payload (s : CoordinationSnapshot) {command : MetadataRaftCommand}
    {snapshot : CoordinationSnapshot} (h : command.payload = some snapshot) : (applying s command).edits = [] := by
  cases command with
  | applySnapshot snapshot =>
    simp only [applying, Applying.replace]
    split <;> rfl
  | applySnapshotGuarded expectedGeneration snapshot =>
    simp only [applying, Applying.replace]
    split
    · rfl
    · split <;> rfl
  | _ => cases h

/-- Only a command with a snapshot replaces the state. -/
theorem applying_replaces_of_payload (s : CoordinationSnapshot) {command : MetadataRaftCommand}
    (h : command.payload = none) : (applying s command).replaces = false := by
  cases command with
  | applySnapshot snapshot => cases h
  | applySnapshotGuarded expectedGeneration snapshot => cases h
  | _ =>
    simp only [applying, Applying.setIfExpected, Applying.deregisterIfExpected]
    repeat' split
    all_goals rfl

/-! ## The machine on cells is the machine on plain values -/

section Entries

variable {h : SharedStore} {inner : StateMachineInner} {w : CoordinationSnapshot}
  {held : List (Option CoordinationSnapshot)} {base : List (Option MetadataRejection)}
  {replies : List MetadataRaftResponse}

/-- The rows in the middle of `apply`: the replies so far are the last holders. -/
def midRows (state w : CoordinationSnapshot) (held : List (Option CoordinationSnapshot))
    (replies : List MetadataRaftResponse) : List (Option CoordinationSnapshot) :=
  some state :: some w :: (held ++ replies.map fun reply => some reply.snapshot)

theorem midRows_reply (state w : CoordinationSnapshot) (held : List (Option CoordinationSnapshot))
    (replies : List MetadataRaftResponse) (reply : MetadataRaftResponse) :
    midRows state w held (replies ++ [reply]) = midRows state w held replies ++ [some reply.snapshot] := by
  simp [midRows]

/-- One entry. -/
theorem HoldsRows.applyEntry {arrival : Entry × Nat} {r : SharedStore × Bool}
    (hh : HoldsRows h.cells (midRows inner.state w held replies))
    (hlt : arrival.1.snapshot.isSome → arrival.2 < held.length) (hr : h.applyEntry arrival = some r) :
    let e := Ganglion.applyEntry inner arrival.1
    HoldsRows r.1.cells (midRows e.1.state w (PlainStore.taken held arrival) (replies ++ [e.2.2])) ∧
      r.1.answers = h.answers ++ [e.2.2.rejection] ∧ r.2 = e.2.1 := by
  obtain ⟨⟨logId, payload⟩, k⟩ := arrival
  have hstate : (midRows inner.state w held replies)[0]?.join = some inner.state := rfl
  cases payload with
  | blank =>
    cases hr
    have hshare := hh.share (i := 0)
    rw [hstate] at hshare
    refine ⟨?_, rfl, rfl⟩
    rw [midRows_reply]
    exact hshare
  | membership membership =>
    cases hr
    have hshare := hh.share (i := 0)
    rw [hstate] at hshare
    refine ⟨?_, rfl, rfl⟩
    rw [midRows_reply]
    exact hshare
  | normal command =>
    have hspec := applying_spec inner.state command
    have hsnapshot : (⟨logId, .normal command⟩ : Entry).snapshot = command.payload := rfl
    have hread : h.cells.read 0 = some inner.state := by rw [hh.read, hstate]
    simp only [SharedStore.applyEntry, hread, Option.bind_eq_bind, Option.bind_some] at hr
    cases hpayload : command.payload with
    | none =>
      rw [hpayload] at hr
      cases hr
      have hresult : (applying inner.state command).result inner.state none =
          (applying inner.state command).edits.foldl (fun s e => e.run s) inner.state := by
        rw [Applying.result, if_neg (by rw [applying_replaces_of_payload _ hpayload]; exact Bool.false_ne_true)]
      rw [hpayload, hresult] at hspec
      have hedit := hh.editAll (i := 0) (s := inner.state) rfl (applying inner.state command).edits
      have hshare := hedit.share (i := 0)
      have htaken : PlainStore.taken held (⟨logId, .normal command⟩, k) = held := by
        simp [PlainStore.taken, hsnapshot, hpayload]
      simp only [Ganglion.applyEntry, hspec, midRows_reply, htaken]
      exact ⟨hshare, trivial, trivial⟩
    | some snapshot =>
      rw [hpayload] at hr
      dsimp only at hr
      split at hr
      · next hrow =>
        cases hr
        have hk : k < held.length := hlt (by rw [hsnapshot, hpayload]; rfl)
        have htaken : PlainStore.taken held (⟨logId, .normal command⟩, k) = held.set k none := by
          simp [PlainStore.taken, hsnapshot, hpayload]
        have hedits := applying_edits_of_payload inner.state hpayload
        have hset : ∀ state,
            (midRows state w held replies).set (holderRow k) none = midRows state w (held.set k none) replies := by
          intro state
          simp [midRows, holderRow, List.set_append_left, hk]
        rw [hpayload] at hspec
        simp only [Ganglion.applyEntry, hspec, midRows_reply, htaken, Applying.result, hedits, List.foldl_nil,
          Option.getD_some]
        refine ⟨?_, trivial, trivial⟩
        split
        · have hmove := hh.move (i := holderRow k) (j := 0) (by simp [holderRow])
            (by simp [midRows, holderRow]; omega) (by simp [midRows])
          rw [← hh.read, hrow] at hmove
          have hshare := (hmove.release (i := holderRow k)).share (i := 0)
          rw [List.set_set] at hshare
          rw [← hset snapshot]
          exact hshare
        · have hshare := (hh.release (i := holderRow k)).share (i := 0)
          rw [hset] at hshare
          exact hshare
      · cases hr

/-- The loop of `apply`. -/
theorem HoldsRows.applyLoop {arrivals : List (Entry × Nat)} {changed : Bool} {r : SharedStore × Bool}
    (hh : HoldsRows h.cells (midRows inner.state w held replies))
    (hanswers : h.answers = base ++ replies.map (·.rejection))
    (hlt : ∀ arrival ∈ arrivals, arrival.1.snapshot.isSome → arrival.2 < held.length)
    (hr : h.applyLoop changed arrivals = some r) :
    let q := Ganglion.applyLoop inner changed replies (arrivals.map Prod.fst)
    HoldsRows r.1.cells (midRows q.1.state w (arrivals.foldl PlainStore.taken held) q.2.2) ∧
      r.1.answers = base ++ q.2.2.map (·.rejection) ∧ r.2 = q.2.1 := by
  induction arrivals generalizing h inner held replies changed with
  | nil =>
    cases hr
    exact ⟨hh, hanswers, rfl⟩
  | cons arrival arrivals ih =>
    rw [SharedStore.applyLoop, Option.bind_eq_bind, Option.bind_eq_some_iff] at hr
    obtain ⟨r₁, hr₁, hr⟩ := hr
    obtain ⟨hh₁, hanswers₁, hchanged⟩ := hh.applyEntry (hlt arrival (.head _)) hr₁
    rw [hchanged] at hr
    have hlength : (PlainStore.taken held arrival).length = held.length := by
      rw [PlainStore.taken]
      split
      · exact List.length_set
      · rfl
    refine ih hh₁ ?_ (fun a ha hs => ?_) hr
    · rw [hanswers₁, hanswers, List.map_append, List.append_assoc]
      rfl
    · rw [hlength]
      exact hlt a (.tail _ ha) hs

end Entries

/-- The store on cells stands for the plain one. -/
structure Refines (h : SharedStore) (p : PlainStore) : Prop where
  cells : HoldsRows h.cells p.rows
  answers : h.answers = p.answers

namespace Refines

variable {h h' : SharedStore} {p : PlainStore}

theorem start {sm : GanglionStateMachine} (hcommitted : sm.committed = sm.inner.state) :
    Refines (.start sm.inner.state) ⟨sm, [], []⟩ := by
  have hfresh := (HoldsRows.empty.fresh sm.inner.state).fresh sm.inner.state
  refine ⟨?_, rfl⟩
  rw [PlainStore.rows, hcommitted]
  exact hfresh

/-- One event. -/
theorem step {event : SharedEvent} (hr : Refines h p) (hstep : h.step event = some h') : Refines h' (p.step event) := by
  cases event with
  | receive snapshot =>
    cases hstep
    exact ⟨hr.cells.fresh snapshot, hr.answers⟩
  | copy row =>
    cases hstep
    exact ⟨hr.cells.share, hr.answers⟩
  | discard holder =>
    cases hstep
    exact ⟨hr.cells.release, hr.answers⟩
  | edit holder e =>
    cases hstep
    exact ⟨hr.cells.edit e, hr.answers⟩
  | apply arrivals =>
    simp only [SharedStore.step] at hstep
    split at hstep
    on_goal 2 => cases hstep
    next hthere =>
    rw [Option.bind_eq_bind, Option.bind_eq_some_iff] at hstep
    obtain ⟨r, hloop, hstep⟩ := hstep
    have hlt : ∀ arrival ∈ arrivals, arrival.1.snapshot.isSome → arrival.2 < p.held.length := by
      intro arrival hmem hsome
      have hrow := hthere arrival hmem hsome
      rw [hr.cells.length, holderRow, PlainStore.rows, List.length_cons, List.length_cons] at hrow
      omega
    have hmid : HoldsRows h.cells (midRows p.sm.inner.state p.sm.committed p.held []) := by
      simpa [midRows, PlainStore.rows] using hr.cells
    have hbase : h.answers = p.answers ++ ([] : List MetadataRaftResponse).map (·.rejection) := by
      simpa using hr.answers
    obtain ⟨hcells, hanswers, hchanged⟩ := hmid.applyLoop hbase hlt hloop
    cases hstep
    rw [hchanged]
    simp only [PlainStore.step, GanglionStateMachine.apply]
    split
    · exact ⟨hcells.assign (i := 0) (j := 1) Nat.zero_ne_one (by simp [midRows]), hanswers⟩
    · exact ⟨hcells, hanswers⟩
  | install holder stored =>
    simp only [SharedStore.step, Option.bind_eq_bind, Option.bind_eq_some_iff] at hstep
    obtain ⟨s, hread, hstep⟩ := hstep
    cases hstep
    rw [hr.cells.read] at hread
    have hheld : p.held[holder]?.join = some s := hread
    have hlt : holder < p.held.length := by
      by_contra hge
      rw [List.getElem?_eq_none (Nat.le_of_not_lt hge)] at hheld
      cases hheld
    have hmove := hr.cells.move (i := holderRow holder) (j := 0) (by simp [holderRow])
      (by simp [PlainStore.rows, holderRow]; omega) (by simp [PlainStore.rows])
    rw [hread] at hmove
    have hassign := hmove.assign (i := 0) (j := 1) Nat.zero_ne_one (by simp [PlainStore.rows])
    simp only [PlainStore.step, hheld]
    exact ⟨hassign, hr.answers⟩

end Refines

namespace SharedStore

theorem refines_run {h h' : SharedStore} {p : PlainStore} {events : List SharedEvent} (hr : Refines h p)
    (hrun : Run step (fun _ _ => True) h events h') : Refines h' (events.foldl PlainStore.step p) := by
  induction hrun generalizing p with
  | nil h => exact hr
  | cons _ hstep _ ih => exact ih (hr.step hstep)

/-- **Sharing cannot be seen.** Let the state machine apply batches of entries and install snapshots while anybody
clones, drops and writes snapshots of their own. On shared cells every owner then reads what it would have with copies
of its own, and the same commands are rejected. The count of every cell is the number of the owners that have it. -/
theorem shared_refines {sm : GanglionStateMachine} {events : List SharedEvent} {h : SharedStore}
    (hcommitted : sm.committed = sm.inner.state)
    (hrun : Run step (fun _ _ => True) (start sm.inner.state) events h) :
    let p := events.foldl PlainStore.step ⟨sm, [], []⟩
    h.cells.read 0 = some p.sm.inner.state ∧ h.cells.read 1 = some p.sm.committed ∧
      (∀ k, h.cells.read (holderRow k) = p.held[k]?.join) ∧ h.answers = p.answers ∧
      ∀ c a, (h.cells.cells c).count a = (h.cells.cells c).handles.count (some a) := by
  have hr := refines_run (Refines.start hcommitted) hrun
  exact ⟨hr.cells.read 0, hr.cells.read 1, fun k => hr.cells.read (holderRow k), hr.answers,
    fun c => (hr.cells.cells c).exact.count_eq⟩

/-- A watcher clones what is committed, a node registers, and the watcher writes to its copy. -/
def watcherEvents : List SharedEvent :=
  [.copy 1, .apply [(⟨⟨⟨1, 0⟩, 1⟩, .normal (.registerNode (.new "n1" "n1:1" none))⟩, 0)],
    .edit 0 (.attributes (·.insert "seen" "1"))]

/-- The watcher has what was committed, and its own write. -/
theorem shared_refines_watcher :
    ∃ h, Run step (fun _ _ => True) (start .default) watcherEvents h ∧
      h.cells.read 2 = some { CoordinationSnapshot.default with
        attributes := (∅ : BTreeMap String String).insert "seen" "1" } := by
  have hrun : Run step (fun _ _ => True) (start .default) watcherEvents _ :=
    .cons trivial rfl (.cons trivial rfl (.cons trivial rfl (.nil _)))
  exact ⟨_, hrun, (@shared_refines .default _ _ rfl hrun).2.2.1 0⟩

end SharedStore

/-! ## What is copied -/

/-- The collections that a command writes through `deref_mut`. A snapshot that replaces the state is moved. -/
def MetadataRaftCommand.columns : MetadataRaftCommand → List Column
  | .applySnapshot _ => []
  | .applySnapshotGuarded _ _ => []
  | .updatePartitionGuarded _ _ _ => [.assignments, .attributes]
  | .registerNode _ => [.nodes]
  | .deregisterNode _ => [.nodes]
  | .registerResource _ => [.resources]
  | .registerResourceWithInitialAttribute _ _ _ => [.attributes, .resources]
  | .deregisterResource _ => [.resources]
  | .deregisterResourceWithAttribute _ _ _ => [.resources, .attributes]
  | .deregisterResourceReplacingAttribute _ _ _ _ => [.resources, .attributes]
  | .setAttribute _ _ => [.attributes]
  | .removeAttribute _ => [.attributes]
  | .compareAndSetAttributeGuarded _ _ _ _ => [.attributes]
  | .compareAndSetAttribute _ _ _ => [.attributes]

/-- What an entry can cost in a collection: one copy, if its command writes it. -/
def Entry.cost (c : Column) (entry : Entry) : Nat :=
  match entry.payload with
  | .normal command => if c ∈ command.columns then 1 else 0
  | _ => 0

/-- All costs together. -/
def totalCost (costs : List Nat) : Nat := costs.foldr Nat.add 0

theorem totalCost_cons (n : Nat) (costs : List Nat) : totalCost (n :: costs) = n + totalCost costs := rfl

/-- The cells of a collection that an event can make. -/
def SharedEvent.cost (c : Column) : SharedEvent → Nat
  | .receive _ => 1
  | .edit _ (.collection d _) => if d = c then 1 else 0
  | .apply arrivals => totalCost (arrivals.map fun arrival => arrival.1.cost c)
  | _ => 0

theorem columns_of_writes {s : CoordinationSnapshot} {command : MetadataRaftCommand} {e : SnapshotEdit} {c : Column}
    (he : e ∈ (applying s command).edits) (hw : e.Writes c) : c ∈ command.columns := by
  cases command with
  | updatePartitionGuarded expectedGeneration assignment attributes =>
    simp only [applying] at he
    split at he
    · cases he
    · rcases List.mem_append.1 he with he | he
      · rcases List.mem_cons.1 he with rfl | he
        · obtain rfl : Column.assignments = c := hw
          exact .head _
        · obtain ⟨p, _, rfl⟩ := List.mem_map.1 he
          obtain ⟨key, value⟩ := p
          have hc : Column.attributes = c := by
            cases value <;> exact hw
          exact hc ▸ .tail _ (.head _)
      · rw [List.mem_singleton.1 he] at hw
        exact hw.elim
  | _ =>
    simp only [applying, Applying.setIfExpected, Applying.deregisterIfExpected, Applying.replace] at he
    repeat' split at he
    -- each access by name: it writes one of the collections of the command, or the generation
    all_goals
      simp only [Applying.reject, Applying.silent, Applying.bump, List.cons_append, List.nil_append,
        List.mem_cons, List.not_mem_nil, or_false] at he
    all_goals rcases he with rfl | rfl | rfl
    all_goals first | exact hw.elim | (obtain rfl := hw; simp [MetadataRaftCommand.columns])

namespace SharedSnapshots

variable {h : SharedSnapshots} {i : Nat} {c : Column}

/-- The owner shares the collection with nobody. -/
def Alone (h : SharedSnapshots) (i : Nat) (c : Column) : Prop :=
  ∀ a, (h.cells c).handle i = some a → (h.cells c).count a = 1

theorem alone_edit (h : SharedSnapshots) (i : Nat) (f : c.Carrier → c.Carrier) :
    (h.edit i (.collection c f)).Alone i c := by
  intro a
  rw [cells_edit]
  exact Arcs.count_makeMut

/-- An owner that shares a collection with nobody writes it in place, however often. -/
theorem next_editAll_of_alone (edits : List SnapshotEdit) (ha : h.Alone i c) :
    ((h.editAll i edits).cells c).next = (h.cells c).next := by
  induction edits generalizing h with
  | nil => rfl
  | cons e edits ih =>
    cases e with
    | generation f => exact ih (h := h.edit i (.generation f)) ha
    | collection d f =>
      by_cases hd : d = c
      · subst hd
        have hnext := ih (alone_edit h i f)
        rw [cells_edit, Arcs.next_makeMut ha] at hnext
        exact hnext
      · have hsame := cells_edit_of_not_writes (c := c) (e := .collection d f) hd h i
        have hnext := ih (h := h.edit i (.collection d f)) (by rw [Alone, hsame]; exact ha)
        rw [hsame] at hnext
        exact hnext

/-- However many accesses there are, they copy a collection once. -/
theorem next_editAll_le {n : Nat} (h : SharedSnapshots) (i : Nat) {edits : List SnapshotEdit}
    (hn : ∀ e ∈ edits, e.Writes c → 1 ≤ n) : ((h.editAll i edits).cells c).next ≤ (h.cells c).next + n := by
  induction edits generalizing h with
  | nil => exact Nat.le_add_right _ _
  | cons e edits ih =>
    by_cases hw : e.Writes c
    · cases e with
      | generation f => exact hw.elim
      | collection d f =>
        obtain rfl : d = c := hw
        have hone := hn _ (.head _) rfl
        have hfirst := Arcs.next_makeMut_le (c := h.cells d) (i := i) (f := f)
        have hrest := next_editAll_of_alone edits (alone_edit h i f)
        rw [cells_edit] at hrest
        exact hrest ▸ Nat.le_trans hfirst (Nat.add_le_add_left hone _)
    · have hrest := ih (h.edit i e) fun e' he' => hn e' (.tail _ he')
      rw [cells_edit_of_not_writes hw] at hrest
      exact hrest

end SharedSnapshots

namespace SharedStore

variable {h h' : SharedStore} {c : Column}

theorem next_applyEntry {arrival : Entry × Nat} {r : SharedStore × Bool} (hr : h.applyEntry arrival = some r) :
    (r.1.cells.cells c).next ≤ (h.cells.cells c).next + arrival.1.cost c := by
  obtain ⟨⟨logId, payload⟩, k⟩ := arrival
  cases payload with
  | blank =>
    cases hr
    exact Nat.le_of_eq Arcs.next_share
  | membership membership =>
    cases hr
    exact Nat.le_of_eq Arcs.next_share
  | normal command =>
    simp only [applyEntry, Option.bind_eq_bind, Option.bind_eq_some_iff] at hr
    obtain ⟨s, _, hr⟩ := hr
    split at hr
    · cases hr
      have hone : ∀ e ∈ (applying s command).edits, e.Writes c → 1 ≤ Entry.cost c ⟨logId, .normal command⟩ := by
        intro e he hw
        simp only [Entry.cost, columns_of_writes he hw, if_true, Nat.le_refl]
      have hedits := SharedSnapshots.next_editAll_le h.cells 0 hone
      exact Nat.le_trans (Nat.le_of_eq Arcs.next_share) hedits
    · split at hr
      · cases hr
        refine Nat.le_trans (Nat.le_of_eq ?_) (Nat.le_add_right _ _)
        dsimp only [SharedSnapshots.share, SharedSnapshots.release]
        rw [Arcs.next_share, Arcs.next_release]
        split
        · exact Arcs.next_move
        · rfl
      · cases hr

theorem next_applyLoop {arrivals : List (Entry × Nat)} {changed : Bool} {r : SharedStore × Bool}
    (hr : h.applyLoop changed arrivals = some r) :
    (r.1.cells.cells c).next ≤ (h.cells.cells c).next + totalCost (arrivals.map fun arrival => arrival.1.cost c) := by
  induction arrivals generalizing h changed with
  | nil =>
    cases hr
    exact Nat.le_add_right _ _
  | cons arrival arrivals ih =>
    rw [applyLoop, Option.bind_eq_bind, Option.bind_eq_some_iff] at hr
    obtain ⟨r₁, hr₁, hr⟩ := hr
    have hfirst := @next_applyEntry _ c _ _ hr₁
    have hrest := ih hr
    rw [List.map_cons, totalCost_cons]
    omega

theorem next_step {event : SharedEvent} (hstep : h.step event = some h') :
    (h'.cells.cells c).next ≤ (h.cells.cells c).next + event.cost c := by
  cases event with
  | receive snapshot =>
    cases hstep
    exact Nat.le_refl _
  | copy row =>
    cases hstep
    exact Nat.le_of_eq Arcs.next_share
  | discard holder =>
    cases hstep
    exact Nat.le_of_eq Arcs.next_release
  | edit holder e =>
    cases hstep
    refine @SharedSnapshots.next_editAll_le c _ h.cells (holderRow holder) [e] fun e' he' hw => ?_
    cases List.mem_singleton.1 he'
    cases e with
    | generation f => exact hw.elim
    | collection d f =>
      obtain rfl : d = c := hw
      simp [SharedEvent.cost]
  | apply arrivals =>
    simp only [step] at hstep
    split at hstep
    · rw [Option.bind_eq_bind, Option.bind_eq_some_iff] at hstep
      obtain ⟨r, hloop, hstep⟩ := hstep
      cases hstep
      refine Nat.le_trans (Nat.le_of_eq ?_) (next_applyLoop hloop)
      split
      · exact Arcs.next_assign
      · rfl
    · cases hstep
  | install holder stored =>
    simp only [step, Option.bind_eq_bind, Option.bind_eq_some_iff] at hstep
    obtain ⟨s, _, hstep⟩ := hstep
    cases hstep
    exact Nat.le_of_eq (Arcs.next_assign.trans Arcs.next_move)

/-- **Copies are paid by the commands that write.** The cells of a collection that are ever made in a run are the first
two, one for each decoded snapshot, and at most one for each entry whose command writes the collection and for each write
of a holder. Replies, watchers, clones and published states make none. -/
theorem shared_copies {s : CoordinationSnapshot} {events : List SharedEvent}
    (hrun : Run step (fun _ _ => True) (start s) events h) (c : Column) :
    (h.cells.cells c).next ≤ 2 + totalCost (events.map (·.cost c)) := by
  have hle : ∀ {h h' : SharedStore} {events : List SharedEvent}, Run step (fun _ _ => True) h events h' →
      (h'.cells.cells c).next ≤ (h.cells.cells c).next + totalCost (events.map (·.cost c)) := by
    intro h h' events hrun
    induction hrun with
    | nil h => exact Nat.le_refl _
    | cons _ hstep _ ih =>
      have hfirst := @next_step _ _ c _ hstep
      rw [List.map_cons, totalCost_cons]
      omega
  exact hle hrun

/-- In the watcher's run the nodes are copied at most once, and the assignments not at all. -/
theorem shared_copies_watcher :
    ∃ h, Run step (fun _ _ => True) (start .default) watcherEvents h ∧
      (h.cells.cells .nodes).next ≤ 3 ∧ (h.cells.cells .assignments).next ≤ 2 := by
  have hrun : Run step (fun _ _ => True) (start .default) watcherEvents _ :=
    .cons trivial rfl (.cons trivial rfl (.cons trivial rfl (.nil _)))
  exact ⟨_, hrun, shared_copies hrun .nodes, shared_copies hrun .assignments⟩

end SharedStore

end Ganglion
