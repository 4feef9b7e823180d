import Ganglion.Lib.Json
import Ganglion.Runtime.StateMachine
import Ganglion.Runtime.Wal

/-!
# The JSON of WAL and snapshot file

What serde writes for the records of the WAL and for a stored snapshot: structs are objects with their fields in order,
enums are tagged by the variant, `u64` keys of a map are decimal strings. With it the codecs that the stores take as
parameters are instantiated (`serdeWal`, `serdeSnapshot`): the writer is this text, and the reader accepts what the
writer writes. The laws hold for every value, as different values have different texts.
-/

namespace Ganglion

open Std Text

/-! ## Scalars -/

/-- A `u64`. -/
def jsonU64 (n : UInt64) : Json := .num n.toNat

@[simp] theorem jsonU64_inj {a b : UInt64} : jsonU64 a = jsonU64 b ↔ a = b := by
  simp [jsonU64, UInt64.toNat_inj]

theorem str_injective : Function.Injective Json.str := fun _ _ h => Json.str.inj h

@[simp] theorem optionStr_inj {a b : Option String} : Json.option .str a = Json.option .str b ↔ a = b :=
  (Json.option_injective str_injective (by simp)).eq_iff

@[simp] theorem mapStr_inj {a b : BTreeMap String String} : Json.map id .str a = Json.map id .str b ↔ a = b :=
  (Json.map_injective Function.injective_id str_injective).eq_iff

@[simp] theorem mapOptionStr_inj {a b : BTreeMap String (Option String)} :
    Json.map id (Json.option .str) a = Json.map id (Json.option .str) b ↔ a = b :=
  (Json.map_injective Function.injective_id (Json.option_injective str_injective (by simp))).eq_iff

@[simp] theorem listStr_inj {a b : List String} : Json.list .str a = Json.list .str b ↔ a = b :=
  (Json.list_injective str_injective).eq_iff

/-! ## The coordination snapshot -/

def ResourceIdentity.toJson (r : ResourceIdentity) : Json :=
  .obj [("namespace", .str r.namespacePart), ("name", .str r.name), ("partition", jsonU64 r.partition),
    ("group", Json.option .str r.group)]

@[simp] theorem ResourceIdentity.toJson_inj {a b : ResourceIdentity} : a.toJson = b.toJson ↔ a = b := by
  cases a; cases b; simp [toJson]

def NodeInfo.toJson (n : NodeInfo) : Json :=
  .obj [("node_id", .str n.nodeId), ("endpoint", .str n.endpoint), ("admin_endpoint", Json.option .str n.adminEndpoint),
    ("labels", Json.map id .str n.labels)]

@[simp] theorem NodeInfo.toJson_inj {a b : NodeInfo} : a.toJson = b.toJson ↔ a = b := by
  cases a; cases b; simp [toJson]

def ReplicationDurabilityPolicy.toJson : ReplicationDurabilityPolicy → Json
  | .localDurable => .str "LocalDurable"
  | .replicaAccepted nodes => .obj [("ReplicaAccepted", .obj [("nodes", .num nodes)])]
  | .replicaDurable nodes => .obj [("ReplicaDurable", .obj [("nodes", .num nodes)])]
  | .majorityDurable => .str "MajorityDurable"

@[simp] theorem ReplicationDurabilityPolicy.toJson_inj {a b : ReplicationDurabilityPolicy} :
    a.toJson = b.toJson ↔ a = b := by
  cases a <;> cases b <;> simp [toJson]

def PartitionAssignment.toJson (a : PartitionAssignment) : Json :=
  .obj [("resource", a.resource.toJson), ("owner", .str a.owner), ("followers", Json.list .str a.followers),
    ("epoch", jsonU64 a.epoch), ("durability", a.durability.toJson)]

@[simp] theorem PartitionAssignment.toJson_inj {a b : PartitionAssignment} : a.toJson = b.toJson ↔ a = b := by
  cases a; cases b; simp [toJson]

/-- One element of the pair sequence. -/
def pairToJson (p : ResourceIdentity × PartitionAssignment) : Json := .arr [p.1.toJson, p.2.toJson]

theorem pairToJson_injective : Function.Injective pairToJson := by
  rintro ⟨r, a⟩ ⟨r', a'⟩ h
  simpa [pairToJson] using h

def SnapshotWire.toJson (w : SnapshotWire) : Json :=
  .obj [("nodes", Json.map id NodeInfo.toJson w.nodes), ("assignments", Json.list pairToJson w.assignments),
    ("resources", Json.set ResourceIdentity.toJson w.resources), ("attributes", Json.map id .str w.attributes),
    ("generation", jsonU64 w.generation)]

@[simp] theorem SnapshotWire.toJson_inj {a b : SnapshotWire} : a.toJson = b.toJson ↔ a = b := by
  have hnode : Function.Injective NodeInfo.toJson := fun _ _ h => NodeInfo.toJson_inj.1 h
  have hres : Function.Injective ResourceIdentity.toJson := fun _ _ h => ResourceIdentity.toJson_inj.1 h
  cases a; cases b
  simp [toJson, (Json.map_injective (K := String) Function.injective_id hnode).eq_iff,
    (Json.list_injective pairToJson_injective).eq_iff, (Json.set_injective hres).eq_iff]

def CoordinationSnapshot.toJson (s : CoordinationSnapshot) : Json := s.toWire.toJson

@[simp] theorem CoordinationSnapshot.toJson_inj {a b : CoordinationSnapshot} : a.toJson = b.toJson ↔ a = b := by
  rw [toJson, toJson, SnapshotWire.toJson_inj]
  constructor
  · intro h
    rw [← ofWire_toWire a, h, ofWire_toWire]
  · rintro rfl
    rfl

/-! ## Commands -/

/-- A variant with fields. -/
def variant (name : String) (fields : List (String × Json)) : Json := .obj [(name, .obj fields)]

def MetadataRaftCommand.toJson : MetadataRaftCommand → Json
  | .applySnapshot snapshot => .obj [("ApplySnapshot", snapshot.toJson)]
  | .applySnapshotGuarded expectedGeneration snapshot =>
    variant "ApplySnapshotGuarded" [("expected_generation", jsonU64 expectedGeneration), ("snapshot", snapshot.toJson)]
  | .updatePartitionGuarded expectedGeneration assignment attributes =>
    variant "UpdatePartitionGuarded" [("expected_generation", jsonU64 expectedGeneration),
      ("assignment", assignment.toJson), ("attributes", Json.map id (Json.option .str) attributes)]
  | .registerNode node => variant "RegisterNode" [("node", node.toJson)]
  | .deregisterNode nodeId => variant "DeregisterNode" [("node_id", .str nodeId)]
  | .registerResource resource => variant "RegisterResource" [("resource", resource.toJson)]
  | .registerResourceWithInitialAttribute resource key value =>
    variant "RegisterResourceWithInitialAttribute"
      [("resource", resource.toJson), ("key", .str key), ("value", .str value)]
  | .deregisterResource resource => variant "DeregisterResource" [("resource", resource.toJson)]
  | .deregisterResourceWithAttribute resource key expected =>
    variant "DeregisterResourceWithAttribute"
      [("resource", resource.toJson), ("key", .str key), ("expected", Json.option .str expected)]
  | .setAttribute key value => variant "SetAttribute" [("key", .str key), ("value", .str value)]
  | .removeAttribute key => variant "RemoveAttribute" [("key", .str key)]
  | .compareAndSetAttribute key expected value =>
    variant "CompareAndSetAttribute"
      [("key", .str key), ("expected", Json.option .str expected), ("value", .str value)]
  | .compareAndSetAttributeGuarded expectedGeneration key expected value =>
    variant "CompareAndSetAttributeGuarded" [("expected_generation", jsonU64 expectedGeneration), ("key", .str key),
      ("expected", Json.option .str expected), ("value", .str value)]
  | .deregisterResourceReplacingAttribute resource key expected value =>
    variant "DeregisterResourceReplacingAttribute" [("resource", resource.toJson), ("key", .str key),
      ("expected", Json.option .str expected), ("value", .str value)]

@[simp] theorem MetadataRaftCommand.toJson_inj {a b : MetadataRaftCommand} : a.toJson = b.toJson ↔ a = b := by
  cases a <;> cases b <;> simp [toJson, variant]

/-! ## Raft -/

def LeaderId.toJson (l : LeaderId) : Json := .obj [("term", jsonU64 l.term), ("node_id", jsonU64 l.nodeId)]

@[simp] theorem LeaderId.toJson_inj {a b : LeaderId} : a.toJson = b.toJson ↔ a = b := by
  cases a; cases b; simp [toJson]

def LogId.toJson (l : LogId) : Json := .obj [("leader_id", l.leaderId.toJson), ("index", jsonU64 l.index)]

@[simp] theorem LogId.toJson_inj {a b : LogId} : a.toJson = b.toJson ↔ a = b := by
  cases a; cases b; simp [toJson]

@[simp] theorem optionLogId_inj {a b : Option LogId} : Json.option LogId.toJson a = Json.option LogId.toJson b ↔ a = b :=
  (Json.option_injective (fun _ _ h => LogId.toJson_inj.1 h) (by simp [LogId.toJson])).eq_iff

def Vote.toJson (v : Vote) : Json := .obj [("leader_id", v.leaderId.toJson), ("committed", .bool v.committed)]

@[simp] theorem Vote.toJson_inj {a b : Vote} : a.toJson = b.toJson ↔ a = b := by
  cases a; cases b; simp [toJson]

def BasicNode.toJson (n : BasicNode) : Json := .obj [("addr", .str n.addr)]

/-- A `u64` as the key of a map. -/
def keyU64 (n : UInt64) : String := n.toNat.repr

theorem keyU64_injective : Function.Injective keyU64 := by
  intro a b h
  have hdigits := congrArg String.toList h
  simp only [keyU64, Nat.toList_repr] at hdigits
  apply UInt64.toNat_inj.1
  rw [← Nat.ofDigitChars_ten_toDigits (n := a.toNat), hdigits, Nat.ofDigitChars_ten_toDigits]

def Membership.toJson (m : Membership) : Json :=
  .obj [("configs", Json.list (Json.set jsonU64) m.configs), ("nodes", Json.map keyU64 BasicNode.toJson m.nodes)]

@[simp] theorem Membership.toJson_inj {a b : Membership} : a.toJson = b.toJson ↔ a = b := by
  have hu : Function.Injective jsonU64 := fun _ _ h => jsonU64_inj.1 h
  have hn : Function.Injective BasicNode.toJson := by
    rintro ⟨a⟩ ⟨b⟩ h
    simpa [BasicNode.toJson] using h
  cases a; cases b
  simp [toJson, (Json.list_injective (Json.set_injective hu)).eq_iff, (Json.map_injective keyU64_injective hn).eq_iff]

def EntryPayload.toJson : EntryPayload → Json
  | .blank => .str "Blank"
  | .normal command => .obj [("Normal", command.toJson)]
  | .membership m => .obj [("Membership", m.toJson)]

@[simp] theorem EntryPayload.toJson_inj {a b : EntryPayload} : a.toJson = b.toJson ↔ a = b := by
  cases a <;> cases b <;> simp [toJson]

def Entry.toJson (e : Entry) : Json := .obj [("log_id", e.logId.toJson), ("payload", e.payload.toJson)]

@[simp] theorem Entry.toJson_inj {a b : Entry} : a.toJson = b.toJson ↔ a = b := by
  cases a; cases b; simp [toJson]

/-! ## The WAL -/

/-- The tag of a record and what stands under it. -/
def WalRecord.field : WalRecord → String × Json
  | .vote v => ("Vote", v.toJson)
  | .entry e => ("Entry", e.toJson)
  | .truncate since => ("Truncate", .obj [("since", jsonU64 since)])
  | .purge upto => ("Purge", .obj [("upto", upto.toJson)])

theorem WalRecord.field_injective : Function.Injective WalRecord.field := by
  intro a b h
  cases a <;> cases b <;> simp [field] at h <;> rw [h]

/-- `serde_json::to_vec` on a record, as text. -/
def WalRecord.text (r : WalRecord) : String := .ofList (Json.print (.obj [r.field]))

theorem WalRecord.text_toList (r : WalRecord) : r.text.toList = Json.print (.obj [r.field]) := by simp [text]

/-- Nothing can follow the text of a record in the text of a record. -/
theorem WalRecord.text_append_eq {r r' : WalRecord} {u : String} (h : r.text ++ u = r'.text) : r = r' ∧ u = "" := by
  have hl := congrArg String.toList h
  rw [String.toList_append, text_toList, text_toList] at hl
  obtain ⟨hf, hu⟩ := Json.print_obj_append_eq hl
  exact ⟨field_injective (List.cons.inj hf).1, String.toList_injective (by simpa using hu)⟩

theorem WalRecord.text_injective : Function.Injective WalRecord.text := by
  intro a b h
  exact (text_append_eq (u := "") (by simpa using h)).1

example : WalRecord.text (.truncate 5) = r#"{"Truncate":{"since":5}}"# := by decide

/-- The JSON of the WAL. -/
noncomputable def serdeWal : WalCodec where
  toText := WalRecord.text
  fromStr := Function.partialInv WalRecord.text
  roundTrip := Function.partialInv_left WalRecord.text_injective
  brace r := by rw [WalRecord.text_toList, Json.print_obj_head]
  printable r := by rw [WalRecord.text_toList]; exact Json.print_printable _
  unfinished r s u h hu := by
    cases hs : Function.partialInv WalRecord.text s with
    | none => rfl
    | some r' =>
      obtain rfl := (WalRecord.text_injective.isPartialInv r' s).1 hs
      exact absurd (WalRecord.text_append_eq h.symm).2 hu
  trailing r u hu := by
    cases hs : Function.partialInv WalRecord.text (r.text ++ u) with
    | none => rfl
    | some r' =>
      have h := (WalRecord.text_injective.isPartialInv r' _).1 hs
      rw [(WalRecord.text_append_eq h.symm).2] at hu
      cases hu

/-! ## The snapshot file -/

def StoredMembership.toJson (m : StoredMembership) : Json :=
  .obj [("log_id", Json.option LogId.toJson m.logId), ("membership", m.membership.toJson)]

@[simp] theorem StoredMembership.toJson_inj {a b : StoredMembership} : a.toJson = b.toJson ↔ a = b := by
  cases a; cases b; simp [toJson]

def SnapshotMeta.toJson (m : SnapshotMeta) : Json :=
  .obj [("last_log_id", Json.option LogId.toJson m.lastLogId), ("last_membership", m.lastMembership.toJson),
    ("snapshot_id", .str m.snapshotId)]

@[simp] theorem SnapshotMeta.toJson_inj {a b : SnapshotMeta} : a.toJson = b.toJson ↔ a = b := by
  cases a; cases b; simp [toJson]

/-- A stored snapshot: its data is a sequence of numbers. -/
def Snapshot.toJson (s : Snapshot) : Json :=
  .obj [("meta", s.snapshotMeta.toJson), ("data", Json.list (fun b => .num b.toNat) s.data)]

theorem Snapshot.toJson_injective : Function.Injective Snapshot.toJson := by
  have hb : Function.Injective fun b : UInt8 => Json.num b.toNat := fun a b h => UInt8.toNat_inj.1 (Json.num.inj h)
  rintro ⟨m, d⟩ ⟨m', d'⟩ h
  simpa [toJson, (Json.list_injective hb).eq_iff] using h

/-- `serde_json::to_vec`. -/
def toVec (j : Json) : Bytes := utf8 (.ofList j.print)

theorem toVec_injective : Function.Injective toVec := by
  intro a b h
  apply Json.print_injective
  simpa using congrArg String.toList (utf8_injective h)

theorem toVec_ne_nil (j : Json) : toVec j ≠ [] := by
  intro h
  have hempty : utf8 (.ofList j.print) = utf8 "" := h
  have hprint := congrArg String.toList (utf8_injective hempty)
  obtain ⟨c, cs, hc, _⟩ := Json.print_head j
  simp [hc] at hprint

/-- The JSON of the snapshot file. -/
noncomputable def serdeSnapshot : SnapshotCodec where
  stateToVec w := toVec w.toJson
  stateFromSlice := Function.partialInv fun w => toVec w.toJson
  storedToVec s := toVec s.toJson
  storedFromSlice := Function.partialInv fun s => toVec s.toJson
  showLeader l := s!"T{l.term}-N{l.nodeId}"
  state_roundTrip := Function.partialInv_left fun _ _ h => SnapshotWire.toJson_inj.1 (toVec_injective h)
  state_nonempty w := toVec_ne_nil w.toJson
  stored_roundTrip := Function.partialInv_left fun _ _ h => Snapshot.toJson_injective (toVec_injective h)

end Ganglion
