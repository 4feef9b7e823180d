import Ganglion.Runtime.Command

/-!
# The raft types

The data of openraft that the stores and the state machine handle: log ids, votes, entries, membership and snapshots.
They are plain records here; openraft's own behaviour is what the modules above assume of the order of calls.
-/

namespace Ganglion

open Std

/-- `LeaderId<u64>`, which is also the committed leader id. -/
structure LeaderId where
  term : UInt64
  nodeId : UInt64
  deriving DecidableEq

/-- `LogId<u64>`. -/
structure LogId where
  leaderId : LeaderId
  index : UInt64
  deriving DecidableEq

/-- The derived order of log ids: term, node, index. -/
def LogId.cmp : LogId → LogId → Ordering :=
  compareLex (compareOn (·.leaderId.term)) (compareLex (compareOn (·.leaderId.nodeId)) (compareOn (·.index)))

instance : Ord LogId where
  compare := LogId.cmp

instance : TransOrd LogId := inferInstanceAs <| TransCmp (compareLex _ _)

instance : LT LogId where
  lt a b := compare a b = .lt

instance (a b : LogId) : Decidable (a < b) := inferInstanceAs (Decidable (compare a b = .lt))

instance : LE LogId where
  le a b := (compare a b).isLE

/-- `Vote<u64>`. -/
structure Vote where
  leaderId : LeaderId
  committed : Bool
  deriving DecidableEq

/-- `BasicNode`. -/
structure BasicNode where
  addr : String
  deriving DecidableEq

/-- `Membership<u64, BasicNode>`. -/
structure Membership where
  configs : List (BTreeSet UInt64)
  nodes : BTreeMap UInt64 BasicNode
  deriving DecidableEq

/-- `StoredMembership<u64, BasicNode>`. -/
structure StoredMembership where
  logId : Option LogId
  membership : Membership
  deriving DecidableEq

/-- `StoredMembership::default`. -/
def StoredMembership.default : StoredMembership := ⟨none, ⟨[], ∅⟩⟩

/-- `EntryPayload<GanglionRaftConfig>`. -/
inductive EntryPayload where
  | blank
  | normal (command : MetadataRaftCommand)
  | membership (membership : Membership)
  deriving DecidableEq

/-- `Entry<GanglionRaftConfig>`. -/
structure Entry where
  logId : LogId
  payload : EntryPayload
  deriving DecidableEq

/-- `SnapshotMeta<u64, BasicNode>`. -/
structure SnapshotMeta where
  lastLogId : Option LogId
  lastMembership : StoredMembership
  snapshotId : String
  deriving DecidableEq

/-- `Snapshot<GanglionRaftConfig>`; the state machine's `StoredSnapshot` has the same two parts. -/
structure Snapshot where
  snapshotMeta : SnapshotMeta
  data : Bytes
  deriving DecidableEq

/-- `MetadataRaftResponse`. -/
structure MetadataRaftResponse where
  accepted : Bool
  rejection : Option MetadataRejection
  snapshot : CoordinationSnapshot
  deriving DecidableEq

/-- The `StorageError`s the stores answer with. -/
inductive StorageError where
  | readSnapshot
  | writeSnapshot
  | readLogs
  /-- `malformed WAL record at line n`. -/
  | malformedRecord (line : Nat)
  | writeLogs
  | writeVote
  deriving DecidableEq

end Ganglion
