import Ganglion.Core.Types

/-!
# Fencing epochs

The epoch rule of `ganglion-core` (`next_assignment_epoch`) and its application to a planned snapshot
(`stamp_assignment_epochs`). `getElem?_stamp` says what stamping does to one resource; everything later uses only that.
-/

namespace Ganglion

open Std

/-- `EpochTransition`. -/
inductive EpochTransition where
  | unchanged
  | ownerChanged
  | newAssignment
  deriving DecidableEq

/-- `next_assignment_epoch`. -/
def nextAssignmentEpoch (committed : Option PartitionAssignment) (desiredOwner : String) : UInt64 × EpochTransition :=
  match committed with
  | none => (1, .newAssignment)
  | some current =>
    if current.owner = desiredOwner then (current.epoch, .unchanged) else (current.epoch + 1, .ownerChanged)

/-- `fence_assignment_epoch`. -/
def fenceAssignmentEpoch (committed : PartitionAssignment) : UInt64 := committed.epoch + 1

/-- One turn of the loop of `stamp_assignment_epochs`: the assignment planned for `resource` gets its epoch. -/
def stampAssignment (committed : CoordinationSnapshot) (resource : ResourceIdentity) (assignment : PartitionAssignment) :
    PartitionAssignment :=
  { assignment with epoch := (nextAssignmentEpoch committed.assignments[resource]? assignment.owner).1 }

/-- `stamp_assignment_epochs`: the stamped snapshot and the transitions in resource order. -/
def stampAssignmentEpochs (committed desired : CoordinationSnapshot) :
    CoordinationSnapshot × List (ResourceIdentity × EpochTransition) :=
  ({ desired with assignments := desired.assignments.map (stampAssignment committed) },
    desired.assignments.toList.map fun p =>
      (p.1, (nextAssignmentEpoch committed.assignments[p.1]? p.2.owner).2))

/-- Stamping keeps everything of the plan but the epochs. -/
theorem getElem?_stamp (committed desired : CoordinationSnapshot) (r : ResourceIdentity) :
    (stampAssignmentEpochs committed desired).1.assignments[r]? =
      desired.assignments[r]?.map (stampAssignment committed r) := by
  simp [stampAssignmentEpochs, ExtTreeMap.getElem?_map]

/-! ## The rule on one resource -/

section Rule

variable {committed : CoordinationSnapshot} {r : ResourceIdentity} {a old : PartitionAssignment}

/-- A resource without a committed assignment starts at epoch 1. -/
theorem stampAssignment_new (h : committed.assignments[r]? = none) : (stampAssignment committed r a).epoch = 1 := by
  simp [stampAssignment, nextAssignmentEpoch, h]

/-- The owner stays, so does the epoch. -/
theorem stampAssignment_kept (h : committed.assignments[r]? = some old) (ho : old.owner = a.owner) :
    (stampAssignment committed r a).epoch = old.epoch := by
  simp [stampAssignment, nextAssignmentEpoch, h, ho]

/-- The owner changes, and the epoch grows by one. -/
theorem stampAssignment_moved (h : committed.assignments[r]? = some old) (ho : old.owner ≠ a.owner) :
    (stampAssignment committed r a).epoch = old.epoch + 1 := by
  simp [stampAssignment, nextAssignmentEpoch, h, ho]

end Rule

end Ganglion
