import Ganglion.Lib.OrdMap

/-!
# The data model of the control plane

The types of `ganglion-core`: resources, nodes, assignments and the coordination snapshot that holds them. A `BTreeMap`
is an ordered map with extensional equality, and so is a `BTreeSet`; `Shared` only saves copies, so a shared collection
is the collection. Generations and epochs are `u64` (`UInt64`), with the wrapping addition of a release build.

`SameTopology` is what the generation of a snapshot versions: everything except the labels and the stored id of a node.
-/

namespace Ganglion

open Std

/-- `BTreeMap<K, V>`. -/
abbrev BTreeMap (K V : Type) [Ord K] := ExtTreeMap K V

/-- `BTreeSet<K>`. -/
abbrev BTreeSet (K : Type) [Ord K] := ExtTreeSet K

/-- The contents of a file or a buffer. -/
abbrev Bytes := List UInt8

/-! ## Counters -/

/-- `u64::MAX`. -/
def u64Max : UInt64 := 0xFFFFFFFFFFFFFFFF

/-- Below the maximum, adding one does not wrap. -/
theorem toNat_add_one {g : UInt64} (h : g < u64Max) : (g + 1).toNat = g.toNat + 1 := by
  have hlt : g.toNat < 18446744073709551615 := UInt64.lt_iff_toNat_lt.1 h
  rw [UInt64.toNat_add, UInt64.toNat_one, Nat.mod_eq_of_lt (by omega)]

theorem lt_u64Max_iff {g : UInt64} : g < u64Max ↔ g.toNat + 1 < UInt64.size := by
  rw [UInt64.lt_iff_toNat_lt, show u64Max.toNat = 18446744073709551615 from rfl, UInt64.size]
  omega

theorem lt_u64Max_of_add_one_ne_zero {g : UInt64} (h : g + 1 ≠ 0) : g < u64Max := by
  rw [lt_u64Max_iff]
  by_contra hc
  have hg := g.toNat_lt_size
  apply h
  apply UInt64.toNat_inj.1
  rw [UInt64.toNat_add, UInt64.toNat_one, UInt64.toNat_zero, show g.toNat + 1 = UInt64.size by omega]
  rfl

/-- `u64::saturating_add(1)`. -/
def saturatingSucc (g : UInt64) : UInt64 := if g < u64Max then g + 1 else g

theorem toNat_saturatingSucc {g : UInt64} (h : g < u64Max) : (saturatingSucc g).toNat = g.toNat + 1 := by
  rw [saturatingSucc, if_pos h, toNat_add_one h]

/-- At the maximum the counter stays. -/
theorem toNat_saturatingSucc_eq_min (g : UInt64) : (saturatingSucc g).toNat = min (g.toNat + 1) u64Max.toNat := by
  by_cases h : g < u64Max
  · have hlt := UInt64.lt_iff_toNat_lt.1 h
    rw [toNat_saturatingSucc h]
    omega
  · have hle := UInt64.le_iff_toNat_le.1 (UInt64.not_lt.1 h)
    have hmax : g.toNat ≤ u64Max.toNat := Nat.le_of_lt_succ g.toNat_lt_size
    rw [saturatingSucc, if_neg h]
    omega

/-- The most elements a `Vec` holds: `isize::MAX`. -/
def isizeMax : Nat := 0x7FFFFFFFFFFFFFFF

/-! ## Resources -/

/-- `ResourceIdentity`; the field `namespace` of the source is `namespacePart` here. -/
structure ResourceIdentity where
  namespacePart : String
  name : String
  partition : UInt64
  group : Option String
  deriving DecidableEq

/-- The derived order: field by field, an absent group first. -/
def ResourceIdentity.cmp : ResourceIdentity → ResourceIdentity → Ordering :=
  compareLex (compareOn (·.namespacePart)) (compareLex (compareOn (·.name))
    (compareLex (compareOn (·.partition)) (compareOn (·.group))))

instance : Ord ResourceIdentity where
  compare := ResourceIdentity.cmp

instance : TransOrd ResourceIdentity := inferInstanceAs <| TransCmp (compareLex _ _)

instance : LawfulEqOrd ResourceIdentity where
  eq_of_compare {a b} h := by
    replace h : ResourceIdentity.cmp a b = .eq := h
    simp only [ResourceIdentity.cmp, compareLex_eq_eq, compareOn] at h
    obtain ⟨h₁, h₂, h₃, h₄⟩ := h
    cases a; cases b
    simp only [ResourceIdentity.mk.injEq]
    exact ⟨LawfulEqCmp.eq_of_compare h₁, LawfulEqCmp.eq_of_compare h₂, LawfulEqCmp.eq_of_compare h₃,
      LawfulEqCmp.eq_of_compare h₄⟩

/-! ## Nodes -/

/-- `NodeInfo`. -/
structure NodeInfo where
  nodeId : String
  endpoint : String
  adminEndpoint : Option String
  labels : BTreeMap String String
  deriving DecidableEq

/-- `NodeInfo::new`. -/
def NodeInfo.new (nodeId endpoint : String) (adminEndpoint : Option String) : NodeInfo where
  nodeId := nodeId
  endpoint := endpoint
  adminEndpoint := adminEndpoint
  labels := ∅

/-- Where a node is reached: the part of a node record that the generation versions. -/
def NodeInfo.address (n : NodeInfo) : String × Option String := (n.endpoint, n.adminEndpoint)

/-! ## Assignments -/

/-- `ReplicationDurabilityPolicy`. -/
inductive ReplicationDurabilityPolicy where
  | localDurable
  | replicaAccepted (nodes : Nat)
  | replicaDurable (nodes : Nat)
  | majorityDurable
  deriving DecidableEq

/-- `PartitionAssignment`. -/
structure PartitionAssignment where
  resource : ResourceIdentity
  owner : String
  followers : List String
  epoch : UInt64
  durability : ReplicationDurabilityPolicy
  deriving DecidableEq

/-- `PartitionAssignment::new`. -/
def PartitionAssignment.new (resource : ResourceIdentity) (owner : String) (followers : List String) (epoch : UInt64) :
    PartitionAssignment where
  resource := resource
  owner := owner
  followers := followers
  epoch := epoch
  durability := .localDurable

/-! ## Snapshots -/

/-- `CoordinationSnapshot`. -/
structure CoordinationSnapshot where
  nodes : BTreeMap String NodeInfo
  assignments : BTreeMap ResourceIdentity PartitionAssignment
  resources : BTreeSet ResourceIdentity
  attributes : BTreeMap String String
  generation : UInt64
  deriving DecidableEq

/-- `CoordinationSnapshot::default`. -/
def CoordinationSnapshot.default : CoordinationSnapshot where
  nodes := ∅
  assignments := ∅
  resources := ∅
  attributes := ∅
  generation := 0

namespace CoordinationSnapshot

/-- What the generation of a snapshot versions, with the node records cut down to their addresses. -/
def topology (s : CoordinationSnapshot) :
    BTreeMap ResourceIdentity PartitionAssignment × BTreeSet ResourceIdentity × BTreeMap String String ×
      BTreeMap String (String × Option String) :=
  (s.assignments, s.resources, s.attributes, s.nodes.map fun _ n => n.address)

/-- Two snapshots agree on assignments, catalogue, attributes, node keys and node addresses. -/
structure SameTopology (s t : CoordinationSnapshot) : Prop where
  assignments : s.assignments = t.assignments
  resources : s.resources = t.resources
  attributes : s.attributes = t.attributes
  nodeKeys : ∀ id, id ∈ s.nodes ↔ id ∈ t.nodes
  endpoints : ∀ (id : String) (n m : NodeInfo), s.nodes[id]? = some n → t.nodes[id]? = some m →
    n.endpoint = m.endpoint ∧ n.adminEndpoint = m.adminEndpoint

/-- The address view of the node map decides keys and addresses. -/
theorem map_address_eq_iff {s t : BTreeMap String NodeInfo} :
    (s.map fun _ n => n.address) = (t.map fun _ n => n.address) ↔
      ∀ id : String, s[id]?.map NodeInfo.address = t[id]?.map NodeInfo.address := by
  constructor
  · intro h id
    have := congrArg (fun m => m[id]?) h
    simpa [ExtTreeMap.getElem?_map] using this
  · intro h
    apply ExtTreeMap.ext_getElem?
    intro id
    simpa [ExtTreeMap.getElem?_map] using h id

theorem sameTopology_iff {s t : CoordinationSnapshot} : SameTopology s t ↔ s.topology = t.topology := by
  simp only [topology, Prod.mk.injEq, map_address_eq_iff]
  constructor
  · rintro ⟨ha, hr, ht, hk, he⟩
    refine ⟨ha, hr, ht, fun id => ?_⟩
    have hk := hk id
    rw [ExtTreeMap.mem_iff_isSome_getElem?, ExtTreeMap.mem_iff_isSome_getElem?] at hk
    cases hs : s.nodes[id]? with
    | none => rw [hs] at hk; cases ht : t.nodes[id]? <;> simp_all
    | some n =>
      cases ht : t.nodes[id]? with
      | none => simp_all
      | some m => simp [NodeInfo.address, he id n m hs ht]
  · rintro ⟨ha, hr, ht, hn⟩
    refine ⟨ha, hr, ht, fun id => ?_, fun id n m hs ht => ?_⟩
    · have := congrArg Option.isSome (hn id)
      simp only [Option.isSome_map] at this
      rw [ExtTreeMap.mem_iff_isSome_getElem?, ExtTreeMap.mem_iff_isSome_getElem?, this]
    · have := hn id
      simpa [hs, ht, NodeInfo.address] using this

end CoordinationSnapshot

end Ganglion
