import Mathlib.Data.List.Induction
import Ganglion.Lib.Greedy
import Ganglion.Lib.Replay
import Ganglion.Core.Placement

/-!
# How well least-loaded placement balances

`LeastLoadedPartitionPlacement` places the resources without a live owner on the node with the smallest counter. The
counters begin at what each node owns already, and a resource that keeps its owner is counted again when its turn
comes. So the counter of a node is what it owns by then plus the number of kept resources that came before.

* `Tally` is the invariant of the loop: what the counters are, and that the newly placed resources are balanced.
* `Undistorted` is the condition under which the second count does not change whom the planner prefers; under it every
  turn keeps the invariant (`Tally.place`), and the plan is balanced (`leastLoaded_balances`).
* Without it the plan may be unbalanced: `kept_owners_count_twice`.
-/

namespace Ganglion

open Std

/-- `PartitionAssignment::is_owned_by`. -/
def PartitionAssignment.isOwnedBy (a : PartitionAssignment) (nodeId : String) : Bool := a.owner == nodeId

/-- `CoordinationSnapshot::owned_by`. -/
def CoordinationSnapshot.ownedBy (snapshot : CoordinationSnapshot) (nodeId : String) : List PartitionAssignment :=
  (OrdMap.values snapshot.assignments).filter (·.isOwnedBy nodeId)

/-- The live owner that a resource has, and keeps. -/
def keptOwner (input : PlacementInput) (r : ResourceIdentity) : Option String :=
  (input.existing[r]?.map (·.owner)).filter fun owner => input.nodes.contains owner

/-- How many resources a node owns already. -/
def existingLoad (input : PlacementInput) (n : String) : Nat :=
  ((OrdMap.values input.existing).filter (·.isOwnedBy n)).length

/-- Of the first `i` resources in planning order, those that keep the owner `n`. -/
def keptBefore (input : PlacementInput) (i : Nat) (n : String) : Nat :=
  ((sortedResources input.resources).take i).countP fun r => keptOwner input r == some n

/-- Of the first `i` resources in planning order, those without a live owner. -/
def newBefore (input : PlacementInput) (i : Nat) : Nat :=
  ((sortedResources input.resources).take i).countP fun r => keptOwner input r == none

/-- Whenever a resource without a live owner is planned, and `u` could by then own more than `v`, the kept resources
before it do not speak for `u`: `v` has kept no more of them than `u`, or one more if `v` comes first on equal counters. -/
def Undistorted (input : PlacementInput) : Prop :=
  ∀ i (h : i < (sortedResources input.resources).length), keptOwner input (sortedResources input.resources)[i] = none →
    ∀ u ∈ input.nodes.keys, ∀ v ∈ input.nodes.keys, existingLoad input v < existingLoad input u + newBefore input i →
      keptBefore input i v ≤ keptBefore input i u + if compare v u = .lt then 1 else 0

/-! ## Counters -/

/-- The counters of the nodes. -/
def Counts (load : BTreeMap String UInt64) (ids : List String) (count : String → Nat) : Prop :=
  ∀ n ∈ ids, ∃ c, load[n]? = some c ∧ c.toNat = count n

section

variable {load : BTreeMap String UInt64} {ids : List String} {count count' : String → Nat}

theorem Counts.congr (h : Counts load ids count) (heq : ∀ n ∈ ids, count' n = count n) : Counts load ids count' := by
  intro n hn
  rw [heq n hn]
  exact h n hn

/-- A counter below the maximum counts one more. -/
theorem Counts.bump (h : Counts load ids count) {u : String} {c : UInt64} (hu : u ∈ ids) (hc : load[u]? = some c)
    (hroom : count u < u64Max.toNat) :
    Counts (load.insert u (saturatingSucc c)) ids fun n => count n + if u = n then 1 else 0 := by
  intro n hn
  by_cases hnu : u = n
  · subst hnu
    obtain ⟨c', hc', hcount⟩ := h u hu
    rw [hc] at hc'
    cases hc'
    refine ⟨saturatingSucc c, ExtTreeMap.getElem?_insert_self, ?_⟩
    rw [toNat_saturatingSucc (UInt64.lt_iff_toNat_lt.2 (by omega)), hcount]
    simp
  · rw [OrdMap.getElem?_insert_ne (Ne.symm hnu)]
    simpa [hnu] using h n hn

/-- The node with the smallest counter, and of these the one with the smallest id. -/
theorem pickLeastLoadedOwner_least {nodeIds : NodeIds} (h : Counts load nodeIds.1 count) {v : String}
    (hv : v ∈ nodeIds.1) :
    count (pickLeastLoadedOwner nodeIds load) < count v ∨ count (pickLeastLoadedOwner nodeIds load) = count v ∧
      ¬compare v (pickLeastLoadedOwner nodeIds load) = .lt := by
  have hmin : ∀ x ∈ nodeIds.1, (compareLoad load (pickLeastLoadedOwner nodeIds load) x).isLE := by
    have : TransCmp (compareLoad load) := inferInstanceAs (TransCmp (compareLex _ _))
    have hle := @Greedy.argmin_le _ (compareLoad load) _ (nodeIds.1.head nodeIds.2) nodeIds.1.tail
    rw [List.cons_head_tail] at hle
    exact hle
  obtain ⟨cu, hcu, hu⟩ := h _ (pickLeastLoadedOwner_mem load)
  obtain ⟨cv, hcv, hvc⟩ := h v hv
  have hle := hmin v hv
  rw [compareLoad, compareLex, compareOn, hcu, hcv, Option.getD_some, Option.getD_some] at hle
  rw [← hu, ← hvc]
  cases hcmp : compare cu cv with
  | lt => exact .inl (UInt64.lt_iff_toNat_lt.1 (Std.compare_eq_lt.1 hcmp))
  | eq =>
    rw [hcmp] at hle
    replace hle : (compare (pickLeastLoadedOwner nodeIds load) v).isLE := hle
    refine .inr ⟨by rw [LawfulEqCmp.eq_of_compare hcmp], fun hlt => ?_⟩
    exact OrientedCmp.not_lt_of_isLE hle hlt
  | gt =>
    rw [hcmp] at hle
    cases hle

/-- `live_owner_load` counts what each live node owns. -/
theorem counts_liveOwnerLoad {nodes : BTreeMap String NodeInfo}
    {existing : BTreeMap ResourceIdentity PartitionAssignment}
    (hroom : (OrdMap.values existing).length ≤ u64Max.toNat) : Counts (liveOwnerLoad nodes existing) nodes.keys
      fun n => ((OrdMap.values existing).filter (·.isOwnedBy n)).length := by
  have hzero : Counts (OrdMap.ofPairs (nodes.keys.map fun nodeId => (nodeId, 0))) nodes.keys fun _ => 0 := by
    intro n hn
    refine ⟨0, (OrdMap.getElem?_ofPairs ?_).2 (List.mem_map.2 ⟨n, hn, rfl⟩), rfl⟩
    rw [List.pairwise_map]
    exact ExtTreeMap.nodup_keys
  rw [liveOwnerLoad]
  -- by induction on the assignments from the right: so many are counted by then
  generalize OrdMap.values existing = as at hroom ⊢
  induction as using List.reverseRecOn with
  | nil => exact hzero
  | append_singleton as a ih =>
    have hlength : as.length + 1 ≤ u64Max.toNat := by simpa using hroom
    replace ih := ih (by omega)
    rw [List.foldl_append, List.foldl_cons, List.foldl_nil]
    split
    · rename_i hlive
      have hmem : a.owner ∈ nodes.keys := ExtTreeMap.mem_keys.2 hlive
      obtain ⟨c, hc, hcount⟩ := ih a.owner hmem
      rw [hc, Option.getD_some]
      have hle : (as.filter (·.isOwnedBy a.owner)).length ≤ as.length := List.length_filter_le _ _
      refine (ih.bump hmem hc (by omega)).congr fun n _ => ?_
      rw [List.filter_append, List.length_append]
      by_cases hn : a.owner = n
      · simp [PartitionAssignment.isOwnedBy, hn]
      · simp [PartitionAssignment.isOwnedBy, hn]
    · rename_i hdead
      refine ih.congr fun n hn => ?_
      have hne : a.owner ≠ n := by
        rintro rfl
        exact hdead (ExtTreeMap.mem_keys.1 hn)
      rw [List.filter_append]
      simp [PartitionAssignment.isOwnedBy, hne]

end

/-! ## The resources in planning order -/

theorem nodup_sortedResources (resources : List ResourceIdentity) : (sortedResources resources).Nodup := by
  have : Std.Total fun a b : ResourceIdentity => (compare a b).isLE = true := ⟨fun a b => by
    by_contra h
    rw [not_or] at h
    exact OrientedCmp.not_lt_of_lt (OrientedCmp.lt_of_not_isLE h.1) (OrientedCmp.lt_of_not_isLE h.2)⟩
  have : IsTrans ResourceIdentity fun a b => (compare a b).isLE = true := ⟨fun a b c => TransCmp.isLE_trans⟩
  have : Std.Antisymm fun a b : ResourceIdentity => (compare a b).isLE = true :=
    ⟨fun a b hab hba => LawfulEqCmp.eq_of_compare (OrientedCmp.isLE_antisymm hab hba)⟩
  have hsorted := List.pairwise_insertionSort (fun a b : ResourceIdentity => (compare a b).isLE = true) resources
  rw [sortedResources, hsorted.destutter_eq_dedup]
  exact List.nodup_dedup _

/-- A list is counted in two parts. -/
theorem countP_parts {α : Type} {p q r : α → Bool} {xs : List α}
    (h : ∀ x ∈ xs, (if p x then 1 else 0) = (if q x then 1 else 0) + if r x then 1 else 0) :
    xs.countP p = xs.countP q + xs.countP r := by
  induction xs with
  | nil => rfl
  | cons x xs ih =>
    have hx := h x (.head xs)
    rw [List.countP_cons, List.countP_cons, List.countP_cons, ih fun y hy => h y (.tail x hy)]
    omega

/-! ## The loop -/

/-- Of the first `i` resources in planning order, those that were newly placed on `n`. -/
def newOn (input : PlacementInput) (s : LeastLoadedPartitionPlacement.Progress) (i : Nat) (n : String) : Nat :=
  ((sortedResources input.resources).take i).countP fun r =>
    keptOwner input r == none && s.assignments[r]?.any (·.isOwnedBy n)

section

variable {input : PlacementInput} {s : LeastLoadedPartitionPlacement.Progress} {i : Nat} {n : String}

/-- The owner of a resource: the one it keeps, else the one with the smallest counter. -/
theorem leastLoadedOwner_eq (hids : input.nodes.keys ≠ []) (load : BTreeMap String UInt64) (r : ResourceIdentity) :
    leastLoadedOwner load ⟨input.nodes.keys, hids⟩ input.existing[r]? =
      (keptOwner input r).getD (pickLeastLoadedOwner ⟨input.nodes.keys, hids⟩ load) := by
  unfold leastLoadedOwner keptOwner
  cases input.existing[r]? with
  | none => rfl
  | some old =>
    by_cases hlive : old.owner ∈ input.nodes
    · simp [Option.filter, hlive]
    · simp [Option.filter, hlive]

/-- The owner is counted once more. -/
theorem load_place {nodeIds : NodeIds} {r : ResourceIdentity} {c : UInt64}
    (hc : s.load[leastLoadedOwner s.load nodeIds input.existing[r]?]? = some c) :
    (LeastLoadedPartitionPlacement.place input nodeIds s r).load =
      s.load.insert (leastLoadedOwner s.load nodeIds input.existing[r]?) (saturatingSucc c) := by
  rw [LeastLoadedPartitionPlacement.place, hc]

theorem keptBefore_succ (hi : i < (sortedResources input.resources).length) : keptBefore input (i + 1) n =
    keptBefore input i n + if keptOwner input (sortedResources input.resources)[i] = some n then 1 else 0 := by
  rw [keptBefore, List.take_succ_eq_append_getElem hi, List.countP_append, keptBefore]
  simp [List.countP_cons]

/-- The resource of a turn is none of those before. -/
theorem getElem_notMem_take (hi : i < (sortedResources input.resources).length) :
    (sortedResources input.resources)[i] ∉ (sortedResources input.resources).take i := by
  have hnodup := (nodup_sortedResources input.resources).sublist (List.take_sublist (i + 1) _)
  rw [List.take_succ_eq_append_getElem hi, List.nodup_append] at hnodup
  intro hmem
  exact hnodup.2.2 _ hmem _ (List.mem_singleton_self _) rfl

theorem newOn_place (nodeIds : NodeIds) (hi : i < (sortedResources input.resources).length) :
    newOn input (LeastLoadedPartitionPlacement.place input nodeIds s (sortedResources input.resources)[i]) (i + 1) n =
      newOn input s i n + if keptOwner input (sortedResources input.resources)[i] = none ∧
        leastLoadedOwner s.load nodeIds input.existing[(sortedResources input.resources)[i]]? = n then 1 else 0 := by
  rw [newOn, List.take_succ_eq_append_getElem hi, List.countP_append, newOn]
  congr 1
  · refine List.countP_congr fun r hr => ?_
    have hne : r ≠ (sortedResources input.resources)[i] := fun h => getElem_notMem_take hi (h ▸ hr)
    rw [LeastLoadedPartitionPlacement.place, OrdMap.getElem?_insert_ne hne]
  · simp [List.countP_cons, LeastLoadedPartitionPlacement.place, PartitionAssignment.isOwnedBy, assignmentFor]

/-- The first `i` resources are kept or newly placed. -/
theorem newOn_le_newBefore : newOn input s i n ≤ newBefore input i := by
  refine List.countP_mono_left fun r _ h => ?_
  rw [Bool.and_eq_true] at h
  exact h.1

theorem keptBefore_add_newBefore_le : keptBefore input i n + newBefore input i ≤ i := by
  have hkept : keptBefore input i n ≤
      ((sortedResources input.resources).take i).countP fun r => !(keptOwner input r == none) := by
    refine List.countP_mono_left fun r _ h => ?_
    rw [beq_iff_eq] at h
    rw [h]
    rfl
  have hparts : ((sortedResources input.resources).take i).countP (fun _ => true) = newBefore input i +
      ((sortedResources input.resources).take i).countP fun r => !(keptOwner input r == none) := by
    refine countP_parts fun r _ => ?_
    cases keptOwner input r == none <;> rfl
  rw [List.countP_true, List.length_take] at hparts
  omega

/-- The existing assignments, counted over the resources that keep them. -/
theorem existingLoad_eq (hexisting : ∀ r, r ∈ input.existing → r ∈ input.resources) (hn : n ∈ input.nodes) :
    existingLoad input n = (sortedResources input.resources).countP fun r => keptOwner input r == some n := by
  rw [existingLoad, OrdMap.length_filter_values (nodup_sortedResources input.resources)
    fun r hr => mem_sortedResources.2 (hexisting r hr)]
  refine List.countP_congr fun r _ => ?_
  rw [keptOwner]
  cases input.existing[r]? with
  | none => simp
  | some old =>
    by_cases howner : old.owner = n
    · simp [PartitionAssignment.isOwnedBy, howner, Option.filter, hn]
    · by_cases hlive : old.owner ∈ input.nodes
      · simp [PartitionAssignment.isOwnedBy, howner, Option.filter, hlive]
      · simp [PartitionAssignment.isOwnedBy, howner, Option.filter, hlive]

/-- What holds after `i` turns of the loop. -/
structure Tally (input : PlacementInput) (i : Nat) (s : LeastLoadedPartitionPlacement.Progress) : Prop where
  counts : Counts s.load input.nodes.keys fun n => existingLoad input n + newOn input s i n + keptBefore input i n
  owners : ∀ r ∈ (sortedResources input.resources).take i, ∃ a, s.assignments[r]? = some a ∧
    ∀ n, keptOwner input r = some n → a.owner = n
  balanced : Greedy.Balanced (· ∈ input.nodes.keys) (fun n => existingLoad input n + newOn input s i n)
    (fun u => 0 < newOn input s i u)

/-- The inputs that the result is about: existing assignments only of planned resources, and a `Vec` of these. -/
structure PlansExisting (input : PlacementInput) : Prop where
  existing : ∀ r, r ∈ input.existing → r ∈ input.resources
  fitsVec : input.resources.length ≤ isizeMax

/-- There are no more existing assignments than resources to plan. -/
theorem PlansExisting.length_values (h : PlansExisting input) :
    (OrdMap.values input.existing).length ≤ (sortedResources input.resources).length := by
  have hcount := OrdMap.length_filter_values (nodup_sortedResources input.resources)
    (fun r hr => mem_sortedResources.2 (h.existing r hr)) fun _ => true
  rw [List.filter_true] at hcount
  rw [hcount]
  exact List.countP_le_length

theorem PlansExisting.length_sorted (h : PlansExisting input) :
    (sortedResources input.resources).length ≤ isizeMax := by
  have hsub : (sortedResources input.resources).length ≤ (input.resources.insertionSort
      fun a b => (compare a b).isLE).length := (List.destutter_sublist _ _).length_le
  rw [List.length_insertionSort] at hsub
  exact hsub.trans h.fitsVec

/-- The counters are far from their maximum. -/
theorem PlansExisting.room (h : PlansExisting input) (hi : i < (sortedResources input.resources).length) :
    existingLoad input n + newOn input s i n + keptBefore input i n < u64Max.toNat := by
  have hexisting : existingLoad input n ≤ (OrdMap.values input.existing).length := List.length_filter_le _ _
  have hvalues := h.length_values
  have hsorted := h.length_sorted
  have hnew := @newOn_le_newBefore input s i n
  have hkept := @keptBefore_add_newBefore_le input i n
  rw [isizeMax] at hsorted
  rw [show u64Max.toNat = 18446744073709551615 from rfl]
  omega

theorem tally_zero (h : PlansExisting input) :
    Tally input 0 { load := liveOwnerLoad input.nodes input.existing, assignments := ∅ } where
  counts := by
    have hvalues := h.length_values
    have hsorted := h.length_sorted
    rw [isizeMax] at hsorted
    refine (counts_liveOwnerLoad ?_).congr fun n _ => by simp [newOn, keptBefore, existingLoad]
    rw [show u64Max.toNat = 18446744073709551615 from rfl]
    omega
  owners := by simp
  balanced := by
    intro u hu
    simp [newOn] at hu

/-- A node that is picked owns no more than any other. -/
theorem Tally.least (h : Tally input i s) (hund : Undistorted input) (hids : input.nodes.keys ≠ [])
    (hi : i < (sortedResources input.resources).length)
    (hnew : keptOwner input (sortedResources input.resources)[i] = none) {v : String} (hv : v ∈ input.nodes.keys) :
    existingLoad input (pickLeastLoadedOwner ⟨input.nodes.keys, hids⟩ s.load) +
        newOn input s i (pickLeastLoadedOwner ⟨input.nodes.keys, hids⟩ s.load) ≤
      existingLoad input v + newOn input s i v := by
  have hpick := @pickLeastLoadedOwner_least _ _ ⟨input.nodes.keys, hids⟩ h.counts v hv
  have hu := @pickLeastLoadedOwner_mem ⟨input.nodes.keys, hids⟩ s.load
  generalize pickLeastLoadedOwner ⟨input.nodes.keys, hids⟩ s.load = u at hpick hu ⊢
  refine @Greedy.least_of_pick String (fun n => existingLoad input n + newOn input s i n) (keptBefore input i)
    (fun a b => compare a b = .lt) _ u v hpick fun hless => ?_
  have hfresh := @newOn_le_newBefore input s i u
  exact hund i hi hnew u hu v hv (by omega)

/-- **A turn of the loop keeps the tally**, if the kept resources do not speak for the wrong node. -/
theorem Tally.place (h : Tally input i s) (hexisting : PlansExisting input) (hund : Undistorted input)
    (hids : input.nodes.keys ≠ []) (hi : i < (sortedResources input.resources).length) :
    Tally input (i + 1)
      (LeastLoadedPartitionPlacement.place input ⟨input.nodes.keys, hids⟩ s (sortedResources input.resources)[i]) := by
  have hnewOn := fun n => @newOn_place input s i n ⟨input.nodes.keys, hids⟩ hi
  have hkept := fun n => @keptBefore_succ input i n hi
  have howner := leastLoadedOwner_eq hids s.load (sortedResources input.resources)[i]
  have hmem := (@leastLoadedOwner_ownerFor ⟨input.nodes.keys, hids⟩
    input.existing[(sortedResources input.resources)[i]]? s.load).live
  refine ⟨?_, ?_, ?_⟩
  · -- whether kept or new, the owner is counted
    obtain ⟨c, hc, _⟩ := h.counts _ hmem
    rw [load_place hc]
    refine (h.counts.bump hmem hc (hexisting.room hi)).congr fun n _ => ?_
    rw [hnewOn, hkept, howner]
    cases keptOwner input (sortedResources input.resources)[i] with
    | none => simp; omega
    | some m => simp; omega
  · intro r hr
    rw [List.take_succ_eq_append_getElem hi, List.mem_append, List.mem_singleton] at hr
    rw [LeastLoadedPartitionPlacement.place]
    by_cases heq : r = (sortedResources input.resources)[i]
    · subst heq
      refine ⟨_, ExtTreeMap.getElem?_insert_self, fun n hn => ?_⟩
      rw [hn] at howner
      exact howner
    · rw [OrdMap.getElem?_insert_ne heq]
      exact h.owners r (hr.resolve_right heq)
  · cases hko : keptOwner input (sortedResources input.resources)[i] with
    | some m =>
      refine h.balanced.mono (fun v => ?_) fun u hu => ?_
      · simp [hnewOn, hko]
      · simpa [hnewOn, hko] using hu
    | none =>
      rw [hko, Option.getD_none] at howner
      refine h.balanced.place (fun v hv => h.least hund hids hi hko hv) (fun v => ?_) fun u hu => ?_
      · rw [hnewOn, howner]
        by_cases hv : pickLeastLoadedOwner ⟨input.nodes.keys, hids⟩ s.load = v
        · simp [hko, hv]
          omega
        · simp [hko, hv, Ne.symm hv]
      · rw [hnewOn, howner] at hu
        by_cases hv : pickLeastLoadedOwner ⟨input.nodes.keys, hids⟩ s.load = u
        · exact .inr hv.symm
        · simp [hv] at hu
          exact .inl hu

/-- The whole loop. -/
theorem tally_run (hexisting : PlansExisting input) (hund : Undistorted input) (hids : input.nodes.keys ≠ [])
    (hi : i ≤ (sortedResources input.resources).length) :
    Tally input i (Replay.stateAt (LeastLoadedPartitionPlacement.place input ⟨input.nodes.keys, hids⟩)
      { load := liveOwnerLoad input.nodes input.existing, assignments := ∅ } (sortedResources input.resources) i) := by
  induction i with
  | zero => exact tally_zero hexisting
  | succ i ih =>
    rw [Replay.stateAt_succ hi]
    exact (ih (by omega)).place hexisting hund hids hi

/-- In the end a node owns what it owned already and what was newly placed on it. -/
theorem Tally.load_eq (h : Tally input (sortedResources input.resources).length s) (hexisting : PlansExisting input)
    (hkeys : ∀ r, r ∈ s.assignments → r ∈ input.resources) (hn : n ∈ input.nodes) :
    ((OrdMap.values s.assignments).filter (·.isOwnedBy n)).length =
      existingLoad input n + newOn input s (sortedResources input.resources).length n := by
  rw [OrdMap.length_filter_values (nodup_sortedResources input.resources)
    fun r hr => mem_sortedResources.2 (hkeys r hr), existingLoad_eq hexisting.existing hn, newOn, List.take_length]
  refine countP_parts fun r hr => ?_
  obtain ⟨a, ha, howner⟩ := h.owners r (by rwa [List.take_length])
  rw [ha]
  cases hko : keptOwner input r with
  | none => simp
  | some m => simp [PartitionAssignment.isOwnedBy, howner m hko]

/-- The assignments of a plan are those that the loop has made. -/
theorem assignments_of_plan (hids : input.nodes.keys ≠ []) (hresources : sortedResources input.resources ≠ [])
    {plan : PlacementPlan} (hplan : LeastLoadedPartitionPlacement.plan input = .ok plan) :
    plan.snapshot.assignments = ((sortedResources input.resources).foldl
      (LeastLoadedPartitionPlacement.place input ⟨input.nodes.keys, hids⟩)
      { load := liveOwnerLoad input.nodes input.existing, assignments := ∅ }).assignments := by
  rw [LeastLoadedPartitionPlacement.plan, planWith, if_neg hresources, dif_neg hids] at hplan
  cases hplan
  rfl

end

/-- **When least-loaded placement balances**: if the kept resources do not distort the counters, no node that a resource
was newly placed on owns more than one above any live node. -/
theorem leastLoaded_balances (input : PlacementInput) (hnodes : ∃ id, id ∈ input.nodes)
    (hexisting : PlansExisting input) (hund : Undistorted input) :
    ∃ plan, LeastLoadedPartitionPlacement.plan input = .ok plan ∧
      ∀ (r : ResourceIdentity) (a : PartitionAssignment), plan.snapshot.assignments[r]? = some a →
        keptOwner input r = none → ∀ v ∈ input.nodes,
          (plan.snapshot.ownedBy a.owner).length ≤ (plan.snapshot.ownedBy v).length + 1 := by
  obtain ⟨id, hid⟩ := hnodes
  have hids : input.nodes.keys ≠ [] := List.ne_nil_of_mem (ExtTreeMap.mem_keys.2 hid)
  obtain ⟨plan, hplan⟩ := plan_succeeds .leastLoaded hid
  have hplaced := plan_placed hplan
  replace hplan : LeastLoadedPartitionPlacement.plan input = .ok plan := hplan
  refine ⟨plan, hplan, fun r a ha hnew v hv => ?_⟩
  have htally := tally_run hexisting hund hids (Nat.le_refl _)
  rw [Replay.stateAt_length] at htally
  have hr : r ∈ sortedResources input.resources := by
    rw [mem_sortedResources, ← hplaced.resources, ExtTreeMap.mem_iff_isSome_getElem?, ha]
    rfl
  have hassignments := assignments_of_plan hids (List.ne_nil_of_mem hr) hplan
  generalize (sortedResources input.resources).foldl _ _ = s at htally hassignments
  have hkeys : ∀ q, q ∈ s.assignments → q ∈ input.resources := by
    intro q hq
    rw [← hassignments] at hq
    exact (hplaced.resources q).1 hq
  have howner : a.owner ∈ input.nodes := ExtTreeMap.mem_keys.1 (hplaced.assignment ha).owner.live
  have hused : 0 < newOn input s (sortedResources input.resources).length a.owner := by
    rw [newOn, List.take_length, List.countP_pos_iff]
    refine ⟨r, hr, ?_⟩
    rw [hnew, ← hassignments, ha]
    simp [PartitionAssignment.isOwnedBy]
  have hbalanced := htally.balanced a.owner hused v (ExtTreeMap.mem_keys.2 hv)
  rw [CoordinationSnapshot.ownedBy, CoordinationSnapshot.ownedBy, hassignments,
    htally.load_eq hexisting hkeys howner, htally.load_eq hexisting hkeys hv]
  exact hbalanced

/-! ### Two nodes -/

/-- A partition of a resource. -/
def queue (partition : UInt64) : ResourceIdentity where
  namespacePart := "work"
  name := "queue"
  partition := partition
  group := none

/-- Two live nodes, and the owners of some partitions. -/
def queuesOn (owners : List (UInt64 × String)) (partitions : List UInt64) : PlacementInput where
  nodes := OrdMap.ofPairs (["a", "b"].map fun id => (id, .new id id none))
  resources := partitions.map queue
  existing := OrdMap.ofPairs (owners.map fun p => (queue p.1, .new (queue p.1) p.2 [] 1))
  targetFollowers := 0
  generation := 1

theorem plansExisting_queuesOn {owners : List (UInt64 × String)} {partitions : List UInt64}
    (howners : ∀ p ∈ owners, p.1 ∈ partitions) (hlength : partitions.length ≤ isizeMax) :
    PlansExisting (queuesOn owners partitions) := by
  refine ⟨fun r hr => ?_, by simpa [queuesOn] using hlength⟩
  rw [queuesOn, OrdMap.mem_ofPairs, List.map_map, List.mem_map] at hr
  obtain ⟨p, hp, rfl⟩ := hr
  exact List.mem_map.2 ⟨p.1, howners p hp, rfl⟩

/-- Each node keeps one partition, and three are new. -/
theorem leastLoaded_balances_evenly :
    ∃ plan, LeastLoadedPartitionPlacement.plan (queuesOn [(0, "a"), (1, "b")] [0, 1, 2, 3, 4]) = .ok plan ∧
      ∀ (r : ResourceIdentity) (a : PartitionAssignment), plan.snapshot.assignments[r]? = some a →
        keptOwner (queuesOn [(0, "a"), (1, "b")] [0, 1, 2, 3, 4]) r = none →
          ∀ v ∈ (queuesOn [(0, "a"), (1, "b")] [0, 1, 2, 3, 4]).nodes,
            (plan.snapshot.ownedBy a.owner).length ≤ (plan.snapshot.ownedBy v).length + 1 :=
  leastLoaded_balances _ ⟨"a", by decide⟩ (plansExisting_queuesOn (by decide) (by decide))
    (by unfold Undistorted; decide)

/-- Node `a` keeps two partitions, which count four times; all four new ones go to `b`. -/
theorem kept_owners_count_twice : PlansExisting (queuesOn [(0, "a"), (1, "a")] [0, 1, 2, 3, 4, 5]) ∧
    ∃ plan a, LeastLoadedPartitionPlacement.plan (queuesOn [(0, "a"), (1, "a")] [0, 1, 2, 3, 4, 5]) = .ok plan ∧
      plan.snapshot.assignments[queue 2]? = some a ∧
      keptOwner (queuesOn [(0, "a"), (1, "a")] [0, 1, 2, 3, 4, 5]) (queue 2) = none ∧
      "a" ∈ (queuesOn [(0, "a"), (1, "a")] [0, 1, 2, 3, 4, 5]).nodes ∧
      ¬(plan.snapshot.ownedBy a.owner).length ≤ (plan.snapshot.ownedBy "a").length + 1 := by
  refine ⟨plansExisting_queuesOn (by decide) (by decide),
    planOf (queuesOn [(0, "a"), (1, "a")] [0, 1, 2, 3, 4, 5]) (OrdMap.ofPairs
      ((["a", "a", "b", "b", "b", "b"].zip [0, 1, 2, 3, 4, 5]).map fun p =>
        (queue p.2, .new (queue p.2) p.1 [] 1))), .new (queue 2) "b" [] 1, ?_⟩
  decide

end Ganglion
