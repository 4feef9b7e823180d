import Ganglion.Runtime.StepLaw

/-!
# Incarnations of a resource

A resource is registered together with an attribute that names its incarnation, and deregistered on the condition that
the attribute still holds it: `RegisterResourceWithInitialAttribute`, `DeregisterResourceWithAttribute` and
`DeregisterResourceReplacingAttribute`. When every value is written by at most one command (`Incarnations`), a value
that has left the attribute does not come back (`held_before`).

* `attribute_written`, `resource_kept`: what one command can do to the attribute and to the resource.
* `delete_hits_observed`: a conditional deregistration that expects an observed value and is accepted meets the very
  incarnation that was observed, which was there all the time in between.
-/

namespace Ganglion

open Std CoordinationSnapshot Applied

/-- What one of the three incarnation commands names: the resource, the key, the value it writes, and for a
deregistration the value it expects. -/
structure Incarnation where
  resource : ResourceIdentity
  key : String
  value : Option String
  expected : Option (Option String)

/-- The three incarnation commands. -/
def MetadataRaftCommand.incarnation : MetadataRaftCommand → Option Incarnation
  | .registerResourceWithInitialAttribute resource key value => some ⟨resource, key, some value, none⟩
  | .deregisterResourceWithAttribute resource key expected => some ⟨resource, key, none, some expected⟩
  | .deregisterResourceReplacingAttribute resource key expected value =>
    some ⟨resource, key, some value, some expected⟩
  | _ => none

/-- The value a command writes. -/
def MetadataRaftCommand.writtenValue (c : MetadataRaftCommand) : Option String := c.incarnation.bind (·.value)

/-- A log of incarnation commands in which `r` alone uses the key `k`, and every value is written by at most one
command. -/
structure Incarnations (r : ResourceIdentity) (k : String) (log : List MetadataRaftCommand) : Prop where
  keyed : ∀ c ∈ log, ∃ p, c.incarnation = some p ∧ (p.resource = r ↔ p.key = k)
  fresh : log.Pairwise fun c d => c.writtenValue = none ∨ c.writtenValue ≠ d.writtenValue

/-! ## One command -/

section Step

variable {s : CoordinationSnapshot} {c : MetadataRaftCommand} {p : Incarnation}

theorem footprint_of_incarnation (hp : c.incarnation = some p) : c.footprint = [.resource p.resource, .attr p.key] := by
  cases c <;> cases hp <;> rfl

theorem payload_of_incarnation (hp : c.incarnation = some p) : c.payload = none := by
  cases c <;> cases hp <;> rfl

/-- A deregistration is accepted exactly on the value it expects. -/
theorem expected_of_accepted {expected : Option String} (hp : c.incarnation = some p)
    (he : p.expected = some expected) (ha : Accepted s c) : s.attributes[p.key]? = expected := by
  by_contra hne
  have hrej : ∀ retirement, (deregisterIfExpected s p.resource p.key expected retirement).rejection ≠ none := by
    intro retirement
    rw [deregisterIfExpected_rejected hne]
    nofun
  cases c <;> cases hp <;> cases he
  · exact hrej _ ha
  · exact hrej _ ha

/-- A deregistration that is accepted removes the resource and retires the attribute. -/
theorem retired_of_accepted {expected : Option String} (hp : c.incarnation = some p)
    (he : p.expected = some expected) (ha : Accepted s c) :
    p.resource ∉ (commit s c).resources ∧ (commit s c).attributes[p.key]? = p.value := by
  have hk := expected_of_accepted hp he ha
  cases c <;> cases hp <;> cases he
  · exact deregisterIfExpected_effect hk _ none
  · exact deregisterIfExpected_effect hk _ _

/-- An attribute holds what it held or what the command writes. -/
theorem attribute_written (hp : c.incarnation = some p) {k x : String}
    (h : (commit s c).attributes[k]? = some x) : s.attributes[k]? = some x ∨ p.value = some x := by
  by_cases hk : k = p.key
  swap
  · left
    have hframe : (commit s c).cell (.attr k) = s.cell (.attr k) := by
      apply commit_frame (payload_of_incarnation hp)
      simp [footprint_of_incarnation hp, hk]
    exact hframe.symm.trans h
  subst hk
  by_cases ha : Accepted s c
  swap
  · left
    rwa [commit_rejected ha] at h
  cases he : p.expected with
  | some expected =>
    right
    rw [← h, (retired_of_accepted hp he ha).2]
  | none =>
    -- a registration, which writes the attribute of a resource that is neither catalogued nor assigned
    cases c with
    | registerResourceWithInitialAttribute r key value =>
      cases hp
      simp only [commit, applyCommand] at h
      split at h
      · exact .inl h
      · simp only [bump] at h
        split at h
        · exact .inl h
        · rw [ExtTreeMap.getElem?_insert_self] at h
          exact .inr h
    | _ => cases hp <;> cases he

/-- A catalogued resource stays, unless its attribute is retired. -/
theorem resource_kept (hp : c.incarnation = some p) {r : ResourceIdentity} {k x : String}
    (hkey : p.resource = r → p.key = k) (hr : r ∈ s.resources) (h : (commit s c).attributes[k]? = some x)
    (hv : p.value ≠ some x) : r ∈ (commit s c).resources := by
  by_cases hres : p.resource = r
  swap
  · have hframe : (commit s c).cell (.resource r) = s.cell (.resource r) := by
      apply commit_frame (payload_of_incarnation hp)
      simp [footprint_of_incarnation hp, Ne.symm hres]
    exact (ExtTreeSet.contains_iff_mem).1 (hframe.trans (ExtTreeSet.contains_iff_mem.2 hr))
  by_cases ha : Accepted s c
  swap
  · rwa [commit_rejected ha]
  cases he : p.expected with
  | some expected =>
    have hret := (retired_of_accepted hp he ha).2
    rw [hkey hres, h] at hret
    exact absurd hret.symm hv
  | none =>
    cases c with
    | registerResourceWithInitialAttribute r' key value =>
      cases hp
      simp only [commit, applyCommand]
      split
      · exact hr
      · exact ExtTreeSet.mem_insert.2 (.inr hr)
    | _ => cases hp <;> cases he

/-- A registration of a catalogued resource does nothing. -/
theorem register_catalogued {r : ResourceIdentity} {key value : String} (hr : r ∈ s.resources) :
    commit s (.registerResourceWithInitialAttribute r key value) = s := by
  simp [commit, applyCommand, hr, silent]

end Step

/-! ## Histories -/

section History

variable {init : CoordinationSnapshot} {log : List MetadataRaftCommand} {r : ResourceIdentity} {k : String}

/-- The command at a position of the log. -/
theorem Incarnations.at (h : Incarnations r k log) {n : Nat} (hn : n < log.length) :
    ∃ p, log[n].incarnation = some p ∧ (p.resource = r ↔ p.key = k) := h.keyed _ (List.getElem_mem hn)

/-- What the attribute holds was written before. -/
theorem Incarnations.written (h : Incarnations r k log) (hinit : k ∉ init.attributes) {x : String} {n : Nat}
    (hn : n ≤ log.length) (hx : (Replay.stateAt commit init log n).attributes[k]? = some x) :
    ∃ (m : Nat) (hm : m < log.length) (p : Incarnation), m < n ∧ log[m].incarnation = some p ∧ p.value = some x := by
  induction n with
  | zero =>
    refine absurd ?_ hinit
    rw [ExtTreeMap.mem_iff_isSome_getElem?]
    exact Option.isSome_iff_exists.2 ⟨x, hx⟩
  | succ n ih =>
    obtain ⟨p, hp, _⟩ := h.at (n := n) hn
    rw [Replay.stateAt_succ hn] at hx
    rcases attribute_written hp hx with hold | hnew
    · obtain ⟨m, hm, q, hmn, hq⟩ := ih (Nat.le_of_lt hn) hold
      exact ⟨m, hm, q, Nat.lt_succ_of_lt hmn, hq⟩
    · exact ⟨n, hn, p, Nat.lt_succ_self n, hp, hnew⟩

/-- No command from `i` on writes the value that the attribute holds at `i`. -/
theorem Incarnations.not_rewritten (h : Incarnations r k log) (hinit : k ∉ init.attributes) {x : String} {i n : Nat}
    (hx : (Replay.stateAt commit init log i).attributes[k]? = some x) (hin : i ≤ n) (hn : n < log.length)
    {p : Incarnation} (hp : log[n].incarnation = some p) : p.value ≠ some x := by
  intro hv
  obtain ⟨m, hm, q, hmi, hq, hqv⟩ := h.written hinit (Nat.le_trans hin (Nat.le_of_lt hn)) hx
  have hmx : log[m].writtenValue = some x := by simp [MetadataRaftCommand.writtenValue, hq, hqv]
  have hnx : log[n].writtenValue = some x := by simp [MetadataRaftCommand.writtenValue, hp, hv]
  rcases List.pairwise_iff_getElem.1 h.fresh m n hm hn (by omega) with hnone | hne
  · rw [hmx] at hnone
    cases hnone
  · exact hne (hmx.trans hnx.symm)

/-- A value that the attribute holds at `i` and at `j` is there all the time in between. -/
theorem Incarnations.held_before (h : Incarnations r k log) (hinit : k ∉ init.attributes) {x : String} {i m d : Nat}
    (hi : (Replay.stateAt commit init log i).attributes[k]? = some x)
    (hj : (Replay.stateAt commit init log (m + d)).attributes[k]? = some x) (hjl : m + d ≤ log.length) (him : i ≤ m) :
    (Replay.stateAt commit init log m).attributes[k]? = some x := by
  -- backwards from `m + d`: the command at `m` did not write the value, so it was there before
  induction d generalizing m with
  | zero => exact hj
  | succ d ih =>
    have hm : m < log.length := by omega
    obtain ⟨p, hp, _⟩ := h.at hm
    have hsucc : (Replay.stateAt commit init log (m + 1)).attributes[k]? = some x :=
      ih (by rwa [Nat.add_right_comm]) (by omega) (by omega)
    rw [Replay.stateAt_succ hm] at hsucc
    rcases attribute_written hp hsucc with hold | hnew
    · exact hold
    · exact absurd hnew (h.not_rewritten hinit hi him hm hp)

/-- The resource stays catalogued as long as its attribute holds the observed value. -/
theorem Incarnations.catalogued (h : Incarnations r k log) (hinit : k ∉ init.attributes) {x : String} {i j : Nat}
    (hr : r ∈ (Replay.stateAt commit init log i).resources)
    (hi : (Replay.stateAt commit init log i).attributes[k]? = some x) (hij : i ≤ j) (hjl : j ≤ log.length)
    (hall : ∀ m, i ≤ m → m ≤ j → (Replay.stateAt commit init log m).attributes[k]? = some x) :
    r ∈ (Replay.stateAt commit init log j).resources := by
  induction hij with
  | refl => exact hr
  | @step j hij ih =>
    obtain ⟨p, hp, hkey⟩ := h.at (n := j) hjl
    have hsucc := hall (j + 1) (Nat.le_succ_of_le hij) (Nat.le_refl _)
    rw [Replay.stateAt_succ hjl] at hsucc ⊢
    have hr' := ih (by omega) fun m him hmj => hall m him (Nat.le_succ_of_le hmj)
    exact resource_kept hp hkey.1 hr' hsucc (h.not_rewritten hinit hi hij hjl hp)

end History

/-- **Conditional deregistration is free of ABA.** The value `x` was observed at `i` with `r` catalogued, and the
deregistration at `j` expects it. If it is accepted, `r` was catalogued under `x` in every state from `i` to `j`, and no
registration in between did anything; if it is rejected, it changes nothing. -/
theorem delete_hits_observed {init : CoordinationSnapshot} {log : List MetadataRaftCommand} {r : ResourceIdentity}
    {k : String} (h : Incarnations r k log) (hinit : k ∉ init.attributes) {x : String} {i j : Nat}
    (hj : j < log.length) (hr : r ∈ (Replay.stateAt commit init log i).resources)
    (hx : (Replay.stateAt commit init log i).attributes[k]? = some x) {p : Incarnation}
    (hp : log[j].incarnation = some p) (hpr : p.resource = r) (hpx : p.expected = some (some x)) :
    (Accepted (Replay.stateAt commit init log j) log[j] →
      (∀ m, i ≤ m → m ≤ j → r ∈ (Replay.stateAt commit init log m).resources ∧
        (Replay.stateAt commit init log m).attributes[k]? = some x) ∧
      ∀ (m : Nat) (hm : m < log.length), i ≤ m → m < j → ∀ key value,
        log[m] = .registerResourceWithInitialAttribute r key value →
        Replay.stateAt commit init log (m + 1) = Replay.stateAt commit init log m) ∧
    (¬Accepted (Replay.stateAt commit init log j) log[j] →
      Replay.stateAt commit init log (j + 1) = Replay.stateAt commit init log j) := by
  constructor
  · intro ha
    obtain ⟨q, hq, hkeyed⟩ := h.at hj
    cases hp.symm.trans hq
    have hjx : (Replay.stateAt commit init log j).attributes[k]? = some x :=
      hkeyed.1 hpr ▸ expected_of_accepted hp hpx ha
    have hheld : ∀ m, i ≤ m → m ≤ j → (Replay.stateAt commit init log m).attributes[k]? = some x := by
      intro m him hmj
      obtain ⟨d, rfl⟩ := Nat.exists_eq_add_of_le hmj
      exact h.held_before hinit hx hjx (Nat.le_of_lt hj) him
    have hcat : ∀ m, i ≤ m → m ≤ j → r ∈ (Replay.stateAt commit init log m).resources := by
      intro m him hmj
      refine h.catalogued hinit hr hx him (by omega) fun n hin hnm => ?_
      exact hheld n hin (Nat.le_trans hnm hmj)
    refine ⟨fun m him hmj => ⟨hcat m him hmj, hheld m him hmj⟩, fun m hm him hmj key value hc => ?_⟩
    rw [Replay.stateAt_succ hm, hc]
    exact register_catalogued (hcat m him (Nat.le_of_lt hmj))
  · intro ha
    rw [Replay.stateAt_succ hj]
    exact commit_rejected ha

/-- The resource of the history below. -/
def orders : ResourceIdentity := ⟨"queue", "orders", 0, none⟩

/-- Two incarnations of `orders`; the delete of the first one is delayed past the second registration. -/
def delayedDelete : List MetadataRaftCommand :=
  [.registerResourceWithInitialAttribute orders "orders/incarnation" "1",
    .deregisterResourceReplacingAttribute orders "orders/incarnation" (some "1") "retired-1",
    .registerResourceWithInitialAttribute orders "orders/incarnation" "2",
    .deregisterResourceWithAttribute orders "orders/incarnation" (some "1"),
    .deregisterResourceWithAttribute orders "orders/incarnation" (some "2")]

/-- The late delete of the first incarnation changes nothing, and the delete of the second one meets it. -/
theorem delete_hits_observed_delayed :
    Replay.stateAt commit .default delayedDelete 4 = Replay.stateAt commit .default delayedDelete 3 ∧
      orders ∈ (Replay.stateAt commit .default delayedDelete 4).resources := by
  have h : Incarnations orders "orders/incarnation" delayedDelete := by
    refine ⟨fun c hc => ?_, by decide⟩
    simp only [delayedDelete, List.mem_cons, List.not_mem_nil, or_false] at hc
    rcases hc with rfl | rfl | rfl | rfl | rfl <;> exact ⟨_, rfl, by simp⟩
  have hinit : "orders/incarnation" ∉ CoordinationSnapshot.default.attributes := by decide
  have hfirst := delete_hits_observed h hinit (x := "1") (i := 1) (j := 3) (by decide)
    (by decide) (by decide) rfl rfl rfl
  have hsecond := delete_hits_observed h hinit (x := "2") (i := 3) (j := 4) (by decide)
    (by decide) (by decide) rfl rfl rfl
  exact ⟨hfirst.2 (by decide), ((hsecond.1 (by decide)).1 4 (by decide) (by decide)).1⟩

end Ganglion
