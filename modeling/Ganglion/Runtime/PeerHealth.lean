import Mathlib.Data.List.Induction
import Ganglion.Core.Types
import Ganglion.Runtime.Connection

/-!
# Peer failure episodes

What a node remembers of the transport to its peers (`PeerHealth`): for a peer that failed explicitly, when the episode
began, when it failed last and how, and how often. A success ends the episode; at most 256 peers are remembered.

* `observe` is one observation, with the answer of `send_if_modified`: whether the subscribers are notified.
* `observe_cases` says all that an observation can do to the entry of a peer; everything later is read off it.
* `episode_of_entry` describes an entry by the observations since it was created, by induction on these;
  `entry_none_iff` says when there is none.
-/

namespace Ganglion

open Std

variable {T : Type}

/-- `PeerTransportFailure`, over the instants `T`. -/
structure PeerTransportFailure (T : Type) where
  since : T
  latest : T
  attempts : UInt64
  kind : ErrorKind
  deriving DecidableEq

/-- The failures of a `PeerHealth`, by peer. -/
abbrev PeerFailures (T : Type) := BTreeMap UInt64 (PeerTransportFailure T)

/-- A call of `observe`, with the time that it reads from the clock. -/
structure Observation (T : Type) where
  peer : UInt64
  outcome : Except ErrorKind Unit
  now : T

/-- The entry after one more failure. -/
def PeerTransportFailure.again (failure : PeerTransportFailure T) (kind : ErrorKind) (now : T) :
    PeerTransportFailure T :=
  { failure with latest := now, attempts := saturatingSucc failure.attempts, kind := kind }

namespace PeerHealth

/-- `record`: whether the subscribers are notified, and the failures after it. -/
def record (failures : PeerFailures T) (peer : UInt64) (kind : Option ErrorKind) (now : T) : Bool × PeerFailures T :=
  match kind with
  | none => (failures.contains peer, failures.erase peer)
  | some kind =>
    if ¬failures.contains peer ∧ failures.size ≥ 256 then (false, failures)
    else
      let failure := failures[peer]?.getD { since := now, latest := now, attempts := 0, kind := kind }
      (true, failures.insert peer (failure.again kind now))

/-- `observe`. -/
def observe (failures : PeerFailures T) (o : Observation T) : Bool × PeerFailures T :=
  match o.outcome with
  | .ok () => record failures o.peer none o.now
  | .error kind => if explicitFailure kind then record failures o.peer (some kind) o.now else (false, failures)

/-- The failures after a sequence of observations. -/
def observeAll (os : List (Observation T)) : PeerFailures T := os.foldl (fun failures o => (observe failures o).2) ∅

end PeerHealth

/-! ## What an observation is about -/

namespace Observation

/-- A success of the peer. -/
def successOf (p : UInt64) (o : Observation T) : Bool :=
  o.peer == p && match o.outcome with
    | .ok () => true
    | .error _ => false

/-- An explicit failure of the peer. -/
def failureOf (p : UInt64) (o : Observation T) : Bool :=
  o.peer == p && match o.outcome with
    | .ok () => false
    | .error kind => explicitFailure kind

end Observation

namespace PeerHealth

variable {failures : PeerFailures T} {o : Observation T} {os : List (Observation T)} {p : UInt64}

/-! ## One observation -/

/-- An explicit failure of a peer is refused when it would make one entry too many. -/
def Refused (failures : PeerFailures T) (p : UInt64) : Prop := failures[p]? = none ∧ 256 ≤ failures.size

theorem record_refused {kind : ErrorKind} {now : T} (h : Refused failures p) :
    record failures p (some kind) now = (false, failures) := by
  refine if_pos ⟨?_, h.2⟩
  rw [ExtTreeMap.contains_eq_isSome_getElem?, h.1]
  simp

theorem record_accepted {kind : ErrorKind} {now : T} (h : ¬Refused failures p) :
    record failures p (some kind) now =
      (true, failures.insert p ((failures[p]?.getD ⟨now, now, 0, kind⟩).again kind now)) := by
  refine if_neg fun hfull => h ⟨?_, hfull.2⟩
  have hnot := hfull.1
  rw [ExtTreeMap.contains_eq_isSome_getElem?] at hnot
  simpa using hnot

theorem observe_explicit {kind : ErrorKind} (h : o.outcome = .error kind) (hkind : explicitFailure kind = true) :
    observe failures o = record failures o.peer (some kind) o.now := by
  rw [observe, h]
  exact if_pos hkind

/-- Observations of other peers, and outcomes that prove nothing, leave an entry alone. -/
theorem observe_other (hs : o.successOf p = false) (hf : o.failureOf p = false) :
    (observe failures o).2[p]? = failures[p]? := by
  by_cases hp : o.peer = p
  · subst hp
    cases houtcome : o.outcome with
    | ok _ => simp [Observation.successOf, houtcome] at hs
    | error kind =>
      have hkind : explicitFailure kind = false := by simpa [Observation.failureOf, houtcome] using hf
      simp [observe, houtcome, hkind]
  · have hne : p ≠ o.peer := fun h => hp h.symm
    unfold observe
    split
    · exact OrdMap.getElem?_erase_ne hne
    · split
      · by_cases hrefused : Refused failures o.peer
        · rw [record_refused hrefused]
        · rw [record_accepted hrefused]
          exact OrdMap.getElem?_insert_ne hne
      · rfl

/-- All that an observation can do to the entry of a peer. -/
inductive EntryStep (failures after : PeerFailures T) (p : UInt64) (o : Observation T) : Prop
  | ended : o.successOf p = true → o.failureOf p = false → after[p]? = none → EntryStep failures after p o
  | refused : o.successOf p = false → o.failureOf p = true → Refused failures p → after[p]? = none →
      EntryStep failures after p o
  | started (kind : ErrorKind) : o.successOf p = false → o.failureOf p = true → o.outcome = .error kind →
      failures[p]? = none → ¬Refused failures p → after[p]? = some ⟨o.now, o.now, 1, kind⟩ →
      EntryStep failures after p o
  | again (kind : ErrorKind) (f : PeerTransportFailure T) : o.successOf p = false → o.failureOf p = true →
      o.outcome = .error kind → failures[p]? = some f → after[p]? = some (f.again kind o.now) →
      EntryStep failures after p o
  | other : o.successOf p = false → o.failureOf p = false → after[p]? = failures[p]? → EntryStep failures after p o

theorem observe_cases (failures : PeerFailures T) (p : UInt64) (o : Observation T) :
    EntryStep failures (observe failures o).2 p o := by
  cases hs : o.successOf p with
  | true =>
    rw [Observation.successOf, Bool.and_eq_true, beq_iff_eq] at hs
    obtain ⟨rfl, hok⟩ := hs
    cases houtcome : o.outcome with
    | ok _ =>
      refine .ended (by simp [Observation.successOf, houtcome]) (by simp [Observation.failureOf, houtcome]) ?_
      simp [observe, houtcome, record]
    | error kind => simp [houtcome] at hok
  | false =>
    cases hf : o.failureOf p with
    | false => exact .other hs hf (observe_other hs hf)
    | true =>
      have hfailure := hf
      rw [Observation.failureOf, Bool.and_eq_true, beq_iff_eq] at hfailure
      obtain ⟨rfl, herror⟩ := hfailure
      cases houtcome : o.outcome with
      | ok _ => simp [houtcome] at herror
      | error kind =>
        rw [houtcome] at herror
        replace herror : explicitFailure kind = true := herror
        have hobserve := @observe_explicit T failures o kind houtcome herror
        by_cases hrefused : Refused failures o.peer
        · refine .refused hs hf hrefused ?_
          rw [hobserve, record_refused hrefused]
          exact hrefused.1
        · rw [hobserve, record_accepted hrefused]
          cases hentry : failures[o.peer]? with
          | none => exact .started kind hs hf houtcome hentry hrefused (by simp [PeerTransportFailure.again]; rfl)
          | some f => exact .again kind f hs hf houtcome hentry (by simp)

/-! ## Sequences of observations -/

theorem observeAll_snoc : observeAll (os ++ [o]) = (observe (observeAll os) o).2 := by
  rw [observeAll, List.foldl_append]
  rfl

/-- An observation does not make more than 256 entries. -/
theorem size_observe (h : failures.size ≤ 256) : (observe failures o).2.size ≤ 256 := by
  unfold observe
  split
  · exact Nat.le_trans ExtTreeMap.size_erase_le h
  · split
    · by_cases hrefused : Refused failures o.peer
      · rw [record_refused hrefused]
        exact h
      · rw [record_accepted hrefused]
        show (failures.insert _ _).size ≤ 256
        rw [ExtTreeMap.size_insert]
        split
        · exact h
        · rename_i hnew
          have hroom : ¬256 ≤ failures.size := fun hfull => hrefused ⟨ExtTreeMap.getElem?_eq_none hnew, hfull⟩
          omega
    · exact h

theorem size_observeAll (os : List (Observation T)) : (observeAll os).size ≤ 256 := by
  induction os using List.reverseRecOn with
  | nil => simp [observeAll]
  | append_singleton os o ih =>
    rw [observeAll_snoc]
    exact size_observe ih

/-! ## Episodes -/

/-- What the entry of a peer says about the observations since the one that created it. -/
structure Episode (p : UInt64) (before : List (Observation T)) (first : Observation T) (after : List (Observation T))
    (f : PeerTransportFailure T) : Prop where
  created : first.failureOf p = true ∧ (observeAll before)[p]? = none ∧ p ∈ observeAll (before ++ [first])
  unbroken : ∀ o ∈ after, o.successOf p = false
  attempts : f.attempts.toNat = min ((first :: after).filter (Observation.failureOf p)).length u64Max.toNat
  since : f.since = first.now
  last : ∃ o, ((first :: after).filter (Observation.failureOf p)).getLast? = some o ∧ f.latest = o.now ∧
    o.outcome = .error f.kind

section

variable {before after : List (Observation T)} {first : Observation T} {f : PeerTransportFailure T}

theorem Episode.unbroken_snoc (h : Episode p before first after f) (hs : o.successOf p = false) :
    ∀ o' ∈ after ++ [o], o'.successOf p = false := by
  intro o' ho'
  rcases List.mem_append.1 ho' with ho' | ho'
  · exact h.unbroken o' ho'
  · rw [List.mem_singleton.1 ho']
    exact hs

/-- Nothing is observed of the peer. -/
theorem Episode.other (h : Episode p before first after f) (hs : o.successOf p = false) (hf : o.failureOf p = false) :
    Episode p before first (after ++ [o]) f := by
  have hfilter : (first :: (after ++ [o])).filter (Observation.failureOf p) =
      (first :: after).filter (Observation.failureOf p) := by
    have hone : [o].filter (Observation.failureOf p) = [] := List.filter_cons_of_neg (by simp [hf])
    rw [← List.cons_append, List.filter_append, hone, List.append_nil]
  exact ⟨h.created, h.unbroken_snoc hs, hfilter ▸ h.attempts, h.since, hfilter ▸ h.last⟩

/-- The peer fails once more. -/
theorem Episode.again {kind : ErrorKind} (h : Episode p before first after f) (hs : o.successOf p = false)
    (hf : o.failureOf p = true) (hkind : o.outcome = .error kind) :
    Episode p before first (after ++ [o]) (f.again kind o.now) := by
  have hfilter : (first :: (after ++ [o])).filter (Observation.failureOf p) =
      (first :: after).filter (Observation.failureOf p) ++ [o] := by
    have hone : [o].filter (Observation.failureOf p) = [o] := List.filter_cons_of_pos hf
    rw [← List.cons_append, List.filter_append, hone]
  refine ⟨h.created, h.unbroken_snoc hs, ?_, h.since, o, ?_, rfl, hkind⟩
  · have hattempts := h.attempts
    rw [hfilter, List.length_append, List.length_singleton]
    show (saturatingSucc f.attempts).toNat = _
    rw [toNat_saturatingSucc_eq_min, hattempts]
    omega
  · rw [hfilter, List.getLast?_concat]

end

/-- **An entry is an episode**: it counts the explicit failures since the one that created it. -/
theorem episode_of_entry {f : PeerTransportFailure T} (h : (observeAll os)[p]? = some f) :
    ∃ before first after, os = before ++ first :: after ∧ Episode p before first after f := by
  induction os using List.reverseRecOn generalizing f with
  | nil => simp [observeAll] at h
  | append_singleton os o ih =>
    rw [observeAll_snoc] at h
    cases observe_cases (observeAll os) p o with
    | ended _ _ hafter =>
      rw [hafter] at h
      cases h
    | refused _ _ _ hafter =>
      rw [hafter] at h
      cases h
    | started kind hs hf hkind hnone hroom hafter =>
      have hmem : p ∈ observeAll (os ++ [o]) := by
        rw [ExtTreeMap.mem_iff_isSome_getElem?, observeAll_snoc, hafter]
        rfl
      rw [hafter] at h
      cases h
      have hfilter : [o].filter (Observation.failureOf p) = [o] := List.filter_cons_of_pos hf
      refine ⟨os, o, [], rfl, ⟨hf, hnone, hmem⟩, by simp, ?_, rfl, o, ?_, rfl, hkind⟩
      · rw [hfilter]
        rfl
      · rw [hfilter]
        rfl
    | again kind f₀ hs hf hkind hsome hafter =>
      rw [hafter] at h
      cases h
      obtain ⟨before, first, after, rfl, hepisode⟩ := ih hsome
      exact ⟨before, first, after ++ [o], by simp, hepisode.again hs hf hkind⟩
    | other hs hf hafter =>
      rw [hafter] at h
      obtain ⟨before, first, after, rfl, hepisode⟩ := ih h
      exact ⟨before, first, after ++ [o], by simp, hepisode.other hs hf⟩

/-! ## Peers without an entry -/

/-- An entry stays until a success. -/
theorem entry_stays {before after : List (Observation T)} (hmem : p ∈ observeAll before)
    (hafter : ∀ o ∈ after, o.successOf p = false) : p ∈ observeAll (before ++ after) := by
  induction after using List.reverseRecOn with
  | nil => rwa [List.append_nil]
  | append_singleton after o ih =>
    have hbefore := ih fun o' ho' => hafter o' (List.mem_append_left [o] ho')
    have hs : o.successOf p = false := hafter o (by simp)
    rw [ExtTreeMap.mem_iff_isSome_getElem?] at hbefore
    rw [← List.append_assoc, observeAll_snoc, ExtTreeMap.mem_iff_isSome_getElem?]
    cases observe_cases (observeAll (before ++ after)) p o with
    | ended hsuccess _ _ =>
      rw [hs] at hsuccess
      cases hsuccess
    | refused _ _ hrefused _ =>
      rw [hrefused.1] at hbefore
      cases hbefore
    | started _ _ _ _ _ _ h => rw [h]; rfl
    | again _ _ _ _ _ _ h => rw [h]; rfl
    | other _ _ h => rw [h]; exact hbefore

/-- A refused failure comes while 256 other peers are recorded. -/
theorem refused_iff : Refused (observeAll os) p ↔ (observeAll os)[p]? = none ∧ ((observeAll os).erase p).size = 256 := by
  have hsize := size_observeAll os
  constructor
  · rintro ⟨hnone, hfull⟩
    refine ⟨hnone, ?_⟩
    rw [OrdMap.erase_eq_self hnone]
    omega
  · rintro ⟨hnone, hothers⟩
    rw [OrdMap.erase_eq_self hnone] at hothers
    exact ⟨hnone, by omega⟩

/-- **When a peer has no entry**: every explicit failure since its last success came while 256 others were recorded. -/
theorem entry_none_iff : (observeAll os)[p]? = none ↔
    ∀ before o after, os = before ++ o :: after → o.failureOf p = true → (∀ o' ∈ after, o'.successOf p = false) →
      ((observeAll before).erase p).size = 256 := by
  constructor
  · rintro hnone before o after rfl hf hafter
    -- otherwise there is an entry after the failure, and it stays
    have hgone : p ∉ observeAll (before ++ [o]) := by
      intro hmem
      have hstays := entry_stays hmem hafter
      rw [List.append_assoc, List.singleton_append, ExtTreeMap.mem_iff_isSome_getElem?, hnone] at hstays
      cases hstays
    rw [observeAll_snoc, ExtTreeMap.mem_iff_isSome_getElem?] at hgone
    cases observe_cases (observeAll before) p o with
    | ended _ hnot _ =>
      rw [hf] at hnot
      cases hnot
    | refused _ _ hrefused _ => exact (refused_iff.1 hrefused).2
    | started _ _ _ _ _ _ h => exact absurd (by rw [h]; rfl) hgone
    | again _ _ _ _ _ _ h => exact absurd (by rw [h]; rfl) hgone
    | other _ hnot _ =>
      rw [hf] at hnot
      cases hnot
  · intro hall
    cases hentry : (observeAll os)[p]? with
    | none => rfl
    | some f =>
      exfalso
      obtain ⟨before, first, after, rfl, hepisode⟩ := episode_of_entry hentry
      obtain ⟨hf, hnone, hmem⟩ := hepisode.created
      have hrefused := refused_iff.2 ⟨hnone, hall before first after rfl hf hepisode.unbroken⟩
      rw [observeAll_snoc, ExtTreeMap.mem_iff_isSome_getElem?] at hmem
      cases observe_cases (observeAll before) p first with
      | ended _ _ h => rw [h] at hmem; cases hmem
      | refused _ _ _ h => rw [h] at hmem; cases hmem
      | started _ _ _ _ _ hroom _ => exact hroom hrefused
      | again _ _ _ _ _ hsome _ =>
        rw [hnone] at hsome
        cases hsome
      | other _ hnot _ =>
        rw [hf] at hnot
        cases hnot

/-! ## Notifications -/

/-- An outcome that is neither a success nor an explicit failure does nothing. -/
theorem observe_inexplicit {kind : ErrorKind} (h : o.outcome = .error kind) (hkind : explicitFailure kind = false) :
    observe failures o = (false, failures) := by
  rw [observe, h]
  exact if_neg (by simp [hkind])

/-- Without a notification nothing has changed. -/
theorem observe_silent (h : (observe failures o).1 = false) : (observe failures o).2 = failures := by
  cases houtcome : o.outcome with
  | ok _ =>
    rw [observe, houtcome] at h ⊢
    replace h : failures.contains o.peer = false := h
    rw [ExtTreeMap.contains_eq_isSome_getElem?, Option.isSome_eq_false_iff, Option.isNone_iff_eq_none] at h
    exact OrdMap.erase_eq_self h
  | error kind =>
    cases hkind : explicitFailure kind with
    | false => rw [observe_inexplicit houtcome hkind]
    | true =>
      rw [observe_explicit houtcome hkind] at h ⊢
      by_cases hrefused : Refused failures o.peer
      · rw [record_refused hrefused]
      · rw [record_accepted hrefused] at h
        cases h

/-- Below the maximal count a notification is about a change. -/
theorem observe_notified (hattempts : ∀ f, failures[o.peer]? = some f → f.attempts < u64Max)
    (h : (observe failures o).1 = true) : (observe failures o).2 ≠ failures := by
  intro hsame
  cases houtcome : o.outcome with
  | ok _ =>
    rw [observe, houtcome] at h hsame
    replace h : failures.contains o.peer = true := h
    replace hsame : failures.erase o.peer = failures := hsame
    rw [← hsame] at h
    simp at h
  | error kind =>
    cases hkind : explicitFailure kind with
    | false =>
      rw [observe_inexplicit houtcome hkind] at h
      cases h
    | true =>
      rw [observe_explicit houtcome hkind] at h hsame
      by_cases hrefused : Refused failures o.peer
      · rw [record_refused hrefused] at h
        cases h
      · rw [record_accepted hrefused] at hsame
        have hentry := congrArg (fun m : PeerFailures T => m[o.peer]?) hsame
        rw [ExtTreeMap.getElem?_insert_self] at hentry
        cases hold : failures[o.peer]? with
        | none =>
          rw [hold] at hentry
          cases hentry
        | some f =>
          rw [hold, Option.getD_some, Option.some.injEq] at hentry
          -- the count of an entry that is written again has grown
          have hgrown := toNat_saturatingSucc (hattempts f hold)
          rw [show saturatingSucc f.attempts = f.attempts from congrArg PeerTransportFailure.attempts hentry] at hgrown
          omega

/-- **Peer failure episodes are counted exactly and bounded**, over every sequence of observations. -/
theorem peer_health_exact (os : List (Observation T)) :
    (observeAll os).size ≤ 256 ∧
    (∀ (p : UInt64) (f : PeerTransportFailure T), (observeAll os)[p]? = some f →
      ∃ before first after, os = before ++ first :: after ∧ Episode p before first after f) ∧
    (∀ p : UInt64, (observeAll os)[p]? = none ↔ ∀ before o after, os = before ++ o :: after →
      o.failureOf p = true → (∀ o' ∈ after, o'.successOf p = false) → ((observeAll before).erase p).size = 256) ∧
    ∀ before o after, os = before ++ o :: after →
      (∀ kind, o.outcome = .error kind → explicitFailure kind = false →
        observe (observeAll before) o = (false, observeAll before)) ∧
      ((observe (observeAll before) o).2 ≠ observeAll before → (observe (observeAll before) o).1 = true) ∧
      ((∀ f, (observeAll before)[o.peer]? = some f → f.attempts < u64Max) →
        (observe (observeAll before) o).1 = true → (observe (observeAll before) o).2 ≠ observeAll before) := by
  refine ⟨size_observeAll os, fun p f h => episode_of_entry h, fun p => entry_none_iff, fun before o after _ => ?_⟩
  refine ⟨fun kind h hkind => observe_inexplicit h hkind, fun hchanged => ?_, observe_notified⟩
  by_contra hsilent
  exact hchanged (observe_silent (Bool.eq_false_iff.2 hsilent))

/-! ### A peer that is refused and reset -/

/-- Peer 2 resets the connection, at the time 0. -/
def resetByPeer : Observation Nat := ⟨2, .error .connectionReset, 0⟩

/-- Peer 2 refuses a connection, at the time 5. -/
def refusedByPeer : Observation Nat := ⟨2, .error .connectionRefused, 5⟩

theorem peer_health_exact_reset :
    (observeAll [resetByPeer, refusedByPeer])[(2 : UInt64)]? = some ⟨0, 5, 2, .connectionRefused⟩ ∧
      ∃ before first after, [resetByPeer, refusedByPeer] = before ++ first :: after ∧
        Episode 2 before first after ⟨0, 5, 2, .connectionRefused⟩ := by
  have hentry : (observeAll [resetByPeer, refusedByPeer])[(2 : UInt64)]? = some ⟨0, 5, 2, .connectionRefused⟩ := by
    decide
  exact ⟨hentry, (peer_health_exact [resetByPeer, refusedByPeer]).2.1 2 _ hentry⟩

/-- The same failure again and again. -/
theorem entry_replicate (n : Nat) : ∃ attempts : UInt64, attempts.toNat = min (n + 1) u64Max.toNat ∧
    (observeAll (List.replicate (n + 1) resetByPeer))[(2 : UInt64)]? = some ⟨0, 0, attempts, .connectionReset⟩ := by
  induction n with
  | zero => exact ⟨1, rfl, by decide⟩
  | succ n ih =>
    obtain ⟨attempts, hattempts, hentry⟩ := ih
    rw [List.replicate_succ', observeAll_snoc]
    cases observe_cases (observeAll (List.replicate (n + 1) resetByPeer)) 2 resetByPeer with
    | ended h _ _ => cases h
    | refused _ _ h _ =>
      rw [h.1] at hentry
      cases hentry
    | started _ _ _ _ h _ _ =>
      rw [h] at hentry
      cases hentry
    | again kind f _ _ hkind h hafter =>
      rw [hentry] at h
      cases h
      cases hkind
      refine ⟨saturatingSucc attempts, ?_, hafter⟩
      rw [toNat_saturatingSucc_eq_min, hattempts]
      omega
    | other _ h _ => cases h

/-- Once the count is at its maximum, a failure of the same kind at the same time is notified and changes nothing. -/
theorem observe_saturated {n : Nat} (h : u64Max.toNat ≤ n) :
    (observe (observeAll (List.replicate n resetByPeer)) resetByPeer).1 = true ∧
      (observe (observeAll (List.replicate n resetByPeer)) resetByPeer).2 =
        observeAll (List.replicate n resetByPeer) := by
  have hpos : 0 < u64Max.toNat := Nat.zero_lt_succ _
  obtain ⟨k, rfl⟩ := Nat.exists_eq_add_of_lt (Nat.lt_of_lt_of_le hpos h)
  rw [Nat.zero_add] at h ⊢
  obtain ⟨attempts, hattempts, hentry⟩ := entry_replicate k
  have hmax : attempts = u64Max := by
    apply UInt64.toNat_inj.1
    rw [hattempts, Nat.min_eq_right h]
  generalize observeAll (List.replicate (k + 1) resetByPeer) = failures at hentry ⊢
  have haccepted : ¬Refused failures 2 := by
    rintro ⟨hnone, _⟩
    rw [hentry] at hnone
    cases hnone
  have hobserve : observe failures resetByPeer = record failures 2 (some .connectionReset) 0 := rfl
  have hsame : PeerTransportFailure.again ⟨0, 0, attempts, .connectionReset⟩ .connectionReset 0 =
      (⟨0, 0, attempts, .connectionReset⟩ : PeerTransportFailure Nat) := by
    rw [hmax]
    rfl
  rw [hobserve, record_accepted haccepted, hentry, Option.getD_some, hsame]
  exact ⟨rfl, OrdMap.insert_eq_self hentry⟩

theorem saturated_failure_notifies :
    (observe (observeAll (List.replicate u64Max.toNat resetByPeer)) resetByPeer).1 = true ∧
      (observe (observeAll (List.replicate u64Max.toNat resetByPeer)) resetByPeer).2 =
        observeAll (List.replicate u64Max.toNat resetByPeer) :=
  observe_saturated (Nat.le_refl u64Max.toNat)

end PeerHealth

end Ganglion
