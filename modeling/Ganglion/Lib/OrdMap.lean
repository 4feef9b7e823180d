import Mathlib.Data.List.Basic
import Mathlib.Order.Basic

/-!
# Ordered maps

An ordered map is `Std.ExtTreeMap`: equality is agreement of all lookups, and `toList` enumerates by increasing key.
Here is what the B-tree maps of a program need beyond it:

* `splitOff` cuts a map at a key (`kept` below the key, `cut` from the key on);
* `ofPairs` collects a sequence of pairs; it inverts the enumeration (`ofPairs_toList`), also when the keys are
  recomputed from the values (`collect_values`);
* `foldl_insert` is the rule for a loop that files one value a turn;
* `rekey` files the values under other keys, and `ofPairs_rekey` takes them back;
* `length_filter_values` counts values, and `filter_toList_eq` enumerates a range of keys.
-/

namespace OrdMap

open Std

variable {K V : Type} [Ord K]

/-- The entries below `k`. -/
def kept (m : ExtTreeMap K V) (k : K) : ExtTreeMap K V := m.filter fun a _ => compare a k == .lt

/-- The entries from `k` on. -/
def cut (m : ExtTreeMap K V) (k : K) : ExtTreeMap K V := m.filter fun a _ => compare a k != .lt

/-- `BTreeMap::split_off`: what stays in the map and what is returned. -/
def splitOff (m : ExtTreeMap K V) (k : K) : ExtTreeMap K V × ExtTreeMap K V := (kept m k, cut m k)

@[simp] theorem splitOff_fst (m : ExtTreeMap K V) (k : K) : (splitOff m k).1 = kept m k := rfl

@[simp] theorem splitOff_snd (m : ExtTreeMap K V) (k : K) : (splitOff m k).2 = cut m k := rfl

variable [TransOrd K]

/-- The values, by increasing key. -/
def values (m : ExtTreeMap K V) : List V := m.toList.map Prod.snd

/-- Collecting pairs into a map: later pairs win. -/
def ofPairs (ps : List (K × V)) : ExtTreeMap K V := ps.foldl (fun m p => m.insert p.1 p.2) ∅

/-- The map under other keys. -/
def rekey {K' : Type} [Ord K'] [TransOrd K'] (f : K → K') (m : ExtTreeMap K V) : ExtTreeMap K' V :=
  ofPairs (m.toList.map fun p => (f p.1, p.2))

variable [LawfulEqOrd K]

/-! ## Writes that change nothing -/

theorem insert_eq_self {m : ExtTreeMap K V} {k : K} {v : V} (h : m[k]? = some v) : m.insert k v = m := by
  apply ExtTreeMap.ext_getElem?
  intro a
  rw [ExtTreeMap.getElem?_insert]
  split
  · rename_i he
    rw [← LawfulEqCmp.eq_of_compare he, h]
  · rfl

theorem erase_eq_self {m : ExtTreeMap K V} {k : K} (h : m[k]? = none) : m.erase k = m := by
  apply ExtTreeMap.ext_getElem?
  intro a
  rw [ExtTreeMap.getElem?_erase]
  split
  · rename_i he
    rw [← LawfulEqCmp.eq_of_compare he, h]
  · rfl

theorem insert_eq_self_of_mem {m : ExtTreeSet K} {k : K} (h : k ∈ m) : m.insert k = m := by
  apply ExtTreeSet.ext_mem
  intro a
  rw [ExtTreeSet.mem_insert, LawfulEqCmp.compare_eq_iff_eq]
  exact ⟨fun ha => ha.elim (fun he => he ▸ h) id, .inr⟩

theorem erase_eq_self_of_notMem {m : ExtTreeSet K} {k : K} (h : k ∉ m) : m.erase k = m := by
  apply ExtTreeSet.ext_mem
  intro a
  rw [ExtTreeSet.mem_erase, ne_eq, LawfulEqCmp.compare_eq_iff_eq]
  exact ⟨And.right, fun ha => ⟨fun he => h (he ▸ ha), ha⟩⟩

/-! ## Writes to another key -/

theorem getElem?_insert_ne {m : ExtTreeMap K V} {k a : K} {v : V} (h : a ≠ k) : (m.insert k v)[a]? = m[a]? := by
  rw [ExtTreeMap.getElem?_insert, if_neg]
  intro he
  exact h (LawfulEqCmp.eq_of_compare he).symm

theorem getElem?_erase_ne {m : ExtTreeMap K V} {k a : K} (h : a ≠ k) : (m.erase k)[a]? = m[a]? := by
  rw [ExtTreeMap.getElem?_erase, if_neg]
  intro he
  exact h (LawfulEqCmp.eq_of_compare he).symm

theorem contains_insert_ne {m : ExtTreeSet K} {k a : K} (h : a ≠ k) : (m.insert k).contains a = m.contains a := by
  have hne : compare k a ≠ .eq := fun he => h (LawfulEqCmp.eq_of_compare he).symm
  simp [ExtTreeSet.contains_insert, hne]

theorem contains_erase_ne {m : ExtTreeSet K} {k a : K} (h : a ≠ k) : (m.erase k).contains a = m.contains a := by
  have hne : compare k a ≠ .eq := fun he => h (LawfulEqCmp.eq_of_compare he).symm
  simp [ExtTreeSet.contains_erase, hne]

/-! ## Cutting at a key -/

theorem getElem?_kept (m : ExtTreeMap K V) (k a : K) :
    (kept m k)[a]? = if compare a k = .lt then m[a]? else none := by
  unfold kept
  rw [ExtTreeMap.getElem?_filter']
  cases m[a]? <;> simp [Option.filter]

theorem getElem?_cut (m : ExtTreeMap K V) (k a : K) :
    (cut m k)[a]? = if compare a k = .lt then none else m[a]? := by
  unfold cut
  rw [ExtTreeMap.getElem?_filter']
  cases m[a]? <;> simp [Option.filter]

theorem cut_empty (k : K) : cut (∅ : ExtTreeMap K V) k = ∅ := by
  apply ExtTreeMap.ext_getElem?
  intro a
  rw [getElem?_cut]
  simp

/-! ## Collecting -/

/-- Collecting the enumeration of a map gives the map back. -/
theorem ofPairs_toList (m : ExtTreeMap K V) : ofPairs m.toList = m := by
  classical
  apply ExtTreeMap.ext_getElem?
  intro a
  unfold ofPairs
  rw [← ExtTreeMap.insertMany_list_eq_foldl]
  cases h : m[a]? with
  | none =>
    have hk : a ∉ m.toList.map Prod.fst := by
      rw [ExtTreeMap.map_fst_toList_eq_keys, ExtTreeMap.mem_keys]
      rw [ExtTreeMap.mem_iff_isSome_getElem?, h]
      simp
    rw [ExtTreeMap.getElem?_insertMany_list_of_contains_eq_false (by simpa using hk)]
    simp
  | some v =>
    exact ExtTreeMap.getElem?_insertMany_list_of_mem compare_self ExtTreeMap.distinct_keys_toList
      (ExtTreeMap.mem_toList_iff_getElem?_eq_some.2 h)

/-- A map whose keys are computed from its values is collected from its values. -/
theorem collect_values {m : ExtTreeMap K V} {key : V → K} (hkey : ∀ k v, m[k]? = some v → key v = k) :
    (values m).foldl (fun m v => m.insert (key v) v) ∅ = m := by
  have hpairs : (values m).map (fun v => (key v, v)) = m.toList := by
    rw [values, List.map_map]
    conv_rhs => rw [← List.map_id m.toList]
    apply List.map_congr_left
    rintro ⟨k, v⟩ hp
    simp [hkey k v (ExtTreeMap.mem_toList_iff_getElem?_eq_some.1 hp)]
  calc (values m).foldl (fun m v => m.insert (key v) v) ∅
      = ofPairs ((values m).map fun v => (key v, v)) := by simp [ofPairs, List.foldl_map]
    _ = m := by rw [hpairs, ofPairs_toList]

/-- What pairs with distinct keys are collected to. -/
theorem getElem?_ofPairs {ps : List (K × V)} (h : ps.Pairwise fun p q => p.1 ≠ q.1) {k : K} {v : V} :
    (ofPairs ps)[k]? = some v ↔ (k, v) ∈ ps := by
  classical
  have hdistinct : ps.Pairwise fun p q => ¬compare p.1 q.1 = .eq :=
    h.imp fun hne hc => hne (LawfulEqCmp.eq_of_compare hc)
  rw [ofPairs, ← ExtTreeMap.insertMany_list_eq_foldl]
  constructor
  · intro hk
    by_cases hmem : k ∈ ps.map Prod.fst
    · obtain ⟨⟨k', v'⟩, hp, rfl⟩ := List.mem_map.1 hmem
      rw [ExtTreeMap.getElem?_insertMany_list_of_mem compare_self hdistinct hp] at hk
      cases hk
      exact hp
    · rw [ExtTreeMap.getElem?_insertMany_list_of_contains_eq_false (by simpa using hmem)] at hk
      simp at hk
  · exact ExtTreeMap.getElem?_insertMany_list_of_mem compare_self hdistinct

/-- A loop whose every turn files one value with the property `P` fills a map with such values. -/
theorem foldl_insert {σ ι : Type} {step : σ → ι → σ} {map : σ → ExtTreeMap K V} {key : ι → K} {P : K → V → Prop}
    (hstep : ∀ s i, ∃ v, P (key i) v ∧ map (step s i) = (map s).insert (key i) v) (xs : List ι) {s : σ}
    (hs : ∀ k v, (map s)[k]? = some v → P k v) :
    (∀ k v, (map (xs.foldl step s))[k]? = some v → P k v) ∧
      ∀ k, k ∈ map (xs.foldl step s) ↔ k ∈ map s ∨ k ∈ xs.map key := by
  induction xs generalizing s with
  | nil => exact ⟨hs, by simp⟩
  | cons i xs ih =>
    obtain ⟨v, hv, heq⟩ := hstep s i
    have hs' : ∀ k w, (map (step s i))[k]? = some w → P k w := by
      intro k w hk
      by_cases hki : k = key i
      · rw [heq, hki, ExtTreeMap.getElem?_insert_self] at hk
        cases hk
        rw [hki]
        exact hv
      · rw [heq, getElem?_insert_ne hki] at hk
        exact hs k w hk
    obtain ⟨hvalues, hkeys⟩ := ih hs'
    refine ⟨hvalues, fun k => ?_⟩
    rw [List.foldl_cons, hkeys, heq, ExtTreeMap.mem_insert, Std.compare_eq_iff_eq, List.map_cons, List.mem_cons,
      eq_comm]
    tauto

theorem mem_ofPairs {ps : List (K × V)} {k : K} : k ∈ ofPairs ps ↔ k ∈ ps.map Prod.fst := by
  have hkeys := (@foldl_insert K V _ _ _ _ _ (fun m p => m.insert p.1 p.2) id Prod.fst (fun _ _ => True)
    (fun m p => ⟨p.2, trivial, rfl⟩) ps ∅ fun _ _ _ => trivial).2 k
  simpa [ofPairs] using hkeys

section

variable {K' : Type} [Ord K'] [TransOrd K'] [LawfulEqOrd K'] {f : K → K'} {g : K' → K}

/-- What the map under other keys holds, when the other keys determine the keys. -/
theorem getElem?_rekey (m : ExtTreeMap K V) (hf : Function.Injective f) {k' : K'} {v : V} :
    (rekey f m)[k']? = some v ↔ ∃ k, f k = k' ∧ m[k]? = some v := by
  have hdistinct : (m.toList.map fun p => (f p.1, p.2)).Pairwise fun p q => p.1 ≠ q.1 := by
    rw [List.pairwise_map]
    refine ExtTreeMap.distinct_keys_toList.imp fun {p q} hne heq => hne ?_
    rw [hf heq]
    exact compare_self
  rw [rekey, getElem?_ofPairs hdistinct, List.mem_map]
  constructor
  · rintro ⟨⟨k, v⟩, hp, heq⟩
    cases heq
    exact ⟨k, rfl, ExtTreeMap.mem_toList_iff_getElem?_eq_some.1 hp⟩
  · rintro ⟨k, rfl, hk⟩
    exact ⟨(k, v), ExtTreeMap.mem_toList_iff_getElem?_eq_some.2 hk, rfl⟩

/-- Taking the other keys back gives the map. -/
theorem ofPairs_rekey (m : ExtTreeMap K V) (hfg : Function.LeftInverse g f) :
    ofPairs ((rekey f m).toList.map fun p => (g p.1, p.2)) = m := by
  have hmem : ∀ p ∈ (rekey f m).toList, ∃ k, f k = p.1 ∧ m[k]? = some p.2 := by
    intro p hp
    exact (getElem?_rekey m hfg.injective).1 (ExtTreeMap.mem_toList_iff_getElem?_eq_some.1 hp)
  have hdistinct : ((rekey f m).toList.map fun p => (g p.1, p.2)).Pairwise fun p q => p.1 ≠ q.1 := by
    rw [List.pairwise_map]
    refine ExtTreeMap.distinct_keys_toList.imp_of_mem fun {p q} hp hq hne heq => hne ?_
    obtain ⟨k, hk, _⟩ := hmem p hp
    obtain ⟨l, hl, _⟩ := hmem q hq
    replace heq : g p.1 = g q.1 := heq
    rw [← hk, ← hl, hfg, hfg] at heq
    rw [← hk, ← hl, heq]
    exact compare_self
  apply ExtTreeMap.ext_getElem?
  intro k
  apply Option.ext
  intro v
  rw [getElem?_ofPairs hdistinct, List.mem_map]
  constructor
  · rintro ⟨⟨k', v'⟩, hp, heq⟩
    obtain ⟨k₀, rfl, hk₀⟩ := hmem _ hp
    cases heq
    rw [hfg]
    exact hk₀
  · intro hk
    refine ⟨(f k, v), ExtTreeMap.mem_toList_iff_getElem?_eq_some.2 ?_, by rw [hfg]⟩
    exact (getElem?_rekey m hfg.injective).2 ⟨k, rfl, hk⟩

end

/-! ## Counting -/

/-- The values with a property are counted over any list without repetitions that has all the keys. -/
theorem length_filter_values {m : ExtTreeMap K V} {ks : List K} (hks : ks.Nodup) (hkeys : ∀ k, k ∈ m → k ∈ ks)
    (test : V → Bool) : ((values m).filter test).length = ks.countP fun k => m[k]?.any test := by
  have hfst : (m.toList.filter fun p => test p.2).map Prod.fst = m.keys.filter fun k => m[k]?.any test := by
    rw [← ExtTreeMap.map_fst_toList_eq_keys, List.filter_map]
    congr 1
    refine List.filter_congr fun p hp => ?_
    rw [Function.comp_apply, ExtTreeMap.mem_toList_iff_getElem?_eq_some.1 hp, Option.any_some]
  have hperm : (m.keys.filter fun k => m[k]?.any test).Perm (ks.filter fun k => m[k]?.any test) := by
    refine (List.perm_ext_iff_of_nodup (ExtTreeMap.nodup_keys.filter _) (hks.filter _)).2 fun k => ?_
    rw [List.mem_filter, List.mem_filter, ExtTreeMap.mem_keys]
    refine ⟨fun h => ⟨hkeys k h.1, h.2⟩, fun h => ⟨?_, h.2⟩⟩
    cases hk : m[k]? with
    | none => simp [hk] at h
    | some v => simp [ExtTreeMap.mem_iff_isSome_getElem?, hk]
  calc ((values m).filter test).length
      = ((m.toList.filter fun p => test p.2).map Prod.fst).length := by
        rw [values, List.filter_map, List.length_map, List.length_map]
        rfl
    _ = ks.countP fun k => m[k]?.any test := by rw [hfst, hperm.length_eq, List.countP_eq_length_filter]

/-! ## Ranges -/

/-- Entries listed by increasing key are determined by what they hold. -/
theorem eq_of_mem_iff {ps qs : List (K × V)} (hp : ps.Pairwise fun a b => compare a.1 b.1 = .lt)
    (hq : qs.Pairwise fun a b => compare a.1 b.1 = .lt) (h : ∀ p, p ∈ ps ↔ p ∈ qs) : ps = qs := by
  have hirr : ∀ a b : K × V, compare a.1 b.1 = .lt → a ≠ b := by
    rintro a b hlt rfl
    simp at hlt
  have hperm : ps.Perm qs := (List.perm_ext_iff_of_nodup (hp.imp (hirr _ _)) (hq.imp (hirr _ _))).2 h
  refine hperm.eq_of_pairwise (fun a b _ _ hab hba => ?_) hp hq
  rw [@OrientedCmp.eq_swap _ compare, hba] at hab
  cases hab

/-- A range of a map: the entries that a test on the keys selects, by increasing key. -/
theorem filter_toList_eq (m : ExtTreeMap K V) (test : K → Bool) (ps : List (K × V))
    (hp : ps.Pairwise fun a b => compare a.1 b.1 = .lt)
    (h : ∀ k v, (k, v) ∈ ps ↔ m[k]? = some v ∧ test k = true) : (m.toList.filter fun p => test p.1) = ps := by
  refine eq_of_mem_iff (ExtTreeMap.ordered_keys_toList.filter _) hp fun p => ?_
  obtain ⟨k, v⟩ := p
  rw [List.mem_filter, ExtTreeMap.mem_toList_iff_getElem?_eq_some, h]

end OrdMap
