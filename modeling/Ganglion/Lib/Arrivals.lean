import Mathlib.Data.List.Basic
import Mathlib.Data.List.Nodup
import Mathlib.Order.Basic

/-!
# Distinct elements in order of arrival

A program that wants each element once, in the order in which it first saw them, keeps a tree set beside a list. The
structure `Arrivals` is that pair, with the invariant as fields.

* `offer` takes one element, if a test accepts it and it is new; `offerAll` goes through a list, and
  `items_offerAll_eq` says in which order the elements then stand.
* `offerUpTo` stops once there are enough elements, and `take_offerUpTo` says that stopping loses nothing that a
  truncation would have left.
-/

open Std

/-- The elements seen so far, as a set and in order of arrival. -/
structure Arrivals (K : Type) [Ord K] [TransOrd K] where
  unique : ExtTreeSet K
  items : List K
  mem_unique : ∀ x, x ∈ unique ↔ x ∈ items
  nodup : items.Nodup

namespace Arrivals

theorem eraseDups_of_nodup {α : Type} [BEq α] [LawfulBEq α] {xs : List α} (h : xs.Nodup) : xs.eraseDups = xs := by
  induction xs with
  | nil => rfl
  | cons x xs ih =>
    obtain ⟨hx, hxs⟩ := List.nodup_cons.1 h
    have hkeep : (xs.filter fun y => !y == x) = xs := by
      refine List.filter_eq_self.2 fun y hy => ?_
      rw [Bool.not_eq_true', beq_eq_false_iff_ne]
      rintro rfl
      exact hx hy
    rw [List.eraseDups_cons, hkeep, ih hxs]

variable {K : Type} [Ord K] [TransOrd K]

/-- Nothing has arrived. -/
def empty : Arrivals K where
  unique := ∅
  items := []
  mem_unique := by simp
  nodup := List.nodup_nil

@[simp] theorem items_empty : (empty : Arrivals K).items = [] := rfl

variable [LawfulEqOrd K]

/-- An element that is accepted and new goes to the end. -/
def offer (accept : K → Bool) (s : Arrivals K) (x : K) : Arrivals K :=
  if h : accept x = true ∧ x ∉ s.unique then
    { unique := s.unique.insert x
      items := s.items ++ [x]
      mem_unique := by
        intro y
        rw [ExtTreeSet.mem_insert, s.mem_unique, List.mem_append, List.mem_singleton, Std.compare_eq_iff_eq, or_comm,
          eq_comm]
      nodup := by
        rw [List.nodup_append]
        refine ⟨s.nodup, List.nodup_singleton x, ?_⟩
        rintro y hy z hz rfl
        rw [List.mem_singleton.1 hz] at hy
        exact h.2 ((s.mem_unique x).2 hy) }
  else s

/-- The elements of a list arrive one after the other. -/
def offerAll (accept : K → Bool) (s : Arrivals K) (xs : List K) : Arrivals K := xs.foldl (offer accept) s

/-- The elements of a list arrive until there are `t` elements. -/
def offerUpTo (t : Nat) (accept : K → Bool) (s : Arrivals K) : List K → Arrivals K
  | [] => s
  | x :: xs => if s.items.length < t then offerUpTo t accept (offer accept s x) xs else s

variable {accept : K → Bool} {s : Arrivals K}

theorem items_offer_of_new {x : K} (h : accept x = true ∧ x ∉ s.items) :
    (offer accept s x).items = s.items ++ [x] := by
  rw [offer, dif_pos ⟨h.1, fun hx => h.2 ((s.mem_unique x).1 hx)⟩]

theorem offer_of_not_new {x : K} (h : ¬(accept x = true ∧ x ∉ s.items)) : offer accept s x = s := by
  rw [offer, dif_neg]
  rintro ⟨ha, hx⟩
  exact h ⟨ha, fun hmem => hx ((s.mem_unique x).2 hmem)⟩

/-! ## Going through a list -/

/-- What is added, in order: the accepted new elements, each where it comes first. -/
theorem items_offerAll_eq [BEq K] [LawfulBEq K] (xs : List K) : (offerAll accept s xs).items =
    s.items ++ (xs.filter fun x => accept x && !s.items.contains x).eraseDups := by
  induction xs generalizing s with
  | nil => simp [offerAll]
  | cons x xs ih =>
    show (offerAll accept (offer accept s x) xs).items = _
    by_cases hx : accept x = true ∧ x ∉ s.items
    · have hitems := items_offer_of_new hx
      have hrest : (xs.filter fun y => accept y && !(s.items ++ [x]).contains y) =
          (xs.filter fun y => accept y && !s.items.contains y).filter fun y => !y == x := by
        rw [List.filter_filter]
        refine List.filter_congr fun y _ => ?_
        cases accept y <;> cases hy : s.items.contains y <;> cases hyx : y == x <;>
          simp_all [List.contains_eq_mem]
      rw [ih, hitems, hrest, List.filter_cons_of_pos (by simpa using hx), List.eraseDups_cons, List.append_assoc,
        List.singleton_append]
    · rw [offer_of_not_new hx, ih, List.filter_cons_of_neg (by simpa using hx)]

/-- What was there stays in front; what is added is what was accepted and new. -/
theorem items_offerAll (xs : List K) : ∃ added, (offerAll accept s xs).items = s.items ++ added ∧
    ∀ x, x ∈ added ↔ x ∈ xs ∧ accept x = true ∧ x ∉ s.items := by
  classical
  refine ⟨_, items_offerAll_eq xs, fun x => ?_⟩
  rw [List.mem_eraseDups, List.mem_filter, Bool.and_eq_true, Bool.not_eq_true', List.contains_eq_mem,
    decide_eq_false_iff_not]

theorem mem_offerAll {xs : List K} {x : K} :
    x ∈ (offerAll accept s xs).items ↔ x ∈ s.items ∨ x ∈ xs ∧ accept x = true := by
  obtain ⟨added, heq, hadded⟩ := @items_offerAll K _ _ _ accept s xs
  rw [heq, List.mem_append, hadded]
  tauto

/-- A list without repetitions arrives as its accepted new part. -/
theorem items_offerAll_of_nodup [BEq K] [LawfulBEq K] {xs : List K} (hxs : xs.Nodup) : (offerAll accept s xs).items =
    s.items ++ xs.filter fun x => accept x && !s.items.contains x := by
  rw [items_offerAll_eq, eraseDups_of_nodup (hxs.sublist List.filter_sublist)]

/-- A list of which everything acceptable has arrived adds nothing. -/
theorem offerAll_of_arrived {xs : List K} (h : ∀ x ∈ xs, accept x = true → x ∈ s.items) :
    offerAll accept s xs = s := by
  induction xs with
  | nil => rfl
  | cons x xs ih =>
    show offerAll accept (offer accept s x) xs = s
    rw [offer_of_not_new fun hx => hx.2 (h x (.head xs) hx.1)]
    exact ih fun y hy => h y (.tail x hy)

/-! ## Stopping early -/

/-- Up to the wanted number of elements, stopping early makes no difference. -/
theorem take_offerUpTo (t : Nat) (xs : List K) :
    (offerUpTo t accept s xs).items.take t = (offerAll accept s xs).items.take t := by
  induction xs generalizing s with
  | nil => rfl
  | cons x xs ih =>
    rw [offerUpTo]
    split
    · exact ih
    · rename_i hfull
      obtain ⟨added, heq, _⟩ := @items_offerAll K _ _ _ accept s (x :: xs)
      rw [heq, List.take_append_of_le_length (by omega)]

end Arrivals
