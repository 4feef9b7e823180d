import Mathlib.Data.List.Basic
import Mathlib.Data.List.Count
import Mathlib.Logic.Function.Basic

/-!
# Counted cells that are copied on write

Cells with their strong counts, and the handles that hold them, one row for each owner; a row is empty when its owner has
let go. A handle is cloned without copying the cell, and written through `makeMut`, which writes in place when no other
handle has the cell and moves to a copy of its own otherwise.

* `Exact`: a count is the number of handles that have the cell, and every handle has a cell. All operations keep it.
* `view` is what the owners read. Each operation acts on it as on a list of plain values (`view_share`, `view_fresh`,
  `view_release`, `view_makeMut`, `view_assign`, `view_move`), so no owner sees what another one writes; `Stands` has
  both.
-/

/-- Cells, their counts, the first free cell, and who holds what. -/
structure Arcs (α : Type) where
  value : Nat → α
  count : Nat → Nat
  next : Nat
  handles : List (Option Nat)

namespace Arcs

variable {α : Type}

/-- No cell is held. -/
def empty (x : α) : Arcs α := ⟨fun _ => x, fun _ => 0, 0, []⟩

/-- The cell that an owner has. -/
def handle (c : Arcs α) (i : Nat) : Option Nat := c.handles[i]?.join

/-- What an owner reads. -/
def deref (c : Arcs α) (i : Nat) : Option α := (c.handle i).map c.value

/-- `Arc::new`, for a new owner. -/
def fresh (c : Arcs α) (x : α) : Arcs α where
  value := Function.update c.value c.next x
  count := Function.update c.count c.next 1
  next := c.next + 1
  handles := c.handles ++ [some c.next]

/-- `Arc::clone`, for a new owner. -/
def share (c : Arcs α) (i : Nat) : Arcs α :=
  match c.handle i with
  | none => { c with handles := c.handles ++ [none] }
  | some a =>
    { c with count := Function.update c.count a (c.count a + 1), handles := c.handles ++ [some a] }

/-- An owner drops its handle. -/
def release (c : Arcs α) (i : Nat) : Arcs α :=
  match c.handle i with
  | none => c
  | some a => { c with count := Function.update c.count a (c.count a - 1), handles := c.handles.set i none }

/-- `Arc::make_mut`, and a write through it. -/
def makeMut (c : Arcs α) (i : Nat) (f : α → α) : Arcs α :=
  match c.handle i with
  | none => c
  | some a =>
    if c.count a = 1 then { c with value := Function.update c.value a (f (c.value a)) }
    else
      { value := Function.update c.value c.next (f (c.value a))
        count := Function.update (Function.update c.count a (c.count a - 1)) c.next 1
        next := c.next + 1
        handles := c.handles.set i (some c.next) }

/-- A clone goes to an owner, which drops what it had. -/
def assign (c : Arcs α) (i j : Nat) : Arcs α :=
  let c' := c.release j
  match c'.handle i with
  | none => c'
  | some a => { c' with count := Function.update c'.count a (c'.count a + 1), handles := c'.handles.set j (some a) }

/-- An owner hands its handle to another, which drops the one it had. -/
def move (c : Arcs α) (i j : Nat) : Arcs α :=
  let c' := c.release j
  { c' with handles := (c'.handles.set j (c'.handle i)).set i none }

/-- What all owners read. -/
def view (c : Arcs α) : List (Option α) := c.handles.map (Option.map c.value)

/-- The counts are right, and no handle has a cell that is not there. -/
structure Exact (c : Arcs α) : Prop where
  count_eq : ∀ a, c.count a = c.handles.count (some a)
  lt_next : ∀ a, some a ∈ c.handles → a < c.next

variable {c : Arcs α} {i j a : Nat} {f : α → α}

theorem exact_empty (x : α) : (empty x).Exact where
  count_eq _ := rfl
  lt_next _ h := by cases h

theorem handle_eq_some : c.handle i = some a ↔ c.handles[i]? = some (some a) := by
  rw [handle, Option.join_eq_some_iff]

theorem mem_of_handle (h : c.handle i = some a) : some a ∈ c.handles := List.mem_of_getElem? (handle_eq_some.1 h)

theorem lt_of_handle (h : c.handle i = some a) : i < c.handles.length :=
  (List.getElem?_eq_some_iff.1 (handle_eq_some.1 h)).1

theorem getElem?_view : c.view[i]? = c.handles[i]?.map (Option.map c.value) := List.getElem?_map

theorem deref_eq_view : c.deref i = c.view[i]?.join := by
  rw [getElem?_view, deref, handle]
  cases c.handles[i]? <;> rfl

/-- Counting after one row has changed. -/
theorem count_set {rows : List (Option Nat)} {r x : Option Nat} (h : rows[i]? = some r) (y : Option Nat) :
    (rows.set i x).count y + (if r = y then 1 else 0) = rows.count y + (if x = y then 1 else 0) := by
  obtain ⟨hi, rfl⟩ := List.getElem?_eq_some_iff.1 h
  have hpos : rows[i] = y → 0 < rows.count y := fun e => List.count_pos_iff.2 (e ▸ List.getElem_mem hi)
  rw [List.count_set hi]
  by_cases hr : rows[i] = y
  · have := hpos hr
    simp only [hr, beq_self_eq_true, if_true, beq_iff_eq]
    omega
  · simp only [hr, beq_iff_eq, if_false]
    omega

/-! ## New owners -/

theorem Exact.next_notMem (h : c.Exact) : some c.next ∉ c.handles :=
  fun hmem => Nat.lt_irrefl _ (h.lt_next _ hmem)

theorem Exact.fresh (h : c.Exact) (x : α) : (c.fresh x).Exact where
  count_eq a := by
    simp only [Arcs.fresh, List.count_append, Function.update_apply]
    by_cases ha : a = c.next
    · subst ha
      simp [List.count_eq_zero.2 h.next_notMem]
    · have hne : ¬c.next = a := fun e => ha e.symm
      simp [ha, hne, h.count_eq a]
  lt_next a hmem := by
    rcases List.mem_append.1 hmem with hmem | hmem
    · exact Nat.lt_succ_of_lt (h.lt_next a hmem)
    · cases List.mem_singleton.1 hmem
      exact Nat.lt_succ_self _

theorem view_fresh (h : c.Exact) (x : α) : (c.fresh x).view = c.view ++ [some x] := by
  simp only [view, fresh, List.map_append, List.map_cons, List.map_nil, Option.map_some, Function.update_self]
  congr 1
  refine List.map_congr_left fun r hr => ?_
  cases r with
  | none => rfl
  | some a => rw [Option.map_some, Function.update_of_ne (Nat.ne_of_lt (h.lt_next a hr)), Option.map_some]

theorem Exact.share (h : c.Exact) : (c.share i).Exact := by
  unfold Arcs.share
  cases hi : c.handle i with
  | none =>
    refine ⟨fun a => ?_, fun a hmem => ?_⟩
    · simp [h.count_eq a]
    · rcases List.mem_append.1 hmem with hmem | hmem
      · exact h.lt_next a hmem
      · cases List.mem_singleton.1 hmem
  | some b =>
    refine ⟨fun a => ?_, fun a hmem => ?_⟩
    · simp only [List.count_append, Function.update_apply]
      by_cases ha : a = b
      · subst ha
        simp [h.count_eq a]
      · have hne : ¬b = a := fun e => ha e.symm
        simp [ha, hne, h.count_eq a]
    · rcases List.mem_append.1 hmem with hmem | hmem
      · exact h.lt_next a hmem
      · cases List.mem_singleton.1 hmem
        exact h.lt_next _ (mem_of_handle hi)

theorem view_share : (c.share i).view = c.view ++ [c.view[i]?.join] := by
  rw [← deref_eq_view, deref]
  unfold share
  cases c.handle i with
  | none => simp [view]
  | some b => simp [view]

/-! ## One owner -/

theorem Exact.release (h : c.Exact) : (c.release i).Exact := by
  unfold Arcs.release
  cases hi : c.handle i with
  | none => exact h
  | some b =>
    have hrow := handle_eq_some.1 hi
    refine ⟨fun a => ?_, fun a hmem => ?_⟩
    · have hset := count_set (x := none) hrow (some a)
      have hpos : 0 < c.handles.count (some b) := List.count_pos_iff.2 (mem_of_handle hi)
      simp only [Function.update_apply, Option.some.injEq, reduceCtorEq, if_false] at hset ⊢
      by_cases ha : a = b
      · subst ha
        simp only [if_true] at hset ⊢
        rw [h.count_eq a]
        omega
      · have hne : ¬b = a := fun e => ha e.symm
        simp only [ha, hne, if_false] at hset ⊢
        rw [h.count_eq a]
        omega
    · rcases List.mem_or_eq_of_mem_set hmem with hmem | he
      · exact h.lt_next a hmem
      · cases he

theorem view_release : (c.release i).view = c.view.set i none := by
  unfold release
  cases hi : c.handle i with
  | none =>
    refine (List.ext_getElem? fun k => ?_).symm
    rw [List.getElem?_set]
    split
    · next hk =>
      subst hk
      have hd : c.view[i]?.join = none := by rw [← deref_eq_view, deref, hi, Option.map_none]
      split
      · next hlt =>
        rw [List.getElem?_eq_getElem hlt] at hd ⊢
        rw [show c.view[i] = none from hd]
      · next hlt => rw [List.getElem?_eq_none (Nat.le_of_not_lt hlt)]
    · rfl
  | some b => simp [view, List.map_set]

/-- The owner has the cell alone, and nobody else reads it. -/
theorem Exact.alone (h : c.Exact) (hi : c.handle i = some a) (hone : c.count a = 1) {k : Nat} (hk : k ≠ i) :
    c.handle k ≠ some a := by
  intro hother
  have hrow := handle_eq_some.1 hi
  have hset := count_set (x := none) hrow (some a)
  have hmem : some a ∈ c.handles.set i none := by
    refine List.mem_of_getElem? (i := k) ?_
    rw [List.getElem?_set_ne hk.symm]
    exact handle_eq_some.1 hother
  have hpos := List.count_pos_iff.2 hmem
  have hcount := h.count_eq a
  simp only [reduceCtorEq, if_false, if_true] at hset
  omega

theorem Exact.makeMut (h : c.Exact) : (c.makeMut i f).Exact := by
  unfold Arcs.makeMut
  cases hi : c.handle i with
  | none => exact h
  | some b =>
    dsimp only
    split
    · exact ⟨h.count_eq, h.lt_next⟩
    · have hrow := handle_eq_some.1 hi
      have hlt := h.lt_next b (mem_of_handle hi)
      have hpos : 0 < c.handles.count (some b) := List.count_pos_iff.2 (mem_of_handle hi)
      refine ⟨fun a => ?_, fun a hmem => ?_⟩
      · have hset := count_set (x := some c.next) hrow (some a)
        simp only [Function.update_apply, Option.some.injEq] at hset ⊢
        by_cases hnext : a = c.next
        · subst hnext
          have hzero := List.count_eq_zero.2 h.next_notMem
          have hne : ¬b = c.next := Nat.ne_of_lt hlt
          simp only [if_true, hne, if_false] at hset ⊢
          omega
        · have hne' : ¬c.next = a := fun e => hnext e.symm
          simp only [hnext, hne', if_false] at hset ⊢
          by_cases ha : a = b
          · subst ha
            simp only [if_true] at hset ⊢
            rw [h.count_eq a]
            omega
          · have hne : ¬b = a := fun e => ha e.symm
            simp only [ha, hne, if_false] at hset ⊢
            rw [h.count_eq a]
            omega
      · rcases List.mem_or_eq_of_mem_set hmem with hmem | he
        · exact Nat.lt_succ_of_lt (h.lt_next a hmem)
        · cases he
          exact Nat.lt_succ_self _

/-- **Copy on write.** A write changes what its owner reads, and nothing else. -/
theorem view_makeMut (h : c.Exact) : (c.makeMut i f).view = c.view.modify i (Option.map f) := by
  refine List.ext_getElem? fun k => ?_
  rw [List.getElem?_modify, getElem?_view, getElem?_view]
  unfold makeMut
  cases hi : c.handle i with
  | none =>
    dsimp only
    split
    · next hk =>
      subst hk
      rw [handle] at hi
      cases hrow : c.handles[i]? with
      | none => rfl
      | some r => cases r with
        | none => rfl
        | some a => rw [hrow] at hi; cases hi
    · simp
  | some b =>
    have hrow := handle_eq_some.1 hi
    dsimp only
    split
    · next hone =>
      by_cases hk : i = k
      · subst hk
        simp [hrow]
      · cases hother : c.handles[k]? with
        | none => rfl
        | some r => cases r with
          | none => simp [hk]
          | some a =>
            have hne : a ≠ b := by
              rintro rfl
              exact h.alone hi hone (fun e => hk e.symm) (handle_eq_some.2 hother)
            simp [hk, hne]
    · by_cases hk : i = k
      · subst hk
        have hlt := lt_of_handle hi
        rw [List.getElem?_set_self hlt, hrow]
        simp
      · rw [List.getElem?_set_ne hk]
        cases hother : c.handles[k]? with
        | none => rfl
        | some r => cases r with
          | none => simp [hk]
          | some a =>
            have hne : a ≠ c.next := Nat.ne_of_lt (h.lt_next a (List.mem_of_getElem? hother))
            simp [hk, hne]

/-! ## Handing over -/

theorem handle_release_self : (c.release i).handle i = none := by
  unfold release
  cases hi : c.handle i with
  | none => exact hi
  | some b => rw [handle, List.getElem?_set_self (lt_of_handle hi), Option.join_some]

theorem length_release : (c.release i).handles.length = c.handles.length := by
  unfold release
  cases c.handle i with
  | none => rfl
  | some b => exact List.length_set

/-- The row of a handle that was dropped. -/
theorem getElem?_release_self (hi : i < c.handles.length) : (c.release i).handles[i]? = some none := by
  have hself := @handle_release_self _ c i
  rw [← @length_release _ c i] at hi
  rw [handle, List.getElem?_eq_getElem hi, Option.join_some] at hself
  rw [List.getElem?_eq_getElem hi, hself]

theorem Exact.assign (h : c.Exact) (hj : j < c.handles.length) : (c.assign i j).Exact := by
  have hrel := @Exact.release _ _ j h
  have hrow := getElem?_release_self hj
  unfold Arcs.assign
  generalize c.release j = c' at *
  dsimp only
  cases hi : c'.handle i with
  | none => exact hrel
  | some b =>
    refine ⟨fun a => ?_, fun a hmem => ?_⟩
    · have hset := count_set (x := some b) hrow (some a)
      have hcount := hrel.count_eq a
      simp only [Function.update_apply, Option.some.injEq, reduceCtorEq, if_false] at hset ⊢
      by_cases ha : a = b
      · subst ha
        simp only [if_true] at hset ⊢
        omega
      · have hne : ¬b = a := fun e => ha e.symm
        simp only [ha, hne, if_false] at hset ⊢
        omega
    · rcases List.mem_or_eq_of_mem_set hmem with hmem | he
      · exact hrel.lt_next a hmem
      · exact hrel.lt_next a (he ▸ mem_of_handle hi)

theorem view_assign (hij : i ≠ j) : (c.assign i j).view = c.view.set j c.view[i]?.join := by
  have hview : (c.release j).view = c.view.set j none := view_release
  have hread : (c.release j).deref i = c.view[i]?.join := by
    rw [deref_eq_view, hview, List.getElem?_set_ne hij.symm]
  rw [← hread, deref]
  unfold assign
  dsimp only
  cases (c.release j).handle i with
  | none => rw [hview, Option.map_none]
  | some a =>
    have hset : (c.release j).view.set j (some ((c.release j).value a)) =
        c.view.set j (some ((c.release j).value a)) := by rw [hview, List.set_set]
    rw [Option.map_some, ← hset, view, view, List.map_set, Option.map_some]

theorem Exact.move (h : c.Exact) (hij : i ≠ j) (hi : i < c.handles.length) (hj : j < c.handles.length) :
    (c.move i j).Exact := by
  have hrel := @Exact.release _ _ j h
  have hrow := getElem?_release_self hj
  rw [← @length_release _ c j] at hi
  unfold Arcs.move
  generalize c.release j = c' at *
  have hfrom : c'.handles[i]? = some (c'.handle i) := by
    rw [handle, List.getElem?_eq_getElem hi, Option.join_some]
  have hfrom' : (c'.handles.set j (c'.handle i))[i]? = some (c'.handle i) := by
    rw [List.getElem?_set_ne hij.symm, hfrom]
  refine ⟨fun a => ?_, fun a hmem => ?_⟩
  · -- one row gets the handle, the other loses it
    have hset := count_set (x := c'.handle i) hrow (some a)
    have hset' := count_set (x := none) hfrom' (some a)
    have hcount := hrel.count_eq a
    simp only [reduceCtorEq, if_false] at hset hset'
    dsimp only
    omega
  · rcases List.mem_or_eq_of_mem_set hmem with hmem | he
    · rcases List.mem_or_eq_of_mem_set hmem with hmem | he
      · exact hrel.lt_next a hmem
      · exact hrel.lt_next a (he ▸ List.mem_of_getElem? hfrom)
    · cases he

theorem view_move (hij : i ≠ j) : (c.move i j).view = (c.view.set j c.view[i]?.join).set i none := by
  have hview : (c.release j).view = c.view.set j none := view_release
  have hread : ((c.release j).handle i).map (c.release j).value = c.view[i]?.join := by
    rw [← deref, deref_eq_view, hview, List.getElem?_set_ne hij.symm]
  calc (c.move i j).view
      = ((c.release j).view.set j (((c.release j).handle i).map (c.release j).value)).set i none := by
        simp only [view, move, List.map_set, Option.map_none]
    _ = (c.view.set j c.view[i]?.join).set i none := by rw [hread, hview, List.set_set]

/-! ## Plain values -/

/-- The cells stand for the values, one for each owner. -/
structure Stands (c : Arcs α) (xs : List (Option α)) : Prop where
  exact : c.Exact
  view_eq : c.view = xs

namespace Stands

variable {xs : List (Option α)}

theorem length (h : c.Stands xs) : c.handles.length = xs.length := by rw [← h.view_eq, view, List.length_map]

theorem deref (h : c.Stands xs) (i : Nat) : c.deref i = xs[i]?.join := by rw [deref_eq_view, h.view_eq]

theorem fresh (h : c.Stands xs) (x : α) : (c.fresh x).Stands (xs ++ [some x]) :=
  ⟨h.exact.fresh x, by rw [view_fresh h.exact, h.view_eq]⟩

theorem share (h : c.Stands xs) : (c.share i).Stands (xs ++ [xs[i]?.join]) :=
  ⟨h.exact.share, by rw [view_share, h.view_eq]⟩

theorem release (h : c.Stands xs) : (c.release i).Stands (xs.set i none) :=
  ⟨h.exact.release, by rw [view_release, h.view_eq]⟩

theorem makeMut (h : c.Stands xs) : (c.makeMut i f).Stands (xs.modify i (Option.map f)) :=
  ⟨h.exact.makeMut, by rw [view_makeMut h.exact, h.view_eq]⟩

theorem assign (h : c.Stands xs) (hij : i ≠ j) (hj : j < xs.length) : (c.assign i j).Stands (xs.set j xs[i]?.join) :=
  ⟨h.exact.assign (by rw [h.length]; exact hj), by rw [view_assign hij, h.view_eq]⟩

theorem move (h : c.Stands xs) (hij : i ≠ j) (hi : i < xs.length) (hj : j < xs.length) :
    (c.move i j).Stands ((xs.set j xs[i]?.join).set i none) :=
  ⟨h.exact.move hij (by rw [h.length]; exact hi) (by rw [h.length]; exact hj), by rw [view_move hij, h.view_eq]⟩

end Stands

/-! ## What is allocated -/

/-- After a write the owner has its cell alone. -/
theorem count_makeMut (hi : (c.makeMut i f).handle i = some a) : (c.makeMut i f).count a = 1 := by
  unfold makeMut at hi ⊢
  cases hrow : c.handle i with
  | none =>
    rw [hrow] at hi
    dsimp only at hi
    rw [hrow] at hi
    cases hi
  | some b =>
    rw [hrow] at hi
    dsimp only at hi ⊢
    split at hi
    · next hone =>
      rw [if_pos hone]
      change c.handle i = some a at hi
      rw [hrow] at hi
      cases hi
      exact hone
    · next hone =>
      rw [handle, List.getElem?_set_self (lt_of_handle hrow)] at hi
      cases hi
      rw [if_neg hone]
      exact Function.update_self _ _ _

theorem next_makeMut_le : (c.makeMut i f).next ≤ c.next + 1 := by
  unfold makeMut
  cases c.handle i with
  | none => exact Nat.le_succ _
  | some a =>
    dsimp only
    split
    · exact Nat.le_succ _
    · exact Nat.le_refl _

/-- An owner that has its cell alone writes in place. -/
theorem next_makeMut (h : ∀ a, c.handle i = some a → c.count a = 1) : (c.makeMut i f).next = c.next := by
  unfold makeMut
  cases hi : c.handle i with
  | none => rfl
  | some a =>
    dsimp only
    rw [if_pos (h a hi)]

theorem next_share : (c.share i).next = c.next := by
  unfold share
  cases c.handle i <;> rfl

theorem next_release : (c.release i).next = c.next := by
  unfold release
  cases c.handle i <;> rfl

theorem next_move : (c.move i j).next = c.next := next_release

theorem next_assign : (c.assign i j).next = c.next := by
  unfold assign
  dsimp only
  cases (c.release j).handle i <;> exact next_release

end Arcs
