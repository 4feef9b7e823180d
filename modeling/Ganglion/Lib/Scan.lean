import Mathlib.Data.List.Basic

/-!
# Scanning a log to its first fault

A log is a list of items. A scan skips some of them, reads an entry from each of the others, given the entry before it,
and stops at the first one it cannot read. What it found (`Scanned`) are the entries before that item, the fault, and
how many items stand there and after it, those not counted that are skipped anyway.

* `scan_append_done`, `scan_append_fault`: a scan of two parts. A fault in the first part hides the second.
* `scan_linked`: the entries found are related one to the next as the look requires.
* `scan_written`: items that were written from such entries are read back.
* `scan_congr_map`: the same log in another form.
-/

namespace Scan

variable {α β ε : Type}

/-- What a scan found: entries, the fault if there is one, and the number of items from the fault on. -/
structure Scanned (β ε : Type) where
  entries : List β
  fault : Option ε
  tail : Nat
  deriving DecidableEq

/-- The entry before what follows `bs`, when `last` came before them. -/
def lastOf (last : Option β) (bs : List β) : Option β := bs.getLast?.or last

@[simp] theorem lastOf_nil (last : Option β) : lastOf last [] = last := rfl

@[simp] theorem lastOf_none (bs : List β) : lastOf none bs = bs.getLast? := Option.or_none

@[simp] theorem lastOf_cons (last : Option β) (b : β) (bs : List β) : lastOf last (b :: bs) = lastOf (some b) bs := by
  cases bs with
  | nil => rfl
  | cons c cs => simp [lastOf, List.getLast?_eq_some_getLast]

/-- Each entry stands in the relation to the one before it. -/
def Linked (R : Option β → β → Prop) (last : Option β) : List β → Prop
  | [] => True
  | b :: bs => R last b ∧ Linked R (some b) bs

theorem linked_append {R : Option β → β → Prop} {last : Option β} {bs cs : List β} :
    Linked R last (bs ++ cs) ↔ Linked R last bs ∧ Linked R (lastOf last bs) cs := by
  induction bs generalizing last with
  | nil => simp [Linked]
  | cons b bs ih => simp [Linked, ih, and_assoc]

theorem Linked.imp {R R' : Option β → β → Prop} (hR : ∀ l b, R l b → R' l b) {last : Option β} {bs : List β}
    (h : Linked R last bs) : Linked R' last bs := by
  induction bs generalizing last with
  | nil => trivial
  | cons b bs ih => exact ⟨hR _ _ h.1, ih h.2⟩

variable (skip : α → Bool) (look : Option β → α → Except ε β)

/-- The scan. -/
def scan (last : Option β) : List α → Scanned β ε
  | [] => ⟨[], none, 0⟩
  | a :: as =>
    if skip a then scan last as
    else match look last a with
      | .ok b => { scan (some b) as with entries := b :: (scan (some b) as).entries }
      | .error e => ⟨[], some e, as.countP (fun a => !skip a) + 1⟩

variable {skip look} {last : Option β} {xs ys : List α}

theorem scan_tail_eq_zero_iff : (scan skip look last xs).tail = 0 ↔ (scan skip look last xs).fault = none := by
  induction xs generalizing last with
  | nil => simp [scan]
  | cons x xs ih =>
    simp only [scan]
    split
    · exact ih
    · split
      · exact ih
      · simp

/-- A fault is found by a look at some item. -/
theorem scan_fault {e : ε} (h : (scan skip look last xs).fault = some e) : ∃ l, ∃ a ∈ xs, look l a = .error e := by
  induction xs generalizing last with
  | nil => cases h
  | cons x xs ih =>
    simp only [scan] at h
    split at h
    · obtain ⟨l, a, ha, hl⟩ := ih h
      exact ⟨l, a, List.mem_cons_of_mem x ha, hl⟩
    · split at h
      · obtain ⟨l, a, ha, hl⟩ := ih h
        exact ⟨l, a, List.mem_cons_of_mem x ha, hl⟩
      · rename_i hx
        cases h
        exact ⟨last, x, List.mem_cons_self, hx⟩

/-- A first part without a fault. -/
theorem scan_append_done (h : (scan skip look last xs).fault = none) :
    scan skip look last (xs ++ ys) =
      let first := (scan skip look last xs).entries
      { scan skip look (lastOf last first) ys with
        entries := first ++ (scan skip look (lastOf last first) ys).entries } := by
  induction xs generalizing last with
  | nil => rfl
  | cons x xs ih =>
    simp only [scan, List.cons_append] at h ⊢
    split at h
    · rename_i hs
      simp only [hs, if_true]
      exact ih h
    · rename_i hs
      simp only [hs, Bool.false_eq_true, if_false]
      split at h
      · simp only [ih h, lastOf_cons, List.cons_append]
      · cases h

/-- A first part with a fault: nothing behind it is read. -/
theorem scan_append_fault {e : ε} (h : (scan skip look last xs).fault = some e) :
    scan skip look last (xs ++ ys) =
      { scan skip look last xs with
        tail := (scan skip look last xs).tail + ys.countP fun a => !skip a } := by
  induction xs generalizing last with
  | nil => cases h
  | cons x xs ih =>
    simp only [scan, List.cons_append] at h ⊢
    split at h
    · rename_i hs
      simp only [hs, if_true]
      exact ih h
    · rename_i hs
      simp only [hs, Bool.false_eq_true, if_false]
      split at h
      · simp only [ih h]
      · simp only [List.countP_append, Scanned.mk.injEq, true_and]
        omega

/-- What a look checks holds between each entry found and the one before it. -/
theorem scan_linked {R : Option β → β → Prop} (h : ∀ l a b, look l a = .ok b → R l b) :
    Linked R last (scan skip look last xs).entries := by
  induction xs generalizing last with
  | nil => trivial
  | cons x xs ih =>
    simp only [scan]
    split
    · exact ih
    · split
      · rename_i b hb
        exact ⟨h _ _ _ hb, ih⟩
      · trivial

/-- Entries that can be read one after another from the items they are written to are what the scan finds. -/
theorem scan_written {write : β → α} {bs : List β}
    (h : Linked (fun l b => skip (write b) = false ∧ look l (write b) = .ok b) last bs) :
    scan skip look last (bs.map write) = ⟨bs, none, 0⟩ := by
  induction bs generalizing last with
  | nil => rfl
  | cons b bs ih =>
    obtain ⟨⟨hs, hl⟩, hrest⟩ := h
    simp [scan, hs, hl, ih hrest]

/-- The log in another form. -/
theorem scan_congr_map {γ : Type} {skip' : γ → Bool} {look' : Option β → γ → Except ε β} {f : α → γ}
    (hs : ∀ x ∈ xs, skip' (f x) = skip x) (hl : ∀ x ∈ xs, ∀ l, skip x = false → look' l (f x) = look l x) :
    scan skip' look' last (xs.map f) = scan skip look last xs := by
  induction xs generalizing last with
  | nil => rfl
  | cons x xs ih =>
    have ih' := fun l => @ih l (fun y hy => hs y (List.mem_cons_of_mem x hy))
      fun y hy => hl y (List.mem_cons_of_mem x hy)
    have hcount : (xs.map f).countP (fun a => !skip' a) = xs.countP fun a => !skip a := by
      rw [List.countP_map]
      apply List.countP_congr
      intro y hy
      simp [hs y (List.mem_cons_of_mem x hy)]
    simp only [List.map_cons, scan, hs x List.mem_cons_self, ih']
    split
    · rfl
    · rename_i hx
      rw [hl x List.mem_cons_self last (by simpa using hx), hcount]

end Scan
