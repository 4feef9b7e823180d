import Mathlib.Data.List.Basic
import Mathlib.Order.Basic
import Mathlib.Order.Interval.Finset.Nat

/-!
# Logs, runs and versions

* A log of commands drives a total step function; `stateAt` is the state after the first `n` commands. Extending the
  log does not change the states before (`stateAt_append`), and a reflexive, transitive relation that every step
  respects holds between any two positions (`stateAt_rel`). A number that each step keeps or raises by one counts the
  steps that raise it (`count_raises`).
* A run of a partial step function takes events whose guard holds (`Run`). An invariant is what every guarded step
  keeps (`Run.invariant`).
* A system that is called answers and moves on (`Calls`). Two systems in lockstep give the same replies
  (`Calls.lockstep`).
* A trace is what a run has done, oldest first. `Always` says of every event what came before it; it is proved segment
  by segment (`always_append`) and read off at any event (`Always.at`).
* A version stamps a view of the state when a step that changes the view raises the version (`Follows`). Then equal
  versions mean equal views (`Follows.view_eq`). A version of 64 bits may wrap; it tells apart the states that are fewer
  ticks apart than it has values (`Ticks.view_eq`).
-/

/-! ## Replaying a log -/

namespace Replay

variable {S C : Type}

/-- The state after the first `n` commands of the log. -/
def stateAt (step : S → C → S) (s : S) (log : List C) (n : Nat) : S := (log.take n).foldl step s

variable {step : S → C → S} {s : S} {log : List C}

theorem stateAt_length : stateAt step s log log.length = log.foldl step s := by simp [stateAt]

theorem stateAt_succ {n : Nat} (h : n < log.length) :
    stateAt step s log (n + 1) = step (stateAt step s log n) log[n] := by
  rw [stateAt, List.take_succ_eq_append_getElem h, List.foldl_append]
  rfl

theorem stateAt_append {n : Nat} (h : n ≤ log.length) (more : List C) :
    stateAt step s (log ++ more) n = stateAt step s log n := by
  simp [stateAt, List.take_append_of_le_length h]

/-- The state after the whole log and one more command. -/
theorem stateAt_snoc (c : C) :
    stateAt step s (log ++ [c]) (log.length + 1) = step (stateAt step s log log.length) c := by
  rw [stateAt_length, stateAt, List.take_of_length_le (by simp), List.foldl_append]
  rfl

/-- Replaying in two parts. -/
theorem stateAt_add (n m : Nat) :
    stateAt step s log (n + m) = ((log.drop n).take m).foldl step (stateAt step s log n) := by
  simp [stateAt, List.take_add]

/-- What every step relates, any two positions are related by. -/
theorem stateAt_rel {R : S → S → Prop} (hrefl : ∀ a, R a a) (htrans : ∀ a b c, R a b → R b c → R a c)
    (hstep : ∀ n < log.length, R (stateAt step s log n) (stateAt step s log (n + 1))) {i j : Nat} (hij : i ≤ j)
    (hj : j ≤ log.length) : R (stateAt step s log i) (stateAt step s log j) := by
  induction hij with
  | refl => exact hrefl _
  | @step j hij ih => exact htrans _ _ _ (ih (by omega)) (hstep j (by omega))

/-- A number that each step keeps, or raises by one where `P` holds, counts the steps with `P`. -/
theorem count_raises {value : Nat → Nat} {P : Nat → Prop} [DecidablePred P] {i j : Nat} (hij : i ≤ j)
    (hkeep : ∀ n, i ≤ n → n < j → ¬P n → value (n + 1) = value n)
    (hraise : ∀ n, i ≤ n → n < j → P n → value (n + 1) = value n + 1) :
    value j = value i + ((Finset.Ico i j).filter P).card := by
  induction hij with
  | refl => simp
  | @step j hij ih =>
    have hprev := ih (fun n hn hn' => hkeep n hn (by omega)) (fun n hn hn' => hraise n hn (by omega))
    rw [Nat.Ico_succ_right_eq_insert_Ico hij, Finset.filter_insert]
    split
    · next hp =>
      rw [hraise j hij (Nat.lt_succ_self j) hp, hprev, Finset.card_insert_of_notMem (by simp), Nat.add_assoc]
    · next hp => rw [hkeep j hij (Nat.lt_succ_self j) hp, hprev]

end Replay

/-! ## Guarded runs -/

/-- A run of `step` from `s` over the events, each taken in a state where its guard holds. -/
inductive Run {S E : Type} (step : S → E → Option S) (guard : S → E → Prop) : S → List E → S → Prop where
  | nil (s : S) : Run step guard s [] s
  | cons {s t u : S} {e : E} {es : List E} : guard s e → step s e = some t → Run step guard t es u →
      Run step guard s (e :: es) u

namespace Run

variable {S E : Type} {step : S → E → Option S} {guard : S → E → Prop}

/-- An invariant of the guarded steps holds along a run. -/
theorem invariant {P : S → Prop} (hstep : ∀ s e t, guard s e → step s e = some t → P s → P t) {s t : S} {es : List E}
    (h : Run step guard s es t) (hs : P s) : P t := by
  induction h with
  | nil s => exact hs
  | cons hg he _ ih => exact ih (hstep _ _ _ hg he hs)

/-- A weaker guard allows the run as well. -/
theorem weaken {guard' : S → E → Prop} (hg : ∀ s e, guard s e → guard' s e) {s t : S} {es : List E}
    (h : Run step guard s es t) : Run step guard' s es t := by
  induction h with
  | nil s => exact .nil s
  | cons h he _ ih => exact .cons (hg _ _ h) he ih

/-- A run goes on from where another ends. -/
theorem append {s t u : S} {es fs : List E} (h : Run step guard s es t) (h' : Run step guard t fs u) :
    Run step guard s (es ++ fs) u := by
  induction h with
  | nil s => exact h'
  | cons hg he _ ih => exact .cons hg he (ih h')

/-- Without a guard, a run is taken by stepping through the events. -/
theorem of_foldlM {s t : S} {es : List E} (h : es.foldlM step s = some t) : Run step (fun _ _ => True) s es t := by
  induction es generalizing s with
  | nil =>
    cases h
    exact .nil _
  | cons e es ih =>
    rw [List.foldlM_cons] at h
    obtain ⟨u, hu, h⟩ := Option.bind_eq_some_iff.1 h
    exact .cons trivial hu (ih h)

end Run

/-! ## Calls with replies -/

namespace Calls

variable {S T C R : Type}

/-- The replies to calls made one after another. -/
def replies (call : S → C → R × S) (s : S) : List C → List R
  | [] => []
  | c :: cs => (call s c).1 :: replies call (call s c).2 cs

/-- The state after the calls. -/
def after (call : S → C → R × S) (s : S) : List C → S
  | [] => s
  | c :: cs => after call (call s c).2 cs

/-- Each call meets the guard where it is made. -/
def Guarded (call : S → C → R × S) (guard : S → C → Prop) (s : S) : List C → Prop
  | [] => True
  | c :: cs => guard s c ∧ Guarded call guard (call s c).2 cs

/-- Two systems that answer each call alike and stay related answer all calls alike. -/
theorem lockstep {call : S → C → R × S} {call' : T → C → R × T} {rel : S → T → Prop} {guard : T → C → Prop}
    (hcall : ∀ s t c, rel s t → guard t c → (call s c).1 = (call' t c).1 ∧ rel (call s c).2 (call' t c).2)
    {s : S} {t : T} {cs : List C} (h : rel s t) (hg : Guarded call' guard t cs) :
    replies call s cs = replies call' t cs ∧ rel (after call s cs) (after call' t cs) := by
  induction cs generalizing s t with
  | nil => exact ⟨rfl, h⟩
  | cons c cs ih =>
    obtain ⟨hreply, hrel⟩ := hcall s t c h hg.1
    obtain ⟨hreplies, hafter⟩ := ih hrel hg.2
    exact ⟨by rw [replies, replies, hreply, hreplies], hafter⟩

end Calls

/-! ## Traces -/

namespace Trace

variable {α : Type}

/-- `P` holds of every event of the trace and what came before it, `past` included. -/
def Always (P : List α → α → Prop) (past : List α) : List α → Prop
  | [] => True
  | x :: xs => P past x ∧ Always P (past ++ [x]) xs

variable {P : List α → α → Prop} {past xs ys : List α}

theorem always_append : Always P past (xs ++ ys) ↔ Always P past xs ∧ Always P (past ++ xs) ys := by
  induction xs generalizing past with
  | nil => simp [Always]
  | cons x xs ih => simp [Always, ih, and_assoc]

/-- What always holds, holds at each event. -/
theorem Always.at {x : α} (h : Always P [] (xs ++ x :: ys)) : P xs x := by
  have hx := (always_append.1 h).2
  rw [List.nil_append] at hx
  exact hx.1

/-- Where an event of two traces in a row stands. -/
theorem append_eq_append_cons {before after : List α} {x : α} (h : xs ++ ys = before ++ x :: after) :
    (∃ rest, xs = before ++ x :: rest ∧ after = rest ++ ys) ∨ ∃ mid, before = xs ++ mid ∧ ys = mid ++ x :: after := by
  rcases List.append_eq_append_iff.1 h with ⟨mid, hbefore, hys⟩ | ⟨bs, hxs, hafter⟩
  · exact .inr ⟨mid, hbefore, hys⟩
  · cases bs with
    | nil => exact .inr ⟨[], by rw [hxs, List.append_nil, List.append_nil], hafter.symm⟩
    | cons b bs =>
      obtain ⟨rfl, hrest⟩ := List.cons.inj hafter
      exact .inl ⟨bs, hxs, hrest⟩

/-- A segment of similar events. -/
theorem always_map {β : Type} {f : β → α} {bs : List β}
    (h : ∀ cs b ds, bs = cs ++ b :: ds → P (past ++ cs.map f) (f b)) : Always P past (bs.map f) := by
  induction bs generalizing past with
  | nil => trivial
  | cons b bs ih =>
    constructor
    · simpa using h [] b bs rfl
    · apply ih
      intro cs c ds hs
      rw [List.append_assoc]
      exact h (b :: cs) c ds (by rw [hs]; rfl)

end Trace

/-! ## Versions -/

namespace Version

variable {S W : Type}

/-- `t` comes after `s`: the version is larger, or version and view are those of `s`. -/
def Follows (ver : S → Nat) (view : S → W) (s t : S) : Prop :=
  ver s < ver t ∨ (ver s = ver t ∧ view s = view t)

variable {ver : S → Nat} {view : S → W}

theorem Follows.refl (s : S) : Follows ver view s s := Or.inr ⟨rfl, rfl⟩

theorem Follows.trans {s t u : S} (h : Follows ver view s t) (h' : Follows ver view t u) : Follows ver view s u := by
  rcases h with h | ⟨hv, hw⟩
  · left
    rcases h' with h' | ⟨hv', _⟩ <;> omega
  · rcases h' with h' | ⟨hv', hw'⟩
    · left; omega
    · exact Or.inr ⟨hv.trans hv', hw.trans hw'⟩

theorem Follows.le {s t : S} (h : Follows ver view s t) : ver s ≤ ver t := by
  rcases h with h | ⟨h, _⟩ <;> omega

/-- Equal versions show equal views. -/
theorem Follows.view_eq {s t : S} (h : Follows ver view s t) (hv : ver s = ver t) : view s = view t := by
  rcases h with h | ⟨_, h⟩
  · omega
  · exact h

/-- `t` comes `k` ticks of a 64-bit version after `s`, and without a tick the view is that of `s`. -/
def Ticks (ver : S → UInt64) (view : S → W) (k : Nat) (s t : S) : Prop :=
  ver t = ver s + UInt64.ofNat k ∧ (k = 0 → view s = view t)

section Wrapping

variable {ver : S → UInt64} {s t u : S} {k l : Nat}

theorem Ticks.refl (s : S) : Ticks ver view 0 s s := ⟨(UInt64.add_zero _).symm, fun _ => rfl⟩

theorem Ticks.trans (h : Ticks ver view k s t) (h' : Ticks ver view l t u) : Ticks ver view (k + l) s u := by
  refine ⟨?_, fun hzero => (h.2 (by omega)).trans (h'.2 (by omega))⟩
  rw [h'.1, h.1, UInt64.ofNat_add, UInt64.add_assoc]

/-- Equal versions show equal views, as long as the version has not gone round. -/
theorem Ticks.view_eq (h : Ticks ver view k s t) (hk : k < UInt64.size) (hv : ver s = ver t) : view s = view t := by
  have hzero : UInt64.ofNat k = 0 := by
    have hsum := h.1
    rw [← hv] at hsum
    exact UInt64.left_eq_add.1 hsum
  have hnat : (UInt64.ofNat k).toNat = k := UInt64.toNat_ofNat_of_lt' hk
  exact h.2 (by rw [← hnat, hzero, UInt64.toNat_zero])

end Wrapping

end Version
