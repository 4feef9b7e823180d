import Mathlib.Logic.Function.Basic
import Mathlib.Order.Basic

/-!
# Greedy balancing

Items are placed one after the other on bins; the load of a bin is a number.

* `Balanced`: no bin that an item was placed on has more than one above any other bin. Placing on a bin of least load
  keeps it (`Balanced.place`).
* `argmin` goes through a list for the first least element of an order, and `argmin_le` says what it is least among.
* `least_of_pick`: the bin may be picked by another number than its load, as long as the difference does not prefer it
  to a bin with less load.
-/

open Std

namespace Greedy

variable {K : Type}

/-- The used bins have at most one more than any bin. -/
def Balanced (bin : K → Prop) (load : K → Nat) (used : K → Prop) : Prop :=
  ∀ u, used u → ∀ v, bin v → load u ≤ load v + 1

section

variable {bin used used' : K → Prop} {load load' : K → Nat}

/-- One more item on a bin of least load. -/
theorem Balanced.place [DecidableEq K] (h : Balanced bin load used) {b : K} (hleast : ∀ v, bin v → load b ≤ load v)
    (hload : ∀ v, load' v = if v = b then load v + 1 else load v) (hused : ∀ u, used' u → used u ∨ u = b) :
    Balanced bin load' used' := by
  intro u hu v hv
  rw [hload, hload]
  rcases hused u hu with hold | rfl
  · -- a bin used before: its bound only gets weaker, unless it is `b` itself
    have hle := h u hold v hv
    have hb := hleast v hv
    split
    · rename_i hub
      subst hub
      split <;> omega
    · split <;> omega
  · have hb := hleast v hv
    rw [if_pos rfl]
    split <;> omega

/-- The loads may be replaced by equal ones, and fewer bins may count as used. -/
theorem Balanced.mono (h : Balanced bin load used) (hload : ∀ v, load' v = load v) (hused : ∀ u, used' u → used u) :
    Balanced bin load' used' := by
  intro u hu v hv
  rw [hload, hload]
  exact h u (hused u hu) v hv

end

/-! ## The first least element -/

section

variable {cmp : K → K → Ordering}

/-- The first least element of `best :: xs`. -/
def argmin (cmp : K → K → Ordering) (best : K) (xs : List K) : K :=
  xs.foldl (fun best x => if cmp x best = .lt then x else best) best

theorem argmin_le [TransCmp cmp] (best : K) (xs : List K) : ∀ x ∈ best :: xs, (cmp (argmin cmp best xs) x).isLE := by
  induction xs generalizing best with
  | nil => simp [argmin, ReflCmp.compare_self]
  | cons y ys ih =>
    have hrest := ih (if cmp y best = .lt then y else best)
    have hfirst := hrest _ (.head ys)
    intro x hx
    show (cmp (argmin cmp (if cmp y best = .lt then y else best) ys) x).isLE
    by_cases hlt : cmp y best = .lt
    · rw [if_pos hlt] at hrest hfirst ⊢
      rcases List.mem_cons.1 hx with rfl | hx
      · exact TransCmp.isLE_trans hfirst (by rw [hlt]; rfl)
      · exact hrest x hx
    · rw [if_neg hlt] at hrest hfirst ⊢
      rcases List.mem_cons.1 hx with rfl | hx
      · exact hfirst
      · rcases List.mem_cons.1 hx with rfl | hx
        · refine TransCmp.isLE_trans hfirst ?_
          by_contra hle
          exact hlt (OrientedCmp.lt_of_not_isLE hle)
        · exact hrest x (.tail best hx)

end

/-- The bin `u` was picked before `v` by its load plus some skew, where on equal sums the bin that comes first wins.
If the skew does not speak for `u` where `v` has less load, `u` has no more load than `v`. -/
theorem least_of_pick {load skew : K → Nat} {first : K → K → Prop} [DecidableRel first] {u v : K}
    (hpick : load u + skew u < load v + skew v ∨ load u + skew u = load v + skew v ∧ ¬first v u)
    (hskew : load v < load u → skew v ≤ skew u + if first v u then 1 else 0) : load u ≤ load v := by
  by_contra hless
  have hle := hskew (by omega)
  split at hle
  · rename_i hfirst
    rcases hpick with hlt | ⟨_, hnot⟩
    · omega
    · exact hnot hfirst
  · omega

end Greedy
