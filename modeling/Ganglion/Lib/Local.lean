import Mathlib.Data.List.Pairwise
import Mathlib.Data.List.Perm.Basic

/-!
# Local actions

A state is made of cells beside a counter (`Store`). An action is local (`Action`) when it writes only some cells,
decides by the cells it reads, and moves the counter by a cost that it decides in the same way: it may not look at the
counter itself.

* `Action.Independent`: neither of two actions writes what the other reads.
* `step_comm`, `answer_after`: independent actions commute and get the same answers in both orders.
* `foldl_perm`: a list of pairwise independent actions ends in the same state in every order.
-/

namespace Local

variable {S K N A : Type} {V : K → Type}

/-- A state seen as cells beside a counter. -/
structure Store (S K : Type) (V : K → Type) (N : Type) where
  cell : S → (k : K) → V k
  count : S → N
  ext : ∀ s t, (∀ k, cell s k = cell t k) → count s = count t → s = t

/-- The two states agree on the cells. -/
def Store.Agree (st : Store S K V N) (cells : K → Prop) (s t : S) : Prop := ∀ k, cells k → st.cell s k = st.cell t k

/-- An action with an answer that reads and writes only its cells and pays into the counter. -/
structure Action (st : Store S K V N) [Add N] (A : Type) where
  step : S → S
  answer : S → A
  cost : S → N
  reads : K → Prop
  writes : K → Prop
  writes_reads : ∀ k, writes k → reads k
  frame : ∀ s k, ¬writes k → st.cell (step s) k = st.cell s k
  cell_congr : ∀ s t, st.Agree reads s t → st.Agree writes (step s) (step t)
  answer_congr : ∀ s t, st.Agree reads s t → answer s = answer t
  cost_congr : ∀ s t, st.Agree reads s t → cost s = cost t
  count_step : ∀ s, st.count (step s) = st.count s + cost s

namespace Action

variable [Add N] {st : Store S K V N} {a b : Action st A}

/-- Neither action writes what the other reads. -/
structure Independent (a b : Action st A) : Prop where
  left : ∀ k, a.writes k → ¬b.reads k
  right : ∀ k, b.writes k → ¬a.reads k

theorem Independent.symm (h : Independent a b) : Independent b a := ⟨h.right, h.left⟩

/-- What `a` reads is the same before and after `b`. -/
theorem Independent.agree (h : Independent a b) (s : S) : st.Agree a.reads (b.step s) s := by
  intro k hk
  apply b.frame
  intro hw
  exact h.right k hw hk

/-- The answer to `a` is the same before and after `b`. -/
theorem answer_after (h : Independent a b) (s : S) : a.answer (b.step s) = a.answer s :=
  a.answer_congr _ _ (h.agree s)

/-- A cell that `a` writes holds the same in both orders. -/
theorem cell_comm (h : Independent a b) (s : S) {k : K} (hk : a.writes k) :
    st.cell (b.step (a.step s)) k = st.cell (a.step (b.step s)) k := by
  have hb : ¬b.writes k := fun hw => h.left k hk (b.writes_reads k hw)
  rw [b.frame _ k hb]
  exact (a.cell_congr _ _ (h.agree s) k hk).symm

variable [Std.Associative (α := N) (· + ·)] [Std.Commutative (α := N) (· + ·)]

/-- Both costs reach the counter in both orders. -/
theorem count_comm (h : Independent a b) (s : S) : st.count (b.step (a.step s)) = st.count (a.step (b.step s)) := by
  have hb : b.cost (a.step s) = b.cost s := b.cost_congr _ _ (h.symm.agree s)
  have ha : a.cost (b.step s) = a.cost s := a.cost_congr _ _ (h.agree s)
  rw [b.count_step, a.count_step, a.count_step, b.count_step, ha, hb]
  ac_rfl

/-- **Independent actions commute.** -/
theorem step_comm (h : Independent a b) (s : S) : b.step (a.step s) = a.step (b.step s) := by
  apply st.ext
  · intro k
    by_cases ha : a.writes k
    · exact cell_comm h s ha
    by_cases hb : b.writes k
    · exact (cell_comm h.symm s hb).symm
    · rw [b.frame _ k hb, a.frame _ k ha, a.frame _ k ha, b.frame _ k hb]
  · exact count_comm h s

/-- **Pairwise independent actions end in the same state in every order.** -/
theorem foldl_perm {C : Type} (act : C → Action st A) {cs ds : List C} (hp : cs.Perm ds)
    (hi : cs.Pairwise fun c d => Independent (act c) (act d)) (s : S) :
    cs.foldl (fun s c => (act c).step s) s = ds.foldl (fun s c => (act c).step s) s := by
  have hsymm : Std.Symm fun c d => Independent (act c) (act d) := ⟨fun _ _ h => h.symm⟩
  refine hp.foldl_eq' (fun c hc d hd t => ?_) s
  by_cases he : c = d
  · rw [he]
  · exact step_comm (hi.forall hc hd he) t

end Action

end Local
