import Mathlib.Data.List.Basic

/-!
# Request and response channels

A channel between a client and a peer that answers: requests go one way, answers come back, both in order, and the peer
reads the next request when it has answered the last one. An answer is kept together with the request it answers,
which the client does not see.

`pending` lists the requests whose answer the client has not received, oldest first. The peer does not change it
(`pending_accept`, `pending_answer`), sending appends to it, and what is received answers its head
(`pending_of_receive`). So on a channel with one pending request, the next answer is the answer to that.
-/

/-- A channel for requests `Q` and answers `A`. -/
structure Channel (Q A : Type) where
  requests : List Q
  serving : Option Q
  answers : List (Q × A)

namespace Channel

variable {Q A : Type} {c d : Channel Q A}

/-- A channel nothing was sent on. -/
def fresh : Channel Q A where
  requests := []
  serving := none
  answers := []

/-- The requests whose answer was not received, oldest first. -/
def pending (c : Channel Q A) : List Q := c.answers.map Prod.fst ++ c.serving.toList ++ c.requests

/-- The client sends a request. -/
def send (c : Channel Q A) (q : Q) : Channel Q A := { c with requests := c.requests ++ [q] }

/-- The peer reads a request. -/
def accept (c : Channel Q A) : Option (Channel Q A) :=
  match c.serving, c.requests with
  | none, q :: qs => some { c with serving := some q, requests := qs }
  | _, _ => none

/-- The peer answers the request it has read. -/
def answer (c : Channel Q A) (a : A) : Option (Channel Q A) :=
  match c.serving with
  | some q => some { c with serving := none, answers := c.answers ++ [(q, a)] }
  | none => none

/-- The client receives an answer. -/
def receive (c : Channel Q A) : Option ((Q × A) × Channel Q A) :=
  match c.answers with
  | x :: xs => some (x, { c with answers := xs })
  | [] => none

@[simp] theorem pending_fresh : (fresh : Channel Q A).pending = [] := rfl

@[simp] theorem pending_send (c : Channel Q A) (q : Q) : (c.send q).pending = c.pending ++ [q] := by
  simp [pending, send]

theorem pending_accept (h : c.accept = some d) : d.pending = c.pending := by
  unfold accept at h
  split at h
  · rename_i q qs hserving hrequests
    cases h
    simp [pending, hserving, hrequests]
  · cases h

theorem pending_answer {a : A} (h : c.answer a = some d) : d.pending = c.pending := by
  unfold answer at h
  split at h
  · rename_i q hserving
    cases h
    simp [pending, hserving]
  · cases h

/-- What the client receives answers the oldest pending request. -/
theorem pending_of_receive {x : Q × A} (h : c.receive = some (x, d)) : c.pending = x.1 :: d.pending := by
  unfold receive at h
  split at h
  · rename_i y ys hanswers
    cases h
    simp [pending, hanswers]
  · cases h

/-! ## How the peer answers -/

/-- Every answer under way is one that `R` allows for its request. -/
def Answers (R : Q → A → Prop) (c : Channel Q A) : Prop := ∀ x ∈ c.answers, R x.1 x.2

variable {R : Q → A → Prop}

theorem answers_fresh : Answers R (fresh : Channel Q A) := by
  intro x hx
  cases hx

theorem Answers.send (h : Answers R c) (q : Q) : Answers R (c.send q) := h

theorem Answers.accept (h : Answers R c) (ha : c.accept = some d) : Answers R d := by
  unfold Channel.accept at ha
  split at ha
  · cases ha
    exact h
  · cases ha

theorem Answers.answer {a : A} (h : Answers R c) (ha : c.answer a = some d)
    (hR : ∀ q, c.serving = some q → R q a) : Answers R d := by
  unfold Channel.answer at ha
  split at ha
  · rename_i q hserving
    cases ha
    intro x hx
    rcases List.mem_append.1 hx with hx | hx
    · exact h x hx
    · rw [List.mem_singleton.1 hx]
      exact hR q hserving
  · cases ha

theorem Answers.receive {x : Q × A} (h : Answers R c) (hr : c.receive = some (x, d)) :
    R x.1 x.2 ∧ Answers R d := by
  unfold Channel.receive at hr
  split at hr
  · rename_i y ys hanswers
    cases hr
    exact ⟨h _ (hanswers ▸ .head _), fun z hz => h z (hanswers ▸ .tail _ hz)⟩
  · cases hr

end Channel
