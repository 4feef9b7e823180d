import Mathlib.Data.List.Basic
import Mathlib.Order.Basic

/-!
# Compact JSON text

JSON values with natural numbers, and the compact text a serialiser writes for them: no white space, fields in the order
given, the short escapes for the common control characters and `\u00xx` for the others.

* `Json.print_separable`: a value can be read off the front of a text, as long as no digit follows a number. So
  `Json.print_injective`, and no text of an object is a proper prefix of another (`Json.print_obj_append_eq`).
* `Json.print_printable`: no control character is written, in particular no line break.
-/

namespace Json

/-! ## Reading off the front -/

/-- What `f` writes can be read off the front of any text whose rest satisfies `ok`. -/
def Separable {α : Type} (ok : List Char → Prop) (f : α → List Char) : Prop :=
  ∀ ⦃a b : α⦄ ⦃r r' : List Char⦄, f a ++ r = f b ++ r' → ok r → ok r' → a = b ∧ r = r'

/-- The rest of a text where a number ends. -/
def NoDigit (r : List Char) : Prop := ∀ c ∈ r.head?, c.isDigit = false

theorem noDigit_cons {c : Char} {r : List Char} (h : c.isDigit = false) : NoDigit (c :: r) := by
  intro d hd
  cases Option.some.inj hd
  exact h

/-! ## Numbers -/

/-- Decimal digits end where the first other character stands. -/
theorem append_eq_of_digits : ∀ {ds es r r' : List Char}, ds ++ r = es ++ r' → (∀ c ∈ ds, c.isDigit) →
    (∀ c ∈ es, c.isDigit) → NoDigit r → NoDigit r' → ds = es ∧ r = r'
  | [], [], r, r', h, _, _, _, _ => ⟨rfl, h⟩
  | [], e :: es, r, r', h, _, he, hr, _ => by
    have := hr e (by rw [List.nil_append] at h; simp [h])
    simp [he e List.mem_cons_self] at this
  | d :: ds, [], r, r', h, hd, _, _, hr' => by
    have := hr' d (by rw [List.nil_append] at h; simp [← h])
    simp [hd d List.mem_cons_self] at this
  | d :: ds, e :: es, r, r', h, hd, he, hr, hr' => by
    simp only [List.cons_append, List.cons.injEq] at h
    obtain ⟨rfl, hrest⟩ := append_eq_of_digits h.2 (fun c hc => hd c (List.mem_cons_of_mem _ hc))
      (fun c hc => he c (List.mem_cons_of_mem _ hc)) hr hr'
    exact ⟨by rw [h.1], hrest⟩

theorem toDigits_separable : Separable NoDigit (Nat.toDigits 10) := by
  intro a b r r' h hr hr'
  have hdigits : ∀ n : Nat, ∀ c ∈ Nat.toDigits 10 n, c.isDigit := fun n c hc =>
    Nat.isDigit_of_mem_toDigits (by omega) (by omega) hc
  obtain ⟨heq, hrest⟩ := append_eq_of_digits h (hdigits a) (hdigits b) hr hr'
  exact ⟨by rw [← Nat.ofDigitChars_ten_toDigits (n := a), heq, Nat.ofDigitChars_ten_toDigits], hrest⟩

/-! ## Strings -/

/-- The text of one character inside a string. -/
def escape (c : Char) : List Char :=
  match c with
  | '"' => ['\\', '"']
  | '\\' => ['\\', '\\']
  | '\x08' => ['\\', 'b']
  | '\x0c' => ['\\', 'f']
  | '\n' => ['\\', 'n']
  | '\r' => ['\\', 'r']
  | '\t' => ['\\', 't']
  | c =>
    if c.toNat < 0x20 then ['\\', 'u', '0', '0', (c.toNat / 16).digitChar, (c.toNat % 16).digitChar] else [c]

/-- The value of a hexadecimal digit. -/
def hexValue (c : Char) : Nat := if c.isDigit then c.toNat - '0'.toNat else c.toNat - 'a'.toNat + 10

/-- Reading one character of a string off the front. -/
def unescape : List Char → Option (Char × List Char)
  | '\\' :: '"' :: r => some ('"', r)
  | '\\' :: '\\' :: r => some ('\\', r)
  | '\\' :: 'b' :: r => some ('\x08', r)
  | '\\' :: 'f' :: r => some ('\x0c', r)
  | '\\' :: 'n' :: r => some ('\n', r)
  | '\\' :: 'r' :: r => some ('\r', r)
  | '\\' :: 't' :: r => some ('\t', r)
  | '\\' :: 'u' :: '0' :: '0' :: h :: l :: r => some (Char.ofNat (16 * hexValue h + hexValue l), r)
  | '\\' :: _ => none
  | '"' :: _ => none
  | c :: r => some (c, r)
  | [] => none

theorem hexValue_digitChar : ∀ d < 16, hexValue d.digitChar = d := by decide

theorem unescape_escape (c : Char) (r : List Char) : unescape (escape c ++ r) = some (c, r) := by
  unfold escape
  split
  case h_8 h₁ h₂ h₃ h₄ h₅ h₆ h₇ =>
    split
    · rename_i hlt
      have hc : Char.ofNat (16 * (c.toNat / 16) + c.toNat % 16) = c := by
        rw [Nat.div_add_mod, Char.ofNat_toNat]
      simp [unescape, hexValue_digitChar _ (show c.toNat / 16 < 16 by omega),
        hexValue_digitChar _ (Nat.mod_lt c.toNat (by omega)), hc]
    · simp only [List.singleton_append]
      rw [unescape.eq_def]
      split <;> simp_all
  all_goals rfl

/-- The text of the characters of a string, up to and with the closing quote. -/
def quoted : List Char → List Char
  | [] => ['"']
  | c :: cs => escape c ++ quoted cs

theorem unescape_quote (r : List Char) : unescape ('"' :: r) = none := rfl

theorem quoted_separable : Separable (fun _ => True) quoted := by
  intro cs
  induction cs with
  | nil =>
    intro ds r r' h _ _
    cases ds with
    | nil => exact ⟨rfl, by simpa [quoted] using h⟩
    | cons d ds =>
      have := congrArg unescape h
      simp [quoted, unescape_quote, List.append_assoc, unescape_escape] at this
  | cons c cs ih =>
    intro ds r r' h _ _
    have hun := congrArg unescape h
    cases ds with
    | nil => simp [quoted, unescape_quote, List.append_assoc, unescape_escape] at hun
    | cons d ds =>
      simp only [quoted, List.append_assoc, unescape_escape, Option.some.injEq, Prod.mk.injEq] at hun
      obtain ⟨rfl, hrest⟩ := ih hun.2 trivial trivial
      exact ⟨by rw [hun.1], hrest⟩

/-- The text of a string. -/
def quote (s : String) : List Char := '"' :: quoted s.toList

theorem quote_separable : Separable (fun _ => True) quote := by
  intro a b r r' h _ _
  simp only [quote, List.cons_append, List.cons.injEq, true_and] at h
  obtain ⟨heq, hrest⟩ := quoted_separable h trivial trivial
  exact ⟨String.toList_injective heq, hrest⟩

end Json

/-! ## Values -/

/-- JSON values; an object keeps its fields in order. -/
inductive Json where
  | null
  | bool (b : Bool)
  | num (n : Nat)
  | str (s : String)
  | arr (items : List Json)
  | obj (fields : List (String × Json))

namespace Json

mutual

/-- The compact text of a value. -/
def print : Json → List Char
  | .null => ['n', 'u', 'l', 'l']
  | .bool true => ['t', 'r', 'u', 'e']
  | .bool false => ['f', 'a', 'l', 's', 'e']
  | .num n => Nat.toDigits 10 n
  | .str s => quote s
  | .arr [] => ['[', ']']
  | .arr (j :: js) => '[' :: (print j ++ printItems js)
  | .obj [] => ['{', '}']
  | .obj ((k, j) :: fs) => '{' :: (quote k ++ ':' :: (print j ++ printFields fs))

/-- The rest of an array. -/
def printItems : List Json → List Char
  | [] => [']']
  | j :: js => ',' :: (print j ++ printItems js)

/-- The rest of an object. -/
def printFields : List (String × Json) → List Char
  | [] => ['}']
  | (k, j) :: fs => ',' :: (quote k ++ ':' :: (print j ++ printFields fs))

end

/-- What kind of value a first character starts. -/
def kindOf (c : Char) : Nat :=
  if c.isDigit then 0
  else if c = 'n' then 1
  else if c = 't' then 2
  else if c = 'f' then 3
  else if c = '"' then 4
  else if c = '[' then 5
  else 6

/-- The kind of a value. -/
def kind : Json → Nat
  | .num _ => 0
  | .null => 1
  | .bool true => 2
  | .bool false => 3
  | .str _ => 4
  | .arr _ => 5
  | .obj _ => 6

theorem print_head (j : Json) : ∃ c cs, print j = c :: cs ∧ kindOf c = j.kind ∧ c ≠ ']' := by
  match j with
  | .null => exact ⟨_, _, rfl, by decide, by decide⟩
  | .bool true => exact ⟨_, _, rfl, by decide, by decide⟩
  | .bool false => exact ⟨_, _, rfl, by decide, by decide⟩
  | .num n =>
    obtain ⟨c, cs, hc⟩ := List.exists_cons_of_ne_nil (Nat.toDigits_ne_nil (n := n) (b := 10))
    have hd : c.isDigit := Nat.isDigit_of_mem_toDigits (b := 10) (n := n) (by omega) (by omega) (by simp [hc])
    refine ⟨c, cs, hc, by simp [kindOf, kind, hd], ?_⟩
    rintro rfl
    exact absurd hd (by decide)
  | .str s => exact ⟨_, _, rfl, rfl, by decide⟩
  | .arr [] => exact ⟨_, _, by rw [print], rfl, by decide⟩
  | .arr (_ :: _) => exact ⟨_, _, by rw [print], rfl, by decide⟩
  | .obj [] => exact ⟨_, _, by rw [print], rfl, by decide⟩
  | .obj ((_, _) :: _) => exact ⟨_, _, by rw [print], rfl, by decide⟩

/-- Equal texts are of values of one kind. -/
theorem kind_eq {a b : Json} {r r' : List Char} (h : print a ++ r = print b ++ r') : a.kind = b.kind := by
  obtain ⟨c, cs, hc, hk, _⟩ := print_head a
  obtain ⟨d, ds, hd, hk', _⟩ := print_head b
  rw [hc, hd] at h
  rw [← hk, ← hk', (List.cons.inj h).1]

theorem noDigit_printItems (js : List Json) (r : List Char) : NoDigit (printItems js ++ r) := by
  cases js <;> exact noDigit_cons (by decide)

theorem noDigit_printFields (fs : List (String × Json)) (r : List Char) : NoDigit (printFields fs ++ r) := by
  rcases fs with _ | ⟨⟨k, j⟩, fs⟩ <;> exact noDigit_cons (by decide)

mutual

theorem print_append_inj : ∀ (a b : Json) {r r' : List Char}, print a ++ r = print b ++ r' → NoDigit r → NoDigit r' →
    a = b ∧ r = r'
  | .null, b, r, r', h, _, _ => by
    have hk := kind_eq h
    match b with
    | .null => exact ⟨rfl, List.append_cancel_left h⟩
  | .bool true, b, r, r', h, _, _ => by
    have hk := kind_eq h
    match b with
    | .bool true => exact ⟨rfl, List.append_cancel_left h⟩
  | .bool false, b, r, r', h, _, _ => by
    have hk := kind_eq h
    match b with
    | .bool false => exact ⟨rfl, List.append_cancel_left h⟩
  | .num n, b, r, r', h, hr, hr' => by
    have hk := kind_eq h
    match b with
    | .num m =>
      obtain ⟨rfl, hrest⟩ := toDigits_separable h hr hr'
      exact ⟨rfl, hrest⟩
  | .str s, b, r, r', h, _, _ => by
    have hk := kind_eq h
    match b with
    | .str t =>
      obtain ⟨rfl, hrest⟩ := quote_separable h trivial trivial
      exact ⟨rfl, hrest⟩
  | .arr [], b, r, r', h, _, _ => by
    have hk := kind_eq h
    match b with
    | .arr [] => simpa [print] using h
    | .arr (k :: ks) =>
      obtain ⟨c, cs, hc, _, hne⟩ := print_head k
      simp [print, hc, Ne.symm hne] at h
  | .arr (j :: js), b, r, r', h, _, _ => by
    have hk := kind_eq h
    match b with
    | .arr [] =>
      obtain ⟨c, cs, hc, _, hne⟩ := print_head j
      simp [print, hc, hne] at h
    | .arr (k :: ks) =>
      simp only [print, List.cons_append, List.cons.injEq, true_and, List.append_assoc] at h
      obtain ⟨rfl, hitems⟩ := print_append_inj j k h (noDigit_printItems _ _) (noDigit_printItems _ _)
      obtain ⟨rfl, hrest⟩ := printItems_append_inj js ks hitems
      exact ⟨rfl, hrest⟩
  | .obj fs, b, r, r', h, _, _ => by
    have hk := kind_eq h
    match b with
    | .obj gs =>
      obtain ⟨rfl, hrest⟩ := print_obj_append_inj fs gs h
      exact ⟨rfl, hrest⟩

/-- A closing brace ends an object, so nothing is asked of the rest. -/
theorem print_obj_append_inj : ∀ (fs gs : List (String × Json)) {r r' : List Char},
    print (.obj fs) ++ r = print (.obj gs) ++ r' → fs = gs ∧ r = r'
  | [], [], r, r', h => by simpa [print] using h
  | [], (k, j) :: gs, r, r', h => by simp [print, quote] at h
  | (k, j) :: fs, [], r, r', h => by simp [print, quote] at h
  | (k, j) :: fs, (k', j') :: gs, r, r', h => by
    simp only [print, List.cons_append, List.cons.injEq, true_and, List.append_assoc] at h
    obtain ⟨rfl, hval⟩ := quote_separable h trivial trivial
    obtain ⟨rfl, hfields⟩ :=
      print_append_inj j j' (List.cons.inj hval).2 (noDigit_printFields _ _) (noDigit_printFields _ _)
    obtain ⟨rfl, hrest⟩ := printFields_append_inj fs gs hfields
    exact ⟨rfl, hrest⟩

theorem printItems_append_inj : ∀ (js ks : List Json) {r r' : List Char},
    printItems js ++ r = printItems ks ++ r' → js = ks ∧ r = r'
  | [], [], r, r', h => by simpa [printItems] using h
  | [], k :: ks, r, r', h => by simp [printItems] at h
  | j :: js, [], r, r', h => by simp [printItems] at h
  | j :: js, k :: ks, r, r', h => by
    simp only [printItems, List.cons_append, List.cons.injEq, true_and, List.append_assoc] at h
    obtain ⟨rfl, hitems⟩ := print_append_inj j k h (noDigit_printItems _ _) (noDigit_printItems _ _)
    obtain ⟨rfl, hrest⟩ := printItems_append_inj js ks hitems
    exact ⟨rfl, hrest⟩

theorem printFields_append_inj : ∀ (fs gs : List (String × Json)) {r r' : List Char},
    printFields fs ++ r = printFields gs ++ r' → fs = gs ∧ r = r'
  | [], [], r, r', h => by simpa [printFields] using h
  | [], (k, j) :: gs, r, r', h => by simp [printFields] at h
  | (k, j) :: fs, [], r, r', h => by simp [printFields] at h
  | (k, j) :: fs, (k', j') :: gs, r, r', h => by
    simp only [printFields, List.cons_append, List.cons.injEq, true_and, List.append_assoc] at h
    obtain ⟨rfl, hval⟩ := quote_separable h trivial trivial
    obtain ⟨rfl, hfields⟩ :=
      print_append_inj j j' (List.cons.inj hval).2 (noDigit_printFields _ _) (noDigit_printFields _ _)
    obtain ⟨rfl, hrest⟩ := printFields_append_inj fs gs hfields
    exact ⟨rfl, hrest⟩

end

/-- **A value can be read off the front.** -/
theorem print_separable : Separable NoDigit print := fun a b _ _ h => print_append_inj a b h

theorem print_injective : Function.Injective print := by
  intro a b h
  have hnil : NoDigit [] := by simp [NoDigit]
  exact (@print_separable a b [] [] (by simpa using h) hnil hnil).1

/-- Nothing can follow the text of an object in the text of an object. -/
theorem print_obj_append_eq {fs gs : List (String × Json)} {r : List Char}
    (h : print (.obj fs) ++ r = print (.obj gs)) : fs = gs ∧ r = [] := by
  have h' : print (.obj fs) ++ r = print (.obj gs) ++ [] := by rw [h, List.append_nil]
  exact print_obj_append_inj fs gs h'

/-! ## Printable text -/

/-- No control character. -/
def Printable (cs : List Char) : Prop := ∀ c ∈ cs, 0x20 ≤ c.toNat

theorem printable_escape (c : Char) : Printable (escape c) := by
  unfold escape
  split
  case h_8 =>
    split
    · rename_i hlt
      have hd : ∀ d < 16, 0x20 ≤ d.digitChar.toNat := by decide
      intro a ha
      simp only [List.mem_cons, List.not_mem_nil, or_false] at ha
      rcases ha with rfl | rfl | rfl | rfl | rfl | rfl
      all_goals first | decide | exact hd _ (by omega)
    · rename_i hge
      simpa [Printable] using hge
  all_goals simp [Printable]

theorem printable_quoted (cs : List Char) : Printable (quoted cs) := by
  induction cs with
  | nil => simp [Printable, quoted]
  | cons c cs ih =>
    intro a ha
    rcases List.mem_append.1 ha with ha | ha
    · exact printable_escape c a ha
    · exact ih a ha

theorem Printable.append {cs ds : List Char} (h : Printable cs) (h' : Printable ds) : Printable (cs ++ ds) := by
  intro c hc
  rcases List.mem_append.1 hc with hc | hc
  · exact h c hc
  · exact h' c hc

theorem Printable.cons {c : Char} {cs : List Char} (hc : 0x20 ≤ c.toNat) (h : Printable cs) : Printable (c :: cs) := by
  intro d hd
  rcases List.mem_cons.1 hd with rfl | hd
  · exact hc
  · exact h d hd

theorem printable_quote (s : String) : Printable (quote s) := .cons (by decide) (printable_quoted s.toList)

theorem printable_toDigits (n : Nat) : Printable (Nat.toDigits 10 n) := by
  intro c hc
  have hd := Nat.isDigit_of_mem_toDigits (by omega) (by omega) hc
  simp only [Char.isDigit, ge_iff_le, Bool.and_eq_true, decide_eq_true_eq, UInt32.le_iff_toNat_le] at hd
  exact Nat.le_trans (by decide) hd.1

mutual

/-- **No line break is written**, nor any other control character. -/
theorem print_printable : ∀ j : Json, Printable (print j)
  | .null | .bool true | .bool false | .arr [] | .obj [] => by simp [print, Printable]
  | .num n => printable_toDigits n
  | .str s => printable_quote s
  | .arr (j :: js) => by
    rw [print]
    exact .cons (by decide) ((print_printable j).append (printItems_printable js))
  | .obj ((k, j) :: fs) => by
    rw [print]
    exact .cons (by decide)
      ((printable_quote k).append (.cons (by decide) ((print_printable j).append (printFields_printable fs))))

theorem printItems_printable : ∀ js : List Json, Printable (printItems js)
  | [] => by simp [printItems, Printable]
  | j :: js => by
    rw [printItems]
    exact .cons (by decide) ((print_printable j).append (printItems_printable js))

theorem printFields_printable : ∀ fs : List (String × Json), Printable (printFields fs)
  | [] => by simp [printFields, Printable]
  | (k, j) :: fs => by
    rw [printFields]
    exact .cons (by decide)
      ((printable_quote k).append (.cons (by decide) ((print_printable j).append (printFields_printable fs))))

end

/-- An object starts with its brace. -/
theorem print_obj_head (fs : List (String × Json)) : (print (.obj fs)).head? = some '{' := by
  rcases fs with _ | ⟨⟨k, j⟩, fs⟩ <;> simp [print]

theorem printFields_getLast (fs : List (String × Json)) : (printFields fs).getLast? = some '}' := by
  induction fs with
  | nil => rfl
  | cons f fs ih =>
    obtain ⟨k, j⟩ := f
    have hsplit : printFields ((k, j) :: fs) = (',' :: (quote k ++ ':' :: print j)) ++ printFields fs := by
      simp [printFields]
    rw [hsplit, List.getLast?_append, ih]
    rfl

/-- An object ends with its brace. -/
theorem print_obj_getLast (fs : List (String × Json)) : (print (.obj fs)).getLast? = some '}' := by
  rcases fs with _ | ⟨⟨k, j⟩, fs⟩
  · rfl
  · have hsplit : print (.obj ((k, j) :: fs)) = ('{' :: (quote k ++ ':' :: print j)) ++ printFields fs := by
      simp [print]
    rw [hsplit, List.getLast?_append, printFields_getLast]
    rfl

/-! ## Collections -/

section

open Std

variable {α K V : Type}

/-- A sequence. -/
def list (f : α → Json) (l : List α) : Json := .arr (l.map f)

/-- An optional value: nothing is `null`. -/
def option (f : α → Json) : Option α → Json
  | none => .null
  | some a => f a

/-- A map whose keys have a text. -/
def map [Ord K] [TransOrd K] (key : K → String) (f : V → Json) (m : ExtTreeMap K V) : Json :=
  .obj (m.toList.map fun p => (key p.1, f p.2))

/-- A set, by increasing key. -/
def set [Ord K] [TransOrd K] (f : K → Json) (s : ExtTreeSet K) : Json := list f s.toList

theorem list_injective {f : α → Json} (hf : Function.Injective f) : Function.Injective (list f) := by
  intro a b h
  exact List.map_injective_iff.2 hf (arr.inj h)

theorem option_injective {f : α → Json} (hf : Function.Injective f) (hnull : ∀ a, f a ≠ .null) :
    Function.Injective (option f) := by
  intro a b h
  match a, b with
  | none, none => rfl
  | none, some b => exact absurd h.symm (hnull b)
  | some a, none => exact absurd h (hnull a)
  | some a, some b => exact congrArg some (hf h)

theorem map_injective [Ord K] [TransOrd K] {key : K → String} {f : V → Json} (hk : Function.Injective key)
    (hf : Function.Injective f) : Function.Injective (map key f : ExtTreeMap K V → Json) := by
  intro a b h
  apply ExtTreeMap.toList_inj.1
  refine List.map_injective_iff.2 ?_ (obj.inj h)
  intro p q hp
  obtain ⟨hkey, hval⟩ := Prod.mk.inj hp
  exact Prod.ext (hk hkey) (hf hval)

theorem set_injective [Ord K] [TransOrd K] {f : K → Json} (hf : Function.Injective f) :
    Function.Injective (set f : ExtTreeSet K → Json) := by
  intro a b h
  exact ExtTreeSet.toList_inj.1 (list_injective hf h)

end

end Json
