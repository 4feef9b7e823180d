import Mathlib.Data.List.Basic
import Mathlib.Data.List.TakeWhile

/-!
# Text files as bytes

* The UTF-8 bytes of a text and the check that reads them back (`utf8`, `fromUtf8`). Bytes that are a text and a prefix
  of a text are a prefix of it as texts (`utf8_append_eq`).
* White space, trimming, and whether bytes are blank or start with a mark after white space (`isBlank`, `startsWith`).
* The lines of a byte file as a buffered reader returns them (`lines`): a line break ends a line and is dropped, with a
  carriage return before it, and the last line may lack it.
-/

namespace Text

/-! ## UTF-8 -/

/-- The bytes of a text. -/
def utf8 (s : String) : List UInt8 := s.toList.flatMap String.utf8EncodeChar

/-- The text that the bytes are, if they are valid UTF-8. -/
def fromUtf8 (b : List UInt8) : Option String := String.fromUTF8? b.toByteArray

theorem toByteArray_utf8 (s : String) : (utf8 s).toByteArray = s.toByteArray := by
  rw [← String.utf8Encode_toList]
  rfl

@[simp] theorem utf8_append (s t : String) : utf8 (s ++ t) = utf8 s ++ utf8 t := by
  simp [utf8]

theorem toByteArray_injective : Function.Injective List.toByteArray := by
  intro a b h
  simpa using congrArg (fun x => x.data.toList) h

theorem utf8_injective : Function.Injective utf8 := by
  intro s t h
  apply String.toByteArray_inj.1
  rw [← toByteArray_utf8, ← toByteArray_utf8, h]

theorem fromUtf8_eq_some {b : List UInt8} {s : String} : fromUtf8 b = some s ↔ utf8 s = b := by
  unfold fromUtf8 String.fromUTF8?
  constructor
  · intro h
    split at h
    · rw [← Option.some.inj h]
      apply toByteArray_injective
      rw [toByteArray_utf8]
      rfl
    · cases h
  · rintro rfl
    have hv : (utf8 s).toByteArray.IsValidUTF8 := toByteArray_utf8 s ▸ s.isValidUTF8
    rw [dif_pos hv]
    exact congrArg some (String.toByteArray_inj.1 (toByteArray_utf8 s))

@[simp] theorem fromUtf8_utf8 (s : String) : fromUtf8 (utf8 s) = some s := fromUtf8_eq_some.2 rfl

/-- A text whose bytes are the front of the bytes of another text is the front of that text. -/
theorem utf8_append_eq {s t : String} {b : List UInt8} (h : utf8 s ++ b = utf8 t) :
    ∃ u, t = s ++ u ∧ b = utf8 u := by
  have hpre : s.toList <+: t.toList := by
    apply List.isPrefix_of_utf8Encode_append_eq_utf8Encode b.toByteArray
    rw [String.utf8Encode_toList, String.utf8Encode_toList, ← toByteArray_utf8, ← toByteArray_utf8, ← h]
    simp
  obtain ⟨u, hu⟩ := hpre
  have ht : t = s ++ String.ofList u := by
    apply String.toList_injective
    simp [hu]
  refine ⟨String.ofList u, ht, ?_⟩
  rw [ht, utf8_append] at h
  exact List.append_cancel_left h

/-- An ASCII byte stands for its own character. -/
theorem mem_utf8EncodeChar {c : Char} {b : UInt8} (h : b ∈ String.utf8EncodeChar c) (hb : b.toNat < 0x80) :
    c.toNat = b.toNat := by
  have hv : c.toNat = c.val.toNat := rfl
  have hlow : ∀ n : Nat, 0x80 ≤ n → n < 0x100 → b ≠ UInt8.ofNat n := by
    rintro n hn hn' rfl
    simp only [UInt8.toNat_ofNat'] at hb
    omega
  unfold String.utf8EncodeChar at h
  simp only at h
  split at h
  · simp only [List.mem_singleton] at h
    rw [h, UInt8.toNat_ofNat']
    omega
  · exfalso
    split at h
    · simp only [List.mem_cons, List.not_mem_nil, or_false] at h
      rcases h with h | h <;> exact hlow _ (by omega) (by omega) h
    · split at h
      · simp only [List.mem_cons, List.not_mem_nil, or_false] at h
        rcases h with h | h | h <;> exact hlow _ (by omega) (by omega) h
      · simp only [List.mem_cons, List.not_mem_nil, or_false] at h
        rcases h with h | h | h | h <;> exact hlow _ (by omega) (by omega) h

theorem not_mem_utf8 {s : String} {b : UInt8} (hb : b.toNat < 0x80) (h : ∀ c ∈ s.toList, c.toNat ≠ b.toNat) :
    b ∉ utf8 s := by
  intro hmem
  obtain ⟨c, hc, hbc⟩ := List.mem_flatMap.1 hmem
  exact h c hc (mem_utf8EncodeChar hbc hb)

/-! ## White space -/

/-- The Unicode property `White_Space`. -/
def isWhiteSpace (c : Char) : Bool :=
  let n := c.toNat
  (9 ≤ n && n ≤ 13) || n == 0x20 || n == 0x85 || n == 0xA0 || n == 0x1680 || (0x2000 ≤ n && n ≤ 0x200A) ||
    n == 0x2028 || n == 0x2029 || n == 0x202F || n == 0x205F || n == 0x3000

/-- The text without white space at its ends. -/
def trim (s : String) : String :=
  .ofList ((s.toList.dropWhile isWhiteSpace).reverse.dropWhile isWhiteSpace).reverse

/-- A text with nothing to trim. -/
theorem trim_eq_self {s : String} {a b : Char} (ha : s.toList.head? = some a) (hb : s.toList.getLast? = some b)
    (hwa : isWhiteSpace a = false) (hwb : isWhiteSpace b = false) : trim s = s := by
  have hfront : s.toList.dropWhile isWhiteSpace = s.toList := by
    obtain ⟨cs, hcs⟩ := List.head?_eq_some_iff.1 ha
    rw [hcs, List.dropWhile_cons_of_neg (by simp [hwa])]
  have hback : s.toList.reverse.dropWhile isWhiteSpace = s.toList.reverse := by
    rw [← List.head?_reverse] at hb
    obtain ⟨cs, hcs⟩ := List.head?_eq_some_iff.1 hb
    rw [hcs, List.dropWhile_cons_of_neg (by simp [hwb])]
  rw [trim, hfront, hback, List.reverse_reverse, String.ofList_toList]

/-- White space around a text is trimmed off. -/
theorem trim_surrounded {w s w' : List Char} (hw : w.all isWhiteSpace = true) (hw' : w'.all isWhiteSpace = true)
    {a b : Char} (ha : s.head? = some a) (hb : s.getLast? = some b) (hwa : isWhiteSpace a = false)
    (hwb : isWhiteSpace b = false) : trim (.ofList (w ++ s ++ w')) = .ofList s := by
  have hfront : (w ++ s ++ w').dropWhile isWhiteSpace = s ++ w' := by
    obtain ⟨cs, rfl⟩ := List.head?_eq_some_iff.1 ha
    rw [List.append_assoc, List.dropWhile_append_of_pos (List.all_eq_true.1 hw), List.cons_append,
      List.dropWhile_cons_of_neg (by simp [hwa])]
  have hback : (w'.reverse ++ s.reverse).dropWhile isWhiteSpace = s.reverse := by
    rw [← List.head?_reverse] at hb
    obtain ⟨cs, hcs⟩ := List.head?_eq_some_iff.1 hb
    rw [List.dropWhile_append_of_pos (by simpa using hw'), hcs, List.dropWhile_cons_of_neg (by simp [hwb])]
  rw [trim, String.toList_ofList, hfront, List.reverse_append, hback, List.reverse_reverse]

/-- White space has no lower case. -/
theorem toLower_of_isWhiteSpace {c : Char} (h : isWhiteSpace c = true) : c.toLower = c := by
  have hnot : ¬(c.val ≥ 'A'.val ∧ c.val ≤ 'Z'.val) := by
    rintro ⟨hge, hle⟩
    have hge : 65 ≤ c.toNat := hge
    have hle : c.toNat ≤ 90 := hle
    simp only [isWhiteSpace, Bool.or_eq_true, Bool.and_eq_true, decide_eq_true_eq, beq_iff_eq] at h
    omega
  exact dif_neg hnot

/-- Trimming keeps the first character that is not white space. -/
theorem head?_trim (s : String) : (trim s).toList.head? = (s.toList.dropWhile isWhiteSpace).head? := by
  rw [trim, String.toList_ofList]
  cases h : s.toList.dropWhile isWhiteSpace with
  | nil => rfl
  | cons c cs =>
    have hc : isWhiteSpace c = false := by
      have := List.head?_dropWhile_not isWhiteSpace s.toList
      rw [h] at this
      simpa using this
    rw [List.reverse_cons, List.dropWhile_append]
    split
    · simp [hc]
    · simp

/-- The bytes are a text of white space. -/
def isBlank (b : List UInt8) : Bool := (fromUtf8 b).any fun s => s.toList.all isWhiteSpace

/-- The bytes start with white space and then the ASCII character `mark`, whatever follows. -/
def startsWith (mark : UInt8) (b : List UInt8) : Bool :=
  (List.range b.length).any fun k => b[k]? == some mark && isBlank (b.take k)

theorem isBlank_utf8 (s : String) : isBlank (utf8 s) = (s.toList.dropWhile isWhiteSpace).isEmpty := by
  simp only [isBlank, fromUtf8_utf8, Option.any_some]
  rw [Bool.eq_iff_iff, List.all_eq_true, List.isEmpty_iff, List.dropWhile_eq_nil_iff]

/-- The first byte of a text, when it is ASCII, is its first character. -/
theorem head_of_utf8 {u : String} {b : UInt8} (h : (utf8 u).head? = some b) (hb : b.toNat < 0x80) :
    ∃ c, u.toList.head? = some c ∧ c.toNat = b.toNat := by
  unfold utf8 at h
  cases hu : u.toList with
  | nil => simp [hu] at h
  | cons c cs =>
    refine ⟨c, rfl, mem_utf8EncodeChar (List.mem_of_mem_head? ?_) hb⟩
    rw [hu, List.flatMap_cons, List.head?_append_of_ne_nil _ (by simp)] at h
    exact h

theorem startsWith_utf8 (s : String) {c : Char} (hc : c.toNat < 0x80) (hw : isWhiteSpace c = false) :
    startsWith (UInt8.ofNat c.toNat) (utf8 s) = ((s.toList.dropWhile isWhiteSpace).head? == some c) := by
  have hmark : (UInt8.ofNat c.toNat).toNat = c.toNat := by
    rw [UInt8.toNat_ofNat']
    omega
  rw [Bool.eq_iff_iff, startsWith, List.any_eq_true, beq_iff_eq]
  constructor
  · rintro ⟨k, _, hk⟩
    simp only [Bool.and_eq_true, beq_iff_eq, isBlank, Option.any_eq_true] at hk
    obtain ⟨hat, w, hw', hblank⟩ := hk
    have hsplit : utf8 w ++ (utf8 s).drop k = utf8 s := by rw [fromUtf8_eq_some.1 hw', List.take_append_drop]
    obtain ⟨u, rfl, hu⟩ := utf8_append_eq hsplit
    have hhead : (utf8 u).head? = some (UInt8.ofNat c.toNat) := by rw [← hu, List.head?_drop, hat]
    obtain ⟨d, hd, hdc⟩ := head_of_utf8 hhead (by omega)
    have hdc : d = c := Char.toNat_inj.1 (by rw [hdc, hmark])
    subst hdc
    obtain ⟨ds, hds⟩ := List.head?_eq_some_iff.1 hd
    rw [String.toList_append, hds, List.dropWhile_append_of_pos (by simpa using hblank),
      List.dropWhile_cons_of_neg (by simp [hw])]
    rfl
  · intro h
    obtain ⟨cs, hcs⟩ := List.head?_eq_some_iff.1 h
    obtain ⟨w, hblank, rfl⟩ : ∃ w : String, w.toList.all isWhiteSpace = true ∧ s = w ++ .ofList (c :: cs) := by
      refine ⟨.ofList (s.toList.takeWhile isWhiteSpace), by simp, String.toList_injective ?_⟩
      rw [String.toList_append, String.toList_ofList, String.toList_ofList, ← hcs, List.takeWhile_append_dropWhile]
    have henc : String.utf8EncodeChar c = [UInt8.ofNat c.toNat] := by
      unfold String.utf8EncodeChar
      simp only [show c.val.toNat = c.toNat from rfl]
      rw [if_pos (by omega)]
    have hmark : utf8 (.ofList (c :: cs)) = UInt8.ofNat c.toNat :: utf8 (.ofList cs) := by simp [utf8, henc]
    refine ⟨(utf8 w).length, ?_, ?_⟩
    · rw [List.mem_range, utf8_append, hmark, List.length_append, List.length_cons]
      omega
    · rw [utf8_append, hmark]
      simp [isBlank, hblank]

/-! ## Lines -/

/-- `\n`. -/
def newline : UInt8 := 10

/-- `\r`. -/
def carriageReturn : UInt8 := 13

/-- The file cut after each line break. -/
def pieces : List UInt8 → List (List UInt8)
  | [] => []
  | b :: bs =>
    if b = newline then [b] :: pieces bs
    else match pieces bs with
      | [] => [[b]]
      | p :: ps => (b :: p) :: ps

/-- A piece without its line break and the carriage return before it. -/
def chomp (p : List UInt8) : List UInt8 :=
  if p.getLast? = some newline then
    if p.dropLast.getLast? = some carriageReturn then p.dropLast.dropLast else p.dropLast
  else p

/-- The lines of a file. -/
def lines (file : List UInt8) : List (List UInt8) := (pieces file).map chomp

theorem pieces_terminated {l : List UInt8} (h : newline ∉ l) (rest : List UInt8) :
    pieces (l ++ newline :: rest) = (l ++ [newline]) :: pieces rest := by
  induction l with
  | nil => simp [pieces]
  | cons b l ih =>
    have hb : b ≠ newline := fun hb => h (hb ▸ List.mem_cons_self)
    simp [pieces, hb, ih fun hl => h (List.mem_cons_of_mem _ hl)]

theorem pieces_tail {l : List UInt8} (h : newline ∉ l) (hne : l ≠ []) : pieces l = [l] := by
  induction l with
  | nil => exact absurd rfl hne
  | cons b l ih =>
    have hb : b ≠ newline := fun hb => h (hb ▸ List.mem_cons_self)
    cases l with
    | nil => simp [pieces, hb]
    | cons c l =>
      have := ih (fun hl => h (List.mem_cons_of_mem _ hl)) (by simp)
      simp [pieces, hb] at this ⊢
      simp [this]

/-- A line with its break is read as the line. -/
theorem lines_terminated {l : List UInt8} (h : newline ∉ l) (hcr : carriageReturn ∉ l) (rest : List UInt8) :
    lines (l ++ newline :: rest) = l :: lines rest := by
  have hlast : l.getLast? ≠ some carriageReturn := fun hl => hcr (List.mem_of_getLast? hl)
  simp [lines, pieces_terminated h, chomp, hlast]

/-- A last line without a break is read as it is. -/
theorem lines_tail {l : List UInt8} (h : newline ∉ l) (hne : l ≠ []) : lines l = [l] := by
  have hlast : l.getLast? ≠ some newline := fun hl => h (List.mem_of_getLast? hl)
  simp [lines, pieces_tail h hne, chomp, hlast]

/-- Control characters are not in the bytes of a text without them. -/
theorem not_mem_of_printable {s : String} (h : ∀ c ∈ s.toList, 0x20 ≤ c.toNat) {b : UInt8} (hb : b.toNat < 0x20) :
    b ∉ utf8 s := by
  refine not_mem_utf8 (by omega) fun c hc heq => ?_
  have := h c hc
  omega

/-- A text as a line of a file. -/
def textLine (s : String) : List UInt8 := utf8 s ++ [newline]

/-- Texts without control characters, each on a line of its own, are the lines of the file. -/
theorem lines_texts {ss : List String} (h : ∀ s ∈ ss, ∀ c ∈ s.toList, 0x20 ≤ c.toNat) (tail : List UInt8) :
    lines (ss.flatMap textLine ++ tail) = ss.map utf8 ++ lines tail := by
  induction ss with
  | nil => rfl
  | cons s ss ih =>
    have hs := h s List.mem_cons_self
    rw [List.flatMap_cons, textLine, List.append_assoc, List.append_assoc, List.singleton_append,
      lines_terminated (not_mem_of_printable hs (by decide)) (not_mem_of_printable hs (by decide)),
      ih fun t ht => h t (List.mem_cons_of_mem s ht)]
    rfl

/-- A front part of a file of text lines: whole lines, and then part of the text of the next one. -/
theorem textLines_cut {α : Type} (text : α → String) {xs : List α} {file : List UInt8}
    (h : file <+: xs.flatMap fun x => textLine (text x)) :
    ∃ whole tail, whole <+: xs ∧ file = (whole.flatMap fun x => textLine (text x)) ++ tail ∧
      (tail = [] ∨ ∃ x, whole ++ [x] <+: xs ∧ tail <+: utf8 (text x)) := by
  induction xs generalizing file with
  | nil => exact ⟨[], [], List.nil_prefix, List.prefix_nil.1 h, Or.inl rfl⟩
  | cons x xs ih =>
    have hx : [] ++ [x] <+: x :: xs := ⟨xs, rfl⟩
    rw [List.flatMap_cons, textLine, List.append_assoc] at h
    rcases List.prefix_or_prefix_of_prefix h (List.prefix_append _ _) with hin | ⟨rest, rfl⟩
    · exact ⟨[], file, List.nil_prefix, rfl, Or.inr ⟨x, hx, hin⟩⟩
    · rw [List.prefix_append_right_inj, List.singleton_append, List.prefix_cons_iff] at h
      rcases h with rfl | ⟨rest, rfl, hrest⟩
      · exact ⟨[], utf8 (text x), List.nil_prefix, by simp, Or.inr ⟨x, hx, List.prefix_rfl⟩⟩
      · obtain ⟨whole, tail, hwhole, rfl, htail⟩ := ih hrest
        refine ⟨x :: whole, tail, (List.prefix_cons_inj x).2 hwhole, by simp [textLine], ?_⟩
        rcases htail with rfl | ⟨y, hy, htail⟩
        · exact Or.inl rfl
        · exact Or.inr ⟨y, (List.prefix_cons_inj x).2 hy, htail⟩

end Text
