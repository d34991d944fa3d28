import LunSyntax.Document.Json
import LunSyntax.Document.Scanner
import LunSyntax.Proofs.Text.Digits

/-!
# Scanning what was written

Strings and numbers, as they are written in JSON, are read as what they were written from.

* `Reader.Reads`: a reader takes a value from the front of a text, and leaves what comes after it;
* `Reader.reads_string`: the chars of a string, whichever of them are escaped;
* `Reader.reads_number`: the digits of a number, where no digit, point or exponent follows.
-/

set_option autoImplicit false

namespace LunSyntax

/-! ## Scanners -/

namespace Scanner

theorem advance_rest (s : Scanner) : s.advance.rest = s.rest.tail := by
  obtain ⟨_ | ⟨c, rest⟩, left, place, hleft⟩ := s <;> rfl

theorem skipUpTo_rest (p : Char → Bool) : ∀ (n : Nat) (s : Scanner), s.rest.length ≤ n →
    (s.skipUpTo p n).rest = s.rest.dropWhile p := by
  intro n
  induction n with
  | zero =>
    intro s hs
    rw [skipUpTo, List.length_eq_zero_iff.1 (Nat.le_zero.1 hs), List.dropWhile_nil]
  | succ n ih =>
    intro s hs
    rw [skipUpTo]
    cases hrest : s.rest with
    | nil => simp [hrest]
    | cons c rest =>
      cases hc : p c with
      | true =>
        have htail : s.advance.rest = rest := by rw [advance_rest, hrest, List.tail_cons]
        have hle : s.advance.rest.length ≤ n := by simpa [htail, hrest] using hs
        simp [hc, ih s.advance hle, htail]
      | false => simp [hc, hrest]

theorem skipWhile_rest (p : Char → Bool) (s : Scanner) :
    (s.skipWhile p).rest = s.rest.dropWhile p :=
  skipUpTo_rest p s.left s (Nat.le_of_eq s.left_eq.symm)

end Scanner

namespace Reader

variable {α β : Type} {r : Reader α} {f : α → Reader β} {a : α} {b : β} {c : Char}
  {text middle after : List Char}

/-- The reader takes a value from the front of a text, and leaves what comes after it. -/
def Reads (r : Reader α) (text : List Char) (a : α) (after : List Char) : Prop :=
  ∀ s : Scanner, s.rest = text → ∃ s', r s = .ok a s' ∧ s'.rest = after

/-! ## Steps -/

theorem reads_pure (a : α) (text : List Char) : Reads (Pure.pure a) text a text :=
  fun s hs => ⟨s, rfl, hs⟩

theorem Reads.bind (hr : Reads r text a middle) (hf : Reads (f a) middle b after) :
    Reads (r >>= f) text b after := by
  intro s hs
  obtain ⟨s₁, hr, hs₁⟩ := hr s hs
  obtain ⟨s₂, hf, hs₂⟩ := hf s₁ hs₁
  refine ⟨s₂, ?_, hs₂⟩
  change Reader.bind r f s = _
  rw [Reader.bind, hr]
  exact hf

/-- Two readers of one value, which go on in the same way. -/
theorem Reads.ite_bind {p : Prop} [Decidable p] {r₁ r₂ : Reader α}
    (h₁ : p → Reads r₁ text a middle) (h₂ : ¬p → Reads r₂ text a middle)
    (hf : Reads (f a) middle b after) :
    Reads (if p then r₁ >>= f else r₂ >>= f) text b after := by
  split
  · rename_i hp
    exact (h₁ hp).bind hf
  · rename_i hp
    exact (h₂ hp).bind hf

theorem Reads.placed (h : Reads r text a after) : Reads r.placed text a after := by
  intro s hs
  obtain ⟨s', hr, hs'⟩ := h s hs
  exact ⟨s', by rw [Reader.placed, hr], hs'⟩

theorem reads_peek (text : List Char) : Reads peek text text.head? text :=
  fun s hs => ⟨s, by rw [peek, hs], hs⟩

theorem reads_skip (c : Char) (rest : List Char) : Reads skip (c :: rest) () rest :=
  fun s hs => ⟨s.advance, rfl, by rw [Scanner.advance_rest, hs, List.tail_cons]⟩

/-- What is no blank is seen at once. -/
theorem reads_peekValue (hc : isJsonBlank c = false) (rest : List Char) :
    Reads peekValue (c :: rest) (some c) (c :: rest) := by
  intro s hs
  have hrest : (s.skipWhile isJsonBlank).rest = c :: rest := by
    rw [Scanner.skipWhile_rest, hs, List.dropWhile_cons_of_neg (by simp [hc])]
  exact ⟨_, by rw [peekValue, hrest, List.head?_cons], hrest⟩

theorem reads_peekValue_nil : Reads peekValue [] none [] := by
  intro s hs
  have hrest : (s.skipWhile isJsonBlank).rest = [] := by
    rw [Scanner.skipWhile_rest, hs, List.dropWhile_nil]
  exact ⟨_, by rw [peekValue, hrest, List.head?_nil], hrest⟩

theorem reads_word (letters rest : List Char) : Reads (word letters) (letters ++ rest) () rest := by
  induction letters with
  | nil => exact reads_pure () rest
  | cons c more ih =>
    intro s hs
    obtain ⟨s', hword, hs'⟩ := ih s.advance (by rw [Scanner.advance_rest, hs]; rfl)
    refine ⟨s', ?_, hs'⟩
    rw [word]
    simpa only [hs, List.cons_append, if_true] using hword

theorem reads_colon (rest : List Char) : Reads colon (':' :: rest) () rest :=
  (reads_peekValue rfl rest).bind (reads_skip ':' rest)

/-! ## Strings -/

/-- Four digits of a control char. -/
theorem fourDigits?_control {n : Nat} (h : n < 0x20) :
    byteCount ['0', '0', hexDigit (n / 16), hexDigit (n % 16)] = 4 ∧
      fourDigits? ['0', '0', hexDigit (n / 16), hexDigit (n % 16)] = some n := by
  revert n
  decide

theorem reads_hexEscape {n : Nat} (h : n < 0x20) (rest : List Char) :
    Reads hexEscape ('0' :: '0' :: hexDigit (n / 16) :: hexDigit (n % 16) :: rest) n rest := by
  intro s hs
  obtain ⟨hbytes, hdigits⟩ := fourDigits?_control h
  have htake : s.rest.take 4 = ['0', '0', hexDigit (n / 16), hexDigit (n % 16)] := by rw [hs]; rfl
  refine ⟨s.advance.advance.advance.advance, ?_, ?_⟩
  · rw [hexEscape, htake, hbytes, hdigits, if_neg (by decide)]
  · rw [Scanner.advance_rest, Scanner.advance_rest, Scanner.advance_rest, Scanner.advance_rest, hs]
    rfl

theorem reads_unicodeEscape (h : c.toNat < 0x20) (rest : List Char) :
    Reads unicodeEscape
      ('0' :: '0' :: hexDigit (c.toNat / 16) :: hexDigit (c.toNat % 16) :: rest) c rest := by
  refine (reads_hexEscape h rest).bind ?_
  have hlow : isLowSurrogate c.toNat = false := by
    simp only [isLowSurrogate, Bool.and_eq_false_iff, decide_eq_false_iff_not]
    omega
  have hhigh : isHighSurrogate c.toNat = false := by
    simp only [isHighSurrogate, Bool.and_eq_false_iff, decide_eq_false_iff_not]
    omega
  simp only [hlow, hhigh, Bool.false_eq_true, if_false, Char.ofNat_toNat]
  exact reads_pure c rest

theorem reads_escape {letter : Char} (hletter : letter ≠ 'u')
    (h : simpleEscape? letter = some c) (rest : List Char) :
    Reads escape (letter :: rest) c rest := by
  intro s hs
  refine ⟨s.advance, ?_, by rw [Scanner.advance_rest, hs]; rfl⟩
  rw [escape, hs]
  simp only [if_neg hletter, h]

theorem reads_escape_unicode (h : Reads unicodeEscape text c after) :
    Reads escape ('u' :: text) c after := by
  intro s hs
  obtain ⟨s', hread, hs'⟩ := h s.advance (by rw [Scanner.advance_rest, hs]; rfl)
  refine ⟨s', ?_, hs'⟩
  rw [escape, hs]
  simpa using hread

variable {fuel : Nat} {before : List Char} {value : String}

theorem Reads.stringFrom_plain (hquote : c ≠ '\x22') (hback : c ≠ '\\') (hlow : ¬c.toNat < 0x20)
    (h : Reads (stringFrom fuel (c :: before)) text value after) :
    Reads (stringFrom (fuel + 1) before) (c :: text) value after := by
  intro s hs
  obtain ⟨s', hread, hs'⟩ := h s.advance (by rw [Scanner.advance_rest, hs]; rfl)
  refine ⟨s', ?_, hs'⟩
  rw [stringFrom]
  simpa only [hs, if_neg hquote, if_neg hback, if_neg hlow] using hread

theorem Reads.stringFrom_escape (hescape : Reads escape text c middle)
    (h : Reads (stringFrom fuel (c :: before)) middle value after) :
    Reads (stringFrom (fuel + 1) before) ('\\' :: text) value after := by
  intro s hs
  obtain ⟨s₁, hchar, hs₁⟩ := hescape s.advance (by rw [Scanner.advance_rest, hs]; rfl)
  obtain ⟨s₂, hread, hs₂⟩ := h s₁ hs₁
  refine ⟨s₂, ?_, hs₂⟩
  rw [stringFrom]
  simpa only [hs, hchar, if_true, if_neg (show '\\' ≠ '\x22' by decide)] using hread

/-- How a char is written in a string. -/
theorem jsonEscape_cases (c : Char) :
    (∃ letter, letter ≠ 'u' ∧ simpleEscape? letter = some c ∧ jsonEscape c = ['\\', letter]) ∨
    (c.toNat < 0x20 ∧ jsonEscape c =
      ['\\', 'u', '0', '0', hexDigit (c.toNat / 16), hexDigit (c.toNat % 16)]) ∨
    (c ≠ '\x22' ∧ c ≠ '\\' ∧ ¬c.toNat < 0x20 ∧ jsonEscape c = [c]) := by
  unfold jsonEscape
  split
  · rename_i hc
    obtain rfl := eq_of_beq hc
    exact .inl ⟨_, by decide, rfl, rfl⟩
  rename_i hquote
  split
  · rename_i hc
    obtain rfl := eq_of_beq hc
    exact .inl ⟨_, by decide, rfl, rfl⟩
  rename_i hback
  iterate 5
    split
    · rename_i hc
      obtain rfl := eq_of_beq hc
      exact .inl ⟨_, by decide, rfl, rfl⟩
  split
  · rename_i hlow
    exact .inr (.inl ⟨hlow, rfl⟩)
  · rename_i hlow
    exact .inr (.inr ⟨by simpa using hquote, by simpa using hback, hlow, rfl⟩)

/-- A char of a string is read as itself, whether or not it is escaped. -/
theorem Reads.stringFrom_char (c : Char)
    (h : Reads (stringFrom fuel (c :: before)) text value after) :
    Reads (stringFrom (fuel + 1) before) (jsonEscape c ++ text) value after := by
  rcases jsonEscape_cases c with
    ⟨letter, hletter, hescape, heq⟩ | ⟨hlow, heq⟩ | ⟨hquote, hback, hlow, heq⟩
  · rw [heq]
    exact (reads_escape hletter hescape text).stringFrom_escape h
  · rw [heq]
    exact (reads_escape_unicode (reads_unicodeEscape hlow text)).stringFrom_escape h
  · rw [heq]
    exact h.stringFrom_plain hquote hback hlow

theorem reads_stringFrom (chars : List Char) : ∀ (fuel : Nat) (before : List Char),
    chars.length < fuel →
    Reads (stringFrom fuel before) (jsonCharsBefore ('\x22' :: after) chars)
      (String.ofList (before.reverse ++ chars)) after := by
  induction chars with
  | nil =>
    intro fuel before hfuel s hs
    obtain ⟨fuel, rfl⟩ := Nat.exists_eq_succ_of_ne_zero (Nat.ne_of_gt hfuel)
    refine ⟨s.advance, ?_, by rw [Scanner.advance_rest, hs]; rfl⟩
    rw [stringFrom, List.append_nil]
    simp only [hs, jsonCharsBefore, if_true]
  | cons c rest ih =>
    intro fuel before hfuel
    obtain ⟨fuel, rfl⟩ := Nat.exists_eq_succ_of_ne_zero (Nat.ne_of_gt (Nat.zero_lt_of_lt hfuel))
    have hrest := ih fuel (c :: before) (Nat.lt_of_succ_lt_succ hfuel)
    rw [List.reverse_cons, List.append_assoc] at hrest
    exact hrest.stringFrom_char c

theorem length_le_jsonCharsBefore (chars text : List Char) :
    chars.length + text.length ≤ (jsonCharsBefore text chars).length := by
  induction chars with
  | nil => exact Nat.le_of_eq (Nat.zero_add _)
  | cons c rest ih =>
    have hpos : 0 < (jsonEscape c).length := by
      rcases jsonEscape_cases c with ⟨_, -, -, heq⟩ | ⟨-, heq⟩ | ⟨-, -, -, heq⟩ <;> simp [heq]
    rw [jsonCharsBefore, List.length_cons, List.length_append]
    omega

/-- **A string is read from its chars between the quotes.** -/
theorem reads_string (value : String) (after : List Char) :
    Reads string (jsonCharsBefore ('\x22' :: after) value.toList) value after := by
  intro s hs
  have hfuel : value.toList.length < s.left + 1 := by
    rw [s.left_eq, hs]
    have hle := length_le_jsonCharsBefore value.toList ('\x22' :: after)
    omega
  have hread := reads_stringFrom value.toList (s.left + 1) [] hfuel s hs
  rwa [List.reverse_nil, List.nil_append, String.ofList_toList] at hread

/-! ## Numbers -/

theorem isDecimal_of_isDigit (h : c.isDigit = true) : isDecimal c = true := by
  simpa [isDecimal, Char.isDigit, Char.le_def] using h

/-- Digits are accepted as long as the number does not exceed the limit. -/
theorem accept_eq {limit : Nat} {digits : List Char} (hd : ∀ c ∈ digits, c.isDigit = true) :
    ∀ value, digitsValue 10 value digits ≤ limit →
      accept limit value digits = (digitsValue 10 value digits, digits.length) := by
  induction digits with
  | nil => exact fun value _ => rfl
  | cons c rest ih =>
    intro value hle
    obtain ⟨hc, hrest⟩ := List.forall_mem_cons.1 hd
    have hstep : value * 10 + (digitOf? 10 c).getD 0 = value * 10 + decimalValue c := by
      rw [digitOf?_ten hc, Option.getD_some, decimalValue]
    rw [digitsValue_cons, hstep] at hle ⊢
    have hnext : value * 10 + decimalValue c ≤ limit :=
      Nat.le_trans (le_digitsValue (by decide) rest _) hle
    simp only [accept, if_pos hnext, ih hrest _ hle, List.length_cons]

theorem reads_firstDigit (hc : isDecimal c = true) (rest : List Char) :
    Reads firstDigit (c :: rest) c rest := by
  intro s hs
  refine ⟨s.advance, ?_, by rw [Scanner.advance_rest, hs]; rfl⟩
  rw [firstDigit]
  simp only [hs, hc, if_true]

/-- What may follow a number so that it is known to end. -/
def EndsNumber (text : List Char) : Prop :=
  ∀ c ∈ text.head?, c ≠ '.' ∧ isDecimal c = false ∧ isExponentMark c = false

theorem reads_digits {ds : List Char} (hd : ∀ c ∈ ds, c.isDigit = true) (h : EndsNumber after) :
    Reads digits (ds ++ after) ds after := by
  have hds : ∀ c ∈ ds, isDecimal c = true := fun c hc => isDecimal_of_isDigit (hd c hc)
  have hhead : after.takeWhile isDecimal = [] ∧ after.dropWhile isDecimal = after := by
    cases after with
    | nil => exact ⟨rfl, rfl⟩
    | cons c rest => simp [(h c rfl).2.1]
  intro s hs
  refine ⟨s.skipWhile isDecimal, ?_, ?_⟩
  · rw [digits, hs, List.takeWhile_append_of_pos hds, hhead.1, List.append_nil]
  · rw [Scanner.skipWhile_rest, hs, List.dropWhile_append_of_pos hds, hhead.2]

/-- **A number is read from its digits.** -/
theorem reads_number {n : Nat} (hn : n ≤ maxSignificand) (h : EndsNumber after) :
    Reads (number false) ((toString n).toList ++ after) (.nat n) after := by
  obtain ⟨c, ds, heq, hzero⟩ := head_toString n
  have hdigits : ∀ d ∈ c :: ds, d.isDigit = true := fun d hd => isDigit_of_mem_toString (heq ▸ hd)
  obtain ⟨hc, hds⟩ := List.forall_mem_cons.1 hdigits
  have hvalue : digitsValue 10 (decimalValue c) ds = n := by
    rw [← digitsValue_toString n, heq, digitsValue_cons, digitOf?_ten hc]
    simp [decimalValue]
  have haccept := accept_eq hds (decimalValue c) (hvalue ▸ hn)
  rw [hvalue] at haccept
  have hpoint : (after.head? == some '.') = false := by
    cases after with
    | nil => rfl
    | cons d rest => simpa using (h d rfl).1
  have hmark : after.head?.any isExponentMark = false := by
    cases after with
    | nil => rfl
    | cons d rest => simpa using (h d rfl).2.2
  rw [heq, List.cons_append]
  refine (reads_firstDigit (isDecimal_of_isDigit hc) _).bind ((reads_peek _).bind ?_)
  have hleading : (c == '0' && (ds ++ after).head?.any isDecimal) = false := by
    cases hcz : c == '0' with
    | false => rfl
    | true =>
      rw [hzero (eq_of_beq hcz)]
      cases after with
      | nil => rfl
      | cons d rest => simpa using (h d rfl).2.1
  simp only [hleading, Bool.false_eq_true, if_false]
  refine Reads.ite_bind (fun hcz => ?_) (fun _ => reads_digits hds h) ?_
  · rw [hzero (eq_of_beq hcz)]
    exact reads_pure [] after
  simp only [haccept]
  refine (reads_peek _).bind ?_
  simp only [hpoint, hmark, Bool.false_eq_true, if_false, beq_self_eq_true, if_true]
  exact reads_pure _ after

end Reader

end LunSyntax
