import LunSyntax.Proofs.Token.Integers
import LunSyntax.Proofs.Token.Munch

/-!
# Values of string literals

A string is spelled with pieces, each of which stands for one char.  The lexer makes parts of them:
plain chars in a row are one part, escape sequences are parts of their own.

* `StringPiece`: what a string is spelled with, and `StringPiece.char`: what a piece stands for;
* `spelled_parts`: the parts which the lexer makes of pieces stand for the same chars;
* `lex_strings`: a string has the chars which its pieces stand for.
-/

set_option autoImplicit false

namespace LunSyntax

/-! ## Pieces -/

/-- A hexadecimal digit, of either case. -/
abbrev HexDigit := { c : Char // isHexDigit c = true }

/-- The number that hexadecimal digits stand for by their positions. -/
def hexNumber (digits : List HexDigit) : Nat :=
  Nat.ofDigits 16 (digits.reverse.map fun d => (digitOf? 16 d.1).getD 0)

/-- The escapes of one letter, and what they stand for. -/
def letterEscapes : List (Char × Char) :=
  [('0', '\x00'), ('n', '\n'), ('r', '\r'), ('t', '\t'), ('v', '\x0b'), ('a', '\x07'),
    ('b', '\x08'), ('e', '\x1b'), ('\\', '\\')]

/-- What a string may be spelled with between its quotes. -/
inductive StringPiece where
  /-- a char which stands for itself -/
  | raw (c : Char) (plain : c ≠ '\\' ∧ c ≠ '\x22' ∧ c ≠ '\n')
  /-- a backslash and a letter -/
  | letter (escape : Char × Char) (known : escape ∈ letterEscapes)
  /-- the number of a char in two digits -/
  | byte (high low : HexDigit)
  /-- the number of a char in braces, in as many digits as one likes -/
  | code (digits : List HexDigit) (nonempty : digits ≠ [])

/-- The char with a number, or the one that takes the place of what is no char. -/
def charOrReplacement (code : Nat) : Char :=
  if code.isValidChar then Char.ofNat code else '\uFFFD'

namespace StringPiece

/-- The piece as written. -/
def written : StringPiece → List Char
  | raw c _ => [c]
  | letter escape _ => ['\\', escape.1]
  | byte high low => ['\\', 'x', high, low]
  | code digits _ => '\\' :: 'u' :: '{' :: digits.map Subtype.val ++ ['}']

/-- The char that the piece stands for. -/
def char : StringPiece → Char
  | raw c _ => c
  | letter escape _ => escape.2
  | byte high low => charOrReplacement (hexNumber [high, low])
  | code digits _ => charOrReplacement (hexNumber digits)

/-- Whether the piece has the number of no char: one of a surrogate, or one that is too large. -/
def isBad : StringPiece → Bool
  | code digits _ => !decide (hexNumber digits).isValidChar
  | _ => false

end StringPiece

/-- Where pieces from an offset on have numbers of no char.  The backslash is not marked. -/
def badCodes (offset : Nat) : List StringPiece → List Extent
  | [] => []
  | piece :: rest =>
    let stop := offset + piece.written.length
    (if piece.isBad then [⟨offset + 1, stop⟩] else []) ++ badCodes stop rest

theorem length_badCodes (pieces : List StringPiece) :
    ∀ offset, (badCodes offset pieces).length = pieces.countP StringPiece.isBad := by
  induction pieces with
  | nil => exact fun _ => rfl
  | cons piece rest ih =>
    intro offset
    rw [badCodes, List.length_append, ih, List.countP_cons]
    by_cases hbad : piece.isBad = true
    · rw [if_pos hbad, if_pos hbad, List.length_singleton, Nat.add_comm]
    · rw [if_neg hbad, if_neg hbad, List.length_nil, Nat.zero_add, Nat.add_zero]

/-! ## Numbers of chars -/

variable {digits : List HexDigit}

theorem hexDigits (digits : List HexDigit) :
    ∀ c ∈ digits.map Subtype.val, isHexDigit c = true := by
  rintro _ hc
  obtain ⟨d, -, rfl⟩ := List.mem_map.1 hc
  exact d.2

theorem digitsValue_hex (digits : List HexDigit) :
    digitsValue 16 0 (digits.map Subtype.val) = hexNumber digits := by
  rw [digitsValue_eq_ofDigits, ← List.map_reverse, List.map_map]
  rfl

theorem charOfCode?_getD (digits : List HexDigit) :
    (charOfCode? (digits.map Subtype.val)).getD '\uFFFD' =
      charOrReplacement (hexNumber digits) := by
  rw [charOfCode?_eq (hexDigits digits), digitsValue_hex, charOrReplacement]
  split <;> rfl

/-! ## Parts -/

theorem isPlain_iff {c : Char} : isPlain c = true ↔ c ≠ '\\' ∧ c ≠ '\x22' ∧ c ≠ '\n' := by
  simp only [isPlain, Bool.not_eq_true', Bool.or_eq_false_iff, beq_eq_false_iff_ne, and_assoc]

theorem simpleEscape?_letter {escape : Char × Char} (h : escape ∈ letterEscapes) :
    simpleEscape? escape.1 = some escape.2 := by
  have hall : ∀ e ∈ letterEscapes, simpleEscape? e.1 = some e.2 := by decide
  exact hall escape h

theorem EscapeText.head {raw : List Char} {value : Char} (h : EscapeText raw value) :
    raw.head? = some '\\' := by
  cases h <;> rfl

/-- Parts of a string which say the same as pieces from an offset on. -/
structure PartsOf (offset : Nat) (pieces : List StringPiece) (parts : List StringPart) : Prop where
  body : StringBody offset (pieces.flatMap StringPiece.written) parts
  value : parts.flatMap (fun part => part.value.toList) = pieces.map StringPiece.char
  invalid : ((parts.filter StringPart.isInvalid).map fun part =>
    (⟨part.extent.start + 1, part.extent.stop⟩ : Extent)) = badCodes offset pieces

variable {offset : Nat} {pieces : List StringPiece} {parts : List StringPart}

/-- A plain char is a part of its own, or joins the plain text that follows. -/
theorem PartsOf.raw {c : Char} (plain : c ≠ '\\' ∧ c ≠ '\x22' ∧ c ≠ '\n')
    (h : PartsOf (offset + 1) pieces parts) :
    ∃ parts', PartsOf offset (.raw c plain :: pieces) parts' := by
  obtain ⟨hbody, hvalue, hinvalid⟩ := h
  have hc : isPlain c = true := isPlain_iff.2 plain
  -- a part of its own, where no plain text follows
  have halone : (∀ d ∈ (pieces.flatMap StringPiece.written).head?, isPlain d = false) →
      PartsOf offset (.raw c plain :: pieces)
        (.content (String.ofList [c]) ⟨offset, offset + 1⟩ :: parts) := by
    intro hstop
    refine ⟨?_, ?_, hinvalid⟩
    · exact .content (List.cons_ne_nil c []) (List.forall_mem_singleton.2 hc) hstop hbody
    · rw [List.flatMap_cons, hvalue]
      simp [StringPart.value, StringPiece.char]
  generalize hstart : offset + 1 = start at hbody
  generalize htext : pieces.flatMap StringPiece.written = text at hbody halone
  cases hbody with
  | nil => exact ⟨_, halone (by simp)⟩
  | escape hraw _ =>
    refine ⟨_, halone fun d hd => ?_⟩
    rw [List.head?_append, hraw.head] at hd
    cases hd
    decide
  | @content _ text body parts hne htexts hstop hbody =>
    subst hstart
    refine ⟨.content (String.ofList (c :: text)) ⟨offset, offset + (c :: text).length⟩ :: parts,
      ?_, ?_, hinvalid⟩
    · rw [List.flatMap_cons, htext]
      refine .content (List.cons_ne_nil c text) (List.forall_mem_cons.2 ⟨hc, htexts⟩) hstop ?_
      rwa [List.length_cons, Nat.add_comm text.length, ← Nat.add_assoc]
    · rw [List.map_cons, ← hvalue]
      simp [StringPart.value, StringPiece.char]

/-- An escape sequence is a part of its own. -/
theorem PartsOf.escape {piece : StringPiece} (hraw : EscapeText piece.written piece.char)
    (hbad : isBadCode piece.written = piece.isBad)
    (h : PartsOf (offset + piece.written.length) pieces parts) :
    ∃ parts', PartsOf offset (piece :: pieces) parts' := by
  refine ⟨.escape (String.ofList piece.written) piece.char
    ⟨offset, offset + piece.written.length⟩ :: parts, .escape hraw h.body, ?_, ?_⟩
  · rw [List.flatMap_cons, h.value]
    simp [StringPart.value]
  · have hpart : StringPart.isInvalid (.escape (String.ofList piece.written) piece.char
        ⟨offset, offset + piece.written.length⟩) = piece.isBad := by
      rw [StringPart.isInvalid, String.toList_ofList, hbad]
    rw [badCodes, ← h.invalid, List.filter_cons, hpart]
    cases piece.isBad <;> rfl

/-- **The parts of a string stand for the chars of its pieces**, and the same numbers are bad. -/
theorem spelled_parts (pieces : List StringPiece) :
    ∀ offset, ∃ parts, PartsOf offset pieces parts := by
  induction pieces with
  | nil => exact fun offset => ⟨[], .nil, rfl, rfl⟩
  | cons piece rest ih =>
    intro offset
    obtain ⟨parts, hparts⟩ := ih (offset + piece.written.length)
    cases piece with
    | raw c plain => exact hparts.raw plain
    | letter escape known =>
      refine hparts.escape (.simple (simpleEscape?_letter known)) ?_
      simp [isBadCode, StringPiece.written, unicodeCode?, StringPiece.isBad]
    | byte high low =>
      refine hparts.escape ?_ ?_
      · rw [StringPiece.char, ← charOfCode?_getD]
        exact .byte high.2 low.2
      · simp [isBadCode, StringPiece.written, unicodeCode?, StringPiece.isBad]
    | code digits nonempty =>
      refine hparts.escape ?_ ?_
      · rw [StringPiece.char, ← charOfCode?_getD]
        exact .code (mt List.map_eq_nil_iff.1 nonempty) (hexDigits digits)
      · simp only [isBadCode, StringPiece.written, List.cons_append, unicodeCode?,
          List.dropLast_concat, digitsValue_hex, Option.any_some, StringPiece.isBad]

/-! ## Sources -/

theorem isBlank_of_isWordStart {c : Char} (h : isWordStart c = true) : isBlank c = false := by
  have hrange : 65 ≤ c.toNat ∧ c.toNat ≤ 122 := by
    rw [isWordStart] at h
    delta Char.isAlpha Char.isUpper Char.isLower at h
    simp only [Bool.or_eq_true, Bool.and_eq_true, decide_eq_true_eq, beq_iff_eq,
      UInt32.le_iff_toNat_le] at h
    rcases h with (⟨h1, h2⟩ | ⟨h1, h2⟩) | rfl
    · exact ⟨h1, Nat.le_trans h2 (by decide)⟩
    · exact ⟨Nat.le_trans (by decide) h1, h2⟩
    · decide
  simp only [isBlank, Bool.or_eq_false_iff, Bool.and_eq_false_imp, decide_eq_true_eq,
    decide_eq_false_iff_not, beq_eq_false_iff_ne, ne_eq]
  omega

/-- A text which is one token. -/
theorem scan_whole {c : Char} {rest : List Char} {m : Match} (hblank : isBlank c = false)
    (h : scanToken 0 (c :: rest) = some m) (hlength : m.length = (c :: rest).length) :
    scan 0 (c :: rest) = ⟨[⟨m.kind, 0, m.length⟩], m.faults⟩ := by
  have hdrop : rest.drop (m.length - 1) = [] := by
    rw [hlength, List.length_cons, Nat.add_sub_cancel, List.drop_length]
  rw [scan, if_neg (Bool.eq_false_iff.1 hblank), h]
  dsimp only
  rw [hdrop, scan, List.append_nil, Nat.zero_add]

/-- A string up to the end of a text is its only token, and only numbers of no char are reported. -/
theorem scan_string {tag : Option (List Char)} (htag : ∀ word ∈ tag, IsWord word)
    {body : List Char} {parts : List StringPart}
    (hbody : StringBody ((tag.getD []).length + 1) body parts) :
    let text := tag.getD [] ++ '\x22' :: body ++ ['\x22']
    let token : Token := ⟨.literal (.string ⟨tag.map String.ofList, parts⟩), ⟨0, text.length⟩⟩
    scan 0 text = ⟨[token], token.badEscapes.map .invalidCodePoint⟩ := by
  intro text token
  have hrule : TokenRule 0 text [] token.kind := by
    refine .string htag ?_
    rwa [Nat.zero_add]
  obtain ⟨m, hm, hbeats⟩ := scanToken_beats hrule
  rw [List.append_nil] at hm
  obtain ⟨hlength, hkind⟩ := hbeats.resolve_left (Nat.not_lt.2 (scanToken_length hm).2)
  have hfaults : m.faults = token.badEscapes.map .invalidCodePoint := by
    rcases scanToken_faults hm with ⟨-, hfaults, -⟩ | ⟨hopen, -⟩
    · rw [hfaults, Token.badEscapes, hkind]
      rfl
    · cases hopen with
      | intro hcomment _ => cases hkind.symm.trans hcomment
  obtain ⟨c, rest, htext, hblank⟩ : ∃ c rest, text = c :: rest ∧ isBlank c = false := by
    cases tag with
    | none => exact ⟨_, _, rfl, by decide⟩
    | some word =>
      obtain ⟨c, more, rfl, hc, -⟩ := htag word rfl
      exact ⟨c, _, rfl, isBlank_of_isWordStart hc⟩
  rw [htext] at hm
  have hscan := scan_whole hblank hm (hlength.symm.trans (congrArg List.length htext))
  rw [htext, hscan, hfaults, hkind, ← hlength]

/-- Only reports of skipped chars are joined. -/
theorem joinRuns_invalidCodePoint (extents : List Extent) :
    joinRuns (extents.map .invalidCodePoint) = extents.map .invalidCodePoint := by
  induction extents with
  | nil => rfl
  | cons e rest ih =>
    rw [List.map_cons, joinRuns, ih]
    exact fun _ h => by cases h

/-- **Strings are decoded exactly.**  A string is spelled with any pieces between its quotes, in any
number, and may have a tag in front.  It is one token, whose value are the chars that the pieces
stand for.  There is one report for each number which is of no char, and no other report. -/
theorem lex_strings (tag : Option (List Char)) (htag : ∀ word ∈ tag, IsWord word)
    (pieces : List StringPiece) (id : UInt16) :
    let text := tag.getD [] ++ '\x22' :: pieces.flatMap StringPiece.written ++ ['\x22']
    let bad := badCodes ((tag.getD []).length + 1) pieces
    bad.length = pieces.countP StringPiece.isBad ∧
      ∃ lit, lit.tag = tag.map String.ofList ∧
        lit.value = String.ofList (pieces.map StringPiece.char) ∧
        lex (String.ofList text) id =
          ([⟨.literal (.string lit), ⟨0, text.length⟩⟩],
            bad.map fun e => .located (.simple "escape sequence") (e.inSource id) lexicalCode
              .lexer) := by
  intro text bad
  refine ⟨length_badCodes pieces _, ?_⟩
  obtain ⟨parts, hparts⟩ := spelled_parts pieces ((tag.getD []).length + 1)
  refine ⟨⟨tag.map String.ofList, parts⟩, rfl, ?_, ?_⟩
  · rw [StringLit.value, ← hparts.value, ← String.toList_inj, String.toList_ofList,
      String.toList_join, List.flatMap_map]
  · rw [lex, String.toList_ofList, scan_string htag hparts.body, Token.badEscapes]
    dsimp only
    rw [hparts.invalid, joinRuns_invalidCodePoint, List.map_map]
    rfl

/-- A tagged string: a byte in front of one more digit, a number with zeros in front, that of a
surrogate, and one that is too large for a machine word. -/
theorem lex_strings_numbers :
    ∃ lit, lit.tag = some "c" ∧ lit.value = "é\nA1😀\uFFFD\uFFFD" ∧
      lex "c\"é\\n\\x411\\u\x7b0001F600\x7d\\u\x7bD800\x7d\\u\x7b100000041\x7d\"" 1 =
        ([⟨.literal (.string lit), ⟨0, 44⟩⟩],
          [.located (.simple "escape sequence") (Extent.inSource ⟨23, 30⟩ 1) lexicalCode .lexer,
            .located (.simple "escape sequence") (Extent.inSource ⟨31, 43⟩ 1) lexicalCode
              .lexer]) := by
  have hword : ∀ word ∈ some ['c'], IsWord word := by
    rintro _ ⟨⟩
    exact ⟨'c', [], rfl, by decide, by simp⟩
  obtain ⟨-, lit, htag, hvalue, hlex⟩ := lex_strings (some ['c']) hword
    [.raw 'é' (by decide), .letter ('n', '\n') (by decide),
      .byte ⟨'4', by decide⟩ ⟨'1', by decide⟩, .raw '1' (by decide),
      .code ("0001F600".toList.attachWith _ (List.all_eq_true.1 (by decide))) (by decide),
      .code ("D800".toList.attachWith _ (List.all_eq_true.1 (by decide))) (by decide),
      .code ("100000041".toList.attachWith _ (List.all_eq_true.1 (by decide))) (by decide)] 1
  exact ⟨lit, htag, hvalue.trans (by decide +kernel), hlex⟩

end LunSyntax
