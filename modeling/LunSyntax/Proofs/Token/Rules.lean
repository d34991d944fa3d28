import LunSyntax.Proofs.Text.Digits
import LunSyntax.Token.Lexer

/-!
# The rules of tokens

What each rule of the lexer takes from the head of a text, and what it finds wrong there.

* `scanToken_length`: a token has at least one char, and no more than the text has;
* `scanToken_faults`: the faults inside a token can be told from the token alone: codes of no char
  in the escapes of a string (`Token.badEscapes`) and block comments which are never closed
  (`Unclosed`).
-/

set_option autoImplicit false

namespace LunSyntax

/-! ## Extents -/

/-- Whether an offset is in an extent. -/
def Extent.Holds (e : Extent) (i : Nat) : Prop := e.start ≤ i ∧ i < e.stop

/-- Extents which are not empty and stand one after the other between two offsets. -/
inductive InOrder (hi : Nat) : Nat → List Extent → Prop
  | nil {lo : Nat} : lo ≤ hi → InOrder hi lo []
  | cons {lo : Nat} {e : Extent} {es : List Extent} :
    lo ≤ e.start → e.start < e.stop → InOrder hi e.stop es → InOrder hi lo (e :: es)

namespace InOrder

variable {hi lo mid : Nat} {e : Extent} {es fs : List Extent}

theorem le (h : InOrder hi lo es) : lo ≤ hi := by
  induction h with
  | nil h => exact h
  | cons _ _ _ ih => omega

theorem from_lower (h : InOrder hi mid es) (hle : lo ≤ mid) : InOrder hi lo es := by
  cases h with
  | nil h => exact .nil (by omega)
  | cons h1 h2 h3 => exact .cons (by omega) h2 h3

theorem append (h : InOrder mid lo es) (h' : InOrder hi mid fs) : InOrder hi lo (es ++ fs) := by
  induction h with
  | nil h => exact h'.from_lower h
  | cons h1 h2 _ ih => exact .cons h1 h2 ih

theorem to_upper (h : InOrder mid lo es) (hle : mid ≤ hi) : InOrder hi lo es := by
  rw [← List.append_nil es]
  exact h.append (.nil hle)

theorem bounds (h : InOrder hi lo es) (he : e ∈ es) :
    lo ≤ e.start ∧ e.start < e.stop ∧ e.stop ≤ hi := by
  induction h with
  | nil => cases he
  | cons h1 h2 h3 ih =>
    rcases List.mem_cons.1 he with rfl | he
    · exact ⟨h1, h2, h3.le⟩
    · have := ih he
      omega

theorem pairwise (h : InOrder hi lo es) : es.Pairwise fun a b => a.stop ≤ b.start := by
  induction h with
  | nil => exact .nil
  | cons _ _ h3 ih => exact .cons (fun b hb => (h3.bounds hb).1) ih

end InOrder

/-! ## Faults of tokens -/

/-- Where a fault is. -/
def LexicalFault.extent : LexicalFault → Extent
  | unexpected extent | invalidCodePoint extent | unterminatedComment extent => extent

/-- The code in an escape sequence of the form `\u{…}`. -/
def unicodeCode? : List Char → Option Nat
  | '\\' :: 'u' :: '{' :: rest => some (digitsValue 16 0 rest.dropLast)
  | _ => none

/-- Whether an escape sequence has a code which is of no char. -/
def isBadCode (raw : List Char) : Bool :=
  (unicodeCode? raw).any fun code => !decide code.isValidChar

/-- Whether a part of a string is an escape sequence whose code is of no char. -/
def StringPart.isInvalid : StringPart → Bool
  | content _ _ => false
  | escape raw _ _ => isBadCode raw.toList

/-- Where the escapes of a string are whose codes are of no char.  The backslash is not marked. -/
def Token.badEscapes (t : Token) : List Extent :=
  match t.kind with
  | .literal (.string lit) =>
    (lit.parts.filter StringPart.isInvalid).map fun part =>
      ⟨part.extent.start + 1, part.extent.stop⟩
  | _ => []

/-- The text of a block comment which is never closed. -/
def Unclosed (text : String) : Prop :=
  ∃ body, text.toList = '/' :: '*' :: body ∧ ¬ ['*', '/'] <:+: body

/-- The extent of a token which is an open block comment. -/
inductive Token.OpenComment (t : Token) : Prop
  | intro {text : String} : t.kind = .comment text → Unclosed text → Token.OpenComment t

/-! ## Prefixes -/

theorem word?_starts {cs word : List Char} (h : word? cs = some word) :
    word ≠ [] ∧ word <+: cs := by
  unfold word? at h
  split at h
  · split at h
    · cases h
      exact ⟨by simp, List.prefix_cons_iff.2 (.inr ⟨_, rfl, List.takeWhile_prefix _⟩)⟩
    · cases h
  · cases h

theorem lineCommentLength_le (cs : List Char) : lineCommentLength cs ≤ cs.length := by
  fun_induction lineCommentLength cs <;> simp only [List.length_cons, List.length_nil] <;> omega

theorem blockCommentLength?_le {cs : List Char} {n : Nat} (h : blockCommentLength? cs = some n) :
    n ≤ cs.length := by
  fun_induction blockCommentLength? cs generalizing n with
  | case1 rest =>
    cases h
    simp
  | case2 c rest hne ih =>
    obtain ⟨m, hm, rfl⟩ := Option.map_eq_some_iff.1 h
    have := ih hm
    simp only [List.length_cons]
    omega
  | case3 => cases h

/-- A block comment ends with its first closing. -/
theorem suffix_of_blockCommentLength? {cs : List Char} {n : Nat}
    (h : blockCommentLength? cs = some n) : ['*', '/'] <:+ cs.take n := by
  fun_induction blockCommentLength? cs generalizing n with
  | case1 rest =>
    cases h
    exact List.suffix_refl _
  | case2 c rest hne ih =>
    obtain ⟨m, hm, rfl⟩ := Option.map_eq_some_iff.1 h
    rw [List.take_succ_cons]
    exact (ih hm).trans (List.suffix_cons _ _)
  | case3 => cases h

theorem not_infix_of_blockCommentLength? {cs : List Char} (h : blockCommentLength? cs = none) :
    ¬ ['*', '/'] <:+: cs := by
  fun_induction blockCommentLength? cs with
  | case1 rest => cases h
  | case2 c rest hne ih =>
    intro hin
    rcases List.infix_cons_iff.1 hin with hpre | hin
    · obtain ⟨after, hafter⟩ := hpre
      rw [List.cons_append, List.cons_append, List.nil_append, List.cons.injEq] at hafter
      exact hne after hafter.1.symm hafter.2.symm
    · exact ih (Option.map_eq_none_iff.1 h) hin
  | case3 => simp

/-! ## Comments -/

theorem scanComment_length {offset : Nat} {cs : List Char} {m : Match}
    (h : scanComment offset cs = some m) : 1 ≤ m.length ∧ m.length ≤ cs.length := by
  unfold scanComment at h
  split at h
  · rename_i rest
    cases h
    have := lineCommentLength_le rest
    simp only [List.length_cons]
    omega
  · rename_i rest
    split at h
    · rename_i n hn
      cases h
      have := blockCommentLength?_le hn
      simp only [List.length_cons]
      omega
    · cases h
      simp
  · cases h

/-- What a token reports: an open comment itself, any other token its bad escapes. -/
def Match.FaultsOf (offset : Nat) (cs : List Char) (m : Match) : Prop :=
  let t : Token := ⟨m.kind, offset, offset + m.length⟩
  ¬ t.OpenComment ∧ m.faults = t.badEscapes.map .invalidCodePoint ∧
      InOrder t.extent.stop t.extent.start t.badEscapes ∨
    t.OpenComment ∧ m.faults = [.unterminatedComment t.extent] ∧ m.length = cs.length

theorem not_openComment {t : Token} (h : ∀ text, t.kind ≠ .comment text) : ¬ t.OpenComment := by
  rintro ⟨hk, -⟩
  exact h _ hk

theorem scanComment_faults {offset : Nat} {cs : List Char} {m : Match}
    (h : scanComment offset cs = some m) : m.FaultsOf offset cs := by
  unfold scanComment at h
  split at h
  · rename_i rest
    cases h
    refine .inl ⟨?_, rfl, .nil (Nat.le_add_right _ _)⟩
    rintro ⟨hk, body, hbody, -⟩
    cases hk
    simp [List.take_succ_cons] at hbody
  · rename_i rest
    split at h
    · rename_i n hn
      cases h
      refine .inl ⟨?_, rfl, .nil (Nat.le_add_right _ _)⟩
      rintro ⟨hk, body, hbody, hopen⟩
      cases hk
      simp only [String.toList_ofList, List.take_succ_cons, List.cons.injEq, true_and] at hbody
      exact hopen (hbody ▸ (suffix_of_blockCommentLength? hn).isInfix)
    · rename_i hn
      cases h
      refine .inr ⟨.intro rfl ⟨rest, ?_, not_infix_of_blockCommentLength? hn⟩, rfl, rfl⟩
      exact String.toList_ofList
  · cases h

/-! ## Strings -/

/-- A code is of the char whose number its digits stand for, if there is one. -/
theorem charOfCode?_eq {digits : List Char} (hd : ∀ c ∈ digits, isHexDigit c = true) :
    charOfCode? digits =
      if (digitsValue 16 0 digits).isValidChar then some (Char.ofNat (digitsValue 16 0 digits))
      else none := by
  unfold charOfCode?
  rw [readDigits_eq (by omega) hd (by omega)]
  by_cases hle : digitsValue 16 0 digits ≤ 0xFFFFFFFF
  · rw [if_pos hle]
    dsimp only
    by_cases hv : (digitsValue 16 0 digits).isValidChar
    · rw [dif_pos hv, if_pos hv, Char.ofNat, dif_pos hv]
    · rw [dif_neg hv, if_neg hv]
  · have hlarge : ¬ (digitsValue 16 0 digits).isValidChar := by
      rintro (h | h) <;> omega
    rw [if_neg hle, if_neg hlarge]

theorem charOfCode?_eq_none {digits : List Char} (hd : ∀ c ∈ digits, isHexDigit c = true) :
    charOfCode? digits = none ↔ ¬ (digitsValue 16 0 digits).isValidChar := by
  rw [charOfCode?_eq hd]
  simp only [ite_eq_right_iff, reduceCtorEq, imp_false]

theorem digitOf?_lt {radix d : Nat} {c : Char} (h : digitOf? radix c = some d) : d < radix := by
  simpa using (Option.filter_eq_some_iff.1 h).2

/-- Two hexadecimal digits are always the code of a char. -/
theorem charOfCode?_two {a b : Char} (ha : isHexDigit a = true) (hb : isHexDigit b = true) :
    charOfCode? [a, b] ≠ none := by
  have hd : ∀ c ∈ [a, b], isHexDigit c = true := by simp [ha, hb]
  rw [ne_eq, charOfCode?_eq_none hd]
  obtain ⟨x, hx⟩ := Option.isSome_iff_exists.1 ha
  obtain ⟨y, hy⟩ := Option.isSome_iff_exists.1 hb
  have hval : digitsValue 16 0 [a, b] = x * 16 + y := by
    simp [digitsValue, hx, hy]
  have hxlt := digitOf?_lt hx
  have hylt := digitOf?_lt hy
  rw [hval]
  exact fun hv => hv (.inl (by omega))

/-- A piece stands at the head of a text, and has no value iff its code is of no char. -/
structure Piece.FitsHead (piece : Piece) (cs : List Char) : Prop where
  isPrefix : piece.chars <+: cs
  ne_nil : piece.chars ≠ []
  invalid : ∀ raw value, piece = .escape raw value → 2 ≤ raw.length ∧
    (value = none ↔ isBadCode raw = true)

theorem escape?_fits {rest : List Char} {piece : Piece} (h : escape? rest = some piece) :
    piece.FitsHead ('\\' :: rest) := by
  unfold escape? at h
  split at h
  · rename_i a b rest'
    split at h
    · rename_i hhex
      cases h
      rw [Bool.and_eq_true] at hhex
      refine ⟨⟨rest', rfl⟩, by simp [Piece.chars], ?_⟩
      rintro raw value heq
      cases heq
      refine ⟨by simp, ?_⟩
      simp [charOfCode?_two hhex.1 hhex.2, isBadCode, unicodeCode?]
    · cases h
  · rename_i rest'
    dsimp only at h
    split at h
    · cases h
    · split at h
      · rename_i after hdrop
        cases h
        have hdigits : ∀ c ∈ rest'.takeWhile isHexDigit, isHexDigit c = true :=
          fun c hc => List.all_eq_true.1 List.all_takeWhile c hc
        refine ⟨⟨after, ?_⟩, by simp [Piece.chars], ?_⟩
        · have hsplit := List.prefix_iff_eq_append.1 (List.takeWhile_prefix isHexDigit (l := rest'))
          rw [hdrop] at hsplit
          simpa [Piece.chars] using hsplit
        · rintro raw value heq
          cases heq
          refine ⟨by simp, ?_⟩
          rw [charOfCode?_eq_none hdigits]
          simp only [isBadCode, List.cons_append, unicodeCode?, List.dropLast_concat,
            Option.any_some, Bool.not_eq_true', decide_eq_false_iff_not]
      · cases h
  · rename_i c rest' hne hne'
    obtain ⟨v, hv, rfl⟩ := Option.map_eq_some_iff.1 h
    refine ⟨⟨rest', rfl⟩, by simp [Piece.chars], ?_⟩
    rintro raw value heq
    cases heq
    refine ⟨by simp, ?_⟩
    simp [isBadCode, unicodeCode?]
  · cases h

theorem piece?_fits {c : Char} {rest : List Char} {piece : Piece}
    (h : piece? c rest = some piece) : piece.FitsHead (c :: rest) := by
  unfold piece? at h
  split at h
  · rename_i hc
    rw [eq_of_beq hc]
    exact escape?_fits h
  · split at h
    · cases h
      refine ⟨?_, by simp [Piece.chars], ?_⟩
      · exact List.prefix_cons_iff.2 (.inr ⟨_, rfl, List.takeWhile_prefix _⟩)
      · rintro raw value heq
        cases heq
    · cases h

/-- What is left of a text after a piece at its head. -/
theorem drop_piece {c : Char} {rest chars tail : List Char} (hne : chars ≠ [])
    (h : chars ++ tail = c :: rest) : rest.drop (chars.length - 1) = tail := by
  cases chars with
  | nil => exact absurd rfl hne
  | cons x xs =>
    obtain ⟨rfl, rfl⟩ := List.cons.inj h
    simp

/-- The pieces of a text and what follows them make up the text. -/
theorem pieces_append (cs : List Char) :
    (pieces cs).1.flatMap Piece.chars ++ (pieces cs).2 = cs := by
  fun_induction pieces cs with
  | case1 => rfl
  | case2 c rest piece hpiece more after hmore ih =>
    obtain ⟨tail, htail⟩ := (piece?_fits hpiece).isPrefix
    rw [hmore, drop_piece (piece?_fits hpiece).ne_nil htail] at ih
    rw [List.flatMap_cons, List.append_assoc, ih, htail]
  | case3 c rest hpiece => rfl

theorem pieces_fits (cs : List Char) :
    ∀ piece ∈ (pieces cs).1, ∃ text, piece.FitsHead text := by
  fun_induction pieces cs with
  | case1 => simp
  | case2 c rest piece hpiece more after hmore ih =>
    rw [hmore] at ih
    rintro p (_ | ⟨_, hp⟩)
    · exact ⟨_, piece?_fits hpiece⟩
    · exact ih p hp
  | case3 c rest hpiece => simp

/-- The escapes of a string whose codes are of no char are those of its faults. -/
theorem pieceFaults_eq {found : List Piece} (hf : ∀ p ∈ found, ∃ text, p.FitsHead text) :
    ∀ start, pieceFaults start found =
      (((placePieces start found).filter StringPart.isInvalid).map fun part =>
        (⟨part.extent.start + 1, part.extent.stop⟩ : Extent)).map .invalidCodePoint := by
  induction found with
  | nil => exact fun start => rfl
  | cons piece rest ih =>
    intro start
    have ih := ih fun p hp => hf p (by simp [hp])
    obtain ⟨text, hfit⟩ := hf piece (by simp)
    cases piece with
    | content text => simp [pieceFaults, placePieces, StringPart.isInvalid, Piece.chars, ih]
    | escape raw value =>
      have hvalue := (hfit.invalid raw value rfl).2
      cases value with
      | none =>
        have hbad : isBadCode raw = true := hvalue.1 rfl
        simp [pieceFaults, placePieces, StringPart.isInvalid, StringPart.extent, hbad, ih]
      | some value =>
        have hgood : isBadCode raw = false := by
          simpa using mt hvalue.2 (by simp)
        simp [pieceFaults, placePieces, StringPart.isInvalid, Piece.chars, hgood, ih]

/-- The faults of pieces stand one after the other. -/
theorem pieceFaults_inOrder {found : List Piece} (hf : ∀ p ∈ found, ∃ text, p.FitsHead text) :
    ∀ start, InOrder (start + (found.flatMap Piece.chars).length) start
      ((pieceFaults start found).map LexicalFault.extent) := by
  induction found with
  | nil => exact fun start => .nil (Nat.le_refl _)
  | cons piece rest ih =>
    intro start
    have ih := ih fun p hp => hf p (by simp [hp])
    obtain ⟨text, hfit⟩ := hf piece (by simp)
    rw [List.flatMap_cons, List.length_append, ← Nat.add_assoc]
    cases piece with
    | content text =>
      exact (ih _).from_lower (Nat.le_add_right _ _)
    | escape raw value =>
      have hlen := (hfit.invalid raw value rfl).1
      cases value with
      | none => exact .cons (Nat.le_succ _) (by simp [LexicalFault.extent]; omega) (ih _)
      | some value => exact (ih _).from_lower (Nat.le_add_right _ _)

theorem scanString_length {offset : Nat} {cs : List Char} {m : Match}
    (h : scanString offset cs = some m) : 1 ≤ m.length ∧ m.length ≤ cs.length := by
  unfold scanString at h
  dsimp only at h
  split at h
  · rename_i body hdrop
    split at h
    · rename_i found after hpieces
      cases h
      have hbody := pieces_append body
      rw [hpieces] at hbody
      have hlen := congrArg List.length hbody
      have hcs := congrArg List.length hdrop
      simp only [List.length_append, List.length_cons, List.length_drop] at hlen hcs
      dsimp only
      omega
    · cases h
  · cases h

theorem scanString_faults {offset : Nat} {cs : List Char} {m : Match}
    (h : scanString offset cs = some m) : m.FaultsOf offset cs := by
  unfold scanString at h
  dsimp only at h
  split at h
  · rename_i body hdrop
    split at h
    · rename_i found after hpieces
      cases h
      have hfits := pieces_fits body
      rw [hpieces] at hfits
      have heq := pieceFaults_eq hfits (offset + ((word? cs).getD []).length + 1)
      have hord := pieceFaults_inOrder hfits (offset + ((word? cs).getD []).length + 1)
      rw [heq, List.map_map, List.map_id''
        (by intro; rfl : ∀ e, (LexicalFault.extent ∘ LexicalFault.invalidCodePoint) e = e)] at hord
      refine .inl ⟨not_openComment (by simp), heq, (hord.from_lower ?_).to_upper ?_⟩
      · dsimp only
        omega
      · dsimp only
        omega
    · cases h
  · cases h

/-! ## Integers -/

theorem integerDigits?_plain_length {c : Char} {rest digits : List Char} {radix mark : Nat}
    (h : integerDigits?.plain c rest = some (radix, mark, digits)) :
    1 ≤ digits.length ∧ mark + digits.length ≤ rest.length + 1 := by
  unfold integerDigits?.plain at h
  split at h
  · cases h
    have := (List.takeWhile_prefix (fun c => c.isDigit || c == '_') (l := rest)).length_le
    simp only [List.length_cons]
    omega
  · cases h

theorem integerDigits?_marked_length {radix mark r : Nat} {isDigit : Char → Bool}
    {letter : Char} {rest digits : List Char}
    (h : integerDigits?.marked r isDigit letter rest = some (radix, mark, digits)) :
    1 ≤ digits.length ∧ mark + digits.length ≤ rest.length + 2 := by
  unfold integerDigits?.marked at h
  dsimp only at h
  split at h
  · exact integerDigits?_plain_length h
  · rename_i hne
    cases h
    have := (List.takeWhile_prefix isDigit (l := rest)).length_le
    have := List.length_pos_iff.2 (by simpa using hne : rest.takeWhile isDigit ≠ [])
    omega

theorem integerDigits?_length {cs digits : List Char} {radix mark : Nat}
    (h : integerDigits? cs = some (radix, mark, digits)) :
    1 ≤ digits.length ∧ mark + digits.length ≤ cs.length := by
  unfold integerDigits? at h
  split at h
  · exact integerDigits?_marked_length h
  · exact integerDigits?_marked_length h
  · exact integerDigits?_marked_length h
  · exact integerDigits?_plain_length h
  · cases h

theorem integerTag?_length {cs tag : List Char} (h : integerTag? cs = some tag) :
    tag.length + 1 ≤ cs.length := by
  unfold integerTag? at h
  split at h
  · rename_i rest
    dsimp only at h
    split at h
    · cases h
    · cases h
      have := (List.takeWhile_prefix isWordChar (l := rest)).length_le
      simp only [List.length_cons]
      omega
  · cases h

theorem scanInteger_length {cs : List Char} {m : Match} (h : scanInteger cs = some m) :
    1 ≤ m.length ∧ m.length ≤ cs.length := by
  obtain ⟨⟨radix, mark, digits⟩, hd, rfl⟩ := Option.map_eq_some_iff.1 h
  have hlen := integerDigits?_length hd
  dsimp only
  split
  · rename_i tag htag
    have := integerTag?_length htag
    rw [List.length_drop] at this
    omega
  · omega

/-! ## Tokens -/

theorem scanDigraph_length {cs : List Char} {m : Match} (h : scanDigraph cs = some m) :
    1 ≤ m.length ∧ m.length ≤ cs.length := by
  unfold scanDigraph at h
  split at h
  · obtain ⟨d, -, rfl⟩ := Option.map_eq_some_iff.1 h
    simp
  · cases h

theorem scanControl_length {cs : List Char} {m : Match} (h : scanControl cs = some m) :
    1 ≤ m.length ∧ m.length ≤ cs.length := by
  unfold scanControl at h
  split at h
  · split at h
    · cases h
      simp
    · cases h
  · cases h

theorem scanWord_length {cs : List Char} {m : Match} (h : scanWord cs = some m) :
    1 ≤ m.length ∧ m.length ≤ cs.length := by
  obtain ⟨word, hword, rfl⟩ := Option.map_eq_some_iff.1 h
  obtain ⟨hne, hpre⟩ := word?_starts hword
  exact ⟨List.length_pos_iff.2 hne, hpre.length_le⟩

/-- The rules, one of which has made a token. -/
theorem scanToken_cases {offset : Nat} {cs : List Char} {m : Match}
    (h : scanToken offset cs = some m) :
    scanComment offset cs = some m ∨ scanDigraph cs = some m ∨ scanString offset cs = some m ∨
      scanInteger cs = some m ∨ scanControl cs = some m ∨ scanWord cs = some m := by
  simp only [scanToken, Option.orElse_eq_orElse, Option.orElse_eq_or, Option.or_eq_some_iff] at h
  rcases h with h | ⟨-, h | ⟨-, h | ⟨-, h | ⟨-, h | ⟨-, h⟩⟩⟩⟩⟩ <;> simp [h]

/-- **A token has at least one char, and no more than the text has.** -/
theorem scanToken_length {offset : Nat} {cs : List Char} {m : Match}
    (h : scanToken offset cs = some m) : 1 ≤ m.length ∧ m.length ≤ cs.length := by
  rcases scanToken_cases h with h | h | h | h | h | h
  · exact scanComment_length h
  · exact scanDigraph_length h
  · exact scanString_length h
  · exact scanInteger_length h
  · exact scanControl_length h
  · exact scanWord_length h

/-- **The faults inside a token can be told from it.** -/
theorem scanToken_faults {offset : Nat} {cs : List Char} {m : Match}
    (h : scanToken offset cs = some m) : m.FaultsOf offset cs := by
  rcases scanToken_cases h with h | h | h | h | h | h
  · exact scanComment_faults h
  · unfold scanDigraph at h
    split at h
    · obtain ⟨d, -, rfl⟩ := Option.map_eq_some_iff.1 h
      exact .inl ⟨not_openComment (by simp), rfl, .nil (Nat.le_add_right _ _)⟩
    · cases h
  · exact scanString_faults h
  · obtain ⟨⟨radix, mark, digits⟩, -, rfl⟩ := Option.map_eq_some_iff.1 h
    exact .inl ⟨not_openComment (by simp), rfl, .nil (Nat.le_add_right _ _)⟩
  · unfold scanControl at h
    split at h
    · split at h
      · cases h
        exact .inl ⟨not_openComment (by simp), rfl, .nil (Nat.le_add_right _ _)⟩
      · cases h
    · cases h
  · obtain ⟨word, -, rfl⟩ := Option.map_eq_some_iff.1 h
    have hnone : Token.badEscapes ⟨if isKeyword (String.ofList word) then
        .keyword (String.ofList word) else .ident (String.ofList word), offset,
        offset + word.length⟩ = [] := by
      split <;> rfl
    refine .inl ⟨not_openComment ?_, ?_, ?_⟩
    · intro text hk
      dsimp only at hk
      split at hk <;> cases hk
    · rw [hnone]
      rfl
    · rw [hnone]
      exact .nil (Nat.le_add_right _ _)

end LunSyntax
