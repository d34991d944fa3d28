import LunSyntax.Proofs.Token.Lexemes

/-!
# The texts of tokens

The rules of the lexer are tried one after the other, and the first one that fits is taken.  Here
the tokens are described without that order, by what their texts look like.

* `TokenRule`: the texts of tokens, one constructor for each kind of them;
* `scanToken_fits`: what the lexer takes from the head of a text is a token.
-/

set_option autoImplicit false

namespace LunSyntax

/-! ## Texts of tokens -/

/-- Identifiers, keywords included. -/
def IsWord (word : List Char) : Prop :=
  ∃ c rest, word = c :: rest ∧ isWordStart c = true ∧ ∀ c ∈ rest, isWordChar c = true

/-- Reserved words. -/
def Reserved (word : String) : Prop := word ∈ keywords ∨ ∃ type : PrimitiveType, type.text = word

/-- What follows the slashes of a line comment: a backslash takes the next char along. -/
inductive LineBody : List Char → Prop
  | nil : LineBody []
  | escaped {c : Char} {body : List Char} : LineBody body → LineBody ('\\' :: c :: body)
  | plain {c : Char} {body : List Char} :
    c ≠ '\\' → c ≠ '\n' → LineBody body → LineBody (c :: body)

/-- Escape sequences and the chars they denote. -/
inductive EscapeText : List Char → Char → Prop
  | byte {a b : Char} : isHexDigit a = true → isHexDigit b = true →
    EscapeText ['\\', 'x', a, b] ((charOfCode? [a, b]).getD '\uFFFD')
  | code {digits : List Char} : digits ≠ [] → (∀ c ∈ digits, isHexDigit c = true) →
    EscapeText ('\\' :: 'u' :: '{' :: digits ++ ['}']) ((charOfCode? digits).getD '\uFFFD')
  | simple {c value : Char} : simpleEscape? c = some value → EscapeText ['\\', c] value

/-- What stands between the quotes of a string, and the parts of it from an offset on.  Plain chars
in a row are one part. -/
inductive StringBody : Nat → List Char → List StringPart → Prop
  | nil {offset : Nat} : StringBody offset [] []
  | escape {offset : Nat} {raw body : List Char} {value : Char} {parts : List StringPart} :
    EscapeText raw value → StringBody (offset + raw.length) body parts →
      StringBody offset (raw ++ body)
        (.escape (String.ofList raw) value ⟨offset, offset + raw.length⟩ :: parts)
  | content {offset : Nat} {text body : List Char} {parts : List StringPart} :
    text ≠ [] → (∀ c ∈ text, isPlain c = true) → (∀ c ∈ body.head?, isPlain c = false) →
      StringBody (offset + text.length) body parts →
      StringBody offset (text ++ body)
        (.content (String.ofList text) ⟨offset, offset + text.length⟩ :: parts)

/-- The digits of integers in a radix. -/
inductive Numeral : Nat → List Char → Prop
  | binary {digits : List Char} : digits ≠ [] → (∀ c ∈ digits, c = '0' ∨ c = '1' ∨ c = '_') →
    Numeral 2 digits
  | octal {digits : List Char} : digits ≠ [] →
    (∀ c ∈ digits, (digitOf? 8 c).isSome = true ∨ c = '_') → Numeral 8 digits
  | hexadecimal {digits : List Char} : digits ≠ [] → (∀ c ∈ digits, isHexDigit c = true) →
    Numeral 16 digits
  | decimal {c : Char} {digits : List Char} : c.isDigit = true →
    (∀ c ∈ digits, c.isDigit = true ∨ c = '_') → Numeral 10 (c :: digits)

/-- The text of the tag of an integer. -/
def tagText : Option (List Char) → List Char
  | some tag => '\x27' :: tag
  | none => []

/-- **The tokens.**  A text at an offset, in front of the rest of a source, is a token of a kind.
Only a comment which is never closed depends on the rest: it takes all of it. -/
inductive TokenRule (offset : Nat) : List Char → List Char → TokenKind → Prop
  | lineComment {body rest : List Char} : LineBody body →
    TokenRule offset ('/' :: '/' :: body) rest (.comment (String.ofList ('/' :: '/' :: body)))
  | blockComment {body rest : List Char} : ¬ ['*', '/'] <:+: body →
    TokenRule offset ('/' :: '*' :: body ++ ['*', '/']) rest
      (.comment (String.ofList ('/' :: '*' :: body ++ ['*', '/'])))
  | openComment {body : List Char} : ¬ ['*', '/'] <:+: body →
    TokenRule offset ('/' :: '*' :: body) [] (.comment (String.ofList ('/' :: '*' :: body)))
  | digraph {rest : List Char} (d : Digraph) :
    TokenRule offset [d.first, d.second] rest (.digraph d)
  | string {tag : Option (List Char)} {body rest : List Char} {parts : List StringPart} :
    (∀ word ∈ tag, IsWord word) → StringBody (offset + (tag.getD []).length + 1) body parts →
      TokenRule offset (tag.getD [] ++ '\x22' :: body ++ ['\x22']) rest
        (.literal (.string ⟨tag.map String.ofList, parts⟩))
  | integer {radix : Nat} {digits rest : List Char} {tag : Option (List Char)} :
    Numeral radix digits → (∀ t ∈ tag, t ≠ [] ∧ ∀ c ∈ t, isWordChar c = true) →
      TokenRule offset ((IntegerLit.mark radix).toList ++ digits ++ tagText tag) rest
        (.literal (.integer ⟨radix, String.ofList digits, tag.map String.ofList⟩))
  | control {c : Char} {rest : List Char} : c ∈ controls → TokenRule offset [c] rest (.control c)
  | keyword {word rest : List Char} : IsWord word → Reserved (String.ofList word) →
    TokenRule offset word rest (.keyword (String.ofList word))
  | ident {word rest : List Char} : IsWord word → ¬ Reserved (String.ofList word) →
    TokenRule offset word rest (.ident (String.ofList word))

theorem isKeyword_iff (word : String) : isKeyword word = true ↔ Reserved word := by
  have htype : (PrimitiveType.ofText? word).isSome = true ↔ ∃ type : PrimitiveType,
      type.text = word := by
    rw [PrimitiveType.ofText?, List.find?_isSome]
    constructor
    · rintro ⟨type, -, htext⟩
      exact ⟨type, eq_of_beq htext⟩
    · rintro ⟨type, rfl⟩
      exact ⟨type, by cases type <;> decide, beq_self_eq_true _⟩
  rw [isKeyword, Bool.or_eq_true, htype, List.contains_iff_mem]
  rfl

/-! ## What is taken is a token -/

/-- A match takes a token from the head of a text. -/
def Match.Fits (offset : Nat) (cs : List Char) (m : Match) : Prop :=
  TokenRule offset (cs.take m.length) (cs.drop m.length) m.kind

theorem Match.fits_of_append {offset : Nat} {lexeme rest : List Char} {m : Match}
    (hlength : m.length = lexeme.length) (h : TokenRule offset lexeme rest m.kind) :
    m.Fits offset (lexeme ++ rest) := by
  unfold Match.Fits
  rwa [hlength, List.take_left, List.drop_left]

theorem all_takeWhile {p : Char → Bool} {cs : List Char} :
    ∀ c ∈ cs.takeWhile p, p c = true :=
  List.all_eq_true.1 List.all_takeWhile

theorem word?_isWord {cs word : List Char} (h : word? cs = some word) : IsWord word := by
  unfold word? at h
  split at h
  · split at h
    · cases h
      exact ⟨_, _, rfl, ‹_›, all_takeWhile⟩
    · cases h
  · cases h

theorem scanWord_fits {offset : Nat} {cs : List Char} {m : Match} (h : scanWord cs = some m) :
    m.Fits offset cs := by
  obtain ⟨word, hword, rfl⟩ := Option.map_eq_some_iff.1 h
  obtain ⟨rest, rfl⟩ := (word?_starts hword).2
  refine Match.fits_of_append rfl ?_
  by_cases hkey : isKeyword (String.ofList word) = true
  · simp only [hkey, if_true]
    exact .keyword (word?_isWord hword) ((isKeyword_iff _).1 hkey)
  · simp only [hkey]
    exact .ident (word?_isWord hword) (mt (isKeyword_iff _).2 hkey)

theorem take_lineCommentLength (cs : List Char) : LineBody (cs.take (lineCommentLength cs)) := by
  fun_induction lineCommentLength cs with
  | case1 c rest ih => exact .escaped ih
  | case2 => exact .nil
  | case3 => exact .nil
  | case4 c rest hescaped hlone hline ih =>
    refine .plain ?_ hline ih
    rintro rfl
    cases rest with
    | nil => exact hlone rfl rfl
    | cons c rest => exact hescaped c rest rfl rfl
  | case5 => exact .nil

/-- A block comment goes up to its first closing. -/
theorem blockCommentLength?_eq_some {cs : List Char} {n : Nat}
    (h : blockCommentLength? cs = some n) : ∃ body rest, cs = body ++ '*' :: '/' :: rest ∧
      n = body.length + 2 ∧ ¬ ['*', '/'] <:+: body := by
  fun_induction blockCommentLength? cs generalizing n with
  | case1 rest =>
    cases h
    exact ⟨[], rest, rfl, rfl, by simp⟩
  | case2 c rest hne ih =>
    obtain ⟨m, hm, rfl⟩ := Option.map_eq_some_iff.1 h
    obtain ⟨body, after, rfl, rfl, hbody⟩ := ih hm
    refine ⟨c :: body, after, rfl, rfl, fun hin => ?_⟩
    rcases List.infix_cons_iff.1 hin with ⟨tail, htail⟩ | hin
    · obtain ⟨rfl, rfl⟩ := List.cons.inj htail
      exact hne _ rfl rfl
    · exact hbody hin
  | case3 => cases h

theorem scanComment_fits {offset : Nat} {cs : List Char} {m : Match}
    (h : scanComment offset cs = some m) : m.Fits offset cs := by
  unfold scanComment at h
  split at h
  · rename_i rest
    cases h
    exact .lineComment (take_lineCommentLength rest)
  · rename_i rest
    split at h
    · rename_i n hn
      cases h
      obtain ⟨body, after, rfl, rfl, hbody⟩ := blockCommentLength?_eq_some hn
      have happend : '/' :: '*' :: (body ++ '*' :: '/' :: after) =
          ('/' :: '*' :: body ++ ['*', '/']) ++ after := by simp
      have hlength : body.length + 2 + 2 = ('/' :: '*' :: body ++ ['*', '/']).length := by simp
      rw [happend, hlength, List.take_left]
      exact Match.fits_of_append rfl (.blockComment hbody)
    · rename_i hn
      cases h
      unfold Match.Fits
      rw [List.take_length, List.drop_length]
      exact .openComment (not_infix_of_blockCommentLength? hn)
  · cases h

theorem scanDigraph_fits {offset : Nat} {cs : List Char} {m : Match}
    (h : scanDigraph cs = some m) : m.Fits offset cs := by
  unfold scanDigraph at h
  split at h
  · obtain ⟨d, hfind, rfl⟩ := Option.map_eq_some_iff.1 h
    have hd := List.find?_some hfind
    simp only [Bool.and_eq_true, beq_iff_eq] at hd
    obtain ⟨rfl, rfl⟩ := hd
    exact .digraph d
  · cases h

theorem scanControl_fits {offset : Nat} {cs : List Char} {m : Match}
    (h : scanControl cs = some m) : m.Fits offset cs := by
  unfold scanControl at h
  split at h
  · split at h
    · rename_i c rest hc
      cases h
      exact .control (List.contains_iff_mem.1 hc)
    · cases h
  · cases h

/-! ### Strings -/

/-- A piece which stands in front of other parts of a string. -/
def Piece.Leads (piece : Piece) (rest : List Char) : Prop :=
  match piece with
  | .content text =>
    text ≠ [] ∧ (∀ c ∈ text, isPlain c = true) ∧ ∀ c ∈ rest.head?, isPlain c = false
  | .escape raw value => EscapeText raw (value.getD '\uFFFD')

theorem escape?_leads {cs : List Char} {piece : Piece} (h : escape? cs = some piece)
    (rest : List Char) : piece.Leads rest := by
  unfold escape? at h
  split at h
  · split at h
    · rename_i hhex
      cases h
      rw [Bool.and_eq_true] at hhex
      exact .byte hhex.1 hhex.2
    · cases h
  · dsimp only at h
    split at h
    · cases h
    · rename_i hne
      split at h
      · cases h
        exact .code (by simpa using hne) all_takeWhile
      · cases h
  · obtain ⟨value, hvalue, rfl⟩ := Option.map_eq_some_iff.1 h
    exact .simple hvalue
  · cases h

theorem drop_length_takeWhile {p : Char → Bool} (cs : List Char) :
    cs.drop (cs.takeWhile p).length = cs.dropWhile p := by
  induction cs with
  | nil => rfl
  | cons c rest ih => by_cases hc : p c = true <;> simp [hc, ih]

theorem head?_dropWhile {p : Char → Bool} {cs : List Char} :
    ∀ c ∈ (cs.dropWhile p).head?, p c = false := by
  intro c hc
  have := List.head?_dropWhile_not p cs
  rw [hc] at this
  simpa using this

/-- The piece at the head of a text, in front of what follows it. -/
theorem piece?_leads {c : Char} {rest : List Char} {piece : Piece}
    (h : piece? c rest = some piece) : piece.Leads (rest.drop (piece.chars.length - 1)) := by
  unfold piece? at h
  split at h
  · exact escape?_leads h _
  · split at h
    · rename_i hplain
      cases h
      refine ⟨by simp, ?_, ?_⟩
      · exact List.forall_mem_cons.2 ⟨hplain, all_takeWhile⟩
      · simp only [Piece.chars, List.length_cons, Nat.add_sub_cancel, drop_length_takeWhile]
        exact head?_dropWhile
    · cases h

theorem pieces_body (cs : List Char) : ∀ offset,
    StringBody offset ((pieces cs).1.flatMap Piece.chars) (placePieces offset (pieces cs).1) := by
  fun_induction pieces cs with
  | case1 => exact fun _ => .nil
  | case2 c rest piece hpiece more after hmore ih =>
    intro offset
    have hleads := piece?_leads hpiece
    have hrest := pieces_append (rest.drop (piece.chars.length - 1))
    rw [hmore] at ih hrest
    rw [List.flatMap_cons]
    cases piece with
    | content text =>
      obtain ⟨hne, hplain, hstop⟩ := hleads
      refine .content hne hplain (fun c hc => hstop c ?_) (ih _)
      rw [← hrest, List.head?_append, hc, Option.some_or]
      rfl
    | escape raw value => exact .escape hleads (ih _)
  | case3 c rest hpiece => exact fun _ => .nil

theorem scanString_fits {offset : Nat} {cs : List Char} {m : Match}
    (h : scanString offset cs = some m) : m.Fits offset cs := by
  unfold scanString at h
  dsimp only at h
  split at h
  · rename_i body hdrop
    split at h
    · rename_i found after hpieces
      cases h
      have hfound := pieces_body body (offset + ((word? cs).getD []).length + 1)
      have hbody := pieces_append body
      have hpre : (word? cs).getD [] <+: cs := by
        cases hword : word? cs with
        | none => exact List.nil_prefix
        | some word => exact (word?_starts hword).2
      rw [hpieces] at hfound hbody
      generalize htag : word? cs = tag at *
      have hcs : cs =
          (tag.getD [] ++ '\x22' :: found.flatMap Piece.chars ++ ['\x22']) ++ after := by
        rw [List.prefix_iff_eq_append.1 hpre |>.symm, hdrop, ← hbody]
        simp
      rw [hcs]
      refine Match.fits_of_append ?_ (.string (fun word hword => word?_isWord (htag.trans hword))
        hfound)
      simp only [List.length_append, List.length_cons, List.length_nil]
      omega
    · cases h
  · cases h

/-! ### Integers -/

theorem integerDigits?_numeral {cs digits : List Char} {radix mark : Nat}
    (h : integerDigits? cs = some (radix, mark, digits)) : Numeral radix digits := by
  have hplain : ∀ {c : Char} {rest : List Char},
      integerDigits?.plain c rest = some (radix, mark, digits) → Numeral radix digits := by
    intro c rest h
    unfold integerDigits?.plain at h
    split at h
    · rename_i hc
      cases h
      exact .decimal hc fun c hc => by simpa using all_takeWhile c hc
    · cases h
  have hmarked : ∀ {r : Nat} {isDigit : Char → Bool} {letter : Char} {rest : List Char},
      (∀ {ds}, ds ≠ [] → (∀ c ∈ ds, isDigit c = true) → Numeral r ds) →
      integerDigits?.marked r isDigit letter rest = some (radix, mark, digits) →
        Numeral radix digits := by
    intro r isDigit letter rest hdigits h
    unfold integerDigits?.marked at h
    dsimp only at h
    split at h
    · exact hplain h
    · rename_i hne
      cases h
      exact hdigits (by simpa using hne) all_takeWhile
  unfold integerDigits? at h
  split at h
  · exact hmarked (fun hne hds => .binary hne fun c hc => by simpa [or_assoc] using hds c hc) h
  · exact hmarked (fun hne hds => .octal hne fun c hc => by simpa using hds c hc) h
  · exact hmarked .hexadecimal h
  · exact hplain h
  · cases h

theorem integerTag?_tag {cs : List Char} : ∀ tag ∈ integerTag? cs,
    tag ≠ [] ∧ ∀ c ∈ tag, isWordChar c = true := by
  intro tag h
  unfold integerTag? at h
  split at h
  · dsimp only at h
    split at h
    · cases h
    · rename_i hne
      cases h
      exact ⟨by simpa using hne, all_takeWhile⟩
  · cases h

theorem tagText_prefix (cs : List Char) : tagText (integerTag? cs) <+: cs := by
  cases htag : integerTag? cs with
  | none => exact List.nil_prefix
  | some tag => exact integerTag?_chars htag

theorem scanInteger_fits {offset : Nat} {cs : List Char} {m : Match}
    (h : scanInteger cs = some m) : m.Fits offset cs := by
  obtain ⟨⟨radix, mark, digits⟩, hdigits, rfl⟩ := Option.map_eq_some_iff.1 h
  obtain ⟨hmark, after, rfl⟩ := integerDigits?_chars hdigits
  have hdrop : ((IntegerLit.mark radix).toList ++ digits ++ after).drop (mark + digits.length) =
      after := by
    rw [← hmark, ← List.length_append]
    exact List.drop_left
  obtain ⟨rest, hrest⟩ := tagText_prefix after
  have hsplit : (IntegerLit.mark radix).toList ++ digits ++ after =
      ((IntegerLit.mark radix).toList ++ digits ++ tagText (integerTag? after)) ++ rest := by
    rw [List.append_assoc _ _ rest, hrest]
  simp only [hdrop]
  rw [hsplit]
  refine Match.fits_of_append ?_ (.integer (integerDigits?_numeral hdigits) integerTag?_tag)
  rw [List.length_append, List.length_append, hmark]
  cases integerTag? after with
  | none => rfl
  | some tag => rfl

/-- **What the lexer takes is a token.** -/
theorem scanToken_fits {offset : Nat} {cs : List Char} {m : Match}
    (h : scanToken offset cs = some m) : m.Fits offset cs := by
  rcases scanToken_cases h with h | h | h | h | h | h
  · exact scanComment_fits h
  · exact scanDigraph_fits h
  · exact scanString_fits h
  · exact scanInteger_fits h
  · exact scanControl_fits h
  · exact scanWord_fits h

end LunSyntax
