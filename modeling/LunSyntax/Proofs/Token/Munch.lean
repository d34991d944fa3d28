import LunSyntax.Proofs.Token.Patterns

/-!
# The longest token

The lexer takes the longest text that is a token, although it takes the first rule that fits.

* `scanToken_beats`: no token is longer than the one taken, and no other token is as long;
* `Munches`: the tokens of a text, each the longest one where it stands, and the chars between them
  which start no token;
* `scan_munches`, `lex_munches`: the lexer finds these.
-/

set_option autoImplicit false

namespace LunSyntax

/-! ## What is taken is the longest token -/

/-- A match is longer than a token, or that token. -/
def Match.Beats (m : Match) (lexeme : List Char) (kind : TokenKind) : Prop :=
  lexeme.length < m.length ∨ lexeme.length = m.length ∧ m.kind = kind

/-- A rule takes a token at the head of a text, or a longer one. -/
def Beaten (found : Option Match) (lexeme : List Char) (kind : TokenKind) : Prop :=
  ∃ m, found = some m ∧ m.Beats lexeme kind

theorem IsWord.word? {word : List Char} (h : IsWord word) (rest : List Char) :
    word? (word ++ rest) = some (word ++ rest.takeWhile isWordChar) := by
  obtain ⟨c, more, rfl, hc, hmore⟩ := h
  rw [List.cons_append, LunSyntax.word?, if_pos hc, List.takeWhile_append_of_pos hmore]
  rfl

theorem scanWord_beats {word : List Char} (h : IsWord word) (rest : List Char) :
    Beaten (scanWord (word ++ rest)) word
      (if isKeyword (String.ofList word) then .keyword (String.ofList word)
        else .ident (String.ofList word)) := by
  refine ⟨_, by rw [scanWord, h.word?]; rfl, ?_⟩
  unfold Match.Beats
  cases rest.takeWhile isWordChar with
  | nil => simp
  | cons c more => simp

theorem LineBody.length_eq {body : List Char} (h : LineBody body) (rest : List Char) :
    lineCommentLength (body ++ rest) = body.length + lineCommentLength rest := by
  induction h with
  | nil => simp
  | @escaped c body _ ih =>
    rw [List.cons_append, List.cons_append, lineCommentLength, ih, List.length_cons,
      List.length_cons]
    omega
  | @plain c body hescape hline _ ih =>
    rw [List.cons_append, lineCommentLength, ih, List.length_cons]
    · omega
    · rintro _ _ rfl
      exact absurd rfl hescape
    · rintro rfl
      exact absurd rfl hescape
    · exact hline

theorem blockCommentLength?_closed {body : List Char} (h : ¬ ['*', '/'] <:+: body)
    (rest : List Char) :
    blockCommentLength? (body ++ '*' :: '/' :: rest) = some (body.length + 2) := by
  induction body with
  | nil => rfl
  | cons c body ih =>
    have hbody : ¬ ['*', '/'] <:+: body := fun hin => h (List.infix_cons_iff.2 (.inr hin))
    rw [List.cons_append, blockCommentLength?, ih hbody]
    · rfl
    · rintro after rfl hafter
      cases body with
      | nil => cases hafter
      | cons d body =>
        obtain rfl : d = '/' := (List.cons.inj hafter).1
        exact h ⟨[], body, rfl⟩

theorem blockCommentLength?_open {body : List Char} (h : ¬ ['*', '/'] <:+: body) :
    blockCommentLength? body = none := by
  cases hlength : blockCommentLength? body with
  | none => rfl
  | some n =>
    obtain ⟨inside, rest, rfl, -⟩ := blockCommentLength?_eq_some hlength
    exact absurd ⟨inside, rest, by simp⟩ h

theorem scanComment_line_beats {offset : Nat} {body : List Char} (h : LineBody body)
    (rest : List Char) : Beaten (scanComment offset ('/' :: '/' :: body ++ rest))
      ('/' :: '/' :: body) (.comment (String.ofList ('/' :: '/' :: body))) := by
  have hscan : scanComment offset ('/' :: '/' :: body ++ rest) =
      some ⟨.comment (String.ofList (('/' :: '/' :: body ++ rest).take
        (body.length + lineCommentLength rest + 2))),
        body.length + lineCommentLength rest + 2, []⟩ := by
    rw [← h.length_eq]
    rfl
  refine ⟨_, hscan, ?_⟩
  rcases Nat.eq_zero_or_pos (lineCommentLength rest) with hzero | hpos
  · refine .inr ⟨by simp [hzero], ?_⟩
    simp [hzero]
  · refine .inl ?_
    simp only [List.length_cons]
    omega

theorem scanComment_closed_beats {offset : Nat} {body : List Char} (h : ¬ ['*', '/'] <:+: body)
    (rest : List Char) :
    Beaten (scanComment offset (('/' :: '*' :: body ++ ['*', '/']) ++ rest))
      ('/' :: '*' :: body ++ ['*', '/'])
      (.comment (String.ofList ('/' :: '*' :: body ++ ['*', '/']))) := by
  have hlength : body.length + 2 + 2 = ('/' :: '*' :: body ++ ['*', '/']).length := by simp
  have hscan : scanComment offset (('/' :: '*' :: body ++ ['*', '/']) ++ rest) =
      some ⟨.comment (String.ofList ('/' :: '*' :: body ++ ['*', '/'])),
        body.length + 2 + 2, []⟩ := by
    have hopen : ('/' :: '*' :: body ++ ['*', '/']) ++ rest =
        '/' :: '*' :: (body ++ '*' :: '/' :: rest) := by simp
    have htake := @List.take_left _ ('/' :: '*' :: body ++ ['*', '/']) rest
    rw [← hlength, hopen] at htake
    rw [hopen]
    simp only [scanComment, blockCommentLength?_closed h, htake]
  exact ⟨_, hscan, .inr ⟨hlength.symm, rfl⟩⟩

theorem scanComment_open_beats {offset : Nat} {body : List Char} (h : ¬ ['*', '/'] <:+: body) :
    Beaten (scanComment offset ('/' :: '*' :: body))
      ('/' :: '*' :: body) (.comment (String.ofList ('/' :: '*' :: body))) := by
  refine ⟨_, by simp only [scanComment, blockCommentLength?_open h]; rfl, .inr ⟨rfl, rfl⟩⟩

theorem scanDigraph_beats (d : Digraph) (rest : List Char) :
    Beaten (scanDigraph (d.first :: d.second :: rest)) [d.first, d.second] (.digraph d) := by
  have hfind : Digraph.all.find? (fun e => e.first == d.first && e.second == d.second) =
      some d := by
    cases d <;> decide
  exact ⟨_, by rw [scanDigraph, hfind]; rfl, .inr ⟨rfl, rfl⟩⟩

/-! ### Strings -/

theorem isPlain_takeWhile {text : List Char} (htext : ∀ c ∈ text, isPlain c = true)
    {rest : List Char} (hrest : ∀ c ∈ rest.head?, isPlain c = false) :
    (text ++ rest).takeWhile isPlain = text := by
  rw [List.takeWhile_append_of_pos htext]
  cases rest with
  | nil => simp
  | cons c rest => simp [hrest c rfl]

/-- An escape sequence is read as it is, whatever follows. -/
theorem EscapeText.piece? {raw : List Char} {value : Char} (h : EscapeText raw value)
    (rest : List Char) : ∃ (more : List Char) (found : Option Char), raw = '\\' :: more ∧
      value = found.getD '\uFFFD' ∧
      LunSyntax.piece? '\\' (more ++ rest) = some (.escape raw found) := by
  cases h with
  | @byte a b ha hb =>
    exact ⟨['x', a, b], charOfCode? [a, b], rfl, rfl, by simp [LunSyntax.piece?, escape?, ha, hb]⟩
  | @code digits hne hdigits =>
    have htake : (digits ++ '}' :: rest).takeWhile isHexDigit = digits := by
      rw [List.takeWhile_append_of_pos hdigits, List.takeWhile_cons_of_neg (by decide),
        List.append_nil]
    refine ⟨'u' :: '{' :: digits ++ ['}'], charOfCode? digits, rfl, rfl, ?_⟩
    simp [LunSyntax.piece?, escape?, htake, hne]
  | @simple c value hvalue =>
    refine ⟨[c], some value, rfl, rfl, ?_⟩
    rw [LunSyntax.piece?, if_pos (by decide), List.singleton_append, escape?, hvalue]
    · rfl
    · rintro _ _ _ rfl
      cases hvalue
    · rintro _ rfl
      cases hvalue

/-- **What stands between the quotes of a string is read as its parts.** -/
theorem StringBody.pieces {offset : Nat} {body : List Char} {parts : List StringPart}
    (h : StringBody offset body parts) (rest : List Char) :
    ∃ found, LunSyntax.pieces (body ++ '\x22' :: rest) = (found, '\x22' :: rest) ∧
      found.flatMap Piece.chars = body ∧ placePieces offset found = parts := by
  induction h with
  | nil =>
    refine ⟨[], ?_, rfl, rfl⟩
    rw [List.nil_append, LunSyntax.pieces]
    rfl
  | @escape offset raw body value parts hraw _ ih =>
    obtain ⟨found, hfound, rfl, rfl⟩ := ih
    obtain ⟨more, value, rfl, rfl, hpiece⟩ :=
      hraw.piece? (found.flatMap Piece.chars ++ '\x22' :: rest)
    refine ⟨.escape ('\\' :: more) value :: found, ?_, rfl, rfl⟩
    rw [List.append_assoc, List.cons_append, LunSyntax.pieces, hpiece]
    simp [Piece.chars, hfound]
  | @content offset text body parts hne hplain hstop _ ih =>
    obtain ⟨found, hfound, rfl, rfl⟩ := ih
    refine ⟨.content text :: found, ?_, rfl, rfl⟩
    cases text with
    | nil => exact absurd rfl hne
    | cons c text =>
      obtain ⟨hc, htext⟩ := List.forall_mem_cons.1 hplain
      have htake : (text ++ (found.flatMap Piece.chars ++ '\x22' :: rest)).takeWhile isPlain =
          text := by
        refine isPlain_takeWhile htext fun c hc => ?_
        rw [List.head?_append] at hc
        cases hhead : (found.flatMap Piece.chars).head? with
        | none =>
          rw [hhead] at hc
          cases hc
          decide
        | some d =>
          rw [hhead] at hc
          cases hc
          exact hstop c hhead
      have hpiece : piece? c (text ++ (found.flatMap Piece.chars ++ '\x22' :: rest)) =
          some (.content (c :: text)) := by
        have hback : (c == '\\') = false := by
          rw [isPlain] at hc
          simp_all
        rw [piece?, hback, if_neg (by decide), if_pos hc, htake]
      rw [List.append_assoc, List.cons_append, LunSyntax.pieces, hpiece]
      simp [Piece.chars, hfound]

theorem scanString_beats {offset : Nat} {tag : Option (List Char)} {body : List Char}
    {parts : List StringPart} (htag : ∀ word ∈ tag, IsWord word)
    (h : StringBody (offset + (tag.getD []).length + 1) body parts) (rest : List Char) :
    Beaten (scanString offset ((tag.getD [] ++ '\x22' :: body ++ ['\x22']) ++ rest))
      (tag.getD [] ++ '\x22' :: body ++ ['\x22'])
      (.literal (.string ⟨tag.map String.ofList, parts⟩)) := by
  have hcs : (tag.getD [] ++ '\x22' :: body ++ ['\x22']) ++ rest =
      tag.getD [] ++ '\x22' :: (body ++ '\x22' :: rest) := by simp
  have hword : word? (tag.getD [] ++ '\x22' :: (body ++ '\x22' :: rest)) = tag := by
    cases tag with
    | none => rfl
    | some word =>
      rw [Option.getD_some, (htag word rfl).word?, List.takeWhile_cons_of_neg (by decide),
        List.append_nil]
  obtain ⟨found, hfound, rfl, rfl⟩ := h.pieces rest
  refine ⟨_, by rw [hcs, scanString, hword]; simp only [List.drop_left, hfound]; rfl,
    .inr ⟨?_, rfl⟩⟩
  simp only [List.length_append, List.length_cons, List.length_nil]
  omega

/-! ### Integers -/

/-- An integer without a mark is decimal; one with a mark has at least one digit after it. -/
theorem integerDigits?_cons (c : Char) (rest : List Char) :
    integerDigits? (c :: rest) = integerDigits?.plain c rest ∨
      ∃ letter after radix digits, c = '0' ∧ rest = letter :: after ∧ letter ∈ ['b', 'o', 'x'] ∧
        digits ≠ [] ∧ integerDigits? (c :: rest) = some (radix, 2, digits) := by
  have hmarked : ∀ (radix : Nat) (isDigit : Char → Bool) (letter : Char) (after : List Char),
      integerDigits?.marked radix isDigit letter after =
          integerDigits?.plain '0' (letter :: after) ∨
        ∃ digits, digits ≠ [] ∧
          integerDigits?.marked radix isDigit letter after = some (radix, 2, digits) := by
    intro radix isDigit letter after
    unfold integerDigits?.marked
    dsimp only
    split
    · exact .inl rfl
    · exact .inr ⟨_, by simp_all, rfl⟩
  unfold integerDigits?
  split
  · rename_i after heq
    cases heq
    refine (hmarked _ _ _ _).imp_right fun ⟨digits, hne, h⟩ =>
      ⟨'b', after, _, digits, rfl, rfl, ?_, hne, h⟩
    decide
  · rename_i after heq
    cases heq
    refine (hmarked _ _ _ _).imp_right fun ⟨digits, hne, h⟩ =>
      ⟨'o', after, _, digits, rfl, rfl, ?_, hne, h⟩
    decide
  · rename_i after heq
    cases heq
    refine (hmarked _ _ _ _).imp_right fun ⟨digits, hne, h⟩ =>
      ⟨'x', after, _, digits, rfl, rfl, ?_, hne, h⟩
    decide
  · rename_i heq
    cases heq
    exact .inl rfl
  · rename_i heq
    cases heq

/-- Digits go on as long as they can, and never to an apostrophe. -/
theorem takeWhile_digits {p : Char → Bool} (hp : p '\x27' = false) {digits : List Char}
    (h : ∀ c ∈ digits, p c = true) (rest : List Char) : ∃ more,
      (digits ++ rest).takeWhile p = digits ++ more ∧ (more = [] ∨ rest.head? ≠ some '\x27') := by
  refine ⟨rest.takeWhile p, List.takeWhile_append_of_pos h, ?_⟩
  cases rest with
  | nil => exact .inl rfl
  | cons c rest =>
    by_cases hc : p c = true
    · refine .inr fun hhead => ?_
      cases hhead
      rw [hp] at hc
      cases hc
    · exact .inl (List.takeWhile_cons_of_neg hc)

/-- Digits are read in front of the rest of a text, or something longer.  What is longer is so
because of the chars that follow, where there is no tag then. -/
def DigitsRead (radix : Nat) (digits rest : List Char) : Prop :=
  ∃ r k ds, integerDigits? ((IntegerLit.mark radix).toList ++ digits ++ rest) = some (r, k, ds) ∧
    ((IntegerLit.mark radix).toList.length + digits.length < k + ds.length ∧
        rest.head? ≠ some '\x27' ∨
      r = radix ∧ k = (IntegerLit.mark radix).toList.length ∧ ds = digits)

theorem digitsRead_of_append {radix : Nat} {digits rest more : List Char}
    (h : integerDigits? ((IntegerLit.mark radix).toList ++ digits ++ rest) =
      some (radix, (IntegerLit.mark radix).toList.length, digits ++ more))
    (hstop : more = [] ∨ rest.head? ≠ some '\x27') : DigitsRead radix digits rest := by
  refine ⟨_, _, _, h, ?_⟩
  cases more with
  | nil => exact .inr ⟨rfl, rfl, List.append_nil digits⟩
  | cons c more =>
    refine .inl ⟨?_, hstop.resolve_left (by simp)⟩
    simp only [List.length_append, List.length_cons]
    omega

theorem digitsRead_marked {p : Char → Bool} {radix : Nat} {digits : List Char} (letter : Char)
    (hmark : (IntegerLit.mark radix).toList = ['0', letter])
    (hscan : ∀ rest, integerDigits? ('0' :: letter :: rest) =
      integerDigits?.marked radix p letter rest)
    (hp : p '\x27' = false) (hne : digits ≠ []) (hdigits : ∀ c ∈ digits, p c = true)
    (rest : List Char) : DigitsRead radix digits rest := by
  obtain ⟨more, hmore, hstop⟩ := takeWhile_digits hp hdigits rest
  refine digitsRead_of_append ?_ hstop
  have hcs : (IntegerLit.mark radix).toList ++ digits ++ rest =
      '0' :: letter :: (digits ++ rest) := by
    simp [hmark]
  rw [hcs, hscan, integerDigits?.marked, hmark]
  simp [hmore, hne]

theorem Numeral.digitsRead {radix : Nat} {digits : List Char} (h : Numeral radix digits)
    (rest : List Char) : DigitsRead radix digits rest := by
  cases h with
  | binary hne hdigits =>
    exact digitsRead_marked 'b' rfl (fun _ => rfl) (by decide) hne
      (fun c hc => by simpa [or_assoc] using hdigits c hc) rest
  | octal hne hdigits =>
    exact digitsRead_marked 'o' rfl (fun _ => rfl) (by decide) hne
      (fun c hc => by simpa using hdigits c hc) rest
  | hexadecimal hne hdigits =>
    exact digitsRead_marked 'x' rfl (fun _ => rfl) (by decide) hne hdigits rest
  | @decimal c digits hc hdigits =>
    have hcs : (IntegerLit.mark 10).toList ++ c :: digits ++ rest = c :: (digits ++ rest) := rfl
    rcases integerDigits?_cons c (digits ++ rest) with
      hplain | ⟨letter, after, radix, ds, -, hafter, hletter, hne, hscan⟩
    · obtain ⟨more, hmore, hstop⟩ := takeWhile_digits (p := fun c => c.isDigit || c == '_')
        (by decide) (fun c hc => by simpa using hdigits c hc) rest
      refine digitsRead_of_append ?_ hstop
      rw [hcs, hplain, integerDigits?.plain, if_pos hc, hmore]
      rfl
    · -- the mark takes the zero, which is all there is of the decimal number
      have hnil : digits = [] := by
        cases digits with
        | nil => rfl
        | cons d digits =>
          obtain rfl : d = letter := (List.cons.inj hafter).1
          have hd := hdigits d List.mem_cons_self
          simp only [List.mem_cons, List.not_mem_nil, or_false] at hletter
          rcases hletter with rfl | rfl | rfl <;> exact absurd hd (by decide)
      subst hnil
      rw [List.nil_append] at hafter
      subst hafter
      refine ⟨radix, 2, ds, hscan, .inl ⟨?_, ?_⟩⟩
      · have := List.length_pos_iff.2 hne
        simp only [IntegerLit.mark, String.toList_empty, List.length_nil, List.length_cons]
        omega
      · rintro hhead
        cases hhead
        revert hletter
        decide

theorem integerTag?_some {tag : List Char} (hne : tag ≠ [])
    (htag : ∀ c ∈ tag, isWordChar c = true) (rest : List Char) :
    integerTag? ('\x27' :: (tag ++ rest)) = some (tag ++ rest.takeWhile isWordChar) := by
  rw [integerTag?, List.takeWhile_append_of_pos htag]
  simp [hne]

theorem scanInteger_beats {radix : Nat} {digits : List Char} {tag : Option (List Char)}
    (h : Numeral radix digits) (htag : ∀ t ∈ tag, t ≠ [] ∧ ∀ c ∈ t, isWordChar c = true)
    (rest : List Char) :
    Beaten (scanInteger ((IntegerLit.mark radix).toList ++ digits ++ tagText tag ++ rest))
      ((IntegerLit.mark radix).toList ++ digits ++ tagText tag)
      (.literal (.integer ⟨radix, String.ofList digits, tag.map String.ofList⟩)) := by
  obtain ⟨r, k, ds, hscan, hread⟩ := h.digitsRead (tagText tag ++ rest)
  rw [List.append_assoc _ _ rest]
  refine ⟨_, by rw [scanInteger, hscan]; rfl, ?_⟩
  unfold Match.Beats
  rw [List.length_append, List.length_append]
  rcases hread with ⟨hlonger, hhead⟩ | ⟨rfl, rfl, rfl⟩
  · -- more digits follow, so there is no tag
    cases tag with
    | none =>
      refine .inl ?_
      simp only [tagText, List.length_nil]
      omega
    | some tag => exact absurd rfl hhead
  · dsimp only
    rw [← List.length_append, List.drop_left]
    cases tag with
    | none =>
      rw [tagText, List.nil_append]
      cases integerTag? rest with
      | none => exact .inr ⟨rfl, rfl⟩
      | some more => exact .inl (by simp)
    | some tag =>
      obtain ⟨hne, hchars⟩ := htag tag rfl
      rw [tagText, List.cons_append, integerTag?_some hne hchars]
      cases rest.takeWhile isWordChar with
      | nil => exact .inr ⟨by simp, by simp⟩
      | cons c more => exact .inl (by simp)

/-! ### The choice of a rule -/

section

variable {offset : Nat} {c : Char} {cs : List Char}

theorem scanComment_eq_none (h : c ≠ '/') : scanComment offset (c :: cs) = none := by
  unfold scanComment
  split <;> simp_all

theorem scanDigraph_eq_none (h : c ∉ controls) : scanDigraph (c :: cs) = none := by
  cases cs with
  | nil => rfl
  | cons b cs =>
    rw [scanDigraph, Option.map_eq_none_iff, List.find?_eq_none]
    rintro d _ hd
    simp only [Bool.and_eq_true, beq_iff_eq] at hd
    exact h (hd.1 ▸ by cases d <;> decide)

theorem scanString_eq_none (hword : isWordStart c = false) (hquote : c ≠ '\x22') :
    scanString offset (c :: cs) = none := by
  have hnone : word? (c :: cs) = none := by simp [word?, hword]
  rw [scanString, hnone]
  simp [hquote]

theorem scanInteger_eq_none (h : c.isDigit = false) : scanInteger (c :: cs) = none := by
  rw [scanInteger, Option.map_eq_none_iff]
  rcases integerDigits?_cons c cs with hplain | ⟨_, _, _, _, rfl, _⟩
  · rw [hplain, integerDigits?.plain, if_neg (by simp [h])]
  · cases h

theorem scanControl_eq_none (h : c ∉ controls) : scanControl (c :: cs) = none := by
  rw [scanControl, if_neg]
  rwa [List.contains_iff_mem]

end

/-- Operators start neither words nor integers nor strings. -/
theorem not_mem_controls {c : Char} (h : isWordStart c = true ∨ c.isDigit = true ∨ c = '\x22') :
    c ∉ controls := by
  have hcontrols : controls.all (fun c => !isWordStart c && !c.isDigit && c != '\x22') = true := by
    decide
  intro hc
  have hplain := List.all_eq_true.1 hcontrols c hc
  simp only [Bool.and_eq_true, Bool.not_eq_true', bne_iff_ne] at hplain
  obtain ⟨⟨hword, hdigit⟩, hquote⟩ := hplain
  simp [hword, hdigit, hquote] at h

theorem isDigit_of_isWordStart {c : Char} (h : isWordStart c = true) : c.isDigit = false := by
  rcases Bool.or_eq_true_iff.1 h with halpha | hline
  · -- letters come after the digits
    have hletter : 57 < c.val.toNat := by
      rcases Bool.or_eq_true_iff.1 halpha with hupper | hlower
      · have hle := UInt32.le_iff_toNat_le.1 (of_decide_eq_true hupper).1
        exact Nat.lt_of_lt_of_le (by decide) hle
      · have hle := UInt32.le_iff_toNat_le.1 (of_decide_eq_true (Bool.and_eq_true_iff.1 hlower).1)
        exact Nat.lt_of_lt_of_le (by decide) hle
    refine Bool.eq_false_iff.2 fun hdigit => ?_
    have hle := UInt32.le_iff_toNat_le.1 (of_decide_eq_true (Bool.and_eq_true_iff.1 hdigit).2)
    exact absurd hletter (Nat.not_lt.2 hle)
  · rw [eq_of_beq hline]
    decide

theorem scanComment_two {offset : Nat} {cs : List Char} {m : Match}
    (h : scanComment offset cs = some m) : 2 ≤ m.length := by
  unfold scanComment at h
  split at h
  · cases h
    simp
  · split at h
    · cases h
      simp
    · cases h
      simp
  · cases h

theorem scanDigraph_two {cs : List Char} {m : Match} (h : scanDigraph cs = some m) :
    m.length = 2 := by
  unfold scanDigraph at h
  split at h
  · obtain ⟨d, -, rfl⟩ := Option.map_eq_some_iff.1 h
    rfl
  · cases h

theorem Numeral.head {radix : Nat} {digits : List Char} (h : Numeral radix digits)
    (rest : List Char) : ∃ c more, (IntegerLit.mark radix).toList ++ digits ++ rest = c :: more ∧
      c.isDigit = true := by
  cases h with
  | binary _ _ => exact ⟨'0', _, rfl, rfl⟩
  | octal _ _ => exact ⟨'0', _, rfl, rfl⟩
  | hexadecimal _ _ => exact ⟨'0', _, rfl, rfl⟩
  | @decimal c digits hc _ => exact ⟨c, digits ++ rest, rfl, hc⟩

/-- A string is longer than the word at its head. -/
theorem scanString_tag {offset : Nat} {cs word : List Char} {m : Match}
    (h : scanString offset cs = some m) (hword : word? cs = some word) :
    word.length < m.length := by
  unfold scanString at h
  rw [hword] at h
  dsimp only at h
  split at h
  · split at h
    · cases h
      simp only [Option.getD_some]
      omega
    · cases h
  · cases h

namespace Beaten

variable {found other : Option Match} {lexeme : List Char} {kind : TokenKind}

theorem first (h : Beaten found lexeme kind) : Beaten (found <|> other) lexeme kind := by
  obtain ⟨m, rfl, hm⟩ := h
  exact ⟨m, rfl, hm⟩

/-- A rule that comes first may take a token, if that is no shorter one. -/
theorem after (hfound : ∀ m, found = some m → m.Beats lexeme kind) (h : Beaten other lexeme kind) :
    Beaten (found <|> other) lexeme kind := by
  cases hcase : found with
  | none => exact h
  | some m => exact ⟨m, rfl, hfound m hcase⟩

theorem skip (hfound : found = none) (h : Beaten other lexeme kind) :
    Beaten (found <|> other) lexeme kind :=
  after (fun m hm => by rw [hfound] at hm; cases hm) h

end Beaten

/-- **No token is longer than the one taken**, and one that is as long is the same. -/
theorem scanToken_beats {offset : Nat} {lexeme rest : List Char} {kind : TokenKind}
    (h : TokenRule offset lexeme rest kind) :
    Beaten (scanToken offset (lexeme ++ rest)) lexeme kind := by
  have hwords : ∀ {word : List Char}, IsWord word → Beaten (scanToken offset (word ++ rest)) word
      (if isKeyword (String.ofList word) then .keyword (String.ofList word)
        else .ident (String.ofList word)) := by
    intro word hword
    have hscan := scanWord_beats hword rest
    have htag := hword.word? rest
    obtain ⟨c, more, rfl, hc, -⟩ := hword
    have hcontrol := not_mem_controls (.inl hc)
    refine .skip (scanComment_eq_none fun h => hcontrol (h ▸ by decide)) ?_
    refine .skip (scanDigraph_eq_none hcontrol) ?_
    refine .after (fun m hm => .inl ?_) ?_
    · have := scanString_tag hm htag
      rw [List.length_append] at this
      omega
    · refine .skip (scanInteger_eq_none (isDigit_of_isWordStart hc)) ?_
      exact .skip (scanControl_eq_none hcontrol) hscan
  cases h with
  | lineComment h => exact (scanComment_line_beats h rest).first
  | blockComment h => exact (scanComment_closed_beats h rest).first
  | openComment h =>
    rw [List.append_nil]
    exact (scanComment_open_beats h).first
  | digraph d =>
    refine .skip (scanComment_eq_none ?_) (scanDigraph_beats d rest).first
    cases d <;> decide
  | @string tag body _ parts htag hbody =>
    have hscan := scanString_beats htag hbody rest
    obtain ⟨c, more, hcs, hc⟩ : ∃ c more,
        tag.getD [] ++ '\x22' :: body ++ ['\x22'] ++ rest = c :: more ∧
          (isWordStart c = true ∨ c = '\x22') := by
      cases tag with
      | none => exact ⟨_, _, rfl, .inr rfl⟩
      | some word =>
        obtain ⟨c, more, rfl, hc, -⟩ := htag word rfl
        exact ⟨c, _, rfl, .inl hc⟩
    have hcontrol := not_mem_controls (hc.imp_right .inr)
    rw [hcs] at hscan ⊢
    refine .skip (scanComment_eq_none fun h => hcontrol (h ▸ by decide)) ?_
    exact .skip (scanDigraph_eq_none hcontrol) hscan.first
  | @integer radix digits _ tag hdigits htag =>
    have hscan := scanInteger_beats hdigits htag rest
    obtain ⟨c, more, hcs, hc⟩ := hdigits.head (tagText tag ++ rest)
    have hcontrol := not_mem_controls (.inr (.inl hc))
    rw [← List.append_assoc] at hcs
    rw [hcs] at hscan ⊢
    refine .skip (scanComment_eq_none fun h => hcontrol (h ▸ by decide)) ?_
    refine .skip (scanDigraph_eq_none hcontrol) ?_
    refine .skip (scanString_eq_none ?_ ?_) hscan.first
    · exact Bool.eq_false_iff.2 fun hword => by simp [isDigit_of_isWordStart hword] at hc
    · rintro rfl
      cases hc
  | @control c _ hc =>
    have hclass : isWordStart c = false ∧ c.isDigit = false ∧ c ≠ '\x22' := by
      refine ⟨?_, ?_, ?_⟩
      · exact Bool.eq_false_iff.2 fun h => not_mem_controls (.inl h) hc
      · exact Bool.eq_false_iff.2 fun h => not_mem_controls (.inr (.inl h)) hc
      · exact fun h => not_mem_controls (.inr (.inr h)) hc
    refine .after (fun m hm => .inl (scanComment_two hm)) ?_
    refine .after (fun m hm => .inl ?_) ?_
    · rw [scanDigraph_two hm]
      exact Nat.lt_succ_self 1
    · refine .skip (scanString_eq_none hclass.1 hclass.2.2) ?_
      refine .skip (scanInteger_eq_none hclass.2.1) (.first ?_)
      refine ⟨⟨.control c, 1, []⟩, ?_, .inr ⟨rfl, rfl⟩⟩
      rw [List.singleton_append, scanControl, if_pos (List.contains_iff_mem.2 hc)]
  | keyword hword hreserved =>
    have := hwords hword
    rwa [if_pos ((isKeyword_iff _).2 hreserved)] at this
  | ident hword hfree =>
    have := hwords hword
    rwa [if_neg (mt (isKeyword_iff _).1 hfree)] at this

/-! ## Sources -/

/-- A token at the head of a text which is the longest one there, and the only one as long. -/
structure LongestToken (offset : Nat) (lexeme rest : List Char) (kind : TokenKind) : Prop where
  rule : TokenRule offset lexeme rest kind
  longest : ∀ {lexeme' rest' : List Char} {kind' : TokenKind}, lexeme' ++ rest' = lexeme ++ rest →
    TokenRule offset lexeme' rest' kind' →
    lexeme'.length < lexeme.length ∨ lexeme' = lexeme ∧ kind' = kind

/-- No token is at the head of a text. -/
def NoToken (offset : Nat) (cs : List Char) : Prop :=
  ∀ (lexeme rest : List Char) (kind : TokenKind), cs = lexeme ++ rest →
    ¬ TokenRule offset lexeme rest kind

/-- **Maximal munch.**  Blanks are passed over, the longest token is taken where there is one, and
one char is skipped where there is none.  A text from an offset on has the tokens and the offsets
of skipped chars. -/
inductive Munches : Nat → List Char → List Token → List Nat → Prop
  | done {offset : Nat} : Munches offset [] [] []
  | blank {offset : Nat} {c : Char} {rest : List Char} {tokens : List Token} {skipped : List Nat} :
    isBlank c = true → Munches (offset + 1) rest tokens skipped →
      Munches offset (c :: rest) tokens skipped
  | token {offset : Nat} {c : Char} {lexeme rest : List Char} {kind : TokenKind}
    {tokens : List Token} {skipped : List Nat} :
    isBlank c = false → LongestToken offset (c :: lexeme) rest kind →
      Munches (offset + (c :: lexeme).length) rest tokens skipped →
      Munches offset (c :: lexeme ++ rest)
        (⟨kind, offset, offset + (c :: lexeme).length⟩ :: tokens) skipped
  | unknown {offset : Nat} {c : Char} {rest : List Char} {tokens : List Token}
    {skipped : List Nat} :
    isBlank c = false → NoToken offset (c :: rest) → Munches (offset + 1) rest tokens skipped →
      Munches offset (c :: rest) tokens (offset :: skipped)

theorem scanToken_longest {offset : Nat} {cs : List Char} {m : Match}
    (h : scanToken offset cs = some m) :
    LongestToken offset (cs.take m.length) (cs.drop m.length) m.kind := by
  refine ⟨scanToken_fits h, fun {lexeme rest kind} hcs hrule => ?_⟩
  rw [List.take_append_drop] at hcs
  subst hcs
  obtain ⟨m', hm', hbeats⟩ := scanToken_beats hrule
  obtain rfl : m' = m := Option.some.inj (hm'.symm.trans h)
  rw [List.length_take_of_le (scanToken_length h).2]
  refine hbeats.imp_right fun ⟨hlength, hkind⟩ => ⟨?_, hkind.symm⟩
  rw [← hlength, List.take_left]

theorem noToken_of_scanToken {offset : Nat} {cs : List Char} (h : scanToken offset cs = none) :
    NoToken offset cs := by
  rintro lexeme rest kind rfl hrule
  obtain ⟨m, hm, -⟩ := scanToken_beats hrule
  rw [h] at hm
  cases hm

/-- The offset of a char that was skipped. -/
def LexicalFault.skipped? : LexicalFault → Option Nat
  | unexpected extent => some extent.start
  | _ => none

theorem scanToken_skipped {offset : Nat} {cs : List Char} {m : Match}
    (h : scanToken offset cs = some m) : m.faults.filterMap LexicalFault.skipped? = [] := by
  rw [List.filterMap_eq_nil_iff]
  intro fault hfault
  cases fault with
  | unexpected e => exact absurd hfault (not_mem_unexpected h e)
  | invalidCodePoint e => rfl
  | unterminatedComment e => rfl

theorem scan_munches (offset : Nat) (cs : List Char) :
    Munches offset cs (scan offset cs).tokens
      ((scan offset cs).faults.filterMap LexicalFault.skipped?) := by
  fun_induction scan offset cs with
  | case1 offset => exact .done
  | case2 offset c rest hblank ih => exact .blank hblank ih
  | case3 offset c rest hblank m hm after ih =>
    obtain ⟨hpos, hle⟩ := scanToken_length hm
    have hlongest := scanToken_longest hm
    have hlength : (c :: rest.take (m.length - 1)).length = m.length := by
      rw [List.length_cons, List.length_take]
      rw [List.length_cons] at hle
      omega
    have htake : (c :: rest).take m.length = c :: rest.take (m.length - 1) := by
      rw [← Nat.sub_add_cancel hpos]
      rfl
    rw [htake, ← (drop_token hm).1] at hlongest
    have hstep := Munches.token (by simpa using hblank) hlongest (by rw [hlength]; exact ih)
    rw [List.cons_append, List.take_append_drop, hlength] at hstep
    rw [List.filterMap_append, scanToken_skipped hm, List.nil_append]
    exact hstep
  | case4 offset c rest hblank hm after ih =>
    exact .unknown (by simpa using hblank) (noToken_of_scanToken hm) ih

/-- **The lexer munches maximally.**  Where it stands after blanks, it takes the longest token, of
the only kind which that text has.  It skips a char iff no token starts there, and the skipped
chars are those it reports as unexpected. -/
theorem lex_munches (source : String) (id : UInt16) :
    ∃ skipped, Munches 0 source.toList (lex source id).1 skipped ∧
      ∀ i, i ∈ skipped ↔ ∃ d ∈ (lex source id).2, (∃ text, d.reason = .unexpected text) ∧
        ∃ s ∈ d.span, s.start ≤ i ∧ i < s.stop := by
  refine ⟨_, scan_munches 0 source.toList, fun i => ?_⟩
  have hskipped : i ∈ (scan 0 source.toList).faults.filterMap LexicalFault.skipped? ↔
      ∃ e, .unexpected e ∈ (scan 0 source.toList).faults ∧ e.Holds i := by
    rw [List.mem_filterMap]
    constructor
    · rintro ⟨fault, hfault, hi⟩
      cases fault with
      | unexpected e =>
        cases hi
        have hstop := ((scan_unexpected 0 source.toList e).1 hfault).2
        exact ⟨e, hfault, Nat.le_refl _, by omega⟩
      | invalidCodePoint e => cases hi
      | unterminatedComment e => cases hi
    · rintro ⟨e, he, hstart, hlt⟩
      have hstop := ((scan_unexpected 0 source.toList e).1 he).2
      exact ⟨_, he, congrArg some (by omega)⟩
  rw [hskipped, ← joinRuns_covers (scan_faults 0 source.toList)]
  constructor
  · rintro ⟨e, he, hholds⟩
    exact ⟨_, List.mem_map_of_mem he, ⟨_, rfl⟩, _, rfl, hholds⟩
  · rintro ⟨d, hd, ⟨text, hreason⟩, s, hs, hholds⟩
    obtain ⟨fault, hfault, rfl⟩ := List.mem_map.1 hd
    cases fault with
    | unexpected e =>
      cases hs
      exact ⟨e, hfault, hholds⟩
    | invalidCodePoint e => cases hreason
    | unterminatedComment e => cases hreason

end LunSyntax
