import LunSyntax.Proofs.Token.Accounting

/-!
# Tokens as they are written

A token says how it is written, and the source has just that where the token was read.

* `scanToken_lexeme`: what each rule takes from the head of a text is the lexeme of its token;
* `placePieces_tile`: the parts of a string stand one after the other between its quotes;
* `lex_written`: both, for all tokens of a source.
-/

set_option autoImplicit false

namespace LunSyntax

/-! ## Parts of strings -/

/-- Parts which have all of a text that starts at an offset, one after the other. -/
inductive Tile : Nat → List Char → List StringPart → Prop
  | nil {offset : Nat} : Tile offset [] []
  | cons {offset : Nat} {part : StringPart} {chars : List Char} {parts : List StringPart} :
    part.text.toList ≠ [] → part.extent = ⟨offset, offset + part.text.toList.length⟩ →
      Tile (offset + part.text.toList.length) chars parts →
      Tile offset (part.text.toList ++ chars) (part :: parts)

/-- The extents of parts stand in order. -/
theorem Tile.inOrder {offset : Nat} {chars : List Char} {parts : List StringPart}
    (h : Tile offset chars parts) :
    InOrder (offset + chars.length) offset (parts.map StringPart.extent) := by
  induction h with
  | nil => exact .nil (Nat.le_add_right _ _)
  | @cons offset part chars parts hne hextent _ ih =>
    have hpos := List.length_pos_iff.2 hne
    rw [List.length_append, ← Nat.add_assoc, List.map_cons, hextent]
    exact .cons (Nat.le_refl _) (by dsimp only; omega) ih

/-- Pieces which are placed from an offset on have all of their chars. -/
theorem placePieces_tile {found : List Piece} (hf : ∀ p ∈ found, p.chars ≠ []) (offset : Nat) :
    Tile offset (found.flatMap Piece.chars) (placePieces offset found) := by
  induction found generalizing offset with
  | nil => exact .nil
  | cons piece rest ih =>
    have hne : piece.chars ≠ [] := hf piece (by simp)
    have ih := ih fun p hp => hf p (by simp [hp])
    have hcons : ∀ part : StringPart, part.text.toList = piece.chars →
        part.extent = ⟨offset, offset + piece.chars.length⟩ →
        Tile offset ((piece :: rest).flatMap Piece.chars)
          (part :: placePieces (offset + piece.chars.length) rest) := by
      intro part htext hextent
      rw [List.flatMap_cons, ← htext]
      rw [← htext] at hne hextent
      exact .cons hne hextent (ih _)
    cases piece with
    | content text => exact hcons _ String.toList_ofList rfl
    | escape raw value => exact hcons _ String.toList_ofList rfl

/-- The texts of parts make up the text they have. -/
theorem Tile.text {offset : Nat} {chars : List Char} {parts : List StringPart}
    (h : Tile offset chars parts) : (String.join (parts.map StringPart.text)).toList = chars := by
  rw [String.toList_join]
  induction h with
  | nil => rfl
  | cons _ _ _ ih => rw [List.map_cons, List.flatMap_cons, ih]

/-- Each of the chars of tiles is where its part says. -/
theorem Tile.charsIn {chars middle rest : List Char} {offset : Nat} {parts : List StringPart}
    (h : Tile offset middle parts) (hdrop : chars.drop offset = middle ++ rest) :
    ∀ part ∈ parts, LunSyntax.charsIn chars part.extent = part.text.toList := by
  induction h with
  | nil => simp
  | @cons offset part middle parts _ hextent _ ih =>
    refine List.forall_mem_cons.2 ⟨?_, ih ?_⟩
    · rw [hextent, LunSyntax.charsIn, hdrop]
      simp
    · rw [← List.drop_drop, hdrop]
      simp

/-! ## Lexemes -/

/-- A token at the head of a text: its lexeme has just the chars it takes. -/
def Match.HasLexeme (cs : List Char) (m : Match) : Prop :=
  m.kind.lexeme.toList = cs.take m.length

theorem scanComment_lexeme {offset : Nat} {cs : List Char} {m : Match}
    (h : scanComment offset cs = some m) : m.HasLexeme cs := by
  unfold scanComment at h
  split at h
  · cases h
    exact String.toList_ofList
  · split at h
    · cases h
      exact String.toList_ofList
    · cases h
      exact String.toList_ofList.trans (List.take_length (l := _ :: _ :: _)).symm
  · cases h

theorem scanDigraph_lexeme {cs : List Char} {m : Match} (h : scanDigraph cs = some m) :
    m.HasLexeme cs := by
  unfold scanDigraph at h
  split at h
  · obtain ⟨d, hfind, rfl⟩ := Option.map_eq_some_iff.1 h
    have hd := List.find?_some hfind
    simp only [Bool.and_eq_true, beq_iff_eq] at hd
    obtain ⟨rfl, rfl⟩ := hd
    simp [Match.HasLexeme, TokenKind.lexeme, Digraph.text]
  · cases h

theorem scanControl_lexeme {cs : List Char} {m : Match} (h : scanControl cs = some m) :
    m.HasLexeme cs := by
  unfold scanControl at h
  split at h
  · split at h
    · cases h
      simp [Match.HasLexeme, TokenKind.lexeme]
    · cases h
  · cases h

theorem scanWord_lexeme {cs : List Char} {m : Match} (h : scanWord cs = some m) :
    m.HasLexeme cs := by
  obtain ⟨word, hword, rfl⟩ := Option.map_eq_some_iff.1 h
  have hpre := List.prefix_iff_eq_take.1 (word?_starts hword).2
  unfold Match.HasLexeme
  rw [← hpre]
  dsimp only
  split <;> exact String.toList_ofList

/-! ### Integers -/

theorem integerDigits?_plain_chars {c : Char} {rest digits : List Char} {radix mark : Nat}
    (h : integerDigits?.plain c rest = some (radix, mark, digits)) :
    radix = 10 ∧ mark = 0 ∧ digits <+: c :: rest := by
  unfold integerDigits?.plain at h
  split at h
  · cases h
    exact ⟨rfl, rfl, List.prefix_cons_iff.2 (.inr ⟨_, rfl, List.takeWhile_prefix _⟩)⟩
  · cases h

/-- The mark of the radix and the digits stand at the head of the text. -/
theorem integerDigits?_chars {cs digits : List Char} {radix mark : Nat}
    (h : integerDigits? cs = some (radix, mark, digits)) :
    (IntegerLit.mark radix).toList.length = mark ∧
      (IntegerLit.mark radix).toList ++ digits <+: cs := by
  have hplain : ∀ {c : Char} {rest : List Char},
      integerDigits?.plain c rest = some (radix, mark, digits) →
        (IntegerLit.mark radix).toList.length = mark ∧
          (IntegerLit.mark radix).toList ++ digits <+: c :: rest := by
    intro c rest h
    obtain ⟨rfl, rfl, hpre⟩ := integerDigits?_plain_chars h
    exact ⟨rfl, hpre⟩
  have hmarked : ∀ {r : Nat} {isDigit : Char → Bool} {letter : Char} {rest : List Char},
      (IntegerLit.mark r).toList = ['0', letter] →
      integerDigits?.marked r isDigit letter rest = some (radix, mark, digits) →
        (IntegerLit.mark radix).toList.length = mark ∧
          (IntegerLit.mark radix).toList ++ digits <+: '0' :: letter :: rest := by
    intro r isDigit letter rest hmark h
    unfold integerDigits?.marked at h
    dsimp only at h
    split at h
    · exact hplain h
    · cases h
      rw [hmark]
      refine ⟨rfl, ?_⟩
      obtain ⟨after, hafter⟩ := List.takeWhile_prefix isDigit (l := rest)
      exact ⟨after, by simp [hafter]⟩
  unfold integerDigits? at h
  split at h
  · exact hmarked rfl h
  · exact hmarked rfl h
  · exact hmarked rfl h
  · exact hplain h
  · cases h

theorem integerTag?_chars {cs tag : List Char} (h : integerTag? cs = some tag) :
    '\x27' :: tag <+: cs := by
  unfold integerTag? at h
  split at h
  · dsimp only at h
    split at h
    · cases h
    · cases h
      exact List.prefix_cons_iff.2 (.inr ⟨_, rfl, List.takeWhile_prefix _⟩)
  · cases h

theorem scanInteger_lexeme {cs : List Char} {m : Match} (h : scanInteger cs = some m) :
    m.HasLexeme cs := by
  obtain ⟨⟨radix, mark, digits⟩, hd, rfl⟩ := Option.map_eq_some_iff.1 h
  obtain ⟨hmark, after, rfl⟩ := integerDigits?_chars hd
  have hdrop : ((IntegerLit.mark radix).toList ++ digits ++ after).drop (mark + digits.length) =
      after := by
    rw [← hmark, ← List.length_append]
    exact List.drop_left
  have htext : ∀ tag : List Char, tag <+: after →
      (IntegerLit.mark radix).toList ++ digits ++ tag =
        ((IntegerLit.mark radix).toList ++ digits ++ after).take
          (mark + digits.length + tag.length) := by
    rintro tag ⟨rest, rfl⟩
    rw [← hmark, ← List.length_append, ← List.length_append, ← List.append_assoc]
    exact List.take_left.symm
  unfold Match.HasLexeme
  simp only [hdrop]
  cases htag : integerTag? after with
  | none =>
    have := htext [] List.nil_prefix
    simpa [TokenKind.lexeme, Literal.text, IntegerLit.text] using this
  | some tag =>
    have := htext ('\x27' :: tag) (integerTag?_chars htag)
    simpa [TokenKind.lexeme, Literal.text, IntegerLit.text] using this

/-! ### Strings -/

/-- A string at the head of a text: its tag, and between the quotes its parts. -/
theorem scanString_parts {offset : Nat} {cs : List Char} {m : Match}
    (h : scanString offset cs = some m) :
    ∃ (lit : StringLit) (middle after : List Char), m.kind = .literal (.string lit) ∧
      cs = (lit.tag.getD "").toList ++ '\x22' :: middle ++ '\x22' :: after ∧
      m.length = (lit.tag.getD "").toList.length + middle.length + 2 ∧
      Tile (offset + (lit.tag.getD "").toList.length + 1) middle lit.parts := by
  unfold scanString at h
  dsimp only at h
  split at h
  · rename_i body hdrop
    split at h
    · rename_i found after hpieces
      cases h
      have htag : (((word? cs).map String.ofList).getD "").toList = (word? cs).getD [] := by
        cases word? cs with
        | none => rfl
        | some word => exact String.toList_ofList
      have hpre : (word? cs).getD [] <+: cs := by
        cases hword : word? cs with
        | none => exact List.nil_prefix
        | some word => exact (word?_starts hword).2
      have hbody := pieces_append body
      rw [hpieces] at hbody
      have hfits := pieces_fits body
      rw [hpieces] at hfits
      refine ⟨_, found.flatMap Piece.chars, after, rfl, ?_, ?_, ?_⟩
      · rw [htag, List.append_assoc, List.cons_append, hbody, ← hdrop]
        exact List.prefix_iff_eq_append.1 hpre |>.symm
      · simp only [htag]
      · simp only [htag]
        refine placePieces_tile (fun p hp => ?_) _
        obtain ⟨text, hfit⟩ := hfits p hp
        exact hfit.ne_nil
    · cases h
  · cases h

theorem scanString_lexeme {offset : Nat} {cs : List Char} {m : Match}
    (h : scanString offset cs = some m) : m.HasLexeme cs := by
  obtain ⟨lit, middle, after, hkind, rfl, hlength, htile⟩ := scanString_parts h
  have htext : m.kind.lexeme.toList =
      (lit.tag.getD "").toList ++ '\x22' :: middle ++ ['\x22'] := by
    rw [hkind]
    simp [TokenKind.lexeme, Literal.text, StringLit.text, htile.text]
  have hlen : m.length = m.kind.lexeme.toList.length := by
    rw [htext, hlength]
    simp only [List.length_append, List.length_cons, List.length_nil]
    omega
  unfold Match.HasLexeme
  rw [hlen, htext]
  refine List.prefix_iff_eq_take.1 ⟨after, ?_⟩
  simp

/-- **What a rule takes from the head of a text is the lexeme of its token.** -/
theorem scanToken_lexeme {offset : Nat} {cs : List Char} {m : Match}
    (h : scanToken offset cs = some m) : m.HasLexeme cs := by
  rcases scanToken_cases h with h | h | h | h | h | h
  · exact scanComment_lexeme h
  · exact scanDigraph_lexeme h
  · exact scanString_lexeme h
  · exact scanInteger_lexeme h
  · exact scanControl_lexeme h
  · exact scanWord_lexeme h

/-- Only the rule for strings makes a string. -/
theorem scanToken_string {offset : Nat} {cs : List Char} {m : Match} {lit : StringLit}
    (h : scanToken offset cs = some m) (hk : m.kind = .literal (.string lit)) :
    scanString offset cs = some m := by
  rcases scanToken_cases h with h | h | h | h | h | h
  · unfold scanComment at h
    split at h
    · cases h
      cases hk
    · split at h <;> cases h <;> cases hk
    · cases h
  · unfold scanDigraph at h
    split at h
    · obtain ⟨d, -, rfl⟩ := Option.map_eq_some_iff.1 h
      cases hk
    · cases h
  · exact h
  · obtain ⟨digits, -, rfl⟩ := Option.map_eq_some_iff.1 h
    cases hk
  · unfold scanControl at h
    split at h
    · split at h
      · cases h
        cases hk
      · cases h
    · cases h
  · obtain ⟨word, -, rfl⟩ := Option.map_eq_some_iff.1 h
    dsimp only at hk
    split at hk <;> cases hk

/-! ## Sources -/

/-- A token as a source has it. -/
structure Token.Written (chars : List Char) (t : Token) : Prop where
  /-- the chars under the extent are those of the token -/
  lexeme : charsIn chars t.extent = t.kind.lexeme.toList
  /-- the parts of a string have all between its quotes -/
  parts : ∀ lit, t.kind = .literal (.string lit) → ∃ middle,
    Tile (t.extent.start + (lit.tag.getD "").toList.length + 1) middle lit.parts ∧
      t.extent.stop = t.extent.start + (lit.tag.getD "").toList.length + 1 + middle.length + 1

/-- Each token of a text is written there, where the text is the end of a source. -/
theorem scan_written {chars : List Char} (offset : Nat) (cs : List Char)
    (hcs : chars.drop offset = cs) : ∀ t ∈ (scan offset cs).tokens, t.Written chars := by
  fun_induction scan offset cs with
  | case1 offset => simp
  | case2 offset c rest hblank ih =>
    refine ih ?_
    rw [← List.drop_drop, hcs, List.drop_succ_cons, List.drop_zero]
  | case3 offset c rest hblank m hm after ih =>
    have hlexeme := scanToken_lexeme hm
    intro t ht
    rcases List.mem_cons.1 ht with rfl | ht
    · refine ⟨?_, fun lit hk => ?_⟩
      · rw [hlexeme, charsIn, hcs, Nat.add_sub_cancel_left]
      · obtain ⟨lit', middle, _, hk', _, hlength, htile⟩ :=
          scanString_parts (scanToken_string hm hk)
        obtain rfl : lit' = lit := by
          have := hk'.symm.trans hk
          cases this
          rfl
        exact ⟨middle, htile, by dsimp only; omega⟩
    · refine ih ?_ t ht
      rw [← List.drop_drop, hcs, ← (drop_token hm).1]
  | case4 offset c rest hblank hm after ih =>
    refine ih ?_
    rw [← List.drop_drop, hcs, List.drop_succ_cons, List.drop_zero]

/-- **The tokens of a source are written there**, each under its extent. -/
theorem lex_written (source : String) (id : UInt16) :
    ∀ t ∈ (lex source id).1, t.Written source.toList :=
  scan_written 0 source.toList rfl

end LunSyntax
