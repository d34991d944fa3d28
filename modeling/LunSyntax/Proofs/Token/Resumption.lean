import LunSyntax.Proofs.Token.Munch
import LunSyntax.Proofs.Token.Shifting

/-!
# Lexing line by line

No token of a text without faults reaches over a new line after it, so the lexer starts anew there.

* `TokenRule.not_mem_newline`, `TokenRule.over_newline`: the only tokens that hold a new line are
  comments;
* `scanToken_append_newline`: what follows a new line does not change the tokens before it;
* `scan_append_newline`, `lex_append_newline`: a text without faults, a new line and any other text;
* `lex_resumes`: the same, for texts the lexer accepts.
-/

set_option autoImplicit false

namespace LunSyntax

/-! ## Tokens which hold a new line -/

theorem EscapeText.not_mem_newline {raw : List Char} {value : Char} (h : EscapeText raw value) :
    '\n' ∉ raw := by
  have hhex : isHexDigit '\n' = false := by decide
  cases h with
  | byte ha hb =>
    simp only [List.mem_cons, List.not_mem_nil, or_false, not_or]
    refine ⟨by decide, by decide, ?_, ?_⟩
    · rintro rfl
      simp [hhex] at ha
    · rintro rfl
      simp [hhex] at hb
  | code hne hdigits =>
    simp only [List.cons_append, List.mem_cons, List.mem_append, List.not_mem_nil, or_false, not_or]
    refine ⟨by decide, by decide, by decide, fun hmem => ?_, by decide⟩
    exact absurd (hdigits _ hmem) (by simp [hhex])
  | simple hvalue =>
    simp only [List.mem_cons, List.not_mem_nil, or_false, not_or]
    refine ⟨by decide, ?_⟩
    rintro rfl
    cases hvalue

theorem StringBody.not_mem_newline {offset : Nat} {body : List Char} {parts : List StringPart}
    (h : StringBody offset body parts) : '\n' ∉ body := by
  induction h with
  | nil => simp
  | escape hraw _ ih => exact fun hmem => (List.mem_append.1 hmem).elim hraw.not_mem_newline ih
  | content _ hplain _ _ ih =>
    refine fun hmem => (List.mem_append.1 hmem).elim (fun htext => ?_) ih
    exact absurd (hplain _ htext) (by decide)

theorem IsWord.not_mem_newline {word : List Char} (h : IsWord word) : '\n' ∉ word := by
  obtain ⟨c, rest, rfl, hc, hrest⟩ := h
  refine fun hmem => (List.mem_cons.1 hmem).elim ?_ fun hmem => ?_
  · rintro rfl
    exact absurd hc (by decide)
  · exact absurd (hrest _ hmem) (by decide)

theorem Numeral.not_mem_newline {radix : Nat} {digits : List Char} (h : Numeral radix digits) :
    '\n' ∉ digits := by
  intro hmem
  cases h with
  | binary _ hdigits => exact absurd (hdigits _ hmem) (by decide)
  | octal _ hdigits => exact absurd (hdigits _ hmem) (by decide)
  | hexadecimal _ hdigits => exact absurd (hdigits _ hmem) (by decide)
  | decimal hc hdigits =>
    rcases List.mem_cons.1 hmem with rfl | hmem
    · exact absurd hc (by decide)
    · exact absurd (hdigits _ hmem) (by decide)

/-- A line comment goes on after a line that ends in a backslash, and after no other. -/
theorem LineBody.over_newline {front back : List Char} (h : LineBody (front ++ '\n' :: back)) :
    ∃ body, front = body ++ ['\\'] ∧ LineBody body := by
  generalize hbody : front ++ '\n' :: back = body at h
  induction h generalizing front with
  | nil => simp at hbody
  | @escaped c body _ ih =>
    match front, hbody with
    | [_], hbody =>
      cases hbody
      exact ⟨[], rfl, .nil⟩
    | _ :: _ :: front, hbody =>
      cases hbody
      obtain ⟨body, rfl, hline⟩ := ih rfl
      exact ⟨_, rfl, hline.escaped⟩
  | @plain c body hescape hline _ ih =>
    match front, hbody with
    | [], hbody =>
      cases hbody
      exact absurd rfl hline
    | _ :: front, hbody =>
      cases hbody
      obtain ⟨body, rfl, hrest⟩ := ih rfl
      exact ⟨_, rfl, hrest.plain hescape hline⟩

/-- Only comments hold a new line. -/
theorem TokenRule.not_mem_newline {offset : Nat} {lexeme rest : List Char} {kind : TokenKind}
    (h : TokenRule offset lexeme rest kind) (hkind : kind.isComment = false) : '\n' ∉ lexeme := by
  intro hmem
  cases h with
  | lineComment _ => cases hkind
  | blockComment _ => cases hkind
  | openComment _ => cases hkind
  | digraph d => exact absurd hmem (by cases d <;> decide)
  | @string tag body _ parts htag hbody =>
    refine absurd hmem ?_
    have htag' : '\n' ∉ tag.getD [] := by
      cases tag with
      | none => simp
      | some word => exact (htag word rfl).not_mem_newline
    simp [htag', hbody.not_mem_newline]
  | @integer radix digits _ tag hdigits htag =>
    refine absurd hmem ?_
    have hmark : '\n' ∉ (IntegerLit.mark radix).toList := by cases hdigits <;> decide
    have htext : '\n' ∉ tagText tag := by
      cases tag with
      | none => simp [tagText]
      | some tag =>
        have := (htag tag rfl).2 '\n'
        simpa [tagText] using fun h => absurd (this h) (by decide)
    simp only [List.mem_append, not_or]
    exact ⟨⟨hmark, hdigits.not_mem_newline⟩, htext⟩
  | control hc =>
    rw [List.mem_singleton] at hmem
    exact absurd (hmem ▸ hc) (by decide)
  | keyword hword => exact absurd hmem hword.not_mem_newline
  | ident hword => exact absurd hmem hword.not_mem_newline

/-- **A token reaches over a new line only as a comment**: one that a backslash carries over, or a
block comment which is open there. -/
theorem TokenRule.over_newline {offset : Nat} {lexeme rest front back : List Char}
    {kind : TokenKind} (h : TokenRule offset lexeme rest kind)
    (hlexeme : lexeme = front ++ '\n' :: back) :
    (∃ body, front = '/' :: '/' :: body ++ ['\\'] ∧ LineBody body) ∨
      ∃ body, front = '/' :: '*' :: body ∧ ¬ ['*', '/'] <:+: body := by
  have hcomment : kind.isComment ≠ false := fun hkind => h.not_mem_newline hkind (by simp [hlexeme])
  have hblock : ∀ {body more : List Char}, ¬ ['*', '/'] <:+: body →
      '/' :: '*' :: body ++ more = front ++ '\n' :: back → '\n' ∉ more →
      ∃ body, front = '/' :: '*' :: body ∧ ¬ ['*', '/'] <:+: body := by
    intro body more hopen heq hmore
    match front, heq with
    | _ :: _ :: front, heq =>
      simp only [List.cons_append, List.cons.injEq] at heq
      obtain ⟨rfl, rfl, heq⟩ := heq
      refine ⟨front, rfl, fun hin => hopen (hin.trans ?_)⟩
      rcases List.append_eq_append_iff.1 heq with ⟨mid, rfl, hmid⟩ | ⟨mid, rfl, -⟩
      · exact absurd (by simp [hmid]) hmore
      · exact (List.prefix_append _ _).isInfix
  cases h with
  | lineComment h =>
    match front, hlexeme with
    | _ :: _ :: front, hlexeme =>
      cases hlexeme
      obtain ⟨body, rfl, hbody⟩ := h.over_newline
      exact .inl ⟨body, rfl, hbody⟩
  | blockComment h => exact .inr (hblock h hlexeme (by decide))
  | openComment h => exact .inr (hblock h (by rw [List.append_nil, hlexeme]) (by simp))
  | _ => exact absurd rfl hcomment

/-- Only what is left after a token tells whether a comment is open. -/
theorem TokenRule.change_rest {offset : Nat} {lexeme rest : List Char} {kind : TokenKind}
    (h : TokenRule offset lexeme rest kind) (rest' : List Char)
    (hclosed : rest ≠ [] ∨ ∀ text, kind = .comment text → ¬ Unclosed text) :
    TokenRule offset lexeme rest' kind := by
  cases h with
  | lineComment h => exact .lineComment h
  | blockComment h => exact .blockComment h
  | openComment h =>
    rcases hclosed with hne | hclosed
    · exact absurd rfl hne
    · exact absurd ⟨_, String.toList_ofList, h⟩ (hclosed _ rfl)
  | digraph d => exact .digraph d
  | string htag hbody => exact .string htag hbody
  | integer hdigits htag => exact .integer hdigits htag
  | control hc => exact .control hc
  | keyword hword hreserved => exact .keyword hword hreserved
  | ident hword hfree => exact .ident hword hfree

/-! ## Tokens before a new line -/

/-- The backslash that would carry a comment over the new line is no token. -/
theorem scan_carried {offset : Nat} {body : List Char} (h : LineBody body) :
    (scan offset ('/' :: '/' :: body ++ ['\\'])).faults ≠ [] := by
  have hlength : lineCommentLength (body ++ ['\\']) = body.length := by
    rw [h.length_eq]
    rfl
  have htoken : scanToken offset ('/' :: '/' :: body ++ ['\\']) =
      some ⟨.comment (String.ofList ('/' :: '/' :: body)), body.length + 2, []⟩ := by
    simp [scanToken, scanComment, hlength]
  rw [List.cons_append, scan, if_neg (by decide), ← List.cons_append, htoken]
  have hbackslash : ∀ offset, (scan offset ['\\']).faults = [.unexpected ⟨offset, offset + 1⟩] := by
    intro offset
    have hnone : scanToken offset ['\\'] = none := rfl
    rw [scan, if_neg (by decide), hnone]
    dsimp only
    rw [scan]
  simp [hbackslash]

/-- A block comment which is open at the end of a text is a fault. -/
theorem scan_open {offset : Nat} {body : List Char} (h : ¬ ['*', '/'] <:+: body) :
    (scan offset ('/' :: '*' :: body)).faults ≠ [] := by
  rw [scan, if_neg (by decide)]
  simp [scanToken, scanComment, blockCommentLength?_open h]

variable {offset : Nat} {cs back : List Char} {m m' : Match}

/-- A token does not reach over a new line if there is nothing wrong before it. -/
theorem length_le_of_newline (hfaults : (scan offset cs).faults = [])
    (h : scanToken offset (cs ++ '\n' :: back) = some m) : m.length ≤ cs.length := by
  refine Nat.not_lt.1 fun hlong => ?_
  have htake : (cs ++ '\n' :: back).take m.length =
      cs ++ '\n' :: back.take (m.length - cs.length - 1) := by
    obtain ⟨n, hn⟩ : ∃ n, m.length = cs.length + (n + 1) := ⟨m.length - cs.length - 1, by omega⟩
    rw [hn, List.take_length_add_append, List.take_succ_cons]
    simp
  rcases (scanToken_fits h).over_newline htake with ⟨body, rfl, hbody⟩ | ⟨body, rfl, hbody⟩
  · exact scan_carried hbody hfaults
  · exact scan_open hbody hfaults

/-- Matches which are no shorter than each other are of the same token. -/
theorem Match.eq_of_beats (hm : m.Beats (cs.take m'.length) m'.kind)
    (hm' : m'.Beats (cs.take m.length) m.kind) (hle : m.length ≤ cs.length)
    (hle' : m'.length ≤ cs.length) : m.length = m'.length ∧ m.kind = m'.kind := by
  rw [Match.Beats, List.length_take_of_le hle'] at hm
  rw [Match.Beats, List.length_take_of_le hle] at hm'
  rcases hm with hlt | ⟨hlength, hkind⟩
  · rcases hm' with hlt' | ⟨hlength', -⟩ <;> omega
  · exact ⟨hlength.symm, hkind⟩

/-- **What follows a new line does not change the tokens before it.** -/
theorem scanToken_append_newline (h : scanToken offset cs = some m) (hclean : m.faults = [])
    (hfaults : (scan offset cs).faults = []) (back : List Char) :
    scanToken offset (cs ++ '\n' :: back) = some m := by
  have hle := (scanToken_length h).2
  rcases scanToken_faults h with ⟨hopen, hcodes, -⟩ | ⟨-, hfault, -⟩
  case inr =>
    rw [hclean] at hfault
    cases hfault
  -- the token is still one, so one no shorter is taken
  have hrule := (scanToken_fits h).change_rest (cs.drop m.length ++ '\n' :: back)
    (.inr fun text hkind hun => hopen ⟨hkind, hun⟩)
  obtain ⟨m', hm', hbeats⟩ := scanToken_beats hrule
  rw [← List.append_assoc, List.take_append_drop] at hm'
  -- that was a token before, so it is no longer than the one taken then
  have hle' := length_le_of_newline hfaults hm'
  have hrule' := (scanToken_fits hm').change_rest (cs.drop m'.length) (.inl (by
    rw [List.drop_append_of_le_length hle']
    simp))
  rw [List.take_append_of_le_length hle'] at hrule'
  obtain ⟨m'', hm'', hbeats'⟩ := scanToken_beats hrule'
  rw [List.take_append_drop, h] at hm''
  cases hm''
  obtain ⟨hlength, hkind⟩ := Match.eq_of_beats hbeats hbeats' hle' hle
  -- the faults can be told from the token
  have hclean' : m'.faults = [] := by
    rcases scanToken_faults hm' with ⟨-, hcodes', -⟩ | ⟨hopen', -, -⟩
    · rw [hcodes', hkind, hlength, ← hcodes, hclean]
    · rw [hkind, hlength] at hopen'
      exact absurd hopen' hopen
  rw [hm', Option.some_inj]
  cases m
  cases m'
  simp_all

/-! ## Texts before a new line -/

/-- **The lexer starts anew after a new line.** -/
theorem scan_append_newline (h : (scan offset cs).faults = []) (back : List Char) :
    scan offset (cs ++ '\n' :: back) =
      ⟨(scan offset cs).tokens ++ (scan (offset + cs.length + 1) back).tokens,
        (scan (offset + cs.length + 1) back).faults⟩ := by
  fun_induction scan offset cs with
  | case1 offset =>
    rw [List.nil_append, scan, if_pos (by decide)]
    rfl
  | case2 offset c rest hblank ih =>
    rw [List.cons_append, scan, if_pos hblank, ih h, List.length_cons, Nat.add_right_comm offset 1,
      Nat.add_assoc offset]
  | case3 offset c rest hblank m hm after ih =>
    obtain ⟨hfaults, hafter⟩ := List.append_eq_nil_iff.1 h
    obtain ⟨hpos, hle⟩ := scanToken_length hm
    have hscan : (scan offset (c :: rest)).faults = [] := by
      rw [scan, if_neg hblank, hm]
      exact h
    have htoken := scanToken_append_newline hm hfaults hscan back
    rw [List.length_cons] at hle
    rw [List.cons_append, scan, if_neg hblank, ← List.cons_append, htoken]
    dsimp only
    rw [List.drop_append_of_le_length (by omega), ih hafter, hfaults, (drop_token hm).2]
    rfl
  | case4 offset c rest hblank hm after ih => cases h

theorem joinRuns_eq_nil {faults : List LexicalFault} : joinRuns faults = [] → faults = [] := by
  fun_cases joinRuns faults <;> simp

/-- A source without faults, a new line and another source have the tokens of the first and then
those of the second, moved on. -/
theorem lex_append_newline {a : String} {id : UInt16} (h : (lex a id).2 = []) (b : String) :
    lex (a ++ "\n" ++ b) id =
      ((lex a id).1 ++ (lex b id).1.map (Token.shift (a.length + 1)),
        (lex b id).2.map (Diagnostic.shift (a.length + 1))) := by
  have hfaults : (scan 0 a.toList).faults = [] := joinRuns_eq_nil (List.map_eq_nil_iff.1 h)
  have hchars : (a ++ "\n" ++ b).toList = a.toList ++ '\n' :: b.toList := by simp
  have hfront : (a ++ "\n" ++ b).toList = (a.toList ++ ['\n']) ++ b.toList := by simp
  have hlength : (a.toList ++ ['\n']).length = a.length + 1 := by
    rw [List.length_append, String.length_toList, List.length_singleton]
  have hshift := scan_shift (a.length + 1) 0 b.toList
  have hscan := scan_append_newline hfaults b.toList
  rw [String.length_toList, Nat.add_assoc, Nat.zero_add] at hscan
  rw [Nat.zero_add] at hshift
  unfold lex
  simp only [hchars, hscan, hshift.1, hshift.2, joinRuns_shift, List.map_map]
  refine Prod.ext rfl (List.map_congr_left fun fault _ => ?_)
  rw [Function.comp_apply, Function.comp_apply, ← hchars, hfront, ← hlength]
  exact toDiagnostic_shift _ _ id fault

/-- **Lexing is local.**  After a source which the lexer accepts and a new line, any other source is
lexed as it is alone: its tokens follow, the parts of their strings included, and its errors are all
there are, with the same reasons.  All their places are moved on. -/
theorem lex_resumes {a : String} {tokens : List Token} {id' : UInt16}
    (h : lexStrict a id' = .ok tokens) (b : String) (id : UInt16) :
    lex (a ++ "\n" ++ b) id =
      (tokens ++ (lex b id).1.map (Token.shift (a.length + 1)),
        (lex b id).2.map (Diagnostic.shift (a.length + 1))) := by
  obtain ⟨rfl, hclean⟩ := (lexStrict_eq_ok_iff a id id' tokens).1 h
  exact lex_append_newline hclean b

/-- A comment ends where it stands last, and a string with a bad escape comes on the next line. -/
theorem lex_resumes_comment :
    lex "a // b\n\"\\u\x7bD800\x7d\"@" 1 =
      ([⟨.ident "a", ⟨0, 1⟩⟩, ⟨.comment "// b", ⟨2, 6⟩⟩,
        ⟨.literal (.string ⟨none, [.escape "\\u\x7bD800\x7d" '\uFFFD' ⟨8, 16⟩]⟩), ⟨7, 17⟩⟩],
        [.located (.simple "escape sequence") ⟨1, 9, 16⟩ lexicalCode .lexer,
          .located (.unexpected "@") ⟨1, 17, 18⟩ lexicalCode .lexer]) := by
  have hfirst : lexStrict "a // b" 0 =
      .ok [⟨.ident "a", ⟨0, 1⟩⟩, ⟨.comment "// b", ⟨2, 6⟩⟩] :=
    (lexStrict_eq_ok_iff _ 0 0 _).2 (by decide +kernel)
  have hsecond : lex "\"\\u\x7bD800\x7d\"@" 1 =
      ([⟨.literal (.string ⟨none, [.escape "\\u\x7bD800\x7d" '\uFFFD' ⟨1, 9⟩]⟩), ⟨0, 10⟩⟩],
        [.located (.simple "escape sequence") ⟨1, 2, 9⟩ lexicalCode .lexer,
          .located (.unexpected "@") ⟨1, 10, 11⟩ lexicalCode .lexer]) := by
    decide +kernel
  have hresumes := lex_resumes hfirst "\"\\u\x7bD800\x7d\"@" 1
  rw [hsecond] at hresumes
  exact hresumes

end LunSyntax
