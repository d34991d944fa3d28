import LunSyntax.Proofs.Grammar.Built
import LunSyntax.Proofs.Grammar.Spans

/-!
# What diagnostics quote

The wording of each diagnostic of a text is made of printable chars and of chars of the text,
whatever stage finds it.

* `Built.quotes`: the complaints of the grammar quote what tokens are called;
* `lex_quotes`, `parseTokens_quotes`: so do diagnostics of the lexer, and of the grammar;
* `parse_quotes`: hence all diagnostics of a text.
-/

set_option autoImplicit false

namespace LunSyntax

namespace Grammar

variable {source : List Char}

theorem PrintableLabel.quotes {kind : Option TokenKind} (h : PrintableLabel kind) :
    Quotes source (tokenLabel kind) :=
  .of_printable h

/-- The message about what follows the last definition quotes its first token. -/
theorem trailingMessage_quotes {kind : TokenKind} (h : Quotes source kind.label) :
    Quotes source (trailingMessage kind) := by
  unfold trailingMessage
  split
  · rename_i name
    refine .between ?_ (by decide) (by decide)
    unfold TokenKind.label at h
    dsimp only at h
    split at h
    · rename_i hempty
      rw [String.isEmpty_iff.1 hempty]
      exact .of_printable rfl
    · exact h.of_between
  · exact .append (.of_printable (by decide)) h

theorem PrintableMessage.quotes {c : Cursor} {message : String} (h : PrintableMessage c message)
    (hc : c.Quotes source) : Quotes source message := by
  rcases h with hprintable | ⟨t, after, hnext, rfl⟩
  · exact .of_printable hprintable
  · exact trailingMessage_quotes (hc.next hnext).1

/-- What a parser of the grammar complains about quotes a source, if the tokens do. -/
theorem Built.quotes {strict : Bool} {α : Type} {p : Parser α} (h : Built strict p) :
    p.Quotes source := by
  induction h with
  | pure a => exact .pure a
  | fail => exact .fail (by simp)
  | token hexpected => exact .token fun kind hkind => (hexpected kind hkind).quotes
  | finish => exact .finish
  | bind _ _ hp hf => exact .bind hp hf
  | withSpan _ hp => exact .withSpan hp
  | check _ hmessages hp =>
    refine .check hp fun c reported a after alt hc hout span m hm => ?_
    exact (hmessages c reported a after alt hout span m hm).quotes hc
  | either _ _ hp hq => exact .or hp hq
  | choice _ hps => exact .choice hps
  | optional _ hp => exact .optional hp
  | many _ hp => exact .many hp
  | sepBy _ _ hp hsep => exact .sepBy hp hsep
  | recoverDelimited hpair _ hp => exact .recoverDelimited hpair hp
  | recoverSkipping _ hp => exact .recoverSkipping hp
  | deferred _ hf => exact fun c hc => hf c.left c hc
  | weaken _ hp => exact hp

end Grammar

/-! ## Diagnostics -/

/-- All that a diagnostic says quotes a source. -/
structure Diagnostic.Quotes (source : List Char) (d : Diagnostic) : Prop where
  reason : LunSyntax.Quotes source d.reason.message
  code : ∀ code ∈ d.code, LunSyntax.Quotes source code
  hints : d.hints = []

theorem Diagnostic.Quotes.located {source : List Char} {reason : Reason} {span : Span}
    {code : String} {stage : Stage} (h : LunSyntax.Quotes source reason.message)
    (hcode : code.toList.all isPrintable = true) :
    (Diagnostic.located reason span code stage).Quotes source := by
  refine ⟨h, ?_, rfl⟩
  rintro _ ⟨⟩
  exact .of_printable hcode

theorem mem_of_mem_charsIn {source : List Char} {extent : Extent} {c : Char}
    (h : c ∈ charsIn source extent) : c ∈ source :=
  List.mem_of_mem_drop (List.mem_of_mem_take h)

/-- The lexer quotes the chars which start no token. -/
theorem lex_quotes (source : String) (id : UInt16) :
    ∀ d ∈ (lex source id).2, d.Quotes source.toList := by
  intro d hd
  obtain ⟨fault, -, rfl⟩ := List.mem_map.1 hd
  have hcode : lexicalCode.toList.all isPrintable = true := by decide
  cases fault with
  | unexpected extent =>
    refine .located (.append (.of_printable (by decide)) fun c hc => .inl ?_) hcode
    rw [String.toList_ofList] at hc
    exact mem_of_mem_charsIn hc
  | invalidCodePoint extent => exact .located (.of_printable (by decide)) hcode
  | unterminatedComment extent => exact .located (.of_printable (by decide)) hcode

/-- A token is called by what is written for it, or by the kind of token it is. -/
theorem TokenKind.label_quotes {source : List Char} {kind : TokenKind}
    (h : ∀ c ∈ kind.lexeme.toList, c ∈ source) : Quotes source kind.label := by
  have hlexeme : Quotes source kind.lexeme := fun c hc => .inl (h c hc)
  cases kind with
  | ident name =>
    unfold label
    dsimp only
    split
    · exact .of_printable (by decide)
    · exact .between hlexeme (by decide) (by decide)
  | keyword word => exact .between hlexeme (by decide) (by decide)
  | literal lit => exact .of_printable (by dsimp only [label]; decide)
  | comment text => exact .of_printable (by dsimp only [label]; decide)
  | control c => exact .between hlexeme (by decide) (by decide)
  | digraph op => exact .between hlexeme (by decide) (by decide)

theorem tokenStream_quotes (source : String) (id : UInt16) :
    (tokenStream (lex source id).1 id).Quotes source.toList := by
  intro t ht
  obtain ⟨token, htoken, -, rfl⟩ := mem_stream ht
  refine TokenKind.label_quotes fun c hc => ?_
  have hlexeme := (lex_written source id token htoken).lexeme
  exact mem_of_mem_charsIn (hlexeme ▸ hc)

/-- The grammar quotes what tokens are called. -/
theorem parseTokens_quotes (source : String) (id : UInt16) :
    ∀ d ∈ (parseTokens (lex source id).1 id).2, d.Quotes source.toList := by
  intro d hd
  have hworded : ∀ {e : Complaint}, e.Quotes source.toList →
      e.toDiagnostic.Quotes source.toList := fun he => .located he.reason (by decide)
  have hout := Grammar.sourceFile_built.quotes _ (tokenStream_quotes source id)
  unfold parseTokens at hd
  generalize Grammar.sourceFile (P := Parser) (tokenStream (lex source id).1 id) = out at hd hout
  cases hout with
  | ok hreported _ _ =>
    obtain ⟨e, he, rfl⟩ := List.mem_map.1 hd
    exact hworded (hreported e he)
  | fail hreported he =>
    obtain ⟨e', he', rfl⟩ := List.mem_map.1 hd
    exact hworded (List.forall_mem_append.2 ⟨hreported, List.forall_mem_singleton.2 he⟩ e' he')

/-- **Diagnostics quote the text they are about.**  Besides the chars of the text, they have only
printable ones. -/
theorem parse_quotes (source : String) (id : UInt16) :
    ∀ d ∈ (parse source id).diagnostics, d.Quotes source.toList :=
  List.forall_mem_append.2 ⟨lex_quotes source id, parseTokens_quotes source id⟩

end LunSyntax
