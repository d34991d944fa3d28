import LunSyntax.Proofs.Grammar.Checking
import LunSyntax.Proofs.Grammar.Grouping
import LunSyntax.Proofs.Token.Accounting

/-!
# Every input is parsed

Parsing has no way to go wrong other than by diagnostics: any tokens make a file, and so does any
text.

* `ItemsDerive.not_hasError`: only given up input has an error in it;
* `parse_total`: a parse which is not cut short, and a file, for any tokens and for any text, with
  an error in it only if there is a diagnostic about the grammar, and accepted by `parseStrict` if
  there is no diagnostic at all.
-/

set_option autoImplicit false

namespace LunSyntax

/-! ## Errors -/

namespace SyntaxNode

/-- An expression that was given up is within the node. -/
def HasError (n : SyntaxNode) : Prop := ∃ e, (SyntaxNode.expr e).Within n ∧ e.kind = .error

theorem not_hasError {n : SyntaxNode} (hn : ∀ e, n = .expr e → e.kind ≠ .error)
    (hparts : ∀ part ∈ n.parts, ¬ part.HasError) : ¬ n.HasError := by
  rintro ⟨e, hwithin, hkind⟩
  cases hwithin with
  | refl => exact hn e rfl hkind
  | part hpart hwithin => exact hparts _ hpart ⟨e, hwithin, hkind⟩

theorem Fits.not_hasError {n : SyntaxNode} (h : n.Fits .strict) : ¬ n.HasError := by
  rintro ⟨e, hwithin, hkind⟩
  exact (h _ hwithin).kept rfl e rfl hkind

end SyntaxNode

open SyntaxNode (not_hasError)

theorem ItemsDerive.not_hasError {items : List Item} {ts : List TokenKind}
    (h : ItemsDerive .strict items ts) : ∀ item ∈ items, ¬ (SyntaxNode.item item).HasError := by
  induction h with
  | nil => simp
  | @cons item rest us vs hitem _ ih =>
    have hfits := hitem.fits item.span
    exact List.forall_mem_cons.2 ⟨hfits.not_hasError, ih⟩

theorem not_hasError_of_parseTokens {tokens : List Token} {id : UInt16} {file : SourceFile}
    (hfile : (parseTokens tokens id).1 = some file) (h : (parseTokens tokens id).2 = []) :
    ∀ item ∈ file.items, ¬ (SyntaxNode.item item).HasError := by
  obtain ⟨reported, after, alt, hparse, -⟩ := Grammar.sourceFile_eq_ok (tokenStream tokens id)
  unfold parseTokens at hfile h
  rw [hparse] at hfile h
  cases hfile
  have hnil : reported = [] := List.map_eq_nil_iff.1 h
  exact (Grammar.sourceFile_derives (hnil ▸ hparse)).not_hasError

/-- The diagnostics of a parse are about the grammar. -/
theorem stage_of_parseTokens {tokens : List Token} {id : UInt16} {d : Diagnostic}
    (h : d ∈ (parseTokens tokens id).2) : d.stage = .parser := by
  have hstage : ∀ es : List Complaint, d ∈ es.map Complaint.toDiagnostic → d.stage = .parser := by
    intro es hd
    obtain ⟨e, -, rfl⟩ := List.mem_map.1 hd
    rfl
  unfold parseTokens Outcome.fileOf at h
  split at h
  · exact hstage _ h
  · exact hstage _ h

/-! ## Parsing -/

/-- What a strict parse answers is what a recovering parse has found. -/
theorem parseStrict_eq {source : String} {id : UInt16} {file : SourceFile}
    (h : (parse source id).file = some file) :
    parseStrict source id = if (parse source id).diagnostics = [] then .ok file
      else .error (parse source id).diagnostics := by
  unfold parseStrict
  generalize parse source id = parsed at h ⊢
  obtain ⟨tokens, _, diagnostics⟩ := parsed
  cases h
  cases diagnostics with
  | nil => rfl
  | cons d rest => rfl

/-- **Any input is parsed.**  Any tokens, whatever their kinds and extents, make a file, and nothing
that the grammar repeats, merges or moves on cuts their parse short.  Any text makes a file as well,
which a strict parse returns if there are no diagnostics, and otherwise it returns these.  Where
there is an error in a file, there is a diagnostic about the grammar, so in a file that is accepted
strictly there is none. -/
theorem parse_total :
    (∀ (tokens : List Token) (id : UInt16),
      (∀ t ∈ tokens, t.extent.start < maxOffset ∧ t.extent.stop < maxOffset) →
        parseTokens? tokens id = some (parseTokens tokens id) ∧
        ∃ file, (parseTokens tokens id).1 = some file ∧
          ((SyntaxNode.file file).HasError → ∃ d ∈ (parseTokens tokens id).2, d.stage = .parser)) ∧
    ∀ (source : String) (id : UInt16),
      (source.length < maxOffset → parseTokens? (parse source id).tokens id =
        some (parseTokens (parse source id).tokens id)) ∧
      ∃ file, (parse source id).file = some file ∧
        (parseStrict source id = if (parse source id).diagnostics = [] then .ok file
          else .error (parse source id).diagnostics) ∧
        ((SyntaxNode.file file).HasError →
          ∃ d ∈ (parse source id).diagnostics, d.stage = .parser) ∧
        ∀ accepted, parseStrict source id = .ok accepted →
          ¬ (SyntaxNode.file accepted).HasError := by
  have hreport : ∀ (tokens : List Token) (id : UInt16) (file : SourceFile) (span : Span),
      (parseTokens tokens id).1 = some file →
      (SyntaxNode.file { file with span := span }).HasError →
        ∃ d ∈ (parseTokens tokens id).2, d.stage = .parser := by
    intro tokens id file span hfile herror
    have hne : (parseTokens tokens id).2 ≠ [] := by
      intro hnil
      refine not_hasError (by simp) ?_ herror
      intro part hpart
      obtain ⟨item, hitem, rfl⟩ := List.mem_map.1 hpart
      exact not_hasError_of_parseTokens hfile hnil item hitem
    obtain ⟨d, hd⟩ := List.exists_mem_of_ne_nil _ hne
    exact ⟨d, hd, stage_of_parseTokens hd⟩
  refine ⟨fun tokens id hbounds => ?_, fun source id => ?_⟩
  · obtain ⟨file, hfile, -⟩ := parseTokens_eq_some tokens id
    exact ⟨parseTokens?_eq id hbounds, file, hfile, hreport tokens id file file.span hfile⟩
  · refine ⟨fun hlength => parseTokens?_eq id fun t ht => ?_, ?_⟩
    · have hb := (lex_accounting source id).bounds t ht
      rw [String.length_toList] at hb
      omega
    · obtain ⟨file, hfile, -⟩ := parseTokens_eq_some (lex source id).1 id
      have hparsed := parse_file hfile
      have hstrict := parseStrict_eq hparsed
      have herror : (SyntaxNode.file { file with span := ⟨id, 0, source.length⟩ }).HasError →
          ∃ d ∈ (parse source id).diagnostics, d.stage = .parser := by
        intro herror
        obtain ⟨d, hd, hstage⟩ := hreport _ _ _ _ hfile herror
        exact ⟨d, List.mem_append_right _ hd, hstage⟩
      refine ⟨_, hparsed, hstrict, herror, fun accepted haccepted herror' => ?_⟩
      rw [hstrict] at haccepted
      split at haccepted
      · rename_i hnil
        cases haccepted
        obtain ⟨d, hd, -⟩ := herror herror'
        rw [hnil] at hd
        cases hd
      · cases haccepted

/-- Tokens in no order, up to the largest offset there may be, of which the parentheses of a value
are given up; and a text of which they are never closed. -/
theorem parse_total_disordered :
    let tokens : List Token :=
      [⟨.ident "x", ⟨0, maxOffset - 1⟩⟩, ⟨.digraph .pathSep, ⟨7, 3⟩⟩,
        ⟨.control '(', ⟨maxOffset - 1, 0⟩⟩, ⟨.control ')', ⟨2, 2⟩⟩]
    parseTokens? tokens 0 = some (parseTokens tokens 0) ∧
      (∃ file, (parseTokens tokens 0).1 = some file ∧
        ((SyntaxNode.file file).HasError → ∃ d ∈ (parseTokens tokens 0).2, d.stage = .parser)) ∧
      parseTokens? (parse "x::(" 1).tokens 1 = some (parseTokens (parse "x::(" 1).tokens 1) := by
  intro tokens
  obtain ⟨hchecked, hfile⟩ := parse_total.1 tokens 0 (by decide)
  have hlength : "x::(".length < maxOffset := by decide
  exact ⟨hchecked, hfile, (parse_total.2 "x::(" 1).1 hlength⟩

end LunSyntax
