import Mathlib.Data.List.Forall2
import LunSyntax.Proofs.Grammar.Built
import LunSyntax.Proofs.Grammar.Completeness
import LunSyntax.Proofs.Grammar.Spans
import LunSyntax.Proofs.Parser.Unclosed
import LunSyntax.SourceTree

/-!
# Diagnostics can be shown

What is missing at the end of a text is complained about one past its last token, and moved back
when it is worded.  Complaints about delimiters are not moved, but none of those made at the end is
left.  So all diagnostics are about places in the text, and have lines and columns there.

* `Grammar.Built.beforeEnd`: complaints about unclosed delimiters are made in front of a token;
* `parse_bounded`: each diagnostic has a span within the text;
* `Message.compose?_located`, `composeMessages?_each`: messages are composed one by one, each at the
  location of its span;
* `parse_locatable`: hence a location, wherever the text is found by the number of its source.
-/

set_option autoImplicit false

namespace LunSyntax

/-- A parser of the grammar complains about unclosed delimiters in front of a token only. -/
theorem Grammar.Built.beforeEnd {strict : Bool} {α : Type} {p : Parser α} (h : Built strict p) :
    p.BeforeEnd strict := by
  induction h with
  | pure a => exact .pure a
  | fail => exact .fail
  | token _ => exact .token
  | finish => exact .finish
  | bind _ _ hp hf => exact .bind hp hf
  | withSpan _ hp => exact .withSpan hp
  | check _ _ hp => exact .check hp
  | either _ _ hp hq => exact .or hp hq
  | choice _ hps => exact .choice hps
  | optional _ hp => exact .optional hp
  | many _ hp => exact .many hp
  | sepBy _ _ hp hsep => exact .sepBy hp hsep
  | recoverDelimited _ _ hp => exact .recoverDelimited hp
  | recoverSkipping _ hp => exact .recoverSkipping hp
  | deferred _ hf => exact fun c => hf c.left c
  | weaken _ hp => exact hp.weaken

/-! ## Bounds -/

/-- Only that something is missing can be said at the end, and this is moved back. -/
theorem Cursor.AtFinish.shownSpan_eq {tokens : List Token} {id : UInt16} {e : Complaint}
    (h : (tokenStream tokens id).AtFinish e) (hearly : e.BeforeEnd) (hpos : 0 < tokensEnd tokens) :
    e.shownSpan = ⟨id, tokensEnd tokens - 1, tokensEnd tokens⟩ := by
  have hcause : e.cause = .unexpected := by
    cases hcause : e.cause with
    | unexpected => rfl
    | unclosed delimiter =>
      have := hearly _ hcause
      rw [h.left] at this
      omega
    | custom message => exact absurd hcause (h.cause message)
  have hspan : e.span = ⟨id, tokensEnd tokens, tokensEnd tokens + 1⟩ := h.span
  unfold Complaint.shownSpan
  rw [if_pos ⟨hcause, h.found, by rw [hspan]; exact hpos, by rw [hspan]; exact Nat.succ_pos _⟩,
    hspan]
  rfl

/-- What a complaint about a text is about is in the text, or at the end of its last token. -/
theorem Cursor.Locates.bounds {tokens : List Token} {id : UInt16} {hi : Nat} {e : Complaint}
    (h : (tokenStream tokens id).Locates e) (hearly : e.BeforeEnd)
    (hranged : Ranged 0 hi (tokenStream tokens id).rest) (hpos : 0 < tokensEnd tokens)
    (hle : tokensEnd tokens ≤ hi) :
    e.shownSpan.source = id ∧ e.shownSpan.start ≤ e.shownSpan.stop ∧ e.shownSpan.stop ≤ hi := by
  rcases h with hlocated | hend
  · have hbounds : e.span.source = id ∧ e.span.start ≤ e.span.stop ∧ e.span.stop ≤ hi := by
      generalize e.span = s at hlocated
      cases hlocated with
      | span hin hcovers =>
        have := hcovers.bounds (hranged.sublist hin.sublist)
        exact ⟨hcovers.source_eq, by omega⟩
      | @stop us s hin hcovers =>
        have := hcovers.bounds (hranged.sublist hin.sublist)
        exact ⟨hcovers.source_eq, Nat.le_refl _, this.2.2⟩
    unfold Complaint.shownSpan
    split
    · exact ⟨hbounds.1, by dsimp only; omega⟩
    · exact hbounds
  · rw [hend.shownSpan_eq hearly hpos]
    exact ⟨rfl, by dsimp only; omega⟩

/-- Without tokens there is nothing to complain about. -/
theorem parseTokens_nil (id : UInt16) : (parseTokens [] id).2 = [] := by
  have hfile : SourceFile.canonical ⟨[], noSpan⟩ = true := rfl
  obtain ⟨items, after, alt, hparse, -⟩ := Grammar.sourceFile_takes hfile
    (c := tokenStream [] id) rfl
  unfold parseTokens
  rw [hparse]
  rfl

/-- What a diagnostic is about is a range of a source. -/
def Diagnostic.Bounded (source : String) (id : UInt16) (d : Diagnostic) : Prop :=
  ∃ span, d.span = some span ∧ span.source = id ∧ span.start ≤ span.stop ∧
    span.stop ≤ source.length

theorem lex_bounded (source : String) (id : UInt16) :
    ∀ d ∈ (lex source id).2, d.Bounded source id := by
  intro d hd
  obtain ⟨fault, hfault, rfl⟩ := List.mem_map.1 hd
  have hbounds := (joinRuns_inOrder (scan_faults 0 source.toList)).bounds
    (List.mem_map_of_mem hfault)
  rw [Nat.zero_add, String.length_toList] at hbounds
  exact ⟨_, toDiagnostic_span _ _ _, rfl, Nat.le_of_lt hbounds.2.1, hbounds.2.2⟩

/-- The complaints about a text are about its tokens, of which there are some. -/
theorem parseTokens_complaints (source : String) (id : UInt16) :
    ∀ d ∈ (parseTokens (lex source id).1 id).2, ∃ e : Complaint, d = e.toDiagnostic ∧
      (tokenStream (lex source id).1 id).Locates e ∧ e.BeforeEnd ∧
      0 < tokensEnd (lex source id).1 ∧ tokensEnd (lex source id).1 ≤ source.length := by
  intro d hd
  cases hlast : (lex source id).1.getLast? with
  | none =>
    rw [List.getLast?_eq_none_iff.1 hlast, parseTokens_nil] at hd
    cases hd
  | some last =>
    have hend : tokensEnd (lex source id).1 = last.extent.stop := by
      unfold tokensEnd
      rw [hlast]
    have hbounds := (lex_accounting source id).bounds last (List.mem_of_getLast? hlast)
    rw [String.length_toList] at hbounds
    obtain ⟨reported, items, after, alt, hfile, -, hlocates⟩ :=
      tokenStream_spells (lex source id).1 id
    have hearly := Grammar.sourceFile_built.beforeEnd (tokenStream (lex source id).1 id)
    unfold parseTokens at hd
    rw [hfile] at hearly hd
    obtain ⟨e, he, rfl⟩ := List.mem_map.1 hd
    cases hearly with
    | ok hreported _ =>
      exact ⟨e, rfl, hlocates e he, hreported e he, by omega, by omega⟩

theorem parseTokens_bounded (source : String) (id : UInt16) :
    ∀ d ∈ (parseTokens (lex source id).1 id).2, d.Bounded source id := by
  intro d hd
  obtain ⟨e, rfl, hlocates, hearly, hpos, hle⟩ := parseTokens_complaints source id d hd
  exact ⟨_, rfl, hlocates.bounds hearly (stream_ranged source id) hpos hle⟩

/-- Each diagnostic is about a place in the text. -/
theorem parse_bounded (source : String) (id : UInt16) :
    ∀ d ∈ (parse source id).diagnostics, d.Bounded source id :=
  List.forall_mem_append.2 ⟨lex_bounded source id, parseTokens_bounded source id⟩

/-! ## Locations -/

theorem lineChars_eq_nil {cs : List Char} : lineChars cs = [] → cs = [] := by
  fun_cases lineChars cs <;> simp

/-- An offset which is no further than the end of a source has a line and a column. -/
theorem SourceLines.locate?_isSome {source : String} {offset : Nat} (h : offset ≤ source.length) :
    ((SourceLines.ofSource source).locate? offset).isSome = true := by
  unfold SourceLines.locate? SourceLines.ofSource
  rw [Option.isSome_map]
  rw [← String.length_toList] at h ⊢
  generalize source.toList = cs at h ⊢
  split
  · rename_i hlines
    have hchars : lineChars cs = [] := by
      cases hchars : lineChars cs with
      | nil => rfl
      | cons line more =>
        rw [hchars] at hlines
        cases hlines
    rw [lineChars_eq_nil hchars] at h
    simp [SourceLines.lineOf?, Nat.le_zero.1 h]
  · rename_i hne
    unfold SourceLines.lineOf?
    dsimp only
    split
    · rw [if_pos h]
      rfl
    · rename_i hnil
      exact absurd hnil hne

/-- A span in a source has a location. -/
theorem Span.locate?_eq_some {source : String} (span : Span) (hforward : span.start ≤ span.stop)
    (hstop : span.stop ≤ source.length) :
    ∃ location, span.locate? (SourceLines.ofSource source) = some location := by
  obtain ⟨start, hstart⟩ := Option.isSome_iff_exists.1
    (SourceLines.locate?_isSome (Nat.le_trans hforward hstop))
  obtain ⟨stop, hstop⟩ := Option.isSome_iff_exists.1 (SourceLines.locate?_isSome hstop)
  refine ⟨⟨start, stop⟩, ?_⟩
  unfold Span.locate?
  rw [hstart, hstop]
  rfl

section

variable {sources : SourceTree} {colored : Bool} {m : Message} {span : Span} {source : String}

/-- A message is composed at the location of its span. -/
theorem Message.compose?_located (colored : Bool) {location : Location} (hspan : m.span = some span)
    (hsource : (sources.path? span.source).bind sources.content? = some source)
    (hforward : span.start ≤ span.stop)
    (hlocation : span.locate? (SourceLines.ofSource source) = some location) :
    ∃ composed, m.compose? sources colored = some composed ∧ composed.span = some span ∧
      composed.location = some location := by
  obtain ⟨path, hpath, hcontent⟩ := Option.bind_eq_some_iff.1 hsource
  unfold Message.compose?
  simp only [hspan, hpath, hcontent, hlocation, Option.bind_eq_bind, Option.bind_some,
    Option.pure_def, hforward, if_true]
  cases colored <;> exact ⟨_, rfl, rfl, rfl⟩

/-- A message about a range of a source is shown there. -/
theorem Message.compose?_location (hspan : m.span = some span)
    (hsource : (sources.path? span.source).bind sources.content? = some source)
    (hforward : span.start ≤ span.stop) (hstop : span.stop ≤ source.length) :
    ∃ composed, m.compose? sources colored = some composed ∧ composed.span = m.span ∧
      composed.location.isSome = true := by
  obtain ⟨location, hlocation⟩ := span.locate?_eq_some hforward hstop
  obtain ⟨composed, hcomposed, hspan', hlocation'⟩ :=
    Message.compose?_located colored hspan hsource hforward hlocation
  exact ⟨composed, hcomposed, hspan'.trans hspan.symm, by rw [hlocation', Option.isSome_some]⟩

/-- Messages each of which can be composed can be composed together, one by one and in order. -/
theorem composeMessages?_each {R : Message → Message → Prop} {messages : List Message}
    (h : ∀ m ∈ messages, ∃ composed, m.compose? sources colored = some composed ∧ R m composed) :
    ∃ composed, composeMessages? sources colored messages = some composed ∧
      List.Forall₂ R messages composed := by
  unfold composeMessages?
  induction messages with
  | nil => exact ⟨[], rfl, .nil⟩
  | cons m rest ih =>
    obtain ⟨⟨first, hfirst, hrelated⟩, hrest⟩ := List.forall_mem_cons.1 h
    obtain ⟨composed, hcomposed, heach⟩ := ih hrest
    refine ⟨first :: composed, ?_, .cons hrelated heach⟩
    rw [List.mapM_cons, hfirst, hcomposed]
    rfl

theorem composeMessages?_location {messages : List Message}
    (h : ∀ m ∈ messages, ∃ composed, m.compose? sources colored = some composed ∧
      composed.span = m.span ∧ composed.location.isSome = true) :
    ∃ composed, composeMessages? sources colored messages = some composed ∧
      composed.map Message.span = messages.map Message.span ∧
      ∀ m ∈ composed, m.location.isSome = true := by
  obtain ⟨composed, hcomposed, heach⟩ := composeMessages?_each h
  refine ⟨composed, hcomposed, ?_⟩
  clear h hcomposed
  induction heach with
  | nil => simp
  | cons hfirst _ ih =>
    refine ⟨?_, List.forall_mem_cons.2 ⟨hfirst.2, ih.2⟩⟩
    rw [List.map_cons, List.map_cons, hfirst.1, ih.1]

end

/-- **Every diagnostic can be shown.**  It has a span of the source which is in the text, so where
the number of the source leads to that text, each message gets a location. -/
theorem parse_locatable (source : String) (id : UInt16) :
    (∀ d ∈ (parse source id).diagnostics, ∃ span, d.span = some span ∧ span.source = id ∧
      span.start ≤ span.stop ∧ span.stop ≤ source.length) ∧
    ∀ (sources : SourceTree) (colored : Bool),
      (sources.path? id).bind sources.content? = some source →
      ∃ messages, composeMessages? sources colored
          ((parse source id).diagnostics.map Message.ofDiagnostic) = some messages ∧
        messages.map Message.span = (parse source id).diagnostics.map Diagnostic.span ∧
        ∀ m ∈ messages, m.location.isSome = true := by
  have hbounded := parse_bounded source id
  refine ⟨hbounded, fun sources colored hsource => ?_⟩
  have hcompose : ∀ m ∈ (parse source id).diagnostics.map Message.ofDiagnostic, ∃ composed,
      m.compose? sources colored = some composed ∧ composed.span = m.span ∧
        composed.location.isSome = true := by
    rintro m hm
    obtain ⟨d, hd, rfl⟩ := List.mem_map.1 hm
    obtain ⟨span, hspan, rfl, hforward, hstop⟩ := hbounded d hd
    exact Message.compose?_location hspan hsource hforward hstop
  obtain ⟨messages, hmessages, hspans, hlocations⟩ := composeMessages?_location hcompose
  refine ⟨messages, hmessages, ?_, hlocations⟩
  rw [hspans, List.map_map]
  rfl

/-- The parenthesis of `a :: (b::c` is never closed, which is only seen at the end. -/
theorem parse_locatable_unclosed :
    let sources := SourceTree.single 3 "main.lun" "a :: (b::c"
    (sources.path? 3).bind sources.content? = some "a :: (b::c" ∧
      ∃ messages, composeMessages? sources false
          ((parse "a :: (b::c" 3).diagnostics.map Message.ofDiagnostic) = some messages ∧
        messages.map Message.span = (parse "a :: (b::c" 3).diagnostics.map Diagnostic.span ∧
        ∀ m ∈ messages, m.location.isSome = true := by
  intro sources
  have hsource : (sources.path? 3).bind sources.content? = some "a :: (b::c" := by decide +kernel
  exact ⟨hsource, (parse_locatable "a :: (b::c" 3).2 sources false hsource⟩

end LunSyntax
