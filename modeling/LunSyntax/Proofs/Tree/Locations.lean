import LunSyntax.Proofs.Source.Lines
import LunSyntax.Proofs.Source.Numbering
import LunSyntax.Proofs.Token.Fidelity
import LunSyntax.Proofs.Token.Resumption
import LunSyntax.Proofs.Tree.Points

/-!
# Locations of messages

A message tells where it starts and stops by lines of readers, and a node by rows of bytes.  Where
only new-line chars end lines, both are the same, with one exception: a message which stops at the
end of a source, after a new-line char, stops in the line which that char ends.

* `parse_starts_within`: no diagnostic starts there, since none of the tokens but comments ends with
  a new-line char;
* `Tree.messages_located`: locations and points of all messages;
* `Tree.messages_lose_row`: a comment which is not closed.
-/

set_option autoImplicit false

namespace LunSyntax

open List (Forall₂)

/-! ## Where diagnostics start -/

section

variable {source : String} {id : UInt16}

/-- Only comments end with a new-line char. -/
theorem getLast?_ne_newline {t : Lexeme} (ht : t ∈ (tokenStream (lex source id).1 id).rest)
    (hstop : t.span.stop = source.length) : source.toList.getLast? ≠ some '\n' := by
  obtain ⟨token, hmem, hkind, rfl⟩ := mem_stream ht
  obtain ⟨lexeme, rest, hdrop, hlength, hrule⟩ :=
    (scan_munches 0 source.toList).rule (@List.drop_zero _ source.toList) token hmem
  have hbounds := (stream_ranged source id).bounds ht
  have hdropped := congrArg List.length hdrop
  rw [List.length_drop, List.length_append, String.length_toList] at hdropped
  simp only [Extent.inSource] at hstop hbounds
  obtain rfl : rest = [] := List.eq_nil_of_length_eq_zero (by omega)
  rw [List.append_nil] at hdrop
  intro hlast
  refine hrule.not_mem_newline hkind (List.mem_of_getLast? ?_)
  rw [← hdrop, List.getLast?_drop, if_neg (by rw [String.length_toList]; omega), hlast]

/-- A complaint starts before the end, or where a token stops. -/
theorem Cursor.Locates.start_lt {tokens : List Token} {hi : Nat} {e : Complaint}
    (h : (tokenStream tokens id).Locates e) (hearly : e.BeforeEnd)
    (hranged : Ranged 0 hi (tokenStream tokens id).rest) (hpos : 0 < tokensEnd tokens)
    (hle : tokensEnd tokens ≤ hi) :
    e.shownSpan.start < hi ∨
      ∃ t ∈ (tokenStream tokens id).rest, t.span.stop = e.shownSpan.start := by
  rcases h with hlocated | hend
  · have hspan : e.span.start < hi ∨ 0 < e.span.start ∧ e.span.start ≤ hi ∧
        ∃ t ∈ (tokenStream tokens id).rest, t.span.stop = e.span.start := by
      generalize e.span = s at hlocated
      cases hlocated with
      | span hin hcovers =>
        have := hcovers.bounds (hranged.sublist hin.sublist)
        exact .inl (by omega)
      | @stop us s hin hcovers =>
        have := hcovers.bounds (hranged.sublist hin.sublist)
        obtain ⟨t, ht, hstop⟩ := hcovers.stop_mem
        exact .inr ⟨by simp only [Span.atStop]; omega, this.2.2, t, hin.subset ht, hstop.symm⟩
    unfold Complaint.shownSpan
    split
    · exact .inl (by dsimp only; omega)
    · exact hspan.imp_right fun h => h.2.2
  · left
    rw [hend.shownSpan_eq hearly hpos]
    dsimp only
    omega

/-- **No diagnostic starts at the end after a new-line char.** -/
theorem parse_starts_within {d : Diagnostic} (hd : d ∈ (parse source id).diagnostics) {span : Span}
    (hspan : d.span = some span) (hstart : span.start = source.length) :
    source.toList.getLast? ≠ some '\n' := by
  rcases List.mem_append.1 hd with hlexical | hgrammatical
  · -- all faults of the lexer are about some chars
    obtain ⟨fault, hfault, rfl⟩ := List.mem_map.1 hlexical
    have hbounds := (joinRuns_inOrder (scan_faults 0 source.toList)).bounds
      (List.mem_map_of_mem hfault)
    rw [toDiagnostic_span] at hspan
    cases hspan
    rw [Nat.zero_add, String.length_toList] at hbounds
    simp only [Extent.inSource] at hstart
    omega
  · obtain ⟨e, rfl, hlocates, hearly, hpos, hle⟩ := parseTokens_complaints source id d hgrammatical
    cases hspan
    rcases hlocates.start_lt hearly (stream_ranged source id) hpos hle with hlt | ⟨t, ht, hstop⟩
    · omega
    · exact getLast?_ne_newline ht (hstop.trans hstart)

end

/-! ## Messages -/

/-- Colors are no matter for anything but the display. -/
theorem DisplayStyle.apply_each {α : Type} {R : α → Message → Prop} {as : List α}
    {messages : List Message} (style : DisplayStyle) (hplain : ∀ a m, R a m → R a m.plain)
    (h : Forall₂ R as messages) : Forall₂ R as (style.apply messages) := by
  cases style with
  | plain => exact List.forall₂_map_right_iff.2 (h.imp hplain)
  | color => exact h

namespace Tree

/-- The row of an offset in the index, and the chars since the row starts. -/
def rowColumn (t : Tree) (offset : Nat) : LineColumn :=
  ⟨(t.index.point (t.index.byte offset)).row, sinceLast '\n' (t.source.toList.take offset)⟩

/-- A location is that of a span by rows, but the end of a source which ends with a new-line char is
in the line before the last row. -/
structure Locates (t : Tree) (span : Span) (location : Location) : Prop where
  start : location.start = t.rowColumn span.start
  stop : ¬ (span.stop = t.source.length ∧ t.source.toList.getLast? = some '\n') →
    location.stop = t.rowColumn span.stop
  stop_end : ∀ init, t.source.toList = init ++ ['\n'] → span.stop = t.source.length →
    location.stop.line + 1 = (t.rowColumn span.stop).line ∧
      location.stop.column = sinceLast '\n' init + 1

/-- The row of an offset is found by counting. -/
theorem rowColumn_eq (language : Language) (source : String) (options : Options) (offset : Nat) :
    (parse language source options).rowColumn offset =
      ⟨(source.toList.take offset).count '\n', sinceLast '\n' (source.toList.take offset)⟩ :=
  congrArg (LineColumn.mk · _) (SourceIndex.point_byte_row source offset)

/-- The stop of a span has a line, be it the end of the source or not. -/
theorem stop_located (language : Language) (source : String) (options : Options)
    (h : OnlyNewlines source.toList) {span : Span} (hle : span.stop ≤ source.length) :
    let t := parse language source options
    ∃ stop, (SourceLines.ofSource source).locate? span.stop = some stop ∧
      t.Locates span ⟨t.rowColumn span.start, stop⟩ := by
  intro t
  by_cases hend : span.stop = source.length ∧ source.toList.getLast? = some '\n'
  · obtain ⟨hstop, hlast⟩ := hend
    obtain ⟨init, hinit⟩ := List.getLast?_eq_some_iff.1 hlast
    refine ⟨_, by rw [hstop]; exact SourceLines.locate?_end h hinit, rfl,
      fun hnot => absurd ⟨hstop, hlast⟩ hnot, fun init' hinit' _ => ?_⟩
    obtain rfl : init = init' := List.append_cancel_right (hinit.symm.trans hinit')
    have hrow : (t.rowColumn span.stop).line = source.toList.count '\n' := by
      rw [rowColumn_eq, List.take_of_length_le (by rw [String.length_toList]; omega)]
    rw [hrow, hinit, List.count_append, List.count_singleton_self]
    exact ⟨rfl, rfl⟩
  · refine ⟨_, SourceLines.locate?_eq h hle (fun hstop hlast => hend ⟨hstop, hlast⟩), rfl,
      fun _ => (rowColumn_eq language source options span.stop).symm, fun init hinit hstop => ?_⟩
    exact absurd ⟨hstop, List.getLast?_eq_some_iff.2 ⟨init, hinit⟩⟩ hend

/-- Each diagnostic has a location. -/
theorem diagnostic_located (language : Language) (source : String) (options : Options)
    (h : OnlyNewlines source.toList) :
    let t := parse language source options
    ∀ d ∈ t.diagnostics, ∃ span location, d.span = some span ∧ span.source = options.source ∧
      span.start ≤ span.stop ∧ span.locate? (SourceLines.ofSource source) = some location ∧
      t.Locates span location := by
  intro t d hd
  obtain ⟨span, hspan, hsource, hforward, hle⟩ := parse_bounded source options.source d hd
  have hstart : (SourceLines.ofSource source).locate? span.start =
      some (t.rowColumn span.start) := by
    rw [rowColumn_eq]
    exact SourceLines.locate?_eq h (Nat.le_trans hforward hle) (parse_starts_within hd hspan)
  obtain ⟨stop, hstop, hlocates⟩ := stop_located language source options h hle
  refine ⟨span, ⟨t.rowColumn span.start, stop⟩, hspan, hsource, hforward, ?_, hlocates⟩
  unfold Span.locate?
  rw [hstart, hstop]
  rfl

/-- **Locations are those of the nodes' rows.**  In a source where only new-line chars end lines,
each diagnostic has a message, in the same order.  It starts in the row of its first char, as many
chars after the start of the row as there are, and stops likewise; but at the end of a source which
ends with a new-line char it stops in the line that this char ends, and not in the row after it. -/
theorem messages_located (language : Language) (source : String) (options : Options)
    (colored : Bool) (h : OnlyNewlines source.toList) :
    let t := parse language source options
    Forall₂ (fun d m => ∃ span location, d.span = some span ∧ m.span = some span ∧
      m.location = some location ∧ t.Locates span location) t.diagnostics (t.messages colored) := by
  intro t
  have hsource : ((SourceTree.single options.source "" source).path? options.source).bind
      (SourceTree.single options.source "" source).content? = some source := by
    rw [SourceTree.path?_single, if_pos rfl, Option.bind_some, SourceTree.content?_single,
      if_pos (samePath_iff.2 rfl)]
  have hcomposed : ∀ m ∈ t.diagnostics.map Message.ofDiagnostic, ∃ composed,
      m.compose? (.single options.source "" source) colored = some composed ∧
        ∃ span location, m.span = some span ∧ composed.span = some span ∧
          composed.location = some location ∧ t.Locates span location := by
    intro m hm
    obtain ⟨d, hd, rfl⟩ := List.mem_map.1 hm
    obtain ⟨span, location, hspan, hid, hforward, hlocation, hlocates⟩ :=
      diagnostic_located language source options h d hd
    obtain ⟨composed, hcomposed, hspan', hlocation'⟩ := Message.compose?_located
      (m := .ofDiagnostic d) colored hspan (by rw [hid]; exact hsource) hforward hlocation
    exact ⟨composed, hcomposed, span, location, hspan, hspan', hlocation', hlocates⟩
  obtain ⟨composed, hmessages, heach⟩ := composeMessages?_each hcomposed
  have hshown : t.messages colored = options.display.apply composed :=
    congrArg (fun ms => options.display.apply (Option.getD ms _)) hmessages
  rw [hshown]
  exact options.display.apply_each (fun d m h => h) (List.forall₂_map_left_iff.1 heach)

/-- Two chars which start no token, on different lines. -/
theorem messages_located_call :
    let t := parse .current "a :: f(é,\n 2 # 3);\n" {}
    OnlyNewlines t.source.toList ∧ 2 ≤ t.diagnostics.length ∧
      Forall₂ (fun d m => ∃ span location, d.span = some span ∧ m.span = some span ∧
        m.location = some location ∧ t.Locates span location) t.diagnostics (t.messages false) := by
  intro t
  have honly : OnlyNewlines t.source.toList := by decide +kernel
  exact ⟨honly, by decide +kernel,
    messages_located .current "a :: f(é,\n 2 # 3);\n" {} false honly⟩

/-- **A comment which is not closed stops in different rows**: the one after the last new-line char
for nodes, the one before it for messages. -/
theorem messages_lose_row :
    let t := parse .current "/* a\n" {}
    OnlyNewlines t.source.toList ∧ ¬ ∀ m ∈ t.messages false, ∃ span location, m.span = some span ∧
      m.location = some location ∧ location.start = t.rowColumn span.start ∧
      location.stop = t.rowColumn span.stop := by
  intro t
  have hmessages : (t.messages false).map (fun m => (m.span, m.location)) =
      [(some ⟨1, 0, 5⟩, some ⟨⟨0, 0⟩, ⟨0, 5⟩⟩)] := by decide +kernel
  have hrow : t.rowColumn 5 = ⟨1, 0⟩ := by decide +kernel
  refine ⟨by decide +kernel, fun h => ?_⟩
  obtain ⟨m, hm, hparts⟩ := List.mem_map.1 (hmessages ▸ List.mem_singleton.2 rfl :
    (some ⟨1, 0, 5⟩, some ⟨⟨0, 0⟩, ⟨0, 5⟩⟩) ∈ (t.messages false).map fun m => (m.span, m.location))
  obtain ⟨span, location, hspan, hlocation, -, hstop⟩ := h m hm
  rw [hspan, hlocation] at hparts
  cases hparts
  rw [hrow] at hstop
  cases hstop

end Tree

end LunSyntax
