import LunSyntax.Proofs.Grammar.Totality
import LunSyntax.Proofs.Parser.Reporting

/-!
# Where semicolons may be missing

A statement or definition without a semicolon is one that needs none, or it is complained about, and
the complaint is still there in the end, however deep the statement is nested and whatever was tried
or given up around it.  The value of a block comes right before the brace that closes the block.

* `Edged`: a span over all of some tokens, even if some of them are empty;
* `AllTerminated`: in all nodes within some, statements and definitions end as they should;
* `ExprRead`: an expression as every rule of the grammar reads it, and `Continues`: what becomes of
  it by what follows;
* one lemma for each rule, for any parsers of what it holds, and the knot by induction on the depth;
* `parseTokens_terminates`: semicolons and values in the file of some tokens.
-/

set_option autoImplicit false

namespace LunSyntax

/-! ## Spans over tokens, some of which are empty -/

/-- Tokens in order.  Unlike those in `Ranged` they may be empty. -/
structure Ordered (used : List Lexeme) : Prop where
  forward : ∀ t ∈ used, t.span.start ≤ t.span.stop
  apart : used.Pairwise fun t u => t.span.stop ≤ u.span.start

theorem Ordered.sublist {us used : List Lexeme} (h : Ordered used) (hs : us.Sublist used) :
    Ordered us :=
  ⟨fun t ht => h.forward t (hs.subset ht), h.apart.sublist hs⟩

/-- A span over some tokens, from the first to the last one if they stand in order. -/
structure Edged (source : UInt16) (used : List Lexeme) (span : Span) : Prop where
  ne_nil : used ≠ []
  tight : Ordered used → Exact source used span

section

variable {source : UInt16} {us vs used : List Lexeme} {s s' : Span}

theorem Exact.ne_nil (h : Exact source used s) : used ≠ [] := by
  obtain ⟨first, -, hfirst, -, -⟩ := h
  rintro rfl
  cases hfirst

theorem Exact.edged (h : Exact source used s) : Edged source used s := ⟨h.ne_nil, fun _ => h⟩

/-- Spans over tokens one after the other are covered by one over all of these tokens. -/
theorem Edged.cover (h : Edged source us s) (gap : List Lexeme) (h' : Edged source vs s') :
    Edged source (us ++ (gap ++ vs)) (s.cover s') := by
  refine ⟨List.append_ne_nil_of_left_ne_nil h.ne_nil _, fun hordered => ?_⟩
  have hright : (gap ++ vs).Sublist (us ++ (gap ++ vs)) := List.sublist_append_right _ _
  obtain ⟨first, last, hfirst, hlast, rfl⟩ :=
    h.tight (hordered.sublist (List.sublist_append_left _ _))
  obtain ⟨first', last', hfirst', hlast', rfl⟩ :=
    h'.tight (hordered.sublist ((List.sublist_append_right _ _).trans hright))
  have hbefore : ∀ t ∈ us, ∀ u ∈ vs, t.span.stop ≤ u.span.start := fun t ht u hu =>
    (List.pairwise_append.1 hordered.apart).2.2 t ht u (List.mem_append_right _ hu)
  have hmem := List.mem_of_mem_head? hfirst
  have hmem' := List.mem_of_getLast? hlast'
  refine ⟨first, last', by simp [hfirst], by simp [hlast'], ?_⟩
  have hstart : first.span.start ≤ first'.span.start :=
    Nat.le_trans (hordered.forward first (List.mem_append_left _ hmem))
      (hbefore first hmem first' (List.mem_of_mem_head? hfirst'))
  have hstop : last.span.stop ≤ last'.span.stop :=
    Nat.le_trans (hbefore last (List.mem_of_getLast? hlast) last' hmem')
      (hordered.forward last' (by simp [hmem']))
  show Span.mk source (min _ _) (max _ _) = _
  rw [Nat.min_eq_left hstart, Nat.max_eq_right hstop]

end

/-! ## Ends of statements and blocks -/

/-- An expression needs no semicolon after it, or one is said to be missing at its very end. -/
def Excused (es : List Complaint) (e : Expr) : Prop :=
  e.kind.needsSemicolon = true → Told es [Grammar.missingSemicolon e]

/-- The tokens of a block and of its value, which the closing brace comes right after. -/
structure Block.Closes (source : UInt16) (b : Block) (e : Expr) (opening : Lexeme)
    (gap us : List Lexeme) (closing : Lexeme) : Prop where
  opens : opening.node = .control '{'
  closes : closing.node = .control '}'
  span : Exact source (opening :: (gap ++ (us ++ [closing]))) b.span
  whole : (SyntaxNode.expr e).Whole source us
  edged : Edged source us e.span

/-- The statements and the value of a block, or a definition, end as they should. -/
def SyntaxNode.Terminated (source : UInt16) (used : List Lexeme) (es : List Complaint) :
    SyntaxNode → Prop
  | .block b => (∀ s ∈ b.stmts, s.semicolon = false → Excused es s.expr) ∧
    ∀ e, b.lastExpr = some e → ∃ opening gap us closing,
      opening :: (gap ++ (us ++ [closing])) <:+: used ∧ b.Closes source e opening gap us closing
  | .item i => i.definition.semicolon = false → Excused es i.definition.value
  | _ => True

/-- Everything within some nodes ends as it should. -/
def AllTerminated (source : UInt16) (ns : List SyntaxNode) (used : List Lexeme)
    (es : List Complaint) : Prop :=
  ∀ n ∈ ns, ∀ m : SyntaxNode, m.Within n → m.Terminated source used es

theorem Told.mono {es more : List Complaint} {messages : List (Span × String)}
    (h : Told es messages) (hes : es ⊆ more) : Told more messages := by
  intro m hm
  obtain ⟨e, he, hcomplaint⟩ := h m hm
  exact ⟨e, hes he, hcomplaint⟩

theorem Excused.mono {es more : List Complaint} {e : Expr} (h : Excused es e) (hes : es ⊆ more) :
    Excused more e :=
  fun hneeds => (h hneeds).mono hes

namespace AllTerminated

variable {source : UInt16} {ns ms : List SyntaxNode} {n : SyntaxNode} {used us vs : List Lexeme}
  {es more : List Complaint}

/-- What is well with some tokens and complaints is well with more of them. -/
theorem mono (h : AllTerminated source ns us es) (hus : us <:+: used) (hes : es ⊆ more) :
    AllTerminated source ns used more := by
  intro n hn m hm
  have hm := h n hn m hm
  cases m with
  | block b =>
    refine ⟨fun s hs hnone => (hm.1 s hs hnone).mono hes, fun e he => ?_⟩
    obtain ⟨opening, gap, ws, closing, hin, hcloses⟩ := hm.2 e he
    exact ⟨opening, gap, ws, closing, hin.trans hus, hcloses⟩
  | item i => exact fun hnone => (hm hnone).mono hes
  | _ => trivial

theorem left (h : AllTerminated source ns us es) :
    AllTerminated source ns (us ++ vs) (es ++ more) :=
  h.mono (List.prefix_append _ _).isInfix (List.subset_append_left _ _)

theorem right (h : AllTerminated source ns vs more) :
    AllTerminated source ns (us ++ vs) (es ++ more) :=
  h.mono (List.suffix_append _ _).isInfix (List.subset_append_right _ _)

/-- What is told in addition takes nothing away. -/
theorem told (h : AllTerminated source ns used es) : AllTerminated source ns used (es ++ more) :=
  h.mono (List.infix_refl _) (List.subset_append_left _ _)

theorem nil : AllTerminated source [] used es := by
  intro n hn
  cases hn

theorem append (h : AllTerminated source ns used es) (h' : AllTerminated source ms used es) :
    AllTerminated source (ns ++ ms) used es :=
  List.forall_mem_append.2 ⟨h, h'⟩

theorem cons (h : AllTerminated source [n] used es) (h' : AllTerminated source ns used es) :
    AllTerminated source (n :: ns) used es :=
  List.forall_mem_cons.2 ⟨h n (List.mem_singleton_self n), h'⟩

theorem of_parts (hn : n.Terminated source used es) (h : AllTerminated source n.parts used es) :
    AllTerminated source [n] used es := by
  intro n' hn' m hm
  cases List.mem_singleton.1 hn'
  cases hm with
  | refl => exact hn
  | part hpart hm => exact h _ hpart m hm

theorem name (name : Ident) : AllTerminated source [.name name] used es := of_parts trivial nil

theorem expr {e : Expr} (h : AllTerminated source e.kind.parts used es) :
    AllTerminated source [.expr e] used es :=
  of_parts trivial h

theorem label (label : Option Ident) :
    AllTerminated source (label.map SyntaxNode.name).toList used es := by
  cases label with
  | none => exact nil
  | some label => exact name label

theorem path (p : Path) : AllTerminated source (ExprKind.path p).parts used es := by
  have hsegments : AllTerminated source (p.segments.map .name) used es := by
    intro n hn
    obtain ⟨segment, -, rfl⟩ := List.mem_map.1 hn
    exact name segment _ (List.mem_singleton_self _)
  refine cons ?_ hsegments
  cases p.root with
  | orb span => exact of_parts trivial nil
  | ident first => exact name first

end AllTerminated

/-- An expression, its tokens and what is reported with it. -/
structure ExprRead (source : UInt16) (e : Expr) (used : List Lexeme) (es : List Complaint) :
    Prop where
  edged : Edged source used e.span
  nodes : AllTerminated source [.expr e] used es

/-- A form of expression, its tokens and what is reported with it. -/
structure FormRead (source : UInt16) (kind : ExprKind) (used : List Lexeme)
    (es : List Complaint) : Prop where
  ne_nil : used ≠ []
  parts : AllTerminated source kind.parts used es

/-- A block, its tokens and what is reported with it. -/
structure BlockRead (source : UInt16) (b : Block) (used : List Lexeme) (es : List Complaint) :
    Prop where
  ne_nil : used ≠ []
  nodes : AllTerminated source [.block b] used es

/-- An expression after some other tokens. -/
def ExprAfter (source : UInt16) (e : Expr) (used : List Lexeme) (es : List Complaint) : Prop :=
  ∃ gap us before more, used = gap ++ us ∧ es = before ++ more ∧ ExprRead source e us more

section

variable {source : UInt16} {kind : ExprKind} {span : Span} {us vs used : List Lexeme}
  {es more : List Complaint} {lhs rhs : Expr}

theorem FormRead.expr (h : FormRead source kind used es)
    (hspan : used ≠ [] → Exact source used span) : ExprRead source ⟨kind, span⟩ used es :=
  ⟨(hspan h.ne_nil).edged, .expr h.parts⟩

/-- Two expressions and what is between them. -/
theorem ExprRead.both (h : ExprRead source lhs us es) (h' : ExprAfter source rhs vs more) :
    Edged source (us ++ vs) (lhs.span.cover rhs.span) ∧
      AllTerminated source [.expr lhs] (us ++ vs) (es ++ more) ∧
      AllTerminated source [.expr rhs] (us ++ vs) (es ++ more) := by
  obtain ⟨gap, ws, before, last, rfl, rfl, hrhs⟩ := h'
  exact ⟨h.edged.cover gap hrhs.edged, h.nodes.left, hrhs.nodes.right.right⟩

/-- What makes a longer expression out of the one before some tokens. -/
def Continues (source : UInt16) (f : Expr → Expr) (used : List Lexeme) (es : List Complaint) :
    Prop :=
  ∀ e us before, ExprRead source e us before →
    ExprRead source (f e) (us ++ used) (before ++ es)

theorem Continues.refl : Continues source (fun e => e) [] [] := by
  intro e us before h
  rwa [List.append_nil, List.append_nil]

theorem Continues.trans {f g : Expr → Expr} (h : Continues source f us es)
    (h' : Continues source g vs more) :
    Continues source (fun e => g (f e)) (us ++ vs) (es ++ more) := by
  intro e ws before he
  rw [← List.append_assoc, ← List.append_assoc]
  exact h' _ _ _ (h e ws before he)

/-- What follows an operand can be taken to it. -/
theorem ExprAfter.extend {f : Expr → Expr} (h : ExprAfter source rhs us es)
    (hf : Continues source f vs more) : ExprAfter source (f rhs) (us ++ vs) (es ++ more) := by
  obtain ⟨gap, ws, before, last, rfl, rfl, hrhs⟩ := h
  exact ⟨gap, ws ++ vs, before, last ++ more, by simp, by simp, hf _ _ _ hrhs⟩

end

namespace Grammar

open LunSyntax.Parser

variable {source : UInt16} {expr conditional operand : Parser Expr} {block : Parser Block}

/-- A parser of expressions. -/
def ExprReports (source : UInt16) (p : Parser Expr) : Prop := Reports source p (ExprRead source)

/-- A parser of blocks. -/
def BlockReports (source : UInt16) (p : Parser Block) : Prop :=
  Reports source p (BlockRead source)

/-! ## Statements and blocks -/

theorem unlabeled_reports (he : ExprReports source expr) (hb : BlockReports source block) :
    ExprReports source (unlabeled expr block) := by
  refine .withSpan (R := FormRead source) (.choice ?_) fun kind span used es h hspan =>
    h.expr hspan
  simp only [List.forall_mem_cons, List.not_mem_nil, false_imp_iff, implies_true, and_true]
  refine ⟨?_, ?_, ?_, ?_⟩
  · exact .map hb fun body used es h => ⟨h.ne_nil, h.nodes⟩
  · refine .bind (.just _) fun _ => ?_
    refine .bind he fun cond => ?_
    refine .bind hb fun body => ?_
    refine .pure ?_
    rintro vs _ hbody us _ hcond _ _ ⟨t, rfl, -⟩
    exact ⟨by simp, .cons hcond.nodes.left.right hbody.nodes.left.right.right⟩
  · refine .bind (.just _) fun _ => ?_
    refine .bind (.of_spells ident_spells) fun var => ?_
    refine .bind (.just _) fun _ => ?_
    refine .bind he fun iterator => ?_
    refine .bind hb fun body => ?_
    refine .pure ?_
    rintro ws _ hbody vs _ hiterator _ _ - us _ - _ _ ⟨t, rfl, -⟩
    exact ⟨by simp, .cons (.name var) (.cons hiterator.nodes.left.right.right.right
      hbody.nodes.left.right.right.right.right)⟩
  · refine .bind (.just _) fun _ => ?_
    refine .bind hb fun body => ?_
    refine .pure ?_
    rintro us _ hbody _ _ ⟨t, rfl, -⟩
    exact ⟨by simp, hbody.nodes.left.right⟩

theorem blockLike_reports (he : ExprReports source expr) (hb : BlockReports source block) :
    ExprReports source (blockLike expr block) := by
  refine .or (.withSpan (R := FormRead source) ?_ fun kind span used es h hspan =>
    h.expr hspan) (unlabeled_reports he hb)
  refine .bind (.of_spells ident_spells) fun label => ?_
  refine .bind (.just _) fun _ => ?_
  refine .bind (unlabeled_reports he hb) fun inner => ?_
  refine .pure ?_
  rintro vs _ hinner _ _ ⟨t, rfl, -⟩ us _ -
  exact ⟨by simp, .cons (.name label) hinner.nodes.left.right.right⟩

/-- An expression in place of a statement, which is all that is read if no semicolon follows. -/
structure StmtRead (source : UInt16) (s : Expr × Bool) (used : List Lexeme)
    (es : List Complaint) : Prop where
  nodes : AllTerminated source [.expr s.1] used es
  tokens : ∃ us gap, used = us ++ gap ∧ (SyntaxNode.expr s.1).Whole source us ∧
    Edged source us s.1.span ∧ (s.2 = false → gap = [])

theorem stmt_reports (hse : ExprSpells source expr) (hsb : BlockSpells source block)
    (he : ExprReports source expr) (hb : BlockReports source block) :
    Reports source (stmt expr block) (StmtRead source) := by
  have hexpr : Reports source (Parser.or (blockLike expr block) expr) fun e used es =>
      (SyntaxNode.expr e).Whole source used ∧ ExprRead source e used es :=
    .and (.of_spells (.or (blockLike_spells hse hsb) hse)) (.or (blockLike_reports he hb) he)
  have hsemicolon : Reports source (optional (control ';')) fun semicolon used _ =>
      semicolon.isSome = false → used = [] :=
    .optional (.just _) (fun _ => rfl) fun _ _ _ _ h => nomatch h
  refine .bind hexpr fun e => ?_
  refine .bind hsemicolon fun semicolon => ?_
  refine .pure ?_
  rintro gap _ hgap us _ ⟨hwhole, hread⟩
  refine ⟨hread.nodes.left, us, gap ++ [], rfl, hwhole, hread.edged, fun hnone => ?_⟩
  rw [hgap hnone]
  rfl

/-- The expressions of a block, and the tokens of its value, which come last. -/
structure StmtsRead (source : UInt16) (stmts : List (Expr × Bool)) (used : List Lexeme)
    (es : List Complaint) : Prop where
  nodes : AllTerminated source (stmts.map fun s => .expr s.1) used es
  nil : stmts = [] → used = []
  last : ∀ e, stmts.getLast? = some (e, false) → ∃ gap us, used = gap ++ us ∧
    (SyntaxNode.expr e).Whole source us ∧ Edged source us e.span

theorem stmts_reports (hse : ExprSpells source expr) (hsb : BlockSpells source block)
    (he : ExprReports source expr) (hb : BlockReports source block) :
    Reports source (many (stmt expr block)) (StmtsRead source) := by
  refine .many (stmt_reports hse hsb he hb) ⟨.nil, fun _ => rfl, by simp⟩ ?_
  rintro s stmts us vs es more hs hstmts
  refine ⟨.cons hs.nodes.left hstmts.nodes.right, by simp, fun e hlast => ?_⟩
  cases stmts with
  | nil =>
    cases hlast
    obtain ⟨ws, gap, rfl, hwhole, hedged, hgap⟩ := hs.tokens
    refine ⟨[], ws, ?_, hwhole, hedged⟩
    rw [hgap rfl, hstmts.nil rfl]
    simp
  | cons next stmts =>
    rw [List.getLast?_cons_cons] at hlast
    obtain ⟨gap, ws, rfl, hwhole, hedged⟩ := hstmts.last e hlast
    exact ⟨us ++ gap, ws, by simp, hwhole, hedged⟩

/-- The value of a block is its last expression, after which there is no semicolon. -/
theorem splitStmts_last {stmts : List (Expr × Bool)} {e : Expr}
    (h : (splitStmts stmts).2.1 = some e) : stmts.getLast? = some (e, false) := by
  fun_induction splitStmts stmts with
  | case1 => cases h
  | case2 e => cases h; rfl
  | case3 e' semicolon rest hne stmts lastExpr messages hrest ih =>
    rw [hrest] at ih
    cases rest with
    | nil =>
      cases hrest
      cases h
    | cons next rest =>
      rw [List.getLast?_cons_cons]
      exact ih h

/-- A semicolon is said to be missing after each statement that needs one and has none. -/
theorem splitStmts_excused {stmts : List (Expr × Bool)} {told : List Complaint}
    (h : Told told (splitStmts stmts).2.2) :
    ∀ s ∈ (splitStmts stmts).1, s.semicolon = false → Excused told s.expr := by
  fun_induction splitStmts stmts with
  | case1 => simp
  | case2 e => simp
  | case3 e semicolon rest hne stmts lastExpr messages hrest ih =>
    rw [hrest] at ih
    have hmessages : Told told messages := by
      intro m hm
      apply h m
      dsimp only
      split
      · exact List.mem_cons_of_mem _ hm
      · exact hm
    refine List.forall_mem_cons.2 ⟨?_, ih hmessages⟩
    rintro rfl hneeds m hm
    cases List.mem_singleton.1 hm
    apply h
    simp [hneeds]

/-- What is read between braces. -/
structure BodyRead (source : UInt16) (stmts : List (Expr × Bool)) (used : List Lexeme)
    (es : List Complaint) : Prop where
  nodes : AllTerminated source (stmts.map fun s => .expr s.1) used es
  tokens : ∃ opening us closing, used = opening :: (us ++ [closing]) ∧
    opening.node = .control '{' ∧ closing.node = .control '}' ∧
    ∀ e, stmts.getLast? = some (e, false) → ∃ gap vs, us = gap ++ vs ∧
      (SyntaxNode.expr e).Whole source vs ∧ Edged source vs e.span

/-- A block of expressions, and what is told about it. -/
theorem BodyRead.blockRead {stmts : List (Expr × Bool)} {span : Span} {used : List Lexeme}
    {es told : List Complaint} (h : BodyRead source stmts used es)
    (hspan : used ≠ [] → Exact source used span) (htold : Told told (splitStmts stmts).2.2) :
    BlockRead source ⟨(splitStmts stmts).1, (splitStmts stmts).2.1, span⟩ used (es ++ told) := by
  obtain ⟨hnodes, opening, us, closing, rfl, hopens, hcloses, hlast⟩ := h
  rw [← splitStmts_nodes stmts] at hnodes
  refine ⟨List.cons_ne_nil _ _, .of_parts ⟨fun s hs hnone => ?_, fun e he => ?_⟩ hnodes.told⟩
  · exact (splitStmts_excused htold s hs hnone).mono (List.subset_append_right _ _)
  · obtain ⟨gap, vs, rfl, hwhole, hedged⟩ := hlast e (splitStmts_last he)
    have hexact := hspan (List.cons_ne_nil _ _)
    rw [List.append_assoc] at hexact ⊢
    exact ⟨opening, gap, vs, closing, List.infix_refl _, hopens, hcloses, hexact, hwhole, hedged⟩

theorem blockOf_reports (hse : ExprSpells source expr) (hsb : BlockSpells source block)
    (he : ExprReports source expr) (hb : BlockReports source block) :
    BlockReports source (blockOf expr block) := by
  unfold blockOf
  refine .recoverDelimited (.check (R := BodyRead source) ?_ ?_) ?_
  · refine .bind (.just _) fun _ => ?_
    refine .bind (stmts_reports hse hsb he hb) fun stmts => ?_
    refine .bind (.just _) fun _ => ?_
    refine .pure ?_
    rintro _ _ ⟨t', rfl, hcloses⟩ us _ hstmts _ _ ⟨t, rfl, hopens⟩
    exact ⟨hstmts.nodes.left.right, t, us, t', by simp, hopens, hcloses, hstmts.last⟩
  · intro stmts span used es told h hspan htold
    exact h.blockRead hspan htold
  · intro span used es hne
    refine ⟨hne, .of_parts ⟨?_, by simp⟩ (.expr .nil)⟩
    simp [Excused, ExprKind.needsSemicolon, ExprKind.isError]

/-! ## Primary expressions -/

theorem optional_reports {α : Type} {p : Parser α} (node : α → SyntaxNode)
    (hp : Reports source p fun a used es => AllTerminated source [node a] used es) :
    Reports source (optional p) fun value used es =>
      AllTerminated source (value.map node).toList used es :=
  .optional hp .nil fun _ _ _ h => h

theorem value_reports (he : ExprReports source expr) :
    Reports source (optional expr) fun value used es =>
      AllTerminated source (value.map SyntaxNode.expr).toList used es :=
  optional_reports SyntaxNode.expr (.mono he fun _ _ _ h => h.nodes)

theorem conditionalOf_reports (he : ExprReports source expr) (hb : BlockReports source block)
    (hc : ExprReports source conditional) :
    ExprReports source (conditionalOf expr block conditional) := by
  refine .withSpan (R := FormRead source) ?_ fun kind span used es h hspan => h.expr hspan
  have helse : Reports source (keyword "else" >>= fun _ =>
      Parser.or (Alternative.chain <$> conditional) (Alternative.block <$> block))
      fun alternative used es => AllTerminated source [Alternative.node alternative] used es := by
    refine .bind (.just _) fun _ => ?_
    refine .or (.map hc ?_) (.map hb ?_)
    · intro e used es h us _ _
      exact h.nodes.right
    · intro body used es h us _ _
      exact h.nodes.right
  refine .bind (.just _) fun _ => ?_
  refine .bind he fun cond => ?_
  refine .bind hb fun consequent => ?_
  refine .bind (optional_reports Alternative.node helse) fun alternative => ?_
  refine .pure ?_
  rintro ws _ halternative vs _ hconsequent us _ hcond _ _ ⟨t, rfl, -⟩
  exact ⟨by simp, .cons hcond.nodes.left.right (.cons hconsequent.nodes.left.right.right
    halternative.left.right.right.right)⟩

theorem simple_reports (he : ExprReports source expr) : ExprReports source (simple expr) := by
  refine .withSpan (R := FormRead source) (.choice ?_) fun kind span used es h hspan =>
    h.expr hspan
  simp only [List.forall_mem_cons, List.not_mem_nil, false_imp_iff, implies_true, and_true]
  refine ⟨?_, ?_, ?_, ?_, ?_, ?_, ?_, ?_⟩
  · refine .mono (.of_spells (.token (R := fun kind used => used ≠ [] ∧ kind.parts = []) ?_)) ?_
    · intro t kind _ hf
      split at hf
      · cases hf
        exact ⟨by simp, rfl⟩
      · cases hf
    · rintro kind used es ⟨hne, hparts⟩
      exact ⟨hne, by rw [hparts]; exact .nil⟩
  · refine .or (.map (.just _) ?_) (.map (.just _) ?_)
    · rintro _ _ _ ⟨t, rfl, -⟩
      exact ⟨by simp, .nil⟩
    · rintro _ _ _ ⟨t, rfl, -⟩
      exact ⟨by simp, .nil⟩
  · refine .map (.just _) ?_
    rintro _ _ _ ⟨t, rfl, -⟩
    exact ⟨by simp, .nil⟩
  · refine .recoverDelimited ?_ fun span used es hne => ⟨hne, .nil⟩
    refine .bind (.just _) fun _ => ?_
    refine .bind he fun inner => ?_
    refine .bind (.just _) fun _ => ?_
    refine .pure ?_
    rintro _ _ - us _ hinner _ _ ⟨t, rfl, -⟩
    exact ⟨by simp, hinner.nodes.left.right⟩
  · refine .bind (.just _) fun _ => ?_
    refine .bind (value_reports he) fun value => ?_
    refine .pure ?_
    rintro us _ hvalue _ _ ⟨t, rfl, -⟩
    exact ⟨by simp, hvalue.left.right⟩
  · refine .bind (.just _) fun _ => ?_
    refine .bind (.of_spells labelRef_spells) fun label => ?_
    refine .bind (value_reports he) fun value => ?_
    refine .pure ?_
    rintro vs _ hvalue us _ - _ _ ⟨t, rfl, -⟩
    exact ⟨by simp, .append (.label label) hvalue.left.right.right⟩
  · refine .bind (.just _) fun _ => ?_
    refine .bind (.of_spells labelRef_spells) fun label => ?_
    refine .pure ?_
    rintro us _ - _ _ ⟨t, rfl, -⟩
    exact ⟨by simp, .label label⟩
  · exact .map (.of_spells path_spells) fun p used es h => ⟨h.ne_nil, .path p⟩

theorem primary_reports (he : ExprReports source expr) (hb : BlockReports source block)
    (hc : ExprReports source conditional) (labels : Bool) :
    ExprReports source (primary expr block conditional labels) := by
  refine .choice ?_
  simp only [List.forall_mem_cons, List.not_mem_nil, false_imp_iff, implies_true, and_true]
  refine ⟨?_, hc, simple_reports he⟩
  cases labels with
  | true => exact blockLike_reports he hb
  | false => exact unlabeled_reports he hb

/-! ## Operators -/

theorem arguments_reports (he : ExprReports source expr) :
    Reports source (arguments expr) fun args used es => used ≠ [] ∧
      AllTerminated source [.arguments args] used es := by
  unfold arguments
  have hlist : Reports source (sepBy expr (control ',')) fun args used es =>
      AllTerminated source (args.map .expr) used es := by
    refine .sepBy he (.mono (.just _) fun _ _ _ => trivial) (fun _ _ => .nil) ?_ ?_
    · intro e args gap us vs before es more h hargs
      exact .cons h.nodes.right.left hargs.right
    · intro args used gap es hargs
      exact hargs.mono (List.prefix_append _ _).isInfix (List.Subset.refl _)
  refine .recoverDelimited (.withSpan (R := fun args used es => used ≠ [] ∧
    AllTerminated source (args.map .expr) used es) ?_ ?_) ?_
  · refine .bind (.just _) fun _ => ?_
    refine .bind hlist fun args => ?_
    refine .bind (.just _) fun _ => ?_
    refine .pure ?_
    rintro _ _ - us _ hargs _ _ ⟨t, rfl, -⟩
    exact ⟨by simp, hargs.left.right⟩
  · rintro args span used es ⟨hne, hargs⟩ -
    exact ⟨hne, .of_parts trivial hargs⟩
  · intro span used es hne
    exact ⟨hne, .of_parts trivial (.expr .nil)⟩

/-- The parts of what follows an operand. -/
def Suffix.nodes : Suffix → List SyntaxNode
  | .call args => [.arguments args]
  | .field name => [.name name]
  | .deref => []

/-- What follows an operand, its tokens and what is reported with it. -/
structure SuffixRead (source : UInt16) (s : Suffix × Span) (used : List Lexeme)
    (es : List Complaint) : Prop where
  edged : Edged source used s.2
  nodes : AllTerminated source s.1.nodes used es

theorem suffix_reports (he : ExprReports source expr) :
    Reports source (suffix expr) (SuffixRead source) := by
  refine .withSpan (R := fun s used es => used ≠ [] ∧ AllTerminated source s.nodes used es)
    (.choice ?_) fun s span used es h hspan => ⟨(hspan h.1).edged, h.2⟩
  simp only [List.forall_mem_cons, List.not_mem_nil, false_imp_iff, implies_true, and_true]
  refine ⟨?_, ?_, ?_⟩
  · exact .map (arguments_reports he) fun args used es h => h
  · refine .bind (.just _) fun _ => ?_
    refine .bind (.of_spells ident_spells) fun name => ?_
    refine .pure ?_
    rintro us _ - _ _ ⟨t, rfl, -⟩
    exact ⟨by simp, .name name⟩
  · refine .map (.just _) ?_
    rintro _ _ _ ⟨t, rfl, -⟩
    exact ⟨by simp, .nil⟩

/-- An operand and what is made of it by what follows. -/
theorem continued_reports {α : Type} {q : Parser α} {g : α → Expr → Expr}
    (hp : ExprReports source operand)
    (hq : Reports source q fun a used es => Continues source (g a) used es) :
    ExprReports source (operand >>= fun e => q >>= fun a => Pure.pure (g a e)) := by
  refine .bind hp fun e => ?_
  refine .bind hq fun a => ?_
  refine .pure ?_
  intro vs es hcontinues us before h
  rw [List.append_nil, List.append_nil]
  exact hcontinues e us before h

theorem SuffixRead.continues {s : Suffix × Span} {vs : List Lexeme} {more : List Complaint}
    (h : SuffixRead source s vs more) : Continues source (fun e => applySuffix e s) vs more := by
  obtain ⟨suffix, span⟩ := s
  intro e us es he
  refine ⟨he.edged.cover [] h.edged, .expr ?_⟩
  have hparts : AllTerminated source (.expr e :: suffix.nodes) (us ++ vs) (es ++ more) :=
    .cons he.nodes.left h.nodes.right
  cases suffix with
  | call args => exact hparts
  | field name => exact hparts
  | deref => exact hparts

theorem postfixed_reports (hp : ExprReports source operand) (he : ExprReports source expr) :
    ExprReports source (postfixed operand expr) := by
  rw [postfixed_eq]
  refine continued_reports
    (g := fun (suffixes : List (Suffix × Span)) e => suffixes.foldl applySuffix e) hp ?_
  exact .many (suffix_reports he) .refl fun _ _ _ _ _ _ hs hsuffixes =>
    hs.continues.trans hsuffixes

theorem applyLead_read {e : Expr} {l : Lead × Span} {us vs : List Lexeme}
    {es more : List Complaint} (hl : Exact source us l.2) (h : ExprRead source e vs more) :
    ExprRead source (applyLead l e) (us ++ vs) (es ++ more) := by
  obtain ⟨lead, span⟩ := l
  have hedged : Edged source (us ++ vs) (span.cover e.span) := hl.edged.cover [] h.edged
  have hborrow : ∀ m : Option Span, AllTerminated source (ExprKind.borrow m e).parts (us ++ vs)
      (es ++ more) := by
    intro m
    cases m with
    | none => exact h.nodes.right
    | some span => exact .cons (.of_parts trivial .nil) h.nodes.right
  cases lead with
  | unary op => exact ⟨hedged, .expr (.cons (.of_parts trivial .nil) h.nodes.right)⟩
  | borrow m => exact ⟨hedged, .expr (hborrow m)⟩
  | doubleBorrow m => exact ⟨hedged, .expr (.expr (hborrow m))⟩

theorem unary_reports (hp : ExprReports source operand) (he : ExprReports source expr) :
    ExprReports source (unary operand expr) := by
  have hleads : Reports source (many lead) fun leads used es =>
      ∀ e vs more, ExprRead source e vs more →
        ExprRead source (leads.foldr applyLead e) (used ++ vs) (es ++ more) := by
    refine .many (.of_spells lead_spells) ?_ ?_
    · intro e vs more h
      exact h
    · rintro l leads us ws es more ⟨hexact, -⟩ ih e vs last h
      rw [List.foldr_cons, List.append_assoc, List.append_assoc]
      exact applyLead_read hexact (ih e vs last h)
  rw [unary_eq]
  refine .bind hleads fun leads => ?_
  refine .bind (postfixed_reports hp he) fun e => ?_
  refine .pure ?_
  intro vs es h us before hleads
  rw [List.append_nil, List.append_nil]
  exact hleads e vs es h

theorem applyBinary_continues {r : Spanned BinOp × Expr} {vs : List Lexeme}
    {more : List Complaint} (h : ExprAfter source r.2 vs more) :
    Continues source (fun e => applyBinary e r) vs more := by
  intro e us es he
  obtain ⟨hedged, hleft, hright⟩ := he.both h
  exact ⟨hedged, .expr (.cons hleft (.cons (.of_parts trivial .nil) hright))⟩

theorem binary_reports {op : Parser BinOp} (hp : ExprReports source operand)
    (hop : OpSpells source op) : ExprReports source (binary operand op) := by
  have hoperation : Reports source (operator op >>= fun op => operand >>= fun rhs =>
      Pure.pure (op, rhs)) fun r used es => ExprAfter source r.2 used es := by
    have hop : Reports source (operator op) fun _ _ _ => True :=
      .withSpan (.of_spells hop) fun _ _ _ _ _ _ => trivial
    refine .bind hop fun op => ?_
    refine .bind hp fun rhs => ?_
    refine .pure ?_
    intro vs es hrhs us before _
    exact ⟨us, vs, before, es, by simp, by simp, hrhs⟩
  rw [binary_eq]
  refine continued_reports
    (g := fun (rest : List (Spanned BinOp × Expr)) e => rest.foldl applyBinary e) hp ?_
  exact .many hoperation .refl fun _ _ _ _ _ _ hrhs hrest =>
    (applyBinary_continues hrhs).trans hrest

theorem operators_reports (hp : ExprReports source operand) (he : ExprReports source expr) :
    ExprReports source (operators operand expr) := by
  have hlevels : ∀ (ops : List (Parser BinOp)) {operand : Parser Expr},
      (∀ op ∈ ops, OpSpells source op) → ExprReports source operand →
        ExprReports source (ops.foldl binary operand) := by
    intro ops
    induction ops with
    | nil => exact fun _ h => h
    | cons op ops ih =>
      intro operand hops h
      obtain ⟨hop, hops⟩ := List.forall_mem_cons.1 hops
      exact ih hops (binary_reports h hop)
  exact hlevels levels levels_spells (unary_reports hp he)

/-- The last assignment is the innermost one. -/
theorem assignAll_continues {next : Expr} {rest : List Expr} {us vs : List Lexeme}
    {es more : List Complaint} (h : ExprAfter source next us es)
    (hrest : Continues source (fun e => assignAll e rest) vs more) :
    Continues source (fun e => assignAll e (next :: rest)) (us ++ vs) (es ++ more) := by
  intro e ws before he
  obtain ⟨hedged, hleft, hright⟩ := he.both (h.extend hrest)
  exact ⟨hedged, .expr (.cons hleft hright)⟩

theorem assignment_reports (hp : ExprReports source operand) :
    ExprReports source (assignment operand) := by
  have hnext : Reports source (control '=' >>= fun _ => operand) (ExprAfter source) := by
    refine .bind (.just _) fun _ => ?_
    refine .mono hp ?_
    intro e vs more h us es _
    exact ⟨us, vs, es, more, rfl, rfl, h⟩
  rw [assignment_eq]
  refine continued_reports (g := fun rest e => assignAll e rest) hp ?_
  exact .many hnext .refl fun _ _ _ _ _ _ h hrest => assignAll_continues h hrest

/-! ## The knot -/

theorem exprOf_reports (hse : ExprSpells source expr) (hsb : BlockSpells source block)
    (he : ExprReports source expr) (hb : BlockReports source block)
    (hc : ExprReports source conditional) (labels : Bool) :
    ExprReports source (operators (primary expr (blockOf expr block)
      (conditionalOf expr (blockOf expr block) conditional) labels) expr) :=
  operators_reports (primary_reports he (blockOf_reports hse hsb he hb)
    (conditionalOf_reports he (blockOf_reports hse hsb he hb) hc) labels) he

/-- Expressions, blocks and conditionals nested up to a depth end as they should. -/
theorem within_reports (source : UInt16) (depth : Nat) :
    ExprReports source (exprWithin depth) ∧ BlockReports source (blockWithin depth) ∧
      ExprReports source (conditionalWithin depth) := by
  induction depth with
  | zero =>
    rw [exprWithin, blockWithin, conditionalWithin]
    exact ⟨.fail, .fail, .fail⟩
  | succ depth ih =>
    obtain ⟨he, hb, hc⟩ := ih
    obtain ⟨hse, hsb, -⟩ := within_spells source depth
    rw [exprWithin, blockWithin, conditionalWithin]
    exact ⟨assignment_reports (exprOf_reports hse hsb he hb hc true),
      blockOf_reports hse hsb he hb,
      conditionalOf_reports he (blockOf_reports hse hsb he hb) hc⟩

theorem typeExpr_reports :
    Reports source typeExpr fun type used es => AllTerminated source [type.node] used es := by
  have hwithin : ∀ depth, Reports source (typeExprWithin depth) fun type used es =>
      AllTerminated source [type.node] used es := by
    intro depth
    cases depth with
    | zero =>
      rw [typeExprWithin]
      exact .fail
    | succ depth =>
      obtain ⟨he, hb, hc⟩ := within_reports source depth
      obtain ⟨hse, hsb, -⟩ := within_spells source depth
      rw [typeExprWithin]
      refine .or (.mono (.of_spells (.token (R := fun type _ =>
        ∃ primitive, type = .primitive primitive) ?_)) ?_)
        (.map (exprOf_reports hse hsb he hb hc false) fun e used es h => h.nodes)
      · intro t type _ hf
        split at hf
        · obtain ⟨primitive, -, rfl⟩ := Option.map_eq_some_iff.1 hf
          exact ⟨_, rfl⟩
        · cases hf
      · rintro _ used es ⟨primitive, rfl⟩
        exact .of_parts trivial .nil
  intro c _ _ _ _ hc h
  rw [typeExpr, deferred_apply] at h
  exact hwithin (c.left + 1) hc h

theorem expr_reports : ExprReports source Grammar.expr := by
  intro c _ _ _ _ hc h
  rw [Grammar.expr, deferred_apply] at h
  exact (within_reports source (c.left + 1)).1 hc h

/-! ## Definitions -/

theorem header_reports :
    Reports source header fun h used es =>
      AllTerminated source (h.1.map TypeExpr.node).toList used es := by
  refine .choice ?_
  simp only [List.forall_mem_cons, List.not_mem_nil, false_imp_iff, implies_true, and_true]
  refine ⟨.map (.just _) fun _ _ _ _ => .nil, ?_⟩
  have hseparator : Reports source
      (Parser.or ((fun _ => false) <$> control ':') ((fun _ => true) <$> control '='))
      fun _ _ _ => True :=
    .or (.map (.just _) fun _ _ _ _ => trivial) (.map (.just _) fun _ _ _ _ => trivial)
  refine .bind (.just _) fun _ => ?_
  refine .bind (optional_reports TypeExpr.node typeExpr_reports) fun type => ?_
  refine .bind hseparator fun mutable => ?_
  refine .pure ?_
  rintro vs _ - us _ htype _ _ ⟨t, rfl, -⟩
  exact htype.left.right

/-- A definition whose semicolon may be missing only where it is said to be. -/
theorem definition_reports :
    Reports source definition fun d used es =>
      ∀ span, AllTerminated source [.item ⟨d, span⟩] used es := by
  unfold definition
  refine .check (R := fun d used es => ∀ span,
    AllTerminated source (SyntaxNode.item ⟨d, span⟩).parts used es) ?_ ?_
  · have hsemicolon : Reports source (optional (control ';')) fun _ _ _ => True :=
      .optional (.just _) trivial fun _ _ _ _ => trivial
    refine .bind (.of_spells ident_spells) fun name => ?_
    refine .bind header_reports fun h => ?_
    refine .bind expr_reports fun value => ?_
    refine .bind hsemicolon fun semicolon => ?_
    refine .pure ?_
    intro zs _ _ ws _ hvalue vs _ htype us _ _ span
    exact .cons (.name name) (htype.left.right.append hvalue.nodes.left.right.right)
  · intro d span used es told h _ htold span
    refine .of_parts (fun hnone hneeds => ?_) (h span).told
    obtain ⟨hnone, hneeds⟩ : d.semicolon = false ∧ d.value.kind.needsSemicolon = true :=
      ⟨hnone, hneeds⟩
    simp only [hnone, hneeds, Bool.not_false, Bool.and_self, if_true] at htold
    exact htold.mono (List.subset_append_right _ _)

theorem item_reports :
    Reports source item fun i used es => AllTerminated source [.item i] used es := by
  refine .recoverSkipping (.withSpan definition_reports fun d span used es h _ => h span) ?_
  intro i gap used es more h
  exact h.mono (List.suffix_append _ _).isInfix (List.subset_append_left _ _)

theorem sourceFile_reports :
    Reports source sourceFile fun items used es =>
      AllTerminated source (items.map .item) used es := by
  have hitems : Reports source (many item) fun items used es =>
      AllTerminated source (items.map .item) used es :=
    .many item_reports .nil fun i items us vs es more h hs => .cons h.left hs.right
  refine .bind hitems fun items => ?_
  refine .bind (.of_spells (.optional trailing_spells)) fun _ => ?_
  refine .bind (.of_spells .finish) fun _ => ?_
  refine .pure ?_
  intro ws _ _ vs _ _ us es hitems
  exact hitems.left

end Grammar

/-! ## Files -/

/-- What is within a node is within all that the node is within. -/
theorem SyntaxNode.Within.trans {n m outer : SyntaxNode} (h : n.Within m) (h' : m.Within outer) :
    n.Within outer := by
  induction h' with
  | refl => exact h
  | part hpart _ ih => exact .part hpart ih

/-- An expression may end without a semicolon: it is a block or a loop, it was given up, or the
semicolon is reported as missing at its very end. -/
def MayEnd (diagnostics : List Diagnostic) (e : Expr) : Prop :=
  e.kind.isBlockLike = true ∨ e.kind = .error ∨
    Diagnostic.located (.simple "expected `;` after expression") e.span.atStop grammarCode .parser
      ∈ diagnostics

theorem Excused.mayEnd {reported : List Complaint} {e : Expr} (h : Excused reported e) :
    MayEnd (reported.map Complaint.toDiagnostic) e := by
  by_cases hneeds : e.kind.needsSemicolon = true
  · obtain ⟨c, hc, hspan, hcause⟩ := h hneeds _ (List.mem_singleton_self _)
    refine .inr (.inr (List.mem_map.2 ⟨c, hc, ?_⟩))
    unfold Complaint.toDiagnostic Complaint.reason Complaint.shownSpan
    rw [hcause, hspan]
    rfl
  · unfold ExprKind.needsSemicolon at hneeds
    cases hblock : e.kind.isBlockLike with
    | true => exact .inl hblock
    | false =>
      have herror : e.kind.isError = true := by simpa [hblock] using hneeds
      unfold ExprKind.isError at herror
      split at herror
      · exact .inr (.inl ‹_›)
      · cases herror

/-- Without diagnostics, only blocks and loops may end so. -/
theorem MayEnd.isBlockLike {e : Expr} (h : MayEnd [] e) (herror : e.kind ≠ .error) :
    e.kind.isBlockLike = true := by
  rcases h with hblock | hkind | hmissing
  · exact hblock
  · exact absurd hkind herror
  · cases hmissing

/-- Where semicolons are missing in a file, and what blocks end with. -/
structure SourceFile.Terminated (file : SourceFile) (source : UInt16) (stream : List Lexeme)
    (diagnostics : List Diagnostic) : Prop where
  stmts : ∀ b : Block, (SyntaxNode.block b).Within (.file file) → ∀ s ∈ b.stmts,
    s.semicolon = false → MayEnd diagnostics s.expr
  items : ∀ i ∈ file.items, i.definition.semicolon = false → MayEnd diagnostics i.definition.value
  /-- the brace which closes a block comes right after the tokens of its value -/
  values : ∀ b : Block, (SyntaxNode.block b).Within (.file file) → ∀ e, b.lastExpr = some e →
    ∃ opening gap us closing, opening :: (gap ++ (us ++ [closing])) <:+: stream ∧
      b.Closes source e opening gap us closing ∧ Exact source us e.span

theorem tokenStream_ordered {tokens : List Token} (id : UInt16)
    (hforward : ∀ t ∈ tokens, t.extent.start ≤ t.extent.stop)
    (hapart : tokens.Pairwise fun t u => t.extent.stop ≤ u.extent.start) :
    Ordered (tokenStream tokens id).rest := by
  constructor
  · intro t ht
    obtain ⟨token, htoken, rfl⟩ := List.mem_map.1 ht
    exact hforward token (List.mem_filter.1 htoken).1
  · exact List.pairwise_map.2 (hapart.sublist List.filter_sublist)

/-- **Semicolons and values.**  Any tokens in order make a file in which each statement of a block
and each definition ends with a semicolon, or is block-like, or was given up, or is reported to lack
one just where its expression ends.  The brace that closes a block comes right after its value.  If
nothing is reported, whatever lacks a semicolon is block-like. -/
theorem parseTokens_terminates (tokens : List Token) (id : UInt16)
    (hforward : ∀ t ∈ tokens, t.extent.start ≤ t.extent.stop)
    (hapart : tokens.Pairwise fun t u => t.extent.stop ≤ u.extent.start) :
    ∃ file, (parseTokens tokens id).1 = some file ∧
      file.Terminated id (tokenStream tokens id).rest (parseTokens tokens id).2 ∧
      ((parseTokens tokens id).2 = [] →
        (∀ b : Block, (SyntaxNode.block b).Within (.file file) → ∀ s ∈ b.stmts,
          s.semicolon = false → s.expr.kind.isBlockLike = true) ∧
        ∀ i ∈ file.items, i.definition.semicolon = false →
          i.definition.value.kind.isBlockLike = true) := by
  obtain ⟨reported, after, alt, hparse, -⟩ := Grammar.sourceFile_eq_ok (tokenStream tokens id)
  obtain ⟨used, hreach, hall⟩ :=
    Grammar.sourceFile_reports (tokenStream_isIn tokens id) hparse
  have hin : used <:+: (tokenStream tokens id).rest := by
    rw [hreach.passes.rest_eq]
    exact (List.prefix_append _ _).isInfix
  have hordered := tokenStream_ordered id hforward hapart
  obtain ⟨file, hfile, hitems, hdiagnostics⟩ : ∃ file, (parseTokens tokens id).1 = some file ∧
      file.items = Grammar.itemsFrom (tokenStream tokens id) ∧
      (parseTokens tokens id).2 = reported.map Complaint.toDiagnostic := by
    unfold parseTokens
    rw [hparse]
    exact ⟨_, rfl, rfl, rfl⟩
  rw [← hitems] at hall
  have hblock : ∀ {b : Block}, (SyntaxNode.block b).Within (.file file) →
      ∃ i ∈ file.items, (SyntaxNode.block b).Within (.item i) := by
    intro b hb
    cases hb with
    | part hpart hb =>
      obtain ⟨i, hi, rfl⟩ := List.mem_map.1 hpart
      exact ⟨i, hi, hb⟩
  have hends : ∀ n : SyntaxNode, ∀ i ∈ file.items, n.Within (.item i) →
      n.Terminated id used reported :=
    fun n i hi hn => hall _ (List.mem_map_of_mem hi) n hn
  have hterminated : file.Terminated id (tokenStream tokens id).rest (parseTokens tokens id).2 := by
    rw [hdiagnostics]
    refine ⟨fun b hb s hs hnone => ?_, fun i hi hnone => ?_, fun b hb e he => ?_⟩
    · obtain ⟨i, hi, hb⟩ := hblock hb
      exact ((hends _ i hi hb).1 s hs hnone).mayEnd
    · exact (hends _ i hi .refl hnone).mayEnd
    · obtain ⟨i, hi, hb⟩ := hblock hb
      obtain ⟨opening, gap, us, closing, hused, hcloses⟩ := (hends _ i hi hb).2 e he
      have hvalue : us <:+: opening :: (gap ++ (us ++ [closing])) :=
        ⟨opening :: gap, [closing], by simp⟩
      refine ⟨opening, gap, us, closing, hused.trans hin, hcloses, ?_⟩
      exact hcloses.edged.tight (hordered.sublist ((hvalue.trans hused).trans hin).sublist)
  refine ⟨file, hfile, hterminated, fun hnone => ?_⟩
  have herror := not_hasError_of_parseTokens hfile hnone
  rw [hnone] at hterminated
  constructor
  · intro b hb s hs hsemicolon
    apply (hterminated.stmts b hb s hs hsemicolon).isBlockLike
    intro hkind
    obtain ⟨i, hi, hb⟩ := hblock hb
    have hpart : (SyntaxNode.expr s.expr) ∈ (SyntaxNode.block b).parts :=
      List.mem_append_left _ (List.mem_map_of_mem hs)
    exact herror i hi ⟨s.expr, (SyntaxNode.Within.part hpart .refl).trans hb, hkind⟩
  · intro i hi hsemicolon
    apply (hterminated.items i hi hsemicolon).isBlockLike
    intro hkind
    have hpart : (SyntaxNode.expr i.definition.value) ∈ (SyntaxNode.item i).parts := by
      simp [SyntaxNode.parts]
    exact herror i hi ⟨i.definition.value, .part hpart .refl, hkind⟩

/-- A block of two names, where a semicolon is missing after the first one. -/
theorem parseTokens_terminates_names :
    let tokens : List Token := [⟨.ident "a", ⟨0, 1⟩⟩, ⟨.digraph .pathSep, ⟨2, 4⟩⟩,
      ⟨.control '{', ⟨5, 6⟩⟩, ⟨.ident "f", ⟨7, 8⟩⟩, ⟨.ident "g", ⟨9, 10⟩⟩, ⟨.control '}', ⟨11, 12⟩⟩]
    (parseTokens tokens 1).2 = [.located (.simple "expected `;` after expression") ⟨1, 8, 8⟩
      grammarCode .parser] ∧
    ∃ file, (parseTokens tokens 1).1 = some file ∧
      file.Terminated 1 (tokenStream tokens 1).rest (parseTokens tokens 1).2 := by
  intro tokens
  obtain ⟨file, hfile, hterminated, -⟩ :=
    parseTokens_terminates tokens 1 (by decide) (by decide)
  exact ⟨by decide +kernel, file, hfile, hterminated⟩

end LunSyntax
