import LunSyntax.Grammar.Item
import LunSyntax.Proofs.Grammar.Containment
import LunSyntax.Proofs.Parser.Spelling

/-!
# Where syntax comes from

Whatever the grammar makes of tokens, recovered or not, is spelled with the tokens it read.

* `SyntaxNode.Whole`: a node with a span over all of its tokens, as every rule makes one;
* one lemma for each rule of the grammar, for any parsers of what it holds, and the knot by
  induction on the depth;
* `tokenStream_spells`: the items of a file are spelled with the tokens that are no comments, one
  after the other, and complaints are about these tokens or the end.
-/

set_option autoImplicit false

namespace LunSyntax

/-- A node whose span is over all the tokens it is spelled with. -/
structure SyntaxNode.Whole (source : UInt16) (n : SyntaxNode) (used : List Lexeme) : Prop where
  covers : Covers source used n.span
  spelled : n.Spelled source used

/-- A form of expression and its tokens, wherever it stands. -/
structure ExprKind.Forms (source : UInt16) (kind : ExprKind) (used : List Lexeme) : Prop where
  ne_nil : used ≠ []
  token : ∀ k ∈ kind.token?, ∃ t, used = [t] ∧ t.node = k
  closer : kind.closer? = none
  parts : InTurn (SyntaxNode.Spelled source) kind.parts used

variable {source : UInt16}

/-- A node over its tokens, none of which comes after all of its parts. -/
theorem SyntaxNode.Whole.of_turn {n : SyntaxNode} {used : List Lexeme}
    (hcovers : Covers source used n.span) (htoken : n.token? = none) (hcloser : n.closer? = none)
    (hparts : InTurn (SyntaxNode.Spelled source) n.parts used) : n.Whole source used := by
  refine ⟨hcovers, .whole hcovers ?_ hcloser hparts⟩
  simp [htoken]

/-- A node which is one token. -/
theorem SyntaxNode.Whole.of_token {n : SyntaxNode} {t : Lexeme} (hexact : Exact source [t] n.span)
    (htoken : n.token? = some t.node) (hcloser : n.closer? = none) (hparts : n.parts = []) :
    n.Whole source [t] := by
  refine ⟨hexact.covers, .whole hexact.covers ?_ hcloser ?_⟩
  · intro kind hkind
    rw [htoken] at hkind
    cases hkind
    exact ⟨t, rfl, rfl⟩
  · rw [hparts]
    exact .nil

namespace ExprKind.Forms

variable {kind : ExprKind} {used us : List Lexeme} {t : Lexeme} {span : Span}

theorem whole (h : kind.Forms source used) (hspan : used ≠ [] → Exact source used span) :
    (SyntaxNode.expr ⟨kind, span⟩).Whole source used := by
  have hcovers := (hspan h.ne_nil).covers
  exact ⟨hcovers, .whole hcovers h.token h.closer h.parts⟩

theorem of_token (htoken : kind.token? = some t.node) (hcloser : kind.closer? = none)
    (hparts : kind.parts = []) : kind.Forms source [t] := by
  refine ⟨by simp, ?_, hcloser, ?_⟩
  · intro k hk
    rw [htoken] at hk
    cases hk
    exact ⟨t, rfl, rfl⟩
  · rw [hparts]
    exact .nil

theorem of_turn (hne : used ≠ []) (htoken : kind.token? = none) (hcloser : kind.closer? = none)
    (hparts : InTurn (SyntaxNode.Spelled source) kind.parts used) : kind.Forms source used :=
  ⟨hne, by simp [htoken], hcloser, hparts⟩

/-- A form after a first token which is none of its parts. -/
theorem after_token (htoken : kind.token? = none) (hcloser : kind.closer? = none)
    (hparts : InTurn (SyntaxNode.Spelled source) kind.parts us) :
    kind.Forms source ([t] ++ us) :=
  of_turn (by simp) htoken hcloser (.skip hparts)

end ExprKind.Forms

theorem InTurn.spelled {ns : List SyntaxNode} {used : List Lexeme}
    (h : InTurn (SyntaxNode.Whole source) ns used) :
    InTurn (SyntaxNode.Spelled source) ns used :=
  h.mono fun _ _ hn => hn.spelled

namespace Grammar

open LunSyntax.Parser
open LunSyntax.Parser.Spells (Maybe)

variable {expr conditional operand : Parser Expr} {block : Parser Block}

/-- A parser of expressions. -/
def ExprSpells (source : UInt16) (p : Parser Expr) : Prop :=
  Spells source p fun e used => (SyntaxNode.expr e).Whole source used

/-- A parser of blocks. -/
def BlockSpells (source : UInt16) (p : Parser Block) : Prop :=
  Spells source p fun b used => (SyntaxNode.block b).Whole source used

/-- What is optional is a node or nothing. -/
theorem optional_spells {α : Type} {p : Parser α} (node : α → SyntaxNode)
    {R : SyntaxNode → List Lexeme → Prop}
    (hp : Spells source p fun a used => InTurn R [node a] used) :
    Spells source (optional p) fun o used => InTurn R (o.map node).toList used := by
  refine .mono (.optional hp) ?_
  rintro (_ | a) used h
  · exact .nil
  · exact h

/-- A separator and what comes after it. -/
theorem after_spells {α : Type} {p : Parser α} {R : α → List Lexeme → Prop} (kind : TokenKind)
    (hp : Spells source p R) :
    Spells source (just kind >>= fun _ => p) fun a used => ∃ t us, used = [t] ++ us ∧ R a us := by
  refine .bind (.just kind) fun _ => .mono hp ?_
  rintro a us h _ ⟨t, rfl, -⟩
  exact ⟨t, us, rfl, h⟩

/-! ## Tokens -/

theorem ident_spells :
    Spells source ident fun name used => (SyntaxNode.name name).Whole source used := by
  refine .withSpan (.token (R := fun name used => ∃ t, used = [t] ∧ t.node = .ident name) ?_) ?_
  · intro t name _ hf
    split at hf
    · rename_i hk
      cases hf
      exact ⟨t, rfl, hk⟩
    · cases hf
  · rintro name span _ ⟨t, rfl, ht⟩ hspan
    exact .of_token (hspan (by simp)) (by rw [ht]; rfl) rfl rfl

/-! ## Statements and blocks -/

theorem unlabeled_spells (he : ExprSpells source expr) (hb : BlockSpells source block) :
    ExprSpells source (unlabeled expr block) := by
  refine .withSpan (R := ExprKind.Forms source) (.choice ?_) fun kind span used h hspan =>
    h.whole hspan
  simp only [List.forall_mem_cons, List.not_mem_nil, false_imp_iff, implies_true, and_true]
  refine ⟨?_, ?_, ?_, ?_⟩
  · exact .map hb fun body used h => .of_turn h.covers.ne_nil rfl rfl (.single h.spelled)
  · refine .bind (.just _) fun _ => ?_
    refine .bind he fun cond => ?_
    refine .bind hb fun body => ?_
    refine .pure ?_
    rintro vs hbody us hcond _ ⟨t, rfl, -⟩
    exact .after_token rfl rfl (.cons hcond.spelled (.cons hbody.spelled .nil))
  · refine .bind (.just _) fun _ => ?_
    refine .bind ident_spells fun var => ?_
    refine .bind (.just _) fun _ => ?_
    refine .bind he fun iterator => ?_
    refine .bind hb fun body => ?_
    refine .pure ?_
    rintro ws hbody vs hiterator _ ⟨t', rfl, -⟩ us hvar _ ⟨t, rfl, -⟩
    exact .after_token rfl rfl
      (.cons hvar.spelled (.skipAll [t'] (.cons hiterator.spelled (.cons hbody.spelled .nil))))
  · refine .bind (.just _) fun _ => ?_
    refine .bind hb fun body => ?_
    refine .pure ?_
    rintro us hbody _ ⟨t, rfl, -⟩
    exact .after_token rfl rfl (.cons hbody.spelled .nil)

theorem blockLike_spells (he : ExprSpells source expr) (hb : BlockSpells source block) :
    ExprSpells source (blockLike expr block) := by
  refine .or (.withSpan (R := ExprKind.Forms source) ?_ fun kind span used h hspan =>
    h.whole hspan) (unlabeled_spells he hb)
  refine .bind ident_spells fun label => ?_
  refine .bind (.just _) fun _ => ?_
  refine .bind (unlabeled_spells he hb) fun inner => ?_
  refine .pure ?_
  rintro vs hinner _ ⟨t, rfl, -⟩ us hlabel
  exact .of_turn (by simp) rfl rfl
    (.cons hlabel.spelled (.skipAll [t] (.cons hinner.spelled .nil)))

/-- Expressions in place of statements, and the tokens of all of them. -/
def StmtsSpelled (source : UInt16) (stmts : List (Expr × Bool)) (used : List Lexeme) : Prop :=
  InTurn (SyntaxNode.Whole source) (stmts.map fun s => .expr s.1) used

theorem stmt_spells (he : ExprSpells source expr) (hb : BlockSpells source block) :
    Spells source (stmt expr block) fun s used =>
      ∃ us gap, used = us ++ gap ∧ (SyntaxNode.expr s.1).Whole source us := by
  refine .bind (.or (blockLike_spells he hb) he) fun e => ?_
  refine .bind (.optional (.just _)) fun semicolon => ?_
  refine .pure ?_
  intro gap _ us hus
  exact ⟨us, gap ++ [], rfl, hus⟩

theorem stmts_spells (he : ExprSpells source expr) (hb : BlockSpells source block) :
    Spells source (many (stmt expr block)) (StmtsSpelled source) := by
  refine .many (stmt_spells he hb) .nil ?_
  rintro s stmts _ vs ⟨us, gap, rfl, hs⟩ hstmts
  rw [List.append_assoc]
  exact .cons hs (.skipAll gap hstmts)

/-- Splitting keeps the expressions and their order. -/
theorem splitStmts_nodes (stmts : List (Expr × Bool)) :
    (splitStmts stmts).1.map (fun s => SyntaxNode.expr s.expr) ++
      ((splitStmts stmts).2.1.map SyntaxNode.expr).toList = stmts.map fun s => .expr s.1 := by
  fun_induction splitStmts stmts with
  | case1 => rfl
  | case2 e => rfl
  | case3 e semicolon rest hne stmts lastExpr messages hrest ih =>
    rw [hrest] at ih
    simp only [List.map_cons, List.cons_append, ih]

/-- A semicolon is missing after one of the expressions. -/
theorem splitStmts_messages {stmts : List (Expr × Bool)} {m : Span × String}
    (h : m ∈ (splitStmts stmts).2.2) : ∃ s ∈ stmts, m = missingSemicolon s.1 := by
  fun_induction splitStmts stmts with
  | case1 => cases h
  | case2 e => cases h
  | case3 e semicolon rest hne stmts lastExpr messages hrest ih =>
    rw [hrest] at ih
    have hcases : m = missingSemicolon e ∨ m ∈ messages := by
      dsimp only at h
      split at h
      · exact List.mem_cons.1 h
      · exact .inr h
    rcases hcases with rfl | hm
    · exact ⟨(e, semicolon), by simp, rfl⟩
    · obtain ⟨s, hs, heq⟩ := ih hm
      exact ⟨s, by simp [hs], heq⟩

theorem blockOf_spells (he : ExprSpells source expr) (hb : BlockSpells source block) :
    BlockSpells source (blockOf expr block) := by
  unfold blockOf
  refine .recoverDelimited (.check (R := fun stmts used => used ≠ [] ∧
    StmtsSpelled source stmts used) ?_ ?_) ?_
  · refine .bind (.just _) fun _ => ?_
    refine .bind (stmts_spells he hb) fun stmts => ?_
    refine .bind (.just _) fun _ => ?_
    refine .pure ?_
    rintro _ ⟨t', rfl, -⟩ us hstmts _ ⟨t, rfl, -⟩
    refine ⟨by simp, .skip ?_⟩
    exact hstmts.followed [t']
  · rintro stmts span used ⟨hne, hstmts⟩ hspan
    refine ⟨.of_turn (hspan hne).covers rfl rfl ?_, fun m hm => ?_⟩
    · have hparts := hstmts.spelled
      rw [← splitStmts_nodes stmts] at hparts
      exact hparts
    · obtain ⟨s, hs, heq⟩ := splitStmts_messages hm
      obtain ⟨us, hus, hwhole⟩ := hstmts.mem (List.mem_map_of_mem hs)
      rw [heq]
      exact .stop hus hwhole.covers
  · intro span opening us closing hspan
    exact .of_turn hspan.covers rfl rfl (.single (.skipped hspan.covers))

/-! ## Primary expressions -/

theorem conditionalOf_spells (he : ExprSpells source expr) (hb : BlockSpells source block)
    (hc : ExprSpells source conditional) :
    ExprSpells source (conditionalOf expr block conditional) := by
  have helse : Spells source (keyword "else" >>= fun _ =>
      Parser.or (Alternative.chain <$> conditional) (Alternative.block <$> block))
      fun alternative used =>
        InTurn (SyntaxNode.Spelled source) [Alternative.node alternative] used := by
    refine .bind (.just _) fun _ => ?_
    refine .or (.map hc ?_) (.map hb ?_)
    · rintro e used h _ ⟨t, rfl, -⟩
      exact .skip (.single h.spelled)
    · rintro body used h _ ⟨t, rfl, -⟩
      exact .skip (.single h.spelled)
  refine .withSpan (R := ExprKind.Forms source) ?_ fun kind span used h hspan => h.whole hspan
  refine .bind (.just _) fun _ => ?_
  refine .bind he fun cond => ?_
  refine .bind hb fun consequent => ?_
  refine .bind (optional_spells Alternative.node helse) fun alternative => ?_
  refine .pure ?_
  rintro ws halternative vs hconsequent us hcond _ ⟨t, rfl, -⟩
  refine .after_token rfl rfl (.cons hcond.spelled (.cons hconsequent.spelled ?_))
  exact halternative.followed []

theorem labelRef_spells :
    Spells source (optional labelRef) fun label used =>
      InTurn (SyntaxNode.Spelled source) (label.map SyntaxNode.name).toList used := by
  refine optional_spells SyntaxNode.name (.mono (after_spells _ ident_spells) ?_)
  rintro name _ ⟨t, us, rfl, h⟩
  exact .skip (.single h.spelled)

theorem value_spells (he : ExprSpells source expr) :
    Spells source (optional expr) fun value used =>
      InTurn (SyntaxNode.Spelled source) (value.map SyntaxNode.expr).toList used :=
  optional_spells SyntaxNode.expr (.mono he fun _ _ h => .single h.spelled)

theorem path_spells : Spells source path fun p used => (ExprKind.path p).Forms source used := by
  have hroot : Spells source
      (Parser.or (withSpan (fun _ span => PathRoot.orb span) (keyword "orb")) (.ident <$> ident))
      fun root used => (PathRoot.node root).Whole source used := by
    refine .or (.withSpan (.just _) ?_) (.map ident_spells fun name used h => h)
    rintro _ span _ ⟨t, rfl, ht⟩ hspan
    exact .of_token (hspan (by simp)) (by rw [ht]; rfl) rfl rfl
  have hsegments : Spells source (many (digraph .pathSep >>= fun _ => ident))
      fun segments used => InTurn (SyntaxNode.Spelled source) (segments.map .name) used := by
    refine .many (after_spells _ ident_spells) .nil ?_
    rintro segment segments _ vs ⟨t, us, rfl, h⟩ hsegments
    rw [List.append_assoc]
    exact .skipAll [t] (.cons h.spelled hsegments)
  refine .bind hroot fun root => ?_
  refine .bind hsegments fun segments => ?_
  refine .pure ?_
  intro vs hsegments us hroot
  refine .of_turn ?_ rfl rfl (.cons hroot.spelled (hsegments.followed []))
  exact List.append_ne_nil_of_left_ne_nil hroot.covers.ne_nil _

theorem simple_spells (he : ExprSpells source expr) : ExprSpells source (simple expr) := by
  refine .withSpan (R := ExprKind.Forms source) (.choice ?_) fun kind span used h hspan =>
    h.whole hspan
  simp only [List.forall_mem_cons, List.not_mem_nil, false_imp_iff, implies_true, and_true]
  refine ⟨?_, ?_, ?_, ?_, ?_, ?_, ?_, ?_⟩
  · refine .token fun t kind _ hf => ?_
    split at hf
    · rename_i lit hk
      cases hf
      exact .of_token (by rw [hk]; rfl) rfl rfl
    · cases hf
  · refine .or (.map (.just _) ?_) (.map (.just _) ?_)
    · rintro _ _ ⟨t, rfl, ht⟩
      exact .of_token (by rw [ht]; rfl) rfl rfl
    · rintro _ _ ⟨t, rfl, ht⟩
      exact .of_token (by rw [ht]; rfl) rfl rfl
  · refine .map (.just _) ?_
    rintro _ _ ⟨t, rfl, ht⟩
    exact .of_token (by rw [ht]; rfl) rfl rfl
  · refine .recoverDelimited ?_ fun span opening us closing _ => .of_turn (by simp) rfl rfl .nil
    refine .bind (.just _) fun _ => ?_
    refine .bind he fun inner => ?_
    refine .bind (.just _) fun _ => ?_
    refine .pure ?_
    rintro _ ⟨t', rfl, -⟩ us hinner _ ⟨t, rfl, -⟩
    exact .after_token rfl rfl (.cons hinner.spelled .nil)
  · refine .bind (.just _) fun _ => ?_
    refine .bind (value_spells he) fun value => ?_
    refine .pure ?_
    rintro us hvalue _ ⟨t, rfl, -⟩
    exact .after_token rfl rfl (hvalue.followed [])
  · refine .bind (.just _) fun _ => ?_
    refine .bind labelRef_spells fun label => ?_
    refine .bind (value_spells he) fun value => ?_
    refine .pure ?_
    rintro vs hvalue us hlabel _ ⟨t, rfl, -⟩
    exact .after_token rfl rfl (hlabel.append (hvalue.followed []))
  · refine .bind (.just _) fun _ => ?_
    refine .bind labelRef_spells fun label => ?_
    refine .pure ?_
    rintro us hlabel _ ⟨t, rfl, -⟩
    exact .after_token rfl rfl (hlabel.followed [])
  · exact .map path_spells fun p used h => h

theorem primary_spells (he : ExprSpells source expr) (hb : BlockSpells source block)
    (hc : ExprSpells source conditional) (labels : Bool) :
    ExprSpells source (primary expr block conditional labels) := by
  refine .choice ?_
  simp only [List.forall_mem_cons, List.not_mem_nil, false_imp_iff, implies_true, and_true]
  refine ⟨?_, hc, simple_spells he⟩
  cases labels with
  | true => exact blockLike_spells he hb
  | false => exact unlabeled_spells he hb

/-! ## Operators -/

theorem arguments_spells (he : ExprSpells source expr) :
    Spells source (arguments expr) fun args used =>
      (SyntaxNode.arguments args).Whole source used := by
  unfold arguments
  have hlist : Spells source (sepBy expr (control ',')) fun args used =>
      InTurn (SyntaxNode.Spelled source) (args.map .expr) used := by
    refine .sepBy he (.mono (.just _) fun _ _ _ => trivial) (fun _ => .nil) ?_
    intro e args gap us vs h hargs
    exact .skipAll gap (.cons h.spelled hargs)
  refine .recoverDelimited (.withSpan (R := fun args used => used ≠ [] ∧
    InTurn (SyntaxNode.Spelled source) (args.map .expr) used) ?_ ?_) ?_
  · refine .bind (.just _) fun _ => ?_
    refine .bind hlist fun args => ?_
    refine .bind (.just _) fun _ => ?_
    refine .pure ?_
    rintro _ ⟨t', rfl, -⟩ us hargs _ ⟨t, rfl, -⟩
    exact ⟨by simp, .skip (hargs.followed [t'])⟩
  · rintro args span used ⟨hne, hargs⟩ hspan
    exact .of_turn (hspan hne).covers rfl rfl hargs
  · intro span opening us closing hspan
    exact .of_turn hspan.covers rfl rfl (.single (.skipped hspan.covers))

/-- What may follow an operand, and its tokens. -/
def SuffixSpelled (source : UInt16) : Suffix → List Lexeme → Prop
  | .call args, used => (SyntaxNode.arguments args).Spelled source used
  | .field name, used => InTurn (SyntaxNode.Spelled source) [.name name] used
  | .deref, used => ∃ t, used = [t] ∧ t.node = .digraph .deref

theorem suffix_spells (he : ExprSpells source expr) :
    Spells source (suffix expr) fun s used =>
      Covers source used s.2 ∧ SuffixSpelled source s.1 used := by
  refine .withSpan (R := fun s used => used ≠ [] ∧ SuffixSpelled source s used) (.choice ?_)
    fun s span used h hspan => ⟨(hspan h.1).covers, h.2⟩
  simp only [List.forall_mem_cons, List.not_mem_nil, false_imp_iff, implies_true, and_true]
  refine ⟨?_, ?_, ?_⟩
  · exact .map (arguments_spells he) fun args used h => ⟨h.covers.ne_nil, h.spelled⟩
  · refine .bind (.just _) fun _ => ?_
    refine .bind ident_spells fun name => ?_
    refine .pure ?_
    rintro us hname _ ⟨t, rfl, -⟩
    exact ⟨by simp, .skipAll [t] (.cons hname.spelled .nil)⟩
  · refine .map (.just _) ?_
    rintro _ _ ⟨t, rfl, ht⟩
    exact ⟨by simp, t, rfl, ht⟩

theorem applySuffix_whole {e : Expr} {us vs : List Lexeme} {s : Suffix × Span}
    (h : (SyntaxNode.expr e).Whole source us) (hcovers : Covers source vs s.2)
    (hs : SuffixSpelled source s.1 vs) :
    (SyntaxNode.expr (applySuffix e s)).Whole source (us ++ vs) := by
  obtain ⟨suffix, span⟩ := s
  have hboth : Covers source (us ++ vs) (e.span.cover span) :=
    h.covers.cover [] hcovers
  cases suffix with
  | call args => exact .of_turn hboth rfl rfl (.cons h.spelled (.single hs))
  | field name => exact .of_turn hboth rfl rfl (.cons h.spelled hs)
  | deref =>
    -- the token of the operator comes after the operand, and is kept in no other way
    obtain ⟨t, rfl, ht⟩ := hs
    exact ⟨hboth, .closed hboth rfl (congrArg some ht.symm) (.single h.spelled)⟩

theorem postfixed_spells (hp : ExprSpells source operand) (he : ExprSpells source expr) :
    ExprSpells source (postfixed operand expr) := by
  have hsuffixes : Spells source (many (suffix expr)) fun suffixes used =>
      ∀ e us, (SyntaxNode.expr e).Whole source us →
        (SyntaxNode.expr (suffixes.foldl applySuffix e)).Whole source (us ++ used) := by
    refine .many (suffix_spells he) ?_ ?_
    · intro e us h
      rwa [List.append_nil]
    · rintro s suffixes vs ws ⟨hcovers, hs⟩ ih e us h
      rw [List.foldl_cons, ← List.append_assoc]
      exact ih _ _ (applySuffix_whole h hcovers hs)
  rw [postfixed_eq]
  refine .bind hp fun e => ?_
  refine .bind hsuffixes fun suffixes => ?_
  refine .pure ?_
  intro vs hsuffixes us h
  rw [List.append_nil]
  exact hsuffixes e us h

/-- What may precede an operand, and its tokens. -/
def LeadSpelled (source : UInt16) : Lead → List Lexeme → Prop
  | .unary op, used => ∃ t, used = [t] ∧ t.node = op.token
  | .borrow mutSpan, used => ∃ t us, used = t :: us ∧
    InTurn (SyntaxNode.Spelled source) (mutSpan.map (SyntaxNode.word "mut")).toList us
  | .doubleBorrow mutSpan, used => ∃ t us, used = t :: us ∧ t.node = .digraph .and ∧
    InTurn (SyntaxNode.Spelled source) (mutSpan.map (SyntaxNode.word "mut")).toList us

theorem mutSpan_spells :
    Spells source mutSpan fun m used =>
      InTurn (SyntaxNode.Spelled source) (m.map (SyntaxNode.word "mut")).toList used := by
  refine optional_spells (SyntaxNode.word "mut") (.withSpan (.just _) ?_)
  rintro _ span _ ⟨t, rfl, ht⟩ hspan
  have hword : (SyntaxNode.word "mut" span).Whole source [t] :=
    .of_token (hspan (by simp)) (by rw [ht]; rfl) rfl rfl
  exact .single hword.spelled

theorem lead_spells :
    Spells source lead fun l used => Exact source used l.2 ∧ LeadSpelled source l.1 used := by
  refine .withSpan (R := fun l used => used ≠ [] ∧ LeadSpelled source l used) (.choice ?_)
    fun l span used h hspan => ⟨hspan h.1, h.2⟩
  simp only [List.forall_mem_cons, List.not_mem_nil, false_imp_iff, implies_true, and_true]
  refine ⟨?_, ?_, ?_, ?_⟩
  · refine .map (.just _) ?_
    rintro _ _ ⟨t, rfl, ht⟩
    exact ⟨by simp, t, rfl, ht⟩
  · refine .map (.just _) ?_
    rintro _ _ ⟨t, rfl, ht⟩
    exact ⟨by simp, t, rfl, ht⟩
  · refine .bind (.just _) fun _ => ?_
    refine .bind mutSpan_spells fun m => ?_
    refine .pure ?_
    rintro us hm _ ⟨t, rfl, -⟩
    exact ⟨by simp, t, _, rfl, hm.followed []⟩
  · refine .bind (.just _) fun _ => ?_
    refine .bind mutSpan_spells fun m => ?_
    refine .pure ?_
    rintro us hm _ ⟨t, rfl, ht⟩
    exact ⟨by simp, t, _, rfl, ht, hm.followed []⟩

theorem applyLead_whole {e : Expr} {us vs : List Lexeme} {l : Lead × Span}
    (hexact : Exact source us l.2) (hl : LeadSpelled source l.1 us)
    (h : (SyntaxNode.expr e).Whole source vs) :
    (SyntaxNode.expr (applyLead l e)).Whole source (us ++ vs) := by
  obtain ⟨lead, span⟩ := l
  have hboth : Covers source (us ++ vs) (span.cover e.span) :=
    hexact.covers.cover [] h.covers
  cases lead with
  | unary op =>
    obtain ⟨t, rfl, ht⟩ := hl
    have hop : (SyntaxNode.unOp ⟨op, span⟩).Whole source [t] :=
      .of_token hexact (congrArg some ht.symm) rfl rfl
    exact .of_turn hboth rfl rfl (.cons hop.spelled (.single h.spelled))
  | borrow m =>
    obtain ⟨t, ws, rfl, hm⟩ := hl
    exact .of_turn hboth rfl rfl (.skip (hm.append (.single h.spelled)))
  | doubleBorrow m =>
    obtain ⟨t, ws, rfl, ht, hm⟩ := hl
    have hstart : span.start = t.span.start := by
      obtain ⟨first, last, hfirst, -, rfl⟩ := hexact
      cases hfirst
      rfl
    refine ⟨hboth, ?_⟩
    dsimp only [applyLead]
    rw [hstart]
    exact .doubleBorrow ht hboth (hm.append (.single h.spelled))

theorem unary_spells (hp : ExprSpells source operand) (he : ExprSpells source expr) :
    ExprSpells source (unary operand expr) := by
  have hleads : Spells source (many lead) fun leads used =>
      ∀ e vs, (SyntaxNode.expr e).Whole source vs →
        (SyntaxNode.expr (leads.foldr applyLead e)).Whole source (used ++ vs) := by
    refine .many lead_spells ?_ ?_
    · intro e vs h
      exact h
    · rintro l leads us ws ⟨hexact, hl⟩ ih e vs h
      rw [List.foldr_cons, List.append_assoc]
      exact applyLead_whole hexact hl (ih e vs h)
  rw [unary_eq]
  refine .bind hleads fun leads => ?_
  refine .bind (postfixed_spells hp he) fun e => ?_
  refine .pure ?_
  intro vs h us hleads
  rw [List.append_nil]
  exact hleads e vs h

/-- A parser of operators. -/
def OpSpells (source : UInt16) (p : Parser BinOp) : Prop :=
  Spells source p fun op used => ∃ t, used = [t] ∧ t.node = op.token

theorem binOp_spells (op : BinOp) : OpSpells source (binOp op) :=
  .map (.just _) fun _ _ h => h

/-- An operator and the operand after it. -/
theorem operation_spells {op : Parser BinOp} (hp : ExprSpells source operand)
    (hop : OpSpells source op) :
    Spells source (operator op >>= fun op => operand >>= fun rhs => Pure.pure (op, rhs))
      fun r used => ∃ us vs, used = us ++ vs ∧ (SyntaxNode.binOp r.1).Whole source us ∧
        (SyntaxNode.expr r.2).Whole source vs := by
  have hoperator : Spells source (operator op) fun op used =>
      (SyntaxNode.binOp op).Whole source used := by
    refine .withSpan hop ?_
    rintro op span _ ⟨t, rfl, ht⟩ hspan
    exact .of_token (hspan (by simp)) (congrArg some ht.symm) rfl rfl
  refine .bind hoperator fun op => ?_
  refine .bind hp fun rhs => ?_
  refine .pure ?_
  intro vs hrhs us hop
  exact ⟨us, vs, by rw [List.append_nil], hop, hrhs⟩

theorem binary_spells {op : Parser BinOp} (hp : ExprSpells source operand)
    (hop : OpSpells source op) : ExprSpells source (binary operand op) := by
  have hrest : Spells source
      (many (operator op >>= fun op => operand >>= fun rhs => Pure.pure (op, rhs)))
      fun rest used => ∀ e us, (SyntaxNode.expr e).Whole source us →
        (SyntaxNode.expr (rest.foldl applyBinary e)).Whole source (us ++ used) := by
    refine .many (operation_spells hp hop) ?_ ?_
    · intro e us h
      rwa [List.append_nil]
    · rintro ⟨op, rhs⟩ rest _ zs ⟨ws, vs, rfl, hop, hrhs⟩ ih e us h
      rw [List.foldl_cons, ← List.append_assoc]
      refine ih _ _ (.of_turn (h.covers.cover _ hrhs.covers) rfl rfl ?_)
      exact .cons h.spelled (.cons hop.spelled (.single hrhs.spelled))
  rw [binary_eq]
  refine .bind hp fun first => ?_
  refine .bind hrest fun rest => ?_
  refine .pure ?_
  intro vs hrest us h
  rw [List.append_nil]
  exact hrest first us h

theorem levels_spells : ∀ op ∈ levels, OpSpells source op := by
  have pick : ∀ ops : List BinOp, OpSpells source (choice (ops.map binOp)) := by
    intro ops
    refine .choice fun p hp => ?_
    obtain ⟨op, -, rfl⟩ := List.mem_map.1 hp
    exact binOp_spells op
  have two : ∀ a b : BinOp, OpSpells source (Parser.or (binOp a) (binOp b)) :=
    fun a b => .or (binOp_spells a) (binOp_spells b)
  unfold levels
  simp only [List.forall_mem_cons, List.not_mem_nil, false_imp_iff, implies_true, and_true]
  exact ⟨pick [.mul, .div, .mod], two .add .sub, two .shl .shr, binOp_spells .bitAnd,
    binOp_spells .bitXor, binOp_spells .bitOr, two .eq .ne, pick [.gt, .gte, .lt, .lte],
    binOp_spells .and, binOp_spells .or⟩

theorem foldl_binary_spells {ops : List (Parser BinOp)} (hops : ∀ op ∈ ops, OpSpells source op)
    (hp : ExprSpells source operand) : ExprSpells source (ops.foldl binary operand) := by
  induction ops generalizing operand with
  | nil => exact hp
  | cons op ops ih =>
    obtain ⟨hop, hops⟩ := List.forall_mem_cons.1 hops
    exact ih hops (binary_spells hp hop)

theorem operators_spells (hp : ExprSpells source operand) (he : ExprSpells source expr) :
    ExprSpells source (operators operand expr) :=
  foldl_binary_spells levels_spells (unary_spells hp he)

theorem assignment_spells (hp : ExprSpells source operand) :
    ExprSpells source (assignment operand) := by
  have hrest : Spells source (many (control '=' >>= fun _ => operand)) fun rest used =>
      ∀ e us, (SyntaxNode.expr e).Whole source us →
        (SyntaxNode.expr (assignAll e rest)).Whole source (us ++ used) := by
    refine .many (after_spells _ hp) ?_ ?_
    · intro e us h
      rwa [List.append_nil]
    · -- the last assignment is the innermost one
      rintro next rest _ ws ⟨t, vs, rfl, hnext⟩ ih e us h
      have hrhs := ih next vs hnext
      rw [List.append_assoc]
      exact .of_turn (h.covers.cover _ hrhs.covers) rfl rfl
        (.cons h.spelled (.skip (.single hrhs.spelled)))
  rw [assignment_eq]
  refine .bind hp fun first => ?_
  refine .bind hrest fun rest => ?_
  refine .pure ?_
  intro vs hrest us h
  rw [List.append_nil]
  exact hrest first us h

/-! ## The knot -/

theorem exprOf_spells (he : ExprSpells source expr) (hb : BlockSpells source block)
    (hc : ExprSpells source conditional) (labels : Bool) :
    ExprSpells source (operators (primary expr (blockOf expr block)
      (conditionalOf expr (blockOf expr block) conditional) labels) expr) :=
  operators_spells (primary_spells he (blockOf_spells he hb)
    (conditionalOf_spells he (blockOf_spells he hb) hc) labels) he

/-- Expressions, blocks and conditionals nested up to a depth are spelled with what was read. -/
theorem within_spells (source : UInt16) (depth : Nat) :
    ExprSpells source (exprWithin depth) ∧ BlockSpells source (blockWithin depth) ∧
      ExprSpells source (conditionalWithin depth) := by
  induction depth with
  | zero =>
    rw [exprWithin, blockWithin, conditionalWithin]
    exact ⟨.fail, .fail, .fail⟩
  | succ depth ih =>
    obtain ⟨he, hb, hc⟩ := ih
    rw [exprWithin, blockWithin, conditionalWithin]
    exact ⟨assignment_spells (exprOf_spells he hb hc true), blockOf_spells he hb,
      conditionalOf_spells he (blockOf_spells he hb) hc⟩

theorem typeExprWithin_spells (source : UInt16) (depth : Nat) :
    Spells source (typeExprWithin depth) fun type used => type.node.Whole source used := by
  cases depth with
  | zero =>
    rw [typeExprWithin]
    exact .fail
  | succ depth =>
    obtain ⟨he, hb, hc⟩ := within_spells source depth
    rw [typeExprWithin]
    refine .or (.token ?_) (.map (exprOf_spells he hb hc false) fun e used h => h)
    intro t type hsource hf
    split at hf
    · rename_i word hk
      obtain ⟨primitive, hfind, rfl⟩ := Option.map_eq_some_iff.1 hf
      have hword : primitive.text = word := by
        simpa using List.find?_some hfind
      have hexact : Exact source [t] t.span := ⟨t, t, rfl, rfl, by rw [← hsource]⟩
      exact .of_token hexact (by rw [hk, ← hword]; rfl) rfl rfl
    · cases hf

theorem expr_spells : ExprSpells source Grammar.expr := by
  intro c hc
  rw [Grammar.expr, deferred_apply]
  exact (within_spells source (c.left + 1)).1 c hc

theorem typeExpr_spells :
    Spells source typeExpr fun type used => type.node.Whole source used := by
  intro c hc
  rw [typeExpr, deferred_apply]
  exact typeExprWithin_spells source (c.left + 1) c hc

/-! ## Definitions -/

theorem header_spells :
    Spells source header fun h used =>
      InTurn (SyntaxNode.Whole source) (h.1.map TypeExpr.node).toList used := by
  refine .choice ?_
  simp only [List.forall_mem_cons, List.not_mem_nil, false_imp_iff, implies_true, and_true]
  refine ⟨.map (.just _) fun _ _ _ => .nil, ?_⟩
  have hseparator : Spells source
      (Parser.or ((fun _ => false) <$> control ':') ((fun _ => true) <$> control '='))
      fun _ _ => True :=
    .or (.map (.just _) fun _ _ _ => trivial) (.map (.just _) fun _ _ _ => trivial)
  refine .bind (.just _) fun _ => ?_
  refine .bind (optional_spells TypeExpr.node (.mono typeExpr_spells fun type used h => .single h))
    fun type => ?_
  refine .bind hseparator fun mutable => ?_
  refine .pure ?_
  rintro vs - us htype _ ⟨t, rfl, -⟩
  exact .skip (htype.followed _)

/-- A definition and its tokens. -/
def DefinitionSpelled (source : UInt16) (d : GlobalDef) (used : List Lexeme) : Prop :=
  used ≠ [] ∧ ∀ span, InTurn (SyntaxNode.Whole source) (SyntaxNode.item ⟨d, span⟩).parts used

theorem definition_spells : Spells source definition (DefinitionSpelled source) := by
  unfold definition
  refine .check (R := DefinitionSpelled source) ?_ ?_
  · refine .bind ident_spells fun name => ?_
    refine .bind header_spells fun h => ?_
    refine .bind expr_spells fun value => ?_
    refine .bind (.optional (.just _)) fun semicolon => ?_
    refine .pure ?_
    intro zs _ ws hvalue vs htype us hname
    refine ⟨List.append_ne_nil_of_left_ne_nil hname.covers.ne_nil _, fun span => ?_⟩
    exact .cons hname (htype.append (.cons hvalue .nil))
  · intro d span used h hspan
    refine ⟨h, fun m hm => ?_⟩
    obtain ⟨us, hus, hwhole⟩ := (h.2 span).mem (n := .expr d.value) (by simp [SyntaxNode.parts])
    have hm : m.1 = d.value.span.atStop := by
      dsimp only at hm
      split at hm
      · cases List.mem_singleton.1 hm
        rfl
      · cases hm
    rw [hm]
    exact .stop hus hwhole.covers

theorem item_spells :
    Spells source item fun i used => InTurn (SyntaxNode.Whole source) [.item i] used := by
  unfold item
  refine .mono (.recoverSkipping (R := fun i used => (SyntaxNode.item i).Whole source used)
    (.withSpan definition_spells fun d span used h hspan =>
      .of_turn (hspan h.1).covers rfl rfl (h.2 span).spelled)) ?_
  rintro i _ ⟨gap, us, rfl, h⟩
  exact .skipAll gap (.single h)

theorem any_spells : Spells source any fun _ used => used ≠ [] :=
  .token fun _ _ _ _ => by simp

theorem trailing_spells : Spells source trailing fun _ _ => True := by
  have hrest : Spells source (many any) fun _ _ => True :=
    .many any_spells trivial fun _ _ _ _ _ _ => trivial
  unfold trailing
  refine .check (R := fun _ used => used ≠ []) ?_ ?_
  · refine .bind any_spells fun first => ?_
    refine .bind hrest fun _ => ?_
    refine .pure ?_
    intro vs _ us hne
    exact List.append_ne_nil_of_left_ne_nil hne _
  · intro first span used hne hspan
    refine ⟨trivial, fun m hm => ?_⟩
    cases List.mem_singleton.1 hm
    exact .span (List.infix_refl _) (hspan hne).covers

theorem sourceFile_spells :
    Spells source sourceFile fun items used =>
      InTurn (SyntaxNode.Whole source) (items.map .item) used := by
  have hitems : Spells source (many item) fun items used =>
      InTurn (SyntaxNode.Whole source) (items.map .item) used :=
    .many item_spells .nil fun i items us vs h hs => h.append hs
  refine .bind hitems fun items => ?_
  refine .bind (.optional trailing_spells) fun _ => ?_
  refine .bind .finish fun _ => ?_
  refine .pure ?_
  intro ws _ vs _ us hitems
  exact hitems.followed _

end Grammar

/-! ## Files -/

theorem tokenStream_isIn (tokens : List Token) (id : UInt16) : (tokenStream tokens id).In id := by
  refine ⟨rfl, fun t ht => ?_⟩
  obtain ⟨token, -, rfl⟩ := List.mem_map.1 ht
  rfl

/-- **A file is spelled with its tokens.**  Its items are made of the tokens which are no comments,
one after the other, and all complaints are about these tokens or the end. -/
theorem tokenStream_spells (tokens : List Token) (id : UInt16) :
    ∃ reported items after alt,
      Grammar.sourceFile (P := Parser) (tokenStream tokens id) = ⟨reported, .ok items after alt⟩ ∧
      InTurn (SyntaxNode.Whole id) (items.map .item) (tokenStream tokens id).rest ∧
      ∀ e ∈ reported, (tokenStream tokens id).Locates e := by
  obtain ⟨reported, after, alt, hfile, -⟩ := Grammar.sourceFile_eq_ok (tokenStream tokens id)
  have hmeets := Grammar.sourceFile_spells _ (tokenStream_isIn tokens id)
  rw [hfile] at hmeets
  cases hmeets with
  | ok hreported _ hreach hitems =>
    have hrest := hreach.passes.rest_eq
    rw [Grammar.sourceFile_rest hfile, List.append_nil] at hrest
    refine ⟨reported, _, after, alt, hfile, ?_, hreported⟩
    rw [hrest]
    exact hitems

/-- The file of a text is that of its tokens, but for its span. -/
theorem parse_file {source : String} {id : UInt16} {file : SourceFile}
    (h : (parseTokens (lex source id).1 id).1 = some file) :
    (parse source id).file = some { file with span := ⟨id, 0, source.length⟩ } := by
  unfold parse
  simp only [h, Option.map_some]

/-- The items of a text are made of its tokens, and what is wrong with it is wrong with its chars or
with these tokens. -/
theorem parse_spells (source : String) (id : UInt16) :
    ∃ (items : List Item) (reported : List Complaint),
      (parse source id).file = some ⟨items, ⟨id, 0, source.length⟩⟩ ∧
      (parse source id).diagnostics = (lex source id).2 ++ reported.map Complaint.toDiagnostic ∧
      InTurn (SyntaxNode.Whole id) (items.map .item) (tokenStream (lex source id).1 id).rest ∧
      ∀ e ∈ reported, (tokenStream (lex source id).1 id).Locates e := by
  obtain ⟨reported, items, after, alt, hfile, hitems, hreported⟩ :=
    tokenStream_spells (lex source id).1 id
  have htokens : parseTokens (lex source id).1 id =
      (some ⟨items, ⟨id, 0, tokensEnd (lex source id).1⟩⟩,
        reported.map Complaint.toDiagnostic) := by
    unfold parseTokens
    rw [hfile]
    rfl
  refine ⟨items, reported, parse_file (congrArg Prod.fst htokens), ?_, hitems, hreported⟩
  unfold parse
  simp only [htokens]

end LunSyntax
