import LunSyntax.Proofs.Grammar.Provenance
import LunSyntax.Proofs.Parser.Checking

/-!
# The grammar comes to its end

Where the tokens are of one source and none starts at the largest offset, the checked reading of the
grammar is the plain one: nothing is repeated without reading, what is merged is of one source, and
there is an offset after each that is moved on.

* one lemma for each rule of the grammar, for any parsers of what it holds, and the knot by
  induction on the depth;
* `sourceFile_follows`: no parse of a source file is cut short;
* `parseTokens?_eq`: so `parseTokens?` answers what `parseTokens` does.
-/

set_option autoImplicit false

namespace LunSyntax

namespace Grammar

open LunSyntax.Combinators
open LunSyntax.Checked (Follows)
open LunSyntax.Parser (Spells)

variable {source : UInt16} {gExpr gConditional gOperand : Checked Expr} {gBlock : Checked Block}
  {expr conditional operand : Parser Expr} {block : Parser Block}

/-! ## Tokens -/

theorem ident_follows : Follows source (ident : Checked Ident) (ident : Parser Ident) :=
  .withSpan .token

/-- What is repeated after a separator reads the separator. -/
theorem after_progress {α : Type} {p : Parser α} {R : α → List Lexeme → Prop} (kind : TokenKind)
    (hp : Spells source p R) :
    Spells source (just kind >>= fun _ => p) fun _ used => used ≠ [] := by
  refine .mono (after_spells kind hp) ?_
  rintro a _ ⟨t, us, rfl, -⟩
  simp

/-! ## Statements and blocks -/

theorem unlabeled_follows (he : Follows source gExpr expr) (hb : Follows source gBlock block) :
    Follows source (unlabeled gExpr gBlock) (unlabeled expr block) := by
  refine .withSpan (.choice (.cons ?block (.cons ?whileLoop (.cons ?forLoop (.cons ?loop .nil)))))
  case block => exact .map hb
  case whileLoop =>
    refine .bind .just fun _ => ?_
    refine .bind he fun cond => ?_
    refine .bind hb fun body => ?_
    exact .pure _
  case forLoop =>
    refine .bind .just fun _ => ?_
    refine .bind ident_follows fun var => ?_
    refine .bind .just fun _ => ?_
    refine .bind he fun iterator => ?_
    refine .bind hb fun body => ?_
    exact .pure _
  case loop =>
    refine .bind .just fun _ => ?_
    refine .bind hb fun body => ?_
    exact .pure _

theorem blockLike_follows (he : Follows source gExpr expr) (hb : Follows source gBlock block) :
    Follows source (blockLike gExpr gBlock) (blockLike expr block) := by
  have hinner := unlabeled_follows he hb
  refine .either (.withSpan ?_) hinner
  refine .bind ident_follows fun label => ?_
  refine .bind .just fun _ => ?_
  refine .bind hinner fun inner => ?_
  exact .pure _

theorem stmt_follows (he : Follows source gExpr expr) (hb : Follows source gBlock block) :
    Follows source (stmt gExpr gBlock) (stmt expr block) := by
  refine .bind (.either (blockLike_follows he hb) he) fun e => ?_
  refine .bind (.optional .just) fun semicolon => ?_
  exact .pure _

theorem blockOf_follows (he : Follows source gExpr expr) (hse : ExprSpells source expr)
    (hb : Follows source gBlock block) (hsb : BlockSpells source block) :
    Follows source (blockOf gExpr gBlock) (blockOf expr block) := by
  have hprogress : Spells source (stmt expr block) fun _ used => used ≠ [] := by
    refine .mono (stmt_spells hse hsb) ?_
    rintro s _ ⟨us, gap, rfl, h⟩
    exact List.append_ne_nil_of_left_ne_nil h.covers.ne_nil _
  unfold blockOf
  refine .recoverDelimited (.check ?_)
  refine .bind .just fun _ => ?_
  refine .bind (.many hprogress (stmt_follows he hb)) fun stmts => ?_
  refine .bind .just fun _ => ?_
  exact .pure _

/-! ## Primary expressions -/

theorem conditionalOf_follows (he : Follows source gExpr expr) (hb : Follows source gBlock block)
    (hc : Follows source gConditional conditional) :
    Follows source (conditionalOf gExpr gBlock gConditional)
      (conditionalOf expr block conditional) := by
  refine .withSpan ?_
  refine .bind .just fun _ => ?_
  refine .bind he fun cond => ?_
  refine .bind hb fun consequent => ?_
  refine .bind (.optional ?_) fun alternative => ?_
  · refine .bind .just fun _ => ?_
    exact .either (.map hc) (.map hb)
  · exact .pure _

theorem labelRef_follows : Follows source (labelRef : Checked Ident) (labelRef : Parser Ident) := by
  refine .bind .just fun _ => ?_
  exact ident_follows

theorem path_follows : Follows source (path : Checked Path) (path : Parser Path) := by
  refine .bind (.either (.withSpan .just) (.map ident_follows)) fun root => ?_
  refine .bind (.many (after_progress _ ident_spells) ?_) fun segments => ?_
  · refine .bind .just fun _ => ?_
    exact ident_follows
  · exact .pure _

theorem simple_follows (he : Follows source gExpr expr) :
    Follows source (simple gExpr) (simple expr) := by
  refine .withSpan (.choice (.cons .token (.cons ?bool (.cons ?null (.cons ?paren (.cons ?ret
    (.cons ?brk (.cons ?cont (.cons ?path .nil)))))))))
  case bool => exact .either (.map .just) (.map .just)
  case null => exact .map .just
  case paren =>
    refine .recoverDelimited ?_
    refine .bind .just fun _ => ?_
    refine .bind he fun inner => ?_
    refine .bind .just fun _ => ?_
    exact .pure _
  case ret =>
    refine .bind .just fun _ => ?_
    refine .bind (.optional he) fun value => ?_
    exact .pure _
  case brk =>
    refine .bind .just fun _ => ?_
    refine .bind (.optional labelRef_follows) fun label => ?_
    refine .bind (.optional he) fun value => ?_
    exact .pure _
  case cont =>
    refine .bind .just fun _ => ?_
    refine .bind (.optional labelRef_follows) fun label => ?_
    exact .pure _
  case path => exact .map path_follows

theorem primary_follows (he : Follows source gExpr expr) (hb : Follows source gBlock block)
    (hc : Follows source gConditional conditional) (labels : Bool) :
    Follows source (primary gExpr gBlock gConditional labels)
      (primary expr block conditional labels) := by
  refine .choice (.cons ?_ (.cons hc (.cons (simple_follows he) .nil)))
  cases labels with
  | true => exact blockLike_follows he hb
  | false => exact unlabeled_follows he hb

/-! ## Operators -/

theorem arguments_follows (he : Follows source gExpr expr) (hse : ExprSpells source expr) :
    Follows source (arguments gExpr) (arguments expr) := by
  have hprogress : Spells source expr fun _ used => used ≠ [] :=
    .mono hse fun e used h => h.covers.ne_nil
  unfold arguments
  refine .recoverDelimited (.withSpan ?_)
  refine .bind .just fun _ => ?_
  refine .bind (.sepBy hprogress he .just (.mono (.just _) fun _ _ _ => trivial)) fun args => ?_
  refine .bind .just fun _ => ?_
  exact .pure _

theorem suffix_follows (he : Follows source gExpr expr) (hse : ExprSpells source expr) :
    Follows source (suffix gExpr) (suffix expr) := by
  refine .withSpan (.choice (.cons ?call (.cons ?field (.cons ?deref .nil))))
  case call => exact .map (arguments_follows he hse)
  case field =>
    refine .bind .just fun _ => ?_
    refine .bind ident_follows fun name => ?_
    exact .pure _
  case deref => exact .map .just

theorem joinSuffix_follows {e : Expr} {s : Suffix × Span} (h : e.span.source = s.2.source) :
    Follows source (joinSuffix e s) (joinSuffix e s) := by
  obtain ⟨suffix, span⟩ := s
  refine .bind (.merge h) fun full => ?_
  cases suffix with
  | call args => exact .pure _
  | field name => exact .pure _
  | deref => exact .pure _

theorem applyLead_source (l : Lead × Span) (e : Expr) :
    (applyLead l e).span.source = l.2.source := by
  obtain ⟨lead, span⟩ := l
  cases lead <;> rfl

theorem joinLead_follows {l : Lead × Span} {e : Expr} (h : l.2.source = e.span.source)
    (hstart : l.2.start < maxOffset) : Follows source (joinLead l e) (joinLead l e) := by
  obtain ⟨lead, span⟩ := l
  refine .bind (.merge h) fun full => ?_
  cases lead with
  | unary op => exact .pure _
  | borrow mutSpan => exact .pure _
  | doubleBorrow mutSpan =>
    refine .bind (.nextOffset hstart) fun start => ?_
    exact .pure _

theorem joinBinary_follows {lhs : Expr} {r : Spanned BinOp × Expr}
    (h : lhs.span.source = r.2.span.source) :
    Follows source (joinBinary lhs r) (joinBinary lhs r) := by
  obtain ⟨op, rhs⟩ := r
  refine .bind (.merge h) fun full => ?_
  exact .pure _

theorem joinAssign_follows {lhs rhs : Expr} (h : lhs.span.source = rhs.span.source) :
    Follows source (joinAssign lhs rhs) (joinAssign lhs rhs) := by
  refine .bind (.merge h) fun full => ?_
  exact .pure _

/-- A chain of joins, each of which is of spans of one source. -/
theorem foldlM_follows {α : Type} {g : Expr → α → Checked Expr} {p : Expr → α → Parser Expr}
    {f : Expr → α → Expr} {as : List α} {e : Expr} (hp : ∀ e a, p e a = Pure.pure (f e a))
    (hg : ∀ a ∈ as, ∀ e, e.span.source = source →
      Follows source (g e a) (p e a) ∧ (f e a).span.source = source)
    (he : e.span.source = source) : Follows source (as.foldlM g e) (as.foldlM p e) := by
  induction as generalizing e with
  | nil => exact .pure e
  | cons a as ih =>
    obtain ⟨ha, has⟩ := List.forall_mem_cons.1 hg
    obtain ⟨hjoin, hsource⟩ := ha e he
    have hvalue : Spells source (p e a) fun e' _ => e' = f e a := by
      rw [hp]
      exact .pure rfl
    rw [List.foldlM_cons, List.foldlM_cons]
    refine .bind_spells hvalue hjoin ?_
    rintro e' _ rfl -
    exact ih has hsource

theorem postfixed_follows (hp : Follows source gOperand operand) (hsp : ExprSpells source operand)
    (he : Follows source gExpr expr) (hse : ExprSpells source expr) :
    Follows source (postfixed gOperand gExpr) (postfixed operand expr) := by
  have hprogress : Spells source (suffix expr) fun _ used => used ≠ [] :=
    .mono (suffix_spells hse) fun s used h => h.1.ne_nil
  have hsuffixes : Spells source (many (suffix expr)) fun suffixes _ =>
      ∀ s ∈ suffixes, s.2.source = source :=
    .many (suffix_spells hse) (by simp) fun s suffixes us vs h hs =>
      List.forall_mem_cons.2 ⟨h.1.source_eq, hs⟩
  refine .bind_spells hsp hp fun e used hwhole _ => ?_
  refine .bind_spells hsuffixes (.many hprogress (suffix_follows he hse)) fun suffixes _ hs _ => ?_
  refine foldlM_follows joinSuffix_eq (fun s hmem e' he' => ⟨?_, he'⟩) hwhole.covers.source_eq
  exact joinSuffix_follows (he'.trans (hs s hmem).symm)

theorem mutSpan_follows :
    Follows source (mutSpan : Checked (Option Span)) (mutSpan : Parser (Option Span)) :=
  .optional (.withSpan .just)

theorem lead_follows :
    Follows source (lead : Checked (Lead × Span)) (lead : Parser (Lead × Span)) := by
  refine .withSpan (.choice (.cons ?neg (.cons ?not (.cons ?borrow (.cons ?doubleBorrow .nil)))))
  case neg => exact .map .just
  case not => exact .map .just
  case borrow =>
    refine .bind .just fun _ => ?_
    refine .bind mutSpan_follows fun mutSpan => ?_
    exact .pure _
  case doubleBorrow =>
    refine .bind .just fun _ => ?_
    refine .bind mutSpan_follows fun mutSpan => ?_
    exact .pure _

theorem unary_follows (hp : Follows source gOperand operand) (hsp : ExprSpells source operand)
    (he : Follows source gExpr expr) (hse : ExprSpells source expr) :
    Follows source (unary gOperand gExpr) (unary operand expr) := by
  have hprogress : Spells source lead fun _ used => used ≠ [] :=
    .mono lead_spells fun l used h => h.1.covers.ne_nil
  have hleads : Spells source (many lead) fun leads used =>
      ∀ l ∈ leads, l.2.source = source ∧ ∃ t ∈ used, l.2.start = t.span.start := by
    refine .many lead_spells (by simp) fun l leads us vs h hs => ?_
    obtain ⟨t, ht, hstart⟩ := h.1.covers.start_mem
    refine List.forall_mem_cons.2 ⟨⟨h.1.covers.source_eq, t, ?_, hstart⟩, fun l' hl' => ?_⟩
    · exact List.mem_append_left _ ht
    · obtain ⟨hsource, t', ht', hstart'⟩ := hs l' hl'
      exact ⟨hsource, t', List.mem_append_right _ ht', hstart'⟩
  refine .bind_spells hleads (.many hprogress lead_follows) fun leads used hl hbounds => ?_
  refine .bind_spells (postfixed_spells hsp hse) (postfixed_follows hp hsp he hse)
    fun e used' hwhole _ => ?_
  -- a fold from the right is one from the left over the reversed list
  refine foldlM_follows (fun e l => joinLead_eq l e) ?_ hwhole.covers.source_eq
  intro l hmem e' he'
  obtain ⟨hsource, t, ht, hstart⟩ := hl l (List.mem_reverse.1 hmem)
  refine ⟨joinLead_follows (hsource.trans he'.symm) (hstart ▸ hbounds t ht), ?_⟩
  rw [applyLead_source, hsource]

theorem binOp_follows (op : BinOp) :
    Follows source (binOp op : Checked BinOp) (binOp op : Parser BinOp) :=
  .map .just

theorem binary_follows {gOp : Checked BinOp} {op : Parser BinOp}
    (hp : Follows source gOperand operand) (hsp : ExprSpells source operand)
    (hop : Follows source gOp op) (hsop : OpSpells source op) :
    Follows source (binary gOperand gOp) (binary operand op) := by
  have hprogress : Spells source
      (operator op >>= fun op => operand >>= fun rhs => Pure.pure (op, rhs))
      fun _ used => used ≠ [] := by
    refine .mono (operation_spells hsp hsop) ?_
    rintro r _ ⟨us, vs, rfl, h, -⟩
    exact List.append_ne_nil_of_left_ne_nil h.covers.ne_nil _
  have hrest : Spells source
      (many (operator op >>= fun op => operand >>= fun rhs => Pure.pure (op, rhs)))
      fun rest _ => ∀ r ∈ rest, r.2.span.source = source := by
    refine .many (operation_spells hsp hsop) (by simp) ?_
    rintro r rest _ ws ⟨us, vs, rfl, -, h⟩ hs
    exact List.forall_mem_cons.2 ⟨h.covers.source_eq, hs⟩
  refine .bind_spells hsp hp fun first used hwhole _ => ?_
  refine .bind_spells hrest (.many hprogress ?_) fun rest used' hr _ => ?_
  · refine .bind (.withSpan hop) fun op => ?_
    refine .bind hp fun rhs => ?_
    exact .pure _
  · refine foldlM_follows joinBinary_eq (fun r hmem e he => ⟨?_, he⟩) hwhole.covers.source_eq
    exact joinBinary_follows (he.trans (hr r hmem).symm)

/-- The levels of operators, one by one. -/
theorem foldl_binary_follows {gOps : List (Checked BinOp)} {ops : List (Parser BinOp)}
    (hops : Follows.All source gOps ops) (hsops : ∀ op ∈ ops, OpSpells source op)
    (hp : Follows source gOperand operand) (hsp : ExprSpells source operand) :
    Follows source (gOps.foldl binary gOperand) (ops.foldl binary operand) := by
  induction hops generalizing gOperand operand with
  | nil => exact hp
  | cons hop _ ih =>
    obtain ⟨hsop, hsops⟩ := List.forall_mem_cons.1 hsops
    exact ih hsops (binary_follows hp hsp hop hsop) (binary_spells hsp hsop)

theorem levels_follow : Follows.All source (levels : List (Checked BinOp)) levels := by
  have one : ∀ op : BinOp, Follows source (binOp op : Checked BinOp) (binOp op : Parser BinOp) :=
    binOp_follows
  have pick : ∀ ops : List BinOp,
      Follows source (choice (ops.map binOp) : Checked BinOp) (choice (ops.map binOp)) := by
    intro ops
    refine .choice ?_
    induction ops with
    | nil => exact .nil
    | cons op ops ih => exact .cons (one op) ih
  have two : ∀ a b : BinOp,
      Follows source (either (binOp a) (binOp b) : Checked BinOp) (either (binOp a) (binOp b)) :=
    fun a b => .either (one a) (one b)
  exact .cons (pick [.mul, .div, .mod]) <| .cons (two .add .sub) <| .cons (two .shl .shr) <|
    .cons (one .bitAnd) <| .cons (one .bitXor) <| .cons (one .bitOr) <| .cons (two .eq .ne) <|
    .cons (pick [.gt, .gte, .lt, .lte]) <| .cons (one .and) <| .cons (one .or) .nil

theorem operators_follows (hp : Follows source gOperand operand) (hsp : ExprSpells source operand)
    (he : Follows source gExpr expr) (hse : ExprSpells source expr) :
    Follows source (operators gOperand gExpr) (operators operand expr) :=
  foldl_binary_follows levels_follow levels_spells (unary_follows hp hsp he hse)
    (unary_spells hsp hse)

theorem assignAll_source (first : Expr) (rest : List Expr) :
    (assignAll first rest).span.source = first.span.source := by
  cases rest with
  | nil => rfl
  | cons next rest => rfl

theorem joinAssigns_follows {first : Expr} {rest : List Expr} (hfirst : first.span.source = source)
    (hrest : ∀ e ∈ rest, e.span.source = source) :
    Follows source (joinAssigns first rest) (joinAssigns first rest) := by
  induction rest generalizing first with
  | nil => exact .pure _
  | cons next rest ih =>
    obtain ⟨hnext, hrest⟩ := List.forall_mem_cons.1 hrest
    have hvalue : Spells source (joinAssigns next rest) fun rhs _ => rhs = assignAll next rest := by
      rw [joinAssigns_eq]
      exact .pure rfl
    refine .bind_spells hvalue (ih hnext hrest) ?_
    rintro rhs _ rfl -
    refine joinAssign_follows ?_
    rw [assignAll_source, hfirst, hnext]

theorem assignment_follows (hp : Follows source gOperand operand)
    (hsp : ExprSpells source operand) :
    Follows source (assignment gOperand) (assignment operand) := by
  have hrest : Spells source (many (control '=' >>= fun _ => operand)) fun rest _ =>
      ∀ e ∈ rest, e.span.source = source := by
    refine .many (after_spells _ hsp) (by simp) ?_
    rintro e rest _ ws ⟨t, us, rfl, h⟩ hs
    exact List.forall_mem_cons.2 ⟨h.covers.source_eq, hs⟩
  refine .bind_spells hsp hp fun first used hwhole _ => ?_
  refine .bind_spells hrest (.many (after_progress _ hsp) ?_) fun rest used' hr _ => ?_
  · refine .bind .just fun _ => ?_
    exact hp
  · exact joinAssigns_follows hwhole.covers.source_eq hr

/-! ## The knot -/

theorem exprOf_follows (he : Follows source gExpr expr) (hse : ExprSpells source expr)
    (hb : Follows source gBlock block) (hsb : BlockSpells source block)
    (hc : Follows source gConditional conditional) (hsc : ExprSpells source conditional)
    (labels : Bool) :
    Follows source
      (operators (primary gExpr (blockOf gExpr gBlock)
        (conditionalOf gExpr (blockOf gExpr gBlock) gConditional) labels) gExpr)
      (operators (primary expr (blockOf expr block)
        (conditionalOf expr (blockOf expr block) conditional) labels) expr) := by
  have hblock := blockOf_follows he hse hb hsb
  have hsblock := blockOf_spells hse hsb
  have hcond := conditionalOf_follows he hblock hc
  have hscond := conditionalOf_spells hse hsblock hsc
  exact operators_follows (primary_follows he hblock hcond labels)
    (primary_spells hse hsblock hscond labels) he hse

theorem within_follows (source : UInt16) (depth : Nat) :
    Follows source (exprWithin depth : Checked Expr) (exprWithin depth : Parser Expr) ∧
      Follows source (blockWithin depth : Checked Block) (blockWithin depth : Parser Block) ∧
      Follows source (conditionalWithin depth : Checked Expr)
        (conditionalWithin depth : Parser Expr) := by
  induction depth with
  | zero =>
    rw [exprWithin, blockWithin, conditionalWithin, exprWithin, blockWithin, conditionalWithin]
    exact ⟨.fail, .fail, .fail⟩
  | succ depth ih =>
    obtain ⟨hse, hsb, hsc⟩ := within_spells source depth
    have he := Follows.deferred fun _ => ih.1
    have hb := Follows.deferred fun _ => ih.2.1
    have hc := Follows.deferred fun _ => ih.2.2
    have hoperand := exprOf_follows he hse hb hsb hc hsc true
    have hblock := blockOf_follows he hse hb hsb
    rw [exprWithin, blockWithin, conditionalWithin, exprWithin, blockWithin, conditionalWithin]
    exact ⟨assignment_follows hoperand (exprOf_spells hse hsb hsc true), hblock,
      conditionalOf_follows he hblock hc⟩

theorem typeExprWithin_follows (depth : Nat) :
    Follows source (typeExprWithin depth : Checked TypeExpr)
      (typeExprWithin depth : Parser TypeExpr) := by
  cases depth with
  | zero =>
    rw [typeExprWithin, typeExprWithin]
    exact .fail
  | succ depth =>
    obtain ⟨hse, hsb, hsc⟩ := within_spells source depth
    obtain ⟨he, hb, hc⟩ := within_follows source depth
    have hoperand := exprOf_follows (.deferred fun _ => he) hse (.deferred fun _ => hb) hsb
      (.deferred fun _ => hc) hsc false
    rw [typeExprWithin, typeExprWithin]
    exact .either .token (.map hoperand)

theorem expr_follows :
    Follows source (Grammar.expr : Checked Expr) (Grammar.expr : Parser Expr) :=
  .deferred fun left => (within_follows source (left + 1)).1

theorem typeExpr_follows :
    Follows source (typeExpr : Checked TypeExpr) (typeExpr : Parser TypeExpr) :=
  .deferred fun left => typeExprWithin_follows (left + 1)

/-! ## Definitions -/

theorem header_follows :
    Follows source (header : Checked (Option TypeExpr × Bool)) (header : Parser _) := by
  refine .choice (.cons (.map .just) (.cons ?_ .nil))
  refine .bind .just fun _ => ?_
  refine .bind (.optional typeExpr_follows) fun type => ?_
  refine .bind (.either (.map .just) (.map .just)) fun mutable => ?_
  exact .pure _

theorem definition_follows :
    Follows source (definition : Checked GlobalDef) (definition : Parser GlobalDef) := by
  unfold definition
  refine .check ?_
  refine .bind ident_follows fun name => ?_
  refine .bind header_follows fun header => ?_
  refine .bind expr_follows fun value => ?_
  refine .bind (.optional .just) fun semicolon => ?_
  exact .pure _

theorem item_follows : Follows source (item : Checked Item) (item : Parser Item) := by
  unfold item
  exact .recoverSkipping (.withSpan definition_follows)

theorem trailing_follows : Follows source (trailing : Checked Unit) (trailing : Parser Unit) := by
  unfold trailing
  refine .check ?_
  refine .bind .any fun first => ?_
  refine .bind (.many any_spells .any) fun _ => ?_
  exact .pure _

/-- **No parse of a source file is cut short.** -/
theorem sourceFile_follows :
    Follows source (sourceFile : Checked (List Item)) (sourceFile : Parser (List Item)) := by
  have hprogress : Spells source item fun _ used => used ≠ [] := by
    refine .mono item_spells ?_
    rintro i used h rfl
    obtain ⟨us, hus, hwhole⟩ := h.mem (List.mem_singleton.2 rfl)
    exact hwhole.covers.ne_nil (List.infix_nil.1 hus)
  refine .bind (.many hprogress item_follows) fun items => ?_
  refine .bind (.optional trailing_follows) fun _ => ?_
  refine .bind .finish fun _ => ?_
  exact .pure _

end Grammar

/-! ## Files -/

theorem hasEnd_of_bounded {tokens : List Token} (h : ∀ t ∈ tokens, t.extent.stop < maxOffset) :
    hasEnd tokens = true := by
  unfold hasEnd tokensEnd
  cases hlast : tokens.getLast? with
  | none => decide
  | some t => simpa using h t (List.mem_of_getLast? hlast)

theorem tokenStream_ready {tokens : List Token} (id : UInt16)
    (h : ∀ t ∈ tokens, t.extent.start < maxOffset) : (tokenStream tokens id).Ready id := by
  refine ⟨tokenStream_isIn tokens id, fun t ht => ?_⟩
  obtain ⟨token, htoken, rfl⟩ := List.mem_map.1 ht
  exact h token (List.mem_filter.1 htoken).1

/-- Where an offset comes after each of the tokens, their parse comes to its end. -/
theorem parseTokens?_eq {tokens : List Token} (id : UInt16)
    (h : ∀ t ∈ tokens, t.extent.start < maxOffset ∧ t.extent.stop < maxOffset) :
    parseTokens? tokens id = some (parseTokens tokens id) := by
  have hend : hasEnd tokens = true := hasEnd_of_bounded fun t ht => (h t ht).2
  have hready : (tokenStream tokens id).Ready id := tokenStream_ready id fun t ht => (h t ht).1
  obtain ⟨hfile, -⟩ := Grammar.sourceFile_follows (tokenStream tokens id) hready
  unfold parseTokens? parseTokens
  rw [if_pos hend, hfile]
  rfl

end LunSyntax
