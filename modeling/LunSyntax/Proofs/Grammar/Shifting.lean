import LunSyntax.Proofs.Grammar.Blindness
import LunSyntax.Proofs.Parser.Shifting

/-!
# Syntax further on

The rules of the grammar read tokens which stand further on to the same syntax, further on.

* `Item.shift`, and one function of this name for each part of the syntax;
* `expr_shifts`, `definition_shifts` and the like: the rules of the grammar commute with it.
-/

set_option autoImplicit false

namespace LunSyntax

/-! ## Syntax moved on -/

section

variable (k : Nat)

/-- A value with its place, moved on. -/
def Spanned.shift {α : Type} (s : Spanned α) : Spanned α := ⟨s.node, s.span.shift k⟩

def Ident.shift (name : Ident) : Ident := ⟨name.name, name.span.shift k⟩

def PathRoot.shift : PathRoot → PathRoot
  | orb span => .orb (span.shift k)
  | ident name => .ident (name.shift k)

def Path.shift (p : Path) : Path := ⟨p.root.shift k, p.segments.map (Ident.shift k)⟩

mutual

/-- An expression, moved on. -/
def Expr.shift : Expr → Expr
  | ⟨kind, span⟩ => ⟨kind.shift, span.shift k⟩

/-- A form of expression, moved on. -/
def ExprKind.shift : ExprKind → ExprKind
  | .bool value => .bool value
  | .literal lit => .literal (lit.shift k)
  | .null => .null
  | .paren inner => .paren inner.shift
  | .path path => .path (path.shift k)
  | .binary lhs op rhs => .binary lhs.shift (op.shift k) rhs.shift
  | .assign lhs rhs => .assign lhs.shift rhs.shift
  | .unary op operand => .unary (op.shift k) operand.shift
  | .borrow mutSpan operand => .borrow (mutSpan.map (Span.shift k)) operand.shift
  | .deref operand => .deref operand.shift
  | .call callee args => .call callee.shift args.shift
  | .field base name => .field base.shift (name.shift k)
  | .conditional cond consequent alternative =>
    .conditional cond.shift consequent.shift (shiftAlternative alternative)
  | .ret value => .ret (shiftOption value)
  | .brk label value => .brk (label.map (Ident.shift k)) (shiftOption value)
  | .cont label => .cont (label.map (Ident.shift k))
  | .block body => .block body.shift
  | .whileLoop cond body => .whileLoop cond.shift body.shift
  | .forLoop var iterator body => .forLoop (var.shift k) iterator.shift body.shift
  | .loop body => .loop body.shift
  | .labeled label inner => .labeled (label.shift k) inner.shift
  | .error => .error

def Arguments.shift : Arguments → Arguments
  | ⟨args, span⟩ => ⟨shiftArgs args, span.shift k⟩

def shiftArgs : List Expr → List Expr
  | [] => []
  | arg :: rest => arg.shift :: shiftArgs rest

def shiftAlternative : Option Alternative → Option Alternative
  | none => none
  | some (.chain conditional) => some (.chain conditional.shift)
  | some (.block body) => some (.block body.shift)

def Block.shift : Block → Block
  | ⟨stmts, lastExpr, span⟩ => ⟨shiftStmts stmts, shiftOption lastExpr, span.shift k⟩

def shiftStmts : List Stmt → List Stmt
  | [] => []
  | ⟨e, semicolon⟩ :: rest => ⟨e.shift, semicolon⟩ :: shiftStmts rest

def shiftOption : Option Expr → Option Expr
  | none => none
  | some e => some e.shift

end

def TypeExpr.shift : TypeExpr → TypeExpr
  | primitive type => .primitive (type.shift k)
  | expr e => .expr (e.shift k)

def GlobalDef.shift (d : GlobalDef) : GlobalDef :=
  ⟨d.name.shift k, d.type.map (TypeExpr.shift k), d.mutable, d.value.shift k, d.semicolon⟩

def Item.shift (item : Item) : Item := ⟨item.definition.shift k, item.span.shift k⟩

end

variable {k : Nat}

theorem shiftArgs_eq_map (args : List Expr) : shiftArgs k args = args.map (Expr.shift k) := by
  induction args with
  | nil => rfl
  | cons arg rest ih => rw [shiftArgs, ih, List.map_cons]

theorem shiftOption_eq_map (value : Option Expr) :
    shiftOption k value = value.map (Expr.shift k) := by
  cases value <;> rfl

theorem Expr.shift_span (e : Expr) : (e.shift k).span = e.span.shift k := by
  obtain ⟨kind, span⟩ := e
  rw [shift]

theorem Expr.needsSemicolon_shift (e : Expr) :
    (e.shift k).kind.needsSemicolon = e.kind.needsSemicolon := by
  obtain ⟨kind, span⟩ := e
  cases kind <;> rfl

/-! ## Rules -/

namespace Grammar

open LunSyntax.Parser
open LunSyntax.Parser.Shifts (just)

attribute [local simp] Expr.shift ExprKind.shift Arguments.shift Block.shift shiftAlternative
  shiftArgs_eq_map shiftOption_eq_map

section Productions

variable {expr conditional operand : Parser Expr} {block : Parser Block}

/-! ### Leaves -/

theorem ident_shifts : Shifts k (Ident.shift k) ident ident := by
  refine .withSpan (m := id) (.token fun t => ?_) fun name span => rfl
  rw [Option.map_id]
  unfold Lexeme.shift
  cases t.node <;> rfl

theorem keyword_shifts (word : String) : Shifts k id (keyword word) (keyword word) := just rfl

theorem labelRef_shifts : Shifts k (Ident.shift k) labelRef labelRef :=
  .bind (just rfl) fun _ => ident_shifts

theorem path_shifts : Shifts k (Path.shift k) path path := by
  refine .bind (m := PathRoot.shift k) (.or ?orb ?ident) fun root => ?_
  case orb => exact .withSpan (keyword_shifts _) fun _ span => rfl
  case ident => exact .map ident_shifts fun name => rfl
  refine .bind (.many (.bind (just rfl) fun _ => ident_shifts)) fun segments => ?_
  exact .pure _

/-! ### Blocks and loops -/

theorem unlabeled_shifts (he : Shifts k (Expr.shift k) expr expr)
    (hb : Shifts k (Block.shift k) block block) :
    Shifts k (Expr.shift k) (unlabeled expr block) (unlabeled expr block) := by
  refine .withSpan (m := ExprKind.shift k) (.choice ⟨?_, ?_, ?_, ?_, trivial⟩) fun kind span => rfl
  · exact .map hb fun body => by simp
  · refine .bind (keyword_shifts _) fun _ => ?_
    refine .bind he fun cond => ?_
    refine .bind hb fun body => ?_
    exact .pure _
  · refine .bind (keyword_shifts _) fun _ => ?_
    refine .bind ident_shifts fun var => ?_
    refine .bind (keyword_shifts _) fun _ => ?_
    refine .bind he fun iterator => ?_
    refine .bind hb fun body => ?_
    exact .pure _
  · refine .bind (keyword_shifts _) fun _ => ?_
    refine .bind hb fun body => ?_
    exact .pure _

theorem blockLike_shifts (he : Shifts k (Expr.shift k) expr expr)
    (hb : Shifts k (Block.shift k) block block) :
    Shifts k (Expr.shift k) (blockLike expr block) (blockLike expr block) := by
  have hu := unlabeled_shifts he hb
  refine .or (.withSpan (m := ExprKind.shift k) ?_ fun kind span => rfl) hu
  refine .bind ident_shifts fun label => ?_
  refine .bind (just rfl) fun _ => ?_
  refine .bind hu fun inner => ?_
  exact .pure _

/-- An expression in place of a statement and whether a semicolon follows, moved on. -/
def shiftStmt (k : Nat) (s : Expr × Bool) : Expr × Bool := (s.1.shift k, s.2)

theorem stmt_shifts (he : Shifts k (Expr.shift k) expr expr)
    (hb : Shifts k (Block.shift k) block block) :
    Shifts k (shiftStmt k) (stmt expr block) (stmt expr block) := by
  refine .bind (.or (blockLike_shifts he hb) he) fun e => ?_
  refine .bind (.optional (just rfl)) fun semicolon => ?_
  rw [Option.map_id]
  exact .pure _

/-- Messages, moved on. -/
def shiftMessages (k : Nat) : List (Span × String) → List (Span × String) :=
  List.map fun message => (message.1.shift k, message.2)

theorem missingSemicolon_shift (e : Expr) :
    missingSemicolon (e.shift k) = ((missingSemicolon e).1.shift k, (missingSemicolon e).2) := by
  unfold missingSemicolon
  rw [e.shift_span]
  rfl

theorem splitStmts_shift (xs : List (Expr × Bool)) :
    splitStmts (xs.map (shiftStmt k)) = (shiftStmts k (splitStmts xs).1,
      (splitStmts xs).2.1.map (Expr.shift k), shiftMessages k (splitStmts xs).2.2) := by
  fun_induction splitStmts xs with
  | case1 => rfl
  | case2 e => rfl
  | case3 e semicolon rest hlast stmts lastExpr messages hrest ih =>
    have hlast' : rest.map (shiftStmt k) = [] → semicolon = false → False :=
      fun hnil => hlast (List.map_eq_nil_iff.1 hnil)
    rw [hrest] at ih
    rw [List.map_cons, shiftStmt, splitStmts.eq_3 _ _ _ hlast', ih]
    dsimp only
    rw [e.needsSemicolon_shift, shiftStmts, missingSemicolon_shift]
    split
    · rfl
    · rfl

theorem blockOf_shifts (he : Shifts k (Expr.shift k) expr expr)
    (hb : Shifts k (Block.shift k) block block) :
    Shifts k (Block.shift k) (blockOf expr block) (blockOf expr block) := by
  unfold blockOf
  refine .recoverDelimited braces_plain parens_plain (.check (m := List.map (shiftStmt k)) ?_ ?_) ?_
  · refine .bind (just rfl) fun _ => ?_
    refine .bind (.many (stmt_shifts he hb)) fun stmts => ?_
    refine .bind (just rfl) fun _ => ?_
    exact .pure _
  · intro stmts span
    rw [splitStmts_shift]
    simp only [Block.shift, shiftOption_eq_map]
    rfl
  · intro span
    simp only [Block.shift, shiftStmts, shiftOption, Expr.shift, ExprKind.shift, span.inner_shift]

theorem conditionalOf_shifts (he : Shifts k (Expr.shift k) expr expr)
    (hb : Shifts k (Block.shift k) block block)
    (hc : Shifts k (Expr.shift k) conditional conditional) :
    Shifts k (Expr.shift k) (conditionalOf expr block conditional)
      (conditionalOf expr block conditional) := by
  have halternative : Shifts k (fun a => (shiftAlternative k (some a)).getD a)
      ((Alternative.chain <$> conditional).or (Alternative.block <$> block))
      ((Alternative.chain <$> conditional).or (Alternative.block <$> block)) :=
    .or (.map hc fun e => by simp) (.map hb fun b => by simp)
  refine .withSpan (m := ExprKind.shift k) ?_ fun kind span => rfl
  refine .bind (keyword_shifts _) fun _ => ?_
  refine .bind he fun cond => ?_
  refine .bind hb fun consequent => ?_
  refine .bind (.optional (.bind (keyword_shifts _) fun _ => halternative)) fun alternative => ?_
  have hmap : alternative.map (fun a => (shiftAlternative k (some a)).getD a) =
      shiftAlternative k alternative := by
    rcases alternative with _ | (_ | _) <;> rfl
  rw [hmap]
  exact .pure _

/-! ### Primary expressions -/

theorem simple_shifts (he : Shifts k (Expr.shift k) expr expr) :
    Shifts k (Expr.shift k) (simple expr) (simple expr) := by
  refine .withSpan (m := ExprKind.shift k) (.choice ⟨?_, ?_, ?_, ?_, ?_, ?_, ?_, ?_, trivial⟩)
    fun kind span => rfl
  · refine .token fun t => ?_
    unfold Lexeme.shift
    cases t.node <;> rfl
  · exact .or (.map (keyword_shifts _) fun _ => rfl) (.map (keyword_shifts _) fun _ => rfl)
  · exact .map (keyword_shifts _) fun _ => rfl
  · refine .recoverDelimited parens_plain braces_plain ?_ fun _ => rfl
    refine .bind (just rfl) fun _ => ?_
    refine .bind he fun inner => ?_
    refine .bind (just rfl) fun _ => ?_
    exact .pure _
  · refine .bind (keyword_shifts _) fun _ => ?_
    refine .bind (.optional he) fun value => ?_
    rw [← shiftOption_eq_map]
    exact .pure _
  · refine .bind (keyword_shifts _) fun _ => ?_
    refine .bind (.optional labelRef_shifts) fun label => ?_
    refine .bind (.optional he) fun value => ?_
    rw [← shiftOption_eq_map]
    exact .pure _
  · refine .bind (keyword_shifts _) fun _ => ?_
    refine .bind (.optional labelRef_shifts) fun label => ?_
    exact .pure _
  · exact .map path_shifts fun path => rfl

theorem primary_shifts (he : Shifts k (Expr.shift k) expr expr)
    (hb : Shifts k (Block.shift k) block block)
    (hc : Shifts k (Expr.shift k) conditional conditional) (labels : Bool) :
    Shifts k (Expr.shift k) (primary expr block conditional labels)
      (primary expr block conditional labels) := by
  refine .choice ⟨?_, hc, simple_shifts he, trivial⟩
  cases labels with
  | true => exact blockLike_shifts he hb
  | false => exact unlabeled_shifts he hb

/-! ### Operators -/

def Suffix.shift (k : Nat) : Suffix → Suffix
  | call args => .call (args.shift k)
  | field name => .field (name.shift k)
  | deref => .deref

def Lead.shift (k : Nat) : Lead → Lead
  | unary op => .unary op
  | borrow mutSpan => .borrow (mutSpan.map (Span.shift k))
  | doubleBorrow mutSpan => .doubleBorrow (mutSpan.map (Span.shift k))

theorem suffix_shifts (he : Shifts k (Expr.shift k) expr expr) :
    Shifts k (fun s => (s.1.shift k, s.2.shift k)) (suffix expr) (suffix expr) := by
  have hargs : Shifts k (Arguments.shift k) (arguments expr) (arguments expr) := by
    unfold arguments
    refine .recoverDelimited parens_plain braces_plain
      (.withSpan (m := List.map (Expr.shift k)) ?_ fun args span => by simp) fun span => ?_
    · refine .bind (just rfl) fun _ => ?_
      refine .bind (.sepBy (just rfl) he) fun args => ?_
      refine .bind (just rfl) fun _ => ?_
      exact .pure _
    · simp [span.inner_shift]
  refine .withSpan (m := Suffix.shift k) (.choice ⟨?_, ?_, ?_, trivial⟩) fun suffix span => rfl
  · exact .map hargs fun args => rfl
  · refine .bind (just rfl) fun _ => ?_
    refine .bind ident_shifts fun name => ?_
    exact .pure _
  · exact .map (just rfl) fun _ => rfl

theorem lead_shifts : Shifts k (fun l => (l.1.shift k, l.2.shift k)) lead lead := by
  have hmut : Shifts k (Option.map (Span.shift k)) mutSpan mutSpan :=
    .optional (.withSpan (keyword_shifts _) fun _ span => rfl)
  refine .withSpan (m := Lead.shift k) (.choice ⟨?_, ?_, ?_, ?_, trivial⟩) fun lead span => rfl
  · exact .map (just rfl) fun _ => rfl
  · exact .map (just rfl) fun _ => rfl
  · refine .bind (just rfl) fun _ => ?_
    refine .bind hmut fun span => ?_
    exact .pure _
  · refine .bind (just rfl) fun _ => ?_
    refine .bind hmut fun span => ?_
    exact .pure _

theorem applySuffix_shift (e : Expr) (s : Suffix × Span) :
    applySuffix (e.shift k) (s.1.shift k, s.2.shift k) = (applySuffix e s).shift k := by
  obtain ⟨s, span⟩ := s
  simp only [applySuffix, e.shift_span, Span.cover_shift, Expr.shift]
  cases s <;> simp [Suffix.shift]

theorem applyLead_shift (l : Lead × Span) (e : Expr) :
    applyLead (l.1.shift k, l.2.shift k) (e.shift k) = (applyLead l e).shift k := by
  obtain ⟨l, span⟩ := l
  simp only [applyLead, e.shift_span, Span.cover_shift]
  cases l with
  | unary op => simp [Lead.shift, Spanned.shift]
  | borrow mutSpan => simp [Lead.shift]
  | doubleBorrow mutSpan => simp [Lead.shift, Span.shift, Nat.add_right_comm]

theorem unary_shifts (hp : Shifts k (Expr.shift k) operand operand)
    (he : Shifts k (Expr.shift k) expr expr) :
    Shifts k (Expr.shift k) (unary operand expr) (unary operand expr) := by
  have hpost : Shifts k (Expr.shift k) (postfixed operand expr) (postfixed operand expr) := by
    rw [postfixed_eq]
    refine .bind hp fun e => ?_
    refine .bind (.many (suffix_shifts he)) fun suffixes => ?_
    rw [List.foldl_map, List.foldl_hom (Expr.shift k) applySuffix_shift]
    exact .pure _
  rw [unary_eq]
  refine .bind (.many lead_shifts) fun leads => ?_
  refine .bind hpost fun e => ?_
  rw [List.foldr_map, List.foldr_hom (Expr.shift k) applyLead_shift]
  exact .pure _

theorem binOp_shifts (op : BinOp) : Shifts k id (binOp op) (binOp op) := by
  refine .map (just ?_) fun _ => rfl
  cases op <;> rfl

theorem levels_shift : ∀ op ∈ levels, Shifts k id op op := by
  simp only [levels, List.forall_mem_cons, List.not_mem_nil, false_imp_iff, implies_true, and_true]
  refine ⟨.choice ⟨?_, ?_, ?_, trivial⟩, .or ?_ ?_, .or ?_ ?_, ?_, ?_, ?_, .or ?_ ?_,
    .choice ⟨?_, ?_, ?_, ?_, trivial⟩, ?_, ?_⟩ <;> exact binOp_shifts _

theorem applyBinary_shift (e : Expr) (r : Spanned BinOp × Expr) :
    applyBinary (e.shift k) (r.1.shift k, r.2.shift k) = (applyBinary e r).shift k := by
  obtain ⟨op, rhs⟩ := r
  simp [applyBinary, e.shift_span, rhs.shift_span, Span.cover_shift]

theorem binary_shifts {op : Parser BinOp} (hp : Shifts k (Expr.shift k) operand operand)
    (hop : Shifts k id op op) :
    Shifts k (Expr.shift k) (binary operand op) (binary operand op) := by
  have hop : Shifts k (Spanned.shift k) (operator op) (operator op) :=
    .withSpan hop fun op span => rfl
  rw [binary_eq]
  refine .bind hp fun first => ?_
  refine .bind (.many (m := fun r => (r.1.shift k, r.2.shift k)) ?_) fun rest => ?_
  · refine .bind hop fun op => ?_
    refine .bind hp fun rhs => ?_
    exact .pure _
  · rw [List.foldl_map, List.foldl_hom (Expr.shift k) applyBinary_shift]
    exact .pure _

theorem operators_shift (hp : Shifts k (Expr.shift k) operand operand)
    (he : Shifts k (Expr.shift k) expr expr) :
    Shifts k (Expr.shift k) (operators operand expr) (operators operand expr) := by
  have fold : ∀ (ops : List (Parser BinOp)) (p : Parser Expr), (∀ op ∈ ops, Shifts k id op op) →
      Shifts k (Expr.shift k) p p →
        Shifts k (Expr.shift k) (ops.foldl binary p) (ops.foldl binary p) := by
    intro ops
    induction ops with
    | nil => exact fun p _ h => h
    | cons op ops ih =>
      intro p hops h
      rw [List.forall_mem_cons] at hops
      exact ih _ hops.2 (binary_shifts h hops.1)
  exact fold levels _ levels_shift (unary_shifts hp he)

theorem assignAll_shift (first : Expr) (rest : List Expr) :
    assignAll (first.shift k) (rest.map (Expr.shift k)) = (assignAll first rest).shift k := by
  induction rest generalizing first with
  | nil => rfl
  | cons next rest ih =>
    rw [List.map_cons, assignAll, ih, assignAll, assign, assign, Expr.shift_span, Expr.shift_span,
      Span.cover_shift]
    simp

theorem assignment_shifts (hp : Shifts k (Expr.shift k) operand operand) :
    Shifts k (Expr.shift k) (assignment operand) (assignment operand) := by
  rw [assignment_eq]
  refine .bind hp fun first => ?_
  refine .bind (.many (.bind (just rfl) fun _ => hp)) fun rest => ?_
  rw [assignAll_shift]
  exact .pure _

end Productions

/-! ### The knot -/

theorem within_shift (depth : Nat) :
    Shifts k (Expr.shift k) (exprWithin depth) (exprWithin depth) ∧
      Shifts k (Block.shift k) (blockWithin depth) (blockWithin depth) ∧
      Shifts k (Expr.shift k) (conditionalWithin depth) (conditionalWithin depth) := by
  induction depth with
  | zero =>
    rw [exprWithin, blockWithin, conditionalWithin]
    exact ⟨.fail [], .fail [], .fail []⟩
  | succ depth ih =>
    obtain ⟨he, hb, hc⟩ := ih
    have hblock := blockOf_shifts he hb
    have hcond := conditionalOf_shifts he hblock hc
    rw [exprWithin, blockWithin, conditionalWithin]
    refine ⟨?_, hblock, hcond⟩
    exact assignment_shifts (operators_shift (primary_shifts he hblock hcond true) he)

theorem expr_shifts : Shifts k (Expr.shift k) expr expr := by
  intro c
  rw [expr, deferred_apply, deferred_apply]
  exact (within_shift (c.left + 1)).1 c

theorem typeExprWithin_shifts (depth : Nat) :
    Shifts k (TypeExpr.shift k) (typeExprWithin depth) (typeExprWithin depth) := by
  cases depth with
  | zero =>
    rw [typeExprWithin]
    exact .fail []
  | succ depth =>
    obtain ⟨he, hb, hc⟩ := within_shift (k := k) depth
    have hblock := blockOf_shifts he hb
    have hcond := conditionalOf_shifts he hblock hc
    rw [typeExprWithin]
    refine .or (.token fun t => ?_)
      (.map (operators_shift (primary_shifts he hblock hcond false) he) fun e => rfl)
    unfold Lexeme.shift
    cases t.node with
    | keyword word => simp [TokenKind.shift, Function.comp_def, TypeExpr.shift, Spanned.shift]
    | _ => rfl

theorem typeExpr_shifts : Shifts k (TypeExpr.shift k) typeExpr typeExpr := by
  intro c
  rw [typeExpr, deferred_apply, deferred_apply]
  exact typeExprWithin_shifts (c.left + 1) c

/-! ### Definitions -/

theorem header_shifts :
    Shifts k (fun h => (h.1.map (TypeExpr.shift k), h.2)) header header := by
  refine .choice ⟨.map (just rfl) fun _ => rfl, ?_, trivial⟩
  refine .bind (just rfl) fun _ => ?_
  refine .bind (.optional typeExpr_shifts) fun type => ?_
  refine .bind (m := id) (.or ?_ ?_) fun mutable => .pure _
  · exact .map (just rfl) fun _ => rfl
  · exact .map (just rfl) fun _ => rfl

/-- **Definitions further on are the definitions, further on.** -/
theorem definition_shifts : Shifts k (GlobalDef.shift k) definition definition := by
  unfold definition
  refine .check (m := GlobalDef.shift k) ?_ fun d span => ?_
  · refine .bind ident_shifts fun name => ?_
    refine .bind header_shifts fun header => ?_
    refine .bind expr_shifts fun value => ?_
    refine .bind (.optional (just rfl)) fun semicolon => ?_
    rw [Option.map_id]
    exact .pure _
  · change (_, if (!d.semicolon && (d.value.shift k).kind.needsSemicolon) = true then
      [missingSemicolon (d.value.shift k)] else []) = _
    rw [d.value.needsSemicolon_shift, missingSemicolon_shift]
    split
    · rfl
    · rfl

end Grammar

end LunSyntax
