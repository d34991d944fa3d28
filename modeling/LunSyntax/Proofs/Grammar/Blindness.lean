import LunSyntax.Proofs.Grammar.Canonical
import LunSyntax.Proofs.Grammar.Soundness
import LunSyntax.Proofs.Parser.Blindness

/-!
# Layout does not matter

Where tokens stand, what comments are between them and which source they are from shows in the
spans of what is read from them, and nowhere else.

* `SourceFile.erasePlaces`: a file without regard to any place, also those of the parts of strings;
* `expr_alike`, `definition_alike` and the like: the rules of the grammar do not see places;
* `parseTokens_alike`: the same tokens are parsed to the same file, with the same diagnostics.
-/

set_option autoImplicit false

namespace LunSyntax

/-! ## Syntax without places -/

mutual

/-- An expression without places. -/
def Expr.erasePlaces : Expr → Expr
  | ⟨kind, _⟩ => ⟨kind.erasePlaces, noSpan⟩

/-- A form of expression without places. -/
def ExprKind.erasePlaces : ExprKind → ExprKind
  | .bool value => .bool value
  | .literal lit => .literal lit.eraseExtents
  | .null => .null
  | .paren inner => .paren inner.erasePlaces
  | .path path => .path path.eraseSpans
  | .binary lhs op rhs => .binary lhs.erasePlaces op.eraseSpan rhs.erasePlaces
  | .assign lhs rhs => .assign lhs.erasePlaces rhs.erasePlaces
  | .unary op operand => .unary op.eraseSpan operand.erasePlaces
  | .borrow mutSpan operand => .borrow (mutSpan.map fun _ => noSpan) operand.erasePlaces
  | .deref operand => .deref operand.erasePlaces
  | .call callee args => .call callee.erasePlaces args.erasePlaces
  | .field base name => .field base.erasePlaces name.eraseSpan
  | .conditional cond consequent alternative =>
    .conditional cond.erasePlaces consequent.erasePlaces (erasePlacesAlternative alternative)
  | .ret value => .ret (erasePlacesOption value)
  | .brk label value => .brk (label.map Ident.eraseSpan) (erasePlacesOption value)
  | .cont label => .cont (label.map Ident.eraseSpan)
  | .block body => .block body.erasePlaces
  | .whileLoop cond body => .whileLoop cond.erasePlaces body.erasePlaces
  | .forLoop var iterator body =>
    .forLoop var.eraseSpan iterator.erasePlaces body.erasePlaces
  | .loop body => .loop body.erasePlaces
  | .labeled label inner => .labeled label.eraseSpan inner.erasePlaces
  | .error => .error

def Arguments.erasePlaces : Arguments → Arguments
  | ⟨args, _⟩ => ⟨erasePlacesArgs args, noSpan⟩

def erasePlacesArgs : List Expr → List Expr
  | [] => []
  | arg :: rest => arg.erasePlaces :: erasePlacesArgs rest

def erasePlacesAlternative : Option Alternative → Option Alternative
  | none => none
  | some (.chain conditional) => some (.chain conditional.erasePlaces)
  | some (.block body) => some (.block body.erasePlaces)

def Block.erasePlaces : Block → Block
  | ⟨stmts, lastExpr, _⟩ => ⟨erasePlacesStmts stmts, erasePlacesOption lastExpr, noSpan⟩

def erasePlacesStmts : List Stmt → List Stmt
  | [] => []
  | ⟨e, semicolon⟩ :: rest => ⟨e.erasePlaces, semicolon⟩ :: erasePlacesStmts rest

def erasePlacesOption : Option Expr → Option Expr
  | none => none
  | some e => some e.erasePlaces

end

def TypeExpr.erasePlaces : TypeExpr → TypeExpr
  | primitive type => .primitive type.eraseSpan
  | expr e => .expr e.erasePlaces

def GlobalDef.erasePlaces (d : GlobalDef) : GlobalDef :=
  ⟨d.name.eraseSpan, d.type.map TypeExpr.erasePlaces, d.mutable, d.value.erasePlaces, d.semicolon⟩

def Item.erasePlaces (item : Item) : Item := ⟨item.definition.erasePlaces, noSpan⟩

def SourceFile.erasePlaces (file : SourceFile) : SourceFile :=
  ⟨file.items.map Item.erasePlaces, noSpan⟩

theorem erasePlacesArgs_eq_map (args : List Expr) :
    erasePlacesArgs args = args.map Expr.erasePlaces := by
  induction args with
  | nil => rfl
  | cons arg rest ih => rw [erasePlacesArgs, ih, List.map_cons]

theorem erasePlacesOption_eq_map (value : Option Expr) :
    erasePlacesOption value = value.map Expr.erasePlaces := by
  cases value <;> rfl

theorem ExprKind.needsSemicolon_erasePlaces (kind : ExprKind) :
    kind.erasePlaces.needsSemicolon = kind.needsSemicolon := by
  cases kind <;> rfl

/-- Whether a semicolon is needed can be told without places. -/
theorem needsSemicolon_of_erasePlaces {e₁ e₂ : Expr} (h : e₁.erasePlaces = e₂.erasePlaces) :
    e₁.kind.needsSemicolon = e₂.kind.needsSemicolon := by
  obtain ⟨kind₁, span₁⟩ := e₁
  obtain ⟨kind₂, span₂⟩ := e₂
  rw [Expr.erasePlaces, Expr.erasePlaces, Expr.mk.injEq] at h
  rw [← kind₁.needsSemicolon_erasePlaces, h.1, kind₂.needsSemicolon_erasePlaces]

/-! ## Rules -/

namespace Grammar

open LunSyntax.Parser
open LunSyntax.Parser.Alike (just)

attribute [local simp] Expr.erasePlaces ExprKind.erasePlaces Arguments.erasePlaces
  Block.erasePlaces erasePlacesAlternative erasePlacesArgs_eq_map erasePlacesOption_eq_map

section Productions

variable {expr expr' conditional conditional' operand operand' : Parser Expr}
  {block block' : Parser Block}

/-! ### Leaves -/

theorem ident_alike : Alike Ident.eraseSpan ident ident := by
  refine .withSpan (e := id) (.token fun t₁ t₂ ht => ?_) fun x y _ _ hx => ?_
  · rcases TokenKind.eraseExtents_cases ht with ht | ⟨l₁, l₂, h₁, h₂, -⟩
    · rw [ht]
    · rw [h₁, h₂]
  · change x = y at hx
    rw [hx]
    rfl

theorem keyword_alike (word : String) : Alike (fun _ => ()) (keyword word) (keyword word) :=
  just rfl

theorem labelRef_alike : Alike Ident.eraseSpan labelRef labelRef :=
  .bind (just rfl) fun _ _ _ => ident_alike

theorem path_alike : Alike Path.eraseSpans path path := by
  refine .bind (e := fun root => Path.eraseSpans ⟨root, []⟩) (.or ?orb ?ident) fun r₁ r₂ hr => ?_
  case orb => exact .withSpan (keyword_alike _) fun _ _ _ _ _ => rfl
  case ident =>
    refine .map ident_alike fun x y hx => ?_
    simp [Path.eraseSpans, hx]
  refine .bind (.many (.bind (just rfl) fun _ _ _ => ident_alike)) fun s₁ s₂ hs => ?_
  refine .pure ?_
  simp only [Path.eraseSpans, Path.mk.injEq, List.map_nil, and_true] at hr ⊢
  exact ⟨hr, hs⟩

/-! ### Blocks and loops -/

theorem unlabeled_alike (he : Alike Expr.erasePlaces expr expr')
    (hb : Alike Block.erasePlaces block block') :
    Alike Expr.erasePlaces (unlabeled expr block) (unlabeled expr' block') := by
  refine .withSpan (e := ExprKind.erasePlaces) (.choice ⟨?_, ?_, ?_, ?_, trivial⟩)
    fun x y _ _ hx => by simp [hx]
  · exact .map hb fun x y hx => by simp [hx]
  · refine .bind (keyword_alike _) fun _ _ _ => ?_
    refine .bind he fun x y hx => ?_
    refine .bind hb fun b b' hb => ?_
    exact .pure (by simp [hx, hb])
  · refine .bind (keyword_alike _) fun _ _ _ => ?_
    refine .bind ident_alike fun v w hv => ?_
    refine .bind (keyword_alike _) fun _ _ _ => ?_
    refine .bind he fun x y hx => ?_
    refine .bind hb fun b b' hb => ?_
    exact .pure (by simp [hv, hx, hb])
  · refine .bind (keyword_alike _) fun _ _ _ => ?_
    refine .bind hb fun b b' hb => ?_
    exact .pure (by simp [hb])

theorem blockLike_alike (he : Alike Expr.erasePlaces expr expr')
    (hb : Alike Block.erasePlaces block block') :
    Alike Expr.erasePlaces (blockLike expr block) (blockLike expr' block') := by
  have hu := unlabeled_alike he hb
  refine .or (.withSpan (e := ExprKind.erasePlaces) ?_ fun x y _ _ hx => by simp [hx]) hu
  refine .bind ident_alike fun l m hl => ?_
  refine .bind (just rfl) fun _ _ _ => ?_
  refine .bind hu fun x y hx => ?_
  exact .pure (by simp [hl, hx])

/-- What counts of an expression in place of a statement, and of the semicolon after it. -/
def eraseStmt (s : Expr × Bool) : Expr × Bool := (s.1.erasePlaces, s.2)

theorem stmt_alike (he : Alike Expr.erasePlaces expr expr')
    (hb : Alike Block.erasePlaces block block') :
    Alike eraseStmt (stmt expr block) (stmt expr' block') := by
  refine .bind (.or (blockLike_alike he hb) he) fun x y hx => ?_
  refine .bind (.optional (just rfl)) fun s t hs => ?_
  refine .pure ?_
  have hsome : s.isSome = t.isSome := by simpa using congrArg Option.isSome hs
  simp only [eraseStmt, hx, hsome]

/-- Statements are told from the value of a block, and missing semicolons are found, without
places. -/
theorem splitStmts_alike {xs ys : List (Expr × Bool)} (h : xs.map eraseStmt = ys.map eraseStmt) :
    erasePlacesStmts (splitStmts xs).1 = erasePlacesStmts (splitStmts ys).1 ∧
      (splitStmts xs).2.1.map Expr.erasePlaces = (splitStmts ys).2.1.map Expr.erasePlaces ∧
      (splitStmts xs).2.2.map Prod.snd = (splitStmts ys).2.2.map Prod.snd := by
  fun_induction splitStmts xs generalizing ys with
  | case1 =>
    obtain rfl : ys = [] := by simpa using h.symm
    exact ⟨rfl, rfl, rfl⟩
  | case2 e =>
    obtain ⟨⟨e', semicolon⟩, rfl, hy⟩ := List.map_eq_singleton_iff.1 h.symm
    obtain ⟨he, rfl⟩ := Prod.mk.inj hy
    exact ⟨rfl, congrArg some he.symm, rfl⟩
  | case3 e semicolon rest hlast stmts lastExpr messages hrest ih =>
    cases ys with
    | nil => simp at h
    | cons y ys =>
      obtain ⟨e', semicolon'⟩ := y
      obtain ⟨hhead, htail⟩ := List.cons.inj h
      obtain ⟨he, rfl⟩ := Prod.mk.inj hhead
      obtain ⟨hstmts, hvalue, hmessages⟩ := ih htail
      rw [hrest] at hstmts hvalue hmessages
      have hlast' : ys = [] → semicolon = false → False := by
        rintro rfl hsemicolon
        exact hlast (by simpa using htail) hsemicolon
      rw [splitStmts.eq_3 _ _ _ hlast']
      refine ⟨?_, hvalue, ?_⟩
      · rw [erasePlacesStmts, erasePlacesStmts, he, hstmts]
      · dsimp only
        rw [needsSemicolon_of_erasePlaces he]
        split
        · rw [List.map_cons, List.map_cons, hmessages]
          rfl
        · exact hmessages

theorem parens_plain : parens.Plain := ⟨rfl, rfl⟩

theorem braces_plain : braces.Plain := ⟨rfl, rfl⟩

theorem blockOf_alike (he : Alike Expr.erasePlaces expr expr')
    (hb : Alike Block.erasePlaces block block') :
    Alike Block.erasePlaces (blockOf expr block) (blockOf expr' block') := by
  unfold blockOf
  refine .recoverDelimited braces_plain parens_plain ?_ fun _ _ => by
    simp [erasePlacesStmts]
  refine .check (e := List.map eraseStmt) ?_ fun x y _ _ hx => ?_
  · refine .bind (just rfl) fun _ _ _ => ?_
    refine .bind (.many (stmt_alike he hb)) fun xs ys hxs => ?_
    refine .bind (just rfl) fun _ _ _ => ?_
    exact .pure hxs
  · obtain ⟨hstmts, hvalue, hmessages⟩ := splitStmts_alike hx
    exact ⟨by simp [hstmts, hvalue], hmessages⟩

theorem conditionalOf_alike (he : Alike Expr.erasePlaces expr expr')
    (hb : Alike Block.erasePlaces block block')
    (hc : Alike Expr.erasePlaces conditional conditional') :
    Alike Expr.erasePlaces (conditionalOf expr block conditional)
      (conditionalOf expr' block' conditional') := by
  refine .withSpan (e := ExprKind.erasePlaces) ?_ fun x y _ _ hx => by simp [hx]
  refine .bind (keyword_alike _) fun _ _ _ => ?_
  refine .bind he fun x y hx => ?_
  refine .bind hb fun b b' hb' => ?_
  have halternative : Alike (fun a => erasePlacesAlternative (some a))
      ((Alternative.chain <$> conditional).or (Alternative.block <$> block))
      ((Alternative.chain <$> conditional').or (Alternative.block <$> block')) :=
    .or (.map hc fun x y hx => by simp [hx]) (.map hb fun x y hx => by simp [hx])
  refine .bind (.optional (.bind (keyword_alike _) fun _ _ _ => halternative)) fun o o' ho =>
    .pure ?_
  have ho : erasePlacesAlternative o = erasePlacesAlternative o' := by
    cases o <;> cases o'
    · rfl
    · cases ho
    · cases ho
    · exact Option.some.inj ho
  rw [ExprKind.erasePlaces, ExprKind.erasePlaces, hx, hb', ho]

/-! ### Primary expressions -/

theorem simple_alike (he : Alike Expr.erasePlaces expr expr') :
    Alike Expr.erasePlaces (simple expr) (simple expr') := by
  refine .withSpan (e := ExprKind.erasePlaces) (.choice ⟨?_, ?_, ?_, ?_, ?_, ?_, ?_, ?_, trivial⟩)
    fun x y _ _ hx => by simp [hx]
  · refine .token fun t₁ t₂ ht => ?_
    rcases TokenKind.eraseExtents_cases ht with ht | ⟨l₁, l₂, h₁, h₂, hl⟩
    · rw [ht]
    · simp [h₁, h₂, hl]
  · exact .or (.map (keyword_alike _) fun _ _ _ => rfl) (.map (keyword_alike _) fun _ _ _ => rfl)
  · exact .map (keyword_alike _) fun _ _ _ => rfl
  · refine .recoverDelimited parens_plain braces_plain ?_ fun _ _ => rfl
    refine .bind (just rfl) fun _ _ _ => ?_
    refine .bind he fun x y hx => ?_
    refine .bind (just rfl) fun _ _ _ => ?_
    exact .pure (by simp [hx])
  · refine .bind (keyword_alike _) fun _ _ _ => ?_
    refine .bind (.optional he) fun x y hx => ?_
    exact .pure (by simp [hx])
  · refine .bind (keyword_alike _) fun _ _ _ => ?_
    refine .bind (.optional labelRef_alike) fun l m hl => ?_
    refine .bind (.optional he) fun x y hx => ?_
    exact .pure (by simp [hl, hx])
  · refine .bind (keyword_alike _) fun _ _ _ => ?_
    refine .bind (.optional labelRef_alike) fun l m hl => ?_
    exact .pure (by simp [hl])
  · exact .map path_alike fun x y hx => by simp [hx]

theorem primary_alike (he : Alike Expr.erasePlaces expr expr')
    (hb : Alike Block.erasePlaces block block')
    (hc : Alike Expr.erasePlaces conditional conditional') (labels : Bool) :
    Alike Expr.erasePlaces (primary expr block conditional labels)
      (primary expr' block' conditional' labels) := by
  refine .choice ⟨?_, hc, simple_alike he, trivial⟩
  cases labels with
  | true => exact blockLike_alike he hb
  | false => exact unlabeled_alike he hb

/-! ### Operators -/

def Suffix.erasePlaces : Suffix → Suffix
  | call args => .call args.erasePlaces
  | field name => .field name.eraseSpan
  | deref => .deref

def Lead.erasePlaces : Lead → Lead
  | unary op => .unary op
  | borrow mutSpan => .borrow (mutSpan.map fun _ => noSpan)
  | doubleBorrow mutSpan => .doubleBorrow (mutSpan.map fun _ => noSpan)

theorem suffix_alike (he : Alike Expr.erasePlaces expr expr') :
    Alike (fun s => s.1.erasePlaces) (suffix expr) (suffix expr') := by
  have hargs : Alike Arguments.erasePlaces (arguments expr) (arguments expr') := by
    unfold arguments
    refine .recoverDelimited parens_plain braces_plain ?_ fun _ _ => by simp
    refine .withSpan (e := List.map Expr.erasePlaces) ?_ fun x y _ _ hx => by simp [hx]
    refine .bind (just rfl) fun _ _ _ => ?_
    refine .bind (.sepBy (just rfl) he) fun x y hx => ?_
    refine .bind (just rfl) fun _ _ _ => ?_
    exact .pure hx
  refine .withSpan (e := Suffix.erasePlaces) (.choice ⟨?_, ?_, ?_, trivial⟩) fun _ _ _ _ hx => hx
  · exact .map hargs fun x y hx => by simp only [Suffix.erasePlaces, hx]
  · refine .bind (just rfl) fun _ _ _ => ?_
    refine .bind ident_alike fun x y hx => ?_
    exact .pure (by simp only [Suffix.erasePlaces, hx])
  · exact .map (just rfl) fun _ _ _ => rfl

theorem lead_alike : Alike (fun s => s.1.erasePlaces) lead lead := by
  have hmut : Alike (Option.map fun _ => noSpan) mutSpan mutSpan :=
    .optional (.withSpan (keyword_alike _) fun _ _ _ _ _ => rfl)
  refine .withSpan (e := Lead.erasePlaces) (.choice ⟨?_, ?_, ?_, ?_, trivial⟩)
    fun _ _ _ _ hx => hx
  · exact .map (just rfl) fun _ _ _ => rfl
  · exact .map (just rfl) fun _ _ _ => rfl
  · refine .bind (just rfl) fun _ _ _ => ?_
    refine .bind hmut fun x y hx => ?_
    exact .pure (by simp only [Lead.erasePlaces, hx])
  · refine .bind (just rfl) fun _ _ _ => ?_
    refine .bind hmut fun x y hx => ?_
    exact .pure (by simp only [Lead.erasePlaces, hx])

/-- Expressions made by steps which do not see places. -/
theorem foldl_erasePlaces {σ τ : Type} {f : Expr → σ → Expr} {e : σ → τ}
    (hf : ∀ x y s t, x.erasePlaces = y.erasePlaces → e s = e t →
      (f x s).erasePlaces = (f y t).erasePlaces) {x y : Expr} {l m : List σ}
    (hx : x.erasePlaces = y.erasePlaces) (hl : l.map e = m.map e) :
    (l.foldl f x).erasePlaces = (m.foldl f y).erasePlaces := by
  induction l generalizing m x y with
  | nil =>
    obtain rfl : m = [] := by simpa using hl.symm
    exact hx
  | cons s l ih =>
    cases m with
    | nil => simp at hl
    | cons t m =>
      obtain ⟨hs, hl⟩ := List.cons.inj hl
      rw [List.foldl_cons, List.foldl_cons]
      exact ih (hf x y s t hx hs) hl

theorem applySuffix_erasePlaces {x y : Expr} {s t : Suffix × Span}
    (hx : x.erasePlaces = y.erasePlaces) (hs : s.1.erasePlaces = t.1.erasePlaces) :
    (applySuffix x s).erasePlaces = (applySuffix y t).erasePlaces := by
  obtain ⟨s, span⟩ := s
  obtain ⟨t, span'⟩ := t
  cases s <;> cases t <;> simp_all [Suffix.erasePlaces, applySuffix]

theorem applyLead_erasePlaces {x y : Expr} {s t : Lead × Span}
    (hx : x.erasePlaces = y.erasePlaces) (hs : s.1.erasePlaces = t.1.erasePlaces) :
    (applyLead s x).erasePlaces = (applyLead t y).erasePlaces := by
  obtain ⟨s, span⟩ := s
  obtain ⟨t, span'⟩ := t
  cases s <;> cases t <;> simp_all [Lead.erasePlaces, applyLead, Spanned.eraseSpan]

theorem unary_alike (hp : Alike Expr.erasePlaces operand operand')
    (he : Alike Expr.erasePlaces expr expr') :
    Alike Expr.erasePlaces (unary operand expr) (unary operand' expr') := by
  have hpost : Alike Expr.erasePlaces (postfixed operand expr) (postfixed operand' expr') := by
    rw [postfixed_eq, postfixed_eq]
    refine .bind hp fun x y hx => ?_
    refine .bind (.many (suffix_alike he)) fun ss ts hss => ?_
    refine .pure ?_
    exact foldl_erasePlaces (fun _ _ _ _ => applySuffix_erasePlaces) hx hss
  rw [unary_eq, unary_eq]
  refine .bind (.many lead_alike) fun ls ms hls => ?_
  refine .bind hpost fun x y hx => ?_
  refine .pure ?_
  rw [← List.foldl_reverse, ← List.foldl_reverse]
  refine foldl_erasePlaces (fun _ _ _ _ => applyLead_erasePlaces) hx ?_
  rw [List.map_reverse, List.map_reverse, hls]

theorem binOp_alike (op : BinOp) : Alike id (binOp op) (binOp op) := by
  refine .map (just ?_) fun _ _ _ => rfl
  cases op <;> rfl

theorem levels_alike : ∀ op ∈ levels, Alike id op op := by
  simp only [levels, List.forall_mem_cons, List.not_mem_nil, false_imp_iff, implies_true, and_true]
  refine ⟨.choice ⟨?_, ?_, ?_, trivial⟩, .or ?_ ?_, .or ?_ ?_, ?_, ?_, ?_, .or ?_ ?_,
    .choice ⟨?_, ?_, ?_, ?_, trivial⟩, ?_, ?_⟩ <;> exact binOp_alike _

theorem binary_alike {op : Parser BinOp} (hp : Alike Expr.erasePlaces operand operand')
    (hop : Alike id op op) :
    Alike Expr.erasePlaces (binary operand op) (binary operand' op) := by
  have hop : Alike Spanned.eraseSpan (operator op) (operator op) :=
    .withSpan hop fun x y _ _ hx => by
      change x = y at hx
      rw [hx]
      rfl
  rw [binary_eq, binary_eq]
  refine .bind hp fun x y hx => ?_
  refine .bind (.many (e := fun r => (r.1.eraseSpan, r.2.erasePlaces)) ?_)
    fun rs qs hrs => .pure (foldl_erasePlaces ?_ hx hrs)
  · refine .bind hop fun o o' ho => ?_
    refine .bind hp fun x y hx => ?_
    exact .pure (by rw [ho, hx])
  · rintro x y ⟨o, r⟩ ⟨o', r'⟩ hx hr
    obtain ⟨ho, hr⟩ := Prod.mk.inj hr
    simp [applyBinary, hx, ho, hr]

theorem operators_alike (hp : Alike Expr.erasePlaces operand operand')
    (he : Alike Expr.erasePlaces expr expr') :
    Alike Expr.erasePlaces (operators operand expr) (operators operand' expr') := by
  have fold : ∀ (ops : List (Parser BinOp)) (p q : Parser Expr), (∀ op ∈ ops, Alike id op op) →
      Alike Expr.erasePlaces p q →
        Alike Expr.erasePlaces (ops.foldl binary p) (ops.foldl binary q) := by
    intro ops
    induction ops with
    | nil => exact fun p q _ h => h
    | cons op ops ih =>
      intro p q hops h
      rw [List.forall_mem_cons] at hops
      exact ih _ _ hops.2 (binary_alike h hops.1)
  exact fold levels _ _ levels_alike (unary_alike hp he)

theorem assignAll_erasePlaces {x y : Expr} {l m : List Expr} (hx : x.erasePlaces = y.erasePlaces)
    (hl : l.map Expr.erasePlaces = m.map Expr.erasePlaces) :
    (assignAll x l).erasePlaces = (assignAll y m).erasePlaces := by
  induction l generalizing m x y with
  | nil =>
    obtain rfl : m = [] := by simpa using hl.symm
    exact hx
  | cons s l ih =>
    cases m with
    | nil => simp at hl
    | cons t m =>
      obtain ⟨hs, hl⟩ := List.cons.inj hl
      simp [assignAll, assign, hx, ih hs hl]

theorem assignment_alike (hp : Alike Expr.erasePlaces operand operand') :
    Alike Expr.erasePlaces (assignment operand) (assignment operand') := by
  rw [assignment_eq, assignment_eq]
  refine .bind hp fun x y hx => ?_
  refine .bind (.many ?_) fun l m hl => .pure (assignAll_erasePlaces hx hl)
  exact .bind (just rfl) fun _ _ _ => hp

end Productions

/-! ### The knot -/

theorem within_alike (depth : Nat) :
    Alike Expr.erasePlaces (exprWithin depth) (exprWithin depth) ∧
      Alike Block.erasePlaces (blockWithin depth) (blockWithin depth) ∧
      Alike Expr.erasePlaces (conditionalWithin depth) (conditionalWithin depth) := by
  induction depth with
  | zero =>
    rw [exprWithin, blockWithin, conditionalWithin]
    exact ⟨.fail [], .fail [], .fail []⟩
  | succ depth ih =>
    obtain ⟨he, hb, hc⟩ := ih
    have hblock := blockOf_alike he hb
    have hcond := conditionalOf_alike he hblock hc
    rw [exprWithin, blockWithin, conditionalWithin]
    refine ⟨?_, hblock, hcond⟩
    exact assignment_alike (operators_alike (primary_alike he hblock hcond true) he)

theorem expr_alike : Alike Expr.erasePlaces expr expr := by
  intro c₁ c₂ hc
  rw [expr, deferred_apply, deferred_apply, Cursor.left_alike hc]
  exact (within_alike (c₂.left + 1)).1 hc

theorem typeExprWithin_alike (depth : Nat) :
    Alike TypeExpr.erasePlaces (typeExprWithin depth) (typeExprWithin depth) := by
  cases depth with
  | zero =>
    rw [typeExprWithin]
    exact .fail []
  | succ depth =>
    obtain ⟨he, hb, hc⟩ := within_alike depth
    have hblock := blockOf_alike he hb
    have hcond := conditionalOf_alike he hblock hc
    rw [typeExprWithin]
    refine .or (.token fun t₁ t₂ ht => ?_)
      (.map (operators_alike (primary_alike he hblock hcond false) he) fun x y hx => ?_)
    · rcases TokenKind.eraseExtents_cases ht with ht | ⟨l₁, l₂, h₁, h₂, -⟩
      · rw [ht]
        cases t₂.node with
        | keyword word => simp [Function.comp_def, TypeExpr.erasePlaces, Spanned.eraseSpan]
        | _ => rfl
      · rw [h₁, h₂]
    · rw [TypeExpr.erasePlaces, TypeExpr.erasePlaces, hx]

theorem typeExpr_alike : Alike TypeExpr.erasePlaces typeExpr typeExpr := by
  intro c₁ c₂ hc
  rw [typeExpr, deferred_apply, deferred_apply, Cursor.left_alike hc]
  exact typeExprWithin_alike (c₂.left + 1) hc

/-! ### Definitions -/

theorem header_alike :
    Alike (fun h => (h.1.map TypeExpr.erasePlaces, h.2)) header header := by
  refine .choice ⟨.map (just rfl) fun _ _ _ => rfl, ?_, trivial⟩
  refine .bind (just rfl) fun _ _ _ => ?_
  refine .bind (.optional typeExpr_alike) fun t t' ht => ?_
  refine .bind (e := id) (.or ?_ ?_) fun m m' hm => .pure ?_
  · exact .map (just rfl) fun _ _ _ => rfl
  · exact .map (just rfl) fun _ _ _ => rfl
  · rw [ht, show m = m' from hm]

theorem definition_alike : Alike GlobalDef.erasePlaces definition definition := by
  unfold definition
  refine .check (e := GlobalDef.erasePlaces) ?_ fun x y _ _ hx => ⟨hx, ?_⟩
  · refine .bind ident_alike fun n n' hn => ?_
    refine .bind header_alike fun h h' hh => ?_
    refine .bind expr_alike fun x y hx => ?_
    refine .bind (.optional (just rfl)) fun s t hs => ?_
    refine .pure ?_
    have hsome : s.isSome = t.isSome := by simpa using congrArg Option.isSome hs
    obtain ⟨htype, hmutable⟩ := Prod.mk.inj hh
    simp only [GlobalDef.erasePlaces, hn, htype, hmutable, hx, hsome]
  · simp only [GlobalDef.erasePlaces, GlobalDef.mk.injEq] at hx
    obtain ⟨-, -, -, hvalue, hsemicolon⟩ := hx
    rw [needsSemicolon_of_erasePlaces hvalue, hsemicolon]
    split
    · rfl
    · rfl

theorem item_alike : Alike Item.erasePlaces item item := by
  unfold item
  refine .recoverSkipping (.withSpan definition_alike fun x y _ _ hx => ?_)
  rw [Item.erasePlaces, Item.erasePlaces, hx]

theorem trailingMessage_alike {k₁ k₂ : TokenKind} (h : k₁.eraseExtents = k₂.eraseExtents) :
    trailingMessage k₁ = trailingMessage k₂ := by
  rcases TokenKind.eraseExtents_cases h with rfl | ⟨l₁, l₂, rfl, rfl, -⟩
  · rfl
  · rfl

theorem trailing_alike : Alike (fun _ => ()) trailing trailing := by
  unfold trailing
  refine .check (e := TokenKind.eraseExtents) ?_ fun x y _ _ hx => ⟨rfl, ?_⟩
  · refine .bind .any fun x y hx => ?_
    refine .bind (.many .any) fun _ _ _ => ?_
    exact .pure hx
  · simp only [List.map_cons, List.map_nil, trailingMessage_alike hx]

theorem sourceFile_alike : Alike (List.map Item.erasePlaces) sourceFile sourceFile := by
  refine .bind (.many item_alike) fun _ _ hx => ?_
  refine .bind (.optional trailing_alike) fun _ _ _ => ?_
  refine .bind .finish fun _ _ _ => ?_
  exact .pure hx

end Grammar

/-! ## Sources -/

/-- The tokens which count for the grammar, without places: all but the comments. -/
def significantKinds (tokens : List Token) : List TokenKind :=
  (tokens.filter fun t => !t.kind.isComment).map fun t => t.kind.eraseExtents

theorem tokenStream_bareKinds (tokens : List Token) (id : UInt16) :
    (tokenStream tokens id).bareKinds = significantKinds tokens := by
  simp only [tokenStream, Cursor.start, Cursor.bareKinds, significantKinds, List.map_map]
  rfl

/-- The wording of a complaint does not depend on its place. -/
theorem Complaint.reason_erasePlaces (c : Complaint) : c.erasePlaces.reason = c.reason := by
  obtain ⟨left, span, cause, expected, found⟩ := c
  cases found with
  | none => rfl
  | some k =>
    have hlabel := k.label_eraseExtents
    cases cause with
    | custom message => rfl
    | unclosed delimiter => rfl
    | unexpected =>
      simp only [Complaint.reason, Complaint.erasePlaces, Option.map_some, tokenLabel, hlabel]
      rfl

/-- Complaints which are the same but for their places make diagnostics which are so. -/
theorem toDiagnostic_alike {as bs : List Complaint}
    (h : as.map Complaint.erasePlaces = bs.map Complaint.erasePlaces) :
    (as.map Complaint.toDiagnostic).map (·.withSpan none) =
      (bs.map Complaint.toDiagnostic).map (·.withSpan none) := by
  have herase : ∀ l : List Complaint, (l.map Complaint.toDiagnostic).map (·.withSpan none) =
      (l.map Complaint.erasePlaces).map fun c => (c.toDiagnostic).withSpan none := by
    intro l
    rw [List.map_map, List.map_map]
    refine List.map_congr_left fun c _ => ?_
    simp only [Function.comp_apply, Complaint.toDiagnostic, Diagnostic.located,
      Diagnostic.withSpan, c.reason_erasePlaces]
  rw [herase, herase, h]

/-- **Layout does not matter.**  The same tokens, wherever they and the parts of strings stand,
whatever comments are between them and whatever the source is, make the same file but for places.
The diagnostics are the same but for their spans. -/
theorem parseTokens_alike (tokens₁ tokens₂ : List Token) (id₁ id₂ : UInt16)
    (h : significantKinds tokens₁ = significantKinds tokens₂) :
    (parseTokens tokens₁ id₁).1.map SourceFile.erasePlaces =
        (parseTokens tokens₂ id₂).1.map SourceFile.erasePlaces ∧
      (parseTokens tokens₁ id₁).2.map (·.withSpan none) =
        (parseTokens tokens₂ id₂).2.map (·.withSpan none) := by
  have hkinds : (tokenStream tokens₁ id₁).bareKinds = (tokenStream tokens₂ id₂).bareKinds := by
    rw [tokenStream_bareKinds, tokenStream_bareKinds, h]
  have hparse := Grammar.sourceFile_alike hkinds
  unfold parseTokens
  generalize Grammar.sourceFile (P := Parser) (tokenStream tokens₁ id₁) = o₁ at hparse ⊢
  generalize Grammar.sourceFile (P := Parser) (tokenStream tokens₂ id₂) = o₂ at hparse ⊢
  cases hparse with
  | ok hr hx _ _ =>
    refine ⟨?_, toDiagnostic_alike hr⟩
    simp only [Outcome.fileOf, Option.map_some, SourceFile.erasePlaces, hx]
  | fail hr he => exact ⟨rfl, toDiagnostic_alike (append_erasePlaces hr (single_erasePlaces he))⟩

/-- `a :: "b";` without blanks, and with a comment in another source. -/
theorem parseTokens_alike_commented :
    let tight : List Token :=
      [⟨.ident "a", 0, 1⟩, ⟨.digraph .pathSep, 1, 3⟩,
        ⟨.literal (.string ⟨none, [.content "b" ⟨4, 5⟩]⟩), 3, 6⟩, ⟨.control ';', 6, 7⟩]
    let loose : List Token :=
      [⟨.comment "// b", 0, 4⟩, ⟨.ident "a", 5, 6⟩, ⟨.digraph .pathSep, 7, 9⟩,
        ⟨.literal (.string ⟨none, [.content "b" ⟨11, 12⟩]⟩), 10, 13⟩, ⟨.control ';', 13, 14⟩]
    significantKinds tight = significantKinds loose ∧
      (parseTokens tight 0).1.map SourceFile.erasePlaces =
        (parseTokens loose 7).1.map SourceFile.erasePlaces ∧
      (parseTokens tight 0).2.map (·.withSpan none) =
        (parseTokens loose 7).2.map (·.withSpan none) :=
  ⟨by decide, parseTokens_alike _ _ 0 7 (by decide)⟩

end LunSyntax
