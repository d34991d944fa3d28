import LunSyntax.Proofs.Grammar.Provenance
import LunSyntax.Proofs.Parser.Wording

/-!
# How the grammar is built

The grammar is walked through once, as to what it puts together and how.  What is kept by each way
to combine parsers then holds of the parser of source files, by induction on `Built`.

* `Built strict p`: a parser is built of others, and all texts in it are printable, or are about
  the token which comes next; it goes on after a failure at its end only if it is not `strict`;
* one lemma for each rule of the grammar, and the knot by induction on the depth;
* `sourceFile_built`: the parser of source files is strict.
-/

set_option autoImplicit false

namespace LunSyntax

namespace Grammar

open LunSyntax.Combinators
open LunSyntax.Parser (Delimiters)

/-- What is printable is so wherever it is called. -/
def PrintableLabel (kind : Option TokenKind) : Prop :=
  (tokenLabel kind).toList.all isPrintable = true

instance (kind : Option TokenKind) : Decidable (PrintableLabel kind) :=
  inferInstanceAs (Decidable (_ = true))

/-- A message is printable, or the one about the next token. -/
def PrintableMessage (c : Cursor) (message : String) : Prop :=
  message.toList.all isPrintable = true ∨
    ∃ t after, c.next? = some (t, after) ∧ message = trailingMessage t.node

/-- A parser is built of others.  Those which recover by delimiters are not strict, and only
strict ones are repeated. -/
inductive Built : Bool → {α : Type} → Parser α → Prop
  | pure {strict : Bool} {α : Type} (a : α) : Built strict (Pure.pure a : Parser α)
  | fail {strict : Bool} {α : Type} : Built strict (fail [] : Parser α)
  | token {strict : Bool} {α : Type} {f : Lexeme → Option α} {expected : List (Option TokenKind)} :
    (∀ kind ∈ expected, PrintableLabel kind) → Built strict (token f expected : Parser α)
  | finish {strict : Bool} : Built strict (finish : Parser Unit)
  | bind {strict : Bool} {α β : Type} {p : Parser α} {f : α → Parser β} :
    Built strict p → (∀ a, Built strict (f a)) → Built strict (p >>= f)
  | withSpan {strict : Bool} {α β : Type} {f : α → Span → β} {p : Parser α} :
    Built strict p → Built strict (withSpan f p : Parser β)
  | check {strict : Bool} {α β : Type} {f : α → Span → β × List (Span × String)} {p : Parser α} :
    Built strict p →
    (∀ c reported a after alt, p c = ⟨reported, .ok a after alt⟩ →
      ∀ span, ∀ m ∈ (f a span).2, PrintableMessage c m.2) →
    Built strict (check f p : Parser β)
  | either {strict : Bool} {α : Type} {p q : Parser α} :
    Built strict p → Built strict q → Built strict (either p q)
  | choice {strict : Bool} {α : Type} {ps : List (Parser α)} :
    (∀ p ∈ ps, Built false p) → Built strict (choice ps)
  | optional {strict : Bool} {α : Type} {p : Parser α} :
    Built false p → Built strict (optional p)
  | many {strict : Bool} {α : Type} {p : Parser α} : Built true p → Built strict (many p)
  | sepBy {strict : Bool} {α : Type} {p : Parser α} {sep : Parser Unit} :
    Built true p → Built true sep → Built strict (sepBy p sep)
  | recoverDelimited {α : Type} {pair other : Delimiters} {fallback : Span → α} {p : Parser α} :
    pair.Printable → Built true p → Built false (recoverDelimited pair other fallback p)
  | recoverSkipping {strict : Bool} {α : Type} {p : Parser α} :
    Built true p → Built strict (recoverSkipping p)
  | deferred {strict : Bool} {α : Type} {f : Nat → Parser α} :
    (∀ left, Built strict (f left)) → Built strict (deferred f)
  | weaken {strict : Bool} {α : Type} {p : Parser α} : Built true p → Built strict p

namespace Built

variable {α β : Type} {strict : Bool} {p : Parser α}

theorem map {f : α → β} (hp : Built strict p) : Built strict (f <$> p) :=
  bind hp fun _ => pure _

theorem just {kind : TokenKind} (h : PrintableLabel (some kind)) :
    Built strict (just kind : Parser Unit) := by
  refine token fun _ hkind => ?_
  rw [List.mem_singleton.1 hkind]
  exact h

end Built

variable {strict : Bool} {expr conditional operand : Parser Expr} {block : Parser Block}

/-! ## Tokens -/

theorem ident_built : Built strict (ident : Parser Ident) := by
  refine .withSpan (.token fun _ hkind => ?_)
  rw [List.mem_singleton.1 hkind]
  decide

theorem parens_printable : parens.Printable := ⟨by decide, by decide⟩

theorem braces_printable : braces.Printable := ⟨by decide, by decide⟩

/-! ## Statements and blocks -/

theorem unlabeled_built (he : Built true expr) (hb : Built false block) :
    Built strict (unlabeled expr block) := by
  refine .withSpan (.choice ?_)
  simp only [List.forall_mem_cons, List.not_mem_nil, false_imp_iff, implies_true, and_true]
  refine ⟨.map hb, ?whileLoop, ?forLoop, ?loop⟩
  case whileLoop =>
    refine .bind (.just (by decide)) fun _ => ?_
    refine .bind he.weaken fun cond => ?_
    refine .bind hb fun body => ?_
    exact .pure _
  case forLoop =>
    refine .bind (.just (by decide)) fun _ => ?_
    refine .bind ident_built fun var => ?_
    refine .bind (.just (by decide)) fun _ => ?_
    refine .bind he.weaken fun iterator => ?_
    refine .bind hb fun body => ?_
    exact .pure _
  case loop =>
    refine .bind (.just (by decide)) fun _ => ?_
    refine .bind hb fun body => ?_
    exact .pure _

theorem blockLike_built (he : Built true expr) (hb : Built false block) :
    Built strict (blockLike expr block) := by
  have hinner : Built strict (unlabeled expr block) := unlabeled_built he hb
  refine .either (.withSpan ?_) hinner
  refine .bind ident_built fun label => ?_
  refine .bind (.just (by decide)) fun _ => ?_
  refine .bind hinner fun inner => ?_
  exact .pure _

theorem stmt_built (he : Built true expr) (hb : Built false block) :
    Built strict (stmt expr block) := by
  refine .bind (.either (blockLike_built he hb) he.weaken) fun e => ?_
  refine .bind (.optional (.just (by decide))) fun semicolon => ?_
  exact .pure _

theorem missingSemicolon_printable (e : Expr) :
    (missingSemicolon e).2.toList.all isPrintable = true := by
  dsimp only [missingSemicolon]
  decide

theorem blockOf_built (he : Built true expr) (hb : Built false block) :
    Built false (blockOf expr block) := by
  refine .recoverDelimited braces_printable (.check ?_ ?_)
  · refine .bind (.just (by decide)) fun _ => ?_
    refine .bind (.many (stmt_built he hb)) fun stmts => ?_
    refine .bind (.just (by decide)) fun _ => ?_
    exact .pure _
  · intro c reported stmts after alt _ span m hm
    obtain ⟨s, -, rfl⟩ := splitStmts_messages hm
    exact .inl (missingSemicolon_printable s.1)

/-! ## Primary expressions -/

theorem conditionalOf_built (he : Built true expr) (hb : Built false block)
    (hc : Built false conditional) : Built false (conditionalOf expr block conditional) := by
  refine .withSpan ?_
  refine .bind (.just (by decide)) fun _ => ?_
  refine .bind he.weaken fun cond => ?_
  refine .bind hb fun consequent => ?_
  refine .bind (.optional ?_) fun alternative => ?_
  · refine .bind (.just (by decide)) fun _ => ?_
    exact .either (.map hc) (.map hb)
  · exact .pure _

theorem labelRef_built : Built strict (labelRef : Parser Ident) := by
  refine .bind (.just (by decide)) fun _ => ?_
  exact ident_built

theorem path_built : Built strict (path : Parser Path) := by
  refine .bind (.either ?orb ?ident) fun root => ?_
  case orb => exact .withSpan (.just (by decide))
  case ident => exact .map ident_built
  refine .bind (.many (.bind (.just (by decide)) fun _ => ident_built)) fun segments => ?_
  exact .pure _

theorem simple_built (he : Built true expr) : Built strict (simple expr) := by
  refine .withSpan (.choice ?_)
  simp only [List.forall_mem_cons, List.not_mem_nil, false_imp_iff, implies_true, and_true]
  refine ⟨.token (by simp), ?bool, .map (.just (by decide)), ?paren, ?ret, ?brk, ?cont,
    .map path_built⟩
  case bool => exact .either (.map (.just (by decide))) (.map (.just (by decide)))
  case paren =>
    refine .recoverDelimited parens_printable ?_
    refine .bind (.just (by decide)) fun _ => ?_
    refine .bind he fun inner => ?_
    refine .bind (.just (by decide)) fun _ => ?_
    exact .pure _
  case ret =>
    refine .bind (.just (by decide)) fun _ => ?_
    refine .bind (.optional he.weaken) fun value => ?_
    exact .pure _
  case brk =>
    refine .bind (.just (by decide)) fun _ => ?_
    refine .bind (.optional labelRef_built) fun label => ?_
    refine .bind (.optional he.weaken) fun value => ?_
    exact .pure _
  case cont =>
    refine .bind (.just (by decide)) fun _ => ?_
    refine .bind (.optional labelRef_built) fun label => ?_
    exact .pure _

theorem primary_built (he : Built true expr) (hb : Built false block)
    (hc : Built false conditional) (labels : Bool) :
    Built strict (primary expr block conditional labels) := by
  refine .choice ?_
  simp only [List.forall_mem_cons, List.not_mem_nil, false_imp_iff, implies_true, and_true]
  refine ⟨?_, hc, simple_built he⟩
  cases labels with
  | true => exact blockLike_built he hb
  | false => exact unlabeled_built he hb

/-! ## Operators -/

theorem arguments_built (he : Built true expr) : Built false (arguments expr) := by
  refine .recoverDelimited parens_printable (.withSpan ?_)
  refine .bind (.just (by decide)) fun _ => ?_
  refine .bind (.sepBy he (.just (by decide))) fun args => ?_
  refine .bind (.just (by decide)) fun _ => ?_
  exact .pure _

theorem suffix_built (he : Built true expr) : Built strict (suffix expr) := by
  refine .withSpan (.choice ?_)
  simp only [List.forall_mem_cons, List.not_mem_nil, false_imp_iff, implies_true, and_true]
  refine ⟨.map (arguments_built he), ?field, .map (.just (by decide))⟩
  case field =>
    refine .bind (.just (by decide)) fun _ => ?_
    refine .bind ident_built fun name => ?_
    exact .pure _

theorem postfixed_built (hp : Built true operand) (he : Built true expr) :
    Built true (postfixed operand expr) := by
  rw [postfixed_eq]
  refine .bind hp fun e => ?_
  refine .bind (.many (suffix_built he)) fun suffixes => ?_
  exact .pure _

theorem mutSpan_built : Built strict (mutSpan : Parser (Option Span)) :=
  .optional (.withSpan (.just (by decide)))

theorem lead_built : Built strict (lead : Parser (Lead × Span)) := by
  refine .withSpan (.choice ?_)
  simp only [List.forall_mem_cons, List.not_mem_nil, false_imp_iff, implies_true, and_true]
  refine ⟨.map (.just (by decide)), .map (.just (by decide)), ?borrow, ?doubleBorrow⟩
  case borrow =>
    refine .bind (.just (by decide)) fun _ => ?_
    refine .bind mutSpan_built fun mutSpan => ?_
    exact .pure _
  case doubleBorrow =>
    refine .bind (.just (by decide)) fun _ => ?_
    refine .bind mutSpan_built fun mutSpan => ?_
    exact .pure _

theorem unary_built (hp : Built true operand) (he : Built true expr) :
    Built true (unary operand expr) := by
  rw [unary_eq]
  refine .bind (.many lead_built) fun leads => ?_
  refine .bind (postfixed_built hp he) fun e => ?_
  exact .pure _

theorem binOp_built (op : BinOp) : Built strict (binOp op : Parser BinOp) := by
  refine .map (.just ?_)
  cases op <;> decide

theorem levels_built : ∀ op ∈ levels, Built true (op : Parser BinOp) := by
  have pick : ∀ ops : List BinOp, Built true (choice (ops.map binOp) : Parser BinOp) := by
    intro ops
    refine .choice fun p hp => ?_
    obtain ⟨op, -, rfl⟩ := List.mem_map.1 hp
    exact binOp_built op
  have two : ∀ a b : BinOp, Built true (either (binOp a) (binOp b) : Parser BinOp) :=
    fun a b => .either (binOp_built a) (binOp_built b)
  unfold levels
  simp only [List.forall_mem_cons, List.not_mem_nil, false_imp_iff, implies_true, and_true]
  exact ⟨pick [.mul, .div, .mod], two .add .sub, two .shl .shr, binOp_built .bitAnd,
    binOp_built .bitXor, binOp_built .bitOr, two .eq .ne, pick [.gt, .gte, .lt, .lte],
    binOp_built .and, binOp_built .or⟩

theorem binary_built {op : Parser BinOp} (hp : Built true operand) (hop : Built true op) :
    Built true (binary operand op) := by
  rw [binary_eq]
  refine .bind hp fun first => ?_
  refine .bind (.many ?_) fun rest => ?_
  · refine .bind (.withSpan hop) fun op => ?_
    refine .bind hp fun rhs => ?_
    exact .pure _
  · exact .pure _

theorem foldl_binary_built {ops : List (Parser BinOp)} (hops : ∀ op ∈ ops, Built true op)
    (hp : Built true operand) : Built true (ops.foldl binary operand) := by
  induction ops generalizing operand with
  | nil => exact hp
  | cons op ops ih =>
    obtain ⟨hop, hops⟩ := List.forall_mem_cons.1 hops
    exact ih hops (binary_built hp hop)

theorem operators_built (hp : Built true operand) (he : Built true expr) :
    Built true (operators operand expr) :=
  foldl_binary_built levels_built (unary_built hp he)

theorem assignment_built (hp : Built true operand) : Built true (assignment operand) := by
  rw [assignment_eq]
  refine .bind hp fun first => ?_
  refine .bind (.many (.bind (.just (by decide)) fun _ => hp)) fun rest => ?_
  exact .pure _

/-! ## The knot -/

theorem exprOf_built (he : Built true expr) (hb : Built false block)
    (hc : Built false conditional) (labels : Bool) :
    Built true (operators (primary expr (blockOf expr block)
      (conditionalOf expr (blockOf expr block) conditional) labels) expr) := by
  have hblock : Built false (blockOf expr block) := blockOf_built he hb
  have hcond : Built false (conditionalOf expr (blockOf expr block) conditional) :=
    conditionalOf_built he hblock hc
  exact operators_built (primary_built he hblock hcond labels) he

theorem within_built (depth : Nat) :
    Built true (exprWithin depth : Parser Expr) ∧ Built false (blockWithin depth : Parser Block) ∧
      Built false (conditionalWithin depth : Parser Expr) := by
  induction depth with
  | zero =>
    rw [exprWithin, blockWithin, conditionalWithin]
    exact ⟨.fail, .fail, .fail⟩
  | succ depth ih =>
    have he := Built.deferred fun _ => ih.1
    have hb := Built.deferred fun _ => ih.2.1
    have hc := Built.deferred fun _ => ih.2.2
    rw [exprWithin, blockWithin, conditionalWithin]
    exact ⟨assignment_built (exprOf_built he hb hc true), blockOf_built he hb,
      conditionalOf_built he (blockOf_built he hb) hc⟩

theorem typeExprWithin_built (depth : Nat) :
    Built true (typeExprWithin depth : Parser TypeExpr) := by
  cases depth with
  | zero =>
    rw [typeExprWithin]
    exact .fail
  | succ depth =>
    obtain ⟨he, hb, hc⟩ := within_built depth
    rw [typeExprWithin]
    refine .either (.token (by simp)) (.map ?_)
    exact exprOf_built (.deferred fun _ => he) (.deferred fun _ => hb) (.deferred fun _ => hc) false

/-! ## Definitions -/

theorem header_built : Built true (header : Parser (Option TypeExpr × Bool)) := by
  have htype : Built false (typeExpr : Parser TypeExpr) :=
    .deferred fun left => .weaken (typeExprWithin_built (left + 1))
  refine .choice ?_
  simp only [List.forall_mem_cons, List.not_mem_nil, false_imp_iff, implies_true, and_true]
  refine ⟨.map (.just (by decide)), ?_⟩
  refine .bind (.just (by decide)) fun _ => ?_
  refine .bind (.optional htype) fun type => ?_
  refine .bind (.either (.map (.just (by decide))) (.map (.just (by decide)))) fun mutable => ?_
  exact .pure _

theorem definition_built : Built true (definition : Parser GlobalDef) := by
  have hexpr : Built true (Grammar.expr : Parser Expr) :=
    .deferred fun left => (within_built (left + 1)).1
  refine .check ?_ ?_
  · refine .bind ident_built fun name => ?_
    refine .bind header_built fun header => ?_
    refine .bind hexpr fun value => ?_
    refine .bind (.optional (.just (by decide))) fun semicolon => ?_
    exact .pure _
  · intro c reported d after alt _ span m hm
    dsimp only at hm
    split at hm
    · rw [List.mem_singleton.1 hm]
      exact .inl (missingSemicolon_printable d.value)
    · cases hm

theorem any_eq_ok {c after : Cursor} {reported : List Complaint} {kind : TokenKind}
    {alt : Option Complaint} (h : (any : Parser TokenKind) c = ⟨reported, .ok kind after alt⟩) :
    ∃ t, c.next? = some (t, after) ∧ t.node = kind := by
  change Parser.any c = _ at h
  unfold Parser.any Parser.token at h
  split at h
  · rename_i hnext
    cases h
    exact ⟨_, hnext, rfl⟩
  · cases h

theorem trailing_built : Built true (trailing : Parser Unit) := by
  have hany : ∀ {strict : Bool}, Built strict (any : Parser TokenKind) := .token (by simp)
  refine .check ?_ ?_
  · refine .bind hany fun first => ?_
    refine .bind (.many hany) fun _ => ?_
    exact .pure _
  · intro c reported first after alt hfirst span m hm
    -- the value is the token that comes first
    obtain ⟨_, kind, mid, _, _, _, hone, hmore, -⟩ := Parser.bind_eq_ok hfirst
    obtain ⟨_, _, _, _, _, _, -, hpure, -⟩ := Parser.bind_eq_ok hmore
    cases hpure
    obtain ⟨t, hnext, rfl⟩ := any_eq_ok hone
    rw [List.mem_singleton.1 hm]
    exact .inr ⟨t, mid, hnext, rfl⟩

/-- **The parser of source files is built of others**, and strict. -/
theorem sourceFile_built : Built true (sourceFile : Parser (List Item)) := by
  have hitem : Built true (item : Parser Item) := .recoverSkipping (.withSpan definition_built)
  refine .bind (.many hitem) fun items => ?_
  refine .bind (.optional (.weaken trailing_built)) fun _ => ?_
  refine .bind .finish fun _ => ?_
  exact .pure _

end Grammar

end LunSyntax
