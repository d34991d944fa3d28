import LunSyntax.Grammar.Item
import LunSyntax.Proofs.Grammar.Canonical
import LunSyntax.Proofs.Parser.Acceptance

/-!
# The ends of expressions

With which tokens an expression starts, and which tokens cannot go on with it.

* `TokenKind.startsExpr` and `Expr.head_of_canonical`: the first token of an expression;
* `TokenKind.tightness`, `Stops` and `Follow`: the first token after one.  An expression of a level
  is read to its end if what follows `Stops` there;
* `exprWithin_refuses`: in front of a token that starts no expression, all rules for expressions
  fail.
-/

set_option autoImplicit false

namespace LunSyntax

/-! ## Tokens at the ends of expressions -/

namespace TokenKind

/-- Tokens with which an operand starts. -/
def startsOperand : TokenKind → Bool
  | ident _ | literal _ => true
  | keyword word => ["true", "false", "null", "return", "break", "continue", "orb", "while", "for",
      "loop", "if"].contains word
  | control c => c == '(' || c == '{'
  | _ => false

/-- Tokens with which a block or a loop starts, if it has no label. -/
def startsBlock (t : TokenKind) : Bool :=
  t == control '{' || t == keyword "while" || t == keyword "for" || t == keyword "loop"

/-- Tokens which stand before an operand. -/
def startsLead (t : TokenKind) : Bool :=
  t == control '-' || t == control '!' || t == control '&' || t == digraph .and

/-- Tokens with which an expression starts. -/
def startsExpr (t : TokenKind) : Bool := t.startsOperand || t.startsLead

/-- How tightly a token holds on to the expression before it: the levels of operators, and beyond
them what makes a longer path, a label or another branch. -/
def tightness (t : TokenKind) : Option Nat :=
  if t = digraph .pathSep ∨ t = control ':' ∨ t = keyword "else" then some 13
  else if t = control '(' ∨ t = control '.' ∨ t = digraph .deref then some 12
  else if t = control '=' then some 0
  else (BinOp.all.find? fun op => op.token == t).map BinOp.level

end TokenKind

theorem BinOp.level_le (op : BinOp) : 1 ≤ op.level ∧ op.level ≤ 10 := by
  cases op <;> decide

theorem BinOp.tightness_token (op : BinOp) : op.token.tightness = some op.level := by
  cases op <;> decide

theorem BinOp.token_injective {a b : BinOp} (h : a.token = b.token) : a = b := by
  revert h
  cases a <;> cases b <;> decide

/-- Tokens which do not go on with an expression of a level. -/
def Stops (l : Nat) (ts : List TokenKind) : Prop :=
  ∀ t ∈ ts.head?, ∀ k ∈ t.tightness, k < l

namespace Stops

variable {l k : Nat} {t : TokenKind} {ts : List TokenKind}

theorem not_mem (h : Stops l ts) (ht : t.tightness = some k) (hk : l ≤ k) : t ∉ ts.head? :=
  fun hmem => Nat.not_lt.2 hk (h t hmem k ht)

theorem tighter {l' : Nat} (h : Stops l ts) (hl : l ≤ l') : Stops l' ts :=
  fun t ht k hk => Nat.lt_of_lt_of_le (h t ht k hk) hl

theorem cons (h : ∀ k ∈ t.tightness, k < l) : Stops l (t :: ts) := by
  rintro _ ⟨⟩
  exact h

end Stops

/-- Tokens which may follow an expression of a level.  What may be a `return` or a `break` is
followed by nothing that could be its value, or go on with it. -/
structure Follow (l : Nat) (jumps : Bool) (ts : List TokenKind) : Prop where
  stops : Stops l ts
  ends : jumps = true → Stops 0 ts ∧ ∀ t ∈ ts.head?, t.startsExpr = false

namespace Follow

variable {l : Nat} {jumps : Bool} {t : TokenKind} {ts : List TokenKind}

theorem tighter {l' : Nat} (h : Follow l jumps ts) (hl : l ≤ l') : Follow l' jumps ts :=
  ⟨h.stops.tighter hl, h.ends⟩

/-- After an operand, which is no jump. -/
theorem operand (h : Stops l ts) : Follow l false ts :=
  ⟨h, fun hjump => absurd hjump (by decide)⟩

theorem cons (h : ∀ k ∈ t.tightness, k < l) : Follow l false (t :: ts) :=
  operand (.cons h)

/-- Before a token which has no part in expressions. -/
theorem closing (h : t.tightness = none) (hstart : t.startsExpr = false) (jumps : Bool) :
    Follow l jumps (t :: ts) := by
  have hstops : ∀ l, Stops l (t :: ts) := by
    refine fun l => .cons fun k hk => ?_
    rw [h] at hk
    cases hk
  refine ⟨hstops l, fun _ => ⟨hstops 0, ?_⟩⟩
  rintro _ ⟨⟩
  exact hstart

end Follow

/-! ## Operands -/

/-- What the operators of an expression join. -/
def Expr.operands : Expr → List Expr
  | ⟨.binary lhs _ rhs, _⟩ | ⟨.assign lhs rhs, _⟩ => [lhs, rhs]
  | ⟨.unary _ operand, _⟩ | ⟨.borrow _ operand, _⟩ | ⟨.deref operand, _⟩ => [operand]
  | ⟨.call callee _, _⟩ => [callee]
  | ⟨.field base _, _⟩ => [base]
  | _ => []

theorem Expr.sizeOf_lt_of_mem_operands {e o : Expr} (h : o ∈ e.operands) : sizeOf o < sizeOf e := by
  obtain ⟨kind, span⟩ := e
  cases kind <;> simp [Expr.operands] at h
  case binary | assign => rcases h with rfl | rfl <;> simp <;> omega
  case unary | borrow | deref | call | field =>
    subst h
    simp
    omega

/-- What passes from operands to the expression holds of all expressions. -/
theorem Expr.operand_induction {motive : Expr → Prop}
    (step : ∀ e : Expr, (∀ o ∈ e.operands, motive o) → motive e) (e : Expr) : motive e := by
  induction hm : sizeOf e using Nat.strongRecOn generalizing e with
  | ind m ih =>
    exact step e fun o ho => ih (sizeOf o) (hm ▸ Expr.sizeOf_lt_of_mem_operands ho) o rfl

/-! ## The first token -/

theorem Path.tokens_head (p : Path) : ∃ t ts, p.tokens = t :: ts ∧ t.startsOperand = true := by
  refine ⟨_, _, rfl, ?_⟩
  cases p.root <;> rfl

theorem Block.render_head (b : Block) : ∃ ts, b.render = .control '{' :: ts := by
  obtain ⟨stmts, lastExpr, span⟩ := b
  rw [Block.render]
  exact ⟨_, rfl⟩

theorem Arguments.render_head (args : Arguments) : ∃ ts, args.render = .control '(' :: ts := by
  obtain ⟨_ | ⟨arg, rest⟩, span⟩ := args
  · exact ⟨_, rfl⟩
  · rw [Arguments.render]
    exact ⟨_, rfl⟩

/-- The operand an expression starts with, where there is more to it. -/
def Expr.left? : Expr → Option Expr
  | ⟨.binary lhs _ _, _⟩ | ⟨.assign lhs _, _⟩ => some lhs
  | ⟨.deref base, _⟩ | ⟨.call base _, _⟩ | ⟨.field base _, _⟩ => some base
  | _ => none

/-- How an expression stands to the operand it starts with. -/
structure Expr.StartsWith (e lhs : Expr) : Prop where
  mem_operands : lhs ∈ e.operands
  canonical : lhs.canonical false = true
  leftmost_eq : e.leftmost = lhs.leftmost
  level : 12 ≤ e.level → 12 ≤ lhs.level
  render_eq : ∃ t us, e.render = lhs.render ++ t :: us ∧ ∀ k ∈ t.tightness, k < 13

theorem Expr.startsWith_of_left? {e lhs : Expr} {jumps : Bool} (hleft : e.left? = some lhs)
    (h : e.canonical jumps = true) : e.StartsWith lhs := by
  have small : ∀ {t : TokenKind} {k : Nat}, t.tightness = some k → k < 13 →
      ∀ k ∈ t.tightness, k < 13 := by
    intro t k ht hk k' hk'
    rw [ht] at hk'
    cases hk'
    exact hk
  obtain ⟨kind, span⟩ := e
  cases kind with
  | binary lhs op rhs =>
    cases hleft
    simp only [Expr.canonical, ExprKind.canonical, Bool.and_eq_true] at h
    have hle := op.node.level_le.2
    refine ⟨by simp [Expr.operands], h.1.2, rfl, fun hl => ?_, _, _, rfl, ?_⟩
    · exact absurd (Nat.le_trans hl hle) (by decide)
    · exact small op.node.tightness_token (Nat.lt_of_le_of_lt hle (by decide))
  | assign lhs rhs =>
    cases hleft
    simp only [Expr.canonical, ExprKind.canonical, Bool.and_eq_true] at h
    refine ⟨by simp [Expr.operands], h.1.2, rfl, fun hl => ?_, _, _, rfl, small rfl (by decide)⟩
    simp [Expr.level, ExprKind.level] at hl
  | deref base =>
    cases hleft
    simp only [Expr.canonical, ExprKind.canonical, Bool.and_eq_true, decide_eq_true_eq] at h
    exact ⟨by simp [Expr.operands], h.2, rfl, fun _ => h.1, _, _, rfl, small rfl (by decide)⟩
  | call callee args =>
    cases hleft
    simp only [Expr.canonical, ExprKind.canonical, Bool.and_eq_true, decide_eq_true_eq] at h
    obtain ⟨ts, hargs⟩ := args.render_head
    refine ⟨by simp [Expr.operands], h.1.2, rfl, fun _ => h.1.1, .control '(', ts, ?_,
      small rfl (by decide)⟩
    rw [← hargs]
    rfl
  | field base name =>
    cases hleft
    simp only [Expr.canonical, ExprKind.canonical, Bool.and_eq_true, decide_eq_true_eq] at h
    exact ⟨by simp [Expr.operands], h.2, rfl, fun _ => h.1, _, _, rfl, small rfl (by decide)⟩
  | _ => cases hleft

theorem startsExpr_of_startsOperand {t : TokenKind} (h : t.startsOperand = true) :
    t.startsExpr = true := by
  rw [TokenKind.startsExpr, h, Bool.true_or]

theorem startsBlock_of_startsOperand {t : TokenKind} (h : t.startsOperand = false) :
    t.startsBlock = false := by
  cases ht : t.startsBlock with
  | false => rfl
  | true =>
    simp only [TokenKind.startsBlock, Bool.or_eq_true, beq_iff_eq] at ht
    rcases ht with ((rfl | rfl) | rfl) | rfl <;> cases h

theorem startsLead_of_startsOperand {t : TokenKind} (h : t.startsOperand = true) :
    t.startsLead = false := by
  cases ht : t.startsLead with
  | false => rfl
  | true =>
    simp only [TokenKind.startsLead, Bool.or_eq_true, beq_iff_eq] at ht
    rcases ht with ((rfl | rfl) | rfl) | rfl <;> cases h

/-- What an expression starts with: a lead only where the level tells. -/
def Expr.Head (e : Expr) : Prop :=
  ∃ t ts, e.render = t :: ts ∧ t.startsExpr = true ∧ (12 ≤ e.level → t.startsOperand = true)

theorem Expr.Head.of_operand {e : Expr} {t : TokenKind} {ts : List TokenKind}
    (h : e.render = t :: ts) (ht : t.startsOperand = true) : e.Head :=
  ⟨t, ts, h, startsExpr_of_startsOperand ht, fun _ => ht⟩

theorem Expr.eq_assign_of_level {e : Expr} (h : e.level = 0) :
    ∃ lhs rhs span, e = ⟨.assign lhs rhs, span⟩ := by
  obtain ⟨kind, span⟩ := e
  cases kind with
  | assign lhs rhs => exact ⟨lhs, rhs, span, rfl⟩
  | binary lhs op rhs => exact absurd h (Nat.pos_iff_ne_zero.1 op.node.level_le.1)
  | _ => cases h

theorem Expr.eq_binary_of_level {e : Expr} (h : 1 ≤ e.level ∧ e.level ≤ 10) :
    ∃ lhs op rhs span, e = ⟨.binary lhs op rhs, span⟩ := by
  obtain ⟨kind, span⟩ := e
  cases kind with
  | binary lhs op rhs => exact ⟨lhs, op, rhs, span, rfl⟩
  | _ => simp [Expr.level, ExprKind.level] at h

/-- Every canonical expression has a first token. -/
theorem Expr.head_of_canonical (e : Expr) {jumps : Bool} (h : e.canonical jumps = true) :
    e.Head := by
  induction e using Expr.operand_induction generalizing jumps with | step e ih => ?_
  cases hleft : e.left? with
  | some lhs =>
    have hstart := startsWith_of_left? hleft h
    obtain ⟨t, ts, hlhs, hexpr, hoperand⟩ := ih lhs hstart.mem_operands hstart.canonical
    obtain ⟨t', us, hrender, -⟩ := hstart.render_eq
    exact ⟨t, ts ++ t' :: us, by rw [hrender, hlhs, List.cons_append], hexpr,
      fun hl => hoperand (hstart.level hl)⟩
  | none =>
    obtain ⟨kind, span⟩ := e
    cases kind with
    | bool value => exact .of_operand rfl (by cases value <;> rfl)
    | path path =>
      obtain ⟨t, ts, hpath, ht⟩ := path.tokens_head
      exact .of_operand hpath ht
    | unary op operand =>
      refine ⟨_, _, rfl, ?_, fun hl => by simp [Expr.level, ExprKind.level] at hl⟩
      obtain ⟨op, _⟩ := op
      cases op <;> rfl
    | borrow mutSpan operand =>
      exact ⟨_, _, rfl, rfl, fun hl => by simp [Expr.level, ExprKind.level] at hl⟩
    | block body =>
      obtain ⟨ts, hbody⟩ := body.render_head
      exact .of_operand hbody rfl
    | literal | null | paren | conditional | ret | brk | cont | whileLoop | forLoop | loop |
      labeled => exact .of_operand rfl rfl
    | binary | assign | deref | call | field => cases hleft
    | error => cases h

theorem Expr.render_ne_nil (e : Expr) {jumps : Bool} (h : e.canonical jumps = true) :
    e.render ≠ [] := by
  obtain ⟨t, ts, hrender, -⟩ := e.head_of_canonical h
  rw [hrender]
  exact List.cons_ne_nil t ts

theorem Expr.not_mem_head (e : Expr) {jumps : Bool} (h : e.canonical jumps = true)
    {t : TokenKind} (ht : t.startsExpr = false) (vs : List TokenKind) :
    t ∉ (e.render ++ vs).head? := by
  obtain ⟨t', ts, hrender, hstart, -⟩ := e.head_of_canonical h
  rw [hrender]
  rintro ⟨⟩
  rw [ht] at hstart
  cases hstart

/-! ## Refusals -/

namespace Grammar

open LunSyntax.Parser

theorem ident_takes (name : Ident) {vs : List TokenKind} :
    Takes ident [name.token] vs fun x => x.eraseSpan = name.eraseSpan := by
  refine .withSpan (.token (Q := fun x => x = name.name) fun t ht => ?_) ?_
  · rw [ht]
    exact ⟨name.name, rfl, rfl⟩
  · rintro _ span rfl
    rfl

theorem identBind_takes {β : Type} {f : Ident → Parser β} {R : β → Prop} (name : Ident)
    {us vs : List TokenKind} (h : ∀ x, x.eraseSpan = name.eraseSpan → Takes (f x) us vs R) :
    Takes (ident >>= f) (name.token :: us) vs R := by
  change Takes (ident >>= f) ([name.token] ++ us) vs R
  exact .bind (ident_takes name) h

section Refusals

variable {expr conditional operand : Parser Expr} {block : Parser Block} {ts : List TokenKind}

theorem not_mem_head {P : TokenKind → Bool} (h : ∀ t ∈ ts.head?, P t = false) {k : TokenKind}
    (hk : P k = true) : k ∉ ts.head? := by
  intro hmem
  rw [h k hmem] at hk
  cases hk

theorem ident_refuses (h : ∀ name, TokenKind.ident name ∉ ts.head?) : Refuses ident ts := by
  refine .withSpan (.token fun t ht => ?_)
  split
  · rename_i name hname
    rw [hname] at ht
    exact absurd ht (h name)
  · rfl

theorem unlabeled_refuses (hb : Refuses block ts) (h : ∀ t ∈ ts.head?, t.startsBlock = false) :
    Refuses (unlabeled expr block) ts := by
  refine .withSpan (.choice ?_)
  simp only [List.forall_mem_cons, List.not_mem_nil, false_imp_iff, implies_true, and_true]
  exact ⟨.map hb, .bind (.just (not_mem_head h rfl)), .bind (.just (not_mem_head h rfl)),
    .bind (.just (not_mem_head h rfl))⟩

/-- A name is a label only before a colon. -/
theorem blockLike_refuses (hu : Refuses (unlabeled expr block) ts)
    (hlabel : ∀ name rest, ts = .ident name :: rest → .control ':' ∉ rest.head?) :
    Refuses (blockLike expr block) ts := by
  refine .or (.withSpan ?_) hu
  by_cases h : ∃ name rest, ts = .ident name :: rest
  · obtain ⟨name, rest, rfl⟩ := h
    exact .bind_of_takes (ident_takes ⟨name, noSpan⟩) fun _ _ =>
      .bind (.just (hlabel name rest rfl))
  · refine .bind (ident_refuses fun name hmem => h ?_)
    obtain ⟨rest, hts⟩ := List.head?_eq_some_iff.1 hmem
    exact ⟨name, rest, hts⟩

theorem blockOf_refuses (h : .control '{' ∉ ts.head?) : Refuses (blockOf expr block) ts := by
  unfold blockOf
  exact .recoverDelimited (.check (.bind (.just h))) h

theorem conditionalOf_refuses (h : .keyword "if" ∉ ts.head?) :
    Refuses (conditionalOf expr block conditional) ts :=
  .withSpan (.bind (.just h))

theorem literal_refuses (h : ∀ lit, .literal lit ∉ ts.head?) :
    Refuses (token (fun t => match t.node with
      | .literal lit => some (ExprKind.literal lit)
      | _ => none) []) ts := by
  refine .token fun t ht => ?_
  split
  · rename_i lit hlit
    rw [hlit] at ht
    exact absurd ht (h lit)
  · rfl

theorem bool_refuses (htrue : .keyword "true" ∉ ts.head?) (hfalse : .keyword "false" ∉ ts.head?) :
    Refuses (Parser.or ((fun _ => ExprKind.bool true) <$> keyword "true")
      ((fun _ => ExprKind.bool false) <$> keyword "false")) ts :=
  .or (.map (.just htrue)) (.map (.just hfalse))

theorem path_refuses (horb : .keyword "orb" ∉ ts.head?) (hident : ∀ name, .ident name ∉ ts.head?) :
    Refuses path ts :=
  .bind (.or (.withSpan (.just horb)) (.map (ident_refuses hident)))

theorem simple_refuses (h : ∀ t ∈ ts.head?, t.startsOperand = false) :
    Refuses (simple expr) ts := by
  have hnot {k : TokenKind} (hk : k.startsOperand = true) : k ∉ ts.head? := not_mem_head h hk
  refine .withSpan (.choice ?_)
  simp only [List.forall_mem_cons, List.not_mem_nil, false_imp_iff, implies_true, and_true]
  exact ⟨literal_refuses fun _ => hnot rfl, bool_refuses (hnot rfl) (hnot rfl),
    .map (.just (hnot rfl)), .recoverDelimited (.bind (.just (hnot rfl))) (hnot rfl),
    .bind (.just (hnot rfl)), .bind (.just (hnot rfl)), .bind (.just (hnot rfl)),
    .map (path_refuses (hnot rfl) fun _ => hnot rfl)⟩

theorem primary_refuses (hb : Refuses block ts) (hc : Refuses conditional ts)
    (h : ∀ t ∈ ts.head?, t.startsOperand = false) (labels : Bool) :
    Refuses (primary expr block conditional labels) ts := by
  refine .choice ?_
  simp only [List.forall_mem_cons, List.not_mem_nil, false_imp_iff, implies_true, and_true]
  refine ⟨?_, hc, simple_refuses h⟩
  have hu : Refuses (unlabeled expr block) ts :=
    unlabeled_refuses hb fun t ht => startsBlock_of_startsOperand (h t ht)
  cases labels with
  | false => exact hu
  | true =>
    refine blockLike_refuses hu ?_
    rintro name rest rfl
    exact absurd rfl (not_mem_head h (k := .ident name) rfl)

theorem lead_refuses (h : ∀ t ∈ ts.head?, t.startsLead = false) : Refuses lead ts := by
  refine .withSpan (.choice ?_)
  simp only [List.forall_mem_cons, List.not_mem_nil, false_imp_iff, implies_true, and_true]
  exact ⟨.map (.just (not_mem_head h rfl)), .map (.just (not_mem_head h rfl)),
    .bind (.just (not_mem_head h rfl)), .bind (.just (not_mem_head h rfl))⟩

theorem arguments_refuses (h : .control '(' ∉ ts.head?) : Refuses (arguments expr) ts := by
  unfold arguments
  exact .recoverDelimited (.withSpan (.bind (.just h))) h

theorem suffix_refuses (hopen : .control '(' ∉ ts.head?) (hdot : .control '.' ∉ ts.head?)
    (hderef : .digraph .deref ∉ ts.head?) : Refuses (suffix expr) ts := by
  refine .withSpan (.choice ?_)
  simp only [List.forall_mem_cons, List.not_mem_nil, false_imp_iff, implies_true, and_true]
  exact ⟨.map (arguments_refuses hopen), .bind (.just hdot), .map (.just hderef)⟩

theorem unary_refuses (hp : Refuses operand ts) (h : ∀ t ∈ ts.head?, t.startsLead = false) :
    Refuses (unary operand expr) ts :=
  .bind_of_takes (.manyNil (lead_refuses h) trivial : Takes (many lead) [] ts fun _ => True)
    fun _ _ => .bind (.bind hp)

theorem operators_refuses (hp : Refuses operand ts)
    (h : ∀ t ∈ ts.head?, t.startsLead = false) : Refuses (operators operand expr) ts := by
  have fold : ∀ (ops : List (Parser BinOp)) (p : Parser Expr), Refuses p ts →
      Refuses (ops.foldl binary p) ts := by
    intro ops
    induction ops with
    | nil => exact fun p h => h
    | cons op ops ih => exact fun p h => ih _ (.bind h)
  exact fold levels _ (unary_refuses hp h)

end Refusals

theorem conditionalWithin_refuses {ts : List TokenKind} (h : .keyword "if" ∉ ts.head?)
    (depth : Nat) : Refuses (conditionalWithin depth) ts := by
  cases depth with
  | zero => exact fun c _ => ⟨_, rfl⟩
  | succ depth =>
    rw [conditionalWithin]
    exact conditionalOf_refuses h

theorem blockWithin_refuses {ts : List TokenKind} (h : .control '{' ∉ ts.head?) (depth : Nat) :
    Refuses (blockWithin depth) ts := by
  cases depth with
  | zero => exact fun c _ => ⟨_, rfl⟩
  | succ depth =>
    rw [blockWithin]
    exact blockOf_refuses h

/-- No expression starts with a token that starts none. -/
theorem exprWithin_refuses {ts : List TokenKind} (h : ∀ t ∈ ts.head?, t.startsExpr = false)
    (depth : Nat) : Refuses (exprWithin depth) ts := by
  have hoperand : ∀ t ∈ ts.head?, t.startsOperand = false :=
    fun t ht => (Bool.or_eq_false_iff.1 (h t ht)).1
  cases depth with
  | zero => exact fun c _ => ⟨_, rfl⟩
  | succ depth =>
    rw [exprWithin]
    refine .bind (operators_refuses (primary_refuses (blockOf_refuses (not_mem_head hoperand rfl))
      (conditionalOf_refuses (not_mem_head hoperand rfl)) hoperand true) ?_)
    exact fun t ht => (Bool.or_eq_false_iff.1 (h t ht)).2

end Grammar

end LunSyntax
