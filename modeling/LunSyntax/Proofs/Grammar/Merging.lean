import LunSyntax.Grammar.Expression

/-!
# Merging without tests

A `Parser` merges any spans, so what the grammar joins with a merged span is a plain function of
the parts, and a chain of joins is a fold.

* `postfixed_eq`, `unary_eq`, `binary_eq`, `assignment_eq`: the rules of the grammar which merge
  spans, in terms of `applySuffix`, `applyLead`, `applyBinary` and `assignAll`.
-/

set_option autoImplicit false

namespace LunSyntax

namespace Parser

variable {α β : Type}

theorem pure_bind (a : α) (f : α → Parser β) : (Pure.pure a : Parser α) >>= f = f a := by
  funext c
  change Parser.bind (Parser.pure a) f c = f a c
  unfold Parser.bind Parser.pure
  dsimp only
  split
  · rename_i hfail
    rw [hfail]
    rfl
  · rename_i alt hok
    rw [hok]
    cases alt <;> rfl

theorem foldlM_eq {f : β → α → β} {g : β → α → Parser β} (h : ∀ b a, g b a = Pure.pure (f b a))
    (as : List α) (b : β) : as.foldlM g b = Pure.pure (as.foldl f b) := by
  induction as generalizing b with
  | nil => rfl
  | cons a as ih =>
    rw [List.foldlM_cons, h, pure_bind]
    exact ih (f b a)

theorem foldrM_eq {f : α → β → β} {g : α → β → Parser β} (h : ∀ a b, g a b = Pure.pure (f a b))
    (as : List α) (b : β) : as.foldrM g b = Pure.pure (as.foldr f b) := by
  rw [List.foldr_eq_foldl_reverse]
  exact foldlM_eq (fun b a => h a b) as.reverse b

end Parser

namespace Grammar

open LunSyntax.Parser

/-- An operand with one more suffix. -/
def applySuffix (e : Expr) : Suffix × Span → Expr
  | (suffix, span) =>
    let kind := match suffix with
      | .call args => ExprKind.call e args
      | .field name => .field e name
      | .deref => .deref e
    ⟨kind, e.span.cover span⟩

/-- An operand with one more lead. -/
def applyLead : Lead × Span → Expr → Expr
  | (lead, span), e =>
    let full := span.cover e.span
    match lead with
    | .unary op => ⟨.unary ⟨op, span⟩ e, full⟩
    | .borrow mutSpan => ⟨.borrow mutSpan e, full⟩
    | .doubleBorrow mutSpan =>
      ⟨.borrow none ⟨.borrow mutSpan e, { full with start := span.start + 1 }⟩, full⟩

/-- Two operands and the operator between them. -/
def applyBinary (lhs : Expr) : Spanned BinOp × Expr → Expr
  | (op, rhs) => ⟨.binary lhs op rhs, lhs.span.cover rhs.span⟩

/-- An assignment. -/
def assign (lhs rhs : Expr) : Expr :=
  ⟨.assign lhs rhs, lhs.span.cover rhs.span⟩

/-- Assignments, grouped to the right. -/
def assignAll : Expr → List Expr → Expr
  | first, [] => first
  | first, next :: rest => assign first (assignAll next rest)

theorem joinSuffix_eq (e : Expr) (s : Suffix × Span) :
    (joinSuffix e s : Parser Expr) = Pure.pure (applySuffix e s) := by
  obtain ⟨suffix, span⟩ := s
  cases suffix <;> rfl

theorem joinLead_eq (l : Lead × Span) (e : Expr) :
    (joinLead l e : Parser Expr) = Pure.pure (applyLead l e) := by
  obtain ⟨lead, span⟩ := l
  cases lead <;> rfl

theorem joinBinary_eq (lhs : Expr) (r : Spanned BinOp × Expr) :
    (joinBinary lhs r : Parser Expr) = Pure.pure (applyBinary lhs r) := rfl

theorem joinAssigns_eq (first : Expr) (rest : List Expr) :
    (joinAssigns first rest : Parser Expr) = Pure.pure (assignAll first rest) := by
  induction rest generalizing first with
  | nil => rfl
  | cons next rest ih =>
    rw [joinAssigns, ih]
    exact pure_bind _ _

variable (primary expr operand : Parser Expr) (op : Parser BinOp)

theorem postfixed_eq : postfixed primary expr = do
    let e ← primary
    let suffixes ← many (suffix expr)
    return suffixes.foldl applySuffix e := by
  unfold postfixed
  simp only [foldlM_eq joinSuffix_eq]
  rfl

theorem unary_eq : unary primary expr = do
    let leads ← many lead
    let e ← postfixed primary expr
    return leads.foldr applyLead e := by
  unfold unary
  simp only [foldrM_eq joinLead_eq]
  rfl

theorem binary_eq : binary operand op = do
    let first ← operand
    let rest ← many do
      let op ← operator op
      let rhs ← operand
      return (op, rhs)
    return rest.foldl applyBinary first := by
  unfold binary
  simp only [foldlM_eq joinBinary_eq]
  rfl

theorem assignment_eq : assignment operand = do
    let first ← operand
    let rest ← many do
      control '='
      operand
    return assignAll first rest := by
  unfold assignment
  simp only [joinAssigns_eq]
  rfl

end Grammar

end LunSyntax
