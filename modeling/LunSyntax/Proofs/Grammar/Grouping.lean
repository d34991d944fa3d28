import LunSyntax.Proofs.Grammar.Containment
import LunSyntax.Proofs.Grammar.Spelling

/-!
# Operands are grouped by their operators

Whatever is read, and whatever was given up or skipped on the way, an operand holds together at
least as tightly as the operator around it binds.  So the syntax of any input could be written
again without more parentheses than it has.

* `ExprKind.Grouped`: what a form asks of its operands;
* `Expr.Derives.fits` and the like: what has a derivation is grouped so throughout, one case for
  each rule of the grammar, and has no error in it unless tokens may be skipped;
* `itemsFrom_derive`: all definitions of an input have one, those after skipped tokens included;
* `parseTokens_groups`: the operands of any file that is parsed.
-/

set_option autoImplicit false

namespace LunSyntax

open LunSyntax.Parser

/-! ## Levels of operands -/

/-- The operands of a form are tight enough for it.  Binary operators group to the left, so their
right operand is of a tighter level; assignments group to the right.  A conditional after `else` is
one, and what has a label is a block or a loop. -/
def ExprKind.Grouped : ExprKind → Prop
  | binary lhs op rhs => op.node.level ≤ lhs.level ∧ op.node.level < rhs.level
  | assign lhs _ => 1 ≤ lhs.level
  | unary _ operand | borrow _ operand => 11 ≤ operand.level
  | deref operand => 12 ≤ operand.level
  | call callee _ => 12 ≤ callee.level
  | field base _ => 12 ≤ base.level
  | conditional _ _ (some (.chain next)) => next.kind.isConditional = true
  | labeled _ inner => inner.kind.isUnlabeled = true
  | _ => True

namespace SyntaxNode

/-- The operands of a node are tight enough for it.  A type is no assignment. -/
def Grouped : SyntaxNode → Prop
  | expr e => e.kind.Grouped
  | item i => ∀ e, i.definition.type = some (.expr e) → 1 ≤ e.level
  | _ => True

/-- A node is grouped and, where all tokens have to be derived, was not given up. -/
structure Fit (mode : Mode) (n : SyntaxNode) : Prop where
  grouped : n.Grouped
  kept : mode = .strict → ∀ e, n = .expr e → e.kind ≠ .error

/-- All that is within a node fits. -/
def Fits (mode : Mode) (n : SyntaxNode) : Prop := ∀ m : SyntaxNode, m.Within n → m.Fit mode

/-- All that is within some nodes fits. -/
def AllFit (mode : Mode) (ns : List SyntaxNode) : Prop := ∀ n ∈ ns, n.Fits mode

variable {mode : Mode} {n : SyntaxNode} {ns ms : List SyntaxNode}

namespace AllFit

theorem nil : AllFit mode [] := List.forall_mem_nil _

theorem cons (hn : n.Fits mode) (hns : AllFit mode ns) : AllFit mode (n :: ns) :=
  List.forall_mem_cons.2 ⟨hn, hns⟩

theorem single (hn : n.Fits mode) : AllFit mode [n] := cons hn nil

theorem append (hns : AllFit mode ns) (hms : AllFit mode ms) : AllFit mode (ns ++ ms) :=
  List.forall_mem_append.2 ⟨hns, hms⟩

end AllFit

namespace Fits

theorem of_parts (hn : n.Fit mode) (hparts : AllFit mode n.parts) : n.Fits mode := by
  intro m hm
  cases hm with
  | refl => exact hn
  | part hpart hm => exact hparts _ hpart m hm

theorem expr {kind : ExprKind} {span : Span} (hkind : kind.Grouped) (hne : kind ≠ .error)
    (hparts : AllFit mode kind.parts) : (SyntaxNode.expr ⟨kind, span⟩).Fits mode := by
  refine of_parts ⟨hkind, ?_⟩ hparts
  rintro - e ⟨⟩
  exact hne

/-- Syntax which is no expression. -/
theorem other (hn : n.Grouped) (hne : ∀ e, n ≠ .expr e) (hparts : AllFit mode n.parts) :
    n.Fits mode :=
  of_parts ⟨hn, fun _ e he => absurd he (hne e)⟩ hparts

theorem name (name : Ident) : (SyntaxNode.name name).Fits mode := other trivial nofun .nil

theorem word (text : String) (span : Span) : (SyntaxNode.word text span).Fits mode :=
  other trivial nofun .nil

theorem binOp (op : Spanned BinOp) : (SyntaxNode.binOp op).Fits mode := other trivial nofun .nil

theorem unOp (op : Spanned UnOp) : (SyntaxNode.unOp op).Fits mode := other trivial nofun .nil

theorem primitive (type : Spanned PrimitiveType) : (SyntaxNode.primitive type).Fits mode :=
  other trivial nofun .nil

theorem root (root : PathRoot) : root.node.Fits mode := by
  cases root with
  | orb span => exact word "orb" span
  | ident first => exact name first

/-- An expression that was given up, where it may be. -/
theorem error {span : Span} (hmode : mode = .recovering) :
    (SyntaxNode.expr ⟨.error, span⟩).Fits mode := by
  refine of_parts ⟨trivial, fun hstrict => ?_⟩ .nil
  rw [hmode] at hstrict
  cases hstrict

end Fits

namespace AllFit

theorem names (names : List Ident) : AllFit mode (names.map SyntaxNode.name) := by
  intro part hpart
  obtain ⟨name, -, rfl⟩ := List.mem_map.1 hpart
  exact .name name

theorem label (label : Option Ident) : AllFit mode (label.map SyntaxNode.name).toList := by
  cases label with
  | none => exact .nil
  | some label => exact .single (.name label)

theorem mutWord (mutSpan : Option Span) :
    AllFit mode (mutSpan.map (SyntaxNode.word "mut")).toList := by
  cases mutSpan with
  | none => exact .nil
  | some span => exact .single (.word "mut" span)

end AllFit

theorem Fits.borrow {mutSpan : Option Span} {operand : Expr} {span : Span}
    (h : (SyntaxNode.expr operand).Fits mode) (hlevel : 11 ≤ operand.level) :
    (SyntaxNode.expr ⟨.borrow mutSpan operand, span⟩).Fits mode :=
  .expr hlevel nofun (.append (.mutWord mutSpan) (.single h))

end SyntaxNode

open SyntaxNode (Fits AllFit)

/-! ## Derivations -/

section

variable {mode : Mode}

/-- What comes after `else` without braces is a conditional. -/
theorem AlternativeDerives.grouped {cond : Expr} {consequent : Block}
    {alternative : Option Alternative} {ts : List TokenKind}
    (h : AlternativeDerives mode alternative ts) :
    (ExprKind.conditional cond consequent alternative).Grouped := by
  cases h with
  | none => exact trivial
  | chain _ hkind => exact hkind
  | block _ => exact trivial

mutual

/-- An expression with a derivation fits, whatever of it was given up. -/
theorem Expr.Derives.fits {e : Expr} {ts : List TokenKind} :
    e.Derives mode ts → (SyntaxNode.expr e).Fits mode
  | .bool | .literal | .null => .expr trivial nofun .nil
  | .paren h => by
    have hinner := h.fits
    exact .expr trivial nofun (.single hinner)
  | .path => .expr trivial nofun (.cons (.root _) (.names _))
  | .binary hl hlevel hr hlevel' => by
    have hlhs := hl.fits
    have hrhs := hr.fits
    refine .expr ⟨hlevel, hlevel'⟩ nofun ?_
    exact .cons hlhs (.cons (.binOp _) (.single hrhs))
  | .assign hl hlevel hr => by
    have hlhs := hl.fits
    have hrhs := hr.fits
    exact .expr hlevel nofun (.cons hlhs (.single hrhs))
  | .unary h hlevel => by
    have hoperand := h.fits
    exact .expr hlevel nofun (.cons (.unOp _) (.single hoperand))
  | .borrow h hlevel => by
    have hoperand := h.fits
    exact .borrow hoperand hlevel
  | .doubleBorrow h hlevel => by
    have hoperand := h.fits
    -- the inner borrow is an operand of the outer one
    refine .borrow ?_ (Nat.le_refl 11)
    exact .borrow hoperand hlevel
  | .deref h hlevel => by
    have hoperand := h.fits
    exact .expr hlevel nofun (.single hoperand)
  | .call h hlevel ha => by
    have hcallee := h.fits
    have hargs := ha.fits
    exact .expr hlevel nofun (.cons hcallee (.single hargs))
  | .field h hlevel => by
    have hbase := h.fits
    exact .expr hlevel nofun (.cons hbase (.single (.name _)))
  | .conditional hc hb ha => by
    have hcond := hc.fits
    have hconsequent := hb.fits
    have halternative := ha.fits
    exact .expr ha.grouped nofun (.cons hcond (.cons hconsequent halternative))
  | .ret h => by
    have hvalue := h.fits
    exact .expr trivial nofun hvalue
  | .brk h => by
    have hvalue := h.fits
    exact .expr trivial nofun (.append (.label _) hvalue)
  | .cont => .expr trivial nofun (.label _)
  | .block h => by
    have hbody := h.fits
    exact .expr trivial nofun (.single hbody)
  | .whileLoop hc hb => by
    have hcond := hc.fits
    have hbody := hb.fits
    exact .expr trivial nofun (.cons hcond (.single hbody))
  | .forLoop hi hb => by
    have hiterator := hi.fits
    have hbody := hb.fits
    refine .expr trivial nofun ?_
    exact .cons (.name _) (.cons hiterator (.single hbody))
  | .loop h => by
    have hbody := h.fits
    exact .expr trivial nofun (.single hbody)
  | .labeled h hkind => by
    have hinner := h.fits
    exact .expr hkind nofun (.cons (.name _) (.single hinner))
  | .skipped hmode _ => .error hmode

theorem ValueDerives.fits {value : Option Expr} {ts : List TokenKind} :
    ValueDerives mode value ts → AllFit mode (value.map SyntaxNode.expr).toList
  | .none => .nil
  | .some h => .single h.fits

theorem Arguments.Derives.fits {args : Arguments} {ts : List TokenKind} :
    args.Derives mode ts → (SyntaxNode.arguments args).Fits mode
  | .list h => .other trivial nofun h.fits
  | .skipped hmode _ => .other trivial nofun (.single (.error hmode))

theorem ArgsDerive.fits {args : List Expr} {ts : List TokenKind} :
    ArgsDerive mode args ts → AllFit mode (args.map SyntaxNode.expr)
  | .nil => .nil
  | .last h | .trailing h => .single h.fits
  | .cons h hs => .cons h.fits hs.fits

theorem AlternativeDerives.fits {alternative : Option Alternative} {ts : List TokenKind} :
    AlternativeDerives mode alternative ts →
      AllFit mode (alternative.map Alternative.node).toList
  | .none => .nil
  | .chain h _ => .single h.fits
  | .block h => .single h.fits

theorem Block.Derives.fits {block : Block} {ts : List TokenKind} :
    block.Derives mode ts → (SyntaxNode.block block).Fits mode
  | .value hs he => .other trivial nofun (.append hs.fits (.single he.fits))
  | .noValue hs _ => .other trivial nofun (.append hs.fits .nil)
  | .skipped hmode _ => .other trivial nofun (.single (.error hmode))

theorem StmtsDerive.fits {stmts : List Stmt} {ts : List TokenKind} :
    StmtsDerive mode stmts ts → AllFit mode (stmts.map fun s => SyntaxNode.expr s.expr)
  | .nil => .nil
  | .cons h _ hs => .cons h.fits hs.fits

end

theorem TypeExpr.Derives.fits {type : TypeExpr} {ts : List TokenKind}
    (h : type.Derives mode ts) :
    type.node.Fits mode ∧ ∀ e, type = .expr e → 1 ≤ e.level := by
  cases h with
  | primitive => exact ⟨.primitive _, nofun⟩
  | expr he hlevel _ =>
    refine ⟨he.fits, ?_⟩
    rintro _ ⟨⟩
    exact hlevel

theorem HeaderDerives.fits {type : Option TypeExpr} {mutable : Bool} {ts : List TokenKind}
    (h : HeaderDerives mode type mutable ts) :
    AllFit mode (type.map TypeExpr.node).toList ∧ ∀ e, type = some (.expr e) → 1 ≤ e.level := by
  cases h with
  | joined => exact ⟨.nil, nofun⟩
  | untyped => exact ⟨.nil, nofun⟩
  | typed ht =>
    obtain ⟨hnode, hlevel⟩ := ht.fits
    refine ⟨.single hnode, ?_⟩
    rintro e ⟨⟩
    exact hlevel e rfl

theorem GlobalDef.Derives.fits {d : GlobalDef} {ts : List TokenKind} (h : d.Derives mode ts)
    (span : Span) : (SyntaxNode.item ⟨d, span⟩).Fits mode := by
  cases h with
  | @intro name type mutable value semicolon us vs hheader hvalue _ =>
    obtain ⟨htype, hlevel⟩ := hheader.fits
    have hvalue := hvalue.fits
    refine .other hlevel nofun (.cons (.name name) ?_)
    exact .append htype (.single hvalue)

end

/-! ## Files -/

namespace Grammar

/-- A definition that is found, after however many skipped tokens, derives the tokens it was read
from. -/
theorem item_derives {c after : Cursor} {i : Item}
    (h : (item (P := Parser) c).result = some (i, after)) :
    ∃ ts, i.definition.Derives .recovering ts := by
  have hhere : ∀ {c : Cursor}, (itemHere c).result = some (i, after) →
      ∃ ts, i.definition.Derives .recovering ts := by
    intro c hc
    obtain ⟨used, -, hd⟩ := itemHere_passes hc
    exact ⟨_, hd⟩
  have hskip : (recoverSkipping itemHere c).result = some (i, after) := h
  rw [recoverSkipping_result, Option.or_eq_some_iff] at hskip
  rcases hskip with hfirst | ⟨-, hlater⟩
  · exact hhere hfirst
  · obtain ⟨o, hretry, ho⟩ := Option.bind_eq_some_iff.1 hlater
    obtain ⟨mid, rfl, -⟩ := retry_mem hretry
    exact hhere ho

/-- All definitions from a place on derive tokens. -/
theorem itemsFrom_derive (c : Cursor) :
    ∀ i ∈ itemsFrom c, ∃ ts, i.definition.Derives .recovering ts := by
  -- by the number of tokens left, which each definition makes smaller
  induction hleft : c.left using Nat.strongRecOn generalizing c with
  | ind n ih =>
    rw [itemsFrom_eq]
    cases hitem : (item (P := Parser) c).result with
    | none => exact List.forall_mem_nil _
    | some found =>
      obtain ⟨i, after⟩ := found
      have hlt := left_lt_of_item hitem
      exact List.forall_mem_cons.2 ⟨item_derives hitem, ih after.left (hleft ▸ hlt) after rfl⟩

end Grammar

/-- **Operands are grouped by their operators.**  In the file of any tokens, whether they are
accepted or not, each operand is at least of the level that its operator asks for, types are no
assignments, what follows an `else` is a conditional or a block, and what has a label is a block or
a loop. -/
theorem parseTokens_groups (tokens : List Token) (id : UInt16) :
    ∃ file, (parseTokens tokens id).1 = some file ∧
      ∀ n : SyntaxNode, n.Within (.file file) → n.Grouped := by
  obtain ⟨file, hfile, hitems⟩ := parseTokens_eq_some tokens id
  have hparts : AllFit .recovering (SyntaxNode.file file).parts := by
    intro part hpart
    obtain ⟨i, hi, rfl⟩ := List.mem_map.1 hpart
    rw [hitems] at hi
    obtain ⟨ts, hd⟩ := Grammar.itemsFrom_derive _ i hi
    exact hd.fits i.span
  have hfits : (SyntaxNode.file file).Fits .recovering := .other trivial nofun hparts
  exact ⟨file, hfile, fun n hn => (hfits n hn).grouped⟩

/-- In `x::a-b*()` the parentheses are given up, but the value is still a difference. -/
example : (((parseTokens [⟨.ident "x", ⟨0, 1⟩⟩, ⟨.digraph .pathSep, ⟨1, 3⟩⟩, ⟨.ident "a", ⟨3, 4⟩⟩,
    ⟨.control '-', ⟨4, 5⟩⟩, ⟨.ident "b", ⟨5, 6⟩⟩, ⟨.control '*', ⟨6, 7⟩⟩,
    ⟨.control '(', ⟨7, 8⟩⟩, ⟨.control ')', ⟨8, 9⟩⟩] 0).1.map fun file =>
      file.items.map fun i => i.definition.value.level)) = some [9] := by
  decide +kernel

end LunSyntax
