import LunSyntax.Proofs.Grammar.Derivation
import LunSyntax.Proofs.Token.Rules

/-!
# Syntax and the tokens it is spelled with

All syntax that has a span is a `SyntaxNode`, so that statements about every part of a file can be
made at once.

* `SyntaxNode.parts`, `SyntaxNode.Within`: the parts of a node, and theirs;
* `Covers`: a span from the start of one of some tokens to the stop of another, which are the first
  and the last one where the tokens stand in order;
* `SyntaxNode.Spelled`: a node and the tokens it was read from.  Its parts are spelled with some of
  these tokens, one part after the other;
* `SyntaxNode.Placed`: the same of all that is within such a node, also of the inner one of the two
  borrows of `&&`, which has no token of its own;
* `SyntaxNode.Placed.parts_inOrder`: where the tokens stand in order, the parts of a node do, and
  lie within the node.
-/

set_option autoImplicit false

namespace LunSyntax

/-! ## Nodes -/

/-- Syntax which has a span. -/
inductive SyntaxNode where
  | file (file : SourceFile)
  | item (item : Item)
  | name (name : Ident)
  | primitive (type : Spanned PrimitiveType)
  | binOp (op : Spanned BinOp)
  | unOp (op : Spanned UnOp)
  /-- the words `orb` and `mut`, of which nothing but the span is kept -/
  | word (word : String) (span : Span)
  | expr (expr : Expr)
  | arguments (args : Arguments)
  | block (block : Block)

/-- Where a path starts. -/
def PathRoot.node : PathRoot → SyntaxNode
  | orb span => .word "orb" span
  | ident name => .name name

/-- What a conditional does otherwise. -/
def Alternative.node : Alternative → SyntaxNode
  | chain conditional => .expr conditional
  | block body => .block body

/-- The type of a definition. -/
def TypeExpr.node : TypeExpr → SyntaxNode
  | primitive type => .primitive type
  | expr e => .expr e

namespace ExprKind

/-- The parts of a form, in order. -/
def parts : ExprKind → List SyntaxNode
  | bool _ | literal _ | null | error => []
  | paren inner => [.expr inner]
  | path p => p.root.node :: p.segments.map .name
  | binary lhs op rhs => [.expr lhs, .binOp op, .expr rhs]
  | assign lhs rhs => [.expr lhs, .expr rhs]
  | unary op operand => [.unOp op, .expr operand]
  | deref operand => [.expr operand]
  | borrow mutSpan operand => (mutSpan.map (.word "mut")).toList ++ [.expr operand]
  | call callee args => [.expr callee, .arguments args]
  | field base name => [.expr base, .name name]
  | conditional cond consequent alternative =>
    [.expr cond, .block consequent] ++ (alternative.map Alternative.node).toList
  | ret value => (value.map .expr).toList
  | brk label value => (label.map .name).toList ++ (value.map .expr).toList
  | cont label => (label.map .name).toList
  | block body => [.block body]
  | whileLoop cond body => [.expr cond, .block body]
  | forLoop var iterator body => [.name var, .expr iterator, .block body]
  | loop body => [.block body]
  | labeled label inner => [.name label, .expr inner]

/-- The token of a form which is just one. -/
def token? : ExprKind → Option TokenKind
  | bool value => some (.keyword (if value then "true" else "false"))
  | literal lit => some (.literal lit)
  | null => some (.keyword "null")
  | _ => none

/-- The token that comes after all parts of a form and has no span of its own. -/
def closer? : ExprKind → Option TokenKind
  | deref _ => some (.digraph .deref)
  | _ => none

end ExprKind

namespace SyntaxNode

/-- Where the syntax was written. -/
def span : SyntaxNode → Span
  | file f => f.span
  | item i => i.span
  | name n => n.span
  | primitive type => type.span
  | binOp op => op.span
  | unOp op => op.span
  | word _ span => span
  | expr e => e.span
  | arguments args => args.span
  | block b => b.span

/-- The parts of a node, in order. -/
def parts : SyntaxNode → List SyntaxNode
  | file f => f.items.map .item
  | item i => .name i.definition.name ::
    ((i.definition.type.map TypeExpr.node).toList ++ [.expr i.definition.value])
  | expr e => e.kind.parts
  | arguments args => args.args.map .expr
  | block b => b.stmts.map (fun s => .expr s.expr) ++ (b.lastExpr.map .expr).toList
  | _ => []

/-- The token of a node which is just one. -/
def token? : SyntaxNode → Option TokenKind
  | name n => some n.token
  | primitive type => some (.keyword type.node.text)
  | binOp op => some op.node.token
  | unOp op => some op.node.token
  | .word text _ => some (.keyword text)
  | expr e => e.kind.token?
  | _ => none

/-- The token that comes after all parts of a node and has no span of its own. -/
def closer? : SyntaxNode → Option TokenKind
  | expr e => e.kind.closer?
  | _ => none

/-- A node is another one, or within a part of it. -/
inductive Within (n : SyntaxNode) : SyntaxNode → Prop
  | refl : Within n n
  | part {part m : SyntaxNode} : part ∈ m.parts → Within n part → Within n m

end SyntaxNode

/-! ## Extents in order -/

namespace InOrder

variable {hi lo : Nat} {es fs : List Extent}

theorem split (h : InOrder hi lo (es ++ fs)) :
    ∃ mid, InOrder mid lo es ∧ InOrder hi mid fs := by
  induction es generalizing lo with
  | nil => exact ⟨lo, .nil (Nat.le_refl _), h⟩
  | cons e es ih =>
    obtain _ | ⟨h1, h2, h3⟩ := h
    obtain ⟨mid, h4, h5⟩ := ih h3
    exact ⟨mid, .cons h1 h2 h4, h5⟩

/-- Extents in order are so between the start of the first and the stop of the last one. -/
theorem tight {first last : Extent} (h : InOrder hi lo es) (hfirst : es.head? = some first)
    (hlast : es.getLast? = some last) : InOrder last.stop first.start es := by
  induction h generalizing first with
  | nil => cases hfirst
  | @cons lo e es h1 h2 h3 ih =>
    cases hfirst
    cases es with
    | nil =>
      cases hlast
      exact .cons (Nat.le_refl _) h2 (.nil (Nat.le_refl _))
    | cons f es =>
      have htail := ih rfl (by simpa using hlast)
      obtain _ | ⟨h4, -, -⟩ := h3
      exact .cons (Nat.le_refl _) h2 (htail.from_lower h4)

theorem sublist (h : InOrder hi lo fs) (hs : es.Sublist fs) : InOrder hi lo es := by
  induction hs generalizing lo with
  | slnil => exact h
  | cons e _ ih =>
    obtain _ | ⟨h1, h2, h3⟩ := h
    exact ih (h3.from_lower (by omega))
  | cons_cons e _ ih =>
    obtain _ | ⟨h1, h2, h3⟩ := h
    exact .cons h1 h2 (ih h3)

end InOrder

/-- Where tokens were read. -/
def extents (used : List Lexeme) : List Extent :=
  used.map fun t => ⟨t.span.start, t.span.stop⟩

/-- Tokens between two offsets, one after the other. -/
def Ranged (lo hi : Nat) (used : List Lexeme) : Prop := InOrder hi lo (extents used)

theorem ranged_cons {lo hi : Nat} {t : Lexeme} {used : List Lexeme} :
    Ranged lo hi (t :: used) ↔
      lo ≤ t.span.start ∧ t.span.start < t.span.stop ∧ Ranged t.span.stop hi used := by
  constructor
  · intro h
    obtain _ | ⟨h1, h2, h3⟩ := h
    exact ⟨h1, h2, h3⟩
  · rintro ⟨h1, h2, h3⟩
    exact .cons h1 h2 h3

namespace Ranged

variable {lo mid hi : Nat} {us vs used : List Lexeme} {t : Lexeme}

theorem le (h : Ranged lo hi used) : lo ≤ hi := InOrder.le h

theorem widen {lo' hi' : Nat} (h : Ranged lo hi used) (hlo : lo' ≤ lo) (hhi : hi ≤ hi') :
    Ranged lo' hi' used :=
  (InOrder.from_lower h hlo).to_upper hhi

theorem append (h : Ranged lo mid us) (h' : Ranged mid hi vs) : Ranged lo hi (us ++ vs) := by
  unfold Ranged extents
  rw [List.map_append]
  exact InOrder.append h h'

theorem split (h : Ranged lo hi (us ++ vs)) : ∃ mid, Ranged lo mid us ∧ Ranged mid hi vs := by
  unfold Ranged extents at h
  rw [List.map_append] at h
  exact h.split

theorem bounds (h : Ranged lo hi used) (ht : t ∈ used) :
    lo ≤ t.span.start ∧ t.span.start < t.span.stop ∧ t.span.stop ≤ hi :=
  InOrder.bounds h (List.mem_map_of_mem ht)

/-- Some of the tokens between two offsets are between them as well. -/
theorem sublist (h : Ranged lo hi used) (hs : us.Sublist used) : Ranged lo hi us :=
  InOrder.sublist h (hs.map _)

end Ranged

/-! ## Spans over tokens -/

/-- A span over some tokens, from the start of the first to the stop of the last one. -/
def Exact (source : UInt16) (used : List Lexeme) (span : Span) : Prop :=
  ∃ first last, used.head? = some first ∧ used.getLast? = some last ∧
    span = ⟨source, first.span.start, last.span.stop⟩

/-- A span over some tokens.  Where these stand in order it is a tight one. -/
structure Covers (source : UInt16) (used : List Lexeme) (span : Span) : Prop where
  source_eq : span.source = source
  start_mem : ∃ t ∈ used, span.start = t.span.start
  stop_mem : ∃ t ∈ used, span.stop = t.span.stop
  tight : ∀ lo hi, Ranged lo hi used → Ranged span.start span.stop used

variable {source : UInt16}

theorem Exact.covers {used : List Lexeme} {span : Span} (h : Exact source used span) :
    Covers source used span := by
  obtain ⟨first, last, hfirst, hlast, rfl⟩ := h
  refine ⟨rfl, ⟨first, List.mem_of_mem_head? hfirst, rfl⟩,
    ⟨last, List.mem_of_getLast? hlast, rfl⟩, fun lo hi h => ?_⟩
  have hhead : (extents used).head? = some ⟨first.span.start, first.span.stop⟩ := by
    rw [extents, List.head?_map, hfirst, Option.map_some]
  have hgetLast : (extents used).getLast? = some ⟨last.span.start, last.span.stop⟩ := by
    rw [extents, List.getLast?_map, hlast, Option.map_some]
  exact InOrder.tight h hhead hgetLast

namespace Covers

variable {used us vs : List Lexeme} {span s s' : Span}

theorem ne_nil (h : Covers source used span) : used ≠ [] := by
  obtain ⟨t, ht, -⟩ := h.start_mem
  exact List.ne_nil_of_mem ht

theorem bounds {lo hi : Nat} (h : Covers source used span) (hr : Ranged lo hi used) :
    lo ≤ span.start ∧ span.start < span.stop ∧ span.stop ≤ hi := by
  obtain ⟨t, ht, hstart⟩ := h.start_mem
  obtain ⟨t', ht', hstop⟩ := h.stop_mem
  have h1 := hr.bounds ht
  have h2 := hr.bounds ht'
  have h3 := (h.tight lo hi hr).bounds ht
  omega

/-- Where tokens stand in order, a span over them starts with the first one. -/
theorem start_eq {lo hi : Nat} {first : Lexeme} {rest : List Lexeme}
    (h : Covers source (first :: rest) span) (hr : Ranged lo hi (first :: rest)) :
    span.start = first.span.start := by
  obtain ⟨t, ht, hstart⟩ := h.start_mem
  have hfirst := (h.tight _ _ hr).bounds (t := first) (by simp)
  have hrest := (ranged_cons.1 hr).2.2
  rcases List.mem_cons.1 ht with rfl | ht
  · exact hstart
  · have := hrest.bounds ht
    omega

/-- Where tokens stand in order, a span over them stops with the last one. -/
theorem stop_eq {lo hi : Nat} {last : Lexeme} (h : Covers source (us ++ [last]) span)
    (hr : Ranged lo hi (us ++ [last])) : span.stop = last.span.stop := by
  obtain ⟨t, ht, hstop⟩ := h.stop_mem
  have hlast := (h.tight _ _ hr).bounds (t := last) (by simp)
  obtain ⟨mid, hus, hmid⟩ := hr.split
  have hmid := hmid.bounds (t := last) (by simp)
  rcases List.mem_append.1 ht with ht | ht
  · have := hus.bounds ht
    omega
  · cases List.mem_singleton.1 ht
    exact hstop

/-- Where tokens stand in order, the span between the first and the last one is that between
delimiters. -/
theorem inner_eq {lo hi : Nat} {opening closing : Lexeme}
    (h : Covers source (opening :: (us ++ [closing])) span)
    (hr : Ranged lo hi (opening :: (us ++ [closing]))) :
    span.inner.source = source ∧ span.inner.start = opening.span.start + 1 ∧
      span.inner.stop + 1 = closing.span.stop ∧ opening.span.stop ≤ closing.span.start := by
  have hstart := h.start_eq hr
  have hstop : span.stop = closing.span.stop := by
    rw [← List.cons_append] at h hr
    exact h.stop_eq hr
  have hopening := hr.bounds (t := opening) (by simp)
  have hclosing := hr.bounds (t := closing) (by simp)
  have hle := (ranged_cons.1 hr).2.2.bounds (t := closing) (by simp)
  have hlength : 2 ≤ span.length := by
    unfold Span.length
    omega
  unfold Span.inner
  rw [if_pos hlength]
  dsimp only
  exact ⟨h.source_eq, by omega, by omega, by omega⟩

/-- Spans over tokens one after the other are covered by one over all of these tokens. -/
theorem cover (h : Covers source us s) (gap : List Lexeme) (h' : Covers source vs s') :
    Covers source (us ++ (gap ++ vs)) (s.cover s') := by
  obtain ⟨t, ht, hstart⟩ := h.start_mem
  obtain ⟨u, hu, hstop⟩ := h.stop_mem
  obtain ⟨t', ht', hstart'⟩ := h'.start_mem
  obtain ⟨u', hu', hstop'⟩ := h'.stop_mem
  refine ⟨h.source_eq, ?_, ?_, fun lo hi hr => ?_⟩
  · rcases Nat.le_total s.start s'.start with hle | hle
    · exact ⟨t, by simp [ht], (Nat.min_eq_left hle).trans hstart⟩
    · exact ⟨t', by simp [ht'], (Nat.min_eq_right hle).trans hstart'⟩
  · rcases Nat.le_total s.stop s'.stop with hle | hle
    · exact ⟨u', by simp [hu'], (Nat.max_eq_right hle).trans hstop'⟩
    · exact ⟨u, by simp [hu], (Nat.max_eq_left hle).trans hstop⟩
  · obtain ⟨m, hus, hr⟩ := hr.split
    obtain ⟨m', hgap, hvs⟩ := hr.split
    have hb := h.bounds hus
    have hb' := h'.bounds hvs
    have hle := hgap.le
    have hmin : (s.cover s').start = s.start := Nat.min_eq_left (by omega)
    have hmax : (s.cover s').stop = s'.stop := Nat.max_eq_right (by omega)
    rw [hmin, hmax]
    exact (h.tight _ _ hus).append ((hgap.widen hb.2.2 hb'.1).append (h'.tight _ _ hvs))

end Covers

/-! ## Spelling -/

/-- Nodes and their tokens, one after the other.  There may be tokens before, between and after
those of the nodes. -/
inductive InTurn (R : SyntaxNode → List Lexeme → Prop) : List SyntaxNode → List Lexeme → Prop
  | nil {used : List Lexeme} : InTurn R [] used
  | skip {ns : List SyntaxNode} {t : Lexeme} {used : List Lexeme} :
    InTurn R ns used → InTurn R ns (t :: used)
  | cons {n : SyntaxNode} {ns : List SyntaxNode} {us vs : List Lexeme} :
    R n us → InTurn R ns vs → InTurn R (n :: ns) (us ++ vs)

/-- A node and the tokens it was read from. -/
inductive SyntaxNode.Spelled (source : UInt16) : SyntaxNode → List Lexeme → Prop
  | whole {n : SyntaxNode} {used : List Lexeme} :
    Covers source used n.span → (∀ kind ∈ n.token?, ∃ t, used = [t] ∧ t.node = kind) →
      n.closer? = none → InTurn (SyntaxNode.Spelled source) n.parts used →
      SyntaxNode.Spelled source n used
  | closed {n : SyntaxNode} {us : List Lexeme} {t : Lexeme} :
    Covers source (us ++ [t]) n.span → n.token? = none → n.closer? = some t.node →
      InTurn (SyntaxNode.Spelled source) n.parts us → SyntaxNode.Spelled source n (us ++ [t])
  /-- the inner one of two borrows starts inside of their token -/
  | doubleBorrow {mutSpan : Option Span} {operand : Expr} {full : Span} {t : Lexeme}
      {us : List Lexeme} :
    t.node = .digraph .and → Covers source (t :: us) full →
      InTurn (SyntaxNode.Spelled source) (ExprKind.borrow mutSpan operand).parts us →
      SyntaxNode.Spelled source (.expr ⟨.borrow none
        ⟨.borrow mutSpan operand, { full with start := t.span.start + 1 }⟩, full⟩) (t :: us)
  /-- what is given up between delimiters has the span between them -/
  | skipped {opening closing : Lexeme} {us : List Lexeme} {full : Span} :
    Covers source (opening :: (us ++ [closing])) full →
      SyntaxNode.Spelled source (.expr ⟨.error, full.inner⟩) (opening :: (us ++ [closing]))

/-- A node which is spelled with some tokens, or the inner one of two borrows. -/
inductive SyntaxNode.Placed (source : UInt16) : SyntaxNode → List Lexeme → Prop
  | spelled {n : SyntaxNode} {used : List Lexeme} :
    n.Spelled source used → SyntaxNode.Placed source n used
  | inner {mutSpan : Option Span} {operand : Expr} {full : Span} {t : Lexeme} {us : List Lexeme} :
    t.node = .digraph .and → Covers source (t :: us) full →
      InTurn (SyntaxNode.Spelled source) (ExprKind.borrow mutSpan operand).parts us →
      SyntaxNode.Placed source
        (.expr ⟨.borrow mutSpan operand, { full with start := t.span.start + 1 }⟩) (t :: us)

namespace InTurn

variable {R R' : SyntaxNode → List Lexeme → Prop} {n : SyntaxNode} {ns ms : List SyntaxNode}
  {us vs used : List Lexeme}

theorem mono (h : InTurn R ns used) (hr : ∀ n us, R n us → R' n us) : InTurn R' ns used := by
  induction h with
  | nil => exact .nil
  | skip _ ih => exact .skip ih
  | cons hn _ ih => exact .cons (hr _ _ hn) ih

theorem skipAll (gap : List Lexeme) (h : InTurn R ns us) : InTurn R ns (gap ++ us) := by
  induction gap with
  | nil => exact h
  | cons t gap ih => exact .skip ih

theorem append (h : InTurn R ns us) (h' : InTurn R ms vs) : InTurn R (ns ++ ms) (us ++ vs) := by
  induction h with
  | nil => exact h'.skipAll _
  | skip _ ih => exact .skip ih
  | cons hn _ ih =>
    rw [List.append_assoc]
    exact .cons hn ih

theorem followed (h : InTurn R ns us) (gap : List Lexeme) : InTurn R ns (us ++ gap) := by
  have hall : InTurn R (ns ++ []) (us ++ gap) := h.append .nil
  rwa [List.append_nil] at hall

theorem single (h : R n us) : InTurn R [n] us := by
  have hall : InTurn R [n] (us ++ []) := .cons h .nil
  rwa [List.append_nil] at hall

/-- Each of the nodes has tokens among all of them. -/
theorem mem (h : InTurn R ns used) (hn : n ∈ ns) : ∃ us, us <:+: used ∧ R n us := by
  induction h with
  | nil => cases hn
  | skip _ ih =>
    obtain ⟨us, hus, hr⟩ := ih hn
    exact ⟨us, hus.trans (List.suffix_cons _ _).isInfix, hr⟩
  | @cons m ns us vs hm _ ih =>
    rcases List.mem_cons.1 hn with rfl | hn
    · exact ⟨us, (List.prefix_append _ _).isInfix, hm⟩
    · obtain ⟨ws, hws, hr⟩ := ih hn
      exact ⟨ws, hws.trans (List.suffix_append _ _).isInfix, hr⟩

end InTurn

namespace SyntaxNode.Placed

variable {n m : SyntaxNode} {used : List Lexeme}

/-- The parts of a node are spelled with some of its tokens, but for the inner one of two
borrows. -/
theorem parts (h : n.Placed source used) : InTurn (Placed source) n.parts used := by
  have placed : ∀ {ns us}, InTurn (Spelled source) ns us → InTurn (Placed source) ns us :=
    fun hturn => hturn.mono fun _ _ hn => .spelled hn
  cases h with
  | spelled h =>
    cases h with
    | whole _ _ _ hparts => exact placed hparts
    | closed _ _ _ hparts => exact (placed hparts).followed _
    | doubleBorrow ht hcovers hparts => exact .single (.inner ht hcovers hparts)
    | skipped => exact .nil
  | inner _ _ hparts => exact .skip (placed hparts)

/-- **Whatever is within a node is spelled with some of its tokens**, but for the inner one of two
borrows. -/
theorem within (h : n.Placed source used) (hm : m.Within n) :
    ∃ us, us <:+: used ∧ m.Placed source us := by
  induction hm generalizing used with
  | refl => exact ⟨used, List.infix_refl _, h⟩
  | part hpart _ ih =>
    obtain ⟨us, hus, hplaced⟩ := h.parts.mem hpart
    obtain ⟨vs, hvs, hplaced⟩ := ih hplaced
    exact ⟨vs, hvs.trans hus, hplaced⟩

/-- Where the tokens stand in order, a node lies between them. -/
theorem bounds {lo hi : Nat} (h : n.Placed source used) (hr : Ranged lo hi used) :
    lo ≤ n.span.start ∧ n.span.start ≤ n.span.stop ∧ n.span.stop ≤ hi := by
  cases h with
  | spelled h =>
    cases h with
    | whole hcovers _ _ _ =>
      have := hcovers.bounds hr
      omega
    | closed hcovers _ _ _ =>
      have := hcovers.bounds hr
      omega
    | doubleBorrow _ hcovers _ =>
      have := hcovers.bounds hr
      simp only [SyntaxNode.span]
      omega
    | @skipped opening closing us full hcovers =>
      obtain ⟨-, hstart, hstop, hle⟩ := hcovers.inner_eq hr
      have hopening := hr.bounds (t := opening) (by simp)
      have hclosing := hr.bounds (t := closing) (by simp)
      simp only [SyntaxNode.span]
      omega
  | @inner mutSpan operand full t us _ hcovers _ =>
    have hb := hcovers.bounds hr
    have ht := hr.bounds (t := t) (by simp)
    have ht' := (hcovers.tight _ _ hr).bounds (t := t) (by simp)
    simp only [SyntaxNode.span]
    omega

end SyntaxNode.Placed

/-- Where the tokens of nodes stand in order, the nodes do. -/
theorem InTurn.inOrder {lo hi : Nat} {ns : List SyntaxNode} {used : List Lexeme}
    (h : InTurn (SyntaxNode.Placed source) ns used) (hr : Ranged lo hi used) :
    (∀ n ∈ ns, lo ≤ n.span.start ∧ n.span.stop ≤ hi) ∧
      ns.Pairwise fun a b => a.span.stop ≤ b.span.start := by
  induction h generalizing lo with
  | nil => simp
  | skip _ ih =>
    obtain ⟨h1, h2, h3⟩ := ranged_cons.1 hr
    obtain ⟨hbounds, hpairs⟩ := ih h3
    refine ⟨fun n hn => ?_, hpairs⟩
    have := hbounds n hn
    omega
  | @cons n ns us vs hn _ ih =>
    obtain ⟨mid, hus, hvs⟩ := hr.split
    have hfirst := hn.bounds hus
    obtain ⟨hbounds, hpairs⟩ := ih hvs
    refine ⟨fun m hm => ?_, .cons (fun m hm => ?_) hpairs⟩
    · rcases List.mem_cons.1 hm with rfl | hm
      · have := hvs.le
        omega
      · have := hbounds m hm
        have := hus.le
        omega
    · have := hbounds m hm
      omega

/-- **Where the tokens of a node stand in order, its parts do, and lie within it.** -/
theorem SyntaxNode.Placed.parts_inOrder {lo hi : Nat} {n : SyntaxNode} {used : List Lexeme}
    (h : n.Placed source used) (hr : Ranged lo hi used) :
    (∀ part ∈ n.parts, n.span.start ≤ part.span.start ∧ part.span.stop ≤ n.span.stop) ∧
      n.parts.Pairwise fun a b => a.span.stop ≤ b.span.start := by
  have hparts := h.parts
  cases h with
  | spelled h =>
    cases h with
    | whole hcovers _ _ _ => exact hparts.inOrder (hcovers.tight _ _ hr)
    | closed hcovers _ _ _ => exact hparts.inOrder (hcovers.tight _ _ hr)
    | doubleBorrow _ hcovers _ => exact hparts.inOrder (hcovers.tight _ _ hr)
    | skipped => exact ⟨by simp [SyntaxNode.parts, ExprKind.parts], .nil⟩
  | @inner mutSpan operand full t us _ hcovers hspelled =>
    -- the parts come after the token of both borrows
    obtain ⟨-, hlt, hus⟩ := ranged_cons.1 (hcovers.tight _ _ hr)
    have hplaced := hspelled.mono fun _ _ hn => SyntaxNode.Placed.spelled hn
    exact hplaced.inOrder (hus.widen hlt (Nat.le_refl _))

end LunSyntax
