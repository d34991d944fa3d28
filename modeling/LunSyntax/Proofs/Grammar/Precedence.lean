import LunSyntax.Proofs.Grammar.Heads
import LunSyntax.Proofs.Grammar.Merging

/-!
# Operators are parsed as they are grouped

The levels of operators, from suffixes to assignments, over any parser of primary expressions.

* `LevelTakes`: the parser of a level takes all expressions of this level or a tighter one.  There
  is one lemma for each level;
* `postfixed_spine`, `binary_spine`: operators of one level are taken along the spine of operands
  on which they stand.  The tokens of an expression are not read by one rule: its left operand is
  read first, and what a repetition reads after that is folded into it.
-/

set_option autoImplicit false

namespace LunSyntax

namespace Grammar

open LunSyntax.Parser

/-! ## What parsers of a depth take -/

/-- A parser takes the canonical expressions of a level or a tighter one, if there are few enough
tokens for its depth. -/
def LevelTakes (n l : Nat) (p : Parser Expr) : Prop :=
  ∀ (e : Expr) (vs : List TokenKind) (jumps : Bool), l ≤ e.level → e.canonical jumps = true →
    Follow l jumps vs → (e.render ++ vs).length < n →
    Takes p e.render vs fun x => x.eraseSpans = e.eraseSpans

/-- A parser of expressions takes the canonical ones and refuses what starts none. -/
structure ExprTakes (n : Nat) (p : Parser Expr) : Prop where
  takes : LevelTakes n 0 p
  refuses : ∀ {ts : List TokenKind}, (∀ t ∈ ts.head?, t.startsExpr = false) → Refuses p ts

variable {n l : Nat} {expr operand : Parser Expr} {us vs ws : List TokenKind}

/-! ## Operands and what follows them -/

theorem renderArgs_follow (args : List Expr) :
    Follow 0 true (renderArgs args ++ .control ')' :: vs) := by
  cases args with
  | nil => exact .closing rfl rfl true
  | cons arg rest =>
    rw [renderArgs]
    exact .closing rfl rfl true

theorem args_take (he : ExprTakes n expr) (args : List Expr) (h : canonicalArgs args = true)
    (hlen : (renderArgs args ++ .control ')' :: vs).length < n) :
    Takes (separated expr (.control ',')) (renderArgs args) (.control ')' :: vs)
      fun xs => eraseArgs xs = eraseArgs args := by
  induction args with
  | nil => exact .separatedNil (by simp) rfl
  | cons arg rest ih =>
    rw [canonicalArgs, Bool.and_eq_true] at h
    rw [renderArgs] at hlen ⊢
    simp only [List.cons_append, List.append_assoc, List.length_cons] at hlen
    refine .separatedCons (he.takes arg _ true (Nat.zero_le _) h.1 (renderArgs_follow rest)
      (by omega)) fun x hx => ?_
    refine .mono (ih h.2 (by rw [List.length_append] at hlen; omega)) fun xs hxs => ?_
    rw [eraseArgs, eraseArgs, hx, hxs]

theorem arguments_takes (he : ExprTakes n expr) (args : Arguments) (h : args.canonical = true)
    (hlen : (args.render ++ vs).length ≤ n) :
    Takes (arguments expr) args.render vs fun x => x.eraseSpans = args.eraseSpans := by
  obtain ⟨args, span⟩ := args
  unfold arguments
  refine .recoverDelimited (.withSpan (Q := fun xs => eraseArgs xs = eraseArgs args) ?_ ?_)
  · have hclose : Takes (control ')') [.control ')'] vs fun _ => True := .just _
    cases args with
    | nil =>
      have hargs : Takes (sepBy expr (control ',')) [] (.control ')' :: vs)
          fun xs => eraseArgs xs = eraseArgs [] := by
        refine .sepByNil (he.refuses ?_) rfl
        rintro _ ⟨⟩
        rfl
      exact .justBind (.bind hargs fun xs hxs => .bindPure hclose fun _ _ => hxs)
    | cons arg rest =>
      rw [Arguments.canonical, canonicalArgs, Bool.and_eq_true] at h
      simp only [Arguments.render, List.cons_append, List.append_assoc, List.nil_append,
        List.length_cons] at hlen
      have hargs : Takes (sepBy expr (control ',')) (arg.render ++ renderArgs rest)
          (.control ')' :: vs) fun xs => eraseArgs xs = eraseArgs (arg :: rest) := by
        refine .sepByCons (by simp) (he.takes arg _ true (Nat.zero_le _) h.1
          (renderArgs_follow rest) (by omega)) fun x hx => ?_
        refine .mono (args_take he rest h.2 (by rw [List.length_append] at hlen; omega))
          fun xs hxs => ?_
        rw [eraseArgs, eraseArgs, hx, hxs]
      refine .justBind ?_
      refine .bind hargs fun xs hxs => ?_
      exact .bindPure hclose fun _ _ => hxs
  · intro xs span hxs
    rw [Arguments.eraseSpans, Arguments.eraseSpans, hxs]

/-- What has the level of suffixes is an operand and one suffix. -/
theorem suffix_takes (he : ExprTakes n expr) (e : Expr) {jumps : Bool} (hl : e.level = 12)
    (h : e.canonical jumps = true) :
    ∃ base ∈ e.operands, ∃ t us, e.render = base.render ++ t :: us ∧ t.tightness = some 12 ∧
      12 ≤ base.level ∧ base.canonical false = true ∧
      ∀ vs, (t :: us ++ vs).length ≤ n → Takes (suffix expr) (t :: us) vs fun s =>
        ∀ x : Expr, x.eraseSpans = base.eraseSpans →
          (applySuffix x s).eraseSpans = e.eraseSpans := by
  obtain ⟨kind, span⟩ := e
  cases kind with
  | deref base =>
    simp only [Expr.canonical, ExprKind.canonical, Bool.and_eq_true, decide_eq_true_eq] at h
    refine ⟨base, by simp [Expr.operands], _, _, rfl, rfl, h.1, h.2, fun vs _ => ?_⟩
    refine .withSpan (Q := fun s => s = .deref) ?_ ?_
    · refine .nextOf (.map (arguments_refuses (by simp))) fun _ => ?_
      refine .nextOf (.bind (.just (by simp))) fun _ => ?_
      refine .firstOf (.map (.just _) ?_)
      exact fun _ _ => rfl
    · rintro _ span rfl x hx
      simp [applySuffix, Expr.eraseSpans, ExprKind.eraseSpans, hx]
  | call base args =>
    simp only [Expr.canonical, ExprKind.canonical, Bool.and_eq_true, decide_eq_true_eq] at h
    obtain ⟨us, hus⟩ := args.render_head
    refine ⟨base, by simp [Expr.operands], .control '(', us, ?_, rfl, h.1.1, h.1.2,
      fun vs hlen => ?_⟩
    · rw [← hus]
      rfl
    · rw [← hus] at hlen ⊢
      refine .withSpan (Q := fun s => ∃ xs, s = .call xs ∧ xs.eraseSpans = args.eraseSpans)
        (.firstOf (.map (arguments_takes he args h.2 hlen) fun xs hxs => ⟨xs, rfl, hxs⟩)) ?_
      rintro _ span ⟨xs, rfl, hxs⟩ x hx
      simp [applySuffix, Expr.eraseSpans, ExprKind.eraseSpans, hx, hxs]
  | field base name =>
    simp only [Expr.canonical, ExprKind.canonical, Bool.and_eq_true, decide_eq_true_eq] at h
    refine ⟨base, by simp [Expr.operands], _, _, rfl, rfl, h.1, h.2, fun vs _ => ?_⟩
    refine .withSpan (Q := fun s => ∃ x, s = .field x ∧ x.eraseSpan = name.eraseSpan) ?_ ?_
    · refine .nextOf (.map (arguments_refuses (by simp))) fun _ =>
        .firstOf (.justBind (.bindPure (ident_takes name) fun x hx => ⟨x, rfl, hx⟩))
    · rintro _ span ⟨x, rfl, hx⟩ y hy
      simp [applySuffix, Expr.eraseSpans, ExprKind.eraseSpans, hx, hy]
  | binary lhs op rhs =>
    have := op.node.level_le
    simp only [Expr.level, ExprKind.level] at hl
    omega
  | _ => cases hl

/-- Suffixes are taken along the spine of what they stand behind: whatever takes the tokens after
an operand takes them after its suffixes. -/
theorem postfixed_spine (hp : LevelTakes (n + 1) 13 operand) (he : ExprTakes n expr)
    {R : Expr → Prop} (e : Expr) {jumps : Bool} (hl : 12 ≤ e.level) (h : e.canonical jumps = true)
    (hfollow : Follow 13 jumps (ws ++ vs)) (hlen : (e.render ++ (ws ++ vs)).length ≤ n)
    (hrest : ∀ x : Expr, x.eraseSpans = e.eraseSpans →
      Takes (many (suffix expr)) ws vs fun ss => R (ss.foldl applySuffix x)) :
    Takes (postfixed operand expr) (e.render ++ ws) vs R := by
  induction e using Expr.operand_induction generalizing jumps ws with | step e ih => ?_
  by_cases hl' : e.level = 12
  · obtain ⟨base, hmem, t, us, hrender, ht, hbase, hcanon, htake⟩ := suffix_takes he e hl' h
    rw [hrender] at hlen
    simp only [List.append_assoc, List.cons_append] at hlen
    rw [hrender, List.append_assoc]
    -- the suffix is what a repetition reads first after the base
    refine ih base hmem hbase hcanon (.cons ?_) (by simpa using hlen) fun x hx => ?_
    · rw [ht]
      rintro _ ⟨⟩
      decide
    · refine .manyCons (List.cons_ne_nil _ _) (htake _ ?_) fun s hs => hrest _ (hs x hx)
      rw [List.length_append] at hlen
      simp only [List.cons_append] at hlen ⊢
      omega
  · rw [postfixed_eq]
    refine .bind (hp e _ jumps (by omega) h hfollow (by omega)) fun x hx => ?_
    exact .bindPure (hrest x hx) fun _ h => h

theorem postfixed_takes (hp : LevelTakes (n + 1) 13 operand) (he : ExprTakes n expr) :
    LevelTakes (n + 1) 12 (postfixed operand expr) := by
  intro e vs jumps hl h hfollow hlen
  rw [← e.render.append_nil]
  refine postfixed_spine hp he e hl h (hfollow.tighter (by decide)) (Nat.le_of_lt_succ hlen)
    fun x hx => ?_
  have hnot {t : TokenKind} (ht : t.tightness = some 12) : t ∉ vs.head? :=
    hfollow.stops.not_mem ht (Nat.le_refl _)
  exact .manyNil (suffix_refuses (hnot rfl) (hnot rfl) (hnot rfl)) hx

/-! ## Operators before an operand -/

theorem mutSpan_takes (mutSpan : Option Span) (h : .keyword "mut" ∉ vs.head?) :
    Takes Grammar.mutSpan (mutTokens mutSpan) vs fun m =>
      (m.map fun _ => noSpan) = mutSpan.map fun _ => noSpan := by
  cases mutSpan with
  | none => exact .optionalNone (.withSpan (.just h)) rfl
  | some span => exact .optionalSome (.withSpan (.just _) fun _ _ _ => rfl)

/-- What has the level of leads is one lead and an operand. -/
theorem lead_takes (e : Expr) {jumps : Bool} (hl : e.level = 11) (h : e.canonical jumps = true) :
    ∃ o ∈ e.operands, ∃ us, e.render = us ++ o.render ∧ us ≠ [] ∧ 11 ≤ o.level ∧
      o.canonical false = true ∧
      ∀ vs, Takes lead us (o.render ++ vs) fun s =>
        ∀ x : Expr, x.eraseSpans = o.eraseSpans → (applyLead s x).eraseSpans = e.eraseSpans := by
  obtain ⟨kind, span⟩ := e
  cases kind with
  | unary op o =>
    simp only [Expr.canonical, ExprKind.canonical, Bool.and_eq_true, decide_eq_true_eq] at h
    refine ⟨o, by simp [Expr.operands], [op.node.token], rfl, by simp, h.1, h.2, fun vs => ?_⟩
    refine .withSpan (Q := fun s => s = .unary op.node) ?_ ?_
    · obtain ⟨op, span⟩ := op
      cases op with
      | neg => exact .firstOf (.map (.just _) fun _ _ => rfl)
      | not =>
        refine .nextOf (.map (.just (by simp [UnOp.token]))) fun _ => .firstOf (.map (.just _) ?_)
        exact fun _ _ => rfl
    · rintro _ span rfl x hx
      simp [applyLead, Expr.eraseSpans, ExprKind.eraseSpans, Spanned.eraseSpan, hx]
  | borrow mutSpan o =>
    simp only [Expr.canonical, ExprKind.canonical, Bool.and_eq_true, decide_eq_true_eq] at h
    refine ⟨o, by simp [Expr.operands], .control '&' :: mutTokens mutSpan, rfl, by simp, h.1, h.2,
      fun vs => ?_⟩
    have hmut : .keyword "mut" ∉ (o.render ++ vs).head? := o.not_mem_head h.2 rfl vs
    refine .withSpan (Q := fun s => ∃ m, s = .borrow m ∧
      (m.map fun _ => noSpan) = mutSpan.map fun _ => noSpan) ?_ ?_
    · refine .nextOf (.map (.just (by simp))) fun _ => ?_
      refine .nextOf (.map (.just (by simp))) fun _ => ?_
      refine .firstOf (.justBind (.bindPure (mutSpan_takes mutSpan hmut) ?_))
      exact fun m hm => ⟨m, rfl, hm⟩
    · rintro _ span ⟨m, rfl, hm⟩ x hx
      simp [applyLead, Expr.eraseSpans, ExprKind.eraseSpans, hx, hm]
  | binary lhs op rhs =>
    have := op.node.level_le
    simp only [Expr.level, ExprKind.level] at hl
    omega
  | _ => cases hl

/-- An expression is its leads and what stands after them. -/
theorem leads_take (e : Expr) {jumps : Bool} (hl : 11 ≤ e.level) (h : e.canonical jumps = true)
    (hfollow : Follow 11 jumps vs) :
    ∃ us, ∃ core : Expr, ∃ jumps', e.render = us ++ core.render ∧ 12 ≤ core.level ∧
      core.canonical jumps' = true ∧ Follow 11 jumps' vs ∧
      Takes (many lead) us (core.render ++ vs) fun ls =>
        ∀ x : Expr, x.eraseSpans = core.eraseSpans →
          (ls.foldr applyLead x).eraseSpans = e.eraseSpans := by
  induction e using Expr.operand_induction generalizing jumps with | step e ih => ?_
  by_cases hl' : e.level = 11
  · obtain ⟨o, hmem, us, hrender, hne, ho, hcanon, htake⟩ := lead_takes e hl' h
    obtain ⟨us', core, jumps', hrender', hcore, hcanon', hfollow', htakes⟩ :=
      ih o hmem ho hcanon (.operand hfollow.stops)
    refine ⟨us ++ us', core, jumps', ?_, hcore, hcanon', hfollow', ?_⟩
    · rw [hrender, hrender', List.append_assoc]
    · have hlead := htake vs
      rw [hrender', List.append_assoc] at hlead
      refine .manyCons hne hlead fun s hs => .mono htakes fun ls hls x hx => ?_
      exact hs _ (hls x hx)
  · refine ⟨[], e, jumps, rfl, by omega, h, hfollow, .manyNil (lead_refuses ?_) fun x hx => hx⟩
    obtain ⟨t, ts, hrender, -, hstart⟩ := e.head_of_canonical h
    rw [hrender]
    rintro _ ⟨⟩
    exact startsLead_of_startsOperand (hstart (by omega))

theorem unary_takes (hp : LevelTakes (n + 1) 13 operand) (he : ExprTakes n expr) :
    LevelTakes (n + 1) 11 (unary operand expr) := by
  intro e vs jumps hl h hfollow hlen
  obtain ⟨us, core, jumps', hrender, hcore, hcanon, hfollow', htakes⟩ := leads_take e hl h hfollow
  rw [hrender] at hlen ⊢
  rw [unary_eq]
  refine .bind htakes fun ls hls => ?_
  refine .bindPure (postfixed_takes hp he core vs jumps' hcore hcanon
    (hfollow'.tighter (by decide)) ?_) fun x hx => hls x hx
  simp only [List.length_append] at hlen ⊢
  omega

/-! ## Operators between operands -/

/-- A parser takes the tokens of some operators, and only these. -/
structure Picks (ops : List BinOp) (p : Parser BinOp) : Prop where
  takes : ∀ op ∈ ops, ∀ vs, Takes p [op.token] vs (· = op)
  refuses : ∀ {ts : List TokenKind}, (∀ op ∈ ops, op.token ∉ ts.head?) → Refuses p ts

namespace Picks

theorem one (op : BinOp) : Picks [op] (binOp op) where
  takes := by
    intro op' hmem vs
    cases List.mem_singleton.1 hmem
    exact .map (.just _) fun _ _ => rfl
  refuses := fun h => .map (.just (h op (by simp)))

theorem or {ops ops' : List BinOp} {p q : Parser BinOp} (hp : Picks ops p) (hq : Picks ops' q) :
    Picks (ops ++ ops') (p.or q) where
  takes := by
    intro op hmem vs
    by_cases hop : op ∈ ops
    · exact .orLeft (hp.takes op hop vs)
    · have hop' := (List.mem_append.1 hmem).resolve_left hop
      refine .orRight (hp.refuses fun o ho hhead => hop ?_) (hq.takes op hop' vs)
      have heq : op.token = o.token := by simpa using hhead
      exact BinOp.token_injective heq ▸ ho
  refuses := fun h =>
    .or (hp.refuses fun op hop => h op (List.mem_append_left _ hop))
      (hq.refuses fun op hop => h op (List.mem_append_right _ hop))

theorem choice (ops : List BinOp) : Picks ops (Parser.choice (ops.map binOp)) where
  takes := by
    have go : ∀ (ops : List BinOp) (alt : Option Complaint), ∀ op ∈ ops, ∀ vs,
        Takes (Parser.firstOf alt (ops.map binOp)) [op.token] vs (· = op) := by
      intro ops
      induction ops with
      | nil => exact fun _ op hmem => absurd hmem (List.not_mem_nil)
      | cons o ops ih =>
        intro alt op hmem vs
        by_cases hop : op = o
        · subst hop
          exact .firstOf ((one op).takes op (by simp) vs)
        · refine .nextOf ((one o).refuses ?_) fun alt' =>
            ih alt' op ((List.mem_cons.1 hmem).resolve_left hop) vs
          intro o' ho' hhead
          cases List.mem_singleton.1 ho'
          have heq : op.token = o.token := by simpa using hhead
          exact hop (BinOp.token_injective heq)
    exact go ops none
  refuses := by
    refine fun h => .choice fun p hp => ?_
    obtain ⟨op, hop, rfl⟩ := List.mem_map.1 hp
    refine (one op).refuses fun o ho => ?_
    cases List.mem_singleton.1 ho
    exact h op hop

end Picks

/-- Operators of one level are taken along the spine of left operands. -/
theorem binary_spine {ops : List BinOp} {op : Parser BinOp} (hp : LevelTakes n (l + 1) operand)
    (hop : Picks ops op) (hops : ∀ o : BinOp, o ∈ ops ↔ o.level = l) (hrange : 1 ≤ l ∧ l ≤ 10)
    {R : Expr → Prop} (e : Expr) {jumps : Bool} (hl : l ≤ e.level) (h : e.canonical jumps = true)
    (hfollow : Follow (l + 1) jumps (ws ++ vs)) (hlen : (e.render ++ (ws ++ vs)).length < n)
    (hrest : ∀ x : Expr, x.eraseSpans = e.eraseSpans →
      Takes (many do
        let op ← operator op
        let rhs ← operand
        return (op, rhs)) ws vs fun rs => R (rs.foldl applyBinary x)) :
    Takes (binary operand op) (e.render ++ ws) vs R := by
  induction e using Expr.operand_induction generalizing jumps ws with | step e ih => ?_
  by_cases hl' : e.level = l
  · obtain ⟨lhs, o, rhs, span, rfl⟩ := Expr.eq_binary_of_level (hl' ▸ hrange)
    simp only [Expr.canonical, ExprKind.canonical, Bool.and_eq_true, decide_eq_true_eq] at h
    obtain ⟨⟨⟨hlhs, hrhs⟩, hclhs⟩, hcrhs⟩ := h
    have hlevel : o.node.level = l := hl'
    rw [Expr.render, ExprKind.render] at hlen ⊢
    simp only [List.append_assoc, List.cons_append] at hlen
    rw [List.append_assoc]
    -- this operator and its right operand are what a repetition reads first after the left one
    refine ih lhs (by simp [Expr.operands]) (hlevel ▸ hlhs) hclhs (.cons ?_)
      (by simpa using hlen) fun x hx => ?_
    · rw [o.node.tightness_token, hlevel]
      rintro _ ⟨⟩
      exact Nat.lt_succ_self _
    · refine .manyCons (List.cons_ne_nil _ _) (Q := fun r => r.1.node = o.node ∧
        r.2.eraseSpans = rhs.eraseSpans) ?_ fun r hr => hrest _ ?_
      · have hoperator : Takes (operator op) [o.node.token] (rhs.render ++ (ws ++ vs))
            fun x => x.node = o.node :=
          .withSpan (hop.takes _ ((hops _).2 hlevel) _) fun _ _ h => h
        refine .bind hoperator fun x hx => ?_
        refine .bindPure (hp rhs _ false (hlevel ▸ hrhs) hcrhs (.operand hfollow.stops) ?_)
          fun y hy => ⟨hx, hy⟩
        simp only [List.length_append, List.length_cons] at hlen ⊢
        omega
      · obtain ⟨⟨o', span'⟩, y⟩ := r
        obtain ⟨rfl, hy⟩ := hr
        simp [applyBinary, Expr.eraseSpans, ExprKind.eraseSpans, Spanned.eraseSpan, hx, hy]
  · rw [binary_eq]
    refine .bind (hp e _ jumps (by omega) h hfollow hlen) fun x hx => ?_
    exact .bindPure (hrest x hx) fun _ h => h

theorem binary_takes {ops : List BinOp} {op : Parser BinOp} (hp : LevelTakes n (l + 1) operand)
    (hop : Picks ops op) (hops : ∀ o : BinOp, o ∈ ops ↔ o.level = l) (hrange : 1 ≤ l ∧ l ≤ 10) :
    LevelTakes n l (binary operand op) := by
  intro e vs jumps hl h hfollow hlen
  rw [← e.render.append_nil]
  refine binary_spine hp hop hops hrange e hl h (hfollow.tighter (Nat.le_succ l)) hlen
    fun x hx => ?_
  refine .manyNil (.bind (.withSpan (hop.refuses fun o ho => ?_))) hx
  exact hfollow.stops.not_mem o.tightness_token (Nat.le_of_eq ((hops o).1 ho).symm)

theorem operators_take (hp : LevelTakes (n + 1) 13 operand) (he : ExprTakes n expr) :
    LevelTakes (n + 1) 1 (operators operand expr) := by
  refine binary_takes (l := 1) ?_ (.one .or) (by intro o; cases o <;> decide) (by decide)
  refine binary_takes (l := 2) ?_ (.one .and) (by intro o; cases o <;> decide) (by decide)
  refine binary_takes (l := 3) ?_ (.choice [.gt, .gte, .lt, .lte])
    (by intro o; cases o <;> decide) (by decide)
  refine binary_takes (l := 4) ?_ (.or (.one .eq) (.one .ne))
    (by intro o; cases o <;> decide) (by decide)
  refine binary_takes (l := 5) ?_ (.one .bitOr) (by intro o; cases o <;> decide) (by decide)
  refine binary_takes (l := 6) ?_ (.one .bitXor) (by intro o; cases o <;> decide) (by decide)
  refine binary_takes (l := 7) ?_ (.one .bitAnd) (by intro o; cases o <;> decide) (by decide)
  refine binary_takes (l := 8) ?_ (.or (.one .shl) (.one .shr))
    (by intro o; cases o <;> decide) (by decide)
  refine binary_takes (l := 9) ?_ (.or (.one .add) (.one .sub))
    (by intro o; cases o <;> decide) (by decide)
  refine binary_takes (l := 10) ?_ (.choice [.mul, .div, .mod])
    (by intro o; cases o <;> decide) (by decide)
  exact unary_takes hp he

/-- Where no operator follows, an operand is all there is. -/
theorem operators_take_operand {Q : Expr → Prop} (hp : Takes operand us vs Q)
    (hlead : Refuses lead (us ++ vs)) (hsuffix : Refuses (suffix expr) vs)
    (hops : ∀ op : BinOp, op.token ∉ vs.head?) : Takes (operators operand expr) us vs Q := by
  have hlevels : ∀ p ∈ levels, Refuses p vs := by
    have one : ∀ op : BinOp, Refuses (binOp op) vs := fun op => .map (.just (hops op))
    have oneOf : ∀ ops : List BinOp, Refuses (choice (ops.map binOp)) vs :=
      fun ops => (Picks.choice ops).refuses fun op _ => hops op
    simp only [levels, List.forall_mem_cons, List.not_mem_nil, false_imp_iff, implies_true,
      and_true]
    exact ⟨oneOf [.mul, .div, .mod], .or (one _) (one _), .or (one _) (one _), one _, one _, one _,
      .or (one _) (one _), oneOf [.gt, .gte, .lt, .lte], one _, one _⟩
  have fold : ∀ (ops : List (Parser BinOp)) (p : Parser Expr), (∀ op ∈ ops, Refuses op vs) →
      Takes p us vs Q → Takes (ops.foldl binary p) us vs Q := by
    intro ops
    induction ops with
    | nil => exact fun p _ h => h
    | cons op ops ih =>
      intro p hops h
      rw [List.forall_mem_cons] at hops
      refine ih _ hops.2 ?_
      rw [binary_eq]
      exact .bindManyNil h (.bind (.withSpan hops.1)) fun x hx => hx
  have hpostfixed : Takes (postfixed operand expr) us vs Q := by
    rw [postfixed_eq]
    exact .bindManyNil hp hsuffix fun x hx => hx
  refine fold levels _ hlevels ?_
  rw [unary_eq]
  refine .bindNil (Q := (· = [])) (.manyNil hlead rfl) ?_
  rintro _ rfl
  exact .bindPure hpostfixed fun x hx => hx

/-! ## Assignments -/

/-- Assignments group to the right: the value of one is all that follows. -/
theorem assigned_take (hp : LevelTakes n 1 operand) (e : Expr) {jumps : Bool}
    (h : e.canonical jumps = true) (hfollow : Follow 0 jumps vs)
    (hlen : (e.render ++ vs).length < n) :
    Takes (many do
        control '='
        operand) (.control '=' :: e.render) vs fun es =>
      ∃ x xs, es = x :: xs ∧ (assignAll x xs).eraseSpans = e.eraseSpans := by
  induction e using Expr.operand_induction generalizing jumps with | step e ih => ?_
  have hstop : Refuses (do
      control '='
      operand) vs := .bind (.just (hfollow.stops.not_mem rfl (Nat.le_refl _)))
  by_cases hl : 1 ≤ e.level
  · rw [← List.append_nil (.control '=' :: e.render)]
    refine .manyCons (List.cons_ne_nil _ _) (.justBind (hp e _ jumps hl h
      (hfollow.tighter (Nat.zero_le _)) hlen)) fun x hx => ?_
    exact .manyNil hstop ⟨x, [], rfl, hx⟩
  · obtain ⟨lhs, rhs, span, rfl⟩ := Expr.eq_assign_of_level (by omega : e.level = 0)
    simp only [Expr.canonical, ExprKind.canonical, Bool.and_eq_true, decide_eq_true_eq] at h
    obtain ⟨⟨hlhs, hclhs⟩, hcrhs⟩ := h
    rw [Expr.render, ExprKind.render] at hlen ⊢
    simp only [List.append_assoc, List.cons_append] at hlen
    refine .manyCons (List.cons_ne_nil _ _) (.justBind (hp lhs _ false hlhs hclhs
      (.cons ?_) hlen)) fun x hx => ?_
    · rintro _ ⟨⟩
      decide
    · refine .mono (ih rhs (by simp [Expr.operands]) hcrhs (.operand hfollow.stops) ?_) ?_
      · simp only [List.length_append, List.length_cons] at hlen ⊢
        omega
      · rintro _ ⟨y, ys, rfl, hy⟩
        refine ⟨x, y :: ys, rfl, ?_⟩
        simp [assignAll, assign, Expr.eraseSpans, ExprKind.eraseSpans, hx, hy]

theorem assignment_takes (hp : LevelTakes n 1 operand) : LevelTakes n 0 (assignment operand) := by
  intro e vs jumps _ h hfollow hlen
  rw [assignment_eq]
  by_cases hl : 1 ≤ e.level
  · refine .bindManyNil (hp e _ jumps hl h (hfollow.tighter (Nat.zero_le _)) hlen)
      (.bind (.just ?_)) fun x hx => hx
    exact hfollow.stops.not_mem rfl (Nat.le_refl _)
  · obtain ⟨lhs, rhs, span, rfl⟩ := Expr.eq_assign_of_level (by omega : e.level = 0)
    simp only [Expr.canonical, ExprKind.canonical, Bool.and_eq_true, decide_eq_true_eq] at h
    obtain ⟨⟨hlhs, hclhs⟩, hcrhs⟩ := h
    rw [Expr.render, ExprKind.render] at hlen ⊢
    simp only [List.append_assoc, List.cons_append] at hlen
    refine .bind (hp lhs _ false hlhs hclhs (.cons ?_) hlen) fun x hx => .bindPure
      (assigned_take hp rhs hcrhs (.operand hfollow.stops) ?_) ?_
    · rintro _ ⟨⟩
      decide
    · simp only [List.length_append, List.length_cons] at hlen ⊢
      omega
    · rintro _ ⟨y, ys, rfl, hy⟩
      simp [assignAll, assign, Expr.eraseSpans, ExprKind.eraseSpans, hx, hy]

end Grammar

end LunSyntax
