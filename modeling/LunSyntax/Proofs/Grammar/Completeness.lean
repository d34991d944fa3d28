import LunSyntax.Proofs.Grammar.Precedence
import LunSyntax.Proofs.Grammar.Soundness

/-!
# Canonical programs are parsed

What a canonical program is written with, the grammar reads as that program.

* `BlockTakes`, `ConditionalTakes`: blocks are taken whatever follows them, conditionals where no
  other branch does;
* `plain_refuses`: what does not start with a block or a loop is not taken for one in place of a
  statement;
* `within_take`: the knot;
* `parseTokens_render`: a canonical file is parsed without a diagnostic, and to itself.
-/

set_option autoImplicit false

namespace LunSyntax

namespace Grammar

open LunSyntax.Parser

/-- A parser of blocks takes the canonical ones, whatever follows. -/
structure BlockTakes (n : Nat) (p : Parser Block) : Prop where
  takes : ∀ (b : Block) (vs : List TokenKind), b.canonical = true →
    (b.render ++ vs).length < n → Takes p b.render vs fun x => x.eraseSpans = b.eraseSpans
  refuses : ∀ {ts : List TokenKind}, .control '{' ∉ ts.head? → Refuses p ts

/-- A parser of conditionals takes the canonical ones. -/
structure ConditionalTakes (n : Nat) (p : Parser Expr) : Prop where
  takes : ∀ {jumps : Bool} (e : Expr) (vs : List TokenKind), e.kind.isConditional = true →
    e.canonical jumps = true → .keyword "else" ∉ vs.head? → (e.render ++ vs).length < n →
    Takes p e.render vs fun x => x.eraseSpans = e.eraseSpans
  refuses : ∀ {ts : List TokenKind}, .keyword "if" ∉ ts.head? → Refuses p ts

variable {n l : Nat} {expr conditional : Parser Expr} {block : Parser Block}
  {vs : List TokenKind}

/-- Only the form of an expression counts, and not its span. -/
theorem withSpan_takes {p : Parser ExprKind} {kind : ExprKind} {us : List TokenKind}
    (h : Takes p us vs fun k => k.eraseSpans = kind.eraseSpans) (span : Span) :
    Takes (withSpan Expr.mk p) us vs fun x =>
      x.eraseSpans = (⟨kind, span⟩ : Expr).eraseSpans := by
  refine .withSpan h fun k span hk => ?_
  rw [Expr.eraseSpans, Expr.eraseSpans, hk]

/-! ## Blocks and loops -/

section Blocks

variable {m : Nat}

theorem block_follow (b : Block) : Follow 0 false (b.render ++ vs) := by
  obtain ⟨ts, hrender⟩ := b.render_head
  rw [hrender]
  refine .cons ?_
  rintro _ ⟨⟩

/-- A condition and the body after it. -/
theorem guarded_takes {f : Expr → Block → ExprKind} (he : ExprTakes n expr)
    (hb : BlockTakes m block) {cond : Expr} {body : Block} (hcond : cond.canonical false = true)
    (hbody : body.canonical = true) (hn : (cond.render ++ (body.render ++ vs)).length < n)
    (hm : (cond.render ++ (body.render ++ vs)).length < m) :
    Takes (do
        let cond ← expr
        let body ← block
        return f cond body) (cond.render ++ body.render) vs fun k =>
      ∃ x b, k = f x b ∧ x.eraseSpans = cond.eraseSpans ∧ b.eraseSpans = body.eraseSpans := by
  refine .bind (he.takes cond _ false (Nat.zero_le _) hcond (block_follow body) hn) fun x hx => ?_
  refine .bindPure (hb.takes body vs hbody ?_) fun b hb => ⟨x, b, rfl, hx, hb⟩
  rw [List.length_append] at hm
  omega

theorem unlabeled_takes (he : ExprTakes n expr) (hb : BlockTakes m block) (hmn : m ≤ n + 1)
    {e : Expr} {jumps : Bool} (hk : e.kind.isUnlabeled = true) (h : e.canonical jumps = true)
    (hlen : (e.render ++ vs).length < m) :
    Takes (unlabeled expr block) e.render vs fun x => x.eraseSpans = e.eraseSpans := by
  obtain ⟨kind, span⟩ := e
  refine withSpan_takes ?_ span
  simp only [Expr.canonical, Expr.render] at h hlen ⊢
  cases kind with
  | block body =>
    refine .firstOf (.map (hb.takes body vs h hlen) fun b hb => ?_)
    rw [ExprKind.eraseSpans, ExprKind.eraseSpans, hb]
  | whileLoop cond body =>
    simp only [ExprKind.canonical, Bool.and_eq_true] at h
    simp only [ExprKind.render, List.cons_append, List.append_assoc, List.length_cons] at hlen
    refine .nextOf (.map (hb.refuses (by simp [ExprKind.render]))) fun _ => .firstOf (.justBind
      (.mono (guarded_takes he hb h.1 h.2 (by omega) (by omega)) ?_))
    rintro _ ⟨x, b, rfl, hx, hb⟩
    rw [ExprKind.eraseSpans, ExprKind.eraseSpans, hx, hb]
  | forLoop var iterator body =>
    simp only [ExprKind.canonical, Bool.and_eq_true] at h
    simp only [ExprKind.render, List.cons_append, List.append_assoc, List.length_cons] at hlen
    refine .nextOf (.map (hb.refuses (by simp [ExprKind.render]))) fun _ => ?_
    refine .nextOf (.bind (.just (by simp [ExprKind.render]))) fun _ => ?_
    refine .firstOf (.justBind ?_)
    refine identBind_takes var fun v hv => .justBind
      (.mono (guarded_takes he hb h.1 h.2 (by omega) (by omega)) ?_)
    rintro _ ⟨x, b, rfl, hx, hb⟩
    rw [ExprKind.eraseSpans, ExprKind.eraseSpans, hv, hx, hb]
  | loop body =>
    simp only [ExprKind.render, List.cons_append, List.length_cons] at hlen
    refine .nextOf (.map (hb.refuses (by simp [ExprKind.render]))) fun _ => ?_
    refine .nextOf (.bind (.just (by simp [ExprKind.render]))) fun _ => ?_
    refine .nextOf (.bind (.just (by simp [ExprKind.render]))) fun _ => ?_
    refine .firstOf ?_
    refine .justBind ?_
    refine .bindPure (hb.takes body vs h (by omega)) fun b hb => ?_
    rw [ExprKind.eraseSpans, ExprKind.eraseSpans, hb]
  | _ => cases hk

theorem blockLike_takes (he : ExprTakes n expr) (hb : BlockTakes m block) (hmn : m ≤ n + 1)
    {e : Expr} {jumps : Bool} (hk : e.kind.isBlockLike = true) (h : e.canonical jumps = true)
    (hlen : (e.render ++ vs).length < m) :
    Takes (blockLike expr block) e.render vs fun x => x.eraseSpans = e.eraseSpans := by
  by_cases hu : e.kind.isUnlabeled = true
  · refine .orRight (.withSpan (.bind (ident_refuses fun name hmem => ?_)))
      (unlabeled_takes he hb hmn hu h hlen)
    obtain ⟨kind, span⟩ := e
    cases kind with
    | block body =>
      obtain ⟨ts, hrender⟩ := body.render_head
      simp [Expr.render, ExprKind.render, hrender] at hmem
    | whileLoop | forLoop | loop => simp [Expr.render, ExprKind.render] at hmem
    | _ => cases hu
  · obtain ⟨kind, span⟩ := e
    cases kind with
    | labeled label inner =>
      simp only [Expr.canonical, ExprKind.canonical, Bool.and_eq_true] at h
      simp only [Expr.render, ExprKind.render, List.cons_append, List.length_cons] at hlen ⊢
      refine .orLeft (withSpan_takes ?_ span)
      refine identBind_takes label fun name hname => ?_
      refine .justBind ?_
      refine .bindPure (unlabeled_takes he hb hmn h.1 h.2 (by omega)) fun x hx => ?_
      rw [ExprKind.eraseSpans, ExprKind.eraseSpans, hname, hx]
    | block | whileLoop | forLoop | loop => exact absurd rfl hu
    | _ => cases hk

/-- What does not start with a block or a loop is not taken for one. -/
theorem plain_refuses (hb : BlockTakes m block) (e : Expr) {jumps : Bool}
    (h : e.canonical jumps = true) (hplain : e.leftmost.kind.isBlockLike = false)
    (hstop : Stops 13 vs) : Refuses (blockLike expr block) (e.render ++ vs) := by
  induction e using Expr.operand_induction generalizing jumps vs with | step e ih => ?_
  have leaf : ∀ {t : TokenKind} {ts : List TokenKind}, e.render = t :: ts →
      t.startsBlock = false → (∀ name, t = .ident name → .control ':' ∉ (ts ++ vs).head?) →
      Refuses (blockLike expr block) (e.render ++ vs) := by
    intro t ts hrender hstart hlabel
    rw [hrender]
    refine blockLike_refuses (unlabeled_refuses (hb.refuses ?_) ?_) ?_
    · rintro ⟨⟩
      cases hstart
    · rintro _ ⟨⟩
      exact hstart
    · rintro name rest ⟨⟩
      exact hlabel name rfl
  cases hleft : e.left? with
  | some lhs =>
    have hstart := Expr.startsWith_of_left? hleft h
    obtain ⟨t, us, hrender, ht⟩ := hstart.render_eq
    rw [hrender, List.append_assoc]
    exact ih lhs hstart.mem_operands hstart.canonical (hstart.leftmost_eq ▸ hplain) (.cons ht)
  | none =>
    obtain ⟨kind, span⟩ := e
    cases kind with
    | path path =>
      obtain ⟨root, segments⟩ := path
      cases root with
      | orb => exact leaf rfl rfl (by rintro _ ⟨⟩)
      | ident name =>
        refine leaf rfl rfl fun _ _ => ?_
        cases segments with
        | nil => exact hstop.not_mem rfl (Nat.le_refl _)
        | cons segment rest => simp
    | bool value => cases value <;> exact leaf rfl rfl (by rintro _ ⟨⟩)
    | unary op operand =>
      obtain ⟨op, _⟩ := op
      cases op <;> exact leaf rfl rfl (by rintro _ ⟨⟩)
    | literal | null | paren | borrow | conditional | ret | brk | cont =>
      exact leaf rfl rfl (by rintro _ ⟨⟩)
    | binary | assign | deref | call | field => cases hleft
    | block | whileLoop | forLoop | loop | labeled => cases hplain
    | error => cases h

/-! ## Statements -/

theorem semicolon_takes (semicolon : Bool)
    (h : semicolon = false → .control ';' ∉ vs.head?) :
    Takes (optional (control ';')) (semicolonTokens semicolon) vs fun x =>
      x.isSome = semicolon := by
  cases semicolon with
  | false => exact .optionalNone (.just (h rfl)) rfl
  | true => exact .optionalSome (.mono (.just _) fun _ _ => rfl)

theorem stmt_takes (he : ExprTakes n expr) (hb : BlockTakes n block) {e : Expr} {semicolon : Bool}
    (h : e.canonical true = true) (hplain : e.startsPlain = true)
    (hfollow : e.kind.isBlockLike = true ∨ Follow 0 true (semicolonTokens semicolon ++ vs))
    (hsemi : semicolon = false → .control ';' ∉ vs.head?)
    (hlen : (e.render ++ (semicolonTokens semicolon ++ vs)).length < n) :
    Takes (stmt expr block) (e.render ++ semicolonTokens semicolon) vs fun r =>
      r.1.eraseSpans = e.eraseSpans ∧ r.2 = semicolon := by
  have hexpr : Takes ((blockLike expr block).or expr) e.render (semicolonTokens semicolon ++ vs)
      fun x => x.eraseSpans = e.eraseSpans := by
    by_cases hk : e.kind.isBlockLike = true
    · exact .orLeft (blockLike_takes he hb (Nat.le_succ n) hk h hlen)
    · have hfollow := hfollow.resolve_left hk
      refine .orRight (plain_refuses hb e h ?_ (hfollow.stops.tighter (Nat.zero_le _)))
        (he.takes e _ true (Nat.zero_le _) h hfollow hlen)
      simpa [Expr.startsPlain, hk] using hplain
  refine .bind hexpr fun x hx => ?_
  exact .bindPure (semicolon_takes semicolon hsemi) fun y hy => ⟨hx, hy⟩

theorem stmt_refuses (he : ExprTakes n expr) (hb : BlockTakes m block) :
    Refuses (stmt expr block) (.control '}' :: vs) := by
  refine .bind (.or (blockLike_refuses (unlabeled_refuses (hb.refuses (by simp)) ?_) ?_)
    (he.refuses ?_))
  · rintro _ ⟨⟩
    rfl
  · rintro name rest ⟨⟩
  · rintro _ ⟨⟩
    rfl

/-- The first token of what is left of a block. -/
theorem stmts_head {stmts : List Stmt} {lastExpr : Option Expr}
    (hstmts : canonicalStmts stmts = true) (hlast : canonicalOption lastExpr = true) :
    .control ';' ∉ (renderStmts stmts ++ renderOption lastExpr ++ .control '}' :: vs).head? := by
  cases stmts with
  | nil =>
    cases lastExpr with
    | none => simp [renderStmts, renderOption]
    | some e => exact e.not_mem_head hlast rfl _
  | cons s rest =>
    obtain ⟨e, semicolon⟩ := s
    simp only [canonicalStmts, Bool.and_eq_true] at hstmts
    rw [renderStmts, List.append_assoc, List.append_assoc, List.append_assoc]
    exact e.not_mem_head hstmts.1.1.1 rfl _

theorem eraseSpans_isBlockLike (e : Expr) : e.eraseSpans.kind.isBlockLike = e.kind.isBlockLike := by
  obtain ⟨kind, span⟩ := e
  cases kind <;> rfl

/-- A statement before others, or with a semicolon, remains one. -/
theorem splitStmts_cons {e : Expr} {semicolon : Bool} {rest : List (Expr × Bool)}
    {stmts : List Stmt} {lastExpr : Option Expr} (hrest : splitStmts rest = (stmts, lastExpr, []))
    (hlast : semicolon = false → rest ≠ [] ∧ e.kind.isBlockLike = true) :
    splitStmts ((e, semicolon) :: rest) = (⟨e, semicolon⟩ :: stmts, lastExpr, []) := by
  rw [splitStmts, hrest]
  · cases semicolon with
    | true => rfl
    | false => simp [ExprKind.needsSemicolon, (hlast rfl).2]
  · exact fun hnil hsemi => (hlast hsemi).1 hnil

/-- Something follows a statement without a semicolon, which would be the value otherwise. -/
theorem ne_nil_of_splitStmts {rs : List (Expr × Bool)} {e : Expr} {semicolon : Bool}
    {stmts stmts' : List Stmt} {lastExpr lastExpr' : Option Expr}
    (hsplit : splitStmts rs = (stmts', lastExpr', []))
    (hstmts : eraseStmts stmts' = eraseStmts stmts)
    (hlast : eraseOption lastExpr' = eraseOption lastExpr) (hfalse : semicolon = false)
    (hend : lastExpr.isSome = true ∨
      (⟨e, semicolon⟩ :: stmts : List Stmt).getLast?.all Stmt.semicolon = true) : rs ≠ [] := by
  rintro rfl
  cases hsplit
  cases stmts with
  | nil =>
    cases lastExpr with
    | none => simp [hfalse] at hend
    | some last => cases hlast
  | cons next rest =>
    obtain ⟨next, semicolon⟩ := next
    cases hstmts

theorem stmts_take (he : ExprTakes n expr) (hb : BlockTakes n block) (stmts : List Stmt)
    {lastExpr : Option Expr} (hstmts : canonicalStmts stmts = true)
    (hlast : canonicalOption lastExpr = true) (hplain : lastExpr.all Expr.startsPlain = true)
    (hend : lastExpr.isSome = true ∨ stmts.getLast?.all Stmt.semicolon = true)
    (hlen : (renderStmts stmts ++ renderOption lastExpr ++ .control '}' :: vs).length < n) :
    Takes (many (stmt expr block)) (renderStmts stmts ++ renderOption lastExpr)
      (.control '}' :: vs) fun rs => ∃ stmts' lastExpr', splitStmts rs = (stmts', lastExpr', []) ∧
        eraseStmts stmts' = eraseStmts stmts ∧ eraseOption lastExpr' = eraseOption lastExpr := by
  induction stmts with
  | nil =>
    cases lastExpr with
    | none => exact .manyNil (stmt_refuses he hb) ⟨[], none, rfl, rfl, rfl⟩
    | some e =>
      have hstmt : Takes (stmt expr block) (e.render ++ semicolonTokens false)
          (.control '}' :: vs) fun r => r.1.eraseSpans = e.eraseSpans ∧ r.2 = false :=
        stmt_takes he hb hlast hplain (.inr (.closing rfl rfl true)) (fun _ => by simp) hlen
      rw [semicolonTokens, List.append_nil] at hstmt
      change Takes _ e.render _ _
      rw [← e.render.append_nil]
      refine .manyCons (e.render_ne_nil hlast) hstmt fun r hr => .manyNil (stmt_refuses he hb) ?_
      obtain ⟨x, _⟩ := r
      obtain ⟨hx, rfl⟩ := hr
      exact ⟨[], some x, rfl, rfl, congrArg some hx⟩
  | cons s rest ih =>
    obtain ⟨e, semicolon⟩ := s
    simp only [canonicalStmts, Bool.and_eq_true, Bool.or_eq_true] at hstmts
    obtain ⟨⟨⟨hcanon, hstart⟩, hsemi⟩, hrest⟩ := hstmts
    rw [renderStmts, List.append_assoc, List.append_assoc] at hlen
    rw [renderStmts, List.append_assoc]
    refine .manyCons (by simp [e.render_ne_nil hcanon])
      (stmt_takes he hb hcanon hstart ?_ ?_ ?_) fun r hr => .mono (ih hrest ?_ ?_) ?_
    · cases semicolon with
      | true => exact .inr (.closing rfl rfl true)
      | false => exact .inl (hsemi.resolve_left (by decide))
    · exact fun _ => stmts_head hrest hlast
    · simpa using hlen
    · refine hend.imp_right fun hall => ?_
      cases rest with
      | nil => rfl
      | cons next rest => simpa using hall
    · simp only [List.length_append] at hlen ⊢
      omega
    · rintro rs ⟨stmts', lastExpr', hsplit, hstmts', hlast'⟩
      obtain ⟨x, _⟩ := r
      obtain ⟨hx, rfl⟩ := hr
      refine ⟨_, _, splitStmts_cons hsplit fun hfalse => ⟨?_, ?_⟩, ?_, hlast'⟩
      · exact ne_nil_of_splitStmts hsplit hstmts' hlast' hfalse hend
      · rw [← eraseSpans_isBlockLike, hx, eraseSpans_isBlockLike]
        exact hsemi.resolve_left (by simp [hfalse])
      · rw [eraseStmts, eraseStmts, hx, hstmts']

/-- Blocks are taken whatever follows them. -/
theorem blockOf_takes (he : ExprTakes n expr) (hb : BlockTakes n block) :
    BlockTakes (n + 1) (blockOf expr block) where
  takes := by
    intro b vs h hlen
    obtain ⟨stmts, lastExpr, span⟩ := b
    simp only [Block.canonical, Bool.and_eq_true, Bool.or_eq_true] at h
    obtain ⟨⟨⟨hstmts, hlast⟩, hplain⟩, hend⟩ := h
    rw [Block.render, List.append_assoc, List.cons_append, List.length_cons] at hlen
    have hmany := stmts_take he hb stmts hstmts hlast hplain hend (Nat.lt_of_succ_lt_succ hlen)
    unfold blockOf
    refine .recoverDelimited (.check (.justBind (.bind hmany fun rs hrs =>
      .bindPure (.just _) fun _ _ => hrs)) ?_)
    rintro rs span ⟨stmts', lastExpr', hsplit, hstmts', hlast'⟩
    rw [hsplit]
    refine ⟨rfl, ?_⟩
    rw [Block.eraseSpans, Block.eraseSpans, hstmts', hlast']
  refuses := blockOf_refuses

end Blocks

/-! ## Primary expressions -/

theorem alternative_takes (hb : BlockTakes (n + 1) block) (hc : ConditionalTakes n conditional)
    {alternative : Option Alternative} (h : canonicalAlternative alternative = true)
    (helse : .keyword "else" ∉ vs.head?)
    (hlen : (renderAlternative alternative ++ vs).length ≤ n) :
    Takes (optional do
        keyword "else"
        (Alternative.chain <$> conditional).or (Alternative.block <$> block))
      (renderAlternative alternative) vs fun a =>
        eraseAlternative a = eraseAlternative alternative := by
  rcases alternative with _ | inner | body
  · exact .optionalNone (.bind (.just helse)) rfl
  · rw [canonicalAlternative, Bool.and_eq_true] at h
    rw [renderAlternative, List.cons_append, List.length_cons] at hlen
    refine .optionalSome (.justBind (.orLeft (.map
      (hc.takes inner vs h.1 h.2 helse hlen) fun x hx => ?_)))
    rw [eraseAlternative, eraseAlternative, hx]
  · obtain ⟨ts, hrender⟩ := body.render_head
    rw [renderAlternative, List.cons_append, List.length_cons] at hlen
    refine .optionalSome (.justBind (.orRight (.map (hc.refuses (by simp [hrender]))) (.map
      (hb.takes body vs h (by omega)) fun b hb => ?_)))
    rw [eraseAlternative, eraseAlternative, hb]

theorem conditionalOf_takes (he : ExprTakes n expr) (hb : BlockTakes (n + 1) block)
    (hc : ConditionalTakes n conditional) :
    ConditionalTakes (n + 1) (conditionalOf expr block conditional) where
  takes := by
    intro jumps e vs hk h helse hlen
    obtain ⟨kind, span⟩ := e
    cases kind with
    | conditional cond consequent alternative =>
      simp only [Expr.canonical, ExprKind.canonical, Bool.and_eq_true] at h
      obtain ⟨⟨hcond, hconsequent⟩, halternative⟩ := h
      simp only [Expr.render, ExprKind.render, List.cons_append, List.append_assoc,
        List.length_cons] at hlen ⊢
      have hlen' := hlen
      simp only [List.length_append] at hlen'
      refine withSpan_takes ?_ span
      refine .justBind ?_
      refine .bind (he.takes cond _ false (Nat.zero_le _) hcond ?_ ?_)
        fun x hx => .bind (hb.takes consequent _ hconsequent ?_)
        fun b hb => .bindPure (alternative_takes ‹_› hc halternative helse ?_) fun a ha => ?_
      · rw [List.append_assoc]
        exact block_follow consequent
      · simp only [List.length_append]
        omega
      · simp only [List.length_append]
        omega
      · rw [List.length_append]
        omega
      · rw [ExprKind.eraseSpans, ExprKind.eraseSpans, hx, hb, ha]
    | _ => cases hk
  refuses := conditionalOf_refuses

theorem path_takes (path : Path) (h : .digraph .pathSep ∉ vs.head?) :
    Takes Grammar.path path.tokens vs fun x => x.eraseSpans = path.eraseSpans := by
  obtain ⟨root, segments⟩ := path
  have hroot : ∀ ts, Takes ((withSpan (fun _ span => PathRoot.orb span) (keyword "orb")).or
      (PathRoot.ident <$> ident)) [root.token] ts fun x => ∀ segments,
        (⟨x, segments⟩ : Path).eraseSpans = (⟨root, segments⟩ : Path).eraseSpans := by
    intro ts
    cases root with
    | orb span => exact .orLeft (.withSpan (.just _) fun _ _ _ _ => rfl)
    | ident name =>
      refine .orRight (.withSpan (.just (by simp [PathRoot.token, Ident.token])))
        (.map (ident_takes name) fun x hx segments => ?_)
      simp [Path.eraseSpans, hx]
  have hsegments : Takes (many do
      digraph .pathSep
      ident) (segments.flatMap fun segment => [.digraph .pathSep, segment.token]) vs fun xs =>
        xs.map Ident.eraseSpan = segments.map Ident.eraseSpan := by
    induction segments with
    | nil => exact .manyNil (.bind (.just h)) rfl
    | cons segment rest ih =>
      rw [List.flatMap_cons]
      refine .manyCons (List.cons_ne_nil _ _) (.justBind (ident_takes segment)) fun x hx =>
        .mono ih fun xs hxs => ?_
      rw [List.map_cons, List.map_cons, hx, hxs]
  rw [Path.tokens, ← List.singleton_append]
  refine .bind (hroot _) fun x hx => ?_
  refine .bindPure hsegments fun xs hxs => ?_
  have := hx segments
  simp only [Path.eraseSpans, Path.mk.injEq, and_true] at this ⊢
  exact ⟨this, hxs⟩

theorem label_takes (label : Option Ident) (h : .control ':' ∉ vs.head?) :
    Takes (optional labelRef) (labelTokens label) vs fun x =>
      x.map Ident.eraseSpan = label.map Ident.eraseSpan := by
  cases label with
  | none => exact .optionalNone (.bind (.just h)) rfl
  | some label =>
    exact .optionalSome (.justBind (.mono (ident_takes label) fun x hx => congrArg some hx))

theorem value_takes (he : ExprTakes n expr) {value : Option Expr}
    (h : canonicalOption value = true) (hfollow : Follow l true vs)
    (hlen : (renderOption value ++ vs).length < n) :
    Takes (optional expr) (renderOption value) vs fun x => eraseOption x = eraseOption value := by
  cases value with
  | none => exact .optionalNone (he.refuses (hfollow.ends rfl).2) rfl
  | some e =>
    refine .optionalSome (.mono (he.takes e vs true (Nat.zero_le _) h
      ⟨(hfollow.ends rfl).1, hfollow.ends⟩ hlen) fun x hx => ?_)
    rw [eraseOption, eraseOption, hx]

theorem path_not_mem_head (path : Path) {k : TokenKind} (horb : k ≠ .keyword "orb")
    (hident : ∀ name, k ≠ .ident name) : k ∉ (path.tokens ++ vs).head? := by
  obtain ⟨root, segments⟩ := path
  rintro ⟨⟩
  cases root with
  | orb span => exact horb rfl
  | ident name => exact hident name.name rfl

theorem simple_takes_path (path : Path) (h : .digraph .pathSep ∉ vs.head?) (span : Span) :
    Takes (simple expr) path.tokens vs fun x =>
      x.eraseSpans = (⟨.path path, span⟩ : Expr).eraseSpans := by
  have hnot {k : TokenKind} (horb : k ≠ .keyword "orb") (hident : ∀ name, k ≠ .ident name) :
      k ∉ (path.tokens ++ vs).head? := path_not_mem_head path horb hident
  refine withSpan_takes ?_ span
  refine .nextOf (literal_refuses fun _ => hnot (by simp) (by simp)) fun _ => ?_
  refine .nextOf (bool_refuses (hnot (by simp) (by simp)) (hnot (by simp) (by simp))) fun _ => ?_
  refine .nextOf (.map (.just (hnot (by simp) (by simp)))) fun _ => ?_
  refine .nextOf (.recoverDelimited (.bind (.just (hnot (by simp) (by simp))))
    (hnot (by simp [parens]) (by simp [parens]))) fun _ => ?_
  refine .nextOf (.bind (.just (hnot (by simp) (by simp)))) fun _ => ?_
  refine .nextOf (.bind (.just (hnot (by simp) (by simp)))) fun _ => ?_
  refine .nextOf (.bind (.just (hnot (by simp) (by simp)))) fun _ => ?_
  refine .firstOf (.map (path_takes path h) fun x hx => ?_)
  rw [ExprKind.eraseSpans, ExprKind.eraseSpans, hx]

theorem simple_takes_paren (he : ExprTakes n expr) {inner : Expr}
    (h : inner.canonical true = true)
    (hlen : (inner.render ++ .control ')' :: vs).length < n) (span : Span) :
    Takes (simple expr) (.control '(' :: inner.render ++ [.control ')']) vs fun x =>
      x.eraseSpans = (⟨.paren inner, span⟩ : Expr).eraseSpans := by
  refine withSpan_takes ?_ span
  refine .nextOf (literal_refuses (by simp)) fun _ => ?_
  refine .nextOf (bool_refuses (by simp) (by simp)) fun _ => ?_
  refine .nextOf (.map (.just (by simp))) fun _ => ?_
  refine .firstOf (.recoverDelimited ?_)
  refine .justBind ?_
  refine .bind (he.takes inner _ true (Nat.zero_le _) h (.closing rfl rfl true) hlen) fun x hx => ?_
  refine .bindPure (.just _) fun _ _ => ?_
  rw [ExprKind.eraseSpans, ExprKind.eraseSpans, hx]

theorem simple_takes_return (he : ExprTakes n expr) {value : Option Expr}
    (h : canonicalOption value = true) (hfollow : Follow l true vs)
    (hlen : (renderOption value ++ vs).length < n) (span : Span) :
    Takes (simple expr) (.keyword "return" :: renderOption value) vs fun x =>
      x.eraseSpans = (⟨.ret value, span⟩ : Expr).eraseSpans := by
  refine withSpan_takes ?_ span
  refine .nextOf (literal_refuses (by simp)) fun _ => ?_
  refine .nextOf (bool_refuses (by simp) (by simp)) fun _ => ?_
  refine .nextOf (.map (.just (by simp))) fun _ => ?_
  refine .nextOf (.recoverDelimited (.bind (.just (by simp))) (by simp [parens])) fun _ => ?_
  refine .firstOf ?_
  refine .justBind ?_
  refine .bindPure (value_takes he h hfollow hlen) fun x hx => ?_
  rw [ExprKind.eraseSpans, ExprKind.eraseSpans, hx]

theorem simple_takes_break (he : ExprTakes n expr) (label : Option Ident) {value : Option Expr}
    (h : canonicalOption value = true) (hfollow : Follow 13 true vs)
    (hlen : (renderOption value ++ vs).length < n) (span : Span) :
    Takes (simple expr) (.keyword "break" :: labelTokens label ++ renderOption value) vs fun x =>
      x.eraseSpans = (⟨.brk label value, span⟩ : Expr).eraseSpans := by
  have hcolon : .control ':' ∉ (renderOption value ++ vs).head? := by
    cases value with
    | none => exact hfollow.stops.not_mem rfl (Nat.le_refl _)
    | some e => exact e.not_mem_head h rfl vs
  refine withSpan_takes ?_ span
  refine .nextOf (literal_refuses (by simp)) fun _ => ?_
  refine .nextOf (bool_refuses (by simp) (by simp)) fun _ => ?_
  refine .nextOf (.map (.just (by simp))) fun _ => ?_
  refine .nextOf (.recoverDelimited (.bind (.just (by simp))) (by simp [parens])) fun _ => ?_
  refine .nextOf (.bind (.just (by simp))) fun _ => ?_
  refine .firstOf ?_
  refine .justBind ?_
  refine .bind (label_takes label hcolon) fun x hx => ?_
  refine .bindPure (value_takes he h hfollow hlen) fun y hy => ?_
  rw [ExprKind.eraseSpans, ExprKind.eraseSpans, hx, hy]

theorem simple_takes_continue (label : Option Ident) (h : .control ':' ∉ vs.head?) (span : Span) :
    Takes (simple expr) (.keyword "continue" :: labelTokens label) vs fun x =>
      x.eraseSpans = (⟨.cont label, span⟩ : Expr).eraseSpans := by
  refine withSpan_takes ?_ span
  refine .nextOf (literal_refuses (by simp)) fun _ => ?_
  refine .nextOf (bool_refuses (by simp) (by simp)) fun _ => ?_
  refine .nextOf (.map (.just (by simp))) fun _ => ?_
  refine .nextOf (.recoverDelimited (.bind (.just (by simp))) (by simp [parens])) fun _ => ?_
  refine .nextOf (.bind (.just (by simp))) fun _ => ?_
  refine .nextOf (.bind (.just (by simp))) fun _ => ?_
  refine .firstOf ?_
  refine .justBind ?_
  refine .bindPure (label_takes label h) fun x hx => ?_
  rw [ExprKind.eraseSpans, ExprKind.eraseSpans, hx]

theorem simple_takes (he : ExprTakes n expr) {e : Expr} {jumps : Bool}
    (h : e.canonical jumps = true) (hl : 13 ≤ e.level) (hk : e.kind.isBlockLike = false)
    (hc : e.kind.isConditional = false) (hfollow : Follow 13 jumps vs)
    (hlen : (e.render ++ vs).length < n + 1) :
    Takes (simple expr) e.render vs fun x => x.eraseSpans = e.eraseSpans := by
  obtain ⟨kind, span⟩ := e
  simp only [Expr.canonical, Expr.render] at h hlen ⊢
  cases kind with
  | literal lit =>
    exact withSpan_takes (.firstOf (.token fun t ht => ⟨_, by rw [ht], rfl⟩)) span
  | bool value =>
    refine withSpan_takes (.nextOf (literal_refuses (by simp [ExprKind.render])) fun _ =>
      .firstOf ?_) span
    cases value with
    | true => exact .orLeft (.map (.just _) fun _ _ => rfl)
    | false =>
      exact .orRight (.map (.just (by simp [ExprKind.render]))) (.map (.just _) fun _ _ => rfl)
  | null =>
    exact withSpan_takes (.nextOf (literal_refuses (by simp)) fun _ =>
      .nextOf (bool_refuses (by simp) (by simp)) fun _ =>
      .firstOf (.map (.just _) fun _ _ => rfl)) span
  | path path => exact simple_takes_path path (hfollow.stops.not_mem rfl (Nat.le_refl _)) span
  | paren inner =>
    refine simple_takes_paren he h ?_ span
    simpa [ExprKind.render] using hlen
  | ret value =>
    rw [ExprKind.canonical, Bool.and_eq_true] at h
    obtain ⟨rfl, hvalue⟩ := h
    exact simple_takes_return he hvalue hfollow (Nat.lt_of_succ_lt_succ hlen) span
  | brk label value =>
    rw [ExprKind.canonical, Bool.and_eq_true] at h
    obtain ⟨rfl, hvalue⟩ := h
    refine simple_takes_break he label hvalue hfollow ?_ span
    simp only [ExprKind.render, List.length_append, List.length_cons] at hlen ⊢
    omega
  | cont label => exact simple_takes_continue label (hfollow.stops.not_mem rfl (Nat.le_refl _)) span
  | binary lhs op rhs => exact absurd (Nat.le_trans hl op.node.level_le.2) (by decide)
  | conditional => cases hc
  | block | whileLoop | forLoop | loop | labeled => cases hk
  | error => cases h
  | assign | unary | borrow | deref | call | field => simp [Expr.level, ExprKind.level] at hl

theorem leftmost_of_level {e : Expr} (hl : 13 ≤ e.level) : e.leftmost = e := by
  obtain ⟨kind, span⟩ := e
  cases kind with
  | binary lhs op rhs => exact absurd (Nat.le_trans hl op.node.level_le.2) (by decide)
  | assign | deref | call | field => simp [Expr.level, ExprKind.level] at hl
  | _ => rw [Expr.leftmost] <;> simp

/-- Only conditionals start with `if`. -/
theorem if_not_mem_head {e : Expr} {jumps : Bool} (hl : 13 ≤ e.level)
    (h : e.canonical jumps = true) (hc : e.kind.isConditional = false) :
    .keyword "if" ∉ (e.render ++ vs).head? := by
  obtain ⟨kind, span⟩ := e
  cases kind with
  | bool value => cases value <;> simp [Expr.render, ExprKind.render]
  | path path => exact path_not_mem_head path (by simp) (by simp)
  | block body =>
    obtain ⟨ts, hrender⟩ := body.render_head
    simp [Expr.render, ExprKind.render, hrender]
  | binary lhs op rhs => exact absurd (Nat.le_trans hl op.node.level_le.2) (by decide)
  | assign | unary | borrow | deref | call | field => simp [Expr.level, ExprKind.level] at hl
  | conditional => cases hc
  | error => cases h
  | _ => simp [Expr.render, ExprKind.render, Ident.token]

theorem primary_takes (he : ExprTakes n expr) (hb : BlockTakes (n + 1) block)
    (hc : ConditionalTakes (n + 1) conditional) :
    LevelTakes (n + 1) 13 (primary expr block conditional true) := by
  intro e vs jumps hl h hfollow hlen
  by_cases hk : e.kind.isBlockLike = true
  · exact .firstOf (blockLike_takes he hb (Nat.le_refl _) hk h hlen)
  rw [Bool.not_eq_true] at hk
  have hplain : Refuses (blockLike expr block) (e.render ++ vs) := by
    refine plain_refuses hb e h ?_ hfollow.stops
    rw [leftmost_of_level hl, hk]
  by_cases hcond : e.kind.isConditional = true
  · exact .nextOf hplain fun _ => .firstOf (hc.takes e vs hcond h
      (hfollow.stops.not_mem rfl (Nat.le_refl _)) hlen)
  · rw [Bool.not_eq_true] at hcond
    refine .nextOf hplain fun _ => ?_
    refine .nextOf (hc.refuses (if_not_mem_head hl h hcond)) fun _ => ?_
    exact .firstOf (simple_takes he h hl hk hcond hfollow hlen)

/-! ## The knot -/

/-- The rules of a depth take what is canonical and has fewer tokens. -/
theorem within_take (n : Nat) :
    ExprTakes n (exprWithin n) ∧ BlockTakes n (blockWithin n) ∧
      ConditionalTakes n (conditionalWithin n) := by
  induction n with
  | zero =>
    refine ⟨⟨?_, fun h => exprWithin_refuses h 0⟩, ⟨?_, fun h => blockWithin_refuses h 0⟩,
      ⟨?_, fun h => conditionalWithin_refuses h 0⟩⟩
    · exact fun e vs jumps _ _ _ hlen => absurd hlen (Nat.not_lt_zero _)
    · exact fun b vs _ hlen => absurd hlen (Nat.not_lt_zero _)
    · exact fun e vs _ _ _ hlen => absurd hlen (Nat.not_lt_zero _)
  | succ n ih =>
    obtain ⟨he, hb, hc⟩ := ih
    have hb' := blockOf_takes he hb
    have hc' := conditionalOf_takes he hb' hc
    refine ⟨⟨?_, fun h => exprWithin_refuses h (n + 1)⟩, ?_, ?_⟩
    · rw [exprWithin]
      exact assignment_takes (operators_take (primary_takes he hb' hc') he)
    · rw [blockWithin]
      exact hb'
    · rw [conditionalWithin]
      exact hc'

theorem expr_takes {e : Expr} {jumps : Bool} (h : e.canonical jumps = true)
    (hfollow : Follow 0 jumps vs) :
    Takes Grammar.expr e.render vs fun x => x.eraseSpans = e.eraseSpans := by
  intro c hc
  rw [Grammar.expr, deferred_apply]
  refine (within_take (c.left + 1)).1.takes e vs jumps (Nat.zero_le _) h hfollow ?_ hc
  rw [c.left_eq_length_kinds, hc]
  exact Nat.lt_succ_self _

/-! ## Types -/

theorem primary_takes_path (path : Path) (h : .digraph .pathSep ∉ vs.head?) (span : Span) :
    Takes (primary expr (blockOf expr block)
      (conditionalOf expr (blockOf expr block) conditional) false) path.tokens vs fun x =>
        x.eraseSpans = (⟨.path path, span⟩ : Expr).eraseSpans := by
  refine .nextOf (unlabeled_refuses (blockOf_refuses (path_not_mem_head path (by simp) (by simp)))
    fun t ht => ?_) fun _ => .nextOf (conditionalOf_refuses (path_not_mem_head path (by simp)
      (by simp))) fun _ => .firstOf (simple_takes_path path h span)
  obtain ⟨root, segments⟩ := path
  cases ht
  cases root <;> rfl

theorem primitive_refuses {ts : List TokenKind}
    (h : ∀ word, .keyword word ∈ ts.head? → PrimitiveType.ofText? word = none) :
    Refuses (token (fun t => match t.node with
      | .keyword word => (PrimitiveType.ofText? word).map fun type =>
        TypeExpr.primitive ⟨type, t.span⟩
      | _ => none) []) ts := by
  refine .token fun t ht => ?_
  split
  · rename_i word hword
    rw [hword] at ht
    rw [h word ht]
    rfl
  · rfl

theorem ofText?_text (type : PrimitiveType) : PrimitiveType.ofText? type.text = some type := by
  cases type <;> decide

/-- A type is a builtin one or a path, and a path is read to its end. -/
theorem typeExpr_takes {type : TypeExpr} (h : type.canonical = true) (mutable : Bool) :
    Takes typeExpr type.render (separatorToken mutable :: vs) fun x =>
      x.eraseSpans = type.eraseSpans := by
  intro c hc
  rw [typeExpr, deferred_apply]
  refine (?_ : Takes (typeExprWithin (c.left + 1)) type.render _ _) hc
  rw [typeExprWithin]
  cases type with
  | primitive type =>
    refine .orLeft (.token fun t ht => ⟨.primitive ⟨type.node, t.span⟩, ?_, rfl⟩)
    rw [ht]
    simp [ofText?_text]
  | expr e =>
    obtain ⟨kind, span⟩ := e
    cases kind with
    | path path =>
      have hend {k : TokenKind} (hcolon : k ≠ .control ':') (hequals : k ≠ .control '=') :
          k ∉ (separatorToken mutable :: vs).head? := by
        rintro ⟨⟩
        cases mutable with
        | false => exact hcolon rfl
        | true => exact hequals rfl
      refine .orRight (primitive_refuses fun word hword => ?_) (.map (operators_take_operand
        (primary_takes_path path (hend (by simp) (by simp)) span) (lead_refuses fun t ht => ?_)
        (suffix_refuses (hend (by simp) (by simp)) (hend (by simp) (by simp))
          (hend (by simp) (by simp))) fun op => ?_) fun x hx => ?_)
      · obtain ⟨root, segments⟩ := path
        cases root with
        | orb span =>
          cases hword
          decide
        | ident name => cases hword
      · obtain ⟨t', ts, hpath, hstart⟩ := path.tokens_head
        change t ∈ (path.tokens ++ _).head? at ht
        rw [hpath] at ht
        cases ht
        exact startsLead_of_startsOperand hstart
      · exact hend (by cases op <;> decide) (by cases op <;> decide)
      · rw [TypeExpr.eraseSpans, TypeExpr.eraseSpans, hx]
    | _ => cases h

/-- No type starts with `=`. -/
theorem typeExpr_refuses : Refuses typeExpr (.control '=' :: vs) := by
  intro c hc
  rw [typeExpr, deferred_apply]
  refine (?_ : Refuses (typeExprWithin (c.left + 1)) _) hc
  rw [typeExprWithin]
  refine .or (primitive_refuses ?_) (.map (operators_refuses (primary_refuses
    (blockOf_refuses (by simp)) (conditionalOf_refuses (by simp)) ?_ false) ?_))
  · rintro word ⟨⟩
  · rintro _ ⟨⟩
    rfl
  · rintro _ ⟨⟩
    rfl

/-! ## Definitions -/

theorem separator_takes (mutable : Bool) :
    Takes (Parser.or ((fun _ => false) <$> control ':') ((fun _ => true) <$> control '='))
      [separatorToken mutable] vs (· = mutable) := by
  cases mutable with
  | false => exact .orLeft (.map (.just _) fun _ _ => rfl)
  | true => exact .orRight (.map (.just (by simp [separatorToken]))) (.map (.just _) fun _ _ => rfl)

theorem header_takes {type : Option TypeExpr} (h : type.all TypeExpr.canonical = true)
    (mutable : Bool) :
    Takes header (renderHeader type mutable) vs fun x =>
      x.1.map TypeExpr.eraseSpans = type.map TypeExpr.eraseSpans ∧ x.2 = mutable := by
  cases type with
  | none =>
    cases mutable with
    | false => exact .firstOf (.map (.just _) fun _ _ => ⟨rfl, rfl⟩)
    | true =>
      refine .nextOf (.map (.just (by simp [renderHeader]))) fun _ => .firstOf (.justBind
        (.bindNil (.optionalNone typeExpr_refuses rfl : Takes _ _ _ (· = none)) ?_))
      rintro _ rfl
      exact .bindPure (separator_takes true) fun x hx => ⟨rfl, hx⟩
  | some type =>
    have htype : Takes (optional typeExpr) type.render (separatorToken mutable :: vs) fun x =>
        x.map TypeExpr.eraseSpans = some type.eraseSpans :=
      .optionalSome (.mono (typeExpr_takes h mutable) fun x hx => congrArg some hx)
    refine .nextOf (.map (.just (by simp [renderHeader]))) fun _ => .firstOf (.justBind
      (.bind htype fun x hx => .bindPure (separator_takes mutable) fun y hy => ⟨hx, hy⟩))

/-- Blocks and loops are no jumps. -/
theorem canonical_of_isBlockLike {e : Expr} (hk : e.kind.isBlockLike = true)
    (h : e.canonical true = true) : e.canonical false = true := by
  obtain ⟨kind, span⟩ := e
  cases kind with
  | block | whileLoop | forLoop | loop | labeled => exact h
  | _ => cases hk

/-- A definition is read to its end where another one, or nothing, follows. -/
theorem definition_takes {d : GlobalDef} (h : d.canonical = true)
    (hfollow : ∀ t ∈ vs.head?, ∃ name, t = .ident name) :
    Takes definition d.render vs fun x => x.eraseSpans = d.eraseSpans := by
  obtain ⟨name, type, mutable, value, semicolon⟩ := d
  simp only [GlobalDef.canonical, Bool.and_eq_true, Bool.or_eq_true] at h
  obtain ⟨⟨htype, hcanon⟩, hsemi⟩ := h
  have hvalue : Takes Grammar.expr value.render (semicolonTokens semicolon ++ vs) fun x =>
      x.eraseSpans = value.eraseSpans := by
    cases semicolon with
    | true => exact expr_takes hcanon (.closing rfl rfl true)
    | false =>
      refine expr_takes (canonical_of_isBlockLike (hsemi.resolve_left (by decide)) hcanon)
        (.operand fun t ht k hk => ?_)
      obtain ⟨name, rfl⟩ := hfollow t ht
      cases hk
  have hend : Takes (optional (control ';')) (semicolonTokens semicolon) vs fun x =>
      x.isSome = semicolon := by
    refine semicolon_takes semicolon fun _ hmem => ?_
    obtain ⟨name, heq⟩ := hfollow _ hmem
    cases heq
  simp only [GlobalDef.render, List.cons_append, List.append_assoc]
  unfold definition
  refine .check (Q := fun x => x.eraseSpans = (⟨name, type, mutable, value, semicolon⟩ :
    GlobalDef).eraseSpans) (identBind_takes name fun x hx => ?_) fun x span hx => ⟨?_, hx⟩
  · refine .bind (header_takes htype mutable) fun y hy => ?_
    refine .bind hvalue fun z hz => ?_
    refine .bindPure hend fun w hw => ?_
    obtain ⟨type', mutable'⟩ := y
    obtain ⟨htype', rfl⟩ := hy
    simp [GlobalDef.eraseSpans, hx, htype', hz, hw]
  · obtain ⟨name', type', mutable', value', semicolon'⟩ := x
    simp only [GlobalDef.eraseSpans, GlobalDef.mk.injEq] at hx
    obtain ⟨-, -, -, hx, rfl⟩ := hx
    rcases hsemi with rfl | hk
    · rfl
    · rw [← eraseSpans_isBlockLike, ← hx, eraseSpans_isBlockLike] at hk
      simp [ExprKind.needsSemicolon, hk]

theorem items_take (items : List Item)
    (h : (items.all fun item => item.definition.canonical) = true) :
    Takes (many item) (items.flatMap fun item => item.definition.render) [] fun xs =>
      xs.map (fun x => (⟨x.definition.eraseSpans, noSpan⟩ : Item)) =
        items.map fun x => ⟨x.definition.eraseSpans, noSpan⟩ := by
  induction items with
  | nil =>
    have hdefinition : Refuses definition [] := by
      unfold definition
      exact .check (.bind (ident_refuses (by simp)))
    refine .manyNil ?_ rfl
    unfold item
    exact .recoverSkipping (.withSpan hdefinition)
  | cons item rest ih =>
    rw [List.all_cons, Bool.and_eq_true] at h
    have hitem : Takes Grammar.item item.definition.render
        ((rest.flatMap fun item => item.definition.render) ++ []) fun x =>
          x.definition.eraseSpans = item.definition.eraseSpans := by
      unfold Grammar.item
      refine .recoverSkipping (.withSpan (definition_takes h.1 fun t ht => ?_) fun d span hd => hd)
      cases rest with
      | nil => cases ht
      | cons next rest =>
        cases ht
        exact ⟨_, rfl⟩
    rw [List.flatMap_cons]
    refine .manyCons (List.cons_ne_nil _ _) hitem fun x hx => .mono (ih h.2) fun xs hxs => ?_
    rw [List.map_cons, List.map_cons, hx, hxs]

theorem sourceFile_takes {file : SourceFile} (h : file.canonical = true) :
    Takes sourceFile file.render [] fun xs =>
      xs.map (fun x => (⟨x.definition.eraseSpans, noSpan⟩ : Item)) = file.eraseSpans.items := by
  have htrailing : Refuses trailing [] := by
    have hany : Refuses any [] := .token (by rintro _ ⟨⟩)
    unfold trailing
    exact .check (.bind hany)
  rw [← file.render.append_nil]
  refine .bind (items_take file.items h) fun xs hxs => .bindNil
    (.optionalNone htrailing trivial : Takes _ _ _ fun _ => True) fun _ _ => ?_
  exact .bindPure .finish fun _ _ => hxs

end Grammar

/-- **Canonical files are parsed to themselves.**  Tokens which are, but for comments, those of a
canonical file are parsed without complaint, and to a file which differs from it in spans only. -/
theorem parseTokens_render (file : SourceFile) (tokens : List Token) (id : UInt16)
    (h : file.canonical = true) (htokens : grammarKinds tokens = file.render) :
    ∃ file', parseTokens tokens id = (some file', []) ∧ file'.eraseSpans = file.eraseSpans := by
  have hkinds : (tokenStream tokens id).kinds = file.render ++ [] := by
    rw [List.append_nil, ← htokens, ← tokenStream_kinds tokens id]
    rfl
  obtain ⟨items, after, alt, hparse, -, hitems⟩ := Grammar.sourceFile_takes h hkinds
  refine ⟨⟨items, ⟨id, 0, tokensEnd tokens⟩⟩, ?_, ?_⟩
  · unfold parseTokens
    rw [hparse]
    rfl
  · rw [SourceFile.eraseSpans, hitems]
    rfl

/-- `main :: l: while a { loop {} -c = &mut d.f(return a, b) }`, where a statement ends without a
semicolon and so does the definition, and then `x : orb::t = a - b - (c = a) * b;`. -/
theorem parseTokens_render_loop :
    let mk (kind : ExprKind) : Expr := ⟨kind, noSpan⟩
    let name (text : String) : Expr := mk (.path ⟨.ident ⟨text, noSpan⟩, []⟩)
    let call := mk (.call (mk (.field (name "d") ⟨"f", noSpan⟩))
      ⟨[mk (.ret (some (name "a"))), name "b"], noSpan⟩)
    let last := mk (.assign (mk (.unary ⟨.neg, noSpan⟩ (name "c"))) (mk (.borrow noSpan call)))
    let body : Block := ⟨[⟨mk (.loop ⟨[], none, noSpan⟩), false⟩], last, noSpan⟩
    let product := mk (.binary (mk (.paren (mk (.assign (name "c") (name "a"))))) ⟨.mul, noSpan⟩
      (name "b"))
    let sum := mk (.binary (mk (.binary (name "a") ⟨.sub, noSpan⟩ (name "b"))) ⟨.sub, noSpan⟩
      product)
    let type : TypeExpr := .expr (mk (.path ⟨.orb noSpan, [⟨"t", noSpan⟩]⟩))
    let file : SourceFile :=
      ⟨[⟨⟨⟨"main", noSpan⟩, none, false,
          mk (.labeled ⟨"l", noSpan⟩ (mk (.whileLoop (name "a") body))), false⟩, noSpan⟩,
        ⟨⟨⟨"x", noSpan⟩, type, true, sum, true⟩, noSpan⟩], noSpan⟩
    let tokens := file.render.zipIdx.map fun t => (⟨t.1, ⟨t.2, t.2 + 1⟩⟩ : Token)
    (file.canonical = true ∧ grammarKinds tokens = file.render) ∧
      ∃ file', parseTokens tokens 0 = (some file', []) ∧ file'.eraseSpans = file.eraseSpans := by
  intro mk name call last body product sum type file tokens
  have h : file.canonical = true := by decide +kernel
  have htokens : grammarKinds tokens = file.render := by decide +kernel
  exact ⟨⟨h, htokens⟩, parseTokens_render file tokens 0 h htokens⟩

end LunSyntax
