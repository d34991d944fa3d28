import LunSyntax.Grammar.Item
import LunSyntax.Proofs.Grammar.Merging
import LunSyntax.Proofs.Parser.Reading

/-!
# Soundness of the parser

What the parser makes of tokens derives exactly these tokens.

* one lemma for each rule of the grammar, for any parsers of what it holds;
* `exprWithin_reads`, `blockWithin_reads`, `conditionalWithin_reads`: the knot, by induction on the
  depth;
* `parseTokens_derives`: a file without diagnostics derives all the tokens that are no comments.
-/

set_option autoImplicit false

namespace LunSyntax

/-- Only given up input derives an error, so elsewhere an expression that needs no semicolon is
block-like. -/
theorem Expr.Derives.isBlockLike_or {mode : Mode} {e : Expr} {ts : List TokenKind}
    (he : e.Derives mode ts) (h : e.kind.needsSemicolon = true → mode = .recovering) :
    e.kind.isBlockLike = true ∨ mode = .recovering := by
  cases he with
  | skipped hmode _ => exact .inr hmode
  | block | whileLoop | forLoop | loop | labeled => exact .inl rfl
  | _ => exact .inr (h rfl)

namespace Grammar

open LunSyntax.Parser
open LunSyntax.Parser.Reads (Maybe Sequence Separated)

variable {mode : Mode} {expr conditional operand : Parser Expr} {block : Parser Block}

/-! ## Tokens -/

theorem ident_reads : Reads mode ident fun name ts => ts = [name.token] := by
  refine .withSpan (.token (R := fun name ts => ts = [TokenKind.ident name]) ?_) ?_
  · intro t name hf
    split at hf
    · rename_i hk
      cases hf
      rw [hk]
    · cases hf
  · rintro name span ts rfl
    rfl

/-- A form derives some tokens wherever it stands. -/
def KindDerives (mode : Mode) (kind : ExprKind) (ts : List TokenKind) : Prop :=
  ∀ span, Expr.Derives mode ⟨kind, span⟩ ts

/-! ## Statements and blocks -/

theorem unlabeled_reads (he : Reads mode expr (Expr.Derives mode))
    (hb : Reads mode block (Block.Derives mode)) :
    Reads mode (unlabeled expr block) fun e ts =>
      e.Derives mode ts ∧ e.kind.isUnlabeled = true := by
  refine .withSpan (R := fun kind ts => KindDerives mode kind ts ∧ kind.isUnlabeled = true)
    (.choice ?_) fun kind span ts h => ⟨h.1 span, h.2⟩
  simp only [List.forall_mem_cons, List.not_mem_nil, false_imp_iff, implies_true, and_true]
  refine ⟨?_, ?_, ?_, ?_⟩
  · exact .map hb fun body ts h => ⟨fun _ => .block h, rfl⟩
  · refine .bind (.just _) fun _ => ?_
    refine .bind he fun cond => ?_
    refine .bind hb fun body => ?_
    refine .pure ?_
    rintro vs hbody us hcond _ rfl
    refine ⟨fun _ => ?_, rfl⟩
    simpa using Expr.Derives.whileLoop hcond hbody
  · refine .bind (.just _) fun _ => ?_
    refine .bind ident_reads fun var => ?_
    refine .bind (.just _) fun _ => ?_
    refine .bind he fun iterator => ?_
    refine .bind hb fun body => ?_
    refine .pure ?_
    rintro vs hbody us hiter _ rfl _ rfl _ rfl
    refine ⟨fun _ => ?_, rfl⟩
    simpa using Expr.Derives.forLoop hiter hbody
  · refine .bind (.just _) fun _ => ?_
    refine .bind hb fun body => ?_
    refine .pure ?_
    rintro us hbody _ rfl
    refine ⟨fun _ => ?_, rfl⟩
    simpa using Expr.Derives.loop hbody

theorem isBlockLike_of_isUnlabeled {kind : ExprKind} (h : kind.isUnlabeled = true) :
    kind.isBlockLike = true := by
  cases kind <;> first | rfl | cases h

theorem blockLike_reads (he : Reads mode expr (Expr.Derives mode))
    (hb : Reads mode block (Block.Derives mode)) :
    Reads mode (blockLike expr block) fun e ts =>
      e.Derives mode ts ∧ e.kind.isBlockLike = true := by
  refine .or (.withSpan (R := fun kind ts =>
    KindDerives mode kind ts ∧ kind.isBlockLike = true) ?_ fun kind span ts h => ⟨h.1 span, h.2⟩) ?_
  · refine .bind ident_reads fun label => ?_
    refine .bind (.just _) fun _ => ?_
    refine .bind (unlabeled_reads he hb) fun inner => ?_
    refine .pure ?_
    rintro us ⟨hinner, hkind⟩ _ rfl _ rfl
    refine ⟨fun _ => ?_, rfl⟩
    simpa using Expr.Derives.labeled hinner hkind
  · exact .mono (unlabeled_reads he hb) fun e ts h => ⟨h.1, isBlockLike_of_isUnlabeled h.2⟩

theorem semicolon_reads :
    Reads mode (optional (control ';')) fun o ts => ts = semicolonTokens o.isSome := by
  refine .mono (.optional (.just _)) ?_
  rintro (_ | _) ts h
  · exact h
  · exact h

/-- An expression in place of a statement. -/
def StmtDerives (mode : Mode) (s : Expr × Bool) (ts : List TokenKind) : Prop :=
  ∃ us, s.1.Derives mode us ∧ ts = us ++ semicolonTokens s.2

theorem stmt_reads (he : Reads mode expr (Expr.Derives mode))
    (hb : Reads mode block (Block.Derives mode)) :
    Reads mode (stmt expr block) (StmtDerives mode) := by
  refine .bind (.or (.mono (blockLike_reads he hb) fun e ts h => h.1) he) fun e => ?_
  refine .bind semicolon_reads fun semicolon => ?_
  refine .pure ?_
  rintro _ rfl us h
  exact ⟨us, h, by simp⟩

/-- What stands between the braces of a block. -/
def BodyDerives (mode : Mode) (stmts : List Stmt) : Option Expr → List TokenKind → Prop
  | none, ts => StmtsDerive mode stmts ts ∧ ∀ s ∈ stmts.getLast?, s.semicolon = true
  | some e, ts => ∃ us vs, ts = us ++ vs ∧ StmtsDerive mode stmts us ∧ e.Derives mode vs

theorem BodyDerives.cons {e : Expr} {semicolon : Bool} {stmts : List Stmt}
    {lastExpr : Option Expr} {us vs : List TokenKind} (he : e.Derives mode us)
    (hsemi : semicolon = false → e.kind.isBlockLike = true ∨ mode = .recovering)
    (hlast : stmts = [] → lastExpr = none → semicolon = true)
    (h : BodyDerives mode stmts lastExpr vs) :
    BodyDerives mode (⟨e, semicolon⟩ :: stmts) lastExpr
      (us ++ semicolonTokens semicolon ++ vs) := by
  cases lastExpr with
  | none =>
    refine ⟨.cons he hsemi h.1, ?_⟩
    cases stmts with
    | nil => simpa using hlast rfl rfl
    | cons s stmts => simpa using h.2
  | some value =>
    obtain ⟨xs, ys, rfl, hs, hv⟩ := h
    exact ⟨_, ys, by simp, .cons he hsemi hs, hv⟩

theorem eq_nil_of_splitStmts {stmts : List (Expr × Bool)} (hs : (splitStmts stmts).1 = [])
    (hl : (splitStmts stmts).2.1 = none) : stmts = [] := by
  fun_cases splitStmts stmts
  · rfl
  · simp [splitStmts] at hl
  · rename_i h _ _ _ _
    rw [splitStmts] at hs
    · cases hs
    · exact h

/-- Expressions split into statements and a value, unless a semicolon is missing. -/
theorem splitStmts_derives {stmts : List (Expr × Bool)} {ts : List TokenKind}
    (h : Sequence (StmtDerives mode) stmts ts)
    (hm : (splitStmts stmts).2.2 ≠ [] → mode = .recovering) :
    BodyDerives mode (splitStmts stmts).1 (splitStmts stmts).2.1 ts := by
  fun_induction splitStmts stmts generalizing ts with
  | case1 =>
    cases h
    exact ⟨.nil, by simp⟩
  | case2 e =>
    cases h with
    | cons he hnil =>
      cases hnil
      obtain ⟨us, he, rfl⟩ := he
      exact ⟨[], us, by simp [semicolonTokens], .nil, he⟩
  | case3 e semicolon rest hne stmts lastExpr messages hrest ih =>
    cases h with
    | cons he hseq =>
      obtain ⟨us, he, rfl⟩ := he
      rw [hrest] at ih
      refine .cons he ?_ ?_ (ih hseq fun hmsg => hm ?_)
      · rintro rfl
        refine he.isBlockLike_or fun hneeds => hm ?_
        simp [hneeds]
      · rintro rfl rfl
        have hnil : rest = [] := eq_nil_of_splitStmts (by rw [hrest]) (by rw [hrest])
        cases semicolon with
        | false => exact (hne hnil rfl).elim
        | true => rfl
      · dsimp only
        split
        · simp
        · exact hmsg

theorem blockOf_reads (he : Reads mode expr (Expr.Derives mode))
    (hb : Reads mode block (Block.Derives mode)) :
    Reads mode (blockOf expr block) (Block.Derives mode) := by
  unfold blockOf
  refine .recoverDelimited (.check (R := fun stmts ts => ∃ us,
    ts = .control '{' :: us ++ [.control '}'] ∧ Sequence (StmtDerives mode) stmts us) ?_ ?_)
    fun hmode span ts hskip => .skipped hmode hskip
  · refine .bind (.just _) fun _ => ?_
    refine .bind (.many (stmt_reads he hb)) fun stmts => ?_
    refine .bind (.just _) fun _ => ?_
    refine .pure ?_
    rintro _ rfl us hstmts _ rfl
    exact ⟨us, by simp, hstmts⟩
  · rintro stmts span ts ⟨us, rfl, hstmts⟩ hm
    have hbody := splitStmts_derives hstmts hm
    generalize hlast : (splitStmts stmts).2.1 = lastExpr at hbody
    cases lastExpr with
    | none => simpa [hlast] using Block.Derives.noValue hbody.1 hbody.2
    | some e =>
      obtain ⟨xs, ys, rfl, hs, hv⟩ := hbody
      simpa [hlast] using Block.Derives.value hs hv

/-! ## Primary expressions -/

theorem conditionalOf_reads (he : Reads mode expr (Expr.Derives mode))
    (hb : Reads mode block (Block.Derives mode))
    (hc : Reads mode conditional fun e ts =>
      e.Derives mode ts ∧ e.kind.isConditional = true) :
    Reads mode (conditionalOf expr block conditional) fun e ts =>
      e.Derives mode ts ∧ e.kind.isConditional = true := by
  refine .withSpan (R := fun kind ts => KindDerives mode kind ts ∧ kind.isConditional = true)
    ?_ fun kind span ts h => ⟨h.1 span, h.2⟩
  have helse : Reads mode (keyword "else" >>= fun _ =>
      Parser.or (Alternative.chain <$> conditional) (Alternative.block <$> block))
      fun alternative ts => AlternativeDerives mode (some alternative) ts := by
    refine .bind (.just _) fun _ => ?_
    refine .or (.map hc ?_) (.map hb ?_)
    · rintro e ts ⟨h, hkind⟩ _ rfl
      exact .chain h hkind
    · rintro body ts h _ rfl
      exact .block h
  have halternative : Reads mode (optional (keyword "else" >>= fun _ =>
      Parser.or (Alternative.chain <$> conditional) (Alternative.block <$> block)))
      (AlternativeDerives mode) := by
    refine .mono (.optional helse) ?_
    rintro (_ | a) ts h
    · cases h
      exact .none
    · exact h
  refine .bind (.just _) fun _ => ?_
  refine .bind he fun cond => ?_
  refine .bind hb fun consequent => ?_
  refine .bind halternative fun alternative => ?_
  refine .pure ?_
  rintro ws halt vs hbody us hcond _ rfl
  refine ⟨fun _ => ?_, rfl⟩
  simpa using Expr.Derives.conditional hcond hbody halt

theorem labelRef_reads :
    Reads mode (optional labelRef) fun label ts => ts = labelTokens label := by
  have hlabel : Reads mode labelRef fun label ts => ts = labelTokens (some label) := by
    refine .bind (.just _) fun _ => ?_
    refine .mono ident_reads ?_
    rintro label _ rfl _ rfl
    rfl
  refine .mono (.optional hlabel) ?_
  rintro (_ | label) ts h
  · exact h
  · exact h

theorem path_reads : Reads mode path fun p ts => ts = p.tokens := by
  have hroot : Reads mode
      (Parser.or (withSpan (fun _ span => PathRoot.orb span) (keyword "orb")) (.ident <$> ident))
      fun root ts => ts = [root.token] := by
    refine .or ?_ ?_
    · refine .withSpan (.just _) ?_
      rintro _ span _ rfl
      rfl
    · refine .map ident_reads ?_
      rintro name _ rfl
      rfl
  have hsegment : Reads mode (digraph .pathSep >>= fun _ => ident) fun segment ts =>
      ts = [.digraph .pathSep, segment.token] := by
    refine .bind (.just _) fun _ => ?_
    refine .mono ident_reads ?_
    rintro segment _ rfl _ rfl
    rfl
  refine .bind hroot fun root => ?_
  refine .bind (.many hsegment) fun segments => ?_
  refine .pure ?_
  rintro ts hseq _ rfl
  have hts : ts = segments.flatMap fun segment => [.digraph .pathSep, segment.token] := by
    induction hseq with
    | nil => rfl
    | cons h _ ih => rw [h, ih, List.flatMap_cons]
  simp [Path.tokens, hts]

theorem value_reads (he : Reads mode expr (Expr.Derives mode)) :
    Reads mode (optional expr) (ValueDerives mode) := by
  refine .mono (.optional he) ?_
  rintro (_ | e) ts h
  · cases h
    exact .none
  · exact .some h

theorem simple_reads (he : Reads mode expr (Expr.Derives mode)) :
    Reads mode (simple expr) fun e ts =>
      e.Derives mode ts ∧ e.level = 13 ∧ e.leftmost.kind.isLabeled = false := by
  refine .withSpan (R := fun kind ts => KindDerives mode kind ts ∧
    ∀ span, Expr.level ⟨kind, span⟩ = 13 ∧ (Expr.leftmost ⟨kind, span⟩).kind.isLabeled = false)
    (.choice ?_) fun kind span ts h => ⟨h.1 span, h.2 span⟩
  simp only [List.forall_mem_cons, List.not_mem_nil, false_imp_iff, implies_true, and_true]
  refine ⟨?_, ?_, ?_, ?_, ?_, ?_, ?_, ?_⟩
  · refine .token fun t kind hf => ?_
    split at hf
    · rename_i lit hk
      cases hf
      rw [hk]
      exact ⟨fun _ => .literal, fun _ => ⟨rfl, rfl⟩⟩
    · cases hf
  · refine .or (.map (.just _) ?_) (.map (.just _) ?_)
    · rintro _ _ rfl
      exact ⟨fun _ => .bool, fun _ => ⟨rfl, rfl⟩⟩
    · rintro _ _ rfl
      exact ⟨fun _ => .bool, fun _ => ⟨rfl, rfl⟩⟩
  · refine .map (.just _) ?_
    rintro _ _ rfl
    exact ⟨fun _ => .null, fun _ => ⟨rfl, rfl⟩⟩
  · refine .recoverDelimited ?_
      fun hmode _ ts hskip => ⟨fun _ => .skipped hmode hskip, fun _ => ⟨rfl, rfl⟩⟩
    refine .bind (.just _) fun _ => ?_
    refine .bind he fun inner => ?_
    refine .bind (.just _) fun _ => ?_
    refine .pure ?_
    rintro _ rfl us hinner _ rfl
    refine ⟨fun _ => ?_, fun _ => ⟨rfl, rfl⟩⟩
    simpa using Expr.Derives.paren hinner
  · refine .bind (.just _) fun _ => ?_
    refine .bind (value_reads he) fun value => ?_
    refine .pure ?_
    rintro us hvalue _ rfl
    refine ⟨fun _ => ?_, fun _ => ⟨rfl, rfl⟩⟩
    simpa using Expr.Derives.ret hvalue
  · refine .bind (.just _) fun _ => ?_
    refine .bind labelRef_reads fun label => ?_
    refine .bind (value_reads he) fun value => ?_
    refine .pure ?_
    rintro us hvalue _ rfl _ rfl
    refine ⟨fun _ => ?_, fun _ => ⟨rfl, rfl⟩⟩
    simpa using Expr.Derives.brk hvalue
  · refine .bind (.just _) fun _ => ?_
    refine .bind labelRef_reads fun label => ?_
    refine .pure ?_
    rintro _ rfl _ rfl
    refine ⟨fun _ => ?_, fun _ => ⟨rfl, rfl⟩⟩
    simpa using Expr.Derives.cont
  · refine .map path_reads ?_
    rintro p _ rfl
    exact ⟨fun _ => .path, fun _ => ⟨rfl, rfl⟩⟩

/-- An expression of at least a level, which starts with a label only where there are labels. -/
structure Fits (mode : Mode) (labels : Bool) (level : Nat) (e : Expr) (ts : List TokenKind) :
    Prop where
  derives : e.Derives mode ts
  level_le : level ≤ e.level
  unlabeled : labels = false → e.leftmost.kind.isLabeled = false

theorem Fits.looser {labels : Bool} {l m : Nat} {e : Expr} {ts : List TokenKind}
    (h : Fits mode labels m e ts) (hle : l ≤ m) : Fits mode labels l e ts :=
  ⟨h.derives, Nat.le_trans hle h.level_le, h.unlabeled⟩

theorem level_of_isBlockLike {e : Expr} (h : e.kind.isBlockLike = true) : e.level = 13 := by
  obtain ⟨kind, span⟩ := e
  cases kind <;> first | rfl | cases h

theorem leftmost_of_isUnlabeled {e : Expr} (h : e.kind.isUnlabeled = true) :
    e.leftmost.kind.isLabeled = false := by
  obtain ⟨kind, span⟩ := e
  cases kind <;> first | rfl | cases h

theorem primary_reads (he : Reads mode expr (Expr.Derives mode))
    (hb : Reads mode block (Block.Derives mode))
    (hc : Reads mode conditional fun e ts =>
      e.Derives mode ts ∧ e.kind.isConditional = true) (labels : Bool) :
    Reads mode (primary expr block conditional labels) (Fits mode labels 13) := by
  refine .choice ?_
  simp only [List.forall_mem_cons, List.not_mem_nil, false_imp_iff, implies_true, and_true]
  refine ⟨?_, ?_, ?_⟩
  · cases labels with
    | true =>
      exact .mono (blockLike_reads he hb) fun e ts h =>
        ⟨h.1, Nat.le_of_eq (level_of_isBlockLike h.2).symm, by simp⟩
    | false =>
      refine .mono (unlabeled_reads he hb) fun e ts h => ⟨h.1, ?_, fun _ => ?_⟩
      · exact Nat.le_of_eq (level_of_isBlockLike (isBlockLike_of_isUnlabeled h.2)).symm
      · exact leftmost_of_isUnlabeled h.2
  · refine .mono hc fun e ts h => ?_
    obtain ⟨kind, span⟩ := e
    cases kind with
    | conditional => exact ⟨h.1, Nat.le_refl _, fun _ => rfl⟩
    | _ => cases h.2
  · exact .mono (simple_reads he) fun e ts h => ⟨h.1, Nat.le_of_eq h.2.1.symm, fun _ => h.2.2⟩

/-! ## Operators -/

theorem args_of_separated {args : List Expr} {ts : List TokenKind}
    (h : Separated (Expr.Derives mode) (.control ',') args ts) : ArgsDerive mode args ts := by
  induction h with
  | nil => exact .nil
  | last h => exact .last h
  | trailing h => exact .trailing h
  | cons h _ ih => exact .cons h ih

theorem arguments_reads (he : Reads mode expr (Expr.Derives mode)) :
    Reads mode (arguments expr) (Arguments.Derives mode) := by
  unfold arguments
  refine .recoverDelimited (.withSpan (R := fun args ts => ∃ us,
    ts = .control '(' :: us ++ [.control ')'] ∧ ArgsDerive mode args us) ?_ ?_)
    fun hmode span ts hskip => .skipped hmode hskip
  · refine .bind (.just _) fun _ => ?_
    refine .bind (.sepBy he) fun args => ?_
    refine .bind (.just _) fun _ => ?_
    refine .pure ?_
    rintro _ rfl us hargs _ rfl
    exact ⟨us, by simp, args_of_separated hargs⟩
  · rintro args span ts ⟨us, rfl, hargs⟩
    exact .list hargs

/-- What may follow an operand, and its tokens. -/
def SuffixDerives (mode : Mode) : Suffix × Span → List TokenKind → Prop
  | (.call args, _), ts => args.Derives mode ts
  | (.field name, _), ts => ts = [.control '.', name.token]
  | (.deref, _), ts => ts = [.digraph .deref]

theorem suffix_reads (he : Reads mode expr (Expr.Derives mode)) :
    Reads mode (suffix expr) (SuffixDerives mode) := by
  refine .withSpan (R := fun s ts => ∀ span, SuffixDerives mode (s, span) ts) (.choice ?_)
    fun s span ts h => h span
  simp only [List.forall_mem_cons, List.not_mem_nil, false_imp_iff, implies_true, and_true]
  refine ⟨?_, ?_, ?_⟩
  · exact .map (arguments_reads he) fun args ts h _ => h
  · refine .bind (.just _) fun _ => ?_
    refine .bind ident_reads fun name => ?_
    refine .pure ?_
    rintro _ rfl _ rfl span
    rfl
  · refine .map (.just _) ?_
    rintro _ _ rfl span
    rfl

theorem applySuffix_fits {labels : Bool} {e : Expr} {us vs : List TokenKind}
    (h : Fits mode labels 12 e us) (s : Suffix × Span) (hs : SuffixDerives mode s vs) :
    Fits mode labels 12 (applySuffix e s) (us ++ vs) := by
  obtain ⟨suffix, span⟩ := s
  cases suffix with
  | call args => exact ⟨.call h.derives h.level_le hs, Nat.le_refl _, h.unlabeled⟩
  | field name =>
    cases hs
    exact ⟨.field h.derives h.level_le, Nat.le_refl _, h.unlabeled⟩
  | deref =>
    cases hs
    exact ⟨.deref h.derives h.level_le, Nat.le_refl _, h.unlabeled⟩

theorem postfixed_reads {labels : Bool} (hp : Reads mode operand (Fits mode labels 13))
    (he : Reads mode expr (Expr.Derives mode)) :
    Reads mode (postfixed operand expr) (Fits mode labels 12) := by
  rw [postfixed_eq]
  refine .bind hp fun e => ?_
  refine .bind (.many (suffix_reads he)) fun suffixes => ?_
  refine .pure ?_
  intro vs hseq us hfits
  rw [List.append_nil]
  replace hfits := hfits.looser (by omega : 12 ≤ 13)
  -- the suffixes are applied from left to right
  induction hseq generalizing e us with
  | nil => simpa using hfits
  | cons hs _ ih =>
    rw [List.foldl_cons, ← List.append_assoc]
    exact ih _ _ (applySuffix_fits hfits _ hs)

/-- What may precede an operand, and its tokens. -/
def LeadDerives : Lead × Span → List TokenKind → Prop
  | (.unary op, _), ts => ts = [op.token]
  | (.borrow mutSpan, _), ts => ts = .control '&' :: mutTokens mutSpan
  | (.doubleBorrow mutSpan, _), ts => ts = .digraph .and :: mutTokens mutSpan

theorem mutSpan_reads : Reads mode mutSpan fun m ts => ts = mutTokens m := by
  refine .mono (.optional (R := fun _ ts => ts = [.keyword "mut"])
    (.withSpan (.just _) fun _ _ _ h => h)) ?_
  rintro (_ | m) ts h
  · exact h
  · exact h

theorem lead_reads : Reads mode lead LeadDerives := by
  refine .withSpan (R := fun l ts => ∀ span, LeadDerives (l, span) ts) (.choice ?_)
    fun s span ts h => h span
  simp only [List.forall_mem_cons, List.not_mem_nil, false_imp_iff, implies_true, and_true]
  refine ⟨?_, ?_, ?_, ?_⟩
  · refine .map (.just _) ?_
    rintro _ _ rfl span
    rfl
  · refine .map (.just _) ?_
    rintro _ _ rfl span
    rfl
  · refine .bind (.just _) fun _ => ?_
    refine .bind mutSpan_reads fun m => ?_
    refine .pure ?_
    rintro _ rfl _ rfl span
    simp [LeadDerives]
  · refine .bind (.just _) fun _ => ?_
    refine .bind mutSpan_reads fun m => ?_
    refine .pure ?_
    rintro _ rfl _ rfl span
    simp [LeadDerives]

theorem applyLead_fits {labels : Bool} {e : Expr} {us vs : List TokenKind} (l : Lead × Span)
    (hl : LeadDerives l us) (h : Fits mode labels 11 e vs) :
    Fits mode labels 11 (applyLead l e) (us ++ vs) := by
  obtain ⟨lead, span⟩ := l
  cases lead with
  | unary op =>
    cases hl
    exact ⟨.unary h.derives h.level_le, Nat.le_refl _, fun _ => rfl⟩
  | borrow m =>
    cases hl
    exact ⟨.borrow h.derives h.level_le, Nat.le_refl _, fun _ => rfl⟩
  | doubleBorrow m =>
    cases hl
    exact ⟨.doubleBorrow h.derives h.level_le, Nat.le_refl _, fun _ => rfl⟩

theorem unary_reads {labels : Bool} (hp : Reads mode operand (Fits mode labels 13))
    (he : Reads mode expr (Expr.Derives mode)) :
    Reads mode (unary operand expr) (Fits mode labels 11) := by
  rw [unary_eq]
  refine .bind (.many lead_reads) fun leads => ?_
  refine .bind (postfixed_reads hp he) fun e => ?_
  refine .pure ?_
  intro vs hfits us hseq
  rw [List.append_nil]
  replace hfits := hfits.looser (by omega : 11 ≤ 12)
  -- the leads are applied from right to left
  induction hseq with
  | nil => exact hfits
  | cons hl _ ih =>
    rw [List.foldr_cons, List.append_assoc]
    exact applyLead_fits _ hl ih

theorem binOp_reads (op : BinOp) :
    Reads mode (binOp op) fun o ts => ts = [o.token] ∧ o.level = op.level := by
  refine .map (.just _) ?_
  rintro _ _ rfl
  exact ⟨rfl, rfl⟩

theorem binary_reads {labels : Bool} {l : Nat} {op : Parser BinOp}
    (hp : Reads mode operand (Fits mode labels (l + 1)))
    (hop : Reads mode op fun o ts => ts = [o.token] ∧ o.level = l) :
    Reads mode (binary operand op) (Fits mode labels l) := by
  have hoperation : Reads mode
      (operator op >>= fun op => operand >>= fun rhs => Pure.pure (op, rhs)) fun r ts =>
      ∃ us, ts = r.1.node.token :: us ∧ r.1.node.level = l ∧ Fits mode labels (l + 1) r.2 us := by
    have hoperator : Reads mode (operator op) fun o ts => ts = [o.node.token] ∧ o.node.level = l :=
      .withSpan hop fun o span ts h => h
    refine .bind hoperator fun o => ?_
    refine .bind hp fun rhs => ?_
    refine .pure ?_
    rintro us hrhs _ ⟨rfl, hlevel⟩
    exact ⟨us, by simp, hlevel, hrhs⟩
  rw [binary_eq]
  refine .bind hp fun first => ?_
  refine .bind (.many hoperation) fun rest => ?_
  refine .pure ?_
  intro vs hseq us hfits
  rw [List.append_nil]
  replace hfits := hfits.looser (Nat.le_succ l)
  induction hseq generalizing first us with
  | nil => simpa using hfits
  | @cons r rs _ _ hr _ ih =>
    obtain ⟨⟨op, span⟩, rhs⟩ := r
    obtain ⟨ws, rfl, rfl, hrhs⟩ := hr
    rw [List.foldl_cons, ← List.append_assoc]
    refine ih _ _ ⟨.binary hfits.derives hfits.level_le hrhs.derives hrhs.level_le, ?_,
      hfits.unlabeled⟩
    exact Nat.le_refl _

theorem operators_reads {labels : Bool} (hp : Reads mode operand (Fits mode labels 13))
    (he : Reads mode expr (Expr.Derives mode)) :
    Reads mode (operators operand expr) (Fits mode labels 1) := by
  have pick : ∀ {l : Nat} (ops : List BinOp), (∀ op ∈ ops, op.level = l) →
      ∀ p ∈ ops.map binOp, Reads mode p fun o ts => ts = [o.token] ∧ o.level = l := by
    intro l ops hops p hmem
    obtain ⟨op, hop, rfl⟩ := List.mem_map.1 hmem
    exact hops op hop ▸ binOp_reads op
  have two : ∀ (a b : BinOp), b.level = a.level → Reads mode (Parser.or (binOp a) (binOp b))
      fun o ts => ts = [o.token] ∧ o.level = a.level := by
    intro a b h
    exact .or (binOp_reads a) (h ▸ binOp_reads b)
  refine binary_reads (l := 1) ?_ (binOp_reads .or)
  refine binary_reads (l := 2) ?_ (binOp_reads .and)
  refine binary_reads (l := 3) ?_ (.choice (pick [.gt, .gte, .lt, .lte] (by decide)))
  refine binary_reads (l := 4) ?_ (two .eq .ne rfl)
  refine binary_reads (l := 5) ?_ (binOp_reads .bitOr)
  refine binary_reads (l := 6) ?_ (binOp_reads .bitXor)
  refine binary_reads (l := 7) ?_ (binOp_reads .bitAnd)
  refine binary_reads (l := 8) ?_ (two .shl .shr rfl)
  refine binary_reads (l := 9) ?_ (two .add .sub rfl)
  refine binary_reads (l := 10) ?_ (.choice (pick [.mul, .div, .mod] (by decide)))
  exact unary_reads hp he

theorem assignment_reads {labels : Bool} (hp : Reads mode operand (Fits mode labels 1)) :
    Reads mode (assignment operand) (Expr.Derives mode) := by
  have hnext : Reads mode (control '=' >>= fun _ => operand) fun e ts =>
      ∃ us, ts = .control '=' :: us ∧ Fits mode labels 1 e us := by
    refine .bind (.just _) fun _ => ?_
    refine .mono hp ?_
    rintro e us h _ rfl
    exact ⟨us, rfl, h⟩
  rw [assignment_eq]
  refine .bind hp fun first => ?_
  refine .bind (.many hnext) fun rest => ?_
  refine .pure ?_
  intro vs hseq us hfits
  rw [List.append_nil]
  -- the last assignment is the innermost one
  induction hseq generalizing first us with
  | nil => simpa [assignAll] using hfits.derives
  | cons hnext _ ih =>
    obtain ⟨ws, rfl, hnext⟩ := hnext
    rw [assignAll, assign, List.cons_append]
    exact .assign hfits.derives hfits.level_le (ih _ _ hnext)

/-! ## The knot -/

theorem fail_reads {α : Type} {R : α → List TokenKind → Prop}
    {expected : List (Option TokenKind)} : Reads mode (Parser.fail expected) R := by
  intro c reported a after alt hc
  cases hc

theorem exprOf_reads (he : Reads mode expr (Expr.Derives mode))
    (hb : Reads mode block (Block.Derives mode))
    (hc : Reads mode conditional fun e ts =>
      e.Derives mode ts ∧ e.kind.isConditional = true) (labels : Bool) :
    Reads mode (operators (primary expr (blockOf expr block)
      (conditionalOf expr (blockOf expr block) conditional) labels) expr)
      (Fits mode labels 1) :=
  operators_reads (primary_reads he (blockOf_reads he hb)
    (conditionalOf_reads he (blockOf_reads he hb) hc) labels) he

mutual

theorem exprWithin_reads (mode : Mode) : ∀ depth,
    Reads mode (exprWithin depth) (Expr.Derives mode)
  | 0 => by rw [exprWithin]; exact fail_reads
  | depth + 1 => by
    rw [exprWithin]
    exact assignment_reads (exprOf_reads (exprWithin_reads mode depth)
      (blockWithin_reads mode depth) (conditionalWithin_reads mode depth) true)

theorem blockWithin_reads (mode : Mode) : ∀ depth,
    Reads mode (blockWithin depth) (Block.Derives mode)
  | 0 => by rw [blockWithin]; exact fail_reads
  | depth + 1 => by
    rw [blockWithin]
    exact blockOf_reads (exprWithin_reads mode depth) (blockWithin_reads mode depth)

theorem conditionalWithin_reads (mode : Mode) : ∀ depth,
    Reads mode (conditionalWithin depth) fun e ts =>
      e.Derives mode ts ∧ e.kind.isConditional = true
  | 0 => by rw [conditionalWithin]; exact fail_reads
  | depth + 1 => by
    rw [conditionalWithin]
    exact conditionalOf_reads (exprWithin_reads mode depth)
      (blockOf_reads (exprWithin_reads mode depth) (blockWithin_reads mode depth))
      (conditionalWithin_reads mode depth)

end

theorem expr_reads : Reads mode Grammar.expr (Expr.Derives mode) := by
  intro c reported e after alt hc
  rw [Grammar.expr, deferred_apply] at hc
  exact exprWithin_reads mode (c.left + 1) hc

theorem typeExprWithin_reads (depth : Nat) :
    Reads mode (typeExprWithin depth) (TypeExpr.Derives mode) := by
  cases depth with
  | zero => exact fail_reads
  | succ depth =>
    rw [typeExprWithin]
    refine .or (.token ?_) (.map (exprOf_reads (exprWithin_reads mode depth)
      (blockWithin_reads mode depth) (conditionalWithin_reads mode depth) false) ?_)
    · intro t type hf
      split at hf
      · rename_i word hk
        obtain ⟨primitive, hfind, rfl⟩ := Option.map_eq_some_iff.1 hf
        have hword : primitive.text = word := by
          simpa using List.find?_some hfind
        rw [hk, ← hword]
        exact .primitive
      · cases hf
    · intro e ts h
      exact .expr h.derives h.level_le (h.unlabeled rfl)

theorem typeExpr_reads : Reads mode typeExpr (TypeExpr.Derives mode) := by
  intro c reported e after alt hc
  rw [typeExpr, deferred_apply] at hc
  exact typeExprWithin_reads (c.left + 1) hc

/-! ## Definitions -/

theorem header_reads : Reads mode header fun h ts => HeaderDerives mode h.1 h.2 ts := by
  refine .choice ?_
  simp only [List.forall_mem_cons, List.not_mem_nil, false_imp_iff, implies_true, and_true]
  refine ⟨?_, ?_⟩
  · refine .map (.just _) ?_
    rintro _ _ rfl
    exact .joined
  · have hseparator : Reads mode
        (Parser.or ((fun _ => false) <$> control ':') ((fun _ => true) <$> control '='))
        fun mutable ts => ts = [separatorToken mutable] := by
      refine .or (.map (.just _) ?_) (.map (.just _) ?_)
      · rintro _ _ rfl
        rfl
      · rintro _ _ rfl
        rfl
    refine .bind (.just _) fun _ => ?_
    refine .bind (.optional typeExpr_reads) fun type => ?_
    refine .bind hseparator fun mutable => ?_
    refine .pure ?_
    rintro _ rfl us htype _ rfl
    cases type with
    | none =>
      cases htype
      exact .untyped
    | some type => simpa using HeaderDerives.typed htype

theorem definition_reads : Reads mode definition (GlobalDef.Derives mode) := by
  unfold definition
  refine .check (R := fun d ts => ∃ us vs, HeaderDerives mode d.type d.mutable us ∧
    d.value.Derives mode vs ∧ ts = d.name.token :: us ++ vs ++ semicolonTokens d.semicolon)
    ?_ ?_
  · refine .bind ident_reads fun name => ?_
    refine .bind header_reads fun h => ?_
    refine .bind expr_reads fun value => ?_
    refine .bind semicolon_reads fun semicolon => ?_
    refine .pure ?_
    rintro _ rfl vs hvalue us hheader _ rfl
    exact ⟨us, vs, hheader, hvalue, by simp⟩
  · rintro d span ts ⟨us, vs, hheader, hvalue, rfl⟩ hm
    refine .intro hheader hvalue fun hsemi => hvalue.isBlockLike_or fun hneeds => hm ?_
    simp [hsemi, hneeds]

/-- Only a definition at the first place is read without a complaint. -/
theorem item_reads : Reads .strict item fun i ts => i.definition.Derives .strict ts := by
  have hdef : Reads .strict (withSpan Item.mk definition) fun i ts =>
      i.definition.Derives .strict ts :=
    .withSpan definition_reads fun d span ts h => h
  intro c reported i after alt hc hm
  change recoverSkipping (withSpan Item.mk definition) c = _ at hc
  unfold recoverSkipping at hc
  split at hc
  · rename_i hd
    cases hc
    exact hdef hd hm
  · split at hc
    · cases hc
      exact absurd (hm (by simp)) (by simp)
    · cases hc

theorem items_of_sequence {items : List Item} {ts : List TokenKind}
    (h : Sequence (fun i ts => i.definition.Derives .strict ts) items ts) :
    ItemsDerive .strict items ts := by
  induction h with
  | nil => exact .nil
  | cons h _ ih => exact .cons h ih

/-- Trailing tokens are never read without a complaint. -/
theorem trailing_reads : Reads .strict trailing fun _ _ => False := by
  have hany : Reads .strict any fun _ _ => True := .token fun _ _ _ => trivial
  unfold trailing
  have hrest : Reads .strict (many any) fun _ _ => True :=
    .mono (.many hany) fun _ _ _ => trivial
  refine .check (R := fun _ _ => True) ?_ ?_
  · refine .bind hany fun first => ?_
    refine .bind hrest fun _ => ?_
    exact .pure fun _ _ _ _ => trivial
  · intro first span ts _ hm
    exact absurd (hm (by simp)) (by simp)

theorem sourceFile_reads : Reads .strict sourceFile (ItemsDerive .strict) := by
  have hfinish : Reads .strict Parser.finish fun _ ts => ts = [] := by
    intro c reported u after alt hc _
    unfold Parser.finish at hc
    split at hc
    · cases hc
      exact ⟨[], .refl, rfl⟩
    · cases hc
  refine .bind (.many item_reads) fun items => ?_
  refine .bind (.optional trailing_reads) fun rest => ?_
  refine .bind hfinish fun _ => ?_
  refine .pure ?_
  rintro _ rfl us hrest ts hitems
  cases rest with
  | none =>
    cases hrest
    simpa using items_of_sequence hitems
  | some _ => exact hrest.elim

/-- A success at the end has read everything. -/
theorem sourceFile_rest {c after : Cursor} {reported : List Complaint} {items : List Item}
    {alt : Option Complaint}
    (h : sourceFile (P := Parser) c = ⟨reported, .ok items after alt⟩) :
    after.rest = [] := by
  obtain ⟨_, _, mid, _, _, _, _, h, -⟩ := bind_eq_ok h
  obtain ⟨_, _, mid, _, _, _, _, h, -⟩ := bind_eq_ok h
  obtain ⟨_, _, mid, _, _, _, hfinish, h, -⟩ := bind_eq_ok h
  cases h
  change Parser.finish _ = _ at hfinish
  unfold Parser.finish at hfinish
  split at hfinish
  · rename_i hnil
    cases hfinish
    exact hnil
  · cases hfinish

/-- A whole input which is read without complaint derives its tokens. -/
theorem sourceFile_derives {c after : Cursor} {items : List Item} {alt : Option Complaint}
    (h : sourceFile (P := Parser) c = ⟨[], .ok items after alt⟩) :
    ItemsDerive .strict items (c.rest.map Spanned.node) := by
  obtain ⟨used, hpass, hitems⟩ := sourceFile_reads h fun hne => absurd rfl hne
  rw [hpass.rest_eq, sourceFile_rest h, List.append_nil]
  exact hitems

end Grammar

/-- The kinds of the tokens which mean something to the grammar. -/
def grammarKinds (tokens : List Token) : List TokenKind :=
  (tokens.filter fun t => !t.kind.isComment).map Token.kind

theorem tokenStream_kinds (tokens : List Token) (id : UInt16) :
    (tokenStream tokens id).rest.map Spanned.node = grammarKinds tokens := by
  simp [tokenStream, Cursor.start, grammarKinds, Function.comp_def]

/-- **A parse without diagnostics derives its tokens.**  Tokens that are parsed without complaint
give a file which is written, in the grammar of the language, with just these tokens, comments
left out. -/
theorem parseTokens_derives (tokens : List Token) (id : UInt16)
    (h : (parseTokens tokens id).2 = []) :
    ∃ file, (parseTokens tokens id).1 = some file ∧
      file.Derives .strict (grammarKinds tokens) := by
  unfold parseTokens at h ⊢
  rcases hparse : Grammar.sourceFile (P := Parser) (tokenStream tokens id) with ⟨reported, reply⟩
  rw [hparse] at h
  cases reply with
  | fail complaint => simp [Outcome.fileOf] at h
  | ok items after alt =>
    have hnil : reported = [] := List.map_eq_nil_iff.1 h
    refine ⟨_, rfl, ?_⟩
    rw [← tokenStream_kinds tokens id]
    exact Grammar.sourceFile_derives (hnil ▸ hparse)

/-- `x :: -y + &&z(a,); // …` with its comment, the two borrows of one token and the comma after
the last argument. -/
theorem parseTokens_derives_call :
    let tokens : List Token :=
      [⟨.ident "x", ⟨0, 1⟩⟩, ⟨.digraph .pathSep, ⟨2, 4⟩⟩, ⟨.control '-', ⟨5, 6⟩⟩,
        ⟨.ident "y", ⟨6, 7⟩⟩, ⟨.control '+', ⟨8, 9⟩⟩, ⟨.digraph .and, ⟨10, 12⟩⟩,
        ⟨.ident "z", ⟨12, 13⟩⟩, ⟨.control '(', ⟨13, 14⟩⟩, ⟨.ident "a", ⟨14, 15⟩⟩,
        ⟨.control ',', ⟨15, 16⟩⟩, ⟨.control ')', ⟨16, 17⟩⟩, ⟨.control ';', ⟨17, 18⟩⟩,
        ⟨.comment "// …", ⟨19, 23⟩⟩]
    (parseTokens tokens 0).2 = [] ∧ ∃ file, (parseTokens tokens 0).1 = some file ∧
      file.Derives .strict (grammarKinds tokens) := by
  intro tokens
  have h : (parseTokens tokens 0).2 = [] := by decide +kernel
  exact ⟨h, parseTokens_derives tokens 0 h⟩

end LunSyntax
