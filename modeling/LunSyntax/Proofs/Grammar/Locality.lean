import LunSyntax.Grammar.Item
import LunSyntax.Proofs.Grammar.Merging
import LunSyntax.Proofs.Parser.Agreement

/-!
# The grammar is local

How an expression is read depends on the tokens up to the next bracket or semicolon that is not its
own, and on nothing behind that.

* `expr_related`, `typeExpr_related`, `header_related`: inputs with balanced tokens in common, which
  stop in both at the same semicolon or closing bracket, are read the same way.  That the nesting is
  bounded by the number of tokens left, which may differ, does not show.
-/

set_option autoImplicit false

namespace LunSyntax.Grammar

open LunSyntax.Parser

/-- Tokens at which an expression ends. -/
def Stop (k : TokenKind) : Prop := k = .control ';' ∨ k = .control ')' ∨ k = .control '}'

section Productions

variable {m n : Nat} {expr expr' conditional conditional' operand operand' : Parser Expr}
  {block block' : Parser Block}

/-! ## Leaves -/

theorem ident_related : Related n Stop ident ident := by
  refine .withSpan (.token ?_ ?_)
  · rintro t (h | h | h) <;> rw [h]
  · intro t name hf
    split at hf
    · rename_i h
      rw [h]
      simp [TokenKind.side]
    · cases hf

theorem keyword_related (word : String) : Related n Stop (keyword word) (keyword word) :=
  .just (by simp [Stop]) (keyword_isInner word).1

theorem labelRef_related : Related n Stop labelRef labelRef :=
  .bind (.just (by simp [Stop]) rfl) fun _ => ident_related

theorem path_related : Related n Stop path path := by
  refine .bind (.or (.withSpan (keyword_related _)) (.map ident_related)) fun _ => ?_
  refine .bind (.many (.bind (.just (by simp [Stop]) rfl) fun _ => ident_related)) fun _ => ?_
  exact .pure _

/-! ## Blocks and loops -/

theorem unlabeled_related (hm : m ≤ n) (hn : n ≤ m + 1) (he : Related m Stop expr expr')
    (hb : Related n Stop block block') :
    Related n Stop (unlabeled expr block) (unlabeled expr' block') := by
  have hb' : Related m Stop block block' := hb.weaken hm fun _ h => h
  refine .withSpan (.choice ⟨.map hb, ?_, ?_, ?_, trivial⟩)
  · refine (Related.stepJust (by simp [Stop]) (keyword_isInner _).1 ?_).weaken hn fun _ h => h
    refine .bind he fun _ => ?_
    refine .bind hb' fun _ => ?_
    exact .pure _
  · refine (Related.stepJust (by simp [Stop]) (keyword_isInner _).1 ?_).weaken hn fun _ h => h
    refine .bind ident_related fun _ => ?_
    refine .bind (keyword_related _) fun _ => ?_
    refine .bind he fun _ => ?_
    refine .bind hb' fun _ => ?_
    exact .pure _
  · refine (Related.stepJust (by simp [Stop]) (keyword_isInner _).1 ?_).weaken hn fun _ h => h
    exact .bind hb' fun _ => .pure _

theorem blockLike_related (hm : m ≤ n) (hn : n ≤ m + 1) (he : Related m Stop expr expr')
    (hb : Related n Stop block block') :
    Related n Stop (blockLike expr block) (blockLike expr' block') := by
  have hu := unlabeled_related hm hn he hb
  refine .or (.withSpan ?_) hu
  refine .bind ident_related fun _ => ?_
  refine .bind (.just (by simp [Stop]) rfl) fun _ => ?_
  refine .bind hu fun _ => ?_
  exact .pure _

/-- A semicolon is a part of a statement, so only a brace stops one. -/
theorem stmt_related (he : Related n Stop expr expr') (hb : Related n Stop block block') :
    Related n (· = .control '}') (stmt expr block) (stmt expr' block') := by
  have hstop : ∀ k, k = TokenKind.control '}' → Stop k := fun k h => .inr (.inr h)
  refine .bind ((Related.or (blockLike_related (Nat.le_refl n) (Nat.le_succ n) he hb) he).weaken
    (Nat.le_refl n) hstop) fun _ => ?_
  refine .bind (.optional (.just (by simp) rfl)) fun _ => ?_
  exact .pure _

theorem blockOf_related (he : Related n Stop expr expr') (hb : Related n Stop block block') :
    Related (n + 1) Stop (blockOf expr block) (blockOf expr' block') := by
  have hopen : ¬ Stop Bracket.brace.pair.opening := by simp [Stop, Bracket.pair, braces]
  unfold blockOf
  refine .recoverDelimited (b := .brace) hopen (.check ?_)
  exact .delimited (f := id) .brace hopen (.many (stmt_related he hb))

theorem conditionalOf_related (he : Related n Stop expr expr')
    (hb : Related n Stop block block') (hc : Related n Stop conditional conditional') :
    Related (n + 1) Stop (conditionalOf expr block conditional)
      (conditionalOf expr' block' conditional') := by
  refine .withSpan (.stepJust (by simp [Stop]) (keyword_isInner _).1 ?_)
  refine .bind he fun _ => ?_
  refine .bind hb fun _ => ?_
  refine .bind (.optional (.bind (keyword_related _) fun _ => .or (.map hc) (.map hb))) fun _ => ?_
  exact .pure _

/-! ## Primary expressions -/

theorem simple_related (he : Related n Stop expr expr') :
    Related (n + 1) Stop (simple expr) (simple expr') := by
  refine .withSpan (.choice ⟨.token ?_ ?_, ?_, .map (keyword_related _), ?_, ?_, ?_, ?_,
    .map path_related, trivial⟩)
  · rintro t (h | h | h) <;> rw [h]
  · intro t kind hf
    split at hf
    · rename_i h
      rw [h]
      simp [TokenKind.side]
    · cases hf
  · exact .or (.map (keyword_related _)) (.map (keyword_related _))
  · refine .recoverDelimited (b := .paren) (by simp [Stop, Bracket.pair, parens]) ?_
    refine .delimited .paren (by simp [Stop, Bracket.pair, parens]) ?_
    exact he.weaken (Nat.le_refl n) fun k h => .inr (.inl h)
  · refine .stepJust (by simp [Stop]) (keyword_isInner _).1 ?_
    exact .bind (.optional he) fun _ => .pure _
  · refine .stepJust (by simp [Stop]) (keyword_isInner _).1 ?_
    refine .bind (.optional labelRef_related) fun _ => ?_
    refine .bind (.optional he) fun _ => ?_
    exact .pure _
  · refine .bind (keyword_related _) fun _ => ?_
    refine .bind (.optional labelRef_related) fun _ => ?_
    exact .pure _

theorem primary_related (he : Related n Stop expr expr')
    (hb : Related (n + 1) Stop block block') (hc : Related (n + 1) Stop conditional conditional')
    (labels : Bool) :
    Related (n + 1) Stop (primary expr block conditional labels)
      (primary expr' block' conditional' labels) := by
  refine .choice ⟨?_, hc, simple_related he, trivial⟩
  cases labels with
  | true => exact blockLike_related (Nat.le_succ n) (Nat.le_refl _) he hb
  | false => exact unlabeled_related (Nat.le_succ n) (Nat.le_refl _) he hb

/-! ## Operators -/

theorem suffix_related (he : Related n Stop expr expr') :
    Related (n + 1) Stop (suffix expr) (suffix expr') := by
  refine .withSpan (.choice ⟨.map ?_, ?_, .map (.just (by simp [Stop]) rfl), trivial⟩)
  · have hopen : ¬ Stop Bracket.paren.pair.opening := by simp [Stop, Bracket.pair, parens]
    unfold arguments
    refine .recoverDelimited (b := .paren) hopen (.withSpan ?_)
    refine .delimited (f := id) .paren hopen ?_
    exact (Related.sepBy (by simp [Stop]) rfl he).weaken (Nat.le_refl n) fun k h => .inr (.inl h)
  · refine .bind (.just (by simp [Stop]) rfl) fun _ => ?_
    refine .bind ident_related fun _ => ?_
    exact .pure _

theorem lead_related : Related n Stop lead lead := by
  have hmut : Related n Stop mutSpan mutSpan := .optional (.withSpan (keyword_related _))
  refine .withSpan (.choice ⟨.map (.just (by simp [Stop]) rfl), .map (.just (by simp [Stop]) rfl),
    ?_, ?_, trivial⟩)
  · refine .bind (.just (by simp [Stop]) rfl) fun _ => ?_
    refine .bind hmut fun _ => ?_
    exact .pure _
  · refine .bind (.just (by simp [Stop]) rfl) fun _ => ?_
    refine .bind hmut fun _ => ?_
    exact .pure _

theorem unary_related (hp : Related (n + 1) Stop operand operand')
    (he : Related n Stop expr expr') :
    Related (n + 1) Stop (unary operand expr) (unary operand' expr') := by
  have hpostfixed : Related (n + 1) Stop (postfixed operand expr) (postfixed operand' expr') := by
    rw [postfixed_eq, postfixed_eq]
    refine .bind hp fun _ => ?_
    refine .bind (.many (suffix_related he)) fun _ => ?_
    exact .pure _
  rw [unary_eq, unary_eq]
  refine .bind (.many lead_related) fun _ => ?_
  refine .bind hpostfixed fun _ => ?_
  exact .pure _

theorem binOp_related (op : BinOp) : Related n Stop (binOp op) (binOp op) := by
  refine .map (.just ?_ op.token_isInner.1)
  cases op <;> simp [Stop, BinOp.token]

theorem levels_related : ∀ op ∈ levels, Related n Stop op op := by
  simp only [levels, List.forall_mem_cons, List.not_mem_nil, false_imp_iff, implies_true, and_true]
  refine ⟨.choice ⟨?_, ?_, ?_, trivial⟩, .or ?_ ?_, .or ?_ ?_, ?_, ?_, ?_, .or ?_ ?_,
    .choice ⟨?_, ?_, ?_, ?_, trivial⟩, ?_, ?_⟩ <;> exact binOp_related _

theorem binary_related {op : Parser BinOp} (hp : Related n Stop operand operand')
    (hop : Related n Stop op op) : Related n Stop (binary operand op) (binary operand' op) := by
  rw [binary_eq, binary_eq]
  refine .bind hp fun _ => ?_
  refine .bind (.many ?_) fun _ => .pure _
  refine .bind (.withSpan hop) fun _ => ?_
  refine .bind hp fun _ => ?_
  exact .pure _

theorem operators_related (hp : Related (n + 1) Stop operand operand')
    (he : Related n Stop expr expr') :
    Related (n + 1) Stop (operators operand expr) (operators operand' expr') := by
  have fold : ∀ (ops : List (Parser BinOp)) (p q : Parser Expr),
      (∀ op ∈ ops, Related (n + 1) Stop op op) → Related (n + 1) Stop p q →
        Related (n + 1) Stop (ops.foldl binary p) (ops.foldl binary q) := by
    intro ops
    induction ops with
    | nil => exact fun p q _ h => h
    | cons op ops ih =>
      intro p q hops h
      rw [List.forall_mem_cons] at hops
      exact ih _ _ hops.2 (binary_related h hops.1)
  exact fold levels _ _ levels_related (unary_related hp he)

theorem assignment_related (hp : Related n Stop operand operand') :
    Related n Stop (assignment operand) (assignment operand') := by
  rw [assignment_eq, assignment_eq]
  refine .bind hp fun _ => ?_
  refine .bind (.many ?_) fun _ => .pure _
  exact .bind (.just (by simp [Stop]) rfl) fun _ => hp

end Productions

/-! ## The knot -/

/-- The depth may differ as long as the tokens in common are fewer: a parser that goes deeper has
read one of them. -/
theorem within_related (n : Nat) : ∀ d₁ d₂, n ≤ d₁ → n ≤ d₂ →
    Related n Stop (exprWithin d₁) (exprWithin d₂) ∧
      Related n Stop (blockWithin d₁) (blockWithin d₂) ∧
      Related n Stop (conditionalWithin d₁) (conditionalWithin d₂) := by
  induction n with
  | zero =>
    intro d₁ d₂ _ _
    refine ⟨?_, ?_, ?_⟩ <;> exact fun _ _ _ _ _ _ hv => absurd hv (Nat.not_lt_zero _)
  | succ n ih =>
    intro d₁ d₂ h₁ h₂
    obtain ⟨d₁, rfl⟩ : ∃ d, d₁ = d + 1 := ⟨d₁ - 1, by omega⟩
    obtain ⟨d₂, rfl⟩ : ∃ d, d₂ = d + 1 := ⟨d₂ - 1, by omega⟩
    obtain ⟨he, hb, hc⟩ := ih d₁ d₂ (by omega) (by omega)
    have hblock := blockOf_related he hb
    have hcond := conditionalOf_related he (hblock.weaken (Nat.le_succ n) fun _ h => h) hc
    rw [exprWithin, exprWithin, blockWithin, blockWithin, conditionalWithin, conditionalWithin]
    refine ⟨?_, hblock, hcond⟩
    exact assignment_related (operators_related (primary_related he hblock hcond true) he)

theorem expr_related (n : Nat) : Related n Stop expr expr := by
  intro t₁ t₂ v c₁ c₂ ht hv hc
  have h₁ := hc.length_le_left
  have h₂ := hc.length_le_right
  rw [expr, deferred_apply, deferred_apply]
  exact (within_related (v.length + 1) (c₁.left + 1) (c₂.left + 1) (by omega) (by omega)).1 ht
    (Nat.lt_succ_self _) hc

theorem typeExprWithin_related {n d₁ d₂ : Nat} (h₁ : n ≤ d₁) (h₂ : n ≤ d₂) :
    Related (n + 1) Stop (typeExprWithin (d₁ + 1)) (typeExprWithin (d₂ + 1)) := by
  obtain ⟨he, hb, hc⟩ := within_related n d₁ d₂ h₁ h₂
  have hblock := blockOf_related he hb
  have hcond := conditionalOf_related he (hblock.weaken (Nat.le_succ n) fun _ h => h) hc
  rw [typeExprWithin, typeExprWithin]
  refine .or (.token ?_ ?_) (.map (operators_related (primary_related he hblock hcond false) he))
  · rintro t (h | h | h) <;> rw [h]
  · intro t type hf
    split at hf
    · rename_i h
      rw [h]
      exact (keyword_isInner _).1
    · cases hf

theorem typeExpr_related (n : Nat) : Related n Stop typeExpr typeExpr := by
  intro t₁ t₂ v c₁ c₂ ht hv hc
  have h₁ := hc.length_le_left
  have h₂ := hc.length_le_right
  rw [typeExpr, deferred_apply, deferred_apply]
  exact typeExprWithin_related (n := v.length) (by omega) (by omega) ht (Nat.lt_succ_self _) hc

theorem header_related (n : Nat) : Related n Stop header header := by
  refine .choice ⟨.map (.just (by simp [Stop]) rfl), ?_, trivial⟩
  refine .bind (.just (by simp [Stop]) rfl) fun _ => ?_
  refine .bind (.optional (typeExpr_related n)) fun _ => ?_
  refine .bind (.or (.map (.just (by simp [Stop]) rfl)) (.map (.just (by simp [Stop]) rfl)))
    fun _ => ?_
  exact .pure _

end LunSyntax.Grammar
