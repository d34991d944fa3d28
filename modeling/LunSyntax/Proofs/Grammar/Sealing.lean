import LunSyntax.Proofs.Grammar.Locality
import LunSyntax.Proofs.Grammar.Soundness
import LunSyntax.Proofs.Parser.Sealing

/-!
# Definitions do not go on after they end

How a definition is read does not depend on whether it is the last one or another one, which starts
with a name, comes after it.

* `header_stays`: there is always a value to come after the header of a definition;
* `blockOf_shut`, `suffix_shut` and the like: what may go on after an expression does not start with
  a name;
* `expr_extends`, `definition_extends`: in front of tokens which end with a semicolon or a closing
  brace, expressions and definitions are read the same way, be these all or followed by a name.
-/

set_option autoImplicit false

namespace LunSyntax.Grammar

open LunSyntax.Parser

/-! ## What stays -/

theorem ident_stays : Stays ident :=
  .mono ident_reads fun name _ h k hk => by
    subst h
    cases hk
    exact name.token_isInner

theorem just_stays {kind : TokenKind} (h : kind.IsInner) : Stays (Parser.just kind) :=
  .mono (.just kind) fun _ _ hts k hk => by
    subst hts
    cases hk
    exact h

theorem labelRef_stays : Stays (optional labelRef) :=
  .mono labelRef_reads fun label _ h k hk => by
    subst h
    cases label with
    | none => cases hk
    | some label =>
      cases hk
      exact label.token_isInner

theorem lead_stays : Stays lead := by
  refine .mono lead_reads fun l ts hl k hk => ?_
  obtain ⟨l, span⟩ := l
  cases l with
  | unary op =>
    cases hl
    cases hk
    exact op.token_isInner
  | borrow mutSpan =>
    cases hl
    cases mutSpan <;> cases hk
    · exact ⟨rfl, by decide⟩
    · exact keyword_isInner _
  | doubleBorrow mutSpan =>
    cases hl
    cases mutSpan <;> cases hk
    · exact ⟨rfl, by decide⟩
    · exact keyword_isInner _

theorem binOp_stays (op : BinOp) : Stays (binOp op) :=
  .map (just_stays op.token_isInner) fun _ _ h => h

theorem levels_stay : ∀ op ∈ levels, Stays op := by
  have hchoice : ∀ ops : List BinOp, Stays (choice (ops.map binOp)) := fun ops =>
    .choice fun p hp => by
      obtain ⟨op, -, rfl⟩ := List.mem_map.1 hp
      exact binOp_stays op
  simp only [levels, List.forall_mem_cons, List.not_mem_nil, false_imp_iff, implies_true, and_true]
  refine ⟨hchoice [.mul, .div, .mod], .or ?_ ?_, .or ?_ ?_, ?_, ?_, ?_, .or ?_ ?_,
    hchoice [.gt, .gte, .lt, .lte], ?_, ?_⟩ <;> exact binOp_stays _

/-- There is always a value to come after a header. -/
theorem header_stays : Stays header := by
  have hlast : ∀ {type mutable ts}, HeaderDerives .recovering type mutable ts →
      ∀ k ∈ ts.getLast?, k.IsInner := by
    intro type mutable ts h k hk
    have hseparator : (separatorToken mutable).IsInner := by
      cases mutable <;> exact ⟨rfl, by decide⟩
    cases h with
    | joined =>
      cases hk
      exact ⟨rfl, by decide⟩
    | untyped =>
      cases hk
      exact hseparator
    | typed =>
      rw [List.getLast?_append] at hk
      cases hk
      exact hseparator
  exact .mono header_reads fun h ts => hlast

/-! ## What is shut -/

section Shut

variable {expr conditional : Parser Expr} {block : Parser Block}

theorem keyword_shut (word : String) : Shut (keyword word) := .just fun _ => by simp

theorem blockOf_shut : Shut (blockOf expr block) := by
  unfold blockOf
  exact .recoverDelimited (.check (.bind (.just fun _ => by simp))) fun _ => by simp [braces]

theorem arguments_shut : Shut (arguments expr) := by
  unfold arguments
  exact .recoverDelimited (.withSpan (.bind (.just fun _ => by simp))) fun _ => by simp [parens]

theorem suffix_shut : Shut (suffix expr) := by
  refine .withSpan (.choice ?_)
  simp only [List.forall_mem_cons, List.not_mem_nil, false_imp_iff, implies_true, and_true]
  exact ⟨.map arguments_shut, .bind (.just fun _ => by simp), .map (.just fun _ => by simp)⟩

theorem lead_shut : Shut lead := by
  refine .withSpan (.choice ?_)
  simp only [List.forall_mem_cons, List.not_mem_nil, false_imp_iff, implies_true, and_true]
  refine ⟨.map (.just ?_), .map (.just ?_), .bind (.just ?_), .bind (.just ?_)⟩ <;> simp

theorem binOp_shut (op : BinOp) : Shut (binOp op) :=
  .map (.just fun name => by cases op <;> simp [BinOp.token])

theorem levels_shut : ∀ op ∈ levels, Shut op := by
  have hchoice : ∀ (op : BinOp) (ops : List BinOp), Shut (choice ((op :: ops).map binOp)) :=
    fun op ops => .choice fun p hp => by
      obtain ⟨op, -, rfl⟩ := List.mem_map.1 (show p ∈ (op :: ops).map binOp from hp)
      exact binOp_shut op
  simp only [levels, List.forall_mem_cons, List.not_mem_nil, false_imp_iff, implies_true, and_true]
  refine ⟨hchoice .mul [.div, .mod], .or ?_ ?_, .or ?_ ?_, ?_, ?_, ?_, .or ?_ ?_,
    hchoice .gt [.gte, .lt, .lte], ?_, ?_⟩ <;> exact binOp_shut _

end Shut

/-! ## What does not go on -/

section Productions

variable {m n : Nat} {expr expr' conditional conditional' operand operand' : Parser Expr}
  {block block' : Parser Block}

theorem keyword_extends (word : String) : Extends n false (keyword word) (keyword word) :=
  .just (keyword_isInner word).1

theorem ident_extends : Extends n false ident ident := by
  refine .withSpan (.token fun t name hf => ?_)
  split at hf
  · rename_i h
    rw [h]
    simp [TokenKind.side]
  · cases hf

theorem labelRef_extends : Extends n false labelRef labelRef :=
  .justBind ⟨rfl, by decide⟩ ident_extends

theorem path_extends : Extends n false path path := by
  have hsegment : Extends n true (digraph .pathSep >>= fun _ => ident)
      (digraph .pathSep >>= fun _ => ident) :=
    .shut (.justBind ⟨rfl, by decide⟩ ident_extends) (.bind (.just fun _ => by simp))
      (.bind (.just fun _ => by simp))
  refine .bind (.or (.withSpan (keyword_extends _)) (.map ident_extends)) fun _ => ?_
  refine .bind (.many hsegment) fun _ => ?_
  exact .pure _

/-! ### Blocks and loops -/

theorem unlabeled_extends (hm : m ≤ n) (hn : n ≤ m + 1) (he : Extends m false expr expr')
    (hb : Extends n true block block') :
    Extends n false (unlabeled expr block) (unlabeled expr' block') := by
  have hb' : Extends m true block block' := hb.weaken hm
  refine .withSpan (.choice ⟨.map hb.before, ?_, ?_, ?_, trivial⟩)
  · refine (Extends.stepJust (keyword_isInner _) ?_).weaken hn
    refine .bind he fun _ => ?_
    refine .bind hb' fun _ => ?_
    exact .pure _
  · refine (Extends.stepJust (keyword_isInner _) ?_).weaken hn
    refine .bindStays ident_extends ident_stays fun _ => ?_
    refine .justBind (keyword_isInner _) ?_
    refine .bind he fun _ => ?_
    refine .bind hb' fun _ => ?_
    exact .pure _
  · refine (Extends.stepJust (keyword_isInner _) ?_).weaken hn
    exact .bind hb'.before fun _ => .pure _

theorem blockLike_extends (hm : m ≤ n) (hn : n ≤ m + 1) (he : Extends m false expr expr')
    (hb : Extends n true block block') :
    Extends n false (blockLike expr block) (blockLike expr' block') := by
  have hu := unlabeled_extends hm hn he hb
  refine .or (.withSpan ?_) hu
  refine .bindStays ident_extends ident_stays fun _ => ?_
  refine .justBind ⟨rfl, by decide⟩ ?_
  refine .bind hu fun _ => ?_
  exact .pure _

/-- What stands between the braces does not depend on what follows them at all. -/
theorem blockOf_extends (he : Related n Stop expr expr') (hb : Related n Stop block block') :
    Extends (n + 1) true (blockOf expr block) (blockOf expr' block') := by
  refine .shut ?_ blockOf_shut blockOf_shut
  unfold blockOf
  refine .recoverDelimited (b := .brace) (.check (.delimited (f := id) .brace ?_))
  exact .many (stmt_related he hb)

theorem conditionalOf_extends (he : Extends n false expr expr')
    (hb : Extends n true block block') (hc : Extends n false conditional conditional') :
    Extends (n + 1) false (conditionalOf expr block conditional)
      (conditionalOf expr' block' conditional') := by
  have helse : Extends n true
      (keyword "else" >>= fun _ =>
        (Alternative.chain <$> conditional).or (Alternative.block <$> block))
      (keyword "else" >>= fun _ =>
        (Alternative.chain <$> conditional').or (Alternative.block <$> block')) :=
    .shut (.justBind (keyword_isInner _) (.or (.map hc) (.map hb.before)))
      (.bind (keyword_shut _)) (.bind (keyword_shut _))
  refine .withSpan (.stepJust (keyword_isInner _) ?_)
  refine .bind he fun _ => ?_
  refine .bind hb fun _ => ?_
  refine .bind (.optional helse) fun _ => ?_
  exact .pure _

/-! ### Primary expressions -/

theorem simple_extends (he : Extends n false expr expr') (hr : Related n Stop expr expr') :
    Extends (n + 1) false (simple expr) (simple expr') := by
  refine .withSpan (.choice ⟨.token fun t kind hf => ?_, ?_, .map (keyword_extends _), ?_, ?_, ?_,
    ?_, .map path_extends, trivial⟩)
  · split at hf
    · rename_i h
      rw [h]
      simp [TokenKind.side]
    · cases hf
  · exact .or (.map (keyword_extends _)) (.map (keyword_extends _))
  · refine .recoverDelimited (b := .paren) (.delimited .paren ?_)
    exact hr.weaken (Nat.le_refl n) fun k h => .inr (.inl h)
  · refine .stepJust (keyword_isInner _) ?_
    exact .bind (.optional he) fun _ => .pure _
  · refine .stepJust (keyword_isInner _) ?_
    refine .bindStays (.optional labelRef_extends) labelRef_stays fun _ => ?_
    refine .bind (.optional he) fun _ => ?_
    exact .pure _
  · refine .justBind (keyword_isInner _) ?_
    refine .bind (.optional labelRef_extends) fun _ => ?_
    exact .pure _

theorem primary_extends (he : Extends n false expr expr') (hr : Related n Stop expr expr')
    (hb : Extends (n + 1) true block block')
    (hc : Extends (n + 1) false conditional conditional') (labels : Bool) :
    Extends (n + 1) false (primary expr block conditional labels)
      (primary expr' block' conditional' labels) := by
  refine .choice ⟨?_, hc, simple_extends he hr, trivial⟩
  cases labels with
  | true => exact blockLike_extends (Nat.le_succ n) (Nat.le_refl _) he hb
  | false => exact unlabeled_extends (Nat.le_succ n) (Nat.le_refl _) he hb

/-! ### Operators -/

theorem suffix_extends (hr : Related n Stop expr expr') :
    Extends (n + 1) true (suffix expr) (suffix expr') := by
  refine .shut (.withSpan (.choice ⟨.map ?_, ?_, .map (.just rfl), trivial⟩)) suffix_shut
    suffix_shut
  · unfold arguments
    refine .recoverDelimited (b := .paren) (.withSpan (.delimited (f := id) .paren ?_))
    exact (Related.sepBy (by simp [Stop]) rfl hr).weaken (Nat.le_refl n) fun k h => .inr (.inl h)
  · refine .justBind ⟨rfl, by decide⟩ ?_
    refine .bind ident_extends fun _ => ?_
    exact .pure _

theorem lead_extends : Extends n true lead lead := by
  have hmut : Extends n false mutSpan mutSpan := .optional (.withSpan (keyword_extends _))
  refine .shut (.withSpan (.choice ⟨.map (.just rfl), .map (.just rfl), ?_, ?_, trivial⟩)) lead_shut
    lead_shut
  · refine .justBind ⟨rfl, by decide⟩ ?_
    refine .bind hmut fun _ => ?_
    exact .pure _
  · refine .justBind ⟨rfl, by decide⟩ ?_
    refine .bind hmut fun _ => ?_
    exact .pure _

theorem unary_extends (hp : Extends (n + 1) false operand operand')
    (hr : Related n Stop expr expr') :
    Extends (n + 1) false (unary operand expr) (unary operand' expr') := by
  have hleads : Stays (many lead) := .many lead_stays
  have hpostfixed : Extends (n + 1) false (postfixed operand expr) (postfixed operand' expr') := by
    rw [postfixed_eq, postfixed_eq]
    refine .bind hp fun _ => ?_
    refine .bind (.many (suffix_extends hr)) fun _ => ?_
    exact .pure _
  rw [unary_eq, unary_eq]
  refine .bindStays (Extends.many lead_extends).before hleads fun _ => ?_
  refine .bind hpostfixed fun _ => ?_
  exact .pure _

theorem binOp_extends (op : BinOp) : Extends n false (binOp op) (binOp op) :=
  .map (.just op.token_isInner.1)

theorem levels_extend : ∀ op ∈ levels, Extends n false op op := by
  simp only [levels, List.forall_mem_cons, List.not_mem_nil, false_imp_iff, implies_true, and_true]
  refine ⟨.choice ⟨?_, ?_, ?_, trivial⟩, .or ?_ ?_, .or ?_ ?_, ?_, ?_, ?_, .or ?_ ?_,
    .choice ⟨?_, ?_, ?_, ?_, trivial⟩, ?_, ?_⟩ <;> exact binOp_extends _

theorem binary_extends {op : Parser BinOp} (hp : Extends n false operand operand')
    (hop : Extends n false op op) (hstays : Stays op) (hshut : Shut op) :
    Extends n false (binary operand op) (binary operand' op) := by
  have hoperator : Stays (operator op) := .withSpan hstays fun _ _ _ h => h
  rw [binary_eq, binary_eq]
  refine .bind hp fun _ => ?_
  refine .bind (.many (.shut ?_ (.bind (.withSpan hshut)) (.bind (.withSpan hshut))))
    fun _ => .pure _
  refine .bindStays (.withSpan hop) hoperator fun _ => ?_
  refine .bind hp fun _ => ?_
  exact .pure _

theorem operators_extend (hp : Extends (n + 1) false operand operand')
    (hr : Related n Stop expr expr') :
    Extends (n + 1) false (operators operand expr) (operators operand' expr') := by
  have fold : ∀ (ops : List (Parser BinOp)) (p q : Parser Expr), (∀ op ∈ ops, op ∈ levels) →
      Extends (n + 1) false p q →
        Extends (n + 1) false (ops.foldl binary p) (ops.foldl binary q) := by
    intro ops
    induction ops with
    | nil => exact fun p q _ h => h
    | cons op ops ih =>
      intro p q hops h
      obtain ⟨hop, hops⟩ := List.forall_mem_cons.1 hops
      exact ih _ _ hops (binary_extends h (levels_extend op hop) (levels_stay op hop)
        (levels_shut op hop))
  exact fold levels _ _ (fun _ h => h) (unary_extends hp hr)

theorem assignment_extends (hp : Extends n false operand operand') :
    Extends n false (assignment operand) (assignment operand') := by
  rw [assignment_eq, assignment_eq]
  refine .bind hp fun _ => ?_
  refine .bind (.many (.shut (.justBind ⟨rfl, by decide⟩ hp) ?_ ?_)) fun _ => .pure _
  · exact .bind (.just fun _ => by simp)
  · exact .bind (.just fun _ => by simp)

end Productions

/-! ## The knot -/

/-- The depth may differ as long as the tokens in common are fewer. -/
theorem within_extend (n : Nat) : ∀ d₁ d₂, n ≤ d₁ → n ≤ d₂ →
    Extends n false (exprWithin d₁) (exprWithin d₂) ∧
      Extends n false (conditionalWithin d₁) (conditionalWithin d₂) := by
  induction n with
  | zero =>
    intro d₁ d₂ _ _
    refine ⟨?_, ?_⟩ <;> exact fun _ _ _ _ _ _ hv => absurd hv (Nat.not_lt_zero _)
  | succ n ih =>
    intro d₁ d₂ h₁ h₂
    obtain ⟨d₁, rfl⟩ : ∃ d, d₁ = d + 1 := ⟨d₁ - 1, by omega⟩
    obtain ⟨d₂, rfl⟩ : ∃ d, d₂ = d + 1 := ⟨d₂ - 1, by omega⟩
    obtain ⟨he, hc⟩ := ih d₁ d₂ (by omega) (by omega)
    obtain ⟨hr, hb, -⟩ := within_related n d₁ d₂ (by omega) (by omega)
    have hblock := blockOf_extends hr hb
    have hcond := conditionalOf_extends he (hblock.weaken (Nat.le_succ n)) hc
    rw [exprWithin, exprWithin, conditionalWithin, conditionalWithin]
    refine ⟨?_, hcond⟩
    exact assignment_extends (operators_extend (primary_extends he hr hblock hcond true) hr)

theorem expr_extends (n : Nat) : Extends n false expr expr := by
  intro t v c₁ c₂ ht hs _ hb hc
  have h₁ := hc.length_le_left
  have h₂ := hc.length_le_right
  rw [expr, deferred_apply, deferred_apply]
  exact (within_extend (v.length + 1) (c₁.left + 1) (c₂.left + 1) (by omega) (by omega)).1 ht hs
    (Nat.lt_succ_self _) hb hc

theorem typeExprWithin_extends {n d₁ d₂ : Nat} (h₁ : n ≤ d₁) (h₂ : n ≤ d₂) :
    Extends (n + 1) false (typeExprWithin (d₁ + 1)) (typeExprWithin (d₂ + 1)) := by
  obtain ⟨he, hc⟩ := within_extend n d₁ d₂ h₁ h₂
  obtain ⟨hr, hb, -⟩ := within_related n d₁ d₂ h₁ h₂
  have hblock := blockOf_extends hr hb
  have hcond := conditionalOf_extends he (hblock.weaken (Nat.le_succ n)) hc
  rw [typeExprWithin, typeExprWithin]
  refine .or (.token fun t type hf => ?_)
    (.map (operators_extend (primary_extends he hr hblock hcond false) hr))
  split at hf
  · rename_i h
    rw [h]
    exact (keyword_isInner _).1
  · cases hf

theorem typeExpr_extends (n : Nat) : Extends n false typeExpr typeExpr := by
  intro t v c₁ c₂ ht hs _ hb hc
  have h₁ := hc.length_le_left
  have h₂ := hc.length_le_right
  rw [typeExpr, deferred_apply, deferred_apply]
  exact typeExprWithin_extends (n := v.length) (by omega) (by omega) ht hs (Nat.lt_succ_self _) hb
    hc

/-! ## Definitions -/

theorem header_extends (n : Nat) : Extends n false header header := by
  have hseparator : Extends n true
      (Parser.or ((fun _ => false) <$> control ':') ((fun _ => true) <$> control '='))
      (Parser.or ((fun _ => false) <$> control ':') ((fun _ => true) <$> control '=')) :=
    .or (.map (.shut (.just rfl) (.just fun _ => by simp) (.just fun _ => by simp)))
      (.map (.shut (.just rfl) (.just fun _ => by simp) (.just fun _ => by simp)))
  refine .choice ⟨.map (.just rfl), ?_, trivial⟩
  refine .justBind ⟨rfl, by decide⟩ ?_
  refine .bind (.optional (typeExpr_extends n)) fun _ => ?_
  refine .bind hseparator fun _ => ?_
  exact .pure _

/-- **A definition ends where it ends.**  In front of tokens which end with a semicolon or a closing
brace, it is read the same way, be these all or followed by a name. -/
theorem definition_extends (n : Nat) : Extends n false definition definition := by
  unfold definition
  refine .check ?_
  refine .bindStays ident_extends ident_stays fun _ => ?_
  refine .bindStays (header_extends n) header_stays fun _ => ?_
  refine .bind (expr_extends n) fun _ => ?_
  refine .bind (.optional (.shut (.just rfl) ?_ ?_)) fun _ => .pure _
  · exact .just fun _ => by simp
  · exact .just fun _ => by simp

end LunSyntax.Grammar
