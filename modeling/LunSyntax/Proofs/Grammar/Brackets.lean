import LunSyntax.Proofs.Grammar.Derivation

/-!
# Brackets

Parentheses and braces, and how the tokens of a derivation nest them.

* `nesting`: the brackets which are open after some tokens, the innermost first.  Tokens are
  `Balanced` when they close all they open, in the right order;
* `Balanced.split`: a balanced text which opens a bracket closes it, with a balanced text in between
  and another one behind;
* `Enclosed`: the tokens of an expression leave the brackets around them alone, and do not go past
  a semicolon which a balanced text follows.  `Expr.Derives.enclosed` has this of every expression,
  given up input included: `GlobalDef.Derives.reach` is what follows for a definition.
-/

set_option autoImplicit false

namespace LunSyntax

/-! ## Nesting -/

/-- The kinds of brackets. -/
inductive Bracket where
  | paren
  | brace
  deriving DecidableEq, Repr

/-- The delimiters of a bracket. -/
def Bracket.pair : Bracket → Parser.Delimiters
  | paren => Grammar.parens
  | brace => Grammar.braces

/-- What a token does to brackets. -/
inductive Side where
  | opens (bracket : Bracket)
  | closes (bracket : Bracket)
  | plain
  deriving DecidableEq, Repr

/-- What a token does to brackets. -/
def TokenKind.side (t : TokenKind) : Side :=
  if t = .control '(' then .opens .paren
  else if t = .control '{' then .opens .brace
  else if t = .control ')' then .closes .paren
  else if t = .control '}' then .closes .brace
  else .plain

theorem Bracket.eq_opening_iff (b : Bracket) (t : TokenKind) :
    t = b.pair.opening ↔ t.side = .opens b := by
  unfold TokenKind.side
  cases b <;> constructor <;> intro h <;> grind [Bracket.pair, Grammar.parens, Grammar.braces]

theorem Bracket.eq_closing_iff (b : Bracket) (t : TokenKind) :
    t = b.pair.closing ↔ t.side = .closes b := by
  unfold TokenKind.side
  cases b <;> constructor <;> intro h <;> grind [Bracket.pair, Grammar.parens, Grammar.braces]

/-- The brackets open after some tokens, the innermost first, where those of `stack` are open before
them; none where a bracket is closed which is not the innermost one. -/
def nesting : List Bracket → List TokenKind → Option (List Bracket)
  | stack, [] => some stack
  | stack, t :: rest =>
    match t.side, stack with
    | .opens b, stack => nesting (b :: stack) rest
    | .closes b, top :: stack => if b = top then nesting stack rest else none
    | .closes _, [] => none
    | .plain, stack => nesting stack rest

section Nesting

variable {s s' r : List Bracket} {u v : List TokenKind} {t : TokenKind} {b : Bracket}

theorem nesting_opens (ht : t.side = .opens b) : nesting s (t :: u) = nesting (b :: s) u := by
  simp only [nesting, ht]

theorem nesting_plain (ht : t.side = .plain) : nesting s (t :: u) = nesting s u := by
  simp only [nesting, ht]

theorem nesting_closes (ht : t.side = .closes b) : nesting (b :: s) (t :: u) = nesting s u := by
  simp only [nesting, ht, if_true]

/-- Only the innermost bracket can be closed. -/
theorem nesting_closes_eq_some (ht : t.side = .closes b) (h : nesting s (t :: u) = some s') :
    ∃ rest, s = b :: rest ∧ nesting rest u = some s' := by
  simp only [nesting, ht] at h
  cases s with
  | nil => cases h
  | cons top rest =>
    dsimp only at h
    split at h
    · rename_i hb
      exact ⟨rest, by rw [hb], h⟩
    · cases h

theorem nesting_append : nesting s (u ++ v) = (nesting s u).bind fun m => nesting m v := by
  fun_induction nesting s u <;> simp_all [nesting]

/-- Brackets further out do not matter as long as none of them is closed. -/
theorem nesting_over (h : nesting s u = some s') : nesting (s ++ r) u = some (s' ++ r) := by
  induction u generalizing s with
  | nil =>
    cases h
    rfl
  | cons t u ih =>
    cases ht : t.side with
    | opens b =>
      rw [nesting_opens ht] at h ⊢
      exact ih h
    | closes b =>
      obtain ⟨rest, rfl, h'⟩ := nesting_closes_eq_some ht h
      rw [List.cons_append, nesting_closes ht]
      exact ih h'
    | plain =>
      rw [nesting_plain ht] at h ⊢
      exact ih h

/-- Tokens that close one of the open brackets close it somewhere, and balance before that. -/
theorem nesting_split (h : nesting (r ++ b :: s) u = some s') (hle : s'.length ≤ s.length) :
    ∃ v t w, u = v ++ t :: w ∧ nesting r v = some [] ∧ t.side = .closes b ∧
      nesting s w = some s' := by
  induction u generalizing r with
  | nil =>
    cases h
    simp at hle
    omega
  | cons t u ih =>
    cases ht : t.side with
    | opens b' =>
      rw [nesting_opens ht, ← List.cons_append] at h
      obtain ⟨v, t', w, rfl, hv, ht', hw⟩ := ih h
      exact ⟨t :: v, t', w, rfl, by rw [nesting_opens ht, hv], ht', hw⟩
    | closes b' =>
      obtain ⟨rest, hrest, h⟩ := nesting_closes_eq_some ht h
      cases r with
      | nil =>
        cases hrest
        exact ⟨[], t, u, rfl, rfl, ht, h⟩
      | cons top r =>
        cases hrest
        obtain ⟨v, t', w, rfl, hv, ht', hw⟩ := ih h
        exact ⟨t :: v, t', w, rfl, by rw [nesting_closes ht, hv], ht', hw⟩
    | plain =>
      rw [nesting_plain ht] at h
      obtain ⟨v, t', w, rfl, hv, ht', hw⟩ := ih h
      exact ⟨t :: v, t', w, rfl, by rw [nesting_plain ht, hv], ht', hw⟩

end Nesting

/-! ## Balanced tokens -/

/-- Tokens which close all the brackets they open. -/
def Balanced (ts : List TokenKind) : Prop := nesting [] ts = some []

namespace Balanced

variable {u v : List TokenKind} {t : TokenKind} {b : Bracket}

theorem nil : Balanced [] := rfl

theorem nesting_eq (h : Balanced u) (s : List Bracket) : nesting s u = some s :=
  nesting_over (r := s) h

theorem append (hu : Balanced u) (hv : Balanced v) : Balanced (u ++ v) := by
  unfold Balanced
  rw [nesting_append, hu.nesting_eq]
  exact hv

theorem of_append (h : Balanced (u ++ v)) (hu : Balanced u) : Balanced v := by
  unfold Balanced at h
  rwa [nesting_append, hu.nesting_eq] at h

theorem tail (ht : t.side = .plain) (h : Balanced (t :: u)) : Balanced u := by
  unfold Balanced at h
  rwa [nesting_plain ht] at h

theorem dropLast (ht : t.side = .plain) (h : Balanced (u ++ [t])) : Balanced u := by
  unfold Balanced at h ⊢
  rw [nesting_append] at h
  obtain ⟨s, hs, h⟩ := Option.bind_eq_some_iff.1 h
  rw [nesting_plain ht] at h
  cases h
  exact hs

theorem not_closes (h : Balanced (t :: u)) : t.side ≠ .closes b := by
  intro ht
  obtain ⟨rest, hrest, -⟩ := nesting_closes_eq_some ht h
  cases hrest

/-- **A bracket which is opened is closed.** -/
theorem split (h : Balanced (t :: u)) (ht : t.side = .opens b) :
    ∃ v t' w, u = v ++ t' :: w ∧ Balanced v ∧ t'.side = .closes b ∧ Balanced w := by
  unfold Balanced at h
  rw [nesting_opens ht] at h
  exact nesting_split (r := []) h (Nat.le_refl _)

end Balanced

/-! ## Depth -/

section Depth

variable {s s' r : List Bracket} {u v w : List TokenKind} {b : Bracket} {d : Nat}

open LunSyntax.Parser (Delimiters)

theorem depthAfter_append (pair : Delimiters) :
    pair.depthAfter d (u ++ v) = (pair.depthAfter d u).bind fun m => pair.depthAfter m v := by
  fun_induction Delimiters.depthAfter pair d u with
  | case1 d => rfl
  | case2 d u ih => simp [Delimiters.depthAfter, ih]
  | case3 d u hopen hdepth => simp [Delimiters.depthAfter, hopen, hdepth]
  | case4 d u hopen hdepth ih => simp [Delimiters.depthAfter, hopen, hdepth, ih]
  | case5 d t u hopen hclose ih => simp [Delimiters.depthAfter, hopen, hclose, ih]

/-- Some delimiter is open all the way. -/
theorem one_le_depthAfter {pair : Delimiters} {m : Nat} (hd : 1 ≤ d)
    (h : pair.depthAfter d u = some m) : 1 ≤ m := by
  fun_induction Delimiters.depthAfter pair d u with
  | case1 d =>
    cases h
    exact hd
  | case2 d u ih => exact ih (by omega) h
  | case3 d u hopen hdepth => cases h
  | case4 d u hopen hdepth ih => exact ih (by omega) h
  | case5 d t u hopen hclose ih => exact ih hd h

/-- Where the nesting of all brackets is right, the depth of one kind is the number of its brackets
among the open ones. -/
theorem depthAfter_of_nesting (hd : 1 ≤ d) (h : nesting s u = some s') :
    b.pair.depthAfter (d + s.count b) u = some (d + s'.count b) := by
  induction u generalizing s with
  | nil =>
    cases h
    rfl
  | cons t u ih =>
    rw [Delimiters.depthAfter]
    simp only [b.eq_opening_iff, b.eq_closing_iff]
    cases ht : t.side with
    | opens b' =>
      rw [nesting_opens ht] at h
      have := ih h
      rw [List.count_cons] at this
      by_cases hb : b' = b
      · simp only [hb, if_true]
        simpa [hb, Nat.add_assoc] using this
      · simpa [hb] using this
    | closes b' =>
      obtain ⟨rest, rfl, h'⟩ := nesting_closes_eq_some ht h
      have := ih h'
      by_cases hb : b' = b
      · subst hb
        have hdepth : ¬ d + (b' :: rest).count b' ≤ 1 := by
          rw [List.count_cons_self]
          omega
        rw [if_neg (by simp), if_pos rfl, if_neg hdepth, List.count_cons_self]
        exact this
      · rw [List.count_cons_of_ne hb]
        simpa [hb] using this
    | plain =>
      rw [nesting_plain ht] at h
      simpa using ih h

/-- As long as the depth of one kind does not come down, the bracket it was counted from is open. -/
theorem nesting_of_depthAfter (h : nesting (r ++ b :: s) u = some s')
    (hd : b.pair.depthAfter (r.count b + 1) u = some d) :
    ∃ r', s' = r' ++ b :: s ∧ d = r'.count b + 1 := by
  induction u generalizing r with
  | nil =>
    cases h
    cases hd
    exact ⟨r, rfl, rfl⟩
  | cons t u ih =>
    rw [Delimiters.depthAfter] at hd
    simp only [b.eq_opening_iff, b.eq_closing_iff] at hd
    cases ht : t.side with
    | opens b' =>
      rw [nesting_opens ht, ← List.cons_append] at h
      refine ih h ?_
      by_cases hb : b' = b
      · simpa [ht, hb] using hd
      · simpa [ht, hb] using hd
    | closes b' =>
      obtain ⟨rest, hrest, h⟩ := nesting_closes_eq_some ht h
      cases r with
      | nil =>
        cases hrest
        simp [ht] at hd
      | cons top r =>
        cases hrest
        refine ih h ?_
        by_cases hb : b' = b
        · subst hb
          simpa [ht] using hd
        · simpa [ht, hb] using hd
    | plain =>
      rw [nesting_plain ht] at h
      exact ih h (by simpa [ht] using hd)

/-- A bracket which is open before a semicolon is not closed in a balanced text after it. -/
theorem depthAfter_ne_one (hw : Balanced (v ++ b.pair.closing :: w)) :
    b.pair.depthAfter 1 (u ++ .control ';' :: v) ≠ some 1 := by
  have hclose := (b.eq_closing_iff _).1 rfl
  intro h
  rw [depthAfter_append] at h
  obtain ⟨m, hm, h⟩ := Option.bind_eq_some_iff.1 h
  have hm1 := one_le_depthAfter (Nat.le_refl 1) hm
  rw [Delimiters.depthAfter, if_neg (by cases b <;> decide), if_neg (by cases b <;> decide)] at h
  unfold Balanced at hw
  rw [nesting_append] at hw
  obtain ⟨s, hs, hw⟩ := Option.bind_eq_some_iff.1 hw
  obtain ⟨rest, rfl, -⟩ := nesting_closes_eq_some hclose hw
  have hdepth := depthAfter_of_nesting (b := b) hm1 hs
  rw [List.count_nil, Nat.add_zero, h, List.count_cons_self, Option.some.injEq] at hdepth
  omega

end Depth

/-! ## Enclosed tokens -/

/-- Tokens which are neither brackets nor semicolons. -/
def TokenKind.IsInner (t : TokenKind) : Prop := t.side = .plain ∧ t ≠ .control ';'

/-- Tokens which leave the brackets around them as they are and do not go past a semicolon which a
balanced text follows.  When recovering, the former is known only where the nesting is right. -/
structure Enclosed (mode : Mode) (u : List TokenKind) : Prop where
  nesting_eq : ∀ s v, mode = .strict ∨ nesting s (u ++ v) ≠ none → nesting s u = some s
  before : ∀ g v w, Balanced w → u ++ v = g ++ .control ';' :: w → ∃ g', g = u ++ g'

/-- As `Enclosed`, for statements, which go on after a semicolon: past it they are balanced. -/
structure Contained (mode : Mode) (u : List TokenKind) : Prop where
  nesting_eq : ∀ s v, mode = .strict ∨ nesting s (u ++ v) ≠ none → nesting s u = some s
  before_or : ∀ g v w, Balanced w → u ++ v = g ++ .control ';' :: w →
    (∃ g', g = u ++ g') ∨ ∃ w', u = g ++ .control ';' :: w' ∧ w = w' ++ v ∧ Balanced w'

theorem Enclosed.contained {mode : Mode} {u : List TokenKind} (h : Enclosed mode u) :
    Contained mode u :=
  ⟨h.nesting_eq, fun g v w hw heq => .inl (h.before g v w hw heq)⟩

/-- What nests right in a row does so one after the other. -/
theorem nesting_eq_append {mode : Mode} {u v w : List TokenKind} {s : List Bracket}
    (hu : ∀ s v, mode = .strict ∨ nesting s (u ++ v) ≠ none → nesting s u = some s)
    (hv : ∀ s w, mode = .strict ∨ nesting s (v ++ w) ≠ none → nesting s v = some s)
    (h : mode = .strict ∨ nesting s (u ++ v ++ w) ≠ none) : nesting s (u ++ v) = some s := by
  rw [List.append_assoc] at h
  have hus := hu s (v ++ w) h
  rw [nesting_append, hus] at h ⊢
  exact hv s w h

namespace Enclosed

variable {mode : Mode} {u v : List TokenKind} {t : TokenKind}

theorem nil : Enclosed mode [] :=
  ⟨fun _ _ _ => rfl, fun g _ _ _ _ => ⟨g, rfl⟩⟩

theorem append (hu : Enclosed mode u) (hv : Enclosed mode v) : Enclosed mode (u ++ v) where
  nesting_eq _ _ := nesting_eq_append hu.nesting_eq hv.nesting_eq
  before g x w hw heq := by
    rw [List.append_assoc] at heq
    obtain ⟨g₁, rfl⟩ := hu.before g _ w hw heq
    rw [List.append_assoc, List.append_cancel_left_eq] at heq
    obtain ⟨g₂, rfl⟩ := hv.before g₁ x w hw heq
    exact ⟨g₂, (List.append_assoc ..).symm⟩

theorem token (ht : t.IsInner) : Enclosed mode [t] where
  nesting_eq s _ _ := by rw [nesting_plain ht.1]; rfl
  before g x w _ heq := by
    cases g with
    | nil => exact absurd (List.cons.inj heq).1 ht.2
    | cons t' g =>
      obtain ⟨rfl, -⟩ := List.cons.inj heq
      exact ⟨g, rfl⟩

theorem cons (ht : t.IsInner) (hu : Enclosed mode u) : Enclosed mode (t :: u) :=
  append (token ht) hu

/-- Brackets around tokens. -/
theorem delimited (b : Bracket) (hu : Contained mode u) :
    Enclosed mode (b.pair.opening :: u ++ [b.pair.closing]) where
  nesting_eq s x h := by
    have hopen := (b.eq_opening_iff _).1 rfl
    have hclose := (b.eq_closing_iff _).1 rfl
    rw [List.append_assoc, List.cons_append, nesting_opens hopen] at h
    rw [List.cons_append, nesting_opens hopen, nesting_append, hu.nesting_eq _ _ h]
    exact nesting_closes hclose
  before g x w hw heq := by
    have hopen : b.pair.opening ≠ .control ';' := by cases b <;> decide
    have hclose : b.pair.closing ≠ .control ';' := by cases b <;> decide
    cases g with
    | nil => exact absurd (List.cons.inj heq).1 hopen
    | cons t' g =>
      obtain ⟨rfl, hrest⟩ := List.cons.inj heq
      change u ++ [b.pair.closing] ++ x = g ++ _ at hrest
      rw [List.append_assoc] at hrest
      rcases hu.before_or g _ w hw hrest with ⟨g₁, rfl⟩ | ⟨w', -, rfl, hw'⟩
      · rw [List.append_assoc, List.append_cancel_left_eq] at hrest
        cases g₁ with
        | nil => exact absurd (List.cons.inj hrest).1 hclose
        | cons t' g₁ =>
          obtain ⟨rfl, -⟩ := List.cons.inj hrest
          exact ⟨g₁, by simp⟩
      · -- the closing bracket would stand behind the semicolon without its opening one
        exact absurd ((b.eq_closing_iff _).1 rfl) (hw.of_append hw').not_closes

/-- Tokens which were skipped up to a closing bracket. -/
theorem skipped (b : Bracket) (h : b.pair.Skipped u) : Enclosed .recovering u := by
  obtain ⟨inner, rfl, hdepth⟩ := h
  have hopen := (b.eq_opening_iff _).1 rfl
  have hclose := (b.eq_closing_iff _).1 rfl
  refine ⟨fun s x h => ?_, fun g x w hw heq => ?_⟩
  · replace h := h.resolve_left (by simp)
    rw [List.append_assoc, List.cons_append, nesting_opens hopen, nesting_append] at h
    cases hin : nesting (b :: s) inner with
    | none => simp [hin] at h
    | some s' =>
      obtain ⟨r, rfl, hr⟩ := nesting_of_depthAfter (r := []) hin hdepth
      simp only [hin, Option.bind_some, List.singleton_append] at h
      obtain ⟨s'', hs''⟩ := Option.ne_none_iff_exists'.1 h
      obtain ⟨rest, hrest, -⟩ := nesting_closes_eq_some hclose hs''
      -- no bracket of this kind was opened in between, so it is the first one that closes
      have hnil : r = [] := by
        cases r with
        | nil => rfl
        | cons top r =>
          cases hrest
          simp at hr
      rw [List.cons_append, nesting_opens hopen, nesting_append, hin, hnil]
      exact nesting_closes hclose
  · cases g with
    | nil => exact absurd (List.cons.inj heq).1 (by cases b <;> decide)
    | cons t' g =>
      obtain ⟨rfl, hrest⟩ := List.cons.inj heq
      change inner ++ [b.pair.closing] ++ x = g ++ _ at hrest
      rw [List.append_assoc] at hrest
      rcases List.append_eq_append_iff.1 hrest with ⟨g₁, rfl, hg₁⟩ | ⟨w', rfl, hw'⟩
      · cases g₁ with
        | nil => exact absurd (List.cons.inj hg₁).1 (by cases b <;> decide)
        | cons t' g₁ =>
          obtain ⟨rfl, -⟩ := List.cons.inj hg₁
          exact ⟨g₁, by simp⟩
      · cases w' with
        | nil => exact absurd (List.cons.inj hw').1 (by cases b <;> decide)
        | cons t' w' =>
          obtain ⟨rfl, rfl⟩ := List.cons.inj hw'
          exact absurd hdepth (depthAfter_ne_one hw)

end Enclosed

namespace Contained

variable {mode : Mode} {u v : List TokenKind}

theorem semicolon (semicolon : Bool) : Contained mode (semicolonTokens semicolon) := by
  cases semicolon with
  | false => exact Enclosed.nil.contained
  | true =>
    refine ⟨fun s v _ => rfl, fun g v w hw heq => ?_⟩
    cases g with
    | nil =>
      obtain ⟨-, rfl⟩ := List.cons.inj heq
      exact .inr ⟨[], rfl, rfl, .nil⟩
    | cons t g =>
      obtain ⟨rfl, -⟩ := List.cons.inj heq
      exact .inl ⟨g, rfl⟩

theorem append (hu : Contained mode u) (hv : Contained mode v) : Contained mode (u ++ v) where
  nesting_eq _ _ := nesting_eq_append hu.nesting_eq hv.nesting_eq
  before_or g x w hw heq := by
    rw [List.append_assoc] at heq
    rcases hu.before_or g _ w hw heq with ⟨g₁, rfl⟩ | ⟨w', rfl, rfl, hw'⟩
    · rw [List.append_assoc, List.append_cancel_left_eq] at heq
      rcases hv.before_or g₁ x w hw heq with ⟨g₂, rfl⟩ | ⟨w', rfl, hw', hb⟩
      · exact .inl ⟨g₂, by simp⟩
      · exact .inr ⟨w', by simp, hw', hb⟩
    · -- all of `v` stands behind the semicolon
      have hvx := hw.of_append hw'
      have hbal : Balanced v := hv.nesting_eq [] x (.inr (by simp [show nesting [] _ = _ from hvx]))
      exact .inr ⟨w' ++ v, by simp, by simp, hw'.append hbal⟩

end Contained

/-! ## Derivations -/

theorem Ident.token_isInner (name : Ident) : name.token.IsInner := by
  simp [TokenKind.IsInner, TokenKind.side, Ident.token]

theorem BinOp.token_isInner (op : BinOp) : op.token.IsInner := by
  cases op <;> exact ⟨rfl, by decide⟩

theorem UnOp.token_isInner (op : UnOp) : op.token.IsInner := by
  cases op <;> exact ⟨rfl, by decide⟩

theorem keyword_isInner (word : String) : (TokenKind.keyword word).IsInner := by
  simp [TokenKind.IsInner, TokenKind.side]

theorem labelTokens_enclosed {mode : Mode} (label : Option Ident) :
    Enclosed mode (labelTokens label) := by
  cases label with
  | none => exact .nil
  | some label => exact .cons ⟨rfl, by decide⟩ (.token label.token_isInner)

theorem mutTokens_enclosed {mode : Mode} (mutSpan : Option Span) :
    Enclosed mode (mutTokens mutSpan) := by
  cases mutSpan with
  | none => exact .nil
  | some _ => exact .token (keyword_isInner _)

theorem Path.tokens_enclosed {mode : Mode} (p : Path) : Enclosed mode p.tokens := by
  obtain ⟨root, segments⟩ := p
  refine .cons ?_ ?_
  · cases root with
    | orb => exact keyword_isInner _
    | ident name => exact name.token_isInner
  · dsimp only
    induction segments with
    | nil => exact .nil
    | cons segment segments ih =>
      rw [List.flatMap_cons]
      exact .append (.cons ⟨rfl, by decide⟩ (.token segment.token_isInner)) ih

mutual

theorem Expr.Derives.enclosed {mode : Mode} {e : Expr} {ts : List TokenKind} :
    e.Derives mode ts → Enclosed mode ts
  | .bool => .token (keyword_isInner _)
  | .literal => .token ⟨by simp [TokenKind.side], by simp⟩
  | .null => .token (keyword_isInner _)
  | .paren h => .delimited .paren h.enclosed.contained
  | .path => Path.tokens_enclosed _
  | .binary hl _ hr _ => .append hl.enclosed (.cons (BinOp.token_isInner _) hr.enclosed)
  | .assign hl _ hr => .append hl.enclosed (.cons ⟨rfl, by decide⟩ hr.enclosed)
  | .unary h _ => .cons (UnOp.token_isInner _) h.enclosed
  | .borrow h _ => .cons ⟨rfl, by decide⟩ (.append (mutTokens_enclosed _) h.enclosed)
  | .doubleBorrow h _ => .cons ⟨rfl, by decide⟩ (.append (mutTokens_enclosed _) h.enclosed)
  | .deref h _ => .append h.enclosed (.token ⟨rfl, by decide⟩)
  | .call h _ ha => .append h.enclosed ha.enclosed
  | .field h _ => .append h.enclosed (.cons ⟨rfl, by decide⟩ (.token (Ident.token_isInner _)))
  | .conditional hc hb ha =>
    .append (.append (.cons (keyword_isInner _) hc.enclosed) hb.enclosed) ha.enclosed
  | .ret h => .cons (keyword_isInner _) h.enclosed
  | .brk h => .append (.cons (keyword_isInner _) (labelTokens_enclosed _)) h.enclosed
  | .cont => .cons (keyword_isInner _) (labelTokens_enclosed _)
  | .block h => h.enclosed
  | .whileLoop hc hb => .append (.cons (keyword_isInner _) hc.enclosed) hb.enclosed
  | .forLoop hi hb =>
    .append (.cons (keyword_isInner _) (.cons (Ident.token_isInner _)
      (.cons (keyword_isInner _) hi.enclosed))) hb.enclosed
  | .loop h => .cons (keyword_isInner _) h.enclosed
  | .labeled h _ => .cons (Ident.token_isInner _) (.cons ⟨rfl, by decide⟩ h.enclosed)
  | .skipped hm h => hm ▸ .skipped .paren h

theorem ValueDerives.enclosed {mode : Mode} {value : Option Expr} {ts : List TokenKind} :
    ValueDerives mode value ts → Enclosed mode ts
  | .none => .nil
  | .some h => h.enclosed

theorem Arguments.Derives.enclosed {mode : Mode} {args : Arguments} {ts : List TokenKind} :
    args.Derives mode ts → Enclosed mode ts
  | .list h => .delimited .paren h.enclosed.contained
  | .skipped hm h => hm ▸ .skipped .paren h

theorem ArgsDerive.enclosed {mode : Mode} {args : List Expr} {ts : List TokenKind} :
    ArgsDerive mode args ts → Enclosed mode ts
  | .nil => .nil
  | .last h => h.enclosed
  | .trailing h => .append h.enclosed (.token ⟨rfl, by decide⟩)
  | .cons h hs => .append h.enclosed (.cons ⟨rfl, by decide⟩ hs.enclosed)

theorem AlternativeDerives.enclosed {mode : Mode} {alternative : Option Alternative}
    {ts : List TokenKind} : AlternativeDerives mode alternative ts → Enclosed mode ts
  | .none => .nil
  | .chain h _ => .cons (keyword_isInner _) h.enclosed
  | .block h => .cons (keyword_isInner _) h.enclosed

theorem Block.Derives.enclosed {mode : Mode} {block : Block} {ts : List TokenKind} :
    block.Derives mode ts → Enclosed mode ts
  | .value hs he => .delimited .brace (.append hs.contained he.enclosed.contained)
  | .noValue hs _ => .delimited .brace hs.contained
  | .skipped hm h => hm ▸ .skipped .brace h

theorem StmtsDerive.contained {mode : Mode} {stmts : List Stmt} {ts : List TokenKind} :
    StmtsDerive mode stmts ts → Contained mode ts
  | .nil => Enclosed.nil.contained
  | .cons h _ hs => .append (.append h.enclosed.contained (.semicolon _)) hs.contained

end

theorem TypeExpr.Derives.enclosed {mode : Mode} {type : TypeExpr} {ts : List TokenKind}
    (h : type.Derives mode ts) : Enclosed mode ts := by
  cases h with
  | primitive => exact .token (keyword_isInner _)
  | expr h _ _ => exact h.enclosed

theorem HeaderDerives.enclosed {mode : Mode} {type : Option TypeExpr} {mutable : Bool}
    {ts : List TokenKind} (h : HeaderDerives mode type mutable ts) : Enclosed mode ts := by
  have hsep : (separatorToken mutable).IsInner := by cases mutable <;> exact ⟨rfl, by decide⟩
  cases h with
  | joined => exact .token ⟨rfl, by decide⟩
  | untyped => exact .cons ⟨rfl, by decide⟩ (.token hsep)
  | typed h => exact .append (.cons ⟨rfl, by decide⟩ h.enclosed) (.token hsep)

namespace GlobalDef.Derives

variable {mode : Mode} {d : GlobalDef} {ts : List TokenKind}

theorem balanced (h : d.Derives .strict ts) : Balanced ts := by
  cases h with
  | @intro name _ _ _ semicolon _ _ hh hv _ =>
    have he := Enclosed.append (.cons name.token_isInner hh.enclosed) hv.enclosed
    exact (he.contained.append (.semicolon semicolon)).nesting_eq [] [] (.inl rfl)

/-- **A definition ends with a semicolon at the latest**, if what follows that is balanced. -/
theorem reach {g v w : List TokenKind} (h : d.Derives mode ts) (hw : Balanced w)
    (heq : ts ++ v = g ++ .control ';' :: w) :
    (∃ g', g = ts ++ g') ∨ ts = g ++ [.control ';'] := by
  cases h with
  | @intro name _ _ _ semicolon _ _ hh hv _ =>
    have he := Enclosed.append (.cons name.token_isInner hh.enclosed) hv.enclosed
    rw [List.append_assoc] at heq
    obtain ⟨g₁, rfl⟩ := he.before g _ w hw heq
    cases semicolon with
    | false => exact .inl ⟨g₁, by simp [semicolonTokens]⟩
    | true =>
      rw [List.append_assoc _ g₁, List.append_cancel_left_eq] at heq
      cases g₁ with
      | nil => exact .inr (by simp [semicolonTokens])
      | cons t g₁ =>
        obtain ⟨rfl, -⟩ := List.cons.inj heq
        exact .inl ⟨g₁, by simp [semicolonTokens]⟩

end GlobalDef.Derives

theorem ItemsDerive.balanced {items : List Item} {ts : List TokenKind}
    (h : ItemsDerive .strict items ts) : Balanced ts := by
  induction h with
  | nil => exact .nil
  | cons h _ ih => exact h.balanced.append ih

end LunSyntax
