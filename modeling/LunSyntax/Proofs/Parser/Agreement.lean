import LunSyntax.Proofs.Grammar.Brackets
import LunSyntax.Proofs.Parser.Evaluation

/-!
# Parsers which agree

Two inputs may have tokens in common and go on in different ways.  As long as the common tokens are
balanced and the same token, one that no parser takes, stops them in both inputs, a parser cannot
tell the inputs apart.

* `Cursor.Beside`: two places with the same tokens in front of two tails;
* `Agree`: two outcomes with the same value, which end beside each other.  Their complaints need
  only be at corresponding places, since nothing else decides how a parse goes on;
* `Parser.Related`: parsers whose outcomes agree wherever their inputs have fewer than `n` tokens
  in common.  There is one lemma for each way to combine parsers.
-/

set_option autoImplicit false

namespace LunSyntax

/-! ## Corresponding places -/

/-- Complaints at corresponding places of inputs which end in tails of `n₁` and of `n₂` tokens. -/
def Levels (n₁ n₂ : Nat) (as bs : List Complaint) : Prop :=
  as.map (fun a => a.left + n₂) = bs.map (fun b => b.left + n₁)

namespace Levels

variable {n₁ n₂ : Nat} {as bs as' bs' : List Complaint} {a b a' b' : Complaint}
  {o p o' p' : Option Complaint}

theorem nil : Levels n₁ n₂ [] [] := rfl

theorem single (h : a.left + n₂ = b.left + n₁) : Levels n₁ n₂ [a] [b] := by
  simpa [Levels] using h

theorem left_eq (h : Levels n₁ n₂ [a] [b]) : a.left + n₂ = b.left + n₁ := by
  simpa [Levels] using h

theorem symm (h : Levels n₁ n₂ as bs) : Levels n₂ n₁ bs as := Eq.symm h

theorem append (h : Levels n₁ n₂ as bs) (h' : Levels n₁ n₂ as' bs') :
    Levels n₁ n₂ (as ++ as') (bs ++ bs') := by
  unfold Levels at *
  rw [List.map_append, List.map_append, h, h']

theorem length_eq (h : Levels n₁ n₂ as bs) : as.length = bs.length := by
  simpa using congrArg List.length h

theorem eq_nil_iff (h : Levels n₁ n₂ as bs) : as = [] ↔ bs = [] := by
  rw [← List.length_eq_zero_iff, h.length_eq, List.length_eq_zero_iff]

theorem getLast? (h : Levels n₁ n₂ as bs) :
    Levels n₁ n₂ as.getLast?.toList bs.getLast?.toList := by
  have := congrArg (fun l => l.getLast?.toList) h
  simpa [Levels, Option.toList_map] using this

/-- What is common to the tails does not matter. -/
theorem add_iff {m : Nat} : Levels (m + n₁) (m + n₂) as bs ↔ Levels n₁ n₂ as bs := by
  have shift : ∀ (k : Nat) (l : List Complaint), l.map (fun a => a.left + (m + k)) =
      (l.map (fun a => a.left + k)).map (m + ·) := by
    intro k l
    rw [List.map_map]
    exact List.map_congr_left fun a _ => by simp; omega
  unfold Levels
  rw [shift, shift, List.map_inj_right fun x y h => by omega]

/-! ### Joined complaints -/

theorem join_left (a b : Complaint) : (a.join b).left = min a.left b.left := by
  unfold Complaint.join Complaint.merge
  split
  · omega
  · split
    · omega
    · dsimp only
      omega

theorem join (h : Levels n₁ n₂ [a] [b]) (h' : Levels n₁ n₂ [a'] [b']) :
    Levels n₁ n₂ [a.join a'] [b.join b'] := by
  have := h.left_eq
  have := h'.left_eq
  refine single ?_
  rw [join_left, join_left]
  omega

theorem joinOption (h : Levels n₁ n₂ [a] [b]) (h' : Levels n₁ n₂ o.toList p.toList) :
    Levels n₁ n₂ [a.joinOption o] [b.joinOption p] := by
  cases o <;> cases p
  · exact h
  · exact absurd h'.length_eq (by simp)
  · exact absurd h'.length_eq (by simp)
  · exact h.join h'

theorem joinOptions (h : Levels n₁ n₂ o.toList p.toList) (h' : Levels n₁ n₂ o'.toList p'.toList) :
    Levels n₁ n₂ (Complaint.joinOptions o o').toList (Complaint.joinOptions p p').toList := by
  cases o' <;> cases p'
  · exact h
  · exact absurd h'.length_eq (by simp)
  · exact absurd h'.length_eq (by simp)
  · exact joinOption h' h

theorem joinAll (h : Levels n₁ n₂ [a] [b]) (h' : Levels n₁ n₂ as bs) :
    Levels n₁ n₂ [a.joinAll as] [b.joinAll bs] := by
  induction as generalizing a b bs with
  | nil =>
    rw [h'.eq_nil_iff.1 rfl]
    exact h
  | cons x as ih =>
    cases bs with
    | nil => exact absurd h'.length_eq (by simp)
    | cons y bs =>
      obtain ⟨hxy, hrest⟩ := List.cons.inj h'
      exact ih (a := x.join a) (b := y.join b) (join (single hxy) h) hrest

theorem or (h : Levels n₁ n₂ o.toList p.toList) (h' : Levels n₁ n₂ [a] [b]) :
    Levels n₁ n₂ (o.or (some a)).toList (p.or (some b)).toList := by
  cases o <;> cases p
  · exact h'
  · exact absurd h.length_eq (by simp)
  · exact absurd h.length_eq (by simp)
  · exact h

theorem furtherLast_eq (h : Levels n₁ n₂ o.toList p.toList)
    (h' : Levels n₁ n₂ o'.toList p'.toList) :
    Parser.furtherLast o o' = Parser.furtherLast p p' := by
  cases o <;> cases p
  · rfl
  · exact absurd h.length_eq (by simp)
  · exact absurd h.length_eq (by simp)
  · cases o' <;> cases p'
    · rfl
    · exact absurd h'.length_eq (by simp)
    · exact absurd h'.length_eq (by simp)
    · have := h.left_eq
      have := h'.left_eq
      unfold Parser.furtherLast
      grind

theorem shorter_eq (h : Levels n₁ n₂ as bs) (h' : Levels n₁ n₂ as' bs') :
    Parser.shorter as as' = Parser.shorter bs bs' := by
  unfold Parser.shorter
  rw [h.length_eq, h'.length_eq]

end Levels

/-! ## Places -/

/-- What stands behind the tokens that two inputs have in common: nothing in both of them, or the
same token, which is one to stop at. -/
def Tails (K : TokenKind → Prop) (t₁ t₂ : List Lexeme) : Prop :=
  (t₁ = [] ∧ t₂ = []) ∨ ∃ k r₁ r₂, t₁ = k :: r₁ ∧ t₂ = k :: r₂ ∧ K k.node

/-- Places with the same balanced tokens in front of two tails. -/
structure Cursor.Beside (t₁ t₂ v : List Lexeme) (c₁ c₂ : Cursor) : Prop where
  rest_left : c₁.rest = v ++ t₁
  rest_right : c₂.rest = v ++ t₂
  balanced : Balanced (v.map Spanned.node)
  source : c₁.finish.source = c₂.finish.source
  finish : t₁ = [] → t₂ = [] → c₁.finish = c₂.finish

/-- Places beside each other, reached from other such places. -/
structure Cursor.Onward (t₁ t₂ v : List Lexeme) (c₁ c₂ : Cursor) (v' : List Lexeme)
    (a₁ a₂ : Cursor) : Prop where
  beside : Cursor.Beside t₁ t₂ v' a₁ a₂
  suffix : v' <:+ v
  finish_left : a₁.finish = c₁.finish
  finish_right : a₂.finish = c₂.finish
  lastStop : a₁.lastStop = a₂.lastStop ∨ a₁ = c₁ ∧ a₂ = c₂

theorem Balanced.split_lexemes {b : Bracket} {t : Lexeme} {v : List Lexeme}
    (h : Balanced ((t :: v).map Spanned.node)) (ht : t.node = b.pair.opening) :
    ∃ w k x, v = w ++ k :: x ∧ Balanced (w.map Spanned.node) ∧ k.node = b.pair.closing ∧
      Balanced (x.map Spanned.node) := by
  obtain ⟨w, k, x, heq, hw, hk, hx⟩ := h.split ((b.eq_opening_iff _).1 ht)
  obtain ⟨w, y, rfl, rfl, hy⟩ := List.map_eq_append_iff.1 heq
  obtain ⟨k, x, rfl, rfl, rfl⟩ := List.map_eq_cons_iff.1 hy
  exact ⟨w, k, x, rfl, hw, (b.eq_closing_iff _).2 hk, hx⟩

/-- Whether a bracket opens is seen among the tokens in common. -/
def Cursor.Opens (b : Bracket) (v : List Lexeme) (c₁ c₂ : Cursor) : Prop :=
  ((∀ t ∈ c₁.rest.head?, t.node ≠ b.pair.opening) ∧
    ∀ t ∈ c₂.rest.head?, t.node ≠ b.pair.opening) ∨
  ∃ t v', v = t :: v' ∧ t.node = b.pair.opening

namespace Cursor.Beside

variable {K : TokenKind → Prop} {t₁ t₂ v : List Lexeme} {c₁ c₂ : Cursor}

theorem symm (h : Beside t₁ t₂ v c₁ c₂) : Beside t₂ t₁ v c₂ c₁ :=
  ⟨h.rest_right, h.rest_left, h.balanced, h.source.symm, fun h₂ h₁ => (h.finish h₁ h₂).symm⟩

theorem left_eq (h : Beside t₁ t₂ v c₁ c₂) : c₁.left + t₂.length = c₂.left + t₁.length := by
  rw [c₁.left_eq, c₂.left_eq, h.rest_left, h.rest_right]
  simp only [List.length_append]
  omega

theorem length_le_left (h : Beside t₁ t₂ v c₁ c₂) : v.length ≤ c₁.left := by
  rw [c₁.left_eq, h.rest_left, List.length_append]
  exact Nat.le_add_right _ _

theorem length_le_right (h : Beside t₁ t₂ v c₁ c₂) : v.length ≤ c₂.left := h.symm.length_le_left

theorem here_eq (h : Beside t₁ t₂ v c₁ c₂) (ht : Tails K t₁ t₂) : c₁.here = c₂.here := by
  unfold Cursor.here
  rw [h.rest_left, h.rest_right]
  cases v with
  | cons t v => rfl
  | nil =>
    rcases ht with ⟨rfl, rfl⟩ | ⟨k, r₁, r₂, rfl, rfl, -⟩
    · exact h.finish rfl rfl
    · rfl

theorem head_eq (h : Beside t₁ t₂ v c₁ c₂) (ht : Tails K t₁ t₂) :
    c₁.rest.head? = c₂.rest.head? := by
  rw [h.rest_left, h.rest_right]
  cases v with
  | cons t v => rfl
  | nil =>
    rcases ht with ⟨rfl, rfl⟩ | ⟨k, r₁, r₂, rfl, rfl, -⟩
    · rfl
    · rfl

/-- The next token is one in common, or one to stop at. -/
theorem head_cases (h : Beside t₁ t₂ v c₁ c₂) (ht : Tails K t₁ t₂) {t : Lexeme}
    (hmem : t ∈ c₁.rest.head?) : (∃ v', v = t :: v') ∨ v = [] ∧ K t.node := by
  rw [h.rest_left] at hmem
  cases v with
  | cons s v =>
    cases hmem
    exact .inl ⟨v, rfl⟩
  | nil =>
    rcases ht with ⟨rfl, rfl⟩ | ⟨k, r₁, r₂, rfl, rfl, hk⟩
    · cases hmem
    · cases hmem
      exact .inr ⟨rfl, hk⟩

theorem opens_or {b : Bracket} (h : Beside t₁ t₂ v c₁ c₂) (ht : Tails K t₁ t₂)
    (hK : ¬ K b.pair.opening) : Opens b v c₁ c₂ := by
  unfold Opens
  rw [← h.head_eq ht, and_self]
  by_cases hopen : ∃ t v', v = t :: v' ∧ t.node = b.pair.opening
  · exact .inr hopen
  · refine .inl fun t hmem heq => ?_
    rcases h.head_cases ht hmem with ⟨v', hv⟩ | ⟨-, hk⟩
    · exact hopen ⟨t, v', hv, heq⟩
    · exact hK (heq ▸ hk)

theorem levels_unexpected (h : Beside t₁ t₂ v c₁ c₂) (expected : List (Option TokenKind)) :
    Levels t₁.length t₂.length [c₁.unexpected expected] [c₂.unexpected expected] :=
  .single h.left_eq

/-- Read a token in common. -/
theorem step {t : Lexeme} (h : Beside t₁ t₂ (t :: v) c₁ c₂) (hplain : t.node.side = .plain) :
    ∃ a₁ a₂, c₁.next? = some (t, a₁) ∧ c₂.next? = some (t, a₂) ∧
      Onward t₁ t₂ (t :: v) c₁ c₂ v a₁ a₂ := by
  obtain ⟨a₁, hn₁, hr₁, hl₁, hf₁⟩ := Cursor.next?_of_rest h.rest_left
  obtain ⟨a₂, hn₂, hr₂, hl₂, hf₂⟩ := Cursor.next?_of_rest h.rest_right
  refine ⟨a₁, a₂, hn₁, hn₂, ⟨hr₁, hr₂, h.balanced.tail hplain, ?_, ?_⟩, List.suffix_cons t v, hf₁,
    hf₂, .inl (hl₁.trans hl₂.symm)⟩
  · rw [hf₁, hf₂]
    exact h.source
  · rw [hf₁, hf₂]
    exact h.finish

theorem refl (h : Beside t₁ t₂ v c₁ c₂) : Onward t₁ t₂ v c₁ c₂ v c₁ c₂ :=
  ⟨h, List.suffix_refl v, rfl, rfl, .inr ⟨rfl, rfl⟩⟩

end Cursor.Beside

namespace Cursor.Onward

variable {t₁ t₂ v v' v'' : List Lexeme} {c₁ c₂ a₁ a₂ b₁ b₂ : Cursor}

theorem length_le (h : Onward t₁ t₂ v c₁ c₂ v' a₁ a₂) : v'.length ≤ v.length := h.suffix.length_le

theorem symm (h : Onward t₁ t₂ v c₁ c₂ v' a₁ a₂) : Onward t₂ t₁ v c₂ c₁ v' a₂ a₁ :=
  ⟨h.beside.symm, h.suffix, h.finish_right, h.finish_left, h.lastStop.imp Eq.symm And.symm⟩

theorem trans (h : Onward t₁ t₂ v c₁ c₂ v' a₁ a₂) (h' : Onward t₁ t₂ v' a₁ a₂ v'' b₁ b₂) :
    Onward t₁ t₂ v c₁ c₂ v'' b₁ b₂ := by
  refine ⟨h'.beside, h'.suffix.trans h.suffix, h'.finish_left.trans h.finish_left,
    h'.finish_right.trans h.finish_right, ?_⟩
  rcases h'.lastStop with hlast | ⟨rfl, rfl⟩
  · exact .inl hlast
  · exact h.lastStop

theorem left_lt_left (h : Onward t₁ t₂ v c₁ c₂ v' a₁ a₂) (hc : Beside t₁ t₂ v c₁ c₂) :
    a₁.left < c₁.left ↔ v'.length < v.length := by
  rw [a₁.left_eq, c₁.left_eq, h.beside.rest_left, hc.rest_left]
  simp only [List.length_append]
  omega

theorem left_lt_right (h : Onward t₁ t₂ v c₁ c₂ v' a₁ a₂) (hc : Beside t₁ t₂ v c₁ c₂) :
    a₂.left < c₂.left ↔ v'.length < v.length :=
  h.symm.left_lt_left hc.symm

theorem left_le_left (h : Onward t₁ t₂ v c₁ c₂ v' a₁ a₂) (hc : Beside t₁ t₂ v c₁ c₂) :
    a₁.left ≤ c₁.left := by
  rw [a₁.left_eq, c₁.left_eq, h.beside.rest_left, hc.rest_left]
  simp only [List.length_append]
  exact Nat.add_le_add_right h.length_le _

theorem left_le_right (h : Onward t₁ t₂ v c₁ c₂ v' a₁ a₂) (hc : Beside t₁ t₂ v c₁ c₂) :
    a₂.left ≤ c₂.left :=
  h.symm.left_le_left hc.symm

theorem spanTo_eq (h : Onward t₁ t₂ v c₁ c₂ v' a₁ a₂) (hc : Beside t₁ t₂ v c₁ c₂)
    (hhere : c₁.here = c₂.here) : c₁.spanTo a₁ = c₂.spanTo a₂ := by
  unfold Cursor.spanTo
  rw [hc.source, hhere]
  simp only [h.left_lt_left hc, h.left_lt_right hc]
  split
  · rename_i hlt
    rcases h.lastStop with hlast | ⟨rfl, rfl⟩
    · rw [hlast]
    · exact absurd ((h.left_lt_left hc).2 hlt) (Nat.lt_irrefl _)
  · rfl

end Cursor.Onward

/-! ## Outcomes -/

/-- Outcomes of parses that go the same way. -/
inductive Agree {α : Type} (t₁ t₂ v : List Lexeme) (c₁ c₂ : Cursor) :
    Outcome α → Outcome α → Prop
  | ok {as bs : List Complaint} {x : α} {v' : List Lexeme} {a₁ a₂ : Cursor}
      {alt₁ alt₂ : Option Complaint} :
    Levels t₁.length t₂.length as bs → Cursor.Onward t₁ t₂ v c₁ c₂ v' a₁ a₂ →
      Levels t₁.length t₂.length alt₁.toList alt₂.toList →
      Agree t₁ t₂ v c₁ c₂ ⟨as, .ok x a₁ alt₁⟩ ⟨bs, .ok x a₂ alt₂⟩
  | fail {as bs : List Complaint} {a b : Complaint} :
    Levels t₁.length t₂.length as bs → Levels t₁.length t₂.length [a] [b] →
      Agree t₁ t₂ v c₁ c₂ ⟨as, .fail a⟩ ⟨bs, .fail b⟩

namespace Agree

open Cursor

variable {α β : Type} {t₁ t₂ v v' : List Lexeme} {c₁ c₂ a₁ a₂ : Cursor} {o₁ o₂ o₁' o₂' : Outcome α}

theorem symm (h : Agree t₁ t₂ v c₁ c₂ o₁ o₂) : Agree t₂ t₁ v c₂ c₁ o₂ o₁ := by
  cases h with
  | ok hr hw halt => exact .ok hr.symm hw.symm halt.symm
  | fail hr he => exact .fail hr.symm he.symm

/-- The way to the places where parses agree can be added to theirs. -/
theorem onward (hw : Onward t₁ t₂ v c₁ c₂ v' a₁ a₂) (h : Agree t₁ t₂ v' a₁ a₂ o₁ o₂) :
    Agree t₁ t₂ v c₁ c₂ o₁ o₂ := by
  cases h with
  | ok hr hw' halt => exact .ok hr (hw.trans hw') halt
  | fail hr he => exact .fail hr he

/-- The first of two parsers may have a part `m` of the input behind what it gets to see. -/
theorem bind {p q : Parser α} {f g : α → Parser β} (m : List Lexeme) {w : List Lexeme}
    {d₁ d₂ : Cursor} (h : Agree (m ++ t₁) (m ++ t₂) w d₁ d₂ (p d₁) (q d₂))
    (hf : ∀ x w' a₁ a₂, (∃ as alt, p d₁ = ⟨as, .ok x a₁ alt⟩) →
      Onward (m ++ t₁) (m ++ t₂) w d₁ d₂ w' a₁ a₂ → Agree t₁ t₂ v c₁ c₂ (f x a₁) (g x a₂)) :
    Agree t₁ t₂ v c₁ c₂ ((p >>= f) d₁) ((q >>= g) d₂) := by
  change Agree t₁ t₂ v c₁ c₂ (Parser.bind p f d₁) (Parser.bind q g d₂)
  unfold Parser.bind
  generalize hp : p d₁ = o₁ at h ⊢
  generalize q d₂ = o₂ at h ⊢
  cases h with
  | fail hr he =>
    rw [List.length_append, List.length_append, Levels.add_iff] at hr he
    exact .fail hr he
  | @ok as bs x v' a₁ a₂ alt₁ alt₂ hr hw halt =>
    rw [List.length_append, List.length_append, Levels.add_iff] at hr halt
    have hf := hf x v' a₁ a₂ ⟨as, alt₁, hp⟩ hw
    dsimp only
    generalize f x a₁ = o₁ at hf ⊢
    generalize g x a₂ = o₂ at hf ⊢
    cases hf with
    | fail hr' he => exact .fail (hr.append hr') (he.joinOption halt)
    | ok hr' hw' halt' => exact .ok (hr.append hr') hw' (halt.joinOptions halt')

/-- What one of two parsers reads without complaint, so does the other. -/
theorem of_clean {x : α} {alt₁ : Option Complaint}
    (h : Agree t₁ t₂ v c₁ c₂ ⟨[], .ok x a₁ alt₁⟩ o₂) :
    ∃ v' a₂ alt₂, o₂ = ⟨[], .ok x a₂ alt₂⟩ ∧ Onward t₁ t₂ v c₁ c₂ v' a₁ a₂ := by
  cases h with
  | @ok _ bs _ v' _ a₂ _ alt₂ hr hw halt =>
    rw [hr.eq_nil_iff.1 rfl]
    exact ⟨v', a₂, alt₂, rfl, hw⟩

theorem isClean_eq (h : Agree t₁ t₂ v c₁ c₂ o₁ o₂) : o₁.isClean = o₂.isClean := by
  cases h with
  | fail hr he => simp only [Outcome.isClean]
  | @ok as bs _ _ _ _ _ _ hr hw halt =>
    cases as with
    | nil => rw [hr.eq_nil_iff.1 rfl]; rfl
    | cons a as =>
      cases bs with
      | nil => exact absurd hr.length_eq (by simp)
      | cons b bs => rfl

theorem choose (h : Agree t₁ t₂ v c₁ c₂ o₁ o₂) (h' : Agree t₁ t₂ v c₁ c₂ o₁' o₂') :
    Agree t₁ t₂ v c₁ c₂ (Parser.choose o₁ o₁') (Parser.choose o₂ o₂') := by
  cases h with
  | ok hr hw halt =>
    cases h' with
    | fail hr' he' => exact .ok hr hw halt
    | ok hr' hw' halt' =>
      unfold Parser.choose
      dsimp only
      rw [hr.shorter_eq hr', hr.getLast?.furtherLast_eq hr'.getLast?, halt.furtherLast_eq halt']
      split
      · exact .ok hr hw halt
      · exact .ok hr' hw' halt'
  | @fail _ _ e₁ e₂ hr he =>
    cases h' with
    | ok hr' hw' halt' => exact .ok hr' hw' halt'
    | @fail _ _ e₁' e₂' hr' he' =>
      have hfar : Parser.furtherLast (some e₁) (some e₁') =
          Parser.furtherLast (some e₂) (some e₂') :=
        Levels.furtherLast_eq he he'
      unfold Parser.choose
      dsimp only
      rw [hr.shorter_eq hr', hr.getLast?.furtherLast_eq hr'.getLast?, hfar]
      split
      · exact .fail hr he
      · exact .fail hr' he'
      · exact .fail hr (he.join he')

theorem or {p q p' q' : Parser α} (h : Agree t₁ t₂ v c₁ c₂ (p c₁) (q c₂))
    (h' : Agree t₁ t₂ v c₁ c₂ (p' c₁) (q' c₂)) :
    Agree t₁ t₂ v c₁ c₂ (p.or p' c₁) (q.or q' c₂) := by
  rw [Parser.or_eq, Parser.or_eq, h.isClean_eq, h'.isClean_eq]
  split
  · exact h
  · split
    · exact h'
    · exact h.choose h'

theorem withSpan {p q : Parser α} {f : α → Span → β} (h : Agree t₁ t₂ v c₁ c₂ (p c₁) (q c₂))
    (hc : Beside t₁ t₂ v c₁ c₂) (hhere : c₁.here = c₂.here) :
    Agree t₁ t₂ v c₁ c₂ (Parser.withSpan f p c₁) (Parser.withSpan f q c₂) := by
  unfold Parser.withSpan
  generalize p c₁ = o₁ at h ⊢
  generalize q c₂ = o₂ at h ⊢
  cases h with
  | fail hr he => exact .fail hr he
  | ok hr hw halt =>
    dsimp only
    rw [hw.spanTo_eq hc hhere]
    exact .ok hr hw halt

theorem check {p q : Parser α} {f : α → Span → β × List (Span × String)}
    (h : Agree t₁ t₂ v c₁ c₂ (p c₁) (q c₂)) (hc : Beside t₁ t₂ v c₁ c₂)
    (hhere : c₁.here = c₂.here) :
    Agree t₁ t₂ v c₁ c₂ (Parser.check f p c₁) (Parser.check f q c₂) := by
  unfold Parser.check
  generalize p c₁ = o₁ at h ⊢
  generalize q c₂ = o₂ at h ⊢
  cases h with
  | fail hr he => exact .fail hr he
  | @ok _ _ x v' a₁ a₂ _ _ hr hw halt =>
    dsimp only
    rw [hw.spanTo_eq hc hhere]
    refine .ok (hr.append ?_) hw halt
    unfold Levels
    simp only [List.map_map]
    exact List.map_congr_left fun _ _ => hw.beside.left_eq

/-- Parsers whose outcomes agree, one by one. -/
def All (t₁ t₂ v : List Lexeme) (c₁ c₂ : Cursor) : List (Parser α) → List (Parser α) → Prop
  | [], [] => True
  | p :: ps, q :: qs => Agree t₁ t₂ v c₁ c₂ (p c₁) (q c₂) ∧ All t₁ t₂ v c₁ c₂ ps qs
  | _, _ => False

theorem firstOf {ps qs : List (Parser α)} {alt₁ alt₂ : Option Complaint}
    (h : All t₁ t₂ v c₁ c₂ ps qs) (hc : Beside t₁ t₂ v c₁ c₂)
    (halt : Levels t₁.length t₂.length alt₁.toList alt₂.toList) :
    Agree t₁ t₂ v c₁ c₂ (Parser.firstOf alt₁ ps c₁) (Parser.firstOf alt₂ qs c₂) := by
  induction ps generalizing qs alt₁ alt₂ with
  | nil =>
    cases qs with
    | cons q qs => exact h.elim
    | nil =>
      refine .fail .nil ?_
      cases alt₁ <;> cases alt₂
      · exact hc.levels_unexpected []
      · exact absurd halt.length_eq (by simp)
      · exact absurd halt.length_eq (by simp)
      · exact halt
  | cons p ps ih =>
    cases qs with
    | nil => exact h.elim
    | cons q qs =>
      obtain ⟨hp, hps⟩ := h
      unfold Parser.firstOf
      generalize p c₁ = o₁ at hp ⊢
      generalize q c₂ = o₂ at hp ⊢
      cases hp with
      | ok hr hw halt' => exact .ok hr hw halt'
      | @fail _ _ a b hr he =>
        have he : Levels t₁.length t₂.length (some a).toList (some b).toList := he
        exact ih hps (halt.joinOptions he)

theorem optional {p q : Parser α} (h : Agree t₁ t₂ v c₁ c₂ (p c₁) (q c₂))
    (hc : Beside t₁ t₂ v c₁ c₂) :
    Agree t₁ t₂ v c₁ c₂ (Parser.optional p c₁) (Parser.optional q c₂) := by
  unfold Parser.optional
  generalize p c₁ = o₁ at h ⊢
  generalize q c₂ = o₂ at h ⊢
  cases h with
  | fail hr he => exact .ok .nil hc.refl he
  | ok hr hw halt => exact .ok hr hw halt

/-- Repetitions agree if the parsers agree in front of whatever common tokens are left. -/
theorem many {p q : Parser α} {P : List Lexeme → Prop} (hP : ∀ {v v'}, v' <:+ v → P v → P v')
    (h : ∀ {v c₁ c₂}, P v → Beside t₁ t₂ v c₁ c₂ → Agree t₁ t₂ v c₁ c₂ (p c₁) (q c₂)) (hv : P v)
    (hc : Beside t₁ t₂ v c₁ c₂) :
    Agree t₁ t₂ v c₁ c₂ (Parser.many p c₁) (Parser.many q c₂) := by
  -- each value but the last one makes the common tokens fewer
  induction hm : v.length using Nat.strongRecOn generalizing v c₁ c₂ with
  | ind m ih =>
    have hp := h hv hc
    cases hp₁ : p c₁ with
    | mk as reply₁ =>
      cases hp₂ : q c₂ with
      | mk bs reply₂ =>
        rw [hp₁, hp₂] at hp
        cases hp with
        | fail hr he =>
          simp only [Parser.many, Parser.runMany_of_fail hp₁, Parser.runMany_of_fail hp₂]
          exact .ok .nil hc.refl (he.joinAll hr)
        | @ok _ _ x v' a₁ a₂ _ _ hr hw halt =>
          by_cases hlt : v'.length < v.length
          · have ih := ih v'.length (by omega) (hP hw.suffix hv) hw.beside rfl
            simp only [Parser.many] at ih
            simp only [Parser.many, Parser.runMany_of_ok hp₁ ((hw.left_lt_left hc).2 hlt),
              Parser.runMany_of_ok hp₂ ((hw.left_lt_right hc).2 hlt)]
            generalize Parser.runMany p a₁ = run₁ at ih ⊢
            generalize Parser.runMany q a₂ = run₂ at ih ⊢
            obtain ⟨_, _, _, _⟩ := run₁
            obtain ⟨_, _, _, _⟩ := run₂
            cases ih with
            | ok hr' hw' halt' =>
              exact .ok (hr.append hr') (hw.trans hw') (halt.joinOptions halt')
          · simp only [Parser.many, Parser.runMany_of_stuck hp₁ (mt (hw.left_lt_left hc).1 hlt),
              Parser.runMany_of_stuck hp₂ (mt (hw.left_lt_right hc).1 hlt)]
            exact .ok hr hw halt

end Agree

/-! ## Parsers -/

namespace Parser

open Cursor

variable {α β : Type} {n : Nat} {K : TokenKind → Prop}

/-- Parsers which cannot tell inputs apart that have fewer than `n` tokens in common. -/
def Related (n : Nat) (K : TokenKind → Prop) (p q : Parser α) : Prop :=
  ∀ ⦃t₁ t₂ v : List Lexeme⦄ ⦃c₁ c₂ : Cursor⦄, Tails K t₁ t₂ → v.length < n →
    Beside t₁ t₂ v c₁ c₂ → Agree t₁ t₂ v c₁ c₂ (p c₁) (q c₂)

theorem just_stops {kind : TokenKind} (hstop : ¬ K kind) (t : Lexeme) (ht : K t.node) :
    (if t.node = kind then some () else none) = none := by
  rw [if_neg]
  rintro rfl
  exact hstop ht

theorem just_plain {kind : TokenKind} (hplain : kind.side = .plain) (t : Lexeme) (x : Unit)
    (hf : (if t.node = kind then some () else none) = some x) : t.node.side = .plain := by
  split at hf
  · rename_i h
    rw [h, hplain]
  · cases hf

/-- Nothing is made of what stands behind the tokens in common, if nothing is made of a token to
stop at. -/
theorem tails_rejected {t₁ t₂ : List Lexeme} {f : Lexeme → Option α} (ht : Tails K t₁ t₂)
    (hstop : ∀ t, K t.node → f t = none) :
    (∀ s ∈ t₁.head?, f s = none) ∧ ∀ s ∈ t₂.head?, f s = none := by
  rcases ht with ⟨rfl, rfl⟩ | ⟨k, r₁, r₂, rfl, rfl, hk⟩
  · simp
  · simp [hstop k hk]

/-- A token is taken in both inputs or in none, if none behind the tokens in common is taken. -/
theorem token_agrees {t₁ t₂ v : List Lexeme} {c₁ c₂ : Cursor} {f : Lexeme → Option α}
    (expected : List (Option TokenKind))
    (hend : v = [] → (∀ s ∈ t₁.head?, f s = none) ∧ ∀ s ∈ t₂.head?, f s = none)
    (hplain : ∀ t x, f t = some x → t.node.side = .plain) (h : Beside t₁ t₂ v c₁ c₂) :
    (token f expected c₁ = ⟨[], .fail (c₁.unexpected expected)⟩ ∧
      token f expected c₂ = ⟨[], .fail (c₂.unexpected expected)⟩) ∨
    ∃ s x v' a₁ a₂, v = s :: v' ∧ f s = some x ∧ token f expected c₁ = ⟨[], .ok x a₁ none⟩ ∧
      token f expected c₂ = ⟨[], .ok x a₂ none⟩ ∧ Onward t₁ t₂ v c₁ c₂ v' a₁ a₂ := by
  have h₁ := h.rest_left
  have h₂ := h.rest_right
  cases v with
  | nil =>
    obtain ⟨hend₁, hend₂⟩ := hend rfl
    rw [List.nil_append] at h₁ h₂
    exact .inl ⟨token_of_rejected (h₁ ▸ hend₁), token_of_rejected (h₂ ▸ hend₂)⟩
  | cons s v =>
    cases hf : f s with
    | none =>
      exact .inl ⟨token_of_rejected (by simp [h₁, hf]), token_of_rejected (by simp [h₂, hf])⟩
    | some x =>
      obtain ⟨a₁, a₂, hn₁, hn₂, hw⟩ := h.step (hplain s x hf)
      exact .inr ⟨s, x, v, a₁, a₂, rfl, hf, token_of_next hn₁ hf, token_of_next hn₂ hf, hw⟩

/-- A search which ends among the tokens in common goes the same way. -/
theorem closingOf_agrees {pair : Delimiters} {depth : Nat} (other : Delimiters) (others : Int)
    {w x₁ x₂ : List Lexeme} {k : Lexeme}
    {c₁ c₂ : Cursor} (hne : pair.closing ≠ pair.opening) (hk : k.node = pair.closing)
    (hdepth : pair.depthAfter depth (w.map Spanned.node) = some 1) (e₁ e₂ : Option Complaint)
    (he : Levels x₁.length x₂.length e₁.toList e₂.toList) (h₁ : c₁.rest = w ++ k :: x₁)
    (h₂ : c₂.rest = w ++ k :: x₂) :
    ∃ a₁ a₂ e₁' e₂', closingOf pair other depth others e₁ c₁ = ⟨some a₁, e₁'⟩ ∧
      closingOf pair other depth others e₂ c₂ = ⟨some a₂, e₂'⟩ ∧
      Levels x₁.length x₂.length e₁'.toList e₂'.toList ∧ a₁.rest = x₁ ∧ a₂.rest = x₂ ∧
      a₁.finish = c₁.finish ∧ a₂.finish = c₂.finish ∧ a₁.lastStop = a₂.lastStop := by
  induction w generalizing depth others e₁ e₂ c₁ c₂ with
  | nil =>
    obtain ⟨a₁, hn₁, hr₁, hl₁, hf₁⟩ := Cursor.next?_of_rest h₁
    obtain ⟨a₂, hn₂, hr₂, hl₂, hf₂⟩ := Cursor.next?_of_rest h₂
    have hle : depth ≤ 1 := by
      cases hdepth
      exact Nat.le_refl 1
    have hopen : k.node ≠ pair.opening := hk ▸ hne
    refine ⟨a₁, a₂, e₁, e₂, ?_, ?_, he, hr₁, hr₂, hf₁, hf₂, hl₁.trans hl₂.symm⟩
    · rw [closingOf_of_next hn₁, if_neg hopen, if_pos hk, if_pos hle]
    · rw [closingOf_of_next hn₂, if_neg hopen, if_pos hk, if_pos hle]
  | cons t w ih =>
    obtain ⟨a₁, hn₁, hr₁, -, hf₁⟩ := Cursor.next?_of_rest h₁
    obtain ⟨a₂, hn₂, hr₂, -, hf₂⟩ := Cursor.next?_of_rest h₂
    rw [List.map_cons, Delimiters.depthAfter] at hdepth
    rw [closingOf_of_next hn₁, closingOf_of_next hn₂, ← hf₁, ← hf₂]
    split
    · rename_i hopen
      rw [if_pos hopen] at hdepth
      exact ih _ hdepth _ _ he hr₁ hr₂
    · rename_i hopen
      rw [if_neg hopen] at hdepth
      split
      · rename_i hclose
        rw [if_pos hclose] at hdepth
        split
        · rename_i hle
          rw [if_pos hle] at hdepth
          cases hdepth
        · rename_i hle
          rw [if_neg hle] at hdepth
          exact ih _ hdepth _ _ he hr₁ hr₂
      · rename_i hclose
        rw [if_neg hclose] at hdepth
        have hleft : c₁.left + x₂.length = c₂.left + x₁.length := by
          rw [c₁.left_eq, c₂.left_eq, h₁, h₂]
          simp only [List.length_append, List.length_cons]
          omega
        split
        · exact ih _ hdepth _ _ he hr₁ hr₂
        · split
          · refine ih _ hdepth _ _ ?_ hr₁ hr₂
            split
            · exact he.or (.single hleft)
            · exact he
          · exact ih _ hdepth _ _ he hr₁ hr₂

namespace Related

variable {p q p' q' : Parser α}

theorem weaken {m : Nat} {K' : TokenKind → Prop} (hm : m ≤ n) (hK : ∀ k, K' k → K k)
    (h : Related n K p q) : Related m K' p q := by
  intro t₁ t₂ v c₁ c₂ ht hv hc
  refine h ?_ (by omega) hc
  rcases ht with hnil | ⟨k, r₁, r₂, h₁, h₂, hk⟩
  · exact .inl hnil
  · exact .inr ⟨k, r₁, r₂, h₁, h₂, hK _ hk⟩

theorem pure (x : α) : Related n K (Pure.pure x : Parser α) (Pure.pure x) := by
  intro t₁ t₂ v c₁ c₂ _ _ hc
  exact .ok .nil hc.refl .nil

theorem bind {f g : α → Parser β} (h : Related n K p q) (hf : ∀ x, Related n K (f x) (g x)) :
    Related n K (p >>= f) (q >>= g) := by
  intro t₁ t₂ v c₁ c₂ ht hv hc
  refine .bind [] (h ht hv hc) fun x v' a₁ a₂ _ hw => .onward hw (hf x ht ?_ hw.beside)
  exact Nat.lt_of_le_of_lt hw.length_le hv

theorem map {f : α → β} (h : Related n K p q) : Related n K (f <$> p) (f <$> q) :=
  bind h fun _ => pure _

/-- A token, and then parsers that have less in front of them. -/
theorem step {f : Lexeme → Option α} {expected : List (Option TokenKind)} {g g' : α → Parser β}
    (hstop : ∀ t, K t.node → f t = none) (hplain : ∀ t x, f t = some x → t.node.side = .plain)
    (hg : ∀ x, Related n K (g x) (g' x)) :
    Related (n + 1) K (Parser.token f expected >>= g) (Parser.token f expected >>= g') := by
  intro t₁ t₂ v c₁ c₂ ht hv hc
  rcases token_agrees expected (fun _ => tails_rejected ht hstop) hplain hc with
    ⟨h₁, h₂⟩ | ⟨s, x, v', a₁, a₂, rfl, -, h₁, h₂, hw⟩
  · rw [bind_of_fail h₁, bind_of_fail h₂]
    exact .fail .nil (hc.levels_unexpected expected)
  · rw [bind_of_ok h₁, bind_of_ok h₂]
    exact .onward hw (hg x ht (Nat.lt_of_succ_lt_succ hv) hw.beside)

theorem token {f : Lexeme → Option α} {expected : List (Option TokenKind)}
    (hstop : ∀ t, K t.node → f t = none)
    (hplain : ∀ t x, f t = some x → t.node.side = .plain) :
    Related n K (Parser.token f expected) (Parser.token f expected) := by
  intro t₁ t₂ v c₁ c₂ ht _ hc
  rcases token_agrees expected (fun _ => tails_rejected ht hstop) hplain hc with
    ⟨h₁, h₂⟩ | ⟨s, x, v', a₁, a₂, -, -, h₁, h₂, hw⟩
  · rw [h₁, h₂]
    exact .fail .nil (hc.levels_unexpected expected)
  · rw [h₁, h₂]
    exact .ok .nil hw .nil

theorem just {kind : TokenKind} (hstop : ¬ K kind) (hplain : kind.side = .plain) :
    Related n K (Parser.just kind) (Parser.just kind) :=
  token (just_stops hstop) (just_plain hplain)

theorem stepJust {kind : TokenKind} {g g' : Unit → Parser β} (hstop : ¬ K kind)
    (hplain : kind.side = .plain) (hg : Related n K (g ()) (g' ())) :
    Related (n + 1) K (Parser.just kind >>= g) (Parser.just kind >>= g') :=
  step (just_stops hstop) (just_plain hplain) fun _ => hg

theorem withSpan {f : α → Span → β} (h : Related n K p q) :
    Related n K (Parser.withSpan f p) (Parser.withSpan f q) := by
  intro t₁ t₂ v c₁ c₂ ht hv hc
  exact (h ht hv hc).withSpan hc (hc.here_eq ht)

theorem check {f : α → Span → β × List (Span × String)} (h : Related n K p q) :
    Related n K (Parser.check f p) (Parser.check f q) := by
  intro t₁ t₂ v c₁ c₂ ht hv hc
  exact (h ht hv hc).check hc (hc.here_eq ht)

/-! ### Choices -/

theorem or (h : Related n K p q) (h' : Related n K p' q') : Related n K (p.or p') (q.or q') := by
  intro t₁ t₂ v c₁ c₂ ht hv hc
  exact (h ht hv hc).or (h' ht hv hc)

/-- Parsers which are related one by one. -/
def All (n : Nat) (K : TokenKind → Prop) : List (Parser α) → List (Parser α) → Prop
  | [], [] => True
  | p :: ps, q :: qs => Related n K p q ∧ All n K ps qs
  | _, _ => False

theorem All.agree {ps qs : List (Parser α)} {t₁ t₂ v : List Lexeme} {c₁ c₂ : Cursor}
    (h : All n K ps qs) (ht : Tails K t₁ t₂) (hv : v.length < n) (hc : Beside t₁ t₂ v c₁ c₂) :
    Agree.All t₁ t₂ v c₁ c₂ ps qs := by
  induction ps generalizing qs with
  | nil =>
    cases qs with
    | nil => trivial
    | cons q qs => exact h.elim
  | cons p ps ih =>
    cases qs with
    | nil => exact h.elim
    | cons q qs => exact ⟨h.1 ht hv hc, ih h.2⟩

theorem choice {ps qs : List (Parser α)} (h : All n K ps qs) :
    Related n K (Parser.choice ps) (Parser.choice qs) := by
  intro t₁ t₂ v c₁ c₂ ht hv hc
  exact .firstOf (h.agree ht hv hc) hc .nil

theorem optional (h : Related n K p q) : Related n K (Parser.optional p) (Parser.optional q) := by
  intro t₁ t₂ v c₁ c₂ ht hv hc
  exact (h ht hv hc).optional hc

/-! ### Repetition -/

theorem many (h : Related n K p q) : Related n K (Parser.many p) (Parser.many q) := by
  intro t₁ t₂ v c₁ c₂ ht hv hc
  exact .many (P := fun v => v.length < n)
    (fun hsuffix hlt => Nat.lt_of_le_of_lt hsuffix.length_le hlt) (fun hv hc => h ht hv hc) hv hc

theorem separated {kind : TokenKind} (hstop : ¬ K kind) (hplain : kind.side = .plain)
    (h : Related n K p q) :
    Related n K (fun c => (runSeparated p (Parser.just kind) c).outcome)
      (fun c => (runSeparated q (Parser.just kind) c).outcome) := by
  intro t₁ t₂ v c₁ c₂ ht hv hc
  induction hm : v.length using Nat.strongRecOn generalizing v c₁ c₂ with
  | ind m ih =>
    dsimp only
    rw [runSeparated, runSeparated]
    rcases token_agrees [some kind] (fun _ => tails_rejected ht (just_stops hstop))
      (just_plain hplain) hc with ⟨h₁, h₂⟩ | ⟨s, x, v', a₁, a₂, rfl, -, h₁, h₂, hw⟩
    · change Parser.just kind c₁ = _ at h₁
      change Parser.just kind c₂ = _ at h₂
      rw [h₁, h₂]
      exact .ok .nil hc.refl (hc.levels_unexpected _)
    · change Parser.just kind c₁ = _ at h₁
      change Parser.just kind c₂ = _ at h₂
      rw [h₁, h₂]
      dsimp only
      rw [List.length_cons] at hm hv
      have hp := h ht (by omega) hw.beside
      generalize p a₁ = o₁ at hp ⊢
      generalize q a₂ = o₂ at hp ⊢
      cases hp with
      | fail hr he => exact .ok hr hc.refl he
      | @ok _ _ x v'' b₁ b₂ _ _ hr hw' halt =>
        have hle := hw'.length_le
        have ih := ih v''.length (by omega) (by omega) hw'.beside rfl
        have hall := hw.trans hw'
        dsimp only at ih ⊢
        have hlt : v''.length < (s :: v').length := Nat.lt_succ_of_le hle
        rw [if_pos ((hall.left_lt_left hc).2 hlt), if_pos ((hall.left_lt_right hc).2 hlt)]
        generalize runSeparated p (Parser.just kind) b₁ = run₁ at ih ⊢
        generalize runSeparated q (Parser.just kind) b₂ = run₂ at ih ⊢
        obtain ⟨_, _, _, _⟩ := run₁
        obtain ⟨_, _, _, _⟩ := run₂
        cases ih with
        | ok hr' hw'' halt' =>
          exact .ok (hr.append hr') (hall.trans hw'')
            ((Levels.joinOptions (o := none) (p := none) .nil halt).joinOptions halt')

theorem sepBy {kind : TokenKind} (hstop : ¬ K kind) (hplain : kind.side = .plain)
    (h : Related n K p q) :
    Related n K (Parser.sepBy p (Parser.just kind)) (Parser.sepBy q (Parser.just kind)) := by
  intro t₁ t₂ v c₁ c₂ ht hv hc
  have hp := h ht hv hc
  unfold Parser.sepBy
  generalize p c₁ = o₁ at hp ⊢
  generalize q c₂ = o₂ at hp ⊢
  cases hp with
  | fail hr he => exact .ok hr hc.refl he
  | @ok _ _ x v' a₁ a₂ _ _ hr hw halt =>
    have hle := hw.length_le
    have hs := separated hstop hplain h ht (by omega) hw.beside
    dsimp only at hs ⊢
    generalize runSeparated p (Parser.just kind) a₁ = run₁ at hs ⊢
    generalize runSeparated q (Parser.just kind) a₂ = run₂ at hs ⊢
    obtain ⟨_, _, b₁, _⟩ := run₁
    obtain ⟨_, _, b₂, _⟩ := run₂
    cases hs with
    | ok hr' hw' halt' =>
      have hall := hw.trans hw'
      have halts := halt.joinOptions halt'
      -- the separator after the last value
      rcases token_agrees [some kind] (fun _ => tails_rejected ht (just_stops hstop))
        (just_plain hplain) hw'.beside with ⟨h₁, h₂⟩ | ⟨_, _, v'', d₁, d₂, -, -, h₁, h₂, hw''⟩
      · change Parser.just kind b₁ = _ at h₁
        change Parser.just kind b₂ = _ at h₂
        dsimp only
        rw [h₁, h₂]
        exact .ok (hr.append hr') hall (halts.joinOptions (hw'.beside.levels_unexpected _))
      · change Parser.just kind b₁ = _ at h₁
        change Parser.just kind b₂ = _ at h₂
        dsimp only
        rw [h₁, h₂]
        exact .ok (hr.append hr') (hall.trans hw'') halts

/-! ### Delimiters -/

/-- What stands between brackets.  The closing bracket stops the parser of it, whatever stands
behind the tokens in common. -/
theorem bracketed_agrees {f : α → β} {b : Bracket} {t : Lexeme} {t₁ t₂ v : List Lexeme}
    {c₁ c₂ : Cursor} (hnode : t.node = b.pair.opening) (h : Related n (· = b.pair.closing) p q)
    (hv : v.length ≤ n) (hc : Beside t₁ t₂ (t :: v) c₁ c₂) :
    Agree t₁ t₂ (t :: v) c₁ c₂
      ((Parser.just b.pair.opening >>= fun _ => p >>= fun x =>
        Parser.just b.pair.closing >>= fun _ => Pure.pure (f x)) c₁)
      ((Parser.just b.pair.opening >>= fun _ => q >>= fun x =>
        Parser.just b.pair.closing >>= fun _ => Pure.pure (f x)) c₂) := by
  have h₁ := hc.rest_left
  have h₂ := hc.rest_right
  obtain ⟨w, k, x, rfl, hw, hk, hx⟩ := hc.balanced.split_lexemes hnode
  obtain ⟨d₁, hn₁, hr₁, -, hf₁⟩ := Cursor.next?_of_rest h₁
  obtain ⟨d₂, hn₂, hr₂, -, hf₂⟩ := Cursor.next?_of_rest h₂
  rw [bind_of_ok (just_of_next hn₁ hnode), bind_of_ok (just_of_next hn₂ hnode)]
  have hd : Beside (k :: x ++ t₁) (k :: x ++ t₂) w d₁ d₂ := by
    refine ⟨by simp [hr₁], by simp [hr₂], hw, ?_, by simp⟩
    rw [hf₁, hf₂]
    exact hc.source
  have hlen : w.length < n := by
    simp only [List.length_cons, List.length_append] at hv
    omega
  have htails : Tails (· = b.pair.closing) (k :: x ++ t₁) (k :: x ++ t₂) :=
    .inr ⟨k, x ++ t₁, x ++ t₂, rfl, rfl, hk⟩
  refine .bind (k :: x) (h htails hlen hd) fun y w' a₁ a₂ _ ho => ?_
  have hb := ho.beside
  have ha₁ := hb.rest_left
  have ha₂ := hb.rest_right
  cases w' with
  | nil =>
    obtain ⟨e₁, hm₁, hs₁, hl₁, hg₁⟩ := Cursor.next?_of_rest ha₁
    obtain ⟨e₂, hm₂, hs₂, hl₂, hg₂⟩ := Cursor.next?_of_rest ha₂
    rw [bind_of_ok (just_of_next hm₁ hk), bind_of_ok (just_of_next hm₂ hk)]
    have hfin₁ : e₁.finish = c₁.finish := hg₁.trans (ho.finish_left.trans hf₁)
    have hfin₂ : e₂.finish = c₂.finish := hg₂.trans (ho.finish_right.trans hf₂)
    refine .ok .nil ⟨⟨hs₁, hs₂, hx, ?_, ?_⟩, ?_, hfin₁, hfin₂, .inl (hl₁.trans hl₂.symm)⟩ .nil
    · rw [hfin₁, hfin₂]
      exact hc.source
    · rw [hfin₁, hfin₂]
      exact hc.finish
    · exact ⟨t :: (w ++ [k]), by simp⟩
  | cons s w' =>
    have hs : s.node ≠ b.pair.closing := by
      intro hs
      exact hb.balanced.not_closes ((b.eq_closing_iff _).1 hs)
    rw [bind_of_fail (just_of_ne (by simpa [ha₁] using hs)),
      bind_of_fail (just_of_ne (by simpa [ha₂] using hs))]
    have hl := hb.levels_unexpected [some b.pair.closing]
    rw [List.length_append, List.length_append, Levels.add_iff] at hl
    exact .fail .nil hl

theorem delimited_agrees {f : α → β} {b : Bracket} {t₁ t₂ v : List Lexeme} {c₁ c₂ : Cursor}
    (hopens : Opens b v c₁ c₂) (h : Related n (· = b.pair.closing) p q)
    (hv : v.length < n + 1) (hc : Beside t₁ t₂ v c₁ c₂) :
    Agree t₁ t₂ v c₁ c₂
      ((Parser.just b.pair.opening >>= fun _ => p >>= fun x =>
        Parser.just b.pair.closing >>= fun _ => Pure.pure (f x)) c₁)
      ((Parser.just b.pair.opening >>= fun _ => q >>= fun x =>
        Parser.just b.pair.closing >>= fun _ => Pure.pure (f x)) c₂) := by
  rcases hopens with ⟨hne₁, hne₂⟩ | ⟨t, v, rfl, hnode⟩
  · rw [bind_of_fail (just_of_ne hne₁), bind_of_fail (just_of_ne hne₂)]
    exact .fail .nil (hc.levels_unexpected _)
  · rw [List.length_cons] at hv
    exact bracketed_agrees hnode h (by omega) hc

theorem delimited {f : α → β} (b : Bracket) (hK : ¬ K b.pair.opening)
    (h : Related n (· = b.pair.closing) p q) :
    Related (n + 1) K
      (Parser.just b.pair.opening >>= fun _ => p >>= fun x =>
        Parser.just b.pair.closing >>= fun _ => Pure.pure (f x))
      (Parser.just b.pair.opening >>= fun _ => q >>= fun x =>
        Parser.just b.pair.closing >>= fun _ => Pure.pure (f x)) := by
  intro t₁ t₂ v c₁ c₂ ht hv hc
  exact delimited_agrees (hc.opens_or ht hK) h hv hc

theorem closing_agrees (other : Delimiters) {t₁ t₂ v : List Lexeme} {c₁ c₂ : Cursor} {b : Bracket}
    (hopens : Opens b v c₁ c₂) (hc : Beside t₁ t₂ v c₁ c₂) :
    (closing b.pair other c₁ = ⟨none, none⟩ ∧ closing b.pair other c₂ = ⟨none, none⟩) ∨
    ∃ v' a₁ a₂ e₁ e₂, closing b.pair other c₁ = ⟨some a₁, e₁⟩ ∧
      closing b.pair other c₂ = ⟨some a₂, e₂⟩ ∧ Onward t₁ t₂ v c₁ c₂ v' a₁ a₂ ∧
      Levels t₁.length t₂.length e₁.toList e₂.toList := by
  have h₁ := hc.rest_left
  have h₂ := hc.rest_right
  rcases hopens with ⟨hne₁, hne₂⟩ | ⟨t, v, rfl, hnode⟩
  · exact .inl ⟨closing_of_ne hne₁, closing_of_ne hne₂⟩
  · obtain ⟨w, k, x, rfl, hw, hk, hx⟩ := hc.balanced.split_lexemes hnode
    obtain ⟨d₁, hn₁, hr₁, -, hf₁⟩ := Cursor.next?_of_rest h₁
    obtain ⟨d₂, hn₂, hr₂, -, hf₂⟩ := Cursor.next?_of_rest h₂
    have hdepth : b.pair.depthAfter 1 (w.map Spanned.node) = some 1 :=
      depthAfter_of_nesting (s := []) (Nat.le_refl 1) hw
    have hr₁ : d₁.rest = w ++ k :: (x ++ t₁) := by simpa using hr₁
    have hr₂ : d₂.rest = w ++ k :: (x ++ t₂) := by simpa using hr₂
    obtain ⟨a₁, a₂, e₁, e₂, he₁, he₂, he, hs₁, hs₂, hg₁, hg₂, hl⟩ :=
      closingOf_agrees other 0 (by cases b <;> decide) hk hdepth none none .nil hr₁ hr₂
    rw [List.length_append, List.length_append, Levels.add_iff] at he
    rw [closing_of_next hn₁ hnode, closing_of_next hn₂ hnode]
    have hfin₁ := hg₁.trans hf₁
    have hfin₂ := hg₂.trans hf₂
    refine .inr ⟨x, a₁, a₂, e₁, e₂, he₁, he₂, ⟨⟨hs₁, hs₂, hx, ?_, ?_⟩, ?_, hfin₁, hfin₂, .inl hl⟩,
      he⟩
    · rw [hfin₁, hfin₂]
      exact hc.source
    · rw [hfin₁, hfin₂]
      exact hc.finish
    · exact ⟨t :: (w ++ [k]), by simp⟩

theorem recoverDelimited_agrees {b : Bracket} {other : Delimiters} {fallback : Span → α}
    {t₁ t₂ v : List Lexeme} {c₁ c₂ : Cursor} (hopens : Opens b v c₁ c₂)
    (h : Agree t₁ t₂ v c₁ c₂ (p c₁) (q c₂)) (hc : Beside t₁ t₂ v c₁ c₂)
    (hhere : c₁.here = c₂.here) :
    Agree t₁ t₂ v c₁ c₂ (Parser.recoverDelimited b.pair other fallback p c₁)
      (Parser.recoverDelimited b.pair other fallback q c₂) := by
  unfold Parser.recoverDelimited
  generalize p c₁ = o₁ at h ⊢
  generalize q c₂ = o₂ at h ⊢
  cases h with
  | ok hr hw halt => exact .ok hr hw halt
  | @fail as bs a b hr he =>
    dsimp only
    rcases closing_agrees other hopens hc with ⟨h₁, h₂⟩ | ⟨v', a₁, a₂, e₁, e₂, h₁, h₂, hw, hl⟩
    · rw [h₁, h₂]
      exact .fail (hr.append .nil) he
    · rw [h₁, h₂]
      dsimp only
      rw [hw.spanTo_eq hc hhere]
      have hreports := hr.append hl
      have hlast := hreports.getLast?
      have hleft := he.left_eq
      refine .ok ?_ hw .nil
      generalize (as ++ e₁.toList).getLast? = o₁ at hlast ⊢
      generalize (bs ++ e₂.toList).getLast? = o₂ at hlast ⊢
      cases o₁ <;> cases o₂
      · exact hreports.append he
      · exact absurd hlast.length_eq (by simp)
      · exact absurd hlast.length_eq (by simp)
      · rename_i l₁ l₂
        -- the failure is as far as the last report in both or in none
        have hcov : a.left ≤ l₁.left ↔ b.left ≤ l₂.left := by
          have := hlast.left_eq
          omega
        simp only [decide_eq_true_eq, hcov]
        split
        · exact hreports
        · exact hreports.append he

theorem recoverDelimited {b : Bracket} {other : Delimiters} {fallback : Span → α}
    (hK : ¬ K b.pair.opening) (h : Related n K p q) :
    Related n K (Parser.recoverDelimited b.pair other fallback p)
      (Parser.recoverDelimited b.pair other fallback q) := by
  intro t₁ t₂ v c₁ c₂ ht hv hc
  exact recoverDelimited_agrees (hc.opens_or ht hK) (h ht hv hc) hc (hc.here_eq ht)

end Related

end Parser

end LunSyntax
