import LunSyntax.Proofs.Parser.Evaluation

/-!
# Parsers do not see places

Two inputs may have the same tokens at different places.  A parser reads them in the same way, and
complains about the same things: where a token stands shows in the spans of what is read and of
complaints, but decides nothing.

* `TokenKind.eraseExtents`: a token without regard to where the parts of a string stand;
* `Complaint.erasePlaces`: a complaint without its place;
* `Outcome.Alike`: outcomes which are the same but for places.  What counts of their values is up
  to a function which erases the rest;
* `Parser.Alike`: parsers with outcomes alike on inputs with the same tokens.  There is one lemma
  for each way to combine parsers.
-/

set_option autoImplicit false

namespace LunSyntax

/-! ## Tokens -/

/-- A part of a string which was not written anywhere. -/
def StringPart.eraseExtent : StringPart → StringPart
  | content text _ => .content text ⟨0, 0⟩
  | escape raw value _ => .escape raw value ⟨0, 0⟩

/-- A literal without regard to where the parts of a string stand. -/
def Literal.eraseExtents : Literal → Literal
  | integer lit => .integer lit
  | string lit => .string ⟨lit.tag, lit.parts.map StringPart.eraseExtent⟩

namespace TokenKind

/-- A token without regard to where the parts of a string stand. -/
def eraseExtents : TokenKind → TokenKind
  | literal lit => .literal lit.eraseExtents
  | kind => kind

/-- Whether a token is a literal. -/
def isLiteral : TokenKind → Bool
  | literal _ => true
  | _ => false

/-- Only literals change. -/
theorem eraseExtents_eq_iff {k kind : TokenKind} (h : kind.isLiteral = false) :
    k.eraseExtents = kind ↔ k = kind := by
  cases k with
  | literal lit =>
    refine iff_of_false ?_ ?_ <;>
    · rintro rfl
      cases h
  | _ => rfl

theorem label_eraseExtents (k : TokenKind) : k.eraseExtents.label = k.label := by
  cases k <;> rfl

theorem eq_iff_of_eraseExtents {k₁ k₂ kind : TokenKind} (h : k₁.eraseExtents = k₂.eraseExtents)
    (hkind : kind.isLiteral = false) : k₁ = kind ↔ k₂ = kind := by
  rw [← eraseExtents_eq_iff hkind, h, eraseExtents_eq_iff hkind]

/-- Tokens which differ in places only are the same, or literals. -/
theorem eraseExtents_cases {k₁ k₂ : TokenKind} (h : k₁.eraseExtents = k₂.eraseExtents) :
    k₁ = k₂ ∨ ∃ l₁ l₂, k₁ = .literal l₁ ∧ k₂ = .literal l₂ ∧
      l₁.eraseExtents = l₂.eraseExtents := by
  cases k₂ with
  | literal l₂ =>
    cases k₁ with
    | literal l₁ => exact .inr ⟨l₁, l₂, rfl, rfl, TokenKind.literal.inj h⟩
    | _ => cases h
  | _ => exact .inl ((eraseExtents_eq_iff rfl).1 h)

end TokenKind

/-! ## Places -/

namespace Cursor

/-- The tokens ahead. -/
def bareKinds (c : Cursor) : List TokenKind := c.rest.map fun t => t.node.eraseExtents

variable {c₁ c₂ : Cursor}

theorem left_alike (h : c₁.bareKinds = c₂.bareKinds) : c₁.left = c₂.left := by
  rw [c₁.left_eq, c₂.left_eq]
  simpa [bareKinds] using congrArg List.length h

theorem found_alike (h : c₁.bareKinds = c₂.bareKinds) :
    c₁.found.map TokenKind.eraseExtents = c₂.found.map TokenKind.eraseExtents := by
  simpa [bareKinds, found, Function.comp_def] using congrArg List.head? h

/-- At places with the same tokens ahead there is a next token, or there is none, in both. -/
theorem next?_alike (h : c₁.bareKinds = c₂.bareKinds) :
    (c₁.rest = [] ∧ c₂.rest = []) ∨ ∃ t₁ t₂ a₁ a₂, c₁.next? = some (t₁, a₁) ∧
      c₂.next? = some (t₂, a₂) ∧ t₁.node.eraseExtents = t₂.node.eraseExtents ∧
      a₁.bareKinds = a₂.bareKinds := by
  cases h₁ : c₁.rest with
  | nil =>
    refine .inl ⟨rfl, ?_⟩
    simpa [bareKinds, h₁] using h.symm
  | cons t₁ r₁ =>
    cases h₂ : c₂.rest with
    | nil => simp [bareKinds, h₁, h₂] at h
    | cons t₂ r₂ =>
      obtain ⟨a₁, hn₁, hr₁, -⟩ := next?_of_rest h₁
      obtain ⟨a₂, hn₂, hr₂, -⟩ := next?_of_rest h₂
      rw [bareKinds, bareKinds, h₁, h₂, List.map_cons, List.map_cons] at h
      obtain ⟨ht, hr⟩ := List.cons.inj h
      refine .inr ⟨t₁, t₂, a₁, a₂, hn₁, hn₂, ht, ?_⟩
      rw [bareKinds, bareKinds, hr₁, hr₂, hr]

end Cursor

/-! ## Complaints -/

namespace Complaint

/-! ### Changed places -/

/-- A complaint with its place and the token found there changed. -/
def mapPlaces (f : Span → Span) (g : TokenKind → TokenKind) (c : Complaint) : Complaint :=
  { c with span := f c.span, found := c.found.map g }

section

variable (f : Span → Span) (g : TokenKind → TokenKind)

theorem mapPlaces_join (a b : Complaint) :
    (a.join b).mapPlaces f g = (a.mapPlaces f g).join (b.mapPlaces f g) := by
  have hleft : ∀ c : Complaint, (c.mapPlaces f g).left = c.left := fun _ => rfl
  unfold join
  rw [hleft, hleft]
  split
  · rfl
  · split
    · rfl
    · rfl

theorem mapPlaces_joinOption (a : Complaint) (o : Option Complaint) :
    (a.joinOption o).mapPlaces f g = (a.mapPlaces f g).joinOption (o.map (mapPlaces f g)) := by
  cases o with
  | none => rfl
  | some b => exact mapPlaces_join f g a b

theorem mapPlaces_joinOptions (o p : Option Complaint) :
    (joinOptions o p).map (mapPlaces f g) =
      joinOptions (o.map (mapPlaces f g)) (p.map (mapPlaces f g)) := by
  cases p with
  | none => rfl
  | some b => exact congrArg some (mapPlaces_joinOption f g b o)

theorem mapPlaces_joinAll (a : Complaint) (as : List Complaint) :
    (a.joinAll as).mapPlaces f g = (a.mapPlaces f g).joinAll (as.map (mapPlaces f g)) := by
  induction as generalizing a with
  | nil => rfl
  | cons b as ih =>
    change ((b.join a).joinAll as).mapPlaces f g = _
    rw [ih, mapPlaces_join]
    rfl

theorem mapPlaces_foldl_joinOptions (o : Option Complaint) (as : List Complaint) :
    (as.foldl (fun acc a => joinOptions acc (some a)) o).map (mapPlaces f g) =
      (as.map (mapPlaces f g)).foldl (fun acc a => joinOptions acc (some a))
        (o.map (mapPlaces f g)) := by
  induction as generalizing o with
  | nil => rfl
  | cons a as ih =>
    rw [List.map_cons, List.foldl_cons, List.foldl_cons, ih, mapPlaces_joinOptions]
    rfl

end

/-! ### Erased places -/

/-- A complaint without its place. -/
def erasePlaces (c : Complaint) : Complaint :=
  { c with span := ⟨0, 0, 0⟩, found := c.found.map TokenKind.eraseExtents }

@[simp]
theorem erasePlaces_left (a : Complaint) : a.erasePlaces.left = a.left := rfl

theorem erasePlaces_join (a b : Complaint) :
    (a.join b).erasePlaces = a.erasePlaces.join b.erasePlaces :=
  mapPlaces_join (fun _ => ⟨0, 0, 0⟩) TokenKind.eraseExtents a b

theorem erasePlaces_joinOption (a : Complaint) (o : Option Complaint) :
    (a.joinOption o).erasePlaces = a.erasePlaces.joinOption (o.map erasePlaces) :=
  mapPlaces_joinOption (fun _ => ⟨0, 0, 0⟩) TokenKind.eraseExtents a o

theorem erasePlaces_joinOptions (o p : Option Complaint) :
    (joinOptions o p).map erasePlaces = joinOptions (o.map erasePlaces) (p.map erasePlaces) :=
  mapPlaces_joinOptions (fun _ => ⟨0, 0, 0⟩) TokenKind.eraseExtents o p

theorem erasePlaces_joinAll (a : Complaint) (as : List Complaint) :
    (a.joinAll as).erasePlaces = a.erasePlaces.joinAll (as.map erasePlaces) :=
  mapPlaces_joinAll (fun _ => ⟨0, 0, 0⟩) TokenKind.eraseExtents a as

theorem erasePlaces_foldl_joinOptions (o : Option Complaint) (as : List Complaint) :
    (as.foldl (fun acc a => joinOptions acc (some a)) o).map erasePlaces =
      (as.map erasePlaces).foldl (fun acc a => joinOptions acc (some a)) (o.map erasePlaces) :=
  mapPlaces_foldl_joinOptions (fun _ => ⟨0, 0, 0⟩) TokenKind.eraseExtents o as

/-- Complaints about places with the same tokens ahead. -/
theorem erasePlaces_alike {c₁ c₂ : Cursor} (h : c₁.bareKinds = c₂.bareKinds) (s₁ s₂ : Span)
    (cause : Cause) (expected : List (Option TokenKind)) :
    (⟨c₁.left, s₁, cause, expected, c₁.found⟩ : Complaint).erasePlaces =
      (⟨c₂.left, s₂, cause, expected, c₂.found⟩ : Complaint).erasePlaces := by
  simp only [erasePlaces, Cursor.left_alike h, Cursor.found_alike h]

end Complaint

open Complaint (erasePlaces erasePlaces_join erasePlaces_joinOption erasePlaces_joinOptions
  erasePlaces_joinAll erasePlaces_foldl_joinOptions erasePlaces_alike)

/-! ## Outcomes -/

/-- Outcomes which are the same but for places. -/
inductive Outcome.Alike {α β : Type} (e : α → β) : Outcome α → Outcome α → Prop
  | ok {as bs : List Complaint} {x y : α} {a₁ a₂ : Cursor} {alt₁ alt₂ : Option Complaint} :
    as.map erasePlaces = bs.map erasePlaces → e x = e y → a₁.bareKinds = a₂.bareKinds →
      alt₁.map erasePlaces = alt₂.map erasePlaces →
      Outcome.Alike e ⟨as, .ok x a₁ alt₁⟩ ⟨bs, .ok y a₂ alt₂⟩
  | fail {as bs : List Complaint} {a b : Complaint} :
    as.map erasePlaces = bs.map erasePlaces → a.erasePlaces = b.erasePlaces →
      Outcome.Alike e ⟨as, .fail a⟩ ⟨bs, .fail b⟩

section

variable {as bs as' bs' : List Complaint} {o p o' p' : Option Complaint}

theorem append_erasePlaces (h : as.map erasePlaces = bs.map erasePlaces)
    (h' : as'.map erasePlaces = bs'.map erasePlaces) :
    (as ++ as').map erasePlaces = (bs ++ bs').map erasePlaces := by
  rw [List.map_append, List.map_append, h, h']

theorem joinOptions_erasePlaces (h : o.map erasePlaces = p.map erasePlaces)
    (h' : o'.map erasePlaces = p'.map erasePlaces) :
    (Complaint.joinOptions o o').map erasePlaces =
      (Complaint.joinOptions p p').map erasePlaces := by
  rw [erasePlaces_joinOptions, erasePlaces_joinOptions, h, h']

theorem some_erasePlaces {a b : Complaint} (h : a.erasePlaces = b.erasePlaces) :
    (some a).map erasePlaces = (some b).map erasePlaces :=
  congrArg some h

theorem single_erasePlaces {a b : Complaint} (h : a.erasePlaces = b.erasePlaces) :
    [a].map erasePlaces = [b].map erasePlaces :=
  congrArg (fun x => [x]) h

theorem getLast?_erasePlaces (h : as.map erasePlaces = bs.map erasePlaces) :
    as.getLast?.map erasePlaces = bs.getLast?.map erasePlaces := by
  rw [← List.getLast?_map, ← List.getLast?_map, h]

theorem shorter_of_erasePlaces (h : as.map erasePlaces = bs.map erasePlaces)
    (h' : as'.map erasePlaces = bs'.map erasePlaces) :
    Parser.shorter as as' = Parser.shorter bs bs' := by
  have hlength := congrArg List.length h
  have hlength' := congrArg List.length h'
  simp only [List.length_map] at hlength hlength'
  rw [Parser.shorter, Parser.shorter, hlength, hlength']

theorem furtherLast_of_erasePlaces (h : o.map erasePlaces = p.map erasePlaces)
    (h' : o'.map erasePlaces = p'.map erasePlaces) :
    Parser.furtherLast o o' = Parser.furtherLast p p' := by
  have herase : ∀ o p : Option Complaint, Parser.furtherLast (o.map erasePlaces)
      (p.map erasePlaces) = Parser.furtherLast o p := by
    intro o p
    cases o <;> cases p <;> rfl
  rw [← herase, h, h', herase]

end

namespace Outcome.Alike

variable {α β : Type} {e : α → β} {o₁ o₂ o₁' o₂' : Outcome α}

theorem isClean_eq (h : Alike e o₁ o₂) : o₁.isClean = o₂.isClean := by
  cases h with
  | fail hr he => simp only [isClean]
  | @ok as bs _ _ _ _ _ _ hr _ _ _ =>
    cases as with
    | nil =>
      obtain rfl : bs = [] := by simpa using hr.symm
      rfl
    | cons a as =>
      cases bs with
      | nil => simp at hr
      | cons b bs => rfl

theorem choose (h : Alike e o₁ o₂) (h' : Alike e o₁' o₂') :
    Alike e (Parser.choose o₁ o₁') (Parser.choose o₂ o₂') := by
  cases h with
  | ok hr hx ha halt =>
    cases h' with
    | fail hr' he' => exact .ok hr hx ha halt
    | ok hr' hx' ha' halt' =>
      unfold Parser.choose
      dsimp only
      rw [shorter_of_erasePlaces hr hr', furtherLast_of_erasePlaces halt halt',
        furtherLast_of_erasePlaces (getLast?_erasePlaces hr) (getLast?_erasePlaces hr')]
      split
      · exact .ok hr hx ha halt
      · exact .ok hr' hx' ha' halt'
  | fail hr he =>
    cases h' with
    | ok hr' hx' ha' halt' => exact .ok hr' hx' ha' halt'
    | fail hr' he' =>
      unfold Parser.choose
      dsimp only
      rw [shorter_of_erasePlaces hr hr',
        furtherLast_of_erasePlaces (some_erasePlaces he) (some_erasePlaces he'),
        furtherLast_of_erasePlaces (getLast?_erasePlaces hr) (getLast?_erasePlaces hr')]
      split
      · exact .fail hr he
      · exact .fail hr' he'
      · refine .fail hr ?_
        rw [erasePlaces_join, erasePlaces_join, he, he']

end Outcome.Alike

/-! ## Parsers -/

namespace Parser

variable {α β γ δ : Type}

/-- Parsers with outcomes alike wherever the same tokens are ahead. -/
def Alike (e : α → γ) (p q : Parser α) : Prop :=
  ∀ ⦃c₁ c₂ : Cursor⦄, c₁.bareKinds = c₂.bareKinds → Outcome.Alike e (p c₁) (q c₂)

/-- Delimiters which are no literals, as it is with all. -/
def Delimiters.Plain (pair : Delimiters) : Prop :=
  pair.opening.isLiteral = false ∧ pair.closing.isLiteral = false

/-- Where searches end, they end alike. -/
def SearchEnd.Alike (s₁ s₂ : SearchEnd) : Prop :=
  s₁.after.map Cursor.bareKinds = s₂.after.map Cursor.bareKinds ∧
    s₁.complaint.map erasePlaces = s₂.complaint.map erasePlaces

theorem unclosed_alike (pair : Delimiters) {e₁ e₂ : Option Complaint} {c₁ c₂ : Cursor}
    (he : e₁.map erasePlaces = e₂.map erasePlaces) (hc : c₁.bareKinds = c₂.bareKinds) :
    (e₁.or (some (unclosed pair c₁))).map erasePlaces =
      (e₂.or (some (unclosed pair c₂))).map erasePlaces := by
  cases e₁ <;> cases e₂
  · exact some_erasePlaces (erasePlaces_alike hc _ _ _ _)
  · cases he
  · cases he
  · exact he

/-- A search for a closing delimiter goes the same way. -/
theorem closingOf_alike {pair other : Delimiters} (hpair : pair.Plain) (hother : other.Plain)
    {depth : Nat} {others : Int} {e₁ e₂ : Option Complaint} {c₁ c₂ : Cursor}
    (he : e₁.map erasePlaces = e₂.map erasePlaces) (hc : c₁.bareKinds = c₂.bareKinds) :
    SearchEnd.Alike (closingOf pair other depth others e₁ c₁)
      (closingOf pair other depth others e₂ c₂) := by
  induction hn : c₁.left using Nat.strongRecOn generalizing depth others e₁ e₂ c₁ c₂ with
  | ind n ih =>
    rcases Cursor.next?_alike hc with ⟨h₁, h₂⟩ | ⟨t₁, t₂, a₁, a₂, h₁, h₂, ht, ha⟩
    · rw [closingOf_of_rest_nil h₁, closingOf_of_rest_nil h₂]
      refine ⟨rfl, ?_⟩
      dsimp only
      split
      · exact unclosed_alike pair he hc
      · exact he
    · have hlt := Cursor.left_lt_of_next? h₁
      have ih := @ih a₁.left (by omega)
      rw [closingOf_of_next h₁, closingOf_of_next h₂]
      simp only [TokenKind.eq_iff_of_eraseExtents ht hpair.1,
        TokenKind.eq_iff_of_eraseExtents ht hpair.2, TokenKind.eq_iff_of_eraseExtents ht hother.1,
        TokenKind.eq_iff_of_eraseExtents ht hother.2]
      split
      · exact ih he ha rfl
      · split
        · split
          · exact ⟨congrArg some ha, he⟩
          · exact ih he ha rfl
        · split
          · exact ih he ha rfl
          · split
            · refine ih ?_ ha rfl
              split
              · exact unclosed_alike pair he hc
              · exact he
            · exact ih he ha rfl

theorem closing_alike {pair other : Delimiters} (hpair : pair.Plain) (hother : other.Plain)
    {c₁ c₂ : Cursor} (hc : c₁.bareKinds = c₂.bareKinds) :
    SearchEnd.Alike (closing pair other c₁) (closing pair other c₂) := by
  unfold closing
  rcases Cursor.next?_alike hc with ⟨h₁, h₂⟩ | ⟨t₁, t₂, a₁, a₂, h₁, h₂, ht, ha⟩
  · rw [Cursor.next?_of_rest_nil h₁, Cursor.next?_of_rest_nil h₂]
    exact ⟨rfl, rfl⟩
  · rw [h₁, h₂]
    simp only [TokenKind.eq_iff_of_eraseExtents ht hpair.1]
    split
    · exact closingOf_alike hpair hother rfl ha
    · exact ⟨rfl, rfl⟩

namespace Alike

variable {e : α → γ} {e' : β → δ} {p q p' q' : Parser α}

theorem pure {x y : α} (h : e x = e y) : Alike e (Pure.pure x) (Pure.pure y) := by
  intro c₁ c₂ hc
  exact .ok rfl h hc rfl

theorem fail (expected : List (Option TokenKind)) :
    Alike e (Parser.fail expected) (Parser.fail expected) := by
  intro c₁ c₂ hc
  exact .fail rfl (erasePlaces_alike hc _ _ _ _)

theorem bind {f g : α → Parser β} (h : Alike e p q)
    (hf : ∀ x y, e x = e y → Alike e' (f x) (g y)) : Alike e' (p >>= f) (q >>= g) := by
  intro c₁ c₂ hc
  have h := h hc
  change Outcome.Alike e' (Parser.bind p f c₁) (Parser.bind q g c₂)
  unfold Parser.bind
  generalize p c₁ = o₁ at h ⊢
  generalize q c₂ = o₂ at h ⊢
  cases h with
  | fail hr he => exact .fail hr he
  | @ok _ _ x y a₁ a₂ _ _ hr hx ha halt =>
    have hf := hf x y hx ha
    dsimp only
    generalize f x a₁ = o₁ at hf ⊢
    generalize g y a₂ = o₂ at hf ⊢
    cases hf with
    | fail hr' he =>
      refine .fail (append_erasePlaces hr hr') ?_
      rw [erasePlaces_joinOption, erasePlaces_joinOption, he, halt]
    | ok hr' hx' ha' halt' =>
      exact .ok (append_erasePlaces hr hr') hx' ha' (joinOptions_erasePlaces halt halt')

theorem map {f g : α → β} (h : Alike e p q) (hf : ∀ x y, e x = e y → e' (f x) = e' (g y)) :
    Alike e' (f <$> p) (g <$> q) :=
  bind h fun x y hx => pure (hf x y hx)

theorem token {f g : Lexeme → Option α} {expected : List (Option TokenKind)}
    (h : ∀ t₁ t₂, t₁.node.eraseExtents = t₂.node.eraseExtents → (f t₁).map e = (g t₂).map e) :
    Alike e (Parser.token f expected) (Parser.token g expected) := by
  intro c₁ c₂ hc
  have hfail : Outcome.Alike e ⟨[], .fail (c₁.unexpected expected)⟩
      ⟨[], .fail (c₂.unexpected expected)⟩ :=
    .fail rfl (erasePlaces_alike hc _ _ _ _)
  rcases Cursor.next?_alike hc with ⟨h₁, h₂⟩ | ⟨t₁, t₂, a₁, a₂, h₁, h₂, ht, ha⟩
  · rw [token_of_rejected (by simp [h₁]), token_of_rejected (by simp [h₂])]
    exact hfail
  · have h := h t₁ t₂ ht
    unfold Parser.token
    rw [h₁, h₂]
    dsimp only
    generalize f t₁ = o₁ at h ⊢
    generalize g t₂ = o₂ at h ⊢
    cases o₁ <;> cases o₂
    · exact hfail
    · cases h
    · cases h
    · exact .ok rfl (Option.some.inj h) ha rfl

theorem just {kind : TokenKind} (hkind : kind.isLiteral = false) :
    Alike (fun _ => ()) (Parser.just kind) (Parser.just kind) := by
  refine token fun t₁ t₂ ht => ?_
  simp only [TokenKind.eq_iff_of_eraseExtents ht hkind]

theorem any : Alike TokenKind.eraseExtents Parser.any Parser.any :=
  token fun _ _ ht => congrArg some ht

theorem finish : Alike (fun _ => ()) Parser.finish Parser.finish := by
  intro c₁ c₂ hc
  unfold Parser.finish
  rcases Cursor.next?_alike hc with ⟨h₁, h₂⟩ | ⟨t₁, t₂, a₁, a₂, h₁, h₂, ht, ha⟩
  · rw [h₁, h₂]
    exact .ok rfl rfl hc rfl
  · rw [Cursor.rest_of_next? h₁, Cursor.rest_of_next? h₂]
    exact .fail rfl (erasePlaces_alike hc _ _ _ _)

theorem withSpan {f g : α → Span → β} (h : Alike e p q)
    (hf : ∀ x y s₁ s₂, e x = e y → e' (f x s₁) = e' (g y s₂)) :
    Alike e' (Parser.withSpan f p) (Parser.withSpan g q) := by
  intro c₁ c₂ hc
  have h := h hc
  unfold Parser.withSpan
  generalize p c₁ = o₁ at h ⊢
  generalize q c₂ = o₂ at h ⊢
  cases h with
  | fail hr he => exact .fail hr he
  | ok hr hx ha halt => exact .ok hr (hf _ _ _ _ hx) ha halt

theorem check {f g : α → Span → β × List (Span × String)} (h : Alike e p q)
    (hf : ∀ x y s₁ s₂, e x = e y → e' (f x s₁).1 = e' (g y s₂).1 ∧
      (f x s₁).2.map Prod.snd = (g y s₂).2.map Prod.snd) :
    Alike e' (Parser.check f p) (Parser.check g q) := by
  intro c₁ c₂ hc
  have h := h hc
  unfold Parser.check
  generalize p c₁ = o₁ at h ⊢
  generalize q c₂ = o₂ at h ⊢
  cases h with
  | fail hr he => exact .fail hr he
  | @ok _ _ x y a₁ a₂ _ _ hr hx ha halt =>
    obtain ⟨hvalue, hmessages⟩ := hf x y (c₁.spanTo a₁) (c₂.spanTo a₂) hx
    refine .ok (append_erasePlaces hr ?_) hvalue ha halt
    -- what is erased of a message leaves its text and how many tokens are ahead
    have hcomplain : ∀ (c : Cursor) (report : Span × String → Complaint)
        (messages : List (Span × String)), (∀ m, report m = complain c m.1 m.2) →
        (messages.map report).map erasePlaces =
          (messages.map Prod.snd).map fun message =>
            ⟨c.left, ⟨0, 0, 0⟩, .custom message, [], none⟩ := by
      intro c report messages hreport
      rw [List.map_map, List.map_map]
      refine List.map_congr_left fun m _ => ?_
      rw [Function.comp_apply, hreport]
      rfl
    rw [hcomplain a₁ _ _ fun _ => rfl, hcomplain a₂ _ _ fun _ => rfl, hmessages,
      Cursor.left_alike ha]

/-! ### Choices -/

theorem or (h : Alike e p q) (h' : Alike e p' q') : Alike e (p.or p') (q.or q') := by
  intro c₁ c₂ hc
  have h := h hc
  have h' := h' hc
  rw [or_eq, or_eq, h.isClean_eq, h'.isClean_eq]
  split
  · exact h
  · split
    · exact h'
    · exact h.choose h'

/-- Parsers which are alike one by one. -/
def All (e : α → γ) : List (Parser α) → List (Parser α) → Prop
  | [], [] => True
  | p :: ps, q :: qs => Alike e p q ∧ All e ps qs
  | _, _ => False

theorem firstOf {ps qs : List (Parser α)} {alt₁ alt₂ : Option Complaint} (h : All e ps qs)
    (halt : alt₁.map erasePlaces = alt₂.map erasePlaces) :
    Alike e (Parser.firstOf alt₁ ps) (Parser.firstOf alt₂ qs) := by
  induction ps generalizing qs alt₁ alt₂ with
  | nil =>
    cases qs with
    | cons q qs => exact h.elim
    | nil =>
      intro c₁ c₂ hc
      refine .fail rfl ?_
      cases alt₁ <;> cases alt₂
      · exact erasePlaces_alike hc _ _ _ _
      · cases halt
      · cases halt
      · exact Option.some.inj halt
  | cons p ps ih =>
    cases qs with
    | nil => exact h.elim
    | cons q qs =>
      intro c₁ c₂ hc
      have hp := h.1 hc
      unfold Parser.firstOf
      generalize p c₁ = o₁ at hp ⊢
      generalize q c₂ = o₂ at hp ⊢
      cases hp with
      | ok hr hx ha halt' => exact .ok hr hx ha halt'
      | fail hr he => exact ih h.2 (joinOptions_erasePlaces halt (some_erasePlaces he)) hc

theorem choice {ps qs : List (Parser α)} (h : All e ps qs) :
    Alike e (Parser.choice ps) (Parser.choice qs) :=
  firstOf h rfl

theorem optional (h : Alike e p q) :
    Alike (Option.map e) (Parser.optional p) (Parser.optional q) := by
  intro c₁ c₂ hc
  have h := h hc
  unfold Parser.optional
  generalize p c₁ = o₁ at h ⊢
  generalize q c₂ = o₂ at h ⊢
  cases h with
  | fail hr he => exact .ok rfl rfl hc (some_erasePlaces he)
  | ok hr hx ha halt => exact .ok hr (congrArg some hx) ha halt

/-! ### Repetition -/

theorem many (h : Alike e p q) : Alike (List.map e) (Parser.many p) (Parser.many q) := by
  intro c₁ c₂ hc
  induction hn : c₁.left using Nat.strongRecOn generalizing c₁ c₂ with
  | ind n ih =>
    have hp := h hc
    cases hp₁ : p c₁ with
    | mk as reply₁ =>
      cases hp₂ : q c₂ with
      | mk bs reply₂ =>
        rw [hp₁, hp₂] at hp
        cases hp with
        | fail hr he =>
          simp only [Parser.many, runMany_of_fail hp₁, runMany_of_fail hp₂]
          refine .ok rfl rfl hc (some_erasePlaces ?_)
          rw [erasePlaces_joinAll, erasePlaces_joinAll, he, hr]
        | @ok _ _ x y a₁ a₂ _ _ hr hx ha halt =>
          have hleft := Cursor.left_alike hc
          have hleft' := Cursor.left_alike ha
          by_cases hlt : a₁.left < c₁.left
          · have ih := ih a₁.left (by omega) ha rfl
            simp only [Parser.many] at ih
            simp only [Parser.many, runMany_of_ok hp₁ hlt, runMany_of_ok hp₂ (by omega)]
            generalize runMany p a₁ = run₁ at ih ⊢
            generalize runMany q a₂ = run₂ at ih ⊢
            obtain ⟨_, _, _, _⟩ := run₁
            obtain ⟨_, _, _, _⟩ := run₂
            cases ih with
            | ok hr' hx' ha' halt' =>
              refine .ok (append_erasePlaces hr hr') ?_ ha' (joinOptions_erasePlaces halt halt')
              rw [List.map_cons, List.map_cons, hx, hx']
          · simp only [Parser.many, runMany_of_stuck hp₁ hlt, runMany_of_stuck hp₂ (by omega)]
            exact .ok hr (congrArg (fun x => [x]) hx) ha halt

theorem separated {sep : Parser Unit} (hsep : Alike (fun _ => ()) sep sep) (h : Alike e p q) :
    Alike (List.map e) (fun c => (runSeparated p sep c).outcome)
      (fun c => (runSeparated q sep c).outcome) := by
  intro c₁ c₂ hc
  induction hn : c₁.left using Nat.strongRecOn generalizing c₁ c₂ with
  | ind n ih =>
    have hs := hsep hc
    dsimp only
    rw [runSeparated, runSeparated]
    generalize sep c₁ = s₁ at hs ⊢
    generalize sep c₂ = s₂ at hs ⊢
    cases hs with
    | fail hr he => exact .ok hr rfl hc (some_erasePlaces he)
    | @ok _ _ _ _ a₁ a₂ _ _ hr _ ha halt =>
      have hp := h ha
      dsimp only
      generalize p a₁ = o₁ at hp ⊢
      generalize q a₂ = o₂ at hp ⊢
      cases hp with
      | fail hr' he =>
        exact .ok (append_erasePlaces hr hr') rfl hc
          (joinOptions_erasePlaces halt (some_erasePlaces he))
      | @ok _ _ x y b₁ b₂ _ _ hr' hx hb halt' =>
        have hleft := Cursor.left_alike hc
        have hleft' := Cursor.left_alike hb
        have hreports := append_erasePlaces hr hr'
        have halts := joinOptions_erasePlaces halt halt'
        dsimp only
        by_cases hlt : b₁.left < c₁.left
        · rw [if_pos hlt, if_pos (by omega)]
          have ih := ih b₁.left (by omega) hb rfl
          dsimp only at ih ⊢
          generalize runSeparated p sep b₁ = run₁ at ih ⊢
          generalize runSeparated q sep b₂ = run₂ at ih ⊢
          obtain ⟨_, _, _, _⟩ := run₁
          obtain ⟨_, _, _, _⟩ := run₂
          cases ih with
          | ok hr'' hx' hb' halt'' =>
            refine .ok (append_erasePlaces hreports hr'') ?_ hb'
              (joinOptions_erasePlaces halts halt'')
            rw [List.map_cons, List.map_cons, hx, hx']
        · rw [if_neg hlt, if_neg (by omega)]
          exact .ok hreports (congrArg (fun x => [x]) hx) hb halts

theorem sepBy {sep : Parser Unit} (hsep : Alike (fun _ => ()) sep sep) (h : Alike e p q) :
    Alike (List.map e) (Parser.sepBy p sep) (Parser.sepBy q sep) := by
  intro c₁ c₂ hc
  have hp := h hc
  unfold Parser.sepBy
  generalize p c₁ = o₁ at hp ⊢
  generalize q c₂ = o₂ at hp ⊢
  cases hp with
  | fail hr he => exact .ok hr rfl hc (some_erasePlaces he)
  | @ok _ _ x y a₁ a₂ _ _ hr hx ha halt =>
    have hs := separated hsep h ha
    dsimp only at hs ⊢
    generalize runSeparated p sep a₁ = run₁ at hs ⊢
    generalize runSeparated q sep a₂ = run₂ at hs ⊢
    obtain ⟨_, _, b₁, _⟩ := run₁
    obtain ⟨_, _, b₂, _⟩ := run₂
    cases hs with
    | ok hr' hxs hb halt' =>
      have hvalues := congr (congrArg List.cons hx) hxs
      have hreports := append_erasePlaces hr hr'
      have halts := joinOptions_erasePlaces halt halt'
      -- the separator after the last value
      have hs := hsep hb
      dsimp only
      generalize sep b₁ = s₁ at hs ⊢
      generalize sep b₂ = s₂ at hs ⊢
      cases hs with
      | fail hr'' he =>
        refine .ok hreports hvalues hb (joinOptions_erasePlaces halts (some_erasePlaces ?_))
        rw [erasePlaces_joinAll, erasePlaces_joinAll, he, hr'']
      | ok hr'' _ hb' halt'' =>
        refine .ok hreports hvalues hb' ?_
        rw [erasePlaces_foldl_joinOptions, erasePlaces_foldl_joinOptions, hr'',
          joinOptions_erasePlaces halts halt'']

/-! ### Recovery -/

theorem recoverDelimited {pair other : Delimiters} {f g : Span → α} (hpair : pair.Plain)
    (hother : other.Plain) (h : Alike e p q) (hf : ∀ s₁ s₂, e (f s₁) = e (g s₂)) :
    Alike e (Parser.recoverDelimited pair other f p) (Parser.recoverDelimited pair other g q) := by
  intro c₁ c₂ hc
  have h := h hc
  unfold Parser.recoverDelimited
  generalize p c₁ = o₁ at h ⊢
  generalize q c₂ = o₂ at h ⊢
  cases h with
  | ok hr hx ha halt => exact .ok hr hx ha halt
  | @fail as bs a b hr he =>
    obtain ⟨hafter, hcomplaint⟩ := closing_alike hpair hother hc
    dsimp only
    generalize closing pair other c₁ = s₁ at hafter hcomplaint ⊢
    generalize closing pair other c₂ = s₂ at hafter hcomplaint ⊢
    obtain ⟨after₁, e₁⟩ := s₁
    obtain ⟨after₂, e₂⟩ := s₂
    have hreports : (as ++ e₁.toList).map erasePlaces = (bs ++ e₂.toList).map erasePlaces := by
      refine append_erasePlaces hr ?_
      rw [← Option.toList_map, ← Option.toList_map]
      exact congrArg Option.toList hcomplaint
    cases after₁ <;> cases after₂
    · exact .fail hreports he
    · cases hafter
    · cases hafter
    · have hlast := getLast?_erasePlaces hreports
      have hleft : a.left = b.left := (congrArg Complaint.left he :)
      refine .ok ?_ (hf _ _) (Option.some.inj hafter) rfl
      dsimp only
      generalize (as ++ e₁.toList).getLast? = l₁ at hlast ⊢
      generalize (bs ++ e₂.toList).getLast? = l₂ at hlast ⊢
      have hboth := append_erasePlaces hreports (single_erasePlaces he)
      cases l₁ <;> cases l₂
      · exact hboth
      · cases hlast
      · cases hlast
      · have hleft' := congrArg Complaint.left (Option.some.inj hlast)
        simp only [Complaint.erasePlaces_left] at hleft'
        simp only [decide_eq_true_eq, hleft, hleft']
        split
        · exact hreports
        · exact hboth

theorem retry (h : Alike e p q) {c₁ c₂ : Cursor} (hc : c₁.bareKinds = c₂.bareKinds) :
    (Parser.retry p c₁ = none ∧ Parser.retry q c₂ = none) ∨
      ∃ o₁ o₂, Parser.retry p c₁ = some o₁ ∧ Parser.retry q c₂ = some o₂ ∧
        Outcome.Alike e o₁ o₂ := by
  induction hn : c₁.left using Nat.strongRecOn generalizing c₁ c₂ with
  | ind n ih =>
    rcases Cursor.next?_alike hc with ⟨h₁, h₂⟩ | ⟨t₁, t₂, a₁, a₂, h₁, h₂, ht, ha⟩
    · exact .inl ⟨retry_of_rest_nil h₁, retry_of_rest_nil h₂⟩
    · have hlt := Cursor.left_lt_of_next? h₁
      have hp := h ha
      have hresult : (p a₁).result.isSome = (q a₂).result.isSome := by
        generalize p a₁ = o₁ at hp ⊢
        generalize q a₂ = o₂ at hp ⊢
        cases hp <;> rfl
      rw [retry_of_next h₁, retry_of_next h₂, hresult]
      split
      · exact .inr ⟨_, _, rfl, rfl, hp⟩
      · exact ih a₁.left (by omega) ha rfl

theorem recoverSkipping (h : Alike e p q) :
    Alike e (Parser.recoverSkipping p) (Parser.recoverSkipping q) := by
  intro c₁ c₂ hc
  have hp := h hc
  unfold Parser.recoverSkipping
  generalize p c₁ = o₁ at hp ⊢
  generalize q c₂ = o₂ at hp ⊢
  cases hp with
  | ok hr hx ha halt => exact .ok hr hx ha halt
  | fail hr he =>
    have hlast := single_erasePlaces he
    dsimp only
    rcases retry h hc with ⟨h₁, h₂⟩ | ⟨o₁, o₂, h₁, h₂, hretry⟩
    · rw [h₁, h₂]
      exact .fail hr he
    · rw [h₁, h₂]
      cases hretry with
      | ok hr' hx ha halt => exact .ok (append_erasePlaces hr' hlast) hx ha halt
      | fail hr' he' => exact .fail (append_erasePlaces hr' hlast) he'

end Alike

end Parser

end LunSyntax
