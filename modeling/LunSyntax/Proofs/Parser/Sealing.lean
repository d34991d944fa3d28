import LunSyntax.Proofs.Parser.Agreement
import LunSyntax.Proofs.Parser.Reading

/-!
# Sealed tokens

Tokens which end with a semicolon or a closing brace may be all of an input, or a name may follow
them.  A parser cannot tell, as long as it does not go on reading behind them.

* `Sealed`: tokens which end so;
* `Parser.Stays`: parsers which do not read the last one of sealed tokens;
* `Parser.Shut`: parsers which fail at once both at the end of an input and in front of a name;
* `Parser.Extends`: parsers whose outcomes agree in front of sealed tokens, be these all or followed
  by a name.  There is one lemma for each way to combine parsers.
-/

set_option autoImplicit false

namespace LunSyntax

open Cursor (Beside Onward Opens)

/-- A semicolon or a closing brace. -/
def TokenKind.Seals (k : TokenKind) : Prop := k = .control ';' ∨ k = .control '}'

/-- The last one of some tokens, if any, is a semicolon or a closing brace. -/
def Sealed (v : List Lexeme) : Prop := ∀ t ∈ v.getLast?, t.node.Seals

/-- The first one of some tokens is a name. -/
def NameAhead (ts : List Lexeme) : Prop :=
  ∃ name t rest, ts = t :: rest ∧ t.node = .ident name

theorem TokenKind.IsInner.not_seals {k : TokenKind} (h : k.IsInner) : ¬ k.Seals := by
  rintro (rfl | rfl)
  · exact h.2 rfl
  · cases h.1

theorem Sealed.of_suffix {v v' : List Lexeme} (h : Sealed v) (hsuffix : v' <:+ v) : Sealed v' := by
  intro t ht
  obtain ⟨u, rfl⟩ := hsuffix
  refine h t ?_
  rw [List.getLast?_append, Option.mem_def.1 ht]
  rfl

namespace Parser

variable {α β : Type} {n : Nat} {b : Bool}

/-! ## Parsers which stay -/

/-- The last token which is read, if any, is no bracket and no semicolon. -/
def Stays (p : Parser α) : Prop :=
  Reads .recovering p fun _ ts => ∀ k ∈ ts.getLast?, k.IsInner

/-- Of sealed tokens, there is always one left. -/
theorem Stays.rest_ne_nil {p : Parser α} {c after : Cursor} {x : α} {as : List Complaint}
    {alt : Option Complaint} (h : Stays p) (hp : p c = ⟨as, .ok x after alt⟩)
    (hsealed : Sealed c.rest) (hne : c.rest ≠ []) : after.rest ≠ [] := by
  intro hnil
  obtain ⟨used, hpass, hinner⟩ := h hp fun _ => rfl
  have hused : c.rest = used := by rw [hpass.rest_eq, hnil, List.append_nil]
  have hlast := List.getLast?_eq_some_getLast hne
  refine (hinner (c.rest.getLast hne).node ?_).not_seals (hsealed _ hlast)
  rw [List.getLast?_map, ← hused, hlast]
  rfl

theorem Stays.many {p : Parser α} (h : Stays p) : Stays (Parser.many p) := by
  refine .mono (Reads.many h) fun xs ts hts => ?_
  induction hts with
  | nil => exact fun k hk => by cases hk
  | cons hx _ ih =>
    intro k hk
    rw [List.getLast?_append] at hk
    rcases Option.or_eq_some_iff.1 hk with hk | ⟨-, hk⟩
    · exact ih k hk
    · exact hx k hk

/-! ## Parsers which are shut -/

/-- Parsers which fail at once, both at the end of an input and in front of a name. -/
def Shut (p : Parser α) : Prop :=
  ∀ ⦃c : Cursor⦄, c.rest = [] ∨ NameAhead c.rest →
    ∃ e, p c = ⟨[], .fail e⟩ ∧ e.left = c.left

namespace Shut

variable {p q : Parser α}

theorem token {f : Lexeme → Option α} {expected : List (Option TokenKind)}
    (h : ∀ t name, t.node = .ident name → f t = none) : Shut (Parser.token f expected) := by
  intro c hc
  refine ⟨_, token_of_rejected fun t ht => ?_, rfl⟩
  rcases hc with hnil | ⟨name, t', rest, hrest, hname⟩
  · simp [hnil] at ht
  · rw [hrest] at ht
    cases ht
    exact h _ name hname

theorem just {kind : TokenKind} (h : ∀ name, kind ≠ .ident name) : Shut (Parser.just kind) := by
  refine token fun t name ht => if_neg ?_
  rw [ht]
  exact (h name).symm

theorem bind {f : α → Parser β} (h : Shut p) : Shut (p >>= f) := by
  intro c hc
  obtain ⟨e, he, hleft⟩ := h hc
  exact ⟨e, bind_of_fail he, hleft⟩

theorem map {f : α → β} (h : Shut p) : Shut (f <$> p) := bind h

theorem withSpan {f : α → Span → β} (h : Shut p) : Shut (Parser.withSpan f p) := by
  intro c hc
  obtain ⟨e, he, hleft⟩ := h hc
  exact ⟨e, withSpan_of_fail he, hleft⟩

theorem check {f : α → Span → β × List (Span × String)} (h : Shut p) :
    Shut (Parser.check f p) := by
  intro c hc
  obtain ⟨e, he, hleft⟩ := h hc
  exact ⟨e, check_of_fail he, hleft⟩

theorem or (h : Shut p) (h' : Shut q) : Shut (p.or q) := by
  intro c hc
  obtain ⟨e, he, hleft⟩ := h hc
  obtain ⟨e', he', hleft'⟩ := h' hc
  refine ⟨e.join e', ?_, by rw [Levels.join_left, hleft, hleft', Nat.min_self]⟩
  rw [or_eq, he, he', if_neg (by simp [Outcome.isClean]), if_neg (by simp [Outcome.isClean])]
  simp [Parser.choose, furtherLast, shorter, hleft, hleft']

theorem choice {p : Parser α} {ps : List (Parser α)} (h : ∀ q ∈ p :: ps, Shut q) :
    Shut (Parser.choice (p :: ps)) := by
  have go : ∀ (ps : List (Parser α)) (alt : Complaint) {c : Cursor}, (∀ q ∈ ps, Shut q) →
      c.rest = [] ∨ NameAhead c.rest → alt.left = c.left →
        ∃ e, Parser.firstOf (some alt) ps c = ⟨[], .fail e⟩ ∧ e.left = c.left := by
    intro ps
    induction ps with
    | nil => exact fun alt c _ _ hleft => ⟨alt, rfl, hleft⟩
    | cons q qs ih =>
      intro alt c hqs hc hleft
      obtain ⟨hq, hqs⟩ := List.forall_mem_cons.1 hqs
      obtain ⟨e, he, hleft'⟩ := hq hc
      unfold Parser.firstOf
      rw [he]
      exact ih (e.join alt) hqs hc (by rw [Levels.join_left, hleft, hleft', Nat.min_self])
  intro c hc
  obtain ⟨hp, hps⟩ := List.forall_mem_cons.1 h
  obtain ⟨e, he, hleft⟩ := hp hc
  unfold Parser.choice Parser.firstOf
  rw [he]
  exact go ps e hps hc hleft

theorem recoverDelimited {pair other : Delimiters} {fallback : Span → α} (h : Shut p)
    (hopen : ∀ name, pair.opening ≠ .ident name) :
    Shut (Parser.recoverDelimited pair other fallback p) := by
  intro c hc
  obtain ⟨e, he, hleft⟩ := h hc
  refine ⟨e, ?_, hleft⟩
  have hsearch : closing pair other c = ⟨none, none⟩ := by
    refine closing_of_ne fun t ht heq => ?_
    rcases hc with hnil | ⟨name, t', rest, hrest, hname⟩
    · simp [hnil] at ht
    · rw [hrest] at ht
      cases ht
      exact hopen name (heq ▸ hname)
  unfold Parser.recoverDelimited
  rw [he]
  simp only [hsearch]
  rfl

end Shut

/-! ## Parsers in front of sealed tokens -/

/-- Parsers whose outcomes agree where there are fewer than `n` tokens and these are sealed: be
nothing behind them for the one and a name for the other.  Unless `b` holds, there has to be such a
token. -/
def Extends (n : Nat) (b : Bool) (p q : Parser α) : Prop :=
  ∀ ⦃t v : List Lexeme⦄ ⦃c₁ c₂ : Cursor⦄, NameAhead t → Sealed v → v.length < n →
    (v = [] → b = true) → Beside [] t v c₁ c₂ → Agree [] t v c₁ c₂ (p c₁) (q c₂)

namespace Extends

variable {p q p' q' : Parser α} {t v : List Lexeme} {c₁ c₂ : Cursor}

theorem here_eq (hc : Beside [] t v c₁ c₂) (hne : v ≠ []) : c₁.here = c₂.here := by
  unfold Cursor.here
  rw [hc.rest_left, hc.rest_right]
  cases v with
  | nil => exact absurd rfl hne
  | cons s v => rfl

theorem opens {b : Bracket} (hc : Beside [] t v c₁ c₂) (hne : v ≠ []) : Opens b v c₁ c₂ := by
  cases v with
  | nil => exact absurd rfl hne
  | cons s v =>
    by_cases hs : s.node = b.pair.opening
    · exact .inr ⟨s, v, rfl, hs⟩
    · refine .inl ⟨?_, ?_⟩
      · simpa [hc.rest_left] using hs
      · simpa [hc.rest_right] using hs

theorem weaken {m : Nat} (hm : m ≤ n) (h : Extends n b p q) : Extends m b p q :=
  fun _ _ _ _ ht hs hv hb hc => h ht hs (Nat.lt_of_lt_of_le hv hm) hb hc

/-- What holds also at the end holds before it. -/
theorem before (h : Extends n true p q) : Extends n false p q :=
  fun _ _ _ _ ht hs hv _ hc => h ht hs hv (fun _ => rfl) hc

/-- Parsers which are shut agree at the end as well. -/
theorem shut (h : Extends n false p q) (hp : Shut p) (hq : Shut q) : Extends n true p q := by
  intro t v c₁ c₂ ht hs hv _ hc
  cases v with
  | cons s v => exact h ht hs hv (by simp) hc
  | nil =>
    obtain ⟨e₁, h₁, hleft₁⟩ := hp (c := c₁) (.inl hc.rest_left)
    obtain ⟨e₂, h₂, hleft₂⟩ := hq (c := c₂) (.inr (by rwa [hc.rest_right]))
    rw [h₁, h₂]
    refine .fail .nil (.single ?_)
    rw [hleft₁, hleft₂]
    exact hc.left_eq

theorem pure (x : α) : Extends n b (Pure.pure x : Parser α) (Pure.pure x) :=
  fun _ _ _ _ _ _ _ _ hc => .ok .nil hc.refl .nil

/-- The second parser agrees wherever the first one ends. -/
theorem bind {f g : α → Parser β} (h : Extends n b p q) (hf : ∀ x, Extends n true (f x) (g x)) :
    Extends n b (p >>= f) (q >>= g) := by
  intro t v c₁ c₂ ht hs hv hb hc
  refine .bind [] (h ht hs hv hb hc) fun x v' a₁ a₂ _ hw => .onward hw ?_
  exact hf x ht (hs.of_suffix hw.suffix) (Nat.lt_of_le_of_lt hw.length_le hv) (fun _ => rfl)
    hw.beside

theorem map {f : α → β} (h : Extends n b p q) : Extends n b (f <$> p) (f <$> q) :=
  bind h fun _ => pure _

/-- The first parser does not go to the end, so the second one is not at the end. -/
theorem bindStays {f g : α → Parser β} (h : Extends n false p q) (hp : Stays p)
    (hf : ∀ x, Extends n false (f x) (g x)) : Extends n false (p >>= f) (q >>= g) := by
  intro t v c₁ c₂ ht hs hv hb hc
  have hrest : c₁.rest = v := by rw [hc.rest_left, List.append_nil]
  have hne : v ≠ [] := fun hnil => by simpa using hb hnil
  refine .bind [] (h ht hs hv hb hc) fun x v' a₁ a₂ ⟨as, alt, hok⟩ hw => .onward hw ?_
  have hleft : a₁.rest ≠ [] := hp.rest_ne_nil hok (hrest ▸ hs) (hrest ▸ hne)
  rw [hw.beside.rest_left, List.nil_append, List.append_nil] at hleft
  exact hf x ht (hs.of_suffix hw.suffix) (Nat.lt_of_le_of_lt hw.length_le hv)
    (fun hnil => absurd hnil hleft) hw.beside

theorem token {f : Lexeme → Option α} {expected : List (Option TokenKind)}
    (hplain : ∀ t x, f t = some x → t.node.side = .plain) :
    Extends n false (Parser.token f expected) (Parser.token f expected) := by
  intro t v c₁ c₂ _ _ _ hb hc
  have hne : v ≠ [] := fun hnil => by simpa using hb hnil
  rcases token_agrees expected (fun hnil => absurd hnil hne) hplain hc with
    ⟨h₁, h₂⟩ | ⟨s, x, v', a₁, a₂, -, -, h₁, h₂, hw⟩
  · rw [h₁, h₂]
    exact .fail .nil (hc.levels_unexpected expected)
  · rw [h₁, h₂]
    exact .ok .nil hw .nil

theorem just {kind : TokenKind} (hplain : kind.side = .plain) :
    Extends n false (Parser.just kind) (Parser.just kind) :=
  token (just_plain hplain)

/-- A token which is not the last one, and then parsers that have less in front of them. -/
theorem stepJust {kind : TokenKind} {g g' : Unit → Parser β} (hinner : kind.IsInner)
    (hg : Extends n false (g ()) (g' ())) :
    Extends (n + 1) false (Parser.just kind >>= g) (Parser.just kind >>= g') := by
  intro t v c₁ c₂ ht hs hv hb hc
  have hne : v ≠ [] := fun hnil => by simpa using hb hnil
  rcases token_agrees [some kind] (fun hnil => absurd hnil hne) (just_plain hinner.1) hc with
    ⟨h₁, h₂⟩ | ⟨s, x, v', a₁, a₂, rfl, hf, h₁, h₂, hw⟩
  · change Parser.just kind c₁ = _ at h₁
    change Parser.just kind c₂ = _ at h₂
    rw [bind_of_fail h₁, bind_of_fail h₂]
    exact .fail .nil (hc.levels_unexpected _)
  · change Parser.just kind c₁ = _ at h₁
    change Parser.just kind c₂ = _ at h₂
    rw [bind_of_ok h₁, bind_of_ok h₂]
    have hkind : s.node = kind := by simpa using hf
    have hleft : v' ≠ [] := by
      rintro rfl
      exact hinner.not_seals (hkind ▸ hs s rfl)
    rw [List.length_cons] at hv
    exact .onward hw (hg ht (hs.of_suffix hw.suffix) (by omega) (fun hnil => absurd hnil hleft)
      hw.beside)

theorem justBind {kind : TokenKind} {g g' : Unit → Parser β} (hinner : kind.IsInner)
    (hg : Extends n false (g ()) (g' ())) :
    Extends n false (Parser.just kind >>= g) (Parser.just kind >>= g') :=
  (stepJust hinner hg).weaken (Nat.le_succ n)

theorem withSpan {f : α → Span → β} (h : Extends n false p q) :
    Extends n false (Parser.withSpan f p) (Parser.withSpan f q) := by
  intro t v c₁ c₂ ht hs hv hb hc
  exact (h ht hs hv hb hc).withSpan hc (here_eq hc fun hnil => by simpa using hb hnil)

theorem check {f : α → Span → β × List (Span × String)} (h : Extends n false p q) :
    Extends n false (Parser.check f p) (Parser.check f q) := by
  intro t v c₁ c₂ ht hs hv hb hc
  exact (h ht hs hv hb hc).check hc (here_eq hc fun hnil => by simpa using hb hnil)

/-! ### Choices -/

theorem or (h : Extends n b p q) (h' : Extends n b p' q') : Extends n b (p.or p') (q.or q') :=
  fun _ _ _ _ ht hs hv hb hc => (h ht hs hv hb hc).or (h' ht hs hv hb hc)

/-- Parsers which agree one by one. -/
def All (n : Nat) (b : Bool) : List (Parser α) → List (Parser α) → Prop
  | [], [] => True
  | p :: ps, q :: qs => Extends n b p q ∧ All n b ps qs
  | _, _ => False

theorem All.agree {ps qs : List (Parser α)} (h : All n b ps qs) (ht : NameAhead t) (hs : Sealed v)
    (hv : v.length < n) (hb : v = [] → b = true) (hc : Beside [] t v c₁ c₂) :
    Agree.All [] t v c₁ c₂ ps qs := by
  induction ps generalizing qs with
  | nil =>
    cases qs with
    | nil => trivial
    | cons q qs => exact h.elim
  | cons p ps ih =>
    cases qs with
    | nil => exact h.elim
    | cons q qs => exact ⟨h.1 ht hs hv hb hc, ih h.2⟩

theorem choice {ps qs : List (Parser α)} (h : All n b ps qs) :
    Extends n b (Parser.choice ps) (Parser.choice qs) :=
  fun _ _ _ _ ht hs hv hb hc => .firstOf (h.agree ht hs hv hb hc) hc .nil

theorem optional (h : Extends n b p q) : Extends n b (Parser.optional p) (Parser.optional q) :=
  fun _ _ _ _ ht hs hv hb hc => (h ht hs hv hb hc).optional hc

theorem many (h : Extends n true p q) : Extends n true (Parser.many p) (Parser.many q) :=
  fun _ _ _ _ ht hs hv _ hc => .many (P := fun v => Sealed v ∧ v.length < n)
    (fun hsuffix hv => ⟨hv.1.of_suffix hsuffix, Nat.lt_of_le_of_lt hsuffix.length_le hv.2⟩)
    (fun hv hc => h ht hv.1 hv.2 (fun _ => rfl) hc) ⟨hs, hv⟩ hc

/-! ### Delimiters -/

theorem delimited {f : α → β} (b : Bracket) (h : Related n (· = b.pair.closing) p q) :
    Extends (n + 1) false
      (Parser.just b.pair.opening >>= fun _ => p >>= fun x =>
        Parser.just b.pair.closing >>= fun _ => Pure.pure (f x))
      (Parser.just b.pair.opening >>= fun _ => q >>= fun x =>
        Parser.just b.pair.closing >>= fun _ => Pure.pure (f x)) := by
  intro t v c₁ c₂ ht hs hv hb hc
  exact Related.delimited_agrees (opens hc fun hnil => by simpa using hb hnil) h hv hc

theorem recoverDelimited {b : Bracket} {other : Delimiters} {fallback : Span → α}
    (h : Extends n false p q) :
    Extends n false (Parser.recoverDelimited b.pair other fallback p)
      (Parser.recoverDelimited b.pair other fallback q) := by
  intro t v c₁ c₂ ht hs hv hb hc
  have hne : v ≠ [] := fun hnil => by simpa using hb hnil
  exact Related.recoverDelimited_agrees (opens hc hne) (h ht hs hv hb hc) hc (here_eq hc hne)

end Extends

end Parser

end LunSyntax
