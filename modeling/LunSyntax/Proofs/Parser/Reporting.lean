import LunSyntax.Proofs.Parser.Spelling

/-!
# Values and what is reported with them

A parser that goes on after a fault reports it, and what is reported is dropped with the value it is
about, but never without it.

* `Parser.Reports source p R`: where `p` succeeds on tokens of a source, its value, the tokens it
  read and the complaints it reported are related by `R`;
* `Parser.Reports.and`: what is known of the tokens alone can be added, since a success tells which
  tokens were read;
* one lemma for each way to combine parsers, as for `Parser.Spells`.
-/

set_option autoImplicit false

namespace LunSyntax

/-- The tokens between two places. -/
theorem Cursor.Reaches.unique {c after : Cursor} {us vs : List Lexeme} (h : c.Reaches us after)
    (h' : c.Reaches vs after) : us = vs :=
  List.append_cancel_right (h.passes.rest_eq.symm.trans h'.passes.rest_eq)

/-- Each of some messages is reported. -/
def Told (reported : List Complaint) (messages : List (Span × String)) : Prop :=
  ∀ m ∈ messages, ∃ e ∈ reported, e.span = m.1 ∧ e.cause = .custom m.2

namespace Parser

variable {source : UInt16} {α β : Type}

/-- The value of a success, the tokens of it and what was reported with it are related. -/
def Reports (source : UInt16) (p : Parser α) (R : α → List Lexeme → List Complaint → Prop) :
    Prop :=
  ∀ ⦃c : Cursor⦄ ⦃reported : List Complaint⦄ ⦃a : α⦄ ⦃after : Cursor⦄ ⦃alt : Option Complaint⦄,
    c.In source → p c = ⟨reported, .ok a after alt⟩ →
      ∃ used, c.Reaches used after ∧ R a used reported

namespace Reports

variable {p q : Parser α} {R S : α → List Lexeme → List Complaint → Prop}
  {T : β → List Lexeme → List Complaint → Prop}

theorem mono (hp : Reports source p R) (h : ∀ a used es, R a used es → S a used es) :
    Reports source p S := by
  intro c reported a after alt hc hpc
  obtain ⟨used, hreach, hr⟩ := hp hc hpc
  exact ⟨used, hreach, h _ _ _ hr⟩

/-- What is known of the value and its tokens, whatever is reported. -/
theorem of_spells {R : α → List Lexeme → Prop} (hp : Spells source p R) :
    Reports source p fun a used _ => R a used := by
  intro c reported a after alt hc hpc
  have h := hp c hc
  rw [hpc] at h
  cases h with
  | ok _ _ hreach hr => exact ⟨_, hreach, hr⟩

theorem and (hp : Reports source p R) (hp' : Reports source p S) :
    Reports source p fun a used es => R a used es ∧ S a used es := by
  intro c reported a after alt hc hpc
  obtain ⟨used, hreach, hr⟩ := hp hc hpc
  obtain ⟨used', hreach', hs⟩ := hp' hc hpc
  obtain rfl := hreach.unique hreach'
  exact ⟨used, hreach, hr, hs⟩

theorem just (kind : TokenKind) :
    Reports source (Parser.just kind) fun _ used _ => ∃ t, used = [t] ∧ t.node = kind :=
  of_spells (.just kind)

theorem pure {a : α} (h : R a [] []) : Reports source (Pure.pure a : Parser α) R := by
  intro c reported a' after alt _ hpc
  cases hpc
  exact ⟨[], .refl, h⟩

theorem fail {expected : List (Option TokenKind)} : Reports source (Parser.fail expected) R := by
  intro c reported a after alt _ hpc
  cases hpc

theorem bind {f : α → Parser β} (hp : Reports source p R)
    (hf : ∀ a, Reports source (f a) fun b vs more =>
      ∀ us es, R a us es → T b (us ++ vs) (es ++ more)) :
    Reports source (p >>= f) T := by
  intro c reported b last alt hc hboth
  obtain ⟨es, a, mid, alt', more, alt'', hpc, hfc, rfl⟩ := bind_eq_ok hboth
  obtain ⟨us, hus, hr⟩ := hp hc hpc
  obtain ⟨vs, hvs, ht⟩ := hf a (hus.isIn hc) hfc
  exact ⟨us ++ vs, hus.trans hvs, ht us es hr⟩

theorem map {f : α → β} (hp : Reports source p R)
    (h : ∀ a used es, R a used es → T (f a) used es) : Reports source (f <$> p) T := by
  refine bind hp fun a => pure ?_
  intro us es hr
  rw [List.append_nil, List.append_nil]
  exact h _ _ _ hr

theorem withSpan {f : α → Span → β} (hp : Reports source p R)
    (h : ∀ a span used es, R a used es → (used ≠ [] → Exact source used span) →
      T (f a span) used es) :
    Reports source (Parser.withSpan f p) T := by
  intro c reported b after alt hc hspan
  obtain ⟨a, hpc, rfl⟩ := withSpan_eq_ok hspan
  obtain ⟨used, hreach, hr⟩ := hp hc hpc
  refine ⟨used, hreach, h _ _ _ _ hr fun hne => ?_⟩
  rw [← hc.finish_source]
  exact hreach.spanTo_exact hne

/-- All messages about a value are reported with it. -/
theorem check {f : α → Span → β × List (Span × String)} (hp : Reports source p R)
    (h : ∀ a span used es told, R a used es → (used ≠ [] → Exact source used span) →
      Told told (f a span).2 → T (f a span).1 used (es ++ told)) :
    Reports source (Parser.check f p) T := by
  intro c reported b after alt hc hpc
  unfold Parser.check at hpc
  split at hpc
  · rename_i es a after' alt' ha
    cases hpc
    obtain ⟨used, hreach, hr⟩ := hp hc ha
    refine ⟨used, hreach, h _ _ _ _ _ hr (fun hne => ?_) fun m hm => ?_⟩
    · rw [← hc.finish_source]
      exact hreach.spanTo_exact hne
    · exact ⟨_, List.mem_map_of_mem hm, rfl, rfl⟩
  · cases hpc

/-! ### Choices -/

theorem or (hp : Reports source p R) (hq : Reports source q R) : Reports source (p.or q) R := by
  intro c reported a after alt hc hpc
  rw [or_eq] at hpc
  split at hpc
  · exact hp hc hpc
  · split at hpc
    · exact hq hc hpc
    · rcases choose_eq_ok hpc with h | h
      · exact hp hc h
      · exact hq hc h

theorem firstOf {ps : List (Parser α)} (hps : ∀ p ∈ ps, Reports source p R)
    (alt : Option Complaint) : Reports source (Parser.firstOf alt ps) R := by
  induction ps generalizing alt with
  | nil =>
    intro c reported a after alt' _ hpc
    cases hpc
  | cons p ps ih =>
    obtain ⟨hp, hps⟩ := List.forall_mem_cons.1 hps
    intro c reported a after alt' hc hpc
    unfold Parser.firstOf at hpc
    split at hpc
    · rename_i h
      cases hpc
      exact hp hc h
    · exact ih hps _ hc hpc

theorem choice {ps : List (Parser α)} (hps : ∀ p ∈ ps, Reports source p R) :
    Reports source (Parser.choice ps) R :=
  firstOf hps none

theorem optional {S : Option α → List Lexeme → List Complaint → Prop} (hp : Reports source p R)
    (hnone : S none [] []) (hsome : ∀ a used es, R a used es → S (some a) used es) :
    Reports source (Parser.optional p) S := by
  intro c reported a after alt hc hpc
  unfold Parser.optional at hpc
  split at hpc
  · rename_i h
    cases hpc
    obtain ⟨used, hreach, hr⟩ := hp hc h
    exact ⟨used, hreach, hsome _ _ _ hr⟩
  · cases hpc
    exact ⟨[], .refl, hnone⟩

/-! ### Repetition -/

section

variable {L : List α → List Lexeme → List Complaint → Prop}

theorem runMany (hp : Reports source p R) (hnil : L [] [] [])
    (hcons : ∀ a as us vs es more, R a us es → L as vs more → L (a :: as) (us ++ vs) (es ++ more))
    (c : Cursor) (hc : c.In source) :
    ∃ used, c.Reaches used (Parser.runMany p c).after ∧
      L (Parser.runMany p c).values used (Parser.runMany p c).reported := by
  fun_induction Parser.runMany p c with
  | case1 c reported complaint hpc => exact ⟨[], .refl, hnil⟩
  | case2 c reported a after alt hpc hlt more ih =>
    obtain ⟨us, hus, hr⟩ := hp hc hpc
    obtain ⟨vs, hvs, hl⟩ := ih (hus.isIn hc)
    exact ⟨us ++ vs, hus.trans hvs, hcons _ _ _ _ _ _ hr hl⟩
  | case3 c reported a after alt hpc hlt =>
    obtain ⟨us, hus, hr⟩ := hp hc hpc
    have hl := hcons a [] us [] reported [] hr hnil
    rw [List.append_nil, List.append_nil] at hl
    exact ⟨us, hus, hl⟩

theorem many (hp : Reports source p R) (hnil : L [] [] [])
    (hcons : ∀ a as us vs es more, R a us es → L as vs more → L (a :: as) (us ++ vs) (es ++ more)) :
    Reports source (Parser.many p) L := by
  intro c reported as after alt hc hpc
  have h := runMany hp hnil hcons c hc
  cases hpc
  exact h

/-- Separators may be read and complaints be made between the values and after them. -/
theorem runSeparated {sep : Parser Unit} (hp : Reports source p R)
    (hsep : Spells source sep fun _ _ => True) (hnil : ∀ used es, L [] used es)
    (hcons : ∀ a as gap us vs before es more, R a us es → L as vs more →
      L (a :: as) (gap ++ us ++ vs) (before ++ es ++ more))
    (c : Cursor) (hc : c.In source) :
    ∃ used, c.Reaches used (Parser.runSeparated p sep c).after ∧
      L (Parser.runSeparated p sep c).values used (Parser.runSeparated p sep c).reported := by
  have hsep := of_spells hsep
  fun_induction Parser.runSeparated p sep c with
  | case1 c reported complaint hsc => exact ⟨[], .refl, hnil _ _⟩
  | case2 c reported between sepAlt hsc more complaint hpc => exact ⟨[], .refl, hnil _ _⟩
  | case3 c reported between sepAlt hsc more a after alt hpc hlt rest ih =>
    obtain ⟨gap, hgap, -⟩ := hsep hc hsc
    obtain ⟨us, hus, hr⟩ := hp (hgap.isIn hc) hpc
    obtain ⟨vs, hvs, hl⟩ := ih ((hgap.trans hus).isIn hc)
    exact ⟨gap ++ us ++ vs, (hgap.trans hus).trans hvs, hcons _ _ _ _ _ _ _ _ hr hl⟩
  | case4 c reported between sepAlt hsc more a after alt hpc hlt =>
    obtain ⟨gap, hgap, -⟩ := hsep hc hsc
    obtain ⟨us, hus, hr⟩ := hp (hgap.isIn hc) hpc
    have hl := hcons a [] gap us [] reported more [] hr (hnil _ _)
    rw [List.append_nil, List.append_nil] at hl
    exact ⟨gap ++ us, hgap.trans hus, hl⟩

theorem sepBy {sep : Parser Unit} (hp : Reports source p R)
    (hsep : Spells source sep fun _ _ => True) (hnil : ∀ used es, L [] used es)
    (hcons : ∀ a as gap us vs before es more, R a us es → L as vs more →
      L (a :: as) (gap ++ us ++ vs) (before ++ es ++ more))
    (hend : ∀ as used gap es, L as used es → L as (used ++ gap) es) :
    Reports source (Parser.sepBy p sep) L := by
  intro c reported as after alt hc hpc
  unfold Parser.sepBy at hpc
  split at hpc
  · cases hpc
    exact ⟨[], .refl, hnil _ _⟩
  · rename_i es a mid alt' ha
    obtain ⟨us, hus, hr⟩ := hp hc ha
    obtain ⟨vs, hvs, hl⟩ := runSeparated hp hsep hnil hcons mid (hus.isIn hc)
    have hall : L (a :: (Parser.runSeparated p sep mid).values) (us ++ vs)
        (es ++ (Parser.runSeparated p sep mid).reported) := hcons _ _ [] _ _ [] _ _ hr hl
    dsimp only at hpc
    split at hpc
    · rename_i hsc
      cases hpc
      obtain ⟨gap, hgap, -⟩ := of_spells hsep ((hus.trans hvs).isIn hc) hsc
      exact ⟨us ++ vs ++ gap, (hus.trans hvs).trans hgap, hend _ _ _ _ hall⟩
    · cases hpc
      exact ⟨us ++ vs, hus.trans hvs, hall⟩

end

/-! ### Recovery -/

/-- What is made up after a failure is right whatever was skipped and reported. -/
theorem recoverDelimited {pair other : Delimiters} {fallback : Span → α}
    (hp : Reports source p R) (h : ∀ span used es, used ≠ [] → R (fallback span) used es) :
    Reports source (Parser.recoverDelimited pair other fallback p) R := by
  intro c reported a after alt hc hpc
  unfold Parser.recoverDelimited at hpc
  split at hpc
  · rename_i ha
    cases hpc
    exact hp hc ha
  · dsimp only at hpc
    split at hpc
    · cases hpc
    · rename_i hsearch
      cases hpc
      obtain ⟨opening, us, closing, hreach⟩ := (Spells.closing_searches pair other hc).2 _ hsearch
      exact ⟨_, hreach, h _ _ _ (List.cons_ne_nil _ _)⟩

/-- What is found after skipping some tokens has its own reports. -/
theorem retry (hp : Reports source p R) (c : Cursor) (hc : c.In source) {reported : List Complaint}
    {a : α} {after : Cursor} {alt : Option Complaint}
    (h : Parser.retry p c = some ⟨reported, .ok a after alt⟩) :
    ∃ gap used, c.Reaches (gap ++ used) after ∧ R a used reported := by
  fun_induction Parser.retry p c with
  | case1 c hnext => cases h
  | case2 c t mid hnext hlt es b last alt' hpc =>
    cases h
    have hreach : c.Reaches [t] mid := .of_next? hnext
    obtain ⟨used, hused, hr⟩ := hp (hreach.isIn hc) hpc
    exact ⟨[t], used, hreach.trans hused, hr⟩
  | case3 c t mid hnext hlt es e hpc ih =>
    have hreach : c.Reaches [t] mid := .of_next? hnext
    obtain ⟨gap, used, hused, hr⟩ := ih (hreach.isIn hc) h
    exact ⟨t :: gap, used, hreach.trans hused, hr⟩

theorem recoverSkipping (hp : Reports source p R)
    (h : ∀ a gap used es more, R a used es → R a (gap ++ used) (es ++ more)) :
    Reports source (Parser.recoverSkipping p) R := by
  intro c reported a after alt hc hpc
  unfold Parser.recoverSkipping at hpc
  split at hpc
  · rename_i ha
    cases hpc
    exact hp hc ha
  · split at hpc
    · rename_i e he more reply ho
      cases hpc
      obtain ⟨gap, used, hreach, hr⟩ := retry hp c hc ho
      exact ⟨gap ++ used, hreach, h _ _ _ _ _ hr⟩
    · cases hpc

end Reports

end Parser

end LunSyntax
