import LunSyntax.Proofs.Grammar.Derivation

/-!
# What parsers read

`Parser.Reads mode p R`: whenever `p` succeeds, the tokens it read and the value it made of them
are related by `R`.  In the mode `.strict` this is asked only of successes without complaints.

There is one lemma for each way to combine parsers; a statement about a grammar follows from them
rule by rule.  `Reads.bind` hands the continuation what is known of the tokens before it, so the
tokens of a rule add up from left to right.
-/

set_option autoImplicit false

namespace LunSyntax

namespace Cursor

theorem rest_of_next? {c after : Cursor} {t : Lexeme} (h : c.next? = some (t, after)) :
    c.rest = t :: after.rest := by
  obtain ⟨rest, left, lastStop, finish, hleft⟩ := c
  cases rest with
  | nil => simp [next?] at h
  | cons t' rest =>
    simp only [next?, Option.some.injEq, Prod.mk.injEq] at h
    obtain ⟨rfl, rfl⟩ := h
    rfl

theorem rest_of_next?_none {c : Cursor} (h : c.next? = none) : c.rest = [] := by
  obtain ⟨rest, left, lastStop, finish, hleft⟩ := c
  cases rest with
  | nil => rfl
  | cons t rest => simp [next?] at h

/-- Tokens which were read on the way from one place to another. -/
structure Passes (c : Cursor) (used : List Lexeme) (after : Cursor) : Prop where
  rest_eq : c.rest = used ++ after.rest
  finish_eq : after.finish = c.finish

namespace Passes

variable {c mid after : Cursor} {us vs : List Lexeme}

theorem refl : c.Passes [] c := ⟨rfl, rfl⟩

theorem trans (h : c.Passes us mid) (h' : mid.Passes vs after) : c.Passes (us ++ vs) after :=
  ⟨by rw [h.rest_eq, h'.rest_eq, List.append_assoc], h'.finish_eq.trans h.finish_eq⟩

theorem of_next? {t : Lexeme} (h : c.next? = some (t, after)) : c.Passes [t] after := by
  refine ⟨rest_of_next? h, ?_⟩
  obtain ⟨rest, left, lastStop, finish, hleft⟩ := c
  cases rest with
  | nil => simp [next?] at h
  | cons t' rest =>
    simp only [next?, Option.some.injEq, Prod.mk.injEq] at h
    obtain ⟨-, rfl⟩ := h
    rfl

end Passes

end Cursor

namespace Parser

variable {α β : Type} {mode : Mode}

/-- Parsers that succeed one after the other have both succeeded. -/
theorem bind_eq_ok {p : Parser α} {f : α → Parser β} {c last : Cursor}
    {reported : List Complaint} {b : β} {alt : Option Complaint}
    (h : (p >>= f) c = ⟨reported, .ok b last alt⟩) :
    ∃ r a mid alt' more alt'', p c = ⟨r, .ok a mid alt'⟩ ∧
      f a mid = ⟨more, .ok b last alt''⟩ ∧ reported = r ++ more := by
  change Parser.bind p f c = _ at h
  unfold Parser.bind at h
  split at h
  · cases h
  · rename_i r a mid alt' hpc
    split at h
    · cases h
    · rename_i more b' last' alt'' hfc
      cases h
      exact ⟨r, a, mid, alt', more, alt'', hpc, hfc, rfl⟩

/-- The better of two outcomes is one of them. -/
theorem choose_eq_ok {a b : Outcome α} {reported : List Complaint} {x : α}
    {after : Cursor} {alt : Option Complaint}
    (h : Parser.choose a b = ⟨reported, .ok x after alt⟩) :
    a = ⟨reported, .ok x after alt⟩ ∨ b = ⟨reported, .ok x after alt⟩ := by
  unfold Parser.choose at h
  split at h
  · exact .inl h
  · exact .inr h
  · dsimp only at h
    split at h
    · exact .inl h
    · exact .inr h
  · split at h <;> cases h

/-- The tokens a parser reads are related to its value. -/
def Reads (mode : Mode) (p : Parser α) (R : α → List TokenKind → Prop) : Prop :=
  ∀ ⦃c : Cursor⦄ ⦃reported : List Complaint⦄ ⦃a : α⦄ ⦃after : Cursor⦄ ⦃alt : Option Complaint⦄,
    p c = ⟨reported, .ok a after alt⟩ → (reported ≠ [] → mode = .recovering) →
      ∃ used, c.Passes used after ∧ R a (used.map Spanned.node)

namespace Reads

variable {p q : Parser α} {R S : α → List TokenKind → Prop} {T : β → List TokenKind → Prop}

theorem mono (hp : Reads mode p R) (h : ∀ a ts, R a ts → S a ts) : Reads mode p S := by
  intro c reported a after alt hc hm
  obtain ⟨used, hrest, hr⟩ := hp hc hm
  exact ⟨used, hrest, h _ _ hr⟩

theorem pure {a : α} (h : R a []) : Reads mode (Pure.pure a : Parser α) R := by
  intro c reported a' after alt hc _
  cases hc
  exact ⟨[], .refl, h⟩

theorem bind {f : α → Parser β} (hp : Reads mode p R)
    (hf : ∀ a, Reads mode (f a) fun b vs => ∀ us, R a us → T b (us ++ vs)) :
    Reads mode (p >>= f) T := by
  intro c reported b last alt hc hm
  obtain ⟨r, a, mid, alt', more, alt'', hpc, hfc, rfl⟩ := bind_eq_ok hc
  obtain ⟨us, hus, hr⟩ := hp hpc fun h => hm (by simp [h])
  obtain ⟨vs, hvs, ht⟩ := hf a hfc fun h => hm (by simp [h])
  refine ⟨us ++ vs, hus.trans hvs, ?_⟩
  rw [List.map_append]
  exact ht _ hr

theorem map {f : α → β} (hp : Reads mode p R) (h : ∀ a ts, R a ts → T (f a) ts) :
    Reads mode (f <$> p) T := by
  refine bind hp fun a => pure ?_
  intro us hr
  rw [List.append_nil]
  exact h _ _ hr

theorem token {f : Lexeme → Option α} {expected : List (Option TokenKind)}
    (h : ∀ t a, f t = some a → R a [t.node]) : Reads mode (Parser.token f expected) R := by
  intro c reported a after alt hc _
  unfold Parser.token at hc
  split at hc
  · rename_i t after' hnext
    split at hc
    · rename_i a' hf
      cases hc
      exact ⟨[t], .of_next? hnext, h t a hf⟩
    · cases hc
  · cases hc

theorem just (kind : TokenKind) : Reads mode (Parser.just kind) fun _ ts => ts = [kind] := by
  refine token fun t a hf => ?_
  split at hf
  · rename_i hk
    rw [hk]
  · cases hf

theorem withSpan {f : α → Span → β} (hp : Reads mode p R)
    (h : ∀ a span ts, R a ts → T (f a span) ts) : Reads mode (Parser.withSpan f p) T := by
  intro c reported b after alt hc hm
  unfold Parser.withSpan at hc
  split at hc
  · rename_i r a after' alt' hpc
    cases hc
    obtain ⟨used, hrest, hr⟩ := hp hpc hm
    exact ⟨used, hrest, h _ _ _ hr⟩
  · cases hc

/-- A check reports messages, which a strict reading excludes. -/
theorem check {f : α → Span → β × List (Span × String)} (hp : Reads mode p R)
    (h : ∀ a span ts, R a ts → ((f a span).2 ≠ [] → mode = .recovering) → T (f a span).1 ts) :
    Reads mode (Parser.check f p) T := by
  intro c reported b after alt hc hm
  unfold Parser.check at hc
  split at hc
  · rename_i r a after' alt' hpc
    cases hc
    obtain ⟨used, hrest, hr⟩ := hp hpc fun hne => hm (by simp [hne])
    refine ⟨used, hrest, h _ _ _ hr fun hne => hm ?_⟩
    simp [hne]
  · cases hc

/-! ### Choices -/

theorem or (hp : Reads mode p R) (hq : Reads mode q R) : Reads mode (p.or q) R := by
  intro c reported a after alt hc hm
  unfold Parser.or at hc
  split at hc
  · rename_i hpc
    cases hc
    exact hp hpc hm
  · split at hc
    · rename_i hqc
      cases hc
      exact hq hqc hm
    · rcases choose_eq_ok hc with h | h
      · exact hp h hm
      · exact hq h hm

theorem firstOf {ps : List (Parser α)} (hps : ∀ p ∈ ps, Reads mode p R)
    (alt : Option Complaint) : Reads mode (Parser.firstOf alt ps) R := by
  induction ps generalizing alt with
  | nil => intro c reported a after alt' hc _; cases hc
  | cons p ps ih =>
    intro c reported a after alt' hc hm
    unfold Parser.firstOf at hc
    split at hc
    · rename_i hpc
      cases hc
      exact hps p (by simp) hpc hm
    · exact ih (fun q hq => hps q (by simp [hq])) _ hc hm

theorem choice {ps : List (Parser α)} (hps : ∀ p ∈ ps, Reads mode p R) :
    Reads mode (Parser.choice ps) R :=
  firstOf hps none

/-- What an optional parser reads: nothing where it makes nothing. -/
def Maybe (R : α → List TokenKind → Prop) : Option α → List TokenKind → Prop
  | none, ts => ts = []
  | some a, ts => R a ts

theorem optional (hp : Reads mode p R) : Reads mode (Parser.optional p) (Maybe R) := by
  intro c reported a after alt hc hm
  unfold Parser.optional at hc
  split at hc
  · rename_i hpc
    cases hc
    exact hp hpc hm
  · cases hc
    exact ⟨[], .refl, rfl⟩

/-! ### Repetition -/

/-- Values and the tokens of all of them. -/
inductive Sequence (R : α → List TokenKind → Prop) : List α → List TokenKind → Prop
  | nil : Sequence R [] []
  | cons {a : α} {as : List α} {us vs : List TokenKind} :
    R a us → Sequence R as vs → Sequence R (a :: as) (us ++ vs)

theorem runMany (hp : Reads mode p R) (c : Cursor)
    (hm : (Parser.runMany p c).reported ≠ [] → mode = .recovering) :
    ∃ used, c.Passes used (Parser.runMany p c).after ∧
      Sequence R (Parser.runMany p c).values (used.map Spanned.node) := by
  fun_induction Parser.runMany p c with
  | case1 c reported complaint hc => exact ⟨[], .refl, .nil⟩
  | case2 c reported a after alt hc hlt more ih =>
    obtain ⟨us, hus, hr⟩ := hp hc fun h => hm (by simp [h])
    obtain ⟨vs, hvs, hseq⟩ := ih fun h => hm (by simp [h, more])
    refine ⟨us ++ vs, hus.trans hvs, ?_⟩
    rw [List.map_append]
    exact .cons hr hseq
  | case3 c reported a after alt hc hlt =>
    obtain ⟨us, hus, hr⟩ := hp hc hm
    refine ⟨us, hus, ?_⟩
    simpa using Sequence.cons hr .nil

theorem many (hp : Reads mode p R) : Reads mode (Parser.many p) (Sequence R) := by
  intro c reported as after alt hc hm
  cases hc
  exact runMany hp c hm

/-- Values with separators between them and, after the last one, a separator or none. -/
inductive Separated (R : α → List TokenKind → Prop) (sep : TokenKind) :
    List α → List TokenKind → Prop
  | nil : Separated R sep [] []
  | last {a : α} {ts : List TokenKind} : R a ts → Separated R sep [a] ts
  | trailing {a : α} {ts : List TokenKind} : R a ts → Separated R sep [a] (ts ++ [sep])
  | cons {a b : α} {as : List α} {us vs : List TokenKind} :
    R a us → Separated R sep (b :: as) vs → Separated R sep (a :: b :: as) (us ++ sep :: vs)

/-- A value after its separator. -/
def AfterSep (R : α → List TokenKind → Prop) (sep : TokenKind) (a : α)
    (ts : List TokenKind) : Prop :=
  ∃ us, ts = sep :: us ∧ R a us

theorem separated_of_sequence {sep : TokenKind} {a : α} {as : List α}
    {us vs ws : List TokenKind} (hr : R a us) (hs : Sequence (AfterSep R sep) as vs)
    (hws : ws = [] ∨ ws = [sep]) : Separated R sep (a :: as) (us ++ vs ++ ws) := by
  induction hs generalizing a us with
  | nil =>
    rcases hws with rfl | rfl
    · simpa using Separated.last hr
    · simpa using Separated.trailing hr
  | @cons b bs _ ys hb _ ih =>
    obtain ⟨xs, rfl, hb⟩ := hb
    have h := Separated.cons hr (ih hb)
    simpa using h

theorem just_reported (kind : TokenKind) (c : Cursor) : (Parser.just kind c).reported = [] := by
  unfold Parser.just Parser.token
  split
  · split <;> rfl
  · rfl

theorem runSeparated (hp : Reads mode p R) (kind : TokenKind) (c : Cursor)
    (hm : (Parser.runSeparated p (Parser.just kind) c).reported ≠ [] → mode = .recovering) :
    ∃ used, c.Passes used (Parser.runSeparated p (Parser.just kind) c).after ∧
      Sequence (AfterSep R kind) (Parser.runSeparated p (Parser.just kind) c).values
        (used.map Spanned.node) := by
  fun_induction Parser.runSeparated p (Parser.just kind) c with
  | case1 c reported complaint hc => exact ⟨[], .refl, .nil⟩
  | case2 c reported between sepAlt hsep more complaint hc => exact ⟨[], .refl, .nil⟩
  | case3 c reported between sepAlt hsep more a after alt hc hlt rest ih =>
    obtain ⟨ss, hss, hs⟩ := just kind hsep fun h => hm (by simp [h])
    obtain ⟨us, hus, hr⟩ := hp hc fun h => hm (by simp [h])
    obtain ⟨vs, hvs, hseq⟩ := ih fun h => hm (by simp [h, rest])
    refine ⟨ss ++ us ++ vs, (hss.trans hus).trans hvs, ?_⟩
    rw [List.map_append, List.map_append, hs]
    exact .cons ⟨_, rfl, hr⟩ hseq
  | case4 c reported between sepAlt hsep more a after alt hc hlt =>
    obtain ⟨ss, hss, hs⟩ := just kind hsep fun h => hm (by simp [h])
    obtain ⟨us, hus, hr⟩ := hp hc fun h => hm (by simp [h])
    refine ⟨ss ++ us, hss.trans hus, ?_⟩
    rw [List.map_append, hs]
    have h := Sequence.cons (R := AfterSep R kind) ⟨_, rfl, hr⟩ .nil
    simpa using h

theorem sepBy {kind : TokenKind} (hp : Reads mode p R) :
    Reads mode (Parser.sepBy p (Parser.just kind)) (Separated R kind) := by
  intro c reported as after alt hc hm
  unfold Parser.sepBy at hc
  split at hc
  · cases hc
    exact ⟨[], .refl, .nil⟩
  · rename_i r a mid alt' hfirst
    dsimp only at hc
    split at hc
    · rename_i more last sepAlt hsep
      cases hc
      obtain ⟨us, hus, hr⟩ := hp hfirst fun h => hm (by simp [h])
      obtain ⟨vs, hvs, hseq⟩ := runSeparated hp kind mid fun h => hm (by simp [h])
      have hnil : more = [] := by
        have := just_reported kind (Parser.runSeparated p (Parser.just kind) mid).after
        rwa [hsep] at this
      obtain ⟨ws, hws, hs⟩ := (just kind : Reads mode _ _) hsep fun h => absurd hnil h
      refine ⟨us ++ vs ++ ws, (hus.trans hvs).trans hws, ?_⟩
      rw [List.map_append, List.map_append, hs]
      exact separated_of_sequence hr hseq (.inr rfl)
    · rename_i more complaint hsep
      cases hc
      obtain ⟨us, hus, hr⟩ := hp hfirst fun h => hm (by simp [h])
      obtain ⟨vs, hvs, hseq⟩ := runSeparated hp kind mid fun h => hm (by simp [h])
      refine ⟨us ++ vs, hus.trans hvs, ?_⟩
      rw [List.map_append]
      simpa using separated_of_sequence hr hseq (.inl rfl)

/-! ### Recovery -/

/-- A search that succeeds has gone to the delimiter which closes the outermost open one. -/
theorem closingOf_after {pair other : Delimiters} {depth : Nat} {others : Int}
    {complaint : Option Complaint} {c after : Cursor} (hd : 1 ≤ depth)
    (h : (closingOf pair other depth others complaint c).after = some after) :
    ∃ used inner, c.Passes used after ∧
      used.map Spanned.node = inner ++ [pair.closing] ∧
      pair.depthAfter depth inner = some 1 := by
  fun_induction closingOf pair other depth others complaint c with
  | case1 depth others complaint c hnext => cases h
  | case2 depth others complaint c t next hnext hlt hopen ih =>
    obtain ⟨used, inner, hrest, hmap, hin⟩ := ih (by omega) h
    refine ⟨t :: used, t.node :: inner, .trans (.of_next? hnext) hrest, by simp [hmap], ?_⟩
    rw [Delimiters.depthAfter, if_pos hopen, hin]
  | case3 depth others complaint c t next hnext hlt hopen hclose hdepth =>
    cases h
    refine ⟨[t], [], .of_next? hnext, by simp [hclose], ?_⟩
    rw [Delimiters.depthAfter, show depth = 1 by omega]
  | case4 depth others complaint c t next hnext hlt hopen hclose hdepth ih =>
    obtain ⟨used, inner, hrest, hmap, hin⟩ := ih (by omega) h
    refine ⟨t :: used, t.node :: inner, .trans (.of_next? hnext) hrest, by simp [hmap], ?_⟩
    rw [Delimiters.depthAfter, if_neg hopen, if_pos hclose, if_neg hdepth, hin]
  | case5 depth others complaint c t next hnext hlt hopen hclose hother ih =>
    obtain ⟨used, inner, hrest, hmap, hin⟩ := ih hd h
    refine ⟨t :: used, t.node :: inner, .trans (.of_next? hnext) hrest, by simp [hmap], ?_⟩
    rw [Delimiters.depthAfter, if_neg hopen, if_neg hclose, hin]
  | case6 depth others complaint c t next hnext hlt hopen hclose hother hother' complaint' ih =>
    obtain ⟨used, inner, hrest, hmap, hin⟩ := ih hd h
    refine ⟨t :: used, t.node :: inner, .trans (.of_next? hnext) hrest, by simp [hmap], ?_⟩
    rw [Delimiters.depthAfter, if_neg hopen, if_neg hclose, hin]
  | case7 depth others complaint c t next hnext hlt hopen hclose hother hother' ih =>
    obtain ⟨used, inner, hrest, hmap, hin⟩ := ih hd h
    refine ⟨t :: used, t.node :: inner, .trans (.of_next? hnext) hrest, by simp [hmap], ?_⟩
    rw [Delimiters.depthAfter, if_neg hopen, if_neg hclose, hin]

theorem closing_after {pair other : Delimiters} {c after : Cursor}
    (h : (closing pair other c).after = some after) :
    ∃ used, c.Passes used after ∧ pair.Skipped (used.map Spanned.node) := by
  unfold closing at h
  split at h
  · rename_i t next hnext
    split at h
    · rename_i hopen
      obtain ⟨used, inner, hrest, hmap, hin⟩ := closingOf_after (Nat.le_refl 1) h
      exact ⟨t :: used, .trans (.of_next? hnext) hrest, inner, by simp [hmap, hopen], hin⟩
    · cases h
  · cases h

theorem ne_nil_of_covered {covered : Bool} {reported : List Complaint} {complaint : Complaint}
    (h : covered = true → reported ≠ []) :
    (if covered then reported else reported ++ [complaint]) ≠ [] := by
  split
  · rename_i hcov
    exact h hcov
  · simp

/-- Where a delimited parser recovers, it has complained. -/
theorem recoverDelimited {pair other : Delimiters} {fallback : Span → α}
    (hp : Reads mode p R)
    (h : mode = .recovering → ∀ span ts, pair.Skipped ts → R (fallback span) ts) :
    Reads mode (Parser.recoverDelimited pair other fallback p) R := by
  intro c reported a after alt hc hm
  unfold Parser.recoverDelimited at hc
  split at hc
  · rename_i hpc
    cases hc
    exact hp hpc hm
  · rename_i r complaint hpc
    dsimp only at hc
    split at hc
    · cases hc
    · rename_i after' hafter
      cases hc
      obtain ⟨used, hrest, hskip⟩ := closing_after hafter
      refine ⟨used, hrest, h (hm ?_) _ _ hskip⟩
      -- the complaint is left out only where there is one as far
      refine ne_nil_of_covered fun hcov hnil => ?_
      rw [hnil] at hcov
      cases hcov

end Reads

end Parser

end LunSyntax
