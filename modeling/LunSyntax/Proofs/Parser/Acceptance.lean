import LunSyntax.Proofs.Parser.Evaluation

/-!
# What parsers take and refuse

The other direction than `Parser.Reads`: what a parser makes of given tokens.

* `Parser.Takes p us vs Q`: in front of `us ++ vs` the parser `p` reads just `us`, without
  complaint, and makes a value with `Q` of them;
* `Parser.Refuses p ts`: in front of `ts` the parser fails, and has nothing reported.

There is one lemma for each way to combine parsers.  A parser may look at what follows the tokens it
takes, so `vs` is a part of the statement and of each lemma.
-/

set_option autoImplicit false

namespace LunSyntax

/-- The kinds of the tokens left. -/
def Cursor.kinds (c : Cursor) : List TokenKind := c.rest.map Spanned.node

theorem Cursor.left_eq_length_kinds (c : Cursor) : c.left = c.kinds.length := by
  rw [kinds, List.length_map, c.left_eq]

theorem Cursor.next?_of_kinds {c : Cursor} {k : TokenKind} {ts : List TokenKind}
    (h : c.kinds = k :: ts) :
    ∃ t after, c.next? = some (t, after) ∧ t.node = k ∧ after.kinds = ts := by
  obtain ⟨t, rest, hrest, ht, hts⟩ := List.map_eq_cons_iff.1 h
  obtain ⟨after, hn, hr, -, -⟩ := Cursor.next?_of_rest hrest
  exact ⟨t, after, hn, ht, by rw [kinds, hr, hts]⟩

theorem Cursor.kinds_of_mem_head {c : Cursor} {t : Lexeme} (h : t ∈ c.rest.head?) :
    t.node ∈ c.kinds.head? := by
  rw [kinds, List.head?_map]
  exact Option.mem_map_of_mem _ h

namespace Parser

variable {α β : Type} {p q : Parser α} {us vs ws ts : List TokenKind} {Q : α → Prop} {R : β → Prop}

/-- In front of these tokens, a parser reads the first ones and makes something good of them. -/
def Takes (p : Parser α) (us vs : List TokenKind) (Q : α → Prop) : Prop :=
  ∀ ⦃c : Cursor⦄, c.kinds = us ++ vs →
    ∃ a after alt, p c = ⟨[], .ok a after alt⟩ ∧ after.kinds = vs ∧ Q a

/-- In front of these tokens, a parser fails at once. -/
def Refuses (p : Parser α) (ts : List TokenKind) : Prop :=
  ∀ ⦃c : Cursor⦄, c.kinds = ts → ∃ e, p c = ⟨[], .fail e⟩

/-! ## Refusing -/

namespace Refuses

theorem token {f : Lexeme → Option α} {expected : List (Option TokenKind)}
    (h : ∀ t : Lexeme, t.node ∈ ts.head? → f t = none) : Refuses (Parser.token f expected) ts := by
  intro c hc
  refine ⟨_, token_of_rejected fun t ht => h t ?_⟩
  rw [← hc]
  exact Cursor.kinds_of_mem_head ht

theorem just {kind : TokenKind} (h : kind ∉ ts.head?) : Refuses (Parser.just kind) ts := by
  refine token fun t ht => ?_
  rw [if_neg]
  rintro rfl
  exact h ht

theorem bind {f : α → Parser β} (h : Refuses p ts) : Refuses (p >>= f) ts := by
  intro c hc
  obtain ⟨e, he⟩ := h hc
  exact ⟨e, bind_of_fail he⟩

theorem bind_of_takes {f : α → Parser β} (h : Takes p us vs Q)
    (hf : ∀ a, Q a → Refuses (f a) vs) : Refuses (p >>= f) (us ++ vs) := by
  intro c hc
  obtain ⟨a, after, alt, hp, hafter, ha⟩ := h hc
  obtain ⟨e, he⟩ := hf a ha hafter
  refine ⟨e.joinOption alt, ?_⟩
  change Parser.bind p f c = _
  unfold Parser.bind
  rw [hp]
  dsimp only
  rw [he]
  rfl

theorem map {f : α → β} (h : Refuses p ts) : Refuses (f <$> p) ts := bind h

theorem withSpan {f : α → Span → β} (h : Refuses p ts) : Refuses (Parser.withSpan f p) ts := by
  intro c hc
  obtain ⟨e, he⟩ := h hc
  exact ⟨e, withSpan_of_fail he⟩

theorem check {f : α → Span → β × List (Span × String)} (h : Refuses p ts) :
    Refuses (Parser.check f p) ts := by
  intro c hc
  obtain ⟨e, he⟩ := h hc
  exact ⟨e, check_of_fail he⟩

theorem or (h : Refuses p ts) (h' : Refuses q ts) : Refuses (p.or q) ts := by
  intro c hc
  obtain ⟨e, he⟩ := h hc
  obtain ⟨e', he'⟩ := h' hc
  rw [or_eq, he, he', if_neg (by simp [Outcome.isClean]), if_neg (by simp [Outcome.isClean])]
  unfold Parser.choose
  dsimp only
  split
  · exact ⟨_, rfl⟩
  · exact ⟨_, rfl⟩
  · exact ⟨_, rfl⟩

theorem choice {ps : List (Parser α)} (h : ∀ p ∈ ps, Refuses p ts) :
    Refuses (Parser.choice ps) ts := by
  have go : ∀ (ps : List (Parser α)) (alt : Option Complaint), (∀ p ∈ ps, Refuses p ts) →
      Refuses (Parser.firstOf alt ps) ts := by
    intro ps
    induction ps with
    | nil => exact fun alt _ c hc => ⟨_, rfl⟩
    | cons p ps ih =>
      intro alt h c hc
      rw [List.forall_mem_cons] at h
      obtain ⟨e, he⟩ := h.1 hc
      obtain ⟨e', he'⟩ := ih (Complaint.joinOptions alt (some e)) h.2 hc
      refine ⟨e', ?_⟩
      unfold Parser.firstOf
      rw [he]
      exact he'
  exact go ps none h

theorem recoverDelimited {pair other : Delimiters} {fallback : Span → α} (h : Refuses p ts)
    (hopen : pair.opening ∉ ts.head?) :
    Refuses (Parser.recoverDelimited pair other fallback p) ts := by
  intro c hc
  obtain ⟨e, he⟩ := h hc
  refine ⟨e, ?_⟩
  have hsearch : closing pair other c = ⟨none, none⟩ := by
    refine closing_of_ne fun t ht heq => hopen ?_
    rw [← hc, ← heq]
    exact Cursor.kinds_of_mem_head ht
  unfold Parser.recoverDelimited
  rw [he]
  simp only [hsearch]
  rfl

/-- At the end there is nothing to skip. -/
theorem recoverSkipping (h : Refuses p []) : Refuses (Parser.recoverSkipping p) [] := by
  intro c hc
  obtain ⟨e, he⟩ := h hc
  refine ⟨e, ?_⟩
  unfold Parser.recoverSkipping
  rw [he]
  simp only [retry_of_rest_nil (List.map_eq_nil_iff.1 hc)]

end Refuses

/-- Values after the first one, each after a separator. -/
def separated (p : Parser α) (kind : TokenKind) : Parser (List α) := fun c =>
  (runSeparated p (just kind) c).outcome

/-! ## Taking -/

namespace Takes

theorem mono {Q' : α → Prop} (h : Takes p us vs Q) (hQ : ∀ a, Q a → Q' a) : Takes p us vs Q' := by
  intro c hc
  obtain ⟨a, after, alt, hp, hafter, ha⟩ := h hc
  exact ⟨a, after, alt, hp, hafter, hQ a ha⟩

theorem pure {a : α} (h : Q a) : Takes (Pure.pure a : Parser α) [] vs Q :=
  fun c hc => ⟨a, c, none, rfl, hc, h⟩

theorem bind {f : α → Parser β} (h : Takes p us (ws ++ vs) Q)
    (hf : ∀ a, Q a → Takes (f a) ws vs R) : Takes (p >>= f) (us ++ ws) vs R := by
  intro c hc
  rw [List.append_assoc] at hc
  obtain ⟨a, mid, alt, hp, hmid, ha⟩ := h hc
  obtain ⟨b, after, alt', hf, hafter, hb⟩ := hf a ha hmid
  exact ⟨b, after, _, bind_of_ok_ok hp hf, hafter, hb⟩

/-- Go on after what takes nothing. -/
theorem bindNil {f : α → Parser β} (h : Takes p [] (us ++ vs) Q)
    (hf : ∀ a, Q a → Takes (f a) us vs R) : Takes (p >>= f) us vs R :=
  bind h hf

/-- Make something of the last value. -/
theorem bindPure {f : α → β} (h : Takes p us vs Q) (hf : ∀ a, Q a → R (f a)) :
    Takes (p >>= fun a => Pure.pure (f a)) us vs R := by
  have h' : Takes (p >>= fun a => Pure.pure (f a)) (us ++ []) vs R :=
    bind h fun a ha => pure (hf a ha)
  rwa [List.append_nil] at h'

theorem map {f : α → β} (h : Takes p us vs Q) (hf : ∀ a, Q a → R (f a)) :
    Takes (f <$> p) us vs R :=
  bindPure h hf

theorem token {f : Lexeme → Option α} {expected : List (Option TokenKind)} {k : TokenKind}
    (h : ∀ t : Lexeme, t.node = k → ∃ a, f t = some a ∧ Q a) :
    Takes (Parser.token f expected) [k] vs Q := by
  intro c hc
  obtain ⟨t, after, hn, ht, hafter⟩ := Cursor.next?_of_kinds hc
  obtain ⟨a, hf, ha⟩ := h t ht
  exact ⟨a, after, none, token_of_next hn hf, hafter, ha⟩

theorem just (kind : TokenKind) : Takes (Parser.just kind) [kind] vs fun _ => True :=
  token fun _ ht => ⟨(), if_pos ht, trivial⟩

theorem justBind {kind : TokenKind} {f : Unit → Parser β} (h : Takes (f ()) us vs R) :
    Takes (Parser.just kind >>= f) (kind :: us) vs R := by
  change Takes (Parser.just kind >>= f) ([kind] ++ us) vs R
  exact bind (just kind) fun _ _ => h

theorem withSpan {f : α → Span → β} (h : Takes p us vs Q) (hf : ∀ a span, Q a → R (f a span)) :
    Takes (Parser.withSpan f p) us vs R := by
  intro c hc
  obtain ⟨a, after, alt, hp, hafter, ha⟩ := h hc
  exact ⟨_, after, alt, withSpan_of_ok hp, hafter, hf _ _ ha⟩

theorem check {f : α → Span → β × List (Span × String)} (h : Takes p us vs Q)
    (hf : ∀ a span, Q a → (f a span).2 = [] ∧ R (f a span).1) :
    Takes (Parser.check f p) us vs R := by
  intro c hc
  obtain ⟨a, after, alt, hp, hafter, ha⟩ := h hc
  obtain ⟨hnil, hr⟩ := hf a (c.spanTo after) ha
  exact ⟨_, after, alt, check_of_clean hp (Prod.ext rfl hnil), hafter, hr⟩

/-! ### Choices -/

theorem orLeft (h : Takes p us vs Q) : Takes (p.or q) us vs Q := by
  intro c hc
  obtain ⟨a, after, alt, hp, hafter, ha⟩ := h hc
  refine ⟨a, after, alt, ?_, hafter, ha⟩
  rw [or_eq, hp]
  rfl

theorem orRight (h : Refuses p (us ++ vs)) (h' : Takes q us vs Q) : Takes (p.or q) us vs Q := by
  intro c hc
  obtain ⟨e, he⟩ := h hc
  obtain ⟨a, after, alt, hq, hafter, ha⟩ := h' hc
  refine ⟨a, after, alt, ?_, hafter, ha⟩
  rw [or_eq, he, hq]
  rfl

theorem firstOf {ps : List (Parser α)} {alt : Option Complaint} (h : Takes p us vs Q) :
    Takes (Parser.firstOf alt (p :: ps)) us vs Q := by
  intro c hc
  obtain ⟨a, after, alt', hp, hafter, ha⟩ := h hc
  refine ⟨a, after, alt', ?_, hafter, ha⟩
  unfold Parser.firstOf
  rw [hp]

theorem nextOf {ps : List (Parser α)} {alt : Option Complaint} (h : Refuses p (us ++ vs))
    (hps : ∀ alt, Takes (Parser.firstOf alt ps) us vs Q) :
    Takes (Parser.firstOf alt (p :: ps)) us vs Q := by
  intro c hc
  obtain ⟨e, he⟩ := h hc
  obtain ⟨a, after, alt', hp, hafter, ha⟩ := hps (Complaint.joinOptions alt (some e)) hc
  refine ⟨a, after, alt', ?_, hafter, ha⟩
  unfold Parser.firstOf
  rw [he]
  exact hp

theorem optionalSome {Q : Option α → Prop} (h : Takes p us vs fun a => Q (some a)) :
    Takes (Parser.optional p) us vs Q := by
  intro c hc
  obtain ⟨a, after, alt, hp, hafter, ha⟩ := h hc
  exact ⟨some a, after, alt, optional_of_ok hp, hafter, ha⟩

theorem optionalNone {Q : Option α → Prop} (h : Refuses p vs) (hnone : Q none) :
    Takes (Parser.optional p) [] vs Q := by
  intro c hc
  obtain ⟨e, he⟩ := h hc
  exact ⟨none, c, _, optional_of_fail he, hc, hnone⟩

/-! ### Repetition -/

theorem manyNil {Q : List α → Prop} (h : Refuses p vs) (hnil : Q []) :
    Takes (Parser.many p) [] vs Q := by
  intro c hc
  obtain ⟨e, he⟩ := h hc
  refine ⟨[], c, some (e.joinAll []), ?_, hc, hnil⟩
  unfold Parser.many
  rw [runMany_of_fail he]

/-- Where a repetition refuses, it adds nothing. -/
theorem bindManyNil {γ : Type} {q : Parser γ} {f : α → List γ → β} (h : Takes p us vs Q)
    (hq : Refuses q vs) (hf : ∀ a, Q a → R (f a [])) :
    Takes (p >>= fun a => Parser.many q >>= fun bs => Pure.pure (f a bs)) us vs R := by
  rw [← us.append_nil]
  refine bind h fun a ha => bindPure (manyNil hq rfl : Takes (Parser.many q) [] vs (· = [])) ?_
  rintro _ rfl
  exact hf a ha

theorem manyCons {Q' : List α → Prop} (hne : us ≠ []) (h : Takes p us (ws ++ vs) Q)
    (hmany : ∀ a, Q a → Takes (Parser.many p) ws vs fun as => Q' (a :: as)) :
    Takes (Parser.many p) (us ++ ws) vs Q' := by
  intro c hc
  rw [List.append_assoc] at hc
  obtain ⟨a, mid, alt, hp, hmid, ha⟩ := h hc
  obtain ⟨as, after, alt', hrun, hafter, has⟩ := hmany a ha hmid
  have hlt : mid.left < c.left := by
    have := List.length_pos_iff.2 hne
    rw [mid.left_eq_length_kinds, c.left_eq_length_kinds, hc, hmid]
    simp only [List.length_append]
    omega
  refine ⟨a :: as, after, Complaint.joinOptions alt (runMany p mid).alt, ?_, hafter, has⟩
  unfold Parser.many at hrun ⊢
  simp only [Outcome.mk.injEq, Reply.ok.injEq] at hrun
  obtain ⟨hreported, hvalues, hend, -⟩ := hrun
  rw [runMany_of_ok hp hlt]
  simp only [hreported, hvalues, hend, List.append_nil]

theorem separatedNil {kind : TokenKind} {Q : List α → Prop} (h : kind ∉ vs.head?) (hnil : Q []) :
    Takes (separated p kind) [] vs Q := by
  intro c hc
  obtain ⟨e, he⟩ := Refuses.just h hc
  refine ⟨[], c, some e, ?_, hc, hnil⟩
  unfold separated
  rw [runSeparated, he]
  rfl

theorem separatedCons {kind : TokenKind} {Q' : List α → Prop} (h : Takes p us (ws ++ vs) Q)
    (hrest : ∀ a, Q a → Takes (separated p kind) ws vs fun as => Q' (a :: as)) :
    Takes (separated p kind) (kind :: us ++ ws) vs Q' := by
  intro c hc
  obtain ⟨t, between, hn, ht, hbetween⟩ := Cursor.next?_of_kinds hc
  rw [List.append_eq, List.append_eq, List.append_assoc] at hbetween
  obtain ⟨a, mid, alt, hp, hmid, ha⟩ := h hbetween
  obtain ⟨as, after, alt', hrun, hafter, has⟩ := hrest a ha hmid
  have hlt : mid.left < c.left := by
    rw [mid.left_eq_length_kinds, c.left_eq_length_kinds, hc, hmid]
    simp only [List.length_append, List.length_cons]
    omega
  refine ⟨a :: as, after, Complaint.joinOptions (Complaint.joinOptions none alt)
    (runSeparated p (Parser.just kind) mid).alt, ?_, hafter, has⟩
  unfold separated Run.outcome at hrun ⊢
  simp only [Outcome.mk.injEq, Reply.ok.injEq] at hrun
  obtain ⟨hreported, hvalues, hend, -⟩ := hrun
  rw [runSeparated, just_of_next hn ht]
  simp only [hp, if_pos hlt, hreported, hvalues, hend, List.append_nil]

theorem sepByNil {kind : TokenKind} {Q : List α → Prop} (h : Refuses p vs) (hnil : Q []) :
    Takes (Parser.sepBy p (Parser.just kind)) [] vs Q := by
  intro c hc
  obtain ⟨e, he⟩ := h hc
  refine ⟨[], c, some e, ?_, hc, hnil⟩
  unfold Parser.sepBy
  rw [he]

theorem sepByCons {kind : TokenKind} {Q' : List α → Prop} (hend : kind ∉ vs.head?)
    (h : Takes p us (ws ++ vs) Q)
    (hrest : ∀ a, Q a → Takes (separated p kind) ws vs fun as => Q' (a :: as)) :
    Takes (Parser.sepBy p (Parser.just kind)) (us ++ ws) vs Q' := by
  intro c hc
  rw [List.append_assoc] at hc
  obtain ⟨a, mid, alt, hp, hmid, ha⟩ := h hc
  obtain ⟨as, after, alt', hrun, hafter, has⟩ := hrest a ha hmid
  obtain ⟨e, he⟩ := Refuses.just hend hafter
  refine ⟨a :: as, after, Complaint.joinOptions (Complaint.joinOptions alt
    (runSeparated p (Parser.just kind) mid).alt) (some (e.joinAll [])), ?_, hafter, has⟩
  unfold separated Run.outcome at hrun
  simp only [Outcome.mk.injEq, Reply.ok.injEq] at hrun
  obtain ⟨hreported, hvalues, rfl, -⟩ := hrun
  unfold Parser.sepBy
  rw [hp]
  simp only [he, hreported, hvalues, List.append_nil]

/-! ### Recovery -/

theorem recoverDelimited {pair other : Delimiters} {fallback : Span → α} (h : Takes p us vs Q) :
    Takes (Parser.recoverDelimited pair other fallback p) us vs Q := by
  intro c hc
  obtain ⟨a, after, alt, hp, hafter, ha⟩ := h hc
  refine ⟨a, after, alt, ?_, hafter, ha⟩
  unfold Parser.recoverDelimited
  rw [hp]

theorem finish : Takes Parser.finish [] [] fun _ => True := by
  intro c hc
  have hrest : c.rest = [] := List.map_eq_nil_iff.1 hc
  refine ⟨(), c, none, ?_, hc, trivial⟩
  unfold Parser.finish
  rw [hrest]

theorem recoverSkipping (h : Takes p us vs Q) : Takes (Parser.recoverSkipping p) us vs Q := by
  intro c hc
  obtain ⟨a, after, alt, hp, hafter, ha⟩ := h hc
  refine ⟨a, after, alt, ?_, hafter, ha⟩
  unfold Parser.recoverSkipping
  rw [hp]

end Takes

end Parser

end LunSyntax
