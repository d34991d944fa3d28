import LunSyntax.Proofs.Parser.Reading

/-!
# How parsers go on

One equation for each way in which a combination of parsers goes on: after a success or a failure
of its first part, at a token or at the end.  Later proofs use these and do not unfold the
combinations.

* `Parser.bind_of_ok`, `Parser.bind_of_fail`, `Parser.token_of_next`, `Parser.optional_of_ok` and
  the like;
* `Parser.or_eq`: a choice is settled by the first outcome which is `Outcome.isClean`;
* `Parser.recoverSkipping_of_next`: where there is nothing to read, a token is skipped.
-/

set_option autoImplicit false

namespace LunSyntax

theorem Cursor.next?_of_rest {c : Cursor} {t : Lexeme} {rest : List Lexeme}
    (h : c.rest = t :: rest) :
    ∃ after, c.next? = some (t, after) ∧ after.rest = rest ∧ after.lastStop = t.span.stop ∧
      after.finish = c.finish := by
  obtain ⟨_, left, lastStop, finish, hleft⟩ := c
  cases h
  exact ⟨_, rfl, rfl, rfl, rfl⟩

theorem Cursor.next?_of_rest_nil {c : Cursor} (h : c.rest = []) : c.next? = none := by
  obtain ⟨_, left, lastStop, finish, hleft⟩ := c
  cases h
  rfl

namespace Outcome

variable {α : Type}

/-- Successes without complaints. -/
def isClean : Outcome α → Bool
  | ⟨[], .ok _ _ _⟩ => true
  | _ => false

/-- The value of a success and the place after it. -/
def result : Outcome α → Option (α × Cursor)
  | ⟨_, .ok a after _⟩ => some (a, after)
  | ⟨_, .fail _⟩ => none

end Outcome

namespace Parser

variable {α β : Type}

/-! ## One after the other -/

theorem bind_of_ok {p : Parser α} {f : α → Parser β} {c after : Cursor} {x : α}
    (h : p c = ⟨[], .ok x after none⟩) : (p >>= f) c = f x after := by
  change Parser.bind p f c = f x after
  unfold Parser.bind
  rw [h]
  dsimp only
  split
  · rename_i hf
    simpa [Complaint.joinOption] using hf.symm
  · rename_i alt hf
    cases alt <;> simpa [Complaint.joinOptions, Complaint.joinOption] using hf.symm

theorem bind_of_ok_ok {p : Parser α} {f : α → Parser β} {c mid after : Cursor} {x : α} {y : β}
    {as bs : List Complaint} {alt alt' : Option Complaint} (h : p c = ⟨as, .ok x mid alt⟩)
    (hf : f x mid = ⟨bs, .ok y after alt'⟩) :
    (p >>= f) c = ⟨as ++ bs, .ok y after (Complaint.joinOptions alt alt')⟩ := by
  change Parser.bind p f c = _
  unfold Parser.bind
  rw [h]
  dsimp only
  rw [hf]

theorem bind_of_fail {p : Parser α} {f : α → Parser β} {c : Cursor} {as : List Complaint}
    {a : Complaint} (h : p c = ⟨as, .fail a⟩) : (p >>= f) c = ⟨as, .fail a⟩ := by
  change Parser.bind p f c = _
  unfold Parser.bind
  rw [h]

theorem token_of_next {f : Lexeme → Option α} {c after : Cursor} {t : Lexeme} {x : α}
    {expected : List (Option TokenKind)} (hn : c.next? = some (t, after)) (hf : f t = some x) :
    token f expected c = ⟨[], .ok x after none⟩ := by
  unfold token
  rw [hn]
  simp only [hf]

theorem token_of_rejected {f : Lexeme → Option α} {c : Cursor}
    {expected : List (Option TokenKind)} (h : ∀ t ∈ c.rest.head?, f t = none) :
    token f expected c = ⟨[], .fail (c.unexpected expected)⟩ := by
  unfold token
  split
  · rename_i t after hn
    rw [h t (by simp [Cursor.rest_of_next? hn])]
  · rfl

theorem just_of_next {kind : TokenKind} {c after : Cursor} {t : Lexeme}
    (hn : c.next? = some (t, after)) (ht : t.node = kind) :
    just kind c = ⟨[], .ok () after none⟩ :=
  token_of_next hn (by simp [ht])

theorem just_of_ne {kind : TokenKind} {c : Cursor} (h : ∀ t ∈ c.rest.head?, t.node ≠ kind) :
    just kind c = ⟨[], .fail (c.unexpected [some kind])⟩ :=
  token_of_rejected fun t ht => by simp [h t ht]

/-! ## Spans and checks -/

section

variable {p : Parser α} {c after : Cursor} {as : List Complaint} {x : α} {y : β}
  {alt : Option Complaint}

theorem withSpan_of_ok {f : α → Span → β} (h : p c = ⟨as, .ok x after alt⟩) :
    withSpan f p c = ⟨as, .ok (f x (c.spanTo after)) after alt⟩ := by
  unfold withSpan
  rw [h]

theorem withSpan_of_fail {f : α → Span → β} {a : Complaint} (h : p c = ⟨as, .fail a⟩) :
    withSpan f p c = ⟨as, .fail a⟩ := by
  unfold withSpan
  rw [h]

theorem withSpan_eq_ok {f : α → Span → β} (h : withSpan f p c = ⟨as, .ok y after alt⟩) :
    ∃ x, p c = ⟨as, .ok x after alt⟩ ∧ y = f x (c.spanTo after) := by
  unfold withSpan at h
  split at h
  · rename_i hp
    cases h
    exact ⟨_, hp, rfl⟩
  · cases h

theorem check_of_ok {f : α → Span → β × List (Span × String)} (h : p c = ⟨as, .ok x after alt⟩) :
    check f p c = ⟨as ++ (f x (c.spanTo after)).2.map fun m => complain after m.1 m.2,
      .ok (f x (c.spanTo after)).1 after alt⟩ := by
  unfold check
  rw [h]

theorem check_of_fail {f : α → Span → β × List (Span × String)} {a : Complaint}
    (h : p c = ⟨as, .fail a⟩) : check f p c = ⟨as, .fail a⟩ := by
  unfold check
  rw [h]

theorem check_of_clean {f : α → Span → β × List (Span × String)}
    (h : p c = ⟨[], .ok x after alt⟩) (hf : f x (c.spanTo after) = (y, [])) :
    check f p c = ⟨[], .ok y after alt⟩ := by
  rw [check_of_ok h, hf]
  rfl

theorem check_eq_clean {f : α → Span → β × List (Span × String)}
    (h : check f p c = ⟨[], .ok y after alt⟩) :
    ∃ x, p c = ⟨[], .ok x after alt⟩ ∧ f x (c.spanTo after) = (y, []) := by
  unfold check at h
  split at h
  · rename_i r x after' alt' hp
    simp only [Outcome.mk.injEq, Reply.ok.injEq, List.append_eq_nil_iff, List.map_eq_nil_iff] at h
    obtain ⟨⟨rfl, hnil⟩, rfl, rfl, rfl⟩ := h
    exact ⟨x, hp, Prod.ext rfl hnil⟩
  · cases h

end

/-! ## Choices -/

theorem or_eq (p q : Parser α) (c : Cursor) :
    (p.or q) c = if (p c).isClean then p c
      else if (q c).isClean then q c else Parser.choose (p c) (q c) := by
  have unclean : ∀ o : Outcome α, (∀ a after alt, o = ⟨[], .ok a after alt⟩ → False) →
      o.isClean = false := by
    intro o ho
    unfold Outcome.isClean
    split
    · rename_i h
      exact (ho _ _ _ rfl).elim
    · rfl
  unfold Parser.or
  split
  · rename_i h
    rw [h]
    rfl
  · rename_i hp
    rw [unclean _ hp]
    split
    · rename_i h
      rw [h]
      rfl
    · rename_i hq
      rw [unclean _ hq]
      rfl

theorem optional_of_ok {p : Parser α} {c after : Cursor} {as : List Complaint} {x : α}
    {alt : Option Complaint} (h : p c = ⟨as, .ok x after alt⟩) :
    optional p c = ⟨as, .ok (some x) after alt⟩ := by
  unfold optional
  rw [h]

theorem optional_of_fail {p : Parser α} {c : Cursor} {as : List Complaint} {a : Complaint}
    (h : p c = ⟨as, .fail a⟩) : optional p c = ⟨[], .ok none c (some a)⟩ := by
  unfold optional
  rw [h]

/-! ## Repetition -/

/-- What is read one after the other is always a success. -/
def Run.outcome (run : Run α) : Outcome (List α) :=
  ⟨run.reported, .ok run.values run.after run.alt⟩

section

variable {p : Parser α} {c after : Cursor} {as : List Complaint} {x : α} {alt : Option Complaint}

theorem runMany_of_fail {a : Complaint} (h : p c = ⟨as, .fail a⟩) :
    runMany p c = ⟨[], [], c, some (a.joinAll as)⟩ := by
  rw [runMany, h]

theorem runMany_of_ok (h : p c = ⟨as, .ok x after alt⟩) (hlt : after.left < c.left) :
    runMany p c = ⟨as ++ (runMany p after).reported, x :: (runMany p after).values,
      (runMany p after).after, Complaint.joinOptions alt (runMany p after).alt⟩ := by
  rw [runMany, h]
  simp only [if_pos hlt]

theorem runMany_of_stuck (h : p c = ⟨as, .ok x after alt⟩) (hlt : ¬ after.left < c.left) :
    runMany p c = ⟨as, [x], after, alt⟩ := by
  rw [runMany, h]
  simp only [if_neg hlt]

end

/-! ## Searches -/

section

variable {pair other : Delimiters} {depth : Nat} {others : Int}

theorem closing_of_ne {c : Cursor} (h : ∀ t ∈ c.rest.head?, t.node ≠ pair.opening) :
    closing pair other c = ⟨none, none⟩ := by
  unfold closing
  split
  · rename_i t after hn
    rw [if_neg (h t (by simp [Cursor.rest_of_next? hn]))]
  · rfl

theorem closing_of_next {c after : Cursor} {t : Lexeme} (hn : c.next? = some (t, after))
    (ht : t.node = pair.opening) :
    closing pair other c = closingOf pair other 1 0 none after := by
  unfold closing
  rw [hn]
  exact if_pos ht

theorem closingOf_of_next {e : Option Complaint} {c after : Cursor} {t : Lexeme}
    (hn : c.next? = some (t, after)) :
    closingOf pair other depth others e c =
      if t.node = pair.opening then closingOf pair other (depth + 1) others e after
      else if t.node = pair.closing then
        if depth ≤ 1 then ⟨some after, e⟩ else closingOf pair other (depth - 1) others e after
      else if t.node = other.opening then closingOf pair other depth (others + 1) e after
      else if t.node = other.closing then
        closingOf pair other depth (others - 1)
          (if others ≤ 0 ∧ depth = 1 then e.or (some (unclosed pair c)) else e) after
      else closingOf pair other depth others e after := by
  rw [closingOf]
  split
  · rename_i h
    rw [hn] at h
    cases h
  · rename_i h
    rw [hn] at h
    cases h
    rfl

end

theorem closingOf_of_rest_nil {pair other : Delimiters} {depth : Nat} {others : Int}
    {e : Option Complaint} {c : Cursor} (h : c.rest = []) :
    closingOf pair other depth others e c =
      ⟨none, if depth = 1 then e.or (some (unclosed pair c)) else e⟩ := by
  rw [closingOf]
  split
  · rfl
  · rename_i hn
    rw [Cursor.next?_of_rest_nil h] at hn
    cases hn

/-! ## Skipping -/

theorem retry_of_next {p : Parser α} {c after : Cursor} {t : Lexeme}
    (hn : c.next? = some (t, after)) :
    retry p c = if (p after).result.isSome then some (p after) else retry p after := by
  rw [retry]
  split
  · rename_i h
    rw [hn] at h
    cases h
  · rename_i h
    rw [hn] at h
    cases h
    split
    · rename_i h
      rw [h]
      rfl
    · rename_i h
      rw [h]
      rfl

theorem retry_of_rest_nil {p : Parser α} {c : Cursor} (h : c.rest = []) :
    retry p c = none := by
  rw [retry]
  split
  · rfl
  · rename_i hn
    rw [Cursor.next?_of_rest_nil h] at hn
    cases hn

/-- What is found later is a success of the parser there. -/
theorem retry_mem {p : Parser α} {c : Cursor} {o : Outcome α} (h : retry p c = some o) :
    ∃ mid, o = p mid ∧ o.result.isSome = true := by
  fun_induction retry p c with
  | case1 c hnext => cases h
  | case2 c t after hnext hlt reported a last alt hpc =>
    cases h
    exact ⟨after, hpc.symm, rfl⟩
  | case3 c t after hnext hlt reported e hpc ih => exact ih h

theorem recoverSkipping_result (p : Parser α) (c : Cursor) :
    (recoverSkipping p c).result = (p c).result.or ((retry p c).bind Outcome.result) := by
  unfold recoverSkipping
  split
  · rename_i h
    rw [h]
    rfl
  · rename_i h
    rw [h]
    split
    · rename_i more reply hretry
      rw [hretry]
      cases reply <;> rfl
    · rename_i hretry
      rw [hretry]
      rfl

/-- Skipping a token makes no difference to what is found later. -/
theorem recoverSkipping_of_next {p : Parser α} {c after : Cursor} {t : Lexeme}
    (hfail : (p c).result = none) (hn : c.next? = some (t, after)) :
    (recoverSkipping p c).result = (recoverSkipping p after).result := by
  rw [recoverSkipping_result, recoverSkipping_result, hfail, Option.none_or, retry_of_next hn]
  cases h : (p after).result with
  | none => rfl
  | some x =>
    rw [Option.some_or]
    exact h

end Parser

end LunSyntax
