import LunSyntax.Proofs.Parser.Evaluation

/-!
# Delimiters which are never closed

A search for a closing delimiter that runs to the end complains about it there.  Then nothing was
recovered, so a parser which does not go on after a failure passes that complaint on, and one which
does drops it.  None is left in the end.

* `Complaint.BeforeEnd`: no delimiter is said to be unclosed where no token is left;
* `Parser.BeforeEnd strict`: the complaints of a parser are so, but perhaps what it reported before
  a failure; `strict` ones have no such exception;
* one lemma for each way to combine parsers.
-/

set_option autoImplicit false

namespace LunSyntax

/-! ## Complaints -/

/-- No delimiter is said to be unclosed where no token is left. -/
def Complaint.BeforeEnd (e : Complaint) : Prop :=
  ∀ delimiter, e.cause = .unclosed delimiter → 0 < e.left

namespace Complaint.BeforeEnd

variable {e e' : Complaint} {es : List Complaint} {alt alt' : Option Complaint}

theorem unexpected (c : Cursor) (expected : List (Option TokenKind)) :
    (c.unexpected expected).BeforeEnd := by
  rintro delimiter ⟨⟩

theorem complain (c : Cursor) (span : Span) (message : String) :
    (Parser.complain c span message).BeforeEnd := by
  rintro delimiter ⟨⟩

/-- Merged complaints are about the same place. -/
theorem merge (h : e.BeforeEnd) (h' : e'.BeforeEnd) (hleft : e.left = e'.left) :
    (e.merge e').BeforeEnd := by
  intro delimiter hcause
  unfold Complaint.merge at hcause ⊢
  dsimp only at hcause ⊢
  split at hcause
  · exact h _ ‹_›
  · rw [hleft]
    exact h' _ ‹_›
  · exact h _ hcause

theorem join (h : e.BeforeEnd) (h' : e'.BeforeEnd) : (e.join e').BeforeEnd := by
  unfold Complaint.join
  split
  · exact h
  · split
    · exact h'
    · exact h.merge h' (by omega)

theorem joinOption (h : e.BeforeEnd) (halt : ∀ e ∈ alt, e.BeforeEnd) :
    (e.joinOption alt).BeforeEnd := by
  cases alt with
  | none => exact h
  | some e' => exact h.join (halt e' rfl)

theorem joinOptions (halt : ∀ e ∈ alt, e.BeforeEnd) (halt' : ∀ e ∈ alt', e.BeforeEnd) :
    ∀ e ∈ Complaint.joinOptions alt alt', e.BeforeEnd := by
  cases alt' with
  | none => exact halt
  | some e' =>
    rintro _ ⟨⟩
    exact (halt' e' rfl).joinOption halt

theorem joinAll (h : e.BeforeEnd) (hes : ∀ e ∈ es, e.BeforeEnd) : (e.joinAll es).BeforeEnd := by
  unfold Complaint.joinAll
  induction es generalizing e with
  | nil => exact h
  | cons e' es ih =>
    obtain ⟨hhead, htail⟩ := List.forall_mem_cons.1 hes
    exact ih (hhead.join h) htail

theorem foldOptions (halt : ∀ e ∈ alt, e.BeforeEnd) (hes : ∀ e ∈ es, e.BeforeEnd) :
    ∀ e ∈ es.foldl (fun acc e => Complaint.joinOptions acc (some e)) alt, e.BeforeEnd := by
  induction es generalizing alt with
  | nil => exact halt
  | cons e' es ih =>
    obtain ⟨hhead, htail⟩ := List.forall_mem_cons.1 hes
    refine ih (joinOptions halt ?_) htail
    rintro _ ⟨⟩
    exact hhead

end Complaint.BeforeEnd

/-! ## Outcomes -/

variable {α β : Type} {strict : Bool}

/-- All complaints of a success are made before the end, and so is that of a failure.  What was
reported before a failure is so too, if the outcome is a strict one. -/
inductive Outcome.BeforeEnd (strict : Bool) : Outcome α → Prop
  | ok {reported : List Complaint} {a : α} {after : Cursor} {alt : Option Complaint} :
    (∀ e ∈ reported, e.BeforeEnd) → (∀ e ∈ alt, e.BeforeEnd) →
      Outcome.BeforeEnd strict ⟨reported, .ok a after alt⟩
  | fail {reported : List Complaint} {e : Complaint} :
    (strict = true → ∀ e ∈ reported, e.BeforeEnd) → e.BeforeEnd →
      Outcome.BeforeEnd strict ⟨reported, .fail e⟩

namespace Outcome.BeforeEnd

variable {o o' : Outcome α}

theorem weaken (h : o.BeforeEnd true) : o.BeforeEnd strict := by
  cases h with
  | ok hreported halt => exact .ok hreported halt
  | fail hreported he => exact .fail (fun _ => hreported rfl) he

theorem choose (h : o.BeforeEnd strict) (h' : o'.BeforeEnd strict) :
    (Parser.choose o o').BeforeEnd strict := by
  cases h with
  | ok hreported halt =>
    cases h' with
    | ok hreported' halt' =>
      unfold Parser.choose
      dsimp only
      split
      · exact .ok hreported halt
      · exact .ok hreported' halt'
    | fail _ _ => exact .ok hreported halt
  | fail hreported he =>
    cases h' with
    | ok hreported' halt' => exact .ok hreported' halt'
    | fail hreported' he' =>
      unfold Parser.choose
      dsimp only
      split
      · exact .fail hreported he
      · exact .fail hreported' he'
      · exact .fail hreported (he.join he')

end Outcome.BeforeEnd

/-! ## Parsers -/

namespace Parser

/-- Wherever a parser is run, it complains about unclosed delimiters before the end only. -/
def BeforeEnd (strict : Bool) (p : Parser α) : Prop := ∀ c, (p c).BeforeEnd strict

namespace BeforeEnd

variable {p q : Parser α}

theorem weaken (hp : p.BeforeEnd true) : p.BeforeEnd strict := fun c => (hp c).weaken

theorem pure (a : α) : (Pure.pure a : Parser α).BeforeEnd strict :=
  fun _ => .ok (by simp) (by simp)

theorem fail {expected : List (Option TokenKind)} :
    (Parser.fail expected : Parser α).BeforeEnd strict :=
  fun _ => .fail (by simp) (.unexpected _ _)

theorem bind {f : α → Parser β} (hp : p.BeforeEnd strict) (hf : ∀ a, (f a).BeforeEnd strict) :
    (p >>= f).BeforeEnd strict := by
  intro c
  have hpc := hp c
  change (Parser.bind p f c).BeforeEnd strict
  unfold Parser.bind
  generalize p c = first at hpc ⊢
  cases hpc with
  | fail hreported he => exact .fail hreported he
  | @ok reported a mid alt hreported halt =>
    have hfc := hf a mid
    dsimp only
    generalize f a mid = second at hfc ⊢
    cases hfc with
    | fail hmore he =>
      exact .fail (fun hstrict => List.forall_mem_append.2 ⟨hreported, hmore hstrict⟩)
        (he.joinOption halt)
    | ok hmore halt' =>
      exact .ok (List.forall_mem_append.2 ⟨hreported, hmore⟩) (.joinOptions halt halt')

theorem token {f : Lexeme → Option α} {expected : List (Option TokenKind)} :
    (Parser.token f expected).BeforeEnd strict := by
  intro c
  unfold Parser.token
  split
  · split
    · exact .ok (by simp) (by simp)
    · exact .fail (by simp) (.unexpected _ _)
  · exact .fail (by simp) (.unexpected _ _)

theorem finish : Parser.finish.BeforeEnd strict := by
  intro c
  unfold Parser.finish
  split
  · exact .ok (by simp) (by simp)
  · exact .fail (by simp) (.unexpected _ _)

theorem withSpan {f : α → Span → β} (hp : p.BeforeEnd strict) :
    (Parser.withSpan f p).BeforeEnd strict := by
  intro c
  have hpc := hp c
  unfold Parser.withSpan
  generalize p c = first at hpc ⊢
  cases hpc with
  | ok hreported halt => exact .ok hreported halt
  | fail hreported he => exact .fail hreported he

theorem check {f : α → Span → β × List (Span × String)} (hp : p.BeforeEnd strict) :
    (Parser.check f p).BeforeEnd strict := by
  intro c
  have hpc := hp c
  unfold Parser.check
  generalize p c = first at hpc ⊢
  cases hpc with
  | ok hreported halt =>
    refine .ok (List.forall_mem_append.2 ⟨hreported, fun e he => ?_⟩) halt
    obtain ⟨m, -, rfl⟩ := List.mem_map.1 he
    exact .complain _ _ _
  | fail hreported he => exact .fail hreported he

/-! ### Choices -/

theorem or (hp : p.BeforeEnd strict) (hq : q.BeforeEnd strict) : (p.or q).BeforeEnd strict := by
  intro c
  rw [or_eq]
  split
  · exact hp c
  · split
    · exact hq c
    · exact (hp c).choose (hq c)

/-- Where all of some parsers fail, what they reported is dropped. -/
theorem firstOf {ps : List (Parser α)} (hps : ∀ p ∈ ps, p.BeforeEnd false) {c : Cursor}
    {alt : Option Complaint} (halt : ∀ e ∈ alt, e.BeforeEnd) :
    (Parser.firstOf alt ps c).BeforeEnd strict := by
  induction ps generalizing alt with
  | nil =>
    unfold Parser.firstOf
    cases alt with
    | none => exact .fail (by simp) (.unexpected _ _)
    | some e => exact .fail (by simp) (halt e rfl)
  | cons p ps ih =>
    obtain ⟨hp, hps⟩ := List.forall_mem_cons.1 hps
    have hpc := hp c
    unfold Parser.firstOf
    generalize p c = first at hpc ⊢
    cases hpc with
    | ok hreported halt => exact .ok hreported halt
    | fail _ he =>
      refine ih hps (.joinOptions halt ?_)
      rintro _ ⟨⟩
      exact he

theorem choice {ps : List (Parser α)} (hps : ∀ p ∈ ps, p.BeforeEnd false) :
    (Parser.choice ps).BeforeEnd strict :=
  fun _ => firstOf hps (by simp)

/-- So it is where one parser fails that is optional. -/
theorem optional (hp : p.BeforeEnd false) : (Parser.optional p).BeforeEnd strict := by
  intro c
  have hpc := hp c
  unfold Parser.optional
  generalize p c = first at hpc ⊢
  cases hpc with
  | ok hreported halt => exact .ok hreported halt
  | fail _ he =>
    refine .ok (by simp) ?_
    rintro _ ⟨⟩
    exact he

/-! ### Repetition -/

theorem runMany (hp : p.BeforeEnd true) (c : Cursor) :
    (Parser.runMany p c).outcome.BeforeEnd strict := by
  fun_induction Parser.runMany p c with
  | case1 c reported complaint hpc =>
    have h := hp c
    rw [hpc] at h
    cases h with
    | fail hreported he =>
      refine .ok (by simp) ?_
      rintro _ ⟨⟩
      exact he.joinAll (hreported rfl)
  | case2 c reported a after alt hpc hlt more ih =>
    have h := hp c
    rw [hpc] at h
    cases h with
    | ok hreported halt =>
      unfold Run.outcome at ih
      cases ih with
      | ok hreported' halt' =>
        exact .ok (List.forall_mem_append.2 ⟨hreported, hreported'⟩) (.joinOptions halt halt')
  | case3 c reported a after alt hpc hlt =>
    have h := hp c
    rw [hpc] at h
    cases h with
    | ok hreported halt => exact .ok hreported halt

theorem many (hp : p.BeforeEnd true) : (Parser.many p).BeforeEnd strict :=
  fun c => runMany hp c

theorem runSeparated {sep : Parser Unit} (hp : p.BeforeEnd true) (hsep : sep.BeforeEnd true)
    (c : Cursor) : (Parser.runSeparated p sep c).outcome.BeforeEnd strict := by
  fun_induction Parser.runSeparated p sep c with
  | case1 c reported complaint hsc =>
    have h := hsep c
    rw [hsc] at h
    cases h with
    | fail hreported he =>
      refine .ok (hreported rfl) ?_
      rintro _ ⟨⟩
      exact he
  | case2 c reported between sepAlt hsc more complaint hpc =>
    have h := hsep c
    have h' := hp between
    rw [hsc] at h
    rw [hpc] at h'
    cases h with
    | ok hreported halt =>
      cases h' with
      | fail hmore he =>
        have hfailed : ∀ e ∈ some complaint, e.BeforeEnd := by
          rintro _ ⟨⟩
          exact he
        exact .ok (List.forall_mem_append.2 ⟨hreported, hmore rfl⟩)
          (Complaint.BeforeEnd.joinOptions halt hfailed)
  | case3 c reported between sepAlt hsc more a after alt hpc hlt rest ih =>
    have h := hsep c
    have h' := hp between
    rw [hsc] at h
    rw [hpc] at h'
    cases h with
    | ok hreported halt =>
      cases h' with
      | ok hmore halt' =>
        unfold Run.outcome at ih
        cases ih with
        | ok hrest halt'' =>
          exact .ok (List.forall_mem_append.2
            ⟨List.forall_mem_append.2 ⟨hreported, hmore⟩, hrest⟩)
            (.joinOptions (.joinOptions halt halt') halt'')
  | case4 c reported between sepAlt hsc more a after alt hpc hlt =>
    have h := hsep c
    have h' := hp between
    rw [hsc] at h
    rw [hpc] at h'
    cases h with
    | ok hreported halt =>
      cases h' with
      | ok hmore halt' =>
        exact .ok (List.forall_mem_append.2 ⟨hreported, hmore⟩) (.joinOptions halt halt')

theorem sepBy {sep : Parser Unit} (hp : p.BeforeEnd true) (hsep : sep.BeforeEnd true) :
    (Parser.sepBy p sep).BeforeEnd strict := by
  intro c
  have hpc := hp c
  unfold Parser.sepBy
  generalize p c = first at hpc ⊢
  cases hpc with
  | fail hreported he =>
    refine .ok (hreported rfl) ?_
    rintro _ ⟨⟩
    exact he
  | @ok reported a mid alt hreported halt =>
    have hrun : (Parser.runSeparated p sep mid).outcome.BeforeEnd true := runSeparated hp hsep mid
    dsimp only
    generalize Parser.runSeparated p sep mid = run at hrun ⊢
    unfold Run.outcome at hrun
    cases hrun with
    | ok hreported' halt' =>
      have hboth := List.forall_mem_append.2 ⟨hreported, hreported'⟩
      have hsc := hsep run.after
      generalize sep run.after = second at hsc ⊢
      cases hsc with
      | ok hmore halt'' =>
        exact .ok hboth (.foldOptions (.joinOptions (.joinOptions halt halt') halt'') hmore)
      | fail hmore he =>
        refine .ok hboth (.joinOptions (.joinOptions halt halt') ?_)
        rintro _ ⟨⟩
        exact he.joinAll (hmore rfl)

/-! ### Recovery -/

/-- Only a search which comes to the end complains about it. -/
theorem closingOf_complaint {pair other : Delimiters} {depth : Nat} {others : Int}
    {complaint : Option Complaint} {c : Cursor} (hcomplaint : ∀ e ∈ complaint, e.BeforeEnd)
    (hafter : (closingOf pair other depth others complaint c).after.isSome = true) :
    ∀ e ∈ (closingOf pair other depth others complaint c).complaint, e.BeforeEnd := by
  fun_induction closingOf pair other depth others complaint c with
  | case1 depth others complaint c hnext => cases hafter
  | case2 depth others complaint c t next hnext hlt hopen ih => exact ih hcomplaint hafter
  | case3 depth others complaint c t next hnext hlt hopen hclose hdepth => exact hcomplaint
  | case4 depth others complaint c t next hnext hlt hopen hclose hdepth ih =>
    exact ih hcomplaint hafter
  | case5 depth others complaint c t next hnext hlt hopen hclose hother ih =>
    exact ih hcomplaint hafter
  | case6 depth others complaint c t next hnext hlt hopen hclose hother hother' complaint' ih =>
    refine ih ?_ hafter
    dsimp only [complaint']
    split
    · cases complaint with
      | none =>
        -- a token is left where this one is made
        rintro _ ⟨⟩ delimiter -
        exact Nat.zero_lt_of_lt hlt
      | some e => exact hcomplaint
    · exact hcomplaint
  | case7 depth others complaint c t next hnext hlt hopen hclose hother hother' ih =>
    exact ih hcomplaint hafter

theorem closing_complaint {pair other : Delimiters} {c : Cursor}
    (hafter : (closing pair other c).after.isSome = true) :
    ∀ e ∈ (closing pair other c).complaint, e.BeforeEnd := by
  unfold closing at hafter ⊢
  split at hafter
  · split at hafter
    · rename_i hopen
      simp only [hopen]
      exact closingOf_complaint (by simp) hafter
    · cases hafter
  · cases hafter

/-- After a search which comes to the end, the parser fails. -/
theorem recoverDelimited {pair other : Delimiters} {fallback : Span → α}
    (hp : p.BeforeEnd true) :
    (Parser.recoverDelimited pair other fallback p).BeforeEnd false := by
  intro c
  have hpc := hp c
  have hsearch : (closing pair other c).after.isSome = true →
      ∀ e ∈ (closing pair other c).complaint, e.BeforeEnd := closing_complaint
  unfold Parser.recoverDelimited
  generalize p c = first at hpc ⊢
  cases hpc with
  | ok hreported halt => exact .ok hreported halt
  | @fail reported e hreported he =>
    dsimp only
    generalize closing pair other c = search at hsearch ⊢
    split
    · exact .fail (by simp) he
    · rename_i after hafter
      have hboth : ∀ e ∈ reported ++ search.complaint.toList, e.BeforeEnd :=
        List.forall_mem_append.2 ⟨hreported rfl, by simpa using hsearch (by rw [hafter]; rfl)⟩
      have hall : ∀ covered : Bool, ∀ e' ∈ if covered then reported ++ search.complaint.toList
          else reported ++ search.complaint.toList ++ [e], e'.BeforeEnd := by
        intro covered
        split
        · exact hboth
        · exact List.forall_mem_append.2 ⟨hboth, by simpa using he⟩
      exact .ok (hall _) (by simp)

theorem recoverSkipping (hp : p.BeforeEnd true) :
    (Parser.recoverSkipping p).BeforeEnd strict := by
  intro c
  have hpc := hp c
  have hretry := @retry_mem _ p c
  unfold Parser.recoverSkipping
  generalize p c = first at hpc ⊢
  cases hpc with
  | ok hreported halt => exact .ok hreported halt
  | fail hreported he =>
    dsimp only
    split
    · rename_i more reply ho
      obtain ⟨mid, hmid, hsome⟩ := hretry ho
      have hagain := hp mid
      rw [← hmid] at hagain
      cases hagain with
      | ok hmore halt => exact .ok (List.forall_mem_append.2 ⟨hmore, by simpa using he⟩) halt
      | fail _ _ => cases hsome
    · exact .fail (fun _ => hreported rfl) he

end BeforeEnd

end Parser

end LunSyntax
