import LunSyntax.Grammar.Item
import LunSyntax.Proofs.Parser.Evaluation

/-!
# What complaints quote

A complaint names the tokens which were expected and the one which was found, and may have a text
of its own.  All of this is made of printable chars and of what the tokens are called.

* `Quotes source text`: a text has only printable chars and chars of a source;
* `Complaint.Quotes`: so has all that a complaint names, hence its wording,
  `Complaint.Quotes.reason`;
* `Parser.Quotes`: where tokens are called by such texts, a parser complains in no other ones;
* one lemma for each way to combine parsers.
-/

set_option autoImplicit false

namespace LunSyntax

/-! ## Texts -/

/-- Chars of ASCII which are no controls. -/
def isPrintable (c : Char) : Bool := 0x20 ≤ c.toNat && c.toNat < 0x7F

/-- A text has only printable chars and chars of a source. -/
def Quotes (source : List Char) (text : String) : Prop :=
  ∀ c ∈ text.toList, c ∈ source ∨ isPrintable c = true

theorem mem_intersperse {α : Type} {x separator : α} :
    ∀ {xs : List α}, x ∈ xs.intersperse separator → x = separator ∨ x ∈ xs
  | [], h => by cases h
  | [_], h => .inr h
  | a :: b :: rest, h => by
    rw [List.intersperse_cons_cons, List.mem_cons, List.mem_cons] at h
    rcases h with rfl | rfl | h
    · exact .inr List.mem_cons_self
    · exact .inl rfl
    · exact (mem_intersperse h).imp_right (List.mem_cons_of_mem _)

namespace Quotes

variable {source : List Char} {a b : String}

theorem of_printable (h : a.toList.all isPrintable = true) : Quotes source a :=
  fun c hc => .inr (List.all_eq_true.1 h c hc)

theorem append (ha : Quotes source a) (hb : Quotes source b) : Quotes source (a ++ b) := by
  intro c hc
  rw [String.toList_append] at hc
  exact (List.mem_append.1 hc).elim (ha c) (hb c)

/-- A text between others. -/
theorem between {before after : String} (ha : Quotes source a)
    (hbefore : before.toList.all isPrintable = true)
    (hafter : after.toList.all isPrintable = true) : Quotes source (before ++ a ++ after) :=
  .append (.append (.of_printable hbefore) ha) (.of_printable hafter)

theorem of_between {before after : String} (h : Quotes source (before ++ a ++ after)) :
    Quotes source a := by
  intro c hc
  refine h c ?_
  rw [String.toList_append, String.toList_append]
  exact List.mem_append_left _ (List.mem_append_right _ hc)

theorem intercalate {separator : String} (hseparator : Quotes source separator)
    {texts : List String} (h : ∀ text ∈ texts, Quotes source text) :
    Quotes source (separator.intercalate texts) := by
  intro c hc
  rw [String.toList_intercalate, List.intercalate] at hc
  obtain ⟨chars, hchars, hc⟩ := List.mem_flatten.1 hc
  rcases mem_intersperse hchars with rfl | hmem
  · exact hseparator c hc
  · obtain ⟨text, htext, rfl⟩ := List.mem_map.1 hmem
    exact h text htext c hc

/-- A list of choices is made of the choices. -/
theorem listChoices {choices : List String} (h : ∀ choice ∈ choices, Quotes source choice) :
    Quotes source (LunSyntax.listChoices choices) := by
  unfold LunSyntax.listChoices
  split
  · exact .of_printable rfl
  · exact h _ List.mem_cons_self
  · exact .append (.append (h _ (by simp)) (.of_printable (by decide))) (h _ (by simp))
  · refine .append (.append (.append (.of_printable (by decide)) ?_) (.of_printable (by decide))) ?_
    · exact .intercalate (.of_printable (by decide)) fun text htext =>
        h text (List.dropLast_subset _ htext)
    · cases hlast : choices.getLast? with
      | none => exact .of_printable rfl
      | some last => exact h last (List.mem_of_getLast? hlast)

end Quotes

theorem mem_insertSorted {s t : String} {texts : List String} :
    s ∈ insertSorted t texts ↔ s = t ∨ s ∈ texts := by
  fun_induction insertSorted t texts with
  | case1 => simp
  | case2 => simp
  | case3 => simp
  | case4 u rest _ _ ih =>
    rw [List.mem_cons, ih, List.mem_cons]
    exact or_left_comm

/-- Sorting keeps the strings. -/
theorem mem_sortUnique {s : String} {texts : List String} : s ∈ sortUnique texts ↔ s ∈ texts := by
  unfold sortUnique
  induction texts with
  | nil => simp
  | cons t rest ih => rw [List.foldr_cons, mem_insertSorted, ih, List.mem_cons]

/-! ## Complaints -/

/-- What a cause names quotes a source. -/
def Cause.Quotes (source : List Char) : Cause → Prop
  | unexpected => True
  | unclosed delimiter => LunSyntax.Quotes source delimiter.text
  | custom message => LunSyntax.Quotes source message

/-- All that a complaint names quotes a source. -/
structure Complaint.Quotes (source : List Char) (e : Complaint) : Prop where
  cause : e.cause.Quotes source
  expected : ∀ kind ∈ e.expected, LunSyntax.Quotes source (tokenLabel kind)
  found : LunSyntax.Quotes source (tokenLabel e.found)

/-- What tokens are called quotes a source. -/
def Cursor.Quotes (source : List Char) (c : Cursor) : Prop :=
  ∀ t ∈ c.rest, LunSyntax.Quotes source t.node.label

variable {source : List Char}

theorem quotes_none : Quotes source (tokenLabel none) := .of_printable (by decide)

namespace Cursor.Quotes

variable {c after : Cursor} {t : Lexeme}

theorem found (h : c.Quotes source) : LunSyntax.Quotes source (tokenLabel c.found) := by
  unfold Cursor.found
  cases hrest : c.rest with
  | nil => exact quotes_none
  | cons t rest => exact h t (by rw [hrest]; exact List.mem_cons_self)

theorem next (h : c.Quotes source) (hnext : c.next? = some (t, after)) :
    LunSyntax.Quotes source t.node.label ∧ after.Quotes source := by
  unfold Cursor.Quotes at h
  rw [rest_of_next? hnext] at h
  exact List.forall_mem_cons.1 h

end Cursor.Quotes

namespace Complaint.Quotes

variable {e e' : Complaint} {es : List Complaint} {alt alt' : Option Complaint} {c : Cursor}

/-- **The wording of a complaint quotes no more than what it names.** -/
theorem reason (h : e.Quotes source) : LunSyntax.Quotes source e.reason.message := by
  obtain ⟨hcause, hexpected, hfound⟩ := h
  have hchoices : ∀ choice ∈ sortUnique (e.expected.map tokenLabel),
      LunSyntax.Quotes source choice := by
    intro choice hchoice
    obtain ⟨kind, hkind, rfl⟩ := List.mem_map.1 (mem_sortUnique.1 hchoice)
    exact hexpected kind hkind
  unfold Complaint.reason
  split
  · rename_i hkind
    rw [hkind] at hcause
    exact hcause
  · rename_i hkind
    rw [hkind] at hcause
    exact .between hcause (by decide) (by decide)
  · dsimp only
    split
    · exact .append (.of_printable (by decide)) hfound
    · split
      · rename_i found hkind
        rw [hkind] at hfound
        exact .append (.append (.append (.of_printable (by decide)) (.listChoices hchoices))
          (.of_printable (by decide))) hfound
      · exact .between (.listChoices hchoices) (by decide) (by decide)

theorem unexpected (hc : c.Quotes source) {expected : List (Option TokenKind)}
    (h : ∀ kind ∈ expected, LunSyntax.Quotes source (tokenLabel kind)) :
    (c.unexpected expected).Quotes source :=
  ⟨trivial, h, hc.found⟩

theorem complain {span : Span} {message : String} (h : LunSyntax.Quotes source message) :
    (Parser.complain c span message).Quotes source :=
  ⟨h, by simp [Parser.complain], quotes_none⟩

theorem merge (h : e.Quotes source) (h' : e'.Quotes source) : (e.merge e').Quotes source := by
  refine ⟨?_, List.forall_mem_append.2 ⟨h.expected, h'.expected⟩, h.found⟩
  unfold Complaint.merge
  dsimp only
  split
  · rename_i hcause
    rw [← hcause]
    exact h.cause
  · rename_i hcause _
    rw [← hcause]
    exact h'.cause
  · exact h.cause

theorem join (h : e.Quotes source) (h' : e'.Quotes source) : (e.join e').Quotes source := by
  unfold Complaint.join
  split
  · exact h
  · split
    · exact h'
    · exact h.merge h'

theorem joinOption (h : e.Quotes source) (halt : ∀ e ∈ alt, e.Quotes source) :
    (e.joinOption alt).Quotes source := by
  cases alt with
  | none => exact h
  | some e' => exact h.join (halt e' rfl)

theorem joinOptions (halt : ∀ e ∈ alt, e.Quotes source) (halt' : ∀ e ∈ alt', e.Quotes source) :
    ∀ e ∈ Complaint.joinOptions alt alt', e.Quotes source := by
  cases alt' with
  | none => exact halt
  | some e' =>
    rintro _ ⟨⟩
    exact (halt' e' rfl).joinOption halt

theorem joinAll (h : e.Quotes source) (hes : ∀ e ∈ es, e.Quotes source) :
    (e.joinAll es).Quotes source := by
  unfold Complaint.joinAll
  induction es generalizing e with
  | nil => exact h
  | cons e' es ih =>
    obtain ⟨hhead, htail⟩ := List.forall_mem_cons.1 hes
    exact ih (hhead.join h) htail

theorem foldOptions (halt : ∀ e ∈ alt, e.Quotes source) (hes : ∀ e ∈ es, e.Quotes source) :
    ∀ e ∈ es.foldl (fun acc e => Complaint.joinOptions acc (some e)) alt, e.Quotes source := by
  induction es generalizing alt with
  | nil => exact halt
  | cons e' es ih =>
    obtain ⟨hhead, htail⟩ := List.forall_mem_cons.1 hes
    refine ih (joinOptions halt ?_) htail
    rintro _ ⟨⟩
    exact hhead

end Complaint.Quotes

/-! ## Outcomes -/

variable {α β : Type}

/-- All complaints of an outcome quote a source, and so do the tokens after a success. -/
inductive Outcome.Quotes (source : List Char) : Outcome α → Prop
  | ok {reported : List Complaint} {a : α} {after : Cursor} {alt : Option Complaint} :
    (∀ e ∈ reported, e.Quotes source) → (∀ e ∈ alt, e.Quotes source) → after.Quotes source →
      Outcome.Quotes source ⟨reported, .ok a after alt⟩
  | fail {reported : List Complaint} {e : Complaint} :
    (∀ e ∈ reported, e.Quotes source) → e.Quotes source →
      Outcome.Quotes source ⟨reported, .fail e⟩

theorem Outcome.Quotes.choose {o o' : Outcome α} (h : o.Quotes source) (h' : o'.Quotes source) :
    (Parser.choose o o').Quotes source := by
  cases h with
  | ok hreported halt hafter =>
    cases h' with
    | ok hreported' halt' hafter' =>
      unfold Parser.choose
      dsimp only
      split
      · exact .ok hreported halt hafter
      · exact .ok hreported' halt' hafter'
    | fail _ _ => exact .ok hreported halt hafter
  | fail hreported he =>
    cases h' with
    | ok hreported' halt' hafter' => exact .ok hreported' halt' hafter'
    | fail hreported' he' =>
      unfold Parser.choose
      dsimp only
      split
      · exact .fail hreported he
      · exact .fail hreported' he'
      · exact .fail hreported (he.join he')

/-! ## Parsers -/

namespace Parser

/-- A pair of delimiters which are printable. -/
structure Delimiters.Printable (pair : Delimiters) : Prop where
  opening : pair.opening.text.toList.all isPrintable = true
  closing : pair.closing.label.toList.all isPrintable = true

/-- Where the tokens quote a source, so do the complaints of a parser. -/
def Quotes (source : List Char) (p : Parser α) : Prop :=
  ∀ c : Cursor, c.Quotes source → (p c).Quotes source

namespace Quotes

variable {p q : Parser α}

theorem pure (a : α) : (Pure.pure a : Parser α).Quotes source :=
  fun _ hc => .ok (by simp) (by simp) hc

theorem fail {expected : List (Option TokenKind)}
    (h : ∀ kind ∈ expected, LunSyntax.Quotes source (tokenLabel kind)) :
    (Parser.fail expected : Parser α).Quotes source :=
  fun _ hc => .fail (by simp) (.unexpected hc h)

theorem bind {f : α → Parser β} (hp : p.Quotes source) (hf : ∀ a, (f a).Quotes source) :
    (p >>= f).Quotes source := by
  intro c hc
  have hpc := hp c hc
  change (Parser.bind p f c).Quotes source
  unfold Parser.bind
  generalize p c = first at hpc ⊢
  cases hpc with
  | fail hreported he => exact .fail hreported he
  | @ok reported a mid alt hreported halt hmid =>
    have hfc := hf a mid hmid
    dsimp only
    generalize f a mid = second at hfc ⊢
    cases hfc with
    | fail hmore he =>
      exact .fail (List.forall_mem_append.2 ⟨hreported, hmore⟩) (he.joinOption halt)
    | ok hmore halt' hafter =>
      exact .ok (List.forall_mem_append.2 ⟨hreported, hmore⟩) (.joinOptions halt halt') hafter

theorem token {f : Lexeme → Option α} {expected : List (Option TokenKind)}
    (h : ∀ kind ∈ expected, LunSyntax.Quotes source (tokenLabel kind)) :
    (Parser.token f expected).Quotes source := by
  intro c hc
  unfold Parser.token
  split
  · rename_i hnext
    split
    · exact .ok (by simp) (by simp) (hc.next hnext).2
    · exact .fail (by simp) (.unexpected hc h)
  · exact .fail (by simp) (.unexpected hc h)

theorem finish : Parser.finish.Quotes source := by
  intro c hc
  unfold Parser.finish
  split
  · exact .ok (by simp) (by simp) hc
  · refine .fail (by simp) (.unexpected hc fun _ hkind => ?_)
    rw [List.mem_singleton.1 hkind]
    exact quotes_none

theorem withSpan {f : α → Span → β} (hp : p.Quotes source) :
    (Parser.withSpan f p).Quotes source := by
  intro c hc
  have hpc := hp c hc
  unfold Parser.withSpan
  generalize p c = first at hpc ⊢
  cases hpc with
  | ok hreported halt hafter => exact .ok hreported halt hafter
  | fail hreported he => exact .fail hreported he

/-- The messages about a value may quote it, so it matters which values there are. -/
theorem check {f : α → Span → β × List (Span × String)} (hp : p.Quotes source)
    (h : ∀ (c : Cursor) reported a after alt, c.Quotes source →
      p c = ⟨reported, .ok a after alt⟩ →
        ∀ span, ∀ m ∈ (f a span).2, LunSyntax.Quotes source m.2) :
    (Parser.check f p).Quotes source := by
  intro c hc
  have hpc := hp c hc
  unfold Parser.check
  cases hout : p c with
  | mk reported reply =>
    rw [hout] at hpc
    cases hpc with
    | ok hreported halt hafter =>
      refine .ok (List.forall_mem_append.2 ⟨hreported, fun e he => ?_⟩) halt hafter
      obtain ⟨m, hm, rfl⟩ := List.mem_map.1 he
      exact .complain (h c _ _ _ _ hc hout _ m hm)
    | fail hreported he => exact .fail hreported he

/-! ### Choices -/

theorem or (hp : p.Quotes source) (hq : q.Quotes source) : (p.or q).Quotes source := by
  intro c hc
  rw [or_eq]
  split
  · exact hp c hc
  · split
    · exact hq c hc
    · exact (hp c hc).choose (hq c hc)

theorem firstOf {ps : List (Parser α)} (hps : ∀ p ∈ ps, p.Quotes source) {c : Cursor}
    (hc : c.Quotes source) {alt : Option Complaint} (halt : ∀ e ∈ alt, e.Quotes source) :
    (Parser.firstOf alt ps c).Quotes source := by
  induction ps generalizing alt with
  | nil =>
    unfold Parser.firstOf
    cases alt with
    | none => exact .fail (by simp) (.unexpected hc (by simp))
    | some e => exact .fail (by simp) (halt e rfl)
  | cons p ps ih =>
    obtain ⟨hp, hps⟩ := List.forall_mem_cons.1 hps
    have hpc := hp c hc
    unfold Parser.firstOf
    generalize p c = first at hpc ⊢
    cases hpc with
    | ok hreported halt hafter => exact .ok hreported halt hafter
    | fail _ he =>
      refine ih hps (.joinOptions halt ?_)
      rintro _ ⟨⟩
      exact he

theorem choice {ps : List (Parser α)} (hps : ∀ p ∈ ps, p.Quotes source) :
    (Parser.choice ps).Quotes source :=
  fun _ hc => firstOf hps hc (by simp)

theorem optional (hp : p.Quotes source) : (Parser.optional p).Quotes source := by
  intro c hc
  have hpc := hp c hc
  unfold Parser.optional
  generalize p c = first at hpc ⊢
  cases hpc with
  | ok hreported halt hafter => exact .ok hreported halt hafter
  | fail _ he =>
    refine .ok (by simp) ?_ hc
    rintro _ ⟨⟩
    exact he

/-! ### Repetition -/

theorem runMany (hp : p.Quotes source) (c : Cursor) (hc : c.Quotes source) :
    (Parser.runMany p c).outcome.Quotes source := by
  fun_induction Parser.runMany p c with
  | case1 c reported complaint hpc =>
    have h := hp c hc
    rw [hpc] at h
    cases h with
    | fail hreported he =>
      refine .ok (by simp) ?_ hc
      rintro _ ⟨⟩
      exact he.joinAll hreported
  | case2 c reported a after alt hpc hlt more ih =>
    have h := hp c hc
    rw [hpc] at h
    cases h with
    | ok hreported halt hafter =>
      have ih := ih hafter
      unfold Run.outcome at ih
      cases ih with
      | ok hreported' halt' hlast =>
        exact .ok (List.forall_mem_append.2 ⟨hreported, hreported'⟩) (.joinOptions halt halt')
          hlast
  | case3 c reported a after alt hpc hlt =>
    have h := hp c hc
    rw [hpc] at h
    cases h with
    | ok hreported halt hafter => exact .ok hreported halt hafter

theorem many (hp : p.Quotes source) : (Parser.many p).Quotes source :=
  fun c hc => runMany hp c hc

theorem runSeparated {sep : Parser Unit} (hp : p.Quotes source) (hsep : sep.Quotes source)
    (c : Cursor) (hc : c.Quotes source) :
    (Parser.runSeparated p sep c).outcome.Quotes source := by
  fun_induction Parser.runSeparated p sep c with
  | case1 c reported complaint hsc =>
    have h := hsep c hc
    rw [hsc] at h
    cases h with
    | fail hreported he =>
      refine .ok hreported ?_ hc
      rintro _ ⟨⟩
      exact he
  | case2 c reported between sepAlt hsc more complaint hpc =>
    have h := hsep c hc
    rw [hsc] at h
    cases h with
    | ok hreported halt hbetween =>
      have h' := hp between hbetween
      rw [hpc] at h'
      cases h' with
      | fail hmore he =>
        have hfailed : ∀ e ∈ some complaint, e.Quotes source := by
          rintro _ ⟨⟩
          exact he
        exact .ok (List.forall_mem_append.2 ⟨hreported, hmore⟩)
          (Complaint.Quotes.joinOptions halt hfailed) hc
  | case3 c reported between sepAlt hsc more a after alt hpc hlt rest ih =>
    have h := hsep c hc
    rw [hsc] at h
    cases h with
    | ok hreported halt hbetween =>
      have h' := hp between hbetween
      rw [hpc] at h'
      cases h' with
      | ok hmore halt' hafter =>
        have ih := ih hafter
        unfold Run.outcome at ih
        cases ih with
        | ok hrest halt'' hlast =>
          exact .ok (List.forall_mem_append.2
            ⟨List.forall_mem_append.2 ⟨hreported, hmore⟩, hrest⟩)
            (.joinOptions (.joinOptions halt halt') halt'') hlast
  | case4 c reported between sepAlt hsc more a after alt hpc hlt =>
    have h := hsep c hc
    rw [hsc] at h
    cases h with
    | ok hreported halt hbetween =>
      have h' := hp between hbetween
      rw [hpc] at h'
      cases h' with
      | ok hmore halt' hafter =>
        exact .ok (List.forall_mem_append.2 ⟨hreported, hmore⟩) (.joinOptions halt halt') hafter

theorem sepBy {sep : Parser Unit} (hp : p.Quotes source) (hsep : sep.Quotes source) :
    (Parser.sepBy p sep).Quotes source := by
  intro c hc
  have hpc := hp c hc
  unfold Parser.sepBy
  generalize p c = first at hpc ⊢
  cases hpc with
  | fail hreported he =>
    refine .ok hreported ?_ hc
    rintro _ ⟨⟩
    exact he
  | @ok reported a mid alt hreported halt hmid =>
    have hrun := runSeparated hp hsep mid hmid
    dsimp only
    generalize Parser.runSeparated p sep mid = run at hrun ⊢
    unfold Run.outcome at hrun
    cases hrun with
    | ok hreported' halt' hlast =>
      have hboth := List.forall_mem_append.2 ⟨hreported, hreported'⟩
      have hsc := hsep run.after hlast
      generalize sep run.after = second at hsc ⊢
      cases hsc with
      | ok hmore halt'' hend =>
        exact .ok hboth (.foldOptions (.joinOptions (.joinOptions halt halt') halt'') hmore) hend
      | fail hmore he =>
        refine .ok hboth (.joinOptions (.joinOptions halt halt') ?_) hlast
        rintro _ ⟨⟩
        exact he.joinAll hmore

/-! ### Recovery -/

theorem unclosed {pair : Delimiters} (hpair : pair.Printable) {c : Cursor}
    (hc : c.Quotes source) : (Parser.unclosed pair c).Quotes source := by
  refine ⟨.of_printable hpair.opening, fun _ hkind => ?_, hc.found⟩
  rw [List.mem_singleton.1 hkind]
  exact .of_printable hpair.closing

/-- A search for a closing delimiter complains about the one which it is for. -/
theorem closingOf {pair other : Delimiters} (hpair : pair.Printable) {depth : Nat} {others : Int}
    {complaint : Option Complaint} {c : Cursor} (hc : c.Quotes source)
    (hcomplaint : ∀ e ∈ complaint, e.Quotes source) :
    (∀ after ∈ (Parser.closingOf pair other depth others complaint c).after,
      after.Quotes source) ∧
      ∀ e ∈ (Parser.closingOf pair other depth others complaint c).complaint, e.Quotes source := by
  have hadd : ∀ {c : Cursor} {complaint : Option Complaint}, c.Quotes source →
      (∀ e ∈ complaint, e.Quotes source) →
      ∀ e ∈ complaint.or (some (Parser.unclosed pair c)), e.Quotes source := by
    intro c complaint hc hcomplaint
    cases complaint with
    | none =>
      rintro _ ⟨⟩
      exact unclosed hpair hc
    | some e => exact hcomplaint
  fun_induction Parser.closingOf pair other depth others complaint c with
  | case1 depth others complaint c hnext =>
    refine ⟨by simp, ?_⟩
    dsimp only
    split
    · exact hadd hc hcomplaint
    · exact hcomplaint
  | case2 depth others complaint c t next hnext hlt hopen ih =>
    exact ih (hc.next hnext).2 hcomplaint
  | case3 depth others complaint c t next hnext hlt hopen hclose hdepth =>
    refine ⟨?_, hcomplaint⟩
    rintro _ ⟨⟩
    exact (hc.next hnext).2
  | case4 depth others complaint c t next hnext hlt hopen hclose hdepth ih =>
    exact ih (hc.next hnext).2 hcomplaint
  | case5 depth others complaint c t next hnext hlt hopen hclose hother ih =>
    exact ih (hc.next hnext).2 hcomplaint
  | case6 depth others complaint c t next hnext hlt hopen hclose hother hother' complaint' ih =>
    refine ih (hc.next hnext).2 ?_
    dsimp only [complaint']
    split
    · exact hadd hc hcomplaint
    · exact hcomplaint
  | case7 depth others complaint c t next hnext hlt hopen hclose hother hother' ih =>
    exact ih (hc.next hnext).2 hcomplaint

theorem closing {pair : Delimiters} (hpair : pair.Printable) (other : Delimiters) {c : Cursor}
    (hc : c.Quotes source) :
    (∀ after ∈ (Parser.closing pair other c).after, after.Quotes source) ∧
      ∀ e ∈ (Parser.closing pair other c).complaint, e.Quotes source := by
  unfold Parser.closing
  split
  · rename_i hnext
    split
    · exact closingOf hpair (hc.next hnext).2 (by simp)
    · exact ⟨by simp, by simp⟩
  · exact ⟨by simp, by simp⟩

theorem recoverDelimited {pair other : Delimiters} (hpair : pair.Printable)
    {fallback : Span → α} (hp : p.Quotes source) :
    (Parser.recoverDelimited pair other fallback p).Quotes source := by
  intro c hc
  have hpc := hp c hc
  obtain ⟨hafter, hcomplaint⟩ := closing hpair other hc
  unfold Parser.recoverDelimited
  generalize p c = first at hpc ⊢
  cases hpc with
  | ok hreported halt hafter => exact .ok hreported halt hafter
  | @fail reported e hreported he =>
    dsimp only
    generalize Parser.closing pair other c = search at hafter hcomplaint ⊢
    have hboth : ∀ e ∈ reported ++ search.complaint.toList, e.Quotes source :=
      List.forall_mem_append.2 ⟨hreported, by simpa using hcomplaint⟩
    split
    · exact .fail hboth he
    · rename_i after hsearch
      have hall : ∀ covered : Bool, ∀ e' ∈ if covered then reported ++ search.complaint.toList
          else reported ++ search.complaint.toList ++ [e], e'.Quotes source := by
        intro covered
        split
        · exact hboth
        · exact List.forall_mem_append.2 ⟨hboth, by simpa using he⟩
      exact .ok (hall _) (by simp) (hafter after hsearch)

theorem retry (hp : p.Quotes source) (c : Cursor) (hc : c.Quotes source) :
    ∀ o, Parser.retry p c = some o → o.Quotes source := by
  fun_induction Parser.retry p c with
  | case1 c hnext => simp
  | case2 c t after hnext hlt reported a last alt hpc =>
    rintro _ ⟨⟩
    rw [← hpc]
    exact hp after (hc.next hnext).2
  | case3 c t after hnext hlt reported e hpc ih => exact ih (hc.next hnext).2

theorem recoverSkipping (hp : p.Quotes source) : (Parser.recoverSkipping p).Quotes source := by
  intro c hc
  have hpc := hp c hc
  have hretry := retry hp c hc
  unfold Parser.recoverSkipping
  generalize p c = first at hpc ⊢
  cases hpc with
  | ok hreported halt hafter => exact .ok hreported halt hafter
  | fail hreported he =>
    dsimp only
    split
    · rename_i ho
      have hfirst := List.forall_mem_singleton.2 he
      cases hretry _ ho with
      | ok hmore halt hafter => exact .ok (List.forall_mem_append.2 ⟨hmore, hfirst⟩) halt hafter
      | fail hmore he' => exact .fail (List.forall_mem_append.2 ⟨hmore, hfirst⟩) he'
    · exact .fail hreported he

end Quotes

end Parser

end LunSyntax
