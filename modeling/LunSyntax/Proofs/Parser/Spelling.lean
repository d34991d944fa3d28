import LunSyntax.Proofs.Grammar.Spelling
import LunSyntax.Proofs.Parser.Evaluation

/-!
# What parsers read and complain about

`Parser.Spells source p R`: wherever `p` is run on tokens of a source, its value and the tokens it
read are related by `R`, and its complaints are about these tokens or the end.  Other than
`Parser.Reads` this is about the tokens with their spans, and about failures as well.

* `Cursor.Reaches`: the tokens between two places, read one by one; a span from one place to the
  other is `Exact` for them;
* `Cursor.Locates`: complaints about what comes after a place;
* one lemma for each way to combine parsers, as for `Parser.Reads`.
-/

set_option autoImplicit false

namespace LunSyntax

/-! ## Places -/

/-- A span of some tokens, or the empty one at the stop of some. -/
inductive Located (source : UInt16) (used : List Lexeme) : Span → Prop
  | span {us : List Lexeme} {s : Span} : us <:+: used → Covers source us s → Located source used s
  | stop {us : List Lexeme} {s : Span} :
    us <:+: used → Covers source us s → Located source used s.atStop

theorem Located.of_infix {source : UInt16} {us used : List Lexeme} {s : Span}
    (h : Located source us s) (hus : us <:+: used) : Located source used s := by
  cases h with
  | span hin hcovers => exact .span (hin.trans hus) hcovers
  | stop hin hcovers => exact .stop (hin.trans hus) hcovers

namespace Cursor

variable {source : UInt16} {c mid after : Cursor} {us vs used : List Lexeme} {t : Lexeme}
  {e e' : Complaint}

/-- Tokens which were read one by one on the way from one place to another. -/
inductive Reaches : Cursor → List Lexeme → Cursor → Prop
  | refl {c : Cursor} : Reaches c [] c
  | next {c mid after : Cursor} {t : Lexeme} {used : List Lexeme} :
    c.next? = some (t, mid) → Reaches mid used after → Reaches c (t :: used) after

/-- All tokens, and the end, are those of one source. -/
structure In (source : UInt16) (c : Cursor) : Prop where
  finish_source : c.finish.source = source
  token_source : ∀ t ∈ c.rest, t.span.source = source

/-- A complaint made where no token is left, which no check of a value makes. -/
structure AtFinish (c : Cursor) (e : Complaint) : Prop where
  span : e.span = c.finish
  left : e.left = 0
  found : e.found = none
  cause : ∀ message, e.cause ≠ .custom message

/-- A complaint about tokens after a place, or about the end. -/
def Locates (c : Cursor) (e : Complaint) : Prop :=
  Located c.finish.source c.rest e.span ∨ c.AtFinish e

namespace Reaches

theorem of_next? (h : c.next? = some (t, after)) : c.Reaches [t] after := .next h .refl

theorem trans (h : c.Reaches us mid) (h' : mid.Reaches vs after) : c.Reaches (us ++ vs) after := by
  induction h with
  | refl => exact h'
  | next hn _ ih => exact .next hn (ih h')

theorem passes (h : c.Reaches used after) : c.Passes used after := by
  induction h with
  | refl => exact .refl
  | next hn _ ih => exact .trans (.of_next? hn) ih

/-- The last token which was read tells the stop. -/
theorem lastStop_eq (h : c.Reaches used after) :
    ∀ t ∈ used.getLast?, after.lastStop = t.span.stop := by
  induction h with
  | refl => simp
  | @next c mid after t used hn hmid ih =>
    intro t' ht'
    cases hmid with
    | refl =>
      obtain ⟨after, hn', -, hstop, -⟩ := next?_of_rest (rest_of_next? hn)
      rw [hn] at hn'
      cases hn'
      cases ht'
      exact hstop
    | next => exact ih t' (by simpa using ht')

theorem left_lt (h : c.Reaches used after) (hne : used ≠ []) : after.left < c.left := by
  have hpos := List.length_pos_iff.2 hne
  rw [after.left_eq, c.left_eq, h.passes.rest_eq, List.length_append]
  omega

/-- A span from one place to another is over the tokens between them. -/
theorem spanTo_exact (h : c.Reaches used after) (hne : used ≠ []) :
    Exact c.finish.source used (c.spanTo after) := by
  obtain ⟨first, rest, rfl⟩ := List.exists_cons_of_ne_nil hne
  have hlast := List.getLast?_eq_some_getLast (List.cons_ne_nil first rest)
  have hrest := h.passes.rest_eq
  have hhere : c.here = first.span := by
    unfold here
    rw [hrest, List.cons_append]
  refine ⟨first, _, rfl, hlast, ?_⟩
  unfold spanTo
  rw [if_pos (h.left_lt hne), hhere, h.lastStop_eq _ hlast]

theorem isIn (h : c.Reaches used after) (hc : c.In source) : after.In source := by
  have hpass := h.passes
  refine ⟨?_, fun t ht => hc.token_source t ?_⟩
  · rw [hpass.finish_eq]
    exact hc.finish_source
  · rw [hpass.rest_eq]
    exact List.mem_append_right _ ht

/-- What is complained about later is after the place before, too. -/
theorem locates (h : c.Reaches used mid) (he : mid.Locates e) : c.Locates e := by
  have hpass := h.passes
  unfold Locates at he ⊢
  rw [hpass.finish_eq] at he
  refine he.imp (fun hloc => hloc.of_infix ?_) fun hend =>
    ⟨hend.span.trans hpass.finish_eq, hend.left, hend.found, hend.cause⟩
  rw [hpass.rest_eq]
  exact (List.suffix_append _ _).isInfix

/-- What is said of tokens between two places is said after the first of them. -/
theorem located (h : c.Reaches used after) {s : Span} (hs : Located c.finish.source used s) :
    Located c.finish.source c.rest s := by
  refine hs.of_infix ?_
  rw [h.passes.rest_eq]
  exact (List.prefix_append _ _).isInfix

end Reaches

/-! ## Complaints -/

namespace Locates

theorem here (hc : c.In source) (hspan : e.span = c.here) (hleft : e.left = c.left)
    (hfound : e.found = c.found) (hcause : ∀ message, e.cause ≠ .custom message) :
    c.Locates e := by
  unfold Cursor.here at hspan
  unfold Cursor.found at hfound
  rw [c.left_eq] at hleft
  split at hspan
  · rename_i t rest hrest
    have hsource : t.span.source = c.finish.source := by
      rw [hc.finish_source]
      exact hc.token_source t (by simp [hrest])
    have hexact : Exact c.finish.source [t] t.span := ⟨t, t, rfl, rfl, by rw [← hsource]⟩
    refine .inl ?_
    rw [hspan, hrest]
    have hinfix : [t] <:+: t :: rest := (List.prefix_append [t] rest).isInfix
    exact .span hinfix hexact.covers
  · rename_i hrest
    rw [hrest] at hleft hfound
    exact .inr ⟨hspan, hleft, hfound, hcause⟩

theorem unexpected (hc : c.In source) (expected : List (Option TokenKind)) :
    c.Locates (c.unexpected expected) :=
  .here hc rfl rfl rfl fun _ h => by cases h

theorem unclosed (hc : c.In source) (pair : Parser.Delimiters) :
    c.Locates (Parser.unclosed pair c) :=
  .here hc rfl rfl rfl fun _ h => by cases h

/-- Where complaints are merged, the first has the place, and it is no message at the end. -/
theorem merge (h : c.Locates e) : c.Locates (e.merge e') := by
  refine h.imp id fun hend => ⟨hend.span, hend.left, hend.found, fun message => ?_⟩
  have hcause := hend.cause message
  unfold Complaint.merge
  dsimp only
  split
  · simp
  · simp
  · exact hcause

theorem join (h : c.Locates e) (h' : c.Locates e') : c.Locates (e.join e') := by
  unfold Complaint.join
  split
  · exact h
  · split
    · exact h'
    · exact h.merge

theorem joinOption {alt : Option Complaint} (h : c.Locates e) (h' : ∀ e ∈ alt, c.Locates e) :
    c.Locates (e.joinOption alt) := by
  cases alt with
  | none => exact h
  | some e' => exact h.join (h' e' rfl)

theorem joinOptions {alt alt' : Option Complaint} (h : ∀ e ∈ alt, c.Locates e)
    (h' : ∀ e ∈ alt', c.Locates e) : ∀ e ∈ Complaint.joinOptions alt alt', c.Locates e := by
  cases alt' with
  | none => exact h
  | some e' =>
    rintro _ ⟨⟩
    exact (h' e' rfl).joinOption h

theorem joinAll {es : List Complaint} (h : c.Locates e) (h' : ∀ e ∈ es, c.Locates e) :
    c.Locates (e.joinAll es) := by
  unfold Complaint.joinAll
  induction es generalizing e with
  | nil => exact h
  | cons e' es ih =>
    obtain ⟨hhead, htail⟩ := List.forall_mem_cons.1 h'
    exact ih (hhead.join h) htail

theorem foldOptions {es : List Complaint} {alt : Option Complaint} (h : ∀ e ∈ alt, c.Locates e)
    (h' : ∀ e ∈ es, c.Locates e) :
    ∀ e ∈ es.foldl (fun acc e => Complaint.joinOptions acc (some e)) alt, c.Locates e := by
  induction es generalizing alt with
  | nil => exact h
  | cons e' es ih =>
    obtain ⟨hhead, htail⟩ := List.forall_mem_cons.1 h'
    refine ih (joinOptions h ?_) htail
    rintro _ ⟨⟩
    exact hhead

end Locates

end Cursor

/-! ## Outcomes -/

variable {source : UInt16} {α β : Type}

/-- The value of a success and the tokens of it are related, and all complaints are about what
comes after the place it was run at. -/
inductive Outcome.Meets (c : Cursor) (R : α → List Lexeme → Prop) : Outcome α → Prop
  | ok {reported : List Complaint} {a : α} {after : Cursor} {alt : Option Complaint}
      {used : List Lexeme} :
    (∀ e ∈ reported, c.Locates e) → (∀ e ∈ alt, c.Locates e) → c.Reaches used after → R a used →
      Outcome.Meets c R ⟨reported, .ok a after alt⟩
  | fail {reported : List Complaint} {e : Complaint} :
    (∀ e ∈ reported, c.Locates e) → c.Locates e → Outcome.Meets c R ⟨reported, .fail e⟩

namespace Outcome.Meets

variable {c mid : Cursor} {R S : α → List Lexeme → Prop} {o o' : Outcome α}

theorem reported (h : o.Meets c R) : ∀ e ∈ o.reported, c.Locates e := by
  cases h with
  | ok hreported => exact hreported
  | fail hreported => exact hreported

/-- The same reply after other complaints. -/
theorem report {es : List Complaint} (h : o.Meets c R) (hes : ∀ e ∈ es, c.Locates e) :
    Outcome.Meets c R ⟨es, o.reply⟩ := by
  cases h with
  | ok _ halt hreach hr => exact .ok hes halt hreach hr
  | fail _ he => exact .fail hes he

/-- What was run at a later place. -/
theorem later {gap : List Lexeme} (h : o.Meets mid R) (hgap : c.Reaches gap mid)
    (hrs : ∀ a used, R a used → S a (gap ++ used)) : o.Meets c S := by
  cases h with
  | ok hreported halt hreach hr =>
    exact .ok (fun e he => hgap.locates (hreported e he)) (fun e he => hgap.locates (halt e he))
      (hgap.trans hreach) (hrs _ _ hr)
  | fail hreported he =>
    exact .fail (fun e he => hgap.locates (hreported e he)) (hgap.locates he)

theorem choose (h : o.Meets c R) (h' : o'.Meets c R) : (Parser.choose o o').Meets c R := by
  cases h with
  | ok hreported halt hreach hr =>
    cases h' with
    | ok hreported' halt' hreach' hr' =>
      unfold Parser.choose
      dsimp only
      split
      · exact .ok hreported halt hreach hr
      · exact .ok hreported' halt' hreach' hr'
    | fail _ _ => exact .ok hreported halt hreach hr
  | fail hreported he =>
    cases h' with
    | ok hreported' halt' hreach' hr' => exact .ok hreported' halt' hreach' hr'
    | fail hreported' he' =>
      unfold Parser.choose
      dsimp only
      split
      · exact .fail hreported he
      · exact .fail hreported' he'
      · exact .fail hreported (he.join he')

end Outcome.Meets

/-! ## Parsers -/

namespace Parser

/-- The value of a parser and the tokens it reads are related, and it complains about its input
only. -/
def Spells (source : UInt16) (p : Parser α) (R : α → List Lexeme → Prop) : Prop :=
  ∀ c, c.In source → (p c).Meets c R

namespace Spells

variable {p q : Parser α} {R S : α → List Lexeme → Prop} {T : β → List Lexeme → Prop}

theorem mono (hp : Spells source p R) (h : ∀ a used, R a used → S a used) : Spells source p S :=
  fun c hc => (hp c hc).later .refl h

theorem pure {a : α} (h : R a []) : Spells source (Pure.pure a : Parser α) R := by
  intro c hc
  exact .ok (by simp) (by simp) .refl h

theorem fail {expected : List (Option TokenKind)} : Spells source (Parser.fail expected) R := by
  intro c hc
  exact .fail (by simp) (.unexpected hc _)

theorem bind {f : α → Parser β} (hp : Spells source p R)
    (hf : ∀ a, Spells source (f a) fun b vs => ∀ us, R a us → T b (us ++ vs)) :
    Spells source (p >>= f) T := by
  intro c hc
  have hpc := hp c hc
  change (Parser.bind p f c).Meets c T
  unfold Parser.bind
  generalize p c = first at hpc ⊢
  cases hpc with
  | fail hreported he => exact .fail hreported he
  | @ok reported a mid alt us hreported halt hus hr =>
    have hfc := (hf a mid (hus.isIn hc)).later (S := T) hus fun b vs h => h us hr
    dsimp only
    generalize f a mid = second at hfc ⊢
    cases hfc with
    | fail hmore he =>
      exact .fail (List.forall_mem_append.2 ⟨hreported, hmore⟩) (he.joinOption halt)
    | ok hmore halt' hvs ht =>
      exact .ok (List.forall_mem_append.2 ⟨hreported, hmore⟩) (.joinOptions halt halt') hvs ht

theorem map {f : α → β} (hp : Spells source p R) (h : ∀ a used, R a used → T (f a) used) :
    Spells source (f <$> p) T := by
  refine bind hp fun a => pure ?_
  intro us hr
  rw [List.append_nil]
  exact h _ _ hr

theorem token {f : Lexeme → Option α} {expected : List (Option TokenKind)}
    (h : ∀ t a, t.span.source = source → f t = some a → R a [t]) :
    Spells source (Parser.token f expected) R := by
  intro c hc
  unfold Parser.token
  split
  · rename_i t after hn
    split
    · rename_i a hf
      have ht : t.span.source = source :=
        hc.token_source t (by simp [Cursor.rest_of_next? hn])
      exact .ok (by simp) (by simp) (.of_next? hn) (h t a ht hf)
    · exact .fail (by simp) (.unexpected hc _)
  · exact .fail (by simp) (.unexpected hc _)

theorem just (kind : TokenKind) :
    Spells source (Parser.just kind) fun _ used => ∃ t, used = [t] ∧ t.node = kind := by
  refine token fun t a _ hf => ?_
  split at hf
  · rename_i hk
    exact ⟨t, rfl, hk⟩
  · cases hf

theorem finish : Spells source Parser.finish fun _ used => used = [] := by
  intro c hc
  unfold Parser.finish
  split
  · exact .ok (by simp) (by simp) .refl rfl
  · exact .fail (by simp) (.unexpected hc _)

/-- Where something was read, the span is over it. -/
theorem withSpan {f : α → Span → β} (hp : Spells source p R)
    (h : ∀ a span used, R a used → (used ≠ [] → Exact source used span) → T (f a span) used) :
    Spells source (Parser.withSpan f p) T := by
  intro c hc
  have hpc := hp c hc
  unfold Parser.withSpan
  generalize p c = first at hpc ⊢
  cases hpc with
  | ok hreported halt hreach hr =>
    refine .ok hreported halt hreach (h _ _ _ hr fun hne => ?_)
    rw [← hc.finish_source]
    exact hreach.spanTo_exact hne
  | fail hreported he => exact .fail hreported he

/-- A check says something of the tokens which were read. -/
theorem check {f : α → Span → β × List (Span × String)} (hp : Spells source p R)
    (h : ∀ a span used, R a used → (used ≠ [] → Exact source used span) →
      T (f a span).1 used ∧ ∀ m ∈ (f a span).2, Located source used m.1) :
    Spells source (Parser.check f p) T := by
  intro c hc
  have hpc := hp c hc
  unfold Parser.check
  generalize p c = first at hpc ⊢
  cases hpc with
  | @ok reported a after alt used hreported halt hreach hr =>
    obtain ⟨ht, hmessages⟩ := h a (c.spanTo after) used hr fun hne => by
      rw [← hc.finish_source]
      exact hreach.spanTo_exact hne
    dsimp only
    refine .ok (List.forall_mem_append.2 ⟨hreported, fun e he => ?_⟩) halt hreach ht
    obtain ⟨m, hm, rfl⟩ := List.mem_map.1 he
    have hlocated := hmessages m hm
    rw [← hc.finish_source] at hlocated
    exact .inl (hreach.located hlocated)
  | fail hreported he => exact .fail hreported he

/-! ### Choices -/

theorem or (hp : Spells source p R) (hq : Spells source q R) : Spells source (p.or q) R := by
  intro c hc
  rw [or_eq]
  split
  · exact hp c hc
  · split
    · exact hq c hc
    · exact (hp c hc).choose (hq c hc)

theorem firstOf {ps : List (Parser α)} (hps : ∀ p ∈ ps, Spells source p R) {c : Cursor}
    (hc : c.In source) {alt : Option Complaint} (halt : ∀ e ∈ alt, c.Locates e) :
    (Parser.firstOf alt ps c).Meets c R := by
  induction ps generalizing alt with
  | nil =>
    unfold Parser.firstOf
    cases alt with
    | none => exact .fail (by simp) (.unexpected hc _)
    | some e => exact .fail (by simp) (halt e rfl)
  | cons p ps ih =>
    obtain ⟨hp, hps⟩ := List.forall_mem_cons.1 hps
    have hpc := hp c hc
    unfold Parser.firstOf
    generalize p c = first at hpc ⊢
    cases hpc with
    | ok hreported halt hreach hr => exact .ok hreported halt hreach hr
    | fail _ he =>
      refine ih hps (.joinOptions halt ?_)
      rintro _ ⟨⟩
      exact he

theorem choice {ps : List (Parser α)} (hps : ∀ p ∈ ps, Spells source p R) :
    Spells source (Parser.choice ps) R :=
  fun _ hc => firstOf hps hc (by simp)

/-- What an optional parser reads: nothing where it makes nothing. -/
def Maybe (R : α → List Lexeme → Prop) : Option α → List Lexeme → Prop
  | none, used => used = []
  | some a, used => R a used

theorem optional (hp : Spells source p R) : Spells source (Parser.optional p) (Maybe R) := by
  intro c hc
  have hpc := hp c hc
  unfold Parser.optional
  generalize p c = first at hpc ⊢
  cases hpc with
  | ok hreported halt hreach hr => exact .ok hreported halt hreach hr
  | fail hreported he =>
    refine .ok (by simp) ?_ .refl rfl
    rintro _ ⟨⟩
    exact he

/-! ### Repetition -/

section

variable {L : List α → List Lexeme → Prop}

theorem runMany (hp : Spells source p R) (hnil : L [] [])
    (hcons : ∀ a as us vs, R a us → L as vs → L (a :: as) (us ++ vs)) (c : Cursor)
    (hc : c.In source) : (Parser.runMany p c).outcome.Meets c L := by
  fun_induction Parser.runMany p c with
  | case1 c reported complaint hpc =>
    have h := hp c hc
    rw [hpc] at h
    cases h with
    | fail hreported he =>
      refine .ok (by simp) ?_ .refl hnil
      rintro _ ⟨⟩
      exact he.joinAll hreported
  | case2 c reported a after alt hpc hlt more ih =>
    have h := hp c hc
    rw [hpc] at h
    cases h with
    | @ok _ _ _ _ us hreported halt hreach hr =>
      have hmore := (ih (hreach.isIn hc)).later (S := fun as vs => L (a :: as) vs) hreach
        fun as vs hs => hcons a as us vs hr hs
      unfold Run.outcome at hmore
      cases hmore with
      | ok hreported' halt' hreach' hs =>
        exact .ok (List.forall_mem_append.2 ⟨hreported, hreported'⟩) (.joinOptions halt halt')
          hreach' hs
  | case3 c reported a after alt hpc hlt =>
    have h := hp c hc
    rw [hpc] at h
    cases h with
    | @ok _ _ _ _ us hreported halt hreach hr =>
      refine .ok hreported halt hreach ?_
      have hs := hcons a [] us [] hr hnil
      rwa [List.append_nil] at hs

theorem many (hp : Spells source p R) (hnil : L [] [])
    (hcons : ∀ a as us vs, R a us → L as vs → L (a :: as) (us ++ vs)) :
    Spells source (Parser.many p) L :=
  fun c hc => runMany hp hnil hcons c hc

/-- What comes after the values may still be added to the tokens. -/
theorem runSeparated {sep : Parser Unit} (hp : Spells source p R)
    (hsep : Spells source sep fun _ _ => True)
    (hcons : ∀ a as gap us vs, R a us → L as vs → L (a :: as) (gap ++ (us ++ vs)))
    (c : Cursor) (hc : c.In source) :
    (Parser.runSeparated p sep c).outcome.Meets c fun as used =>
      ∀ ws, L [] ws → L as (used ++ ws) := by
  fun_induction Parser.runSeparated p sep c with
  | case1 c reported complaint hsc =>
    have h := hsep c hc
    rw [hsc] at h
    cases h with
    | fail hreported he =>
      refine .ok hreported ?_ .refl fun ws hws => hws
      rintro _ ⟨⟩
      exact he
  | case2 c reported between sepAlt hsc more complaint hpc =>
    have h := hsep c hc
    rw [hsc] at h
    cases h with
    | ok hreported halt hreach _ =>
      have h' := hp between (hreach.isIn hc)
      rw [hpc] at h'
      cases h' with
      | fail hmore he =>
        have hfailed : ∀ e ∈ some complaint, c.Locates e := by
          rintro _ ⟨⟩
          exact hreach.locates he
        exact .ok (List.forall_mem_append.2 ⟨hreported, fun e he => hreach.locates (hmore e he)⟩)
          (Cursor.Locates.joinOptions halt hfailed) .refl fun ws hws => hws
  | case3 c reported between sepAlt hsc more a after alt hpc hlt rest ih =>
    have h := hsep c hc
    rw [hsc] at h
    cases h with
    | @ok _ _ _ _ gap hreported halt hreach _ =>
      have h' := hp between (hreach.isIn hc)
      rw [hpc] at h'
      cases h' with
      | @ok _ _ _ _ us hmore halt' hreach' hr =>
        have hboth := hreach.trans hreach'
        have hrest := (ih (hboth.isIn hc)).later
          (S := fun as used => ∀ ws, L [] ws → L (a :: as) (used ++ ws)) hboth
          fun as vs hs ws hws => by
            rw [List.append_assoc, List.append_assoc]
            exact hcons a as gap us (vs ++ ws) hr (hs ws hws)
        unfold Run.outcome at hrest
        cases hrest with
        | ok hreported'' halt'' hreach'' hs =>
          refine .ok (List.forall_mem_append.2 ⟨List.forall_mem_append.2 ⟨hreported, ?_⟩,
            hreported''⟩) (.joinOptions (.joinOptions halt ?_) halt'') hreach'' hs
          · exact fun e he => hreach.locates (hmore e he)
          · exact fun e he => hreach.locates (halt' e he)
  | case4 c reported between sepAlt hsc more a after alt hpc hlt =>
    have h := hsep c hc
    rw [hsc] at h
    cases h with
    | @ok _ _ _ _ gap hreported halt hreach _ =>
      have h' := hp between (hreach.isIn hc)
      rw [hpc] at h'
      cases h' with
      | @ok _ _ _ _ us hmore halt' hreach' hr =>
        refine .ok (List.forall_mem_append.2 ⟨hreported, fun e he => hreach.locates (hmore e he)⟩)
          (.joinOptions halt fun e he => hreach.locates (halt' e he)) (hreach.trans hreach') ?_
        intro ws hws
        rw [List.append_assoc]
        exact hcons a [] gap us ws hr hws

theorem sepBy {sep : Parser Unit} (hp : Spells source p R)
    (hsep : Spells source sep fun _ _ => True) (hnil : ∀ used, L [] used)
    (hcons : ∀ a as gap us vs, R a us → L as vs → L (a :: as) (gap ++ (us ++ vs))) :
    Spells source (Parser.sepBy p sep) L := by
  intro c hc
  have hpc := hp c hc
  unfold Parser.sepBy
  generalize p c = first at hpc ⊢
  cases hpc with
  | fail hreported he =>
    refine .ok hreported ?_ .refl (hnil _)
    rintro _ ⟨⟩
    exact he
  | @ok reported a mid alt us hreported halt hreach hr =>
    have hrun := (runSeparated hp hsep hcons mid (hreach.isIn hc)).later
      (S := fun as used => ∀ ws, L (a :: as) (used ++ ws)) hreach fun as vs hs ws => by
        rw [List.append_assoc]
        exact hcons a as [] us (vs ++ ws) hr (hs ws (hnil ws))
    dsimp only
    generalize Parser.runSeparated p sep mid = run at hrun ⊢
    unfold Run.outcome at hrun
    cases hrun with
    | @ok _ _ _ _ vs hreported' halt' hreach' hs =>
      have hsc := (hsep run.after (hreach'.isIn hc)).later
        (S := fun _ used => L (a :: run.values) used) hreach' fun _ ws _ => hs ws
      generalize sep run.after = second at hsc ⊢
      have hboth : ∀ e ∈ reported ++ run.reported, c.Locates e :=
        List.forall_mem_append.2 ⟨hreported, hreported'⟩
      cases hsc with
      | ok hmore halt'' hreach'' hs' =>
        exact .ok hboth (.foldOptions (.joinOptions (.joinOptions halt halt') halt'') hmore)
          hreach'' hs'
      | fail hmore he =>
        have hs' := hs []
        rw [List.append_nil] at hs'
        refine .ok hboth (.joinOptions (.joinOptions halt halt') ?_) hreach' hs'
        rintro _ ⟨⟩
        exact he.joinAll hmore

end

/-! ### Recovery -/

/-- A search complains about what comes after a place, and ends behind a token. -/
structure Searches (c : Cursor) (gone : List Lexeme) (s : SearchEnd) : Prop where
  complaint : ∀ e ∈ s.complaint, c.Locates e
  after : ∀ after ∈ s.after, ∃ us closing, c.Reaches (gone ++ (us ++ [closing])) after

theorem Searches.skip {c : Cursor} {gone : List Lexeme} {t : Lexeme} {s : SearchEnd}
    (h : Searches c (gone ++ [t]) s) : Searches c gone s := by
  refine ⟨h.complaint, fun after hafter => ?_⟩
  obtain ⟨us, closing, hreach⟩ := h.after after hafter
  refine ⟨t :: us, closing, ?_⟩
  simpa using hreach

theorem closingOf_searches {pair other : Delimiters} {depth : Nat} {others : Int}
    {complaint : Option Complaint} {c mid : Cursor} {gone : List Lexeme} (hc : c.In source)
    (hreach : c.Reaches gone mid) (hcomplaint : ∀ e ∈ complaint, c.Locates e) :
    Searches c gone (closingOf pair other depth others complaint mid) := by
  have unclosed_located : ∀ (mid : Cursor) (gone : List Lexeme) (complaint : Option Complaint),
      c.Reaches gone mid → (∀ e ∈ complaint, c.Locates e) →
      ∀ e ∈ complaint.or (some (unclosed pair mid)), c.Locates e := by
    intro mid gone complaint hreach hcomplaint
    cases complaint with
    | none =>
      rintro _ ⟨⟩
      exact hreach.locates (.unclosed (hreach.isIn hc) pair)
    | some e => exact hcomplaint
  fun_induction closingOf pair other depth others complaint mid generalizing gone with
  | case1 depth others complaint mid hnext =>
    refine ⟨?_, by simp⟩
    dsimp only
    split
    · exact unclosed_located mid gone complaint hreach hcomplaint
    · exact hcomplaint
  | case2 depth others complaint mid t next hnext hlt hopen ih =>
    exact (ih (hreach.trans (.of_next? hnext)) hcomplaint).skip
  | case3 depth others complaint mid t next hnext hlt hopen hclose hdepth =>
    refine ⟨hcomplaint, ?_⟩
    rintro _ ⟨⟩
    exact ⟨[], t, hreach.trans (.of_next? hnext)⟩
  | case4 depth others complaint mid t next hnext hlt hopen hclose hdepth ih =>
    exact (ih (hreach.trans (.of_next? hnext)) hcomplaint).skip
  | case5 depth others complaint mid t next hnext hlt hopen hclose hother ih =>
    exact (ih (hreach.trans (.of_next? hnext)) hcomplaint).skip
  | case6 depth others complaint mid t next hnext hlt hopen hclose hother hother' complaint' =>
    rename_i ih
    refine (ih (hreach.trans (.of_next? hnext)) ?_).skip
    dsimp only [complaint']
    split
    · exact unclosed_located mid gone complaint hreach hcomplaint
    · exact hcomplaint
  | case7 depth others complaint mid t next hnext hlt hopen hclose hother hother' ih =>
    exact (ih (hreach.trans (.of_next? hnext)) hcomplaint).skip

theorem closing_searches (pair other : Delimiters) {c : Cursor} (hc : c.In source) :
    (∀ e ∈ (closing pair other c).complaint, c.Locates e) ∧
      ∀ after ∈ (closing pair other c).after,
        ∃ opening us closing, c.Reaches (opening :: (us ++ [closing])) after := by
  unfold closing
  split
  · rename_i t next hnext
    split
    · have h : Searches c [t] (closingOf pair other 1 0 none next) :=
        closingOf_searches hc (.of_next? hnext) (by simp)
      refine ⟨h.complaint, fun after hafter => ?_⟩
      obtain ⟨us, closing, hreach⟩ := h.after after hafter
      exact ⟨t, us, closing, hreach⟩
    · simp
  · simp

/-- What is skipped stands between two tokens. -/
theorem recoverDelimited {pair other : Delimiters} {fallback : Span → α}
    (hp : Spells source p R)
    (h : ∀ span opening us closing, Exact source (opening :: (us ++ [closing])) span →
      R (fallback span) (opening :: (us ++ [closing]))) :
    Spells source (Parser.recoverDelimited pair other fallback p) R := by
  intro c hc
  have hpc := hp c hc
  obtain ⟨hcomplaint, hafter⟩ := closing_searches pair other hc
  unfold Parser.recoverDelimited
  generalize p c = first at hpc ⊢
  cases hpc with
  | ok hreported halt hreach hr => exact .ok hreported halt hreach hr
  | @fail reported e hreported he =>
    dsimp only
    generalize closing pair other c = search at hcomplaint hafter ⊢
    have hboth : ∀ e ∈ reported ++ search.complaint.toList, c.Locates e :=
      List.forall_mem_append.2 ⟨hreported, by simpa using hcomplaint⟩
    split
    · exact .fail hboth he
    · rename_i after hsearch
      obtain ⟨opening, us, closing, hreach⟩ := hafter after hsearch
      have hexact := hreach.spanTo_exact (List.cons_ne_nil _ _)
      rw [hc.finish_source] at hexact
      have hall : ∀ covered : Bool, ∀ e' ∈ if covered then reported ++ search.complaint.toList
          else reported ++ search.complaint.toList ++ [e], c.Locates e' := by
        intro covered
        split
        · exact hboth
        · exact List.forall_mem_append.2 ⟨hboth, by simpa using he⟩
      exact .ok (hall _) (by simp) hreach (h _ _ _ _ hexact)

theorem retry (hp : Spells source p R) (c : Cursor) (hc : c.In source) :
    ∀ o ∈ Parser.retry p c, o.Meets c fun a used => ∃ gap us, used = gap ++ us ∧ R a us := by
  fun_induction Parser.retry p c with
  | case1 c hnext => simp
  | case2 c t after hnext hlt reported a last alt hpc =>
    rintro _ ⟨⟩
    have hreach : c.Reaches [t] after := .of_next? hnext
    rw [← hpc]
    exact (hp after (hreach.isIn hc)).later hreach fun a us hr => ⟨[t], us, rfl, hr⟩
  | case3 c t after hnext hlt reported e hpc ih =>
    intro o ho
    have hreach : c.Reaches [t] after := .of_next? hnext
    refine (ih (hreach.isIn hc) o ho).later hreach ?_
    rintro a used ⟨gap, us, rfl, hr⟩
    exact ⟨t :: gap, us, rfl, hr⟩

/-- What is skipped comes before what is read then. -/
theorem recoverSkipping (hp : Spells source p R) :
    Spells source (Parser.recoverSkipping p) fun a used => ∃ gap us, used = gap ++ us ∧ R a us := by
  intro c hc
  have hpc := hp c hc
  have hretry := retry hp c hc
  unfold Parser.recoverSkipping
  generalize p c = first at hpc ⊢
  cases hpc with
  | ok hreported halt hreach hr => exact .ok hreported halt hreach ⟨[], _, rfl, hr⟩
  | fail hreported he =>
    dsimp only
    split
    · rename_i more reply ho
      have hmeets := hretry _ ho
      exact hmeets.report (List.forall_mem_append.2 ⟨hmeets.reported, by simpa using he⟩)
    · exact .fail hreported he

end Spells

end Parser

end LunSyntax
