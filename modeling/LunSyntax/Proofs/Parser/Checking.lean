import LunSyntax.Grammar.Checked
import LunSyntax.Proofs.Parser.Spelling

/-!
# Parses which come to their end

`Checked.Follows source g p`: at any place among tokens of one source, a checked parser does what a
parser does, and is not cut short.

* `Cursor.Ready`: such a place, and that an offset comes after the start of each token;
* one lemma for each way to combine parsers.  What is repeated has to read something, which
  `Parser.Spells` tells; and where spans are merged, `Follows.bind_spells` tells whose they are.
-/

set_option autoImplicit false

namespace LunSyntax

variable {source : UInt16} {α β : Type}

/-! ## Places -/

/-- A place among tokens of one source, none of which starts at the largest offset. -/
structure Cursor.Ready (source : UInt16) (c : Cursor) : Prop where
  isIn : c.In source
  start_lt : ∀ t ∈ c.rest, t.span.start < maxOffset

namespace Cursor.Reaches

variable {c after : Cursor} {used : List Lexeme}

theorem ready (h : c.Reaches used after) (hc : c.Ready source) : after.Ready source := by
  refine ⟨h.isIn hc.isIn, fun t ht => hc.start_lt t ?_⟩
  rw [h.passes.rest_eq]
  exact List.mem_append_right _ ht

theorem start_lt (h : c.Reaches used after) (hc : c.Ready source) :
    ∀ t ∈ used, t.span.start < maxOffset := by
  intro t ht
  refine hc.start_lt t ?_
  rw [h.passes.rest_eq]
  exact List.mem_append_left _ ht

end Cursor.Reaches

/-- What comes after a success is such a place again. -/
inductive Outcome.Ready (source : UInt16) : Outcome α → Prop
  | ok {reported : List Complaint} {a : α} {after : Cursor} {alt : Option Complaint} :
    after.Ready source → Outcome.Ready source ⟨reported, .ok a after alt⟩
  | fail {reported : List Complaint} {e : Complaint} : Outcome.Ready source ⟨reported, .fail e⟩

theorem Outcome.Ready.choose {o o' : Outcome α} (h : o.Ready source) (h' : o'.Ready source) :
    (Parser.choose o o').Ready source := by
  cases h with
  | ok hafter =>
    cases h' with
    | ok hafter' =>
      unfold Parser.choose
      dsimp only
      split
      · exact .ok hafter
      · exact .ok hafter'
    | fail => exact .ok hafter
  | fail =>
    cases h' with
    | ok hafter' => exact .ok hafter'
    | fail =>
      unfold Parser.choose
      dsimp only
      split
      · exact .fail
      · exact .fail
      · exact .fail

/-! ## Parsers -/

namespace Checked

open LunSyntax.Parser (Spells)

/-- Wherever it is run on tokens of a source, a checked parser is not cut short and does what a
parser does. -/
def Follows (source : UInt16) (g : Checked α) (p : Parser α) : Prop :=
  ∀ c : Cursor, c.Ready source → g c = some (p c) ∧ (p c).Ready source

namespace Follows

variable {g k : Checked α} {p q : Parser α} {R : α → List Lexeme → Prop}

/-- Where nothing can go wrong, it only matters what comes after. -/
theorem lift (h : ∀ c : Cursor, c.Ready source → (p c).Ready source) :
    Follows source (Checked.lift p) p :=
  fun c hc => ⟨rfl, h c hc⟩

theorem pure (a : α) : Follows source (Pure.pure a : Checked α) (Pure.pure a : Parser α) :=
  .lift fun _ hc => .ok hc

theorem fail {expected : List (Option TokenKind)} :
    Follows source (Checked.lift (Parser.fail expected : Parser α)) (Parser.fail expected) :=
  .lift fun _ _ => .fail

theorem token {f : Lexeme → Option α} {expected : List (Option TokenKind)} :
    Follows source (Checked.lift (Parser.token f expected)) (Parser.token f expected) := by
  refine .lift fun c hc => ?_
  unfold Parser.token
  split
  · rename_i hnext
    split
    · exact .ok ((Cursor.Reaches.of_next? hnext).ready hc)
    · exact .fail
  · exact .fail

theorem just {kind : TokenKind} :
    Follows source (Checked.lift (Parser.just kind)) (Parser.just kind) :=
  token

theorem any : Follows source (Checked.lift Parser.any) Parser.any := token

theorem finish : Follows source (Checked.lift Parser.finish) Parser.finish := by
  refine .lift fun c hc => ?_
  unfold Parser.finish
  split
  · exact .ok hc
  · exact .fail

/-! ### One after the other -/

theorem bind_at {f : α → Parser β} {h : α → Checked β} {c : Cursor}
    (hg : g c = some (p c) ∧ (p c).Ready source)
    (hf : ∀ reported a after alt, p c = ⟨reported, .ok a after alt⟩ → after.Ready source →
      h a after = some (f a after) ∧ (f a after).Ready source) :
    (g >>= h) c = some ((p >>= f) c) ∧ ((p >>= f) c).Ready source := by
  obtain ⟨heq, hready⟩ := hg
  change Checked.bind g h c = some (Parser.bind p f c) ∧ (Parser.bind p f c).Ready source
  unfold Checked.bind Parser.bind
  rw [heq]
  generalize p c = first at hf hready ⊢
  cases hready with
  | fail => exact ⟨rfl, .fail⟩
  | @ok reported a after alt hafter =>
    obtain ⟨hsecond, hlast⟩ := hf reported a after alt rfl hafter
    dsimp only
    rw [hsecond]
    generalize f a after = second at hlast ⊢
    cases hlast with
    | fail => exact ⟨rfl, .fail⟩
    | ok hlast => exact ⟨rfl, .ok hlast⟩

theorem bind {f : α → Parser β} {h : α → Checked β} (hg : Follows source g p)
    (hf : ∀ a, Follows source (h a) (f a)) : Follows source (g >>= h) (p >>= f) := by
  intro c hc
  refine bind_at (hg c hc) fun reported a after alt _ hafter => ?_
  exact hf a after hafter

/-- What comes after may depend on how a value is spelled. -/
theorem bind_spells {f : α → Parser β} {h : α → Checked β} (hp : Spells source p R)
    (hg : Follows source g p)
    (hf : ∀ a used, R a used → (∀ t ∈ used, t.span.start < maxOffset) →
      Follows source (h a) (f a)) :
    Follows source (g >>= h) (p >>= f) := by
  intro c hc
  refine bind_at (hg c hc) fun reported a after alt hout hafter => ?_
  have hmeets := hp c hc.isIn
  rw [hout] at hmeets
  cases hmeets with
  | ok _ _ hreach hr => exact hf a _ hr (hreach.start_lt hc) after hafter

theorem map {f : α → β} (hg : Follows source g p) : Follows source (f <$> g) (f <$> p) :=
  bind hg fun _ => pure _

/-! ### Around one parser -/

theorem withSpan {f : α → Span → β} (hg : Follows source g p) :
    Follows source (Checked.around (Parser.withSpan f) g) (Parser.withSpan f p) := by
  intro c hc
  obtain ⟨heq, hready⟩ := hg c hc
  unfold Checked.around Parser.withSpan
  rw [heq]
  generalize p c = first at hready ⊢
  cases hready with
  | ok hafter => exact ⟨rfl, .ok hafter⟩
  | fail => exact ⟨rfl, .fail⟩

theorem check {f : α → Span → β × List (Span × String)} (hg : Follows source g p) :
    Follows source (Checked.around (Parser.check f) g) (Parser.check f p) := by
  intro c hc
  obtain ⟨heq, hready⟩ := hg c hc
  unfold Checked.around Parser.check
  rw [heq]
  generalize p c = first at hready ⊢
  cases hready with
  | ok hafter => exact ⟨rfl, .ok hafter⟩
  | fail => exact ⟨rfl, .fail⟩

theorem optional (hg : Follows source g p) :
    Follows source (Checked.around Parser.optional g) (Parser.optional p) := by
  intro c hc
  obtain ⟨heq, hready⟩ := hg c hc
  unfold Checked.around Parser.optional
  rw [heq]
  generalize p c = first at hready ⊢
  cases hready with
  | ok hafter => exact ⟨rfl, .ok hafter⟩
  | fail => exact ⟨rfl, .ok hc⟩

theorem recoverDelimited {pair other : Parser.Delimiters} {fallback : Span → α}
    (hg : Follows source g p) :
    Follows source (Checked.around (Parser.recoverDelimited pair other fallback) g)
      (Parser.recoverDelimited pair other fallback p) := by
  intro c hc
  obtain ⟨heq, hready⟩ := hg c hc
  obtain ⟨-, hclosing⟩ := Spells.closing_searches pair other hc.isIn
  unfold Checked.around Parser.recoverDelimited
  rw [heq]
  refine ⟨rfl, ?_⟩
  generalize p c = first at hready ⊢
  cases hready with
  | ok hafter => exact .ok hafter
  | fail =>
    dsimp only
    split
    · exact .fail
    · rename_i after hsearch
      obtain ⟨opening, us, closing, hreach⟩ := hclosing after hsearch
      exact .ok (hreach.ready hc)

/-! ### Choices -/

theorem either (hg : Follows source g p) (hk : Follows source k q) :
    Follows source (Checked.either g k) (p.or q) := by
  intro c hc
  obtain ⟨heq, hready⟩ := hg c hc
  obtain ⟨heq', hready'⟩ := hk c hc
  refine ⟨?_, ?_⟩
  · unfold Checked.either Parser.or
    rw [heq, heq']
    dsimp only
    split
    · rename_i hnone
      cases hnone
    · rename_i hclean
      rw [Option.some.inj hclean]
    · rename_i first hunclean hfirst
      rw [Option.some.inj hfirst]
      rfl
  · rw [Parser.or_eq]
    split
    · exact hready
    · split
      · exact hready'
      · exact hready.choose hready'

/-- Parsers which follow others, one by one. -/
inductive All (source : UInt16) : List (Checked α) → List (Parser α) → Prop
  | nil : All source [] []
  | cons {g : Checked α} {p : Parser α} {gs : List (Checked α)} {ps : List (Parser α)} :
    Follows source g p → All source gs ps → All source (g :: gs) (p :: ps)

theorem firstOf {gs : List (Checked α)} {ps : List (Parser α)} (h : All source gs ps)
    (alt : Option Complaint) : Follows source (Checked.firstOf alt gs) (Parser.firstOf alt ps) := by
  induction h generalizing alt with
  | nil => exact .lift fun _ _ => .fail
  | @cons g p gs ps hg _ ih =>
    intro c hc
    obtain ⟨heq, hready⟩ := hg c hc
    unfold Checked.firstOf Parser.firstOf
    rw [heq]
    generalize p c = first at hready ⊢
    cases hready with
    | ok hafter => exact ⟨rfl, .ok hafter⟩
    | fail => exact ih _ c hc

theorem choice {gs : List (Checked α)} {ps : List (Parser α)} (h : All source gs ps) :
    Follows source (Checked.firstOf none gs) (Parser.choice ps) :=
  firstOf h none

/-! ### Repetition -/

/-- A parser which reads something leaves less. -/
theorem progress (hne : Spells source p fun _ used => used ≠ []) {c after : Cursor}
    {reported : List Complaint} {a : α} {alt : Option Complaint} (hc : c.In source)
    (h : p c = ⟨reported, .ok a after alt⟩) : after.left < c.left := by
  have hmeets := hne c hc
  rw [h] at hmeets
  cases hmeets with
  | ok _ _ hreach hused => exact hreach.left_lt hused

theorem runMany (hne : Spells source p fun _ used => used ≠ []) (hg : Follows source g p)
    (c : Cursor) (hc : c.Ready source) :
    Checked.runMany g c = some (Parser.runMany p c) ∧ (Parser.runMany p c).after.Ready source := by
  fun_induction Parser.runMany p c with
  | case1 c reported complaint hpc =>
    obtain ⟨heq, -⟩ := hg c hc
    rw [Checked.runMany, heq, hpc]
    exact ⟨rfl, hc⟩
  | case2 c reported a after alt hpc hlt more ih =>
    obtain ⟨heq, hready⟩ := hg c hc
    rw [hpc] at heq hready
    cases hready with
    | ok hafter =>
      obtain ⟨hmore, hlast⟩ := ih hafter
      rw [Checked.runMany, heq]
      dsimp only
      rw [if_pos hlt, hmore]
      exact ⟨rfl, hlast⟩
  | case3 c reported a after alt hpc hlt => exact absurd (progress hne hc.isIn hpc) hlt

/-- What is repeated reads something each time. -/
theorem many (hne : Spells source p fun _ used => used ≠ []) (hg : Follows source g p) :
    Follows source (Checked.many g) (Parser.many p) := by
  intro c hc
  obtain ⟨heq, hready⟩ := runMany hne hg c hc
  unfold Checked.many Parser.many
  rw [heq]
  exact ⟨rfl, .ok hready⟩

theorem runSeparated {sep : Parser Unit} {s : Checked Unit}
    (hne : Spells source p fun _ used => used ≠ []) (hg : Follows source g p)
    (hs : Follows source s sep) (hsep : Spells source sep fun _ _ => True)
    (c : Cursor) (hc : c.Ready source) :
    Checked.runSeparated g s c = some (Parser.runSeparated p sep c) ∧
      (Parser.runSeparated p sep c).after.Ready source := by
  fun_induction Parser.runSeparated p sep c with
  | case1 c reported complaint hsc =>
    obtain ⟨heq, -⟩ := hs c hc
    rw [Checked.runSeparated, heq, hsc]
    exact ⟨rfl, hc⟩
  | case2 c reported between sepAlt hsc more complaint hpc =>
    obtain ⟨heq, hready⟩ := hs c hc
    rw [hsc] at heq hready
    cases hready with
    | ok hbetween =>
      obtain ⟨heq', -⟩ := hg between hbetween
      rw [hpc] at heq'
      rw [Checked.runSeparated, heq]
      dsimp only
      rw [heq']
      exact ⟨rfl, hc⟩
  | case3 c reported between sepAlt hsc more a after alt hpc hlt rest ih =>
    obtain ⟨heq, hready⟩ := hs c hc
    rw [hsc] at heq hready
    cases hready with
    | ok hbetween =>
      obtain ⟨heq', hready'⟩ := hg between hbetween
      rw [hpc] at heq' hready'
      cases hready' with
      | ok hafter =>
        obtain ⟨hrest, hlast⟩ := ih hafter
        rw [Checked.runSeparated, heq]
        dsimp only
        rw [heq']
        dsimp only
        rw [if_pos hlt, hrest]
        exact ⟨rfl, hlast⟩
  | case4 c reported between sepAlt hsc more a after alt hpc hlt =>
    -- the item after the separator reads something
    have hmeets := hsep c hc.isIn
    rw [hsc] at hmeets
    cases hmeets with
    | ok _ _ hreach _ =>
      have hitem := progress hne (hreach.isIn hc.isIn) hpc
      have hle : between.left ≤ c.left := by
        rw [between.left_eq, c.left_eq, hreach.passes.rest_eq, List.length_append]
        omega
      omega

theorem sepBy {sep : Parser Unit} {s : Checked Unit}
    (hne : Spells source p fun _ used => used ≠ []) (hg : Follows source g p)
    (hs : Follows source s sep) (hsep : Spells source sep fun _ _ => True) :
    Follows source (Checked.sepBy g s) (Parser.sepBy p sep) := by
  intro c hc
  obtain ⟨heq, hready⟩ := hg c hc
  unfold Checked.sepBy Parser.sepBy
  rw [heq]
  generalize p c = first at hready ⊢
  cases hready with
  | fail => exact ⟨rfl, .ok hc⟩
  | @ok reported a after alt hafter =>
    obtain ⟨hrun, hlast⟩ := runSeparated hne hg hs hsep after hafter
    dsimp only
    rw [hrun]
    dsimp only
    generalize Parser.runSeparated p sep after = run at hlast ⊢
    obtain ⟨heq', hready'⟩ := hs run.after hlast
    rw [heq']
    generalize sep run.after = second at hready' ⊢
    cases hready' with
    | ok hend => exact ⟨rfl, .ok hend⟩
    | fail => exact ⟨rfl, .ok hlast⟩

/-! ### Recovery -/

theorem retry_of_next {c after : Cursor} {t : Lexeme} (hnext : c.next? = some (t, after)) :
    Checked.retry g c = match g after with
      | none => none
      | some ⟨reported, .ok a last alt⟩ => some (some ⟨reported, .ok a last alt⟩)
      | some ⟨_, .fail _⟩ => Checked.retry g after := by
  rw [Checked.retry]
  split
  · rename_i hnone
    rw [hnext] at hnone
    cases hnone
  · rename_i hsome
    rw [hnext] at hsome
    cases hsome
    rfl

theorem retry (hg : Follows source g p) (c : Cursor) (hc : c.Ready source) :
    Checked.retry g c = some (Parser.retry p c) ∧
      ∀ o ∈ Parser.retry p c, o.Ready source := by
  fun_induction Parser.retry p c with
  | case1 c hnext =>
    refine ⟨?_, by simp⟩
    rw [Checked.retry]
    split
    · rfl
    · rename_i hsome
      rw [hnext] at hsome
      cases hsome
  | case2 c t after hnext hlt reported a last alt hpc =>
    obtain ⟨heq, hready⟩ := hg after ((Cursor.Reaches.of_next? hnext).ready hc)
    rw [hpc] at heq hready
    rw [retry_of_next hnext, heq]
    refine ⟨rfl, ?_⟩
    rintro _ ⟨⟩
    exact hready
  | case3 c t after hnext hlt reported e hpc ih =>
    have hafter := (Cursor.Reaches.of_next? hnext).ready hc
    obtain ⟨heq, -⟩ := hg after hafter
    rw [hpc] at heq
    rw [retry_of_next hnext, heq]
    exact ih hafter

theorem recoverSkipping (hg : Follows source g p) :
    Follows source (Checked.recoverSkipping g) (Parser.recoverSkipping p) := by
  intro c hc
  obtain ⟨heq, hready⟩ := hg c hc
  obtain ⟨hretry, hlater⟩ := retry hg c hc
  unfold Checked.recoverSkipping Parser.recoverSkipping
  rw [heq, hretry]
  generalize p c = first at hready ⊢
  cases hready with
  | ok hafter => exact ⟨rfl, .ok hafter⟩
  | fail =>
    dsimp only
    generalize Parser.retry p c = found at hlater ⊢
    cases found with
    | none => exact ⟨rfl, .fail⟩
    | some o =>
      refine ⟨rfl, ?_⟩
      cases hlater o rfl with
      | ok hlast => exact .ok hlast
      | fail => exact .fail

/-! ### Spans -/

/-- Spans of one source can be merged. -/
theorem merge {a b : Span} (h : a.source = b.source) :
    Follows source (Checked.merge a b) (Parser.merge a b) := by
  refine fun c hc => ⟨?_, .ok hc⟩
  unfold Checked.merge Span.merge?
  rw [if_pos h]
  rfl

theorem nextOffset {offset : Nat} (h : offset < maxOffset) :
    Follows source (Checked.nextOffset offset) (Parser.nextOffset offset) := by
  refine fun c hc => ⟨?_, .ok hc⟩
  unfold Checked.nextOffset
  rw [if_pos h]
  rfl

theorem deferred {h : Nat → Checked α} {f : Nat → Parser α}
    (hf : ∀ left, Follows source (h left) (f left)) :
    Follows source (Combinators.deferred h) (Combinators.deferred f) :=
  fun c hc => hf c.left c hc

end Follows

end Checked

end LunSyntax
