import LunSyntax.Proofs.Parser.Blindness
import LunSyntax.Proofs.Token.Shifting

/-!
# Parsers further on

Tokens which stand further on in a source are read to the same syntax, further on, and with the same
complaints, further on.

* `Cursor.shift`, `Complaint.shift`, `Outcome.shift`: places, complaints and outcomes moved on;
* `Parser.Shifts`: parsers which commute with that.  How values are moved on is up to a function.
  There is one lemma for each way to combine parsers.
-/

set_option autoImplicit false

namespace LunSyntax

/-! ## Places and outcomes moved on -/

section

variable (k : Nat)

/-- A token for the grammar, moved on. -/
def Lexeme.shift (t : Lexeme) : Lexeme := ⟨t.node.shift k, t.span.shift k⟩

/-- A place, moved on with all tokens ahead. -/
def Cursor.shift (c : Cursor) : Cursor :=
  ⟨c.rest.map (Lexeme.shift k), c.left, c.lastStop + k, c.finish.shift k, by simp [c.left_eq]⟩

def Complaint.shift : Complaint → Complaint :=
  Complaint.mapPlaces (Span.shift k) (TokenKind.shift k)

def Reply.shift {α : Type} (m : α → α) : Reply α → Reply α
  | ok x after alt => .ok (m x) (after.shift k) (alt.map (Complaint.shift k))
  | fail complaint => .fail (complaint.shift k)

def Outcome.shift {α : Type} (m : α → α) (o : Outcome α) : Outcome α :=
  ⟨o.reported.map (Complaint.shift k), o.reply.shift k m⟩

end

variable {k : Nat}

/-- Only literals change. -/
theorem TokenKind.shift_eq_iff {t kind : TokenKind} (h : kind.isLiteral = false) :
    t.shift k = kind ↔ t = kind := by
  cases t with
  | literal lit =>
    refine iff_of_false ?_ ?_ <;>
    · rintro rfl
      cases h
  | _ => rfl

namespace Span

theorem cover_shift (a b : Span) : (a.shift k).cover (b.shift k) = (a.cover b).shift k := by
  simp only [cover, shift, Nat.add_min_add_right, Nat.add_max_add_right]

theorem inner_shift (s : Span) : (s.shift k).inner = s.inner.shift k := by
  have hlength : (s.shift k).length = s.length := Nat.add_sub_add_right ..
  unfold inner
  rw [hlength]
  split
  · rename_i hlong
    have hstop : 1 ≤ s.stop := by
      unfold length at hlong
      omega
    simp only [shift, mk.injEq, true_and]
    omega
  · rfl

end Span

namespace Cursor

theorem next?_shift (c : Cursor) :
    (c.shift k).next? = c.next?.map fun x => (x.1.shift k, x.2.shift k) := by
  obtain ⟨_ | ⟨t, rest⟩, left, lastStop, finish, hleft⟩ := c
  · rfl
  · rfl

theorem here_shift (c : Cursor) : (c.shift k).here = c.here.shift k := by
  obtain ⟨_ | ⟨t, rest⟩, left, lastStop, finish, hleft⟩ := c
  · rfl
  · rfl

theorem found_shift (c : Cursor) : (c.shift k).found = c.found.map (TokenKind.shift k) := by
  obtain ⟨_ | ⟨t, rest⟩, left, lastStop, finish, hleft⟩ := c
  · rfl
  · rfl

theorem unexpected_shift (c : Cursor) (expected : List (Option TokenKind)) :
    (c.shift k).unexpected expected = (c.unexpected expected).shift k := by
  unfold unexpected
  rw [here_shift, found_shift]
  rfl

theorem spanTo_shift (c after : Cursor) :
    (c.shift k).spanTo (after.shift k) = (c.spanTo after).shift k := by
  unfold spanTo
  rw [here_shift]
  change Span.mk _ _ (if after.left < c.left then _ else _) = _
  split
  · rfl
  · rfl

end Cursor

namespace Complaint

theorem joinOption_shift (a : Complaint) (o : Option Complaint) :
    (a.shift k).joinOption (o.map (shift k)) = (a.joinOption o).shift k :=
  (mapPlaces_joinOption (Span.shift k) (TokenKind.shift k) a o).symm

theorem joinOptions_shift (o p : Option Complaint) :
    joinOptions (o.map (shift k)) (p.map (shift k)) = (joinOptions o p).map (shift k) :=
  (mapPlaces_joinOptions (Span.shift k) (TokenKind.shift k) o p).symm

theorem joinAll_shift (a : Complaint) (as : List Complaint) :
    (a.shift k).joinAll (as.map (shift k)) = (a.joinAll as).shift k :=
  (mapPlaces_joinAll (Span.shift k) (TokenKind.shift k) a as).symm

theorem foldl_joinOptions_shift (o : Option Complaint) (as : List Complaint) :
    (as.map (shift k)).foldl (fun acc a => joinOptions acc (some a)) (o.map (shift k)) =
      (as.foldl (fun acc a => joinOptions acc (some a)) o).map (shift k) :=
  (mapPlaces_foldl_joinOptions (Span.shift k) (TokenKind.shift k) o as).symm

end Complaint

namespace Parser

variable {α β : Type} {m : α → α} {m' : β → β}

theorem shorter_shift (as bs : List Complaint) :
    shorter (as.map (Complaint.shift k)) (bs.map (Complaint.shift k)) = shorter as bs := by
  simp only [shorter, List.length_map]

theorem furtherLast_shift (o p : Option Complaint) :
    furtherLast (o.map (Complaint.shift k)) (p.map (Complaint.shift k)) = furtherLast o p := by
  cases o <;> cases p <;> rfl

theorem choose_shift (o o' : Outcome α) :
    choose (o.shift k m) (o'.shift k m) = (choose o o').shift k m := by
  obtain ⟨as, reply⟩ := o
  obtain ⟨bs, reply'⟩ := o'
  cases reply with
  | ok x after alt =>
    cases reply' with
    | fail e' => rfl
    | ok y after' alt' =>
      simp only [choose, Outcome.shift, Reply.shift, shorter_shift, furtherLast_shift,
        List.getLast?_map]
      split
      · rfl
      · rfl
  | fail e =>
    cases reply' with
    | ok y after' alt' => rfl
    | fail e' =>
      have hfar := furtherLast_shift (k := k) (some e) (some e')
      simp only [Option.map_some] at hfar
      simp only [choose, Outcome.shift, Reply.shift, shorter_shift, furtherLast_shift, hfar,
        List.getLast?_map]
      split
      · rfl
      · rfl
      · exact congrArg (fun e => Outcome.mk _ (.fail e))
          (Complaint.mapPlaces_join (Span.shift k) (TokenKind.shift k) e e').symm

/-! ## Parsers -/

/-- At tokens which are moved on, the second parser has the outcome of the first one, moved on. -/
def Shifts (k : Nat) (m : α → α) (p q : Parser α) : Prop :=
  ∀ c : Cursor, q (c.shift k) = (p c).shift k m

theorem closingOf_shift {pair other : Delimiters} (hpair : pair.Plain) (hother : other.Plain)
    (depth : Nat) (others : Int) (e : Option Complaint) (c : Cursor) :
    closingOf pair other depth others (e.map (Complaint.shift k)) (c.shift k) =
      ⟨(closingOf pair other depth others e c).after.map (Cursor.shift k),
        (closingOf pair other depth others e c).complaint.map (Complaint.shift k)⟩ := by
  have hunclosed : ∀ (e : Option Complaint) (c : Cursor),
      (e.map (Complaint.shift k)).or (some (unclosed pair (c.shift k))) =
        (e.or (some (unclosed pair c))).map (Complaint.shift k) := by
    intro e c
    cases e with
    | some e => rfl
    | none =>
      unfold unclosed
      rw [c.here_shift, c.found_shift]
      rfl
  induction hn : c.left using Nat.strongRecOn generalizing depth others e c with
  | ind n ih =>
    cases hnext : c.next? with
    | none =>
      have hrest := Cursor.rest_of_next?_none hnext
      have hrest' : (c.shift k).rest = [] := by simp [Cursor.shift, hrest]
      rw [closingOf_of_rest_nil hrest, closingOf_of_rest_nil hrest', hunclosed]
      split
      · rfl
      · rfl
    | some x =>
      obtain ⟨t, after⟩ := x
      have hnext' : (c.shift k).next? = some (t.shift k, after.shift k) := by
        rw [c.next?_shift, hnext]
        rfl
      have hlt := Cursor.left_lt_of_next? hnext
      have ih := fun depth others e => ih after.left (by omega) depth others e after rfl
      rw [closingOf_of_next hnext, closingOf_of_next hnext']
      simp only [Lexeme.shift, TokenKind.shift_eq_iff hpair.1, TokenKind.shift_eq_iff hpair.2,
        TokenKind.shift_eq_iff hother.1, TokenKind.shift_eq_iff hother.2]
      split
      · exact ih _ _ _
      · split
        · split
          · rfl
          · exact ih _ _ _
        · split
          · exact ih _ _ _
          · split
            · rw [hunclosed, ← apply_ite (Option.map (Complaint.shift k))]
              exact ih _ _ _
            · exact ih _ _ _

theorem closing_shift {pair other : Delimiters} (hpair : pair.Plain) (hother : other.Plain)
    (c : Cursor) :
    closing pair other (c.shift k) = ⟨(closing pair other c).after.map (Cursor.shift k),
      (closing pair other c).complaint.map (Complaint.shift k)⟩ := by
  unfold closing
  rw [c.next?_shift]
  cases c.next? with
  | none => rfl
  | some x =>
    simp only [Option.map_some, Lexeme.shift, TokenKind.shift_eq_iff hpair.1]
    split
    · exact closingOf_shift hpair hother 1 0 none x.2
    · rfl

namespace Shifts

variable {p q p' q' : Parser α}

theorem pure (x : α) : Shifts k m (Pure.pure x) (Pure.pure (m x)) := fun _ => rfl

theorem fail (expected : List (Option TokenKind)) :
    Shifts k m (Parser.fail expected) (Parser.fail expected) := by
  intro c
  unfold Parser.fail
  rw [c.unexpected_shift]
  rfl

theorem bind {f g : α → Parser β} (h : Shifts k m p q)
    (hf : ∀ x, Shifts k m' (f x) (g (m x))) : Shifts k m' (p >>= f) (q >>= g) := by
  intro c
  change Parser.bind q g (c.shift k) = (Parser.bind p f c).shift k m'
  unfold Parser.bind
  rw [h c]
  obtain ⟨reported, reply⟩ := p c
  cases reply with
  | fail e => rfl
  | ok x after alt =>
    simp only [Outcome.shift, Reply.shift]
    rw [hf x after]
    obtain ⟨more, reply⟩ := f x after
    cases reply with
    | fail e => simp only [Outcome.shift, Reply.shift, Complaint.joinOption_shift, List.map_append]
    | ok y last alt' =>
      simp only [Outcome.shift, Reply.shift, Complaint.joinOptions_shift, List.map_append]

theorem map {f g : α → β} (h : Shifts k m p q) (hf : ∀ x, g (m x) = m' (f x)) :
    Shifts k m' (f <$> p) (g <$> q) :=
  bind h fun x => by
    change Shifts k m' (Pure.pure (f x)) (Pure.pure (g (m x)))
    rw [hf x]
    exact pure (f x)

theorem token {f g : Lexeme → Option α} {expected : List (Option TokenKind)}
    (h : ∀ t, g (t.shift k) = (f t).map m) :
    Shifts k m (Parser.token f expected) (Parser.token g expected) := by
  intro c
  unfold Parser.token
  rw [c.next?_shift, c.unexpected_shift]
  cases c.next? with
  | none => rfl
  | some x =>
    simp only [Option.map_some, h]
    cases f x.1 with
    | none => rfl
    | some y => rfl

theorem just {kind : TokenKind} (h : kind.isLiteral = false) :
    Shifts k id (Parser.just kind) (Parser.just kind) := by
  refine token fun t => ?_
  simp only [Lexeme.shift, TokenKind.shift_eq_iff h]
  split
  · rfl
  · rfl

theorem withSpan {f g : α → Span → β} (h : Shifts k m p q)
    (hf : ∀ x s, g (m x) (s.shift k) = m' (f x s)) :
    Shifts k m' (Parser.withSpan f p) (Parser.withSpan g q) := by
  intro c
  unfold Parser.withSpan
  rw [h c]
  obtain ⟨reported, reply⟩ := p c
  cases reply with
  | fail e => rfl
  | ok x after alt =>
    simp only [Outcome.shift, Reply.shift]
    rw [c.spanTo_shift, hf]

theorem check {f g : α → Span → β × List (Span × String)} (h : Shifts k m p q)
    (hf : ∀ x s, g (m x) (s.shift k) =
      (m' (f x s).1, (f x s).2.map fun message => (message.1.shift k, message.2))) :
    Shifts k m' (Parser.check f p) (Parser.check g q) := by
  intro c
  unfold Parser.check
  rw [h c]
  obtain ⟨reported, reply⟩ := p c
  cases reply with
  | fail e => rfl
  | ok x after alt =>
    simp only [Outcome.shift, Reply.shift]
    rw [c.spanTo_shift, hf]
    simp only [List.map_append, List.map_map]
    rfl

/-! ### Choices -/

theorem isClean_shift (o : Outcome α) : (o.shift k m).isClean = o.isClean := by
  obtain ⟨reported, reply⟩ := o
  cases reported <;> cases reply <;> rfl

theorem or (h : Shifts k m p q) (h' : Shifts k m p' q') : Shifts k m (p.or p') (q.or q') := by
  intro c
  rw [or_eq, or_eq, h c, h' c, isClean_shift, isClean_shift]
  split
  · rfl
  · split
    · rfl
    · exact choose_shift _ _

/-- Parsers which commute with moving on, one by one. -/
def All (k : Nat) (m : α → α) : List (Parser α) → List (Parser α) → Prop
  | [], [] => True
  | p :: ps, q :: qs => Shifts k m p q ∧ All k m ps qs
  | _, _ => False

theorem firstOf {ps qs : List (Parser α)} (h : All k m ps qs) (alt : Option Complaint) :
    Shifts k m (Parser.firstOf alt ps) (Parser.firstOf (alt.map (Complaint.shift k)) qs) := by
  induction ps generalizing qs alt with
  | nil =>
    cases qs with
    | cons q qs => exact h.elim
    | nil =>
      intro c
      unfold Parser.firstOf
      rw [c.unexpected_shift]
      cases alt with
      | none => rfl
      | some a => rfl
  | cons p ps ih =>
    cases qs with
    | nil => exact h.elim
    | cons q qs =>
      intro c
      unfold Parser.firstOf
      rw [h.1 c]
      obtain ⟨reported, reply⟩ := p c
      cases reply with
      | ok x after alt' => rfl
      | fail e =>
        have hjoin := Complaint.joinOptions_shift (k := k) alt (some e)
        simp only [Option.map_some] at hjoin
        simp only [Outcome.shift, Reply.shift, hjoin]
        exact ih h.2 _ c

theorem choice {ps qs : List (Parser α)} (h : All k m ps qs) :
    Shifts k m (Parser.choice ps) (Parser.choice qs) :=
  firstOf h none

theorem optional (h : Shifts k m p q) :
    Shifts k (Option.map m) (Parser.optional p) (Parser.optional q) := by
  intro c
  unfold Parser.optional
  rw [h c]
  obtain ⟨reported, reply⟩ := p c
  cases reply with
  | fail e => rfl
  | ok x after alt => rfl

/-! ### Repetition -/

/-- Values read one after the other, moved on. -/
def Run.shift (k : Nat) (m : α → α) (run : Run α) : Run α :=
  ⟨run.reported.map (Complaint.shift k), run.values.map m, run.after.shift k,
    run.alt.map (Complaint.shift k)⟩

theorem runMany (h : Shifts k m p q) (c : Cursor) :
    Parser.runMany q (c.shift k) = Run.shift k m (Parser.runMany p c) := by
  induction hn : c.left using Nat.strongRecOn generalizing c with
  | ind n ih =>
    have hq := h c
    cases hp : p c with
    | mk reported reply =>
      rw [hp] at hq
      cases reply with
      | fail e =>
        rw [runMany_of_fail hp, runMany_of_fail hq, Complaint.joinAll_shift]
        rfl
      | ok x after alt =>
        by_cases hlt : after.left < c.left
        · have ih := ih after.left (by omega) after rfl
          rw [runMany_of_ok hp hlt, runMany_of_ok hq hlt, ih]
          simp only [Run.shift, List.map_append, List.map_cons, Complaint.joinOptions_shift]
        · rw [runMany_of_stuck hp hlt, runMany_of_stuck hq hlt]
          rfl

theorem many (h : Shifts k m p q) : Shifts k (List.map m) (Parser.many p) (Parser.many q) := by
  intro c
  unfold Parser.many
  rw [runMany h c]
  rfl

theorem runSeparated {sep : Parser Unit} (hsep : Shifts k id sep sep) (h : Shifts k m p q)
    (c : Cursor) :
    Parser.runSeparated q sep (c.shift k) = Run.shift k m (Parser.runSeparated p sep c) := by
  induction hn : c.left using Nat.strongRecOn generalizing c with
  | ind n ih =>
    rw [Parser.runSeparated, Parser.runSeparated, hsep c]
    obtain ⟨reported, reply⟩ := sep c
    cases reply with
    | fail e => rfl
    | ok _ between alt =>
      simp only [Outcome.shift, Reply.shift]
      rw [h between]
      obtain ⟨more, reply⟩ := p between
      cases reply with
      | fail e =>
        have hjoin := Complaint.joinOptions_shift (k := k) alt (some e)
        simp only [Option.map_some] at hjoin
        simp only [Outcome.shift, Reply.shift, Run.shift, hjoin, List.map_append, List.map_nil]
      | ok x after alt' =>
        simp only [Outcome.shift, Reply.shift, Complaint.joinOptions_shift]
        change (if after.left < c.left then _ else _) = _
        by_cases hlt : after.left < c.left
        · rw [if_pos hlt, if_pos hlt, ih after.left (by omega) after rfl]
          simp only [Run.shift, List.map_append, List.map_cons, Complaint.joinOptions_shift]
        · rw [if_neg hlt, if_neg hlt]
          simp only [Run.shift, List.map_append, List.map_cons, List.map_nil]

theorem sepBy {sep : Parser Unit} (hsep : Shifts k id sep sep) (h : Shifts k m p q) :
    Shifts k (List.map m) (Parser.sepBy p sep) (Parser.sepBy q sep) := by
  intro c
  unfold Parser.sepBy
  rw [h c]
  obtain ⟨reported, reply⟩ := p c
  cases reply with
  | fail e => rfl
  | ok x after alt =>
    simp only [Outcome.shift, Reply.shift]
    rw [runSeparated hsep h after]
    generalize Parser.runSeparated p sep after = run
    simp only [Run.shift]
    rw [hsep run.after]
    obtain ⟨more, reply⟩ := sep run.after
    cases reply with
    | fail e =>
      have hjoin := Complaint.joinOptions_shift (k := k) (Complaint.joinOptions alt run.alt)
        (some (e.joinAll more))
      simp only [Option.map_some] at hjoin
      simp only [Outcome.shift, Reply.shift, Complaint.joinOptions_shift, Complaint.joinAll_shift,
        hjoin, List.map_append, List.map_cons]
    | ok _ last alt' =>
      simp only [Outcome.shift, Reply.shift, Complaint.joinOptions_shift,
        Complaint.foldl_joinOptions_shift, List.map_append, List.map_cons]

/-! ### Recovery -/

theorem recoverDelimited {pair other : Delimiters} {f g : Span → α} (hpair : pair.Plain)
    (hother : other.Plain) (h : Shifts k m p q) (hf : ∀ s, g (s.shift k) = m (f s)) :
    Shifts k m (Parser.recoverDelimited pair other f p)
      (Parser.recoverDelimited pair other g q) := by
  intro c
  unfold Parser.recoverDelimited
  rw [h c, closing_shift hpair hother]
  obtain ⟨reported, reply⟩ := p c
  cases reply with
  | ok x after alt => rfl
  | fail e =>
    simp only [Outcome.shift, Reply.shift]
    have hreports : reported.map (Complaint.shift k) ++
        ((closing pair other c).complaint.map (Complaint.shift k)).toList =
          (reported ++ (closing pair other c).complaint.toList).map (Complaint.shift k) := by
      rw [List.map_append, Option.toList_map]
    rw [hreports, List.getLast?_map]
    generalize reported ++ (closing pair other c).complaint.toList = reports
    cases (closing pair other c).after with
    | none => rfl
    | some after =>
      simp only [Option.map_some, c.spanTo_shift, hf]
      cases reports.getLast? with
      | none => simp
      | some last =>
        simp only [Option.map_some]
        change Outcome.mk (if decide (e.left ≤ last.left) = true then _ else _) _ = _
        split
        · rfl
        · simp

end Shifts

end Parser

end LunSyntax
