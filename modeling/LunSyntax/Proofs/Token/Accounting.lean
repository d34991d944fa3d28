import LunSyntax.Proofs.Token.Rules

/-!
# Accounting for a source

Every char of a source is a blank, in one token or reported, and nothing else is reported.

* `scan_tokens`, `scan_faults`: tokens and faults stand in order;
* `scan_unexpected`, `scan_escapes`, `scan_unterminated`: which faults there are;
* `joinRuns_covers`, `joinRuns_apart`: joining adjacent reports leaves maximal runs;
* `lex_accounts`: the diagnostics of a source, told from its tokens and chars.
-/

set_option autoImplicit false

namespace LunSyntax

/-! ## Scanning -/

/-- What is left after a token at the head. -/
theorem drop_token {offset : Nat} {c : Char} {rest : List Char} {m : Match}
    (h : scanToken offset (c :: rest) = some m) :
    rest.drop (m.length - 1) = (c :: rest).drop m.length ∧
      offset + m.length + (rest.drop (m.length - 1)).length = offset + (c :: rest).length := by
  obtain ⟨hpos, hle⟩ := scanToken_length h
  obtain ⟨n, hn⟩ : ∃ n, m.length = n + 1 := ⟨m.length - 1, by omega⟩
  refine ⟨by rw [hn]; simp, ?_⟩
  rw [List.length_drop]
  rw [List.length_cons] at hle ⊢
  omega

/-- Tokens stand one after the other. -/
theorem scan_tokens (offset : Nat) (cs : List Char) :
    InOrder (offset + cs.length) offset ((scan offset cs).tokens.map Token.extent) := by
  fun_induction scan offset cs with
  | case1 offset => exact .nil (Nat.le_add_right _ _)
  | case2 offset c rest hblank ih =>
    rw [List.length_cons, show offset + (rest.length + 1) = offset + 1 + rest.length by omega]
    exact ih.from_lower (Nat.le_succ _)
  | case3 offset c rest hblank m hm after ih =>
    have hpos := (scanToken_length hm).1
    rw [(drop_token hm).2] at ih
    exact .cons (Nat.le_refl _) (by dsimp only; omega) ih
  | case4 offset c rest hblank hm after ih =>
    rw [List.length_cons, show offset + (rest.length + 1) = offset + 1 + rest.length by omega]
    exact ih.from_lower (Nat.le_succ _)

/-- The faults of a token stand one after the other inside it. -/
theorem scanToken_inOrder {offset : Nat} {cs : List Char} {m : Match}
    (h : scanToken offset cs = some m) :
    InOrder (offset + m.length) offset (m.faults.map LexicalFault.extent) := by
  rcases scanToken_faults h with ⟨-, hf, hord⟩ | ⟨-, hf, -⟩
  · rw [hf, List.map_map]
    simpa [Function.comp_def, LexicalFault.extent] using hord
  · rw [hf]
    have := (scanToken_length h).1
    exact .cons (Nat.le_refl _) (by simp [LexicalFault.extent]; omega) (.nil (Nat.le_refl _))

/-- Faults stand one after the other. -/
theorem scan_faults (offset : Nat) (cs : List Char) :
    InOrder (offset + cs.length) offset ((scan offset cs).faults.map LexicalFault.extent) := by
  fun_induction scan offset cs with
  | case1 offset => exact .nil (Nat.le_add_right _ _)
  | case2 offset c rest hblank ih =>
    rw [List.length_cons, show offset + (rest.length + 1) = offset + 1 + rest.length by omega]
    exact ih.from_lower (Nat.le_succ _)
  | case3 offset c rest hblank m hm after ih =>
    rw [(drop_token hm).2] at ih
    rw [List.map_append]
    exact (scanToken_inOrder hm).append ih
  | case4 offset c rest hblank hm after ih =>
    rw [List.length_cons, show offset + (rest.length + 1) = offset + 1 + rest.length by omega]
    exact .cons (Nat.le_refl _) (Nat.lt_succ_self _) ih

/-- A char which is no blank stands at an offset, in none of some tokens.  The text starts at
`offset`. -/
structure LooseFrom (offset : Nat) (cs : List Char) (tokens : List Token) (i : Nat) : Prop where
  char : ∃ c, offset ≤ i ∧ cs[i - offset]? = some c ∧ isBlank c = false
  outside : ∀ t ∈ tokens, ¬ t.extent.Holds i

/-- Chars at the head of a text which are blank or in a token are not loose. -/
theorem looseFrom_skip (offset n i : Nat) (cs : List Char) (head tokens : List Token)
    (hhead : ∀ t ∈ head, t.extent.stop ≤ offset + n)
    (hskip : ∀ i, offset ≤ i → i < offset + n → ¬ LooseFrom offset cs (head ++ tokens) i) :
    LooseFrom offset cs (head ++ tokens) i ↔ LooseFrom (offset + n) (cs.drop n) tokens i := by
  constructor
  · intro h
    obtain ⟨⟨c, hi, hc, hb⟩, hout⟩ := id h
    have hge : offset + n ≤ i := by
      by_cases hlt : i < offset + n
      · exact absurd h (hskip i hi hlt)
      · omega
    refine ⟨⟨c, hge, ?_, hb⟩, fun t ht => hout t (by simp [ht])⟩
    rw [List.getElem?_drop, show n + (i - (offset + n)) = i - offset by omega, hc]
  · rintro ⟨⟨c, hi, hc, hb⟩, hout⟩
    rw [List.getElem?_drop, show n + (i - (offset + n)) = i - offset by omega] at hc
    refine ⟨⟨c, by omega, hc, hb⟩, ?_⟩
    intro t ht hholds
    rcases List.mem_append.1 ht with ht | ht
    · have := hhead t ht
      have := hholds.2
      omega
    · exact hout t ht hholds

theorem not_mem_unexpected {offset : Nat} {cs : List Char} {m : Match}
    (h : scanToken offset cs = some m) (e : Extent) : .unexpected e ∉ m.faults := by
  rcases scanToken_faults h with ⟨-, hf, -⟩ | ⟨-, hf, -⟩ <;> simp [hf]

/-- **The chars that are reported one by one are the loose ones.** -/
theorem scan_unexpected (offset : Nat) (cs : List Char) (e : Extent) :
    .unexpected e ∈ (scan offset cs).faults ↔
      LooseFrom offset cs (scan offset cs).tokens e.start ∧ e.stop = e.start + 1 := by
  fun_induction scan offset cs with
  | case1 offset =>
    simp only [List.not_mem_nil, false_iff]
    rintro ⟨⟨⟨c, -, hc, -⟩, -⟩, -⟩
    simp at hc
  | case2 offset c rest hblank ih =>
    rw [ih]
    have hskip := looseFrom_skip offset 1 e.start (c :: rest) [] (scan (offset + 1) rest).tokens
      (by simp) ?_
    · rw [List.nil_append] at hskip
      rw [hskip, List.drop_succ_cons, List.drop_zero]
    · rintro i hi hlt ⟨⟨c', -, hc, hb⟩, -⟩
      rw [show i - offset = 0 by omega] at hc
      cases hc
      simp [hblank] at hb
  | case3 offset c rest hblank m hm after ih =>
    have hskip := looseFrom_skip offset m.length e.start (c :: rest)
      [⟨m.kind, offset, offset + m.length⟩] after.tokens (by simp) ?_
    · rw [List.singleton_append] at hskip
      rw [hskip, ← (drop_token hm).1, ← ih, List.mem_append]
      simp [not_mem_unexpected hm, after]
    · rintro i hi hlt ⟨-, hout⟩
      exact hout ⟨m.kind, offset, offset + m.length⟩ (by simp) ⟨hi, hlt⟩
  | case4 offset c rest hblank hm after ih =>
    -- the head itself is loose, since all tokens come after it
    have hhead : LooseFrom offset (c :: rest) after.tokens offset := by
      refine ⟨⟨c, Nat.le_refl _, by simp, by simpa using hblank⟩, fun t ht hholds => ?_⟩
      have := (scan_tokens (offset + 1) rest).bounds (List.mem_map_of_mem ht)
      have := hholds.1
      omega
    rw [List.mem_cons, LexicalFault.unexpected.injEq, ih]
    constructor
    · rintro (rfl | ⟨⟨⟨c', hi, hc, hb⟩, hout⟩, hstop⟩)
      · exact ⟨hhead, rfl⟩
      · refine ⟨⟨⟨c', by omega, ?_, hb⟩, hout⟩, hstop⟩
        rwa [show e.start - offset = e.start - (offset + 1) + 1 by omega, List.getElem?_cons_succ]
    · rintro ⟨⟨⟨c', hi, hc, hb⟩, hout⟩, hstop⟩
      by_cases heq : e.start = offset
      · left
        rw [← heq, ← hstop]
      · refine .inr ⟨⟨⟨c', by omega, ?_, hb⟩, hout⟩, hstop⟩
        rwa [show e.start - offset = e.start - (offset + 1) + 1 by omega,
          List.getElem?_cons_succ] at hc

/-- Whether a fault is a code of no char. -/
def LexicalFault.isEscape : LexicalFault → Bool
  | invalidCodePoint _ => true
  | _ => false

/-- **The bad escapes of all string tokens are reported, each once.** -/
theorem scan_escapes (offset : Nat) (cs : List Char) :
    (scan offset cs).faults.filter LexicalFault.isEscape =
      ((scan offset cs).tokens.flatMap Token.badEscapes).map .invalidCodePoint := by
  fun_induction scan offset cs with
  | case1 offset => rfl
  | case2 offset c rest hblank ih => exact ih
  | case3 offset c rest hblank m hm after ih =>
    rw [List.filter_append, ih, List.flatMap_cons, List.map_append]
    congr 1
    rcases scanToken_faults hm with ⟨-, hf, -⟩ | ⟨⟨hk, -⟩, hf, -⟩
    · rw [hf, List.filter_eq_self]
      simp [LexicalFault.isEscape]
    · rw [hf]
      simp only [Token.badEscapes] at hk ⊢
      rw [hk]
      rfl
  | case4 offset c rest hblank hm after ih =>
    rw [List.filter_cons_of_neg (by simp [LexicalFault.isEscape])]
    exact ih

/-- **A block comment is reported as unterminated iff it is the last token and never closed.** -/
theorem scan_unterminated (offset : Nat) (cs : List Char) (e : Extent) :
    .unterminatedComment e ∈ (scan offset cs).faults ↔
      ∃ t ∈ (scan offset cs).tokens.getLast?, t.OpenComment ∧ t.extent = e := by
  fun_induction scan offset cs with
  | case1 offset => simp
  | case2 offset c rest hblank ih => exact ih
  | case3 offset c rest hblank m hm after ih =>
    rw [List.mem_append]
    rcases scanToken_faults hm with ⟨hclosed, hf, -⟩ | ⟨hopen, hf, hlen⟩
    · have hnot : .unterminatedComment e ∉ m.faults := by simp [hf]
      rw [or_iff_right hnot, ih]
      cases htokens : after.tokens with
      | nil =>
        simp only [after] at htokens
        simpa [htokens] using fun h => absurd h hclosed
      | cons t ts =>
        dsimp only
        rw [List.getLast?_cons_cons]
    · -- an open comment takes the rest of the text
      have hnil : rest.drop (m.length - 1) = [] := by
        rw [(drop_token hm).1, hlen, List.drop_length]
      have hscan : after = ⟨[], []⟩ := by simp only [after]; rw [hnil, scan]
      rw [hscan, hf]
      simpa [eq_comm] using fun _ => hopen
  | case4 offset c rest hblank hm after ih =>
    rw [List.mem_cons, or_iff_right (by simp)]
    exact ih

/-! ## Joining -/

/-- Joining keeps the order. -/
theorem joinRuns_inOrder {faults : List LexicalFault} {hi lo : Nat}
    (h : InOrder hi lo (faults.map LexicalFault.extent)) :
    InOrder hi lo ((joinRuns faults).map LexicalFault.extent) := by
  fun_induction joinRuns faults generalizing lo with
  | case1 a rest b more hrest hjoin ih =>
    obtain _ | ⟨h1, h2, h3⟩ := h
    have hrun := ih h3
    rw [hrest] at hrun
    obtain _ | ⟨h4, h5, h6⟩ := hrun
    refine .cons h1 ?_ h6
    simp only [LexicalFault.extent] at h2 h4 h5 ⊢
    omega
  | case2 a rest b more hrest hjoin ih =>
    obtain _ | ⟨h1, h2, h3⟩ := h
    rw [← hrest]
    exact .cons h1 h2 (ih h3)
  | case3 a rest hne ih =>
    obtain _ | ⟨h1, h2, h3⟩ := h
    exact .cons h1 h2 (ih h3)
  | case4 fault rest hne ih =>
    obtain _ | ⟨h1, h2, h3⟩ := h
    exact .cons h1 h2 (ih h3)
  | case5 => exact h

/-- Joining leaves all faults but those of loose chars. -/
theorem joinRuns_filter (P : LexicalFault → Bool) (hP : ∀ e, P (.unexpected e) = false)
    (faults : List LexicalFault) : (joinRuns faults).filter P = faults.filter P := by
  fun_induction joinRuns faults with
  | case1 a rest b more hrest hjoin ih =>
    rw [hrest] at ih
    simpa [hP] using ih
  | case2 a rest b more hrest hjoin ih =>
    rw [hrest] at ih
    simpa [hP] using ih
  | case3 a rest hne ih => simpa [hP] using ih
  | case4 fault rest hne ih => rw [List.filter_cons, List.filter_cons, ih]
  | case5 => rfl

/-- The reported chars are the same before and after joining. -/
theorem joinRuns_covers {faults : List LexicalFault} {hi lo : Nat}
    (h : InOrder hi lo (faults.map LexicalFault.extent)) (i : Nat) :
    (∃ e, .unexpected e ∈ joinRuns faults ∧ e.Holds i) ↔
      ∃ e, .unexpected e ∈ faults ∧ e.Holds i := by
  fun_induction joinRuns faults generalizing lo with
  | case1 a rest b more hrest hjoin ih =>
    obtain _ | ⟨h1, h2, h3⟩ := h
    have hrun := joinRuns_inOrder h3
    rw [hrest] at hrun
    obtain _ | ⟨h4, h5, -⟩ := hrun
    have ih := ih h3
    rw [hrest] at ih
    simp only [LexicalFault.extent] at h2 h5
    have hunion : Extent.Holds ⟨a.start, b.stop⟩ i ↔ a.Holds i ∨ b.Holds i := by
      simp only [Extent.Holds]
      omega
    simp only [List.mem_cons, LexicalFault.unexpected.injEq, or_and_right, exists_or,
      exists_eq_left] at ih ⊢
    rw [hunion, ← ih, or_assoc]
  | case2 a rest b more hrest hjoin ih =>
    obtain _ | ⟨h1, h2, h3⟩ := h
    have ih := ih h3
    rw [← hrest]
    simp only [List.mem_cons, LexicalFault.unexpected.injEq, or_and_right, exists_or,
      exists_eq_left]
    rw [ih]
  | case3 a rest hne ih =>
    obtain _ | ⟨h1, h2, h3⟩ := h
    simp only [List.mem_cons, LexicalFault.unexpected.injEq, or_and_right, exists_or,
      exists_eq_left]
    rw [ih h3]
  | case4 fault rest hne ih =>
    obtain _ | ⟨h1, h2, h3⟩ := h
    have hfault : ∀ e, .unexpected e ≠ fault := fun e he => hne e he.symm
    simp only [List.mem_cons, hfault, false_or]
    exact ih h3
  | case5 => rfl

/-- Runs of loose chars do not touch each other. -/
def Apart (f g : LexicalFault) : Prop :=
  ∀ a b, f = .unexpected a → g = .unexpected b → a.stop < b.start

/-- What is apart from the first of some faults in order, is apart from all of them. -/
theorem apart_of_first {hi : Nat} {a : Extent} {faults : List LexicalFault}
    (h : InOrder hi a.stop (faults.map LexicalFault.extent))
    (hfirst : ∀ b more, faults = .unexpected b :: more → a.stop < b.start) :
    ∀ g ∈ faults, Apart (.unexpected a) g := by
  cases faults with
  | nil => simp
  | cons f more =>
    obtain _ | ⟨h1, h2, h3⟩ := h
    intro g hg a' b ha hb
    cases ha
    subst hb
    rcases List.mem_cons.1 hg with rfl | hg
    · exact hfirst b more rfl
    · have := (h3.bounds (List.mem_map_of_mem hg)).1
      simp only [LexicalFault.extent] at this h1 h2
      omega

theorem mem_or_of_pairwise {α : Type} {R : α → α → Prop} {l : List α} (h : l.Pairwise R)
    {a b : α} (ha : a ∈ l) (hb : b ∈ l) : a = b ∨ R a b ∨ R b a := by
  induction h with
  | nil => cases ha
  | cons hx _ ih =>
    rcases List.mem_cons.1 ha with rfl | ha' <;> rcases List.mem_cons.1 hb with rfl | hb'
    · exact .inl rfl
    · exact .inr (.inl (hx _ hb'))
    · exact .inr (.inr (hx _ ha'))
    · exact ih ha' hb'

theorem joinRuns_apart {faults : List LexicalFault} {hi lo : Nat}
    (h : InOrder hi lo (faults.map LexicalFault.extent)) : (joinRuns faults).Pairwise Apart := by
  fun_induction joinRuns faults generalizing lo with
  | case1 a rest b more hrest hjoin ih =>
    obtain _ | ⟨h1, h2, h3⟩ := h
    have ih := ih h3
    rw [hrest] at ih
    obtain _ | ⟨hb, hmore⟩ := ih
    refine .cons (fun g hg a' x ha hx => ?_) hmore
    cases ha
    exact hb g hg b x rfl hx
  | case2 a rest b more hrest hjoin ih =>
    obtain _ | ⟨h1, h2, h3⟩ := h
    have hord := joinRuns_inOrder h3
    rw [hrest] at hord
    rw [← hrest]
    refine .cons ?_ (ih h3)
    rw [hrest]
    refine apart_of_first hord ?_
    rintro b' more' heq
    cases heq
    obtain _ | ⟨h4, -, -⟩ := hord
    simp only [LexicalFault.extent] at h4
    omega
  | case3 a rest hne ih =>
    obtain _ | ⟨h1, h2, h3⟩ := h
    refine .cons ?_ (ih h3)
    exact apart_of_first (joinRuns_inOrder h3) fun b more heq => absurd heq (hne b more)
  | case4 fault rest hne ih =>
    obtain _ | ⟨h1, h2, h3⟩ := h
    refine .cons (fun g _ a x ha _ => ?_) (ih h3)
    exact absurd ha (hne a)
  | case5 => exact .nil

/-! ## Maximal runs -/

/-- A char which is no blank stands at an offset, in none of the tokens. -/
structure Loose (chars : List Char) (tokens : List Token) (i : Nat) : Prop where
  char : ∃ c, chars[i]? = some c ∧ isBlank c = false
  outside : ∀ t ∈ tokens, ¬ t.extent.Holds i

/-- Adjacent loose chars with no loose char before or after them. -/
structure MaximalRun (chars : List Char) (tokens : List Token) (run : Extent) : Prop where
  nonempty : run.start < run.stop
  loose : ∀ i, run.Holds i → Loose chars tokens i
  before : ∀ i, i + 1 = run.start → ¬ Loose chars tokens i
  after : ¬ Loose chars tokens run.stop

/-- Maximal runs which share a char are the same. -/
theorem MaximalRun.eq {chars : List Char} {tokens : List Token} {a b : Extent} {i : Nat}
    (ha : MaximalRun chars tokens a) (hb : MaximalRun chars tokens b) (hia : a.Holds i)
    (hib : b.Holds i) : a = b := by
  obtain ⟨ha1, ha2⟩ := hia
  obtain ⟨hb1, hb2⟩ := hib
  have stop_le : ∀ {a b : Extent}, MaximalRun chars tokens a → MaximalRun chars tokens b →
      a.start ≤ i → i < b.stop → a.stop ≤ b.stop := by
    intro a b ha hb ha1 hb2
    by_cases hlt : b.stop < a.stop
    · exact absurd (ha.loose b.stop ⟨by omega, hlt⟩) hb.after
    · omega
  have start_le : ∀ {a b : Extent}, MaximalRun chars tokens a → MaximalRun chars tokens b →
      a.start ≤ i → i < b.stop → a.start ≤ b.start := by
    intro a b ha hb ha1 hb2
    by_cases hlt : b.start < a.start
    · exact absurd (hb.loose (a.start - 1) ⟨by omega, by omega⟩) (ha.before _ (by omega))
    · omega
  obtain ⟨as, ae⟩ := a
  obtain ⟨bs, be⟩ := b
  have h1 := stop_le ha hb ha1 hb2
  have h2 := stop_le hb ha hb1 ha2
  have h3 := start_le ha hb ha1 hb2
  have h4 := start_le hb ha hb1 ha2
  simp only [Extent.mk.injEq]
  exact ⟨Nat.le_antisymm h3 h4, Nat.le_antisymm h1 h2⟩

variable (chars : List Char)

/-- The chars covered by reports are the loose ones. -/
theorem loose_iff (i : Nat) :
    Loose chars (scan 0 chars).tokens i ↔
      ∃ e, .unexpected e ∈ joinRuns (scan 0 chars).faults ∧ e.Holds i := by
  rw [joinRuns_covers (scan_faults 0 chars)]
  constructor
  · rintro ⟨⟨c, hc, hb⟩, hout⟩
    refine ⟨⟨i, i + 1⟩, (scan_unexpected 0 chars _).2 ⟨⟨⟨c, ?_, ?_, hb⟩, hout⟩, rfl⟩, ?_⟩
    · exact Nat.zero_le _
    · exact hc
    · exact ⟨Nat.le_refl _, Nat.lt_succ_self _⟩
  · rintro ⟨e, he, hholds⟩
    obtain ⟨⟨⟨c, -, hc, hb⟩, hout⟩, hstop⟩ := (scan_unexpected 0 chars e).1 he
    obtain rfl : e.start = i := by
      have := hholds.1
      have := hholds.2
      omega
    exact ⟨⟨c, hc, hb⟩, hout⟩

/-- **What is left after joining are the maximal runs.** -/
theorem joinRuns_maximalRun (run : Extent) :
    .unexpected run ∈ joinRuns (scan 0 chars).faults ↔
      MaximalRun chars (scan 0 chars).tokens run := by
  have hord := joinRuns_inOrder (scan_faults 0 chars)
  have hmax : ∀ {run : Extent}, .unexpected run ∈ joinRuns (scan 0 chars).faults →
      MaximalRun chars (scan 0 chars).tokens run := by
    intro run hrun
    have hne : run.start < run.stop := (hord.bounds (List.mem_map_of_mem hrun)).2.1
    -- any other run is apart from this one
    have hapart : ∀ e, .unexpected e ∈ joinRuns (scan 0 chars).faults →
        e = run ∨ e.stop < run.start ∨ run.stop < e.start := by
      intro e he
      rcases mem_or_of_pairwise (joinRuns_apart (scan_faults 0 chars)) he hrun with h | h | h
      · exact .inl (LexicalFault.unexpected.inj h)
      · exact .inr (.inl (h e run rfl rfl))
      · exact .inr (.inr (h run e rfl rfl))
    refine ⟨hne, fun i hi => (loose_iff chars i).2 ⟨run, hrun, hi⟩, ?_, ?_⟩
    · intro i hi hloose
      obtain ⟨e, he, hholds⟩ := (loose_iff chars i).1 hloose
      simp only [Extent.Holds] at hholds
      rcases hapart e he with rfl | h | h <;> omega
    · intro hloose
      obtain ⟨e, he, hholds⟩ := (loose_iff chars _).1 hloose
      simp only [Extent.Holds] at hholds
      rcases hapart e he with rfl | h | h <;> omega
  refine ⟨hmax, fun hrun => ?_⟩
  obtain ⟨e, he, hholds⟩ :=
    (loose_iff chars run.start).1 (hrun.loose _ ⟨Nat.le_refl _, hrun.nonempty⟩)
  rwa [← (hmax he).eq hrun hholds ⟨Nat.le_refl _, hrun.nonempty⟩]

/-! ## Diagnostics -/

/-- What is reported about a source with some tokens. -/
inductive Reported (chars : List Char) (id : UInt16) (tokens : List Token) : Diagnostic → Prop
  /-- chars of no token, by their text -/
  | unexpected {run : Extent} :
    MaximalRun chars tokens run →
      Reported chars id tokens (.located (.unexpected (String.ofList (charsIn chars run)))
        (run.inSource id) lexicalCode .lexer)
  /-- codes of no char in the escapes of a string -/
  | escape {token : Token} {extent : Extent} :
    token ∈ tokens → extent ∈ token.badEscapes →
      Reported chars id tokens (.located (.simple "escape sequence") (extent.inSource id)
        lexicalCode .lexer)
  /-- a block comment at the end which is never closed -/
  | unterminated {token : Token} :
    tokens.getLast? = some token → token.OpenComment →
      Reported chars id tokens (.located (.simple "unterminated block comment")
        (token.extent.inSource id) lexicalCode .lexer)

/-- Whether a diagnostic is about an escape of a string. -/
def Diagnostic.isEscape (d : Diagnostic) : Bool :=
  d.reason == .simple "escape sequence"

/-- What tokens and diagnostics say about the chars of a source. -/
structure Accounting (chars : List Char) (id : UInt16) (tokens : List Token)
    (diagnostics : List Diagnostic) : Prop where
  /-- tokens are not empty and within the source -/
  bounds : ∀ t ∈ tokens, t.extent.start < t.extent.stop ∧ t.extent.stop ≤ chars.length
  /-- tokens are in order and do not overlap -/
  disjoint : tokens.Pairwise fun a b => a.extent.stop ≤ b.extent.start
  /-- diagnostics are in the order of their starts, none starts where another does -/
  increasing : diagnostics.Pairwise fun a b =>
    ∃ s ∈ a.span, ∃ s' ∈ b.span, s.start < s'.start
  /-- there are just the diagnostics there should be -/
  mem_iff : ∀ d, d ∈ diagnostics ↔ Reported chars id tokens d
  /-- there is one diagnostic for each bad escape -/
  escapes : diagnostics.filter Diagnostic.isEscape = (tokens.flatMap Token.badEscapes).map
    fun extent => .located (.simple "escape sequence") (extent.inSource id) lexicalCode .lexer
  /-- every char is a blank, in one token or reported -/
  covered : ∀ i c, chars[i]? = some c → isBlank c = true ∨
    (∃ t ∈ tokens, t.extent.Holds i ∧ ∀ t' ∈ tokens, t'.extent.Holds i → t' = t) ∨
    ∃ d ∈ diagnostics, ∃ s ∈ d.span, s.start ≤ i ∧ i < s.stop

theorem toDiagnostic_span (id : UInt16) (f : LexicalFault) :
    (f.toDiagnostic chars id).span = some (f.extent.inSource id) := by
  cases f <;> rfl

theorem toDiagnostic_isEscape (id : UInt16) (f : LexicalFault) :
    (f.toDiagnostic chars id).isEscape = f.isEscape := by
  cases f <;>
    simp [Diagnostic.isEscape, LexicalFault.isEscape, LexicalFault.toDiagnostic,
      Diagnostic.located]

/-- Some diagnostic is that of a fault iff it is reported. -/
theorem mem_map_toDiagnostic (id : UInt16) (d : Diagnostic) :
    d ∈ (joinRuns (scan 0 chars).faults).map (·.toDiagnostic chars id) ↔
      Reported chars id (scan 0 chars).tokens d := by
  have hescape : ∀ e, .invalidCodePoint e ∈ joinRuns (scan 0 chars).faults ↔
      e ∈ (scan 0 chars).tokens.flatMap Token.badEscapes := by
    intro e
    have hfilter := joinRuns_filter LexicalFault.isEscape (fun _ => rfl) (scan 0 chars).faults
    rw [scan_escapes] at hfilter
    have hmem : .invalidCodePoint e ∈ (joinRuns (scan 0 chars).faults).filter
        LexicalFault.isEscape ↔ .invalidCodePoint e ∈ joinRuns (scan 0 chars).faults := by
      simp [List.mem_filter, LexicalFault.isEscape]
    rw [← hmem, hfilter]
    simp
  have hcomment : ∀ e, .unterminatedComment e ∈ joinRuns (scan 0 chars).faults ↔
      ∃ t ∈ (scan 0 chars).tokens.getLast?, t.OpenComment ∧ t.extent = e := by
    intro e
    have hfilter := joinRuns_filter (· == .unterminatedComment e) (fun _ => by simp)
      (scan 0 chars).faults
    have hmem := congrArg (LexicalFault.unterminatedComment e ∈ ·) hfilter
    simp only [List.mem_filter, beq_self_eq_true, and_true] at hmem
    rw [hmem, scan_unterminated]
  rw [List.mem_map]
  constructor
  · rintro ⟨f, hf, rfl⟩
    cases f with
    | unexpected run => exact .unexpected ((joinRuns_maximalRun chars run).1 hf)
    | invalidCodePoint e =>
      obtain ⟨t, ht, he⟩ := List.mem_flatMap.1 ((hescape e).1 hf)
      exact .escape ht he
    | unterminatedComment e =>
      obtain ⟨t, ht, hopen, rfl⟩ := (hcomment e).1 hf
      exact .unterminated ht hopen
  · rintro (hrun | ⟨ht, he⟩ | ⟨ht, hopen⟩)
    · exact ⟨_, (joinRuns_maximalRun chars _).2 hrun, rfl⟩
    · exact ⟨_, (hescape _).2 (List.mem_flatMap.2 ⟨_, ht, he⟩), rfl⟩
    · exact ⟨_, (hcomment _).2 ⟨_, ht, hopen, rfl⟩, rfl⟩

/-- Tokens in order which hold a common offset are the same. -/
theorem eq_of_holds {tokens : List Token}
    (h : tokens.Pairwise fun a b => a.extent.stop ≤ b.extent.start) {t t' : Token}
    (ht : t ∈ tokens) (ht' : t' ∈ tokens) {i : Nat} (hi : t.extent.Holds i)
    (hi' : t'.extent.Holds i) : t' = t := by
  simp only [Extent.Holds] at hi hi'
  rcases mem_or_of_pairwise h ht' ht with h | h | h
  · exact h
  · omega
  · omega

theorem lex_accounting (source : String) (id : UInt16) :
    Accounting source.toList id (lex source id).1 (lex source id).2 := by
  have htokens := scan_tokens 0 source.toList
  have hfaults := joinRuns_inOrder (scan_faults 0 source.toList)
  have hdisjoint : (lex source id).1.Pairwise fun a b => a.extent.stop ≤ b.extent.start :=
    List.pairwise_map.1 htokens.pairwise
  refine ⟨?_, hdisjoint, ?_, mem_map_toDiagnostic source.toList id, ?_, ?_⟩
  · intro t ht
    have := htokens.bounds (List.mem_map_of_mem ht)
    omega
  · refine List.pairwise_map.2 ((List.pairwise_map.1 hfaults.pairwise).imp_of_mem ?_)
    intro f g hf hg hle
    refine ⟨_, toDiagnostic_span _ _ f, _, toDiagnostic_span _ _ g, ?_⟩
    have := (hfaults.bounds (List.mem_map_of_mem hf)).2.1
    exact Nat.lt_of_lt_of_le this hle
  · have hfilter := joinRuns_filter LexicalFault.isEscape (fun _ => rfl)
      (scan 0 source.toList).faults
    rw [scan_escapes] at hfilter
    have hcomp : (Diagnostic.isEscape ∘ fun f => f.toDiagnostic source.toList id) =
        LexicalFault.isEscape :=
      funext (toDiagnostic_isEscape source.toList id)
    change (List.map _ (joinRuns _)).filter _ = List.map _ (List.flatMap _ _)
    rw [List.filter_map, hcomp, hfilter, List.map_map]
    rfl
  · intro i c hc
    by_cases hblank : isBlank c = true
    · exact .inl hblank
    · by_cases hin : ∃ t ∈ (lex source id).1, t.extent.Holds i
      · obtain ⟨t, ht, hholds⟩ := hin
        exact .inr (.inl ⟨t, ht, hholds, fun t' ht' h => eq_of_holds hdisjoint ht ht' hholds h⟩)
      · have hloose : Loose source.toList (scan 0 source.toList).tokens i :=
          ⟨⟨c, hc, by simpa using hblank⟩, fun t ht hholds => hin ⟨t, ht, hholds⟩⟩
        obtain ⟨e, he, hholds⟩ := (loose_iff _ i).1 hloose
        exact .inr (.inr ⟨_, List.mem_map_of_mem he, _, rfl, hholds⟩)

/-- A source is accepted strictly, with the same tokens, iff there is nothing to report. -/
theorem lexStrict_eq_ok_iff (source : String) (id id' : UInt16) (tokens : List Token) :
    lexStrict source id' = .ok tokens ↔ tokens = (lex source id).1 ∧ (lex source id).2 = [] := by
  unfold lexStrict
  have hnil : (lex source id').2 = [] ↔ (lex source id).2 = [] := by simp [lex]
  split
  · rename_i ts h
    have h1 : (lex source id).1 = ts := congrArg Prod.fst h
    have h2 : (lex source id').2 = [] := congrArg Prod.snd h
    simp [h1, hnil.1 h2, eq_comm]
  · rename_i ts diagnostics hne h
    have h2 : (lex source id').2 = diagnostics := congrArg Prod.snd h
    simp only [reduceCtorEq, false_iff]
    rintro ⟨-, hempty⟩
    exact hne (h2 ▸ hnil.2 hempty)

/-- **Nothing of a source is skipped silently or reported twice.**  Tokens and diagnostics account
for each char, and a source is accepted strictly, with the same tokens, iff there is nothing to
report. -/
theorem lex_accounts (source : String) (id : UInt16) :
    Accounting source.toList id (lex source id).1 (lex source id).2 ∧
      ∀ id' tokens, lexStrict source id' = .ok tokens ↔
        tokens = (lex source id).1 ∧ (lex source id).2 = [] :=
  ⟨lex_accounting source id, lexStrict_eq_ok_iff source id⟩

end LunSyntax
