import LunSyntax.Proofs.Grammar.Sealing
import LunSyntax.Proofs.Grammar.Shifting
import LunSyntax.Proofs.Grammar.Totality
import LunSyntax.Proofs.Token.Resumption

/-!
# Sources one after the other

Two sources without faults make up one when the second comes on a new line after the first, and its
definitions are those of the one and of the other.

* `ItemsDerive.seals`, `ItemsDerive.nameAhead`: definitions end with a semicolon or a closing brace,
  and start with a name;
* `ReadsItems`: definitions which are read one after the other without complaint, and
  `ReadsItems.shift`, `ReadsItems.beside`: they are read so further on, and in another input;
* `WellFormed`: tokens which are definitions and nothing else, so that more of them may follow;
* `parseTokens_append`, `parseStrict_append`: the same for whole inputs.
-/

set_option autoImplicit false

namespace LunSyntax

open LunSyntax.Parser LunSyntax.Grammar

/-! ## How definitions start and end -/

theorem Block.Derives.closes {block : Block} {ts : List TokenKind} (h : block.Derives .strict ts) :
    [.control '}'] <:+ ts := by
  cases h with
  | value => exact List.suffix_append _ _
  | noValue => exact List.suffix_append _ _
  | skipped hm => cases hm

theorem Expr.Derives.closes_of_isUnlabeled {e : Expr} {ts : List TokenKind}
    (h : e.Derives .strict ts) (hkind : e.kind.isUnlabeled = true) : [.control '}'] <:+ ts := by
  cases h with
  | block hb => exact hb.closes
  | whileLoop _ hb => exact hb.closes.trans (List.suffix_append _ _)
  | forLoop _ hb => exact hb.closes.trans (List.suffix_append _ _)
  | loop hb => exact hb.closes.trans (List.suffix_cons _ _)
  | _ => cases hkind

/-- What goes without a semicolon ends with a closing brace. -/
theorem Expr.Derives.closes_of_isBlockLike {e : Expr} {ts : List TokenKind}
    (h : e.Derives .strict ts) (hkind : e.kind.isBlockLike = true) : [.control '}'] <:+ ts := by
  by_cases hunlabeled : e.kind.isUnlabeled = true
  · exact h.closes_of_isUnlabeled hunlabeled
  · cases h with
    | labeled hinner hk =>
      exact ((hinner.closes_of_isUnlabeled hk).trans (List.suffix_cons _ _)).trans
        (List.suffix_cons _ _)
    | _ => first | exact absurd rfl hunlabeled | cases hkind

theorem GlobalDef.Derives.seals {d : GlobalDef} {ts : List TokenKind} (h : d.Derives .strict ts) :
    ∃ k : TokenKind, k.Seals ∧ [k] <:+ ts := by
  cases h with
  | @intro _ _ _ _ semicolon _ _ _ hvalue hsemi =>
    cases semicolon with
    | true => exact ⟨_, .inl rfl, List.suffix_append _ _⟩
    | false =>
      have hkind := (hsemi rfl).resolve_right Mode.noConfusion
      refine ⟨_, .inr rfl, ?_⟩
      rw [semicolonTokens, List.append_nil]
      exact (hvalue.closes_of_isBlockLike hkind).trans (List.suffix_append _ _)

theorem ItemsDerive.seals {items : List Item} {ts : List TokenKind}
    (h : ItemsDerive .strict items ts) : ∀ k ∈ ts.getLast?, k.Seals := by
  induction h with
  | nil => exact fun k hk => by cases hk
  | cons hitem _ ih =>
    intro k hk
    rw [List.getLast?_append] at hk
    rcases Option.or_eq_some_iff.1 hk with hk | ⟨-, hk⟩
    · exact ih k hk
    · obtain ⟨last, hseals, us, rfl⟩ := hitem.seals
      rw [List.getLast?_concat] at hk
      cases hk
      exact hseals

theorem GlobalDef.Derives.head {d : GlobalDef} {ts : List TokenKind} (h : d.Derives .strict ts) :
    ∃ rest, ts = d.name.token :: rest := by
  cases h
  exact ⟨_, rfl⟩

theorem ItemsDerive.nameAhead {items : List Item} {ts : List Lexeme}
    (h : ItemsDerive .strict items (ts.map Spanned.node)) : ts = [] ∨ NameAhead ts := by
  generalize hkinds : ts.map Spanned.node = kinds at h
  cases h with
  | nil => exact .inl (List.map_eq_nil_iff.1 hkinds)
  | @cons i _ _ _ hitem _ =>
    obtain ⟨rest, rfl⟩ := hitem.head
    obtain ⟨t, rest, rfl, hname, -⟩ := List.map_eq_cons_iff.1 hkinds
    exact .inr ⟨i.definition.name.name, t, rest, rfl, hname⟩

/-! ## Tokens moved on -/

section Shift

variable {k : Nat}

theorem nesting_shift (s : List Bracket) (u : List TokenKind) :
    nesting s (u.map (TokenKind.shift k)) = nesting s u := by
  have hside : ∀ t : TokenKind, (t.shift k).side = t.side := fun t => by cases t <;> rfl
  induction u generalizing s with
  | nil => rfl
  | cons t u ih =>
    simp only [List.map_cons, nesting, hside, ih]

theorem Sealed.shift {v : List Lexeme} (h : Sealed v) : Sealed (v.map (Lexeme.shift k)) := by
  intro t ht
  rw [List.getLast?_map] at ht
  obtain ⟨t', ht', rfl⟩ := Option.map_eq_some_iff.1 ht
  exact (h t' ht').imp (TokenKind.shift_eq_iff rfl).2 (TokenKind.shift_eq_iff rfl).2

theorem NameAhead.shift {ts : List Lexeme} (h : NameAhead ts) :
    NameAhead (ts.map (Lexeme.shift k)) := by
  obtain ⟨name, t, rest, rfl, hname⟩ := h
  exact ⟨name, t.shift k, rest.map (Lexeme.shift k), rfl, (TokenKind.shift_eq_iff rfl).2 hname⟩

theorem tokenStream_shift (tokens : List Token) (id : UInt16) :
    (tokenStream (tokens.map (Token.shift k)) id).rest =
      (tokenStream tokens id).rest.map (Lexeme.shift k) := by
  simp only [tokenStream, Cursor.start, List.filter_map, List.map_map]
  congr 1
  simp [Function.comp_def, Token.shift]

end Shift

namespace Grammar

open Cursor

/-! ## Definitions at a place -/

theorem itemHere_extends (n : Nat) : Extends n false itemHere itemHere :=
  .withSpan (definition_extends n)

theorem itemHere_shifts {k : Nat} : Shifts k (Item.shift k) itemHere itemHere :=
  .withSpan definition_shifts fun _ _ => rfl

/-- Definitions which are read one after the other, up to a place and without complaint. -/
inductive ReadsItems : Cursor → List Item → Cursor → Prop
  | nil {c : Cursor} : ReadsItems c [] c
  | cons {c mid after : Cursor} {i : Item} {items : List Item} {alt : Option Complaint} :
    itemHere c = ⟨[], .ok i mid alt⟩ → ReadsItems mid items after → ReadsItems c (i :: items) after

namespace ReadsItems

variable {c c₁ c₂ mid after e₁ : Cursor} {items items' : List Item} {v t t₁ t₂ : List Lexeme}

theorem trans (h : ReadsItems c items mid) (h' : ReadsItems mid items' after) :
    ReadsItems c (items ++ items') after := by
  induction h with
  | nil => exact h'
  | cons hi _ ih => exact .cons hi (ih h')

theorem left_le (h : ReadsItems c items after) : after.left ≤ c.left := by
  induction h with
  | nil => exact Nat.le_refl _
  | cons hi _ ih =>
    have hlt := left_lt_of_itemHere (congrArg Outcome.result hi)
    exact Nat.le_of_lt (Nat.lt_of_le_of_lt ih hlt)

theorem finish_eq (h : ReadsItems c items after) : after.finish = c.finish := by
  induction h with
  | nil => rfl
  | cons hi _ ih =>
    obtain ⟨used, hpass, -⟩ := itemHere_passes (congrArg Outcome.result hi)
    exact ih.trans hpass.finish_eq

/-- All that is read without complaint is read so. -/
theorem of_runMany (h : (runMany item c).reported = []) :
    ReadsItems c (itemsFrom c) (runMany item c).after := by
  induction hm : c.left using Nat.strongRecOn generalizing c with
  | ind m ih =>
    unfold itemsFrom
    cases hitem : item (P := Parser) c with
    | mk reported reply =>
      cases reply with
      | fail a =>
        rw [runMany_of_fail hitem]
        exact .nil
      | ok i mid alt =>
        have hlt : mid.left < c.left := left_lt_of_item (by rw [hitem]; rfl)
        rw [runMany_of_ok hitem hlt] at h ⊢
        obtain ⟨rfl, h⟩ := List.append_eq_nil_iff.1 h
        exact .cons (itemHere_of_clean hitem) (ih mid.left (by omega) h rfl)

/-- What is read so up to the end is all there is to read. -/
theorem runMany_eq (h : ReadsItems c items after) (hend : after.rest = []) :
    (runMany item c).reported = [] ∧ itemsFrom c = items ∧ (runMany item c).after = after := by
  induction h with
  | nil =>
    obtain ⟨as, a, hitem⟩ := item_of_rest_nil hend
    rw [runMany_of_fail hitem]
    exact ⟨rfl, itemsFrom_of_rest_nil hend, rfl⟩
  | @cons c mid after i items alt hi _ ih =>
    obtain ⟨hreported, hitems, hafter⟩ := ih hend
    have hitem : item (P := Parser) c = ⟨[], .ok i mid alt⟩ := by
      change recoverSkipping itemHere c = _
      unfold recoverSkipping
      rw [hi]
    have hrun := runMany_of_ok hitem (left_lt_of_itemHere (congrArg Outcome.result hi))
    unfold itemsFrom at hitems ⊢
    rw [hrun, hreported, hitems]
    exact ⟨rfl, rfl, hafter⟩

/-- Definitions further on are the definitions, further on. -/
theorem shift {k : Nat} (h : ReadsItems c items after) :
    ReadsItems (c.shift k) (items.map (Item.shift k)) (after.shift k) := by
  induction h with
  | nil => exact .nil
  | @cons c mid _ i _ alt hi _ ih =>
    have hshift := itemHere_shifts (k := k) c
    rw [hi] at hshift
    exact .cons hshift ih

/-- **Definitions are the same ones in another input**, if each of them is read the same way there
as long as there are tokens in common. -/
theorem beside (hagree : ∀ {v c₁ c₂}, v ≠ [] → Sealed v → Beside t₁ t₂ v c₁ c₂ →
      Agree t₁ t₂ v c₁ c₂ (itemHere c₁) (itemHere c₂))
    (h : ReadsItems c₁ items e₁) (hend : e₁.rest = t₁) (hs : Sealed v)
    (hc : Beside t₁ t₂ v c₁ c₂) : ∃ e₂, ReadsItems c₂ items e₂ ∧ e₂.rest = t₂ := by
  induction h generalizing v c₂ with
  | nil =>
    have hnil : v = [] := List.append_left_eq_self.1 (hc.rest_left.symm.trans hend)
    exact ⟨c₂, .nil, by rw [hc.rest_right, hnil, List.nil_append]⟩
  | @cons c mid after i items alt hi hrest ih =>
    have hne : v ≠ [] := by
      rintro rfl
      have hlt : after.left < c.left :=
        Nat.lt_of_le_of_lt hrest.left_le (left_lt_of_itemHere (congrArg Outcome.result hi))
      rw [after.left_eq, c.left_eq, hend, hc.rest_left] at hlt
      exact Nat.lt_irrefl _ hlt
    have hboth := hagree hne hs hc
    rw [hi] at hboth
    obtain ⟨v', a₂, alt₂, hi₂, hw⟩ := hboth.of_clean
    obtain ⟨e₂, hrest₂, hend₂⟩ := ih hend (hs.of_suffix hw.suffix) hw.beside
    exact ⟨e₂, .cons hi₂ hrest₂, hend₂⟩

end ReadsItems

/-! ## Well-formed input -/

/-- Tokens which make up definitions and nothing else. -/
structure WellFormed (c : Cursor) (items : List Item) : Prop where
  reads : ∃ after, ReadsItems c items after ∧ after.rest = []
  balanced : Balanced (c.rest.map Spanned.node)
  seals : Sealed c.rest
  head : c.rest = [] ∨ NameAhead c.rest

namespace WellFormed

variable {c c' : Cursor} {items items' : List Item} {t : List Lexeme}

theorem shift {k : Nat} (h : WellFormed c items) :
    WellFormed (c.shift k) (items.map (Item.shift k)) := by
  obtain ⟨after, hreads, hend⟩ := h.reads
  refine ⟨⟨after.shift k, hreads.shift, by simp [Cursor.shift, hend]⟩, ?_, h.seals.shift, ?_⟩
  · have hkinds : (c.shift k).rest.map Spanned.node =
        (c.rest.map Spanned.node).map (TokenKind.shift k) := by
      simp [Cursor.shift, Lexeme.shift, Function.comp_def]
    unfold Balanced
    rw [hkinds, nesting_shift]
    exact h.balanced
  · exact h.head.imp (fun hnil => by simp [Cursor.shift, hnil]) NameAhead.shift

/-- In front of a name, definitions end where they end. -/
theorem before_name (h : WellFormed c items) (ht : NameAhead t) (hrest : c'.rest = c.rest ++ t)
    (hsource : c.finish.source = c'.finish.source) :
    ∃ after, ReadsItems c' items after ∧ after.rest = t := by
  obtain ⟨after, hreads, hend⟩ := h.reads
  refine hreads.beside (fun hne hs hc => ?_) hend h.seals
    ⟨(List.append_nil _).symm, hrest, h.balanced, hsource, fun _ hnil => ?_⟩
  · exact itemHere_extends _ ht hs (Nat.lt_succ_self _) (fun hnil => absurd hnil hne) hc
  · obtain ⟨name, s, rest, rfl, -⟩ := ht
    cases hnil

/-- The end of the input may be told to be anywhere. -/
theorem elsewhere (h : WellFormed c items) (hrest : c'.rest = c.rest)
    (hsource : c.finish.source = c'.finish.source) :
    ∃ after, ReadsItems c' items after ∧ after.rest = [] := by
  -- neither input can be told from one which goes on with a name
  let name : Lexeme := ⟨.ident "", c.finish⟩
  have hname : NameAhead [name] := ⟨"", name, [], rfl, rfl⟩
  have hrest' : (Cursor.start (c.rest ++ [name]) c.finish).rest = c.rest ++ [name] := rfl
  obtain ⟨after, hreads, hend⟩ := h.before_name hname hrest' rfl
  refine hreads.beside (fun hne hs hc => ?_) hend h.seals
    ⟨rfl, by rw [hrest, List.append_nil], h.balanced, hsource, fun hnil => by cases hnil⟩
  exact (itemHere_extends _ hname hs (Nat.lt_succ_self _) (fun hnil => absurd hnil hne)
    hc.symm).symm

/-- Definitions may come after others. -/
theorem append {c₁ c₂ : Cursor} (h₁ : WellFormed c₁ items) (h₂ : WellFormed c₂ items')
    (hrest : c.rest = c₁.rest ++ c₂.rest) (hsource₁ : c₁.finish.source = c.finish.source)
    (hsource₂ : c₂.finish.source = c.finish.source) :
    ∃ after, ReadsItems c (items ++ items') after ∧ after.rest = [] := by
  have hfirst : ∃ mid, ReadsItems c items mid ∧ mid.rest = c₂.rest := by
    rcases h₂.head with hnil | hname
    · rw [hnil] at hrest ⊢
      exact h₁.elsewhere (hrest.trans (List.append_nil _)) hsource₁
    · exact h₁.before_name hname hrest hsource₁
  obtain ⟨mid, hreads₁, hmid⟩ := hfirst
  obtain ⟨after, hreads₂, hend⟩ := h₂.elsewhere hmid (hreads₁.finish_eq ▸ hsource₂)
  exact ⟨after, hreads₁.trans hreads₂, hend⟩

end WellFormed

end Grammar

/-! ## Whole inputs -/

/-- Tokens that are parsed without complaint are well-formed. -/
theorem tokenStream_wellFormed {tokens : List Token} {id : UInt16} {file : SourceFile}
    (h : parseTokens tokens id = (some file, [])) :
    WellFormed (tokenStream tokens id) file.items := by
  obtain ⟨reported, after, alt, hfile, hclean⟩ := sourceFile_eq_ok (tokenStream tokens id)
  have hitems := items_of_parseTokens h
  unfold parseTokens at h
  rw [hfile] at h
  have hnil : reported = [] := List.map_eq_nil_iff.1 (congrArg Prod.snd h)
  obtain ⟨hreported, hend⟩ := hclean.1 hnil
  have hderives := sourceFile_derives (hnil ▸ hfile)
  rw [hitems]
  refine ⟨⟨_, .of_runMany hreported, hend⟩, hderives.balanced, fun t ht => ?_, hderives.nameAhead⟩
  refine hderives.seals t.node ?_
  rw [List.getLast?_map]
  exact Option.mem_map_of_mem _ ht

/-- Definitions which are read to the end of the input are the file. -/
theorem parseTokens_of_reads {tokens : List Token} {id : UInt16} {items : List Item}
    {after : Cursor} (h : ReadsItems (tokenStream tokens id) items after) (hend : after.rest = []) :
    parseTokens tokens id = (some ⟨items, ⟨id, 0, tokensEnd tokens⟩⟩, []) := by
  obtain ⟨reported, last, alt, hfile, hclean⟩ := sourceFile_eq_ok (tokenStream tokens id)
  obtain ⟨hreported, hitems, hafter⟩ := h.runMany_eq hend
  have hnil : reported = [] := hclean.2 ⟨hreported, by rw [hafter, hend]⟩
  unfold parseTokens
  rw [hfile, hnil, hitems]
  rfl

/-- Tokens without faults may be followed by others, further on. -/
theorem parseTokens_append {us vs : List Token} {id : UInt16} {file₁ file₂ : SourceFile}
    (h₁ : parseTokens us id = (some file₁, [])) (h₂ : parseTokens vs id = (some file₂, []))
    (k : Nat) :
    parseTokens (us ++ vs.map (Token.shift k)) id =
      (some ⟨file₁.items ++ file₂.items.map (Item.shift k),
        ⟨id, 0, tokensEnd (us ++ vs.map (Token.shift k))⟩⟩, []) := by
  have hrest : (tokenStream (us ++ vs.map (Token.shift k)) id).rest =
      (tokenStream us id).rest ++ ((tokenStream vs id).shift k).rest := by
    rw [tokenStream_append, tokenStream_shift]
    rfl
  obtain ⟨after, hreads, hend⟩ :=
    (tokenStream_wellFormed h₁).append (tokenStream_wellFormed h₂).shift hrest rfl rfl
  exact parseTokens_of_reads hreads hend

/-- A strict parse succeeds just if neither the lexer nor the grammar has anything to complain
about. -/
theorem parseStrict_eq_ok_iff {source : String} {id : UInt16} {file : SourceFile} :
    parseStrict source id = .ok file ↔ (lex source id).2 = [] ∧ file.span = ⟨id, 0, source.length⟩ ∧
      ∃ span, parseTokens (lex source id).1 id = (some ⟨file.items, span⟩, []) := by
  obtain ⟨file', hsome, -⟩ := parseTokens_eq_some (lex source id).1 id
  have hfile : (parse source id).file = some { file' with span := ⟨id, 0, source.length⟩ } :=
    congrArg (Option.map _) hsome
  have hdiagnostics : (parse source id).diagnostics =
      (lex source id).2 ++ (parseTokens (lex source id).1 id).2 := rfl
  rw [parseStrict_eq hfile, hdiagnostics]
  constructor
  · intro h
    split at h
    · rename_i hnil
      cases h
      obtain ⟨hlex, hparse⟩ := List.append_eq_nil_iff.1 hnil
      exact ⟨hlex, rfl, file'.span, Prod.ext hsome hparse⟩
    · cases h
  · rintro ⟨hlex, hspan, span, hparse⟩
    rw [hparse] at hsome
    cases hsome
    rw [hlex, hparse, ← hspan]
    rfl

/-- **Sources can be put one after the other.**  If a strict parse accepts two sources, it accepts
them with a new line in between.  The definitions are those of the first source, whatever it ends
with, and then those of the second one, with all their places moved on behind the new line. -/
theorem parseStrict_append {a b : String} {id : UInt16} {file₁ file₂ : SourceFile}
    (ha : parseStrict a id = .ok file₁) (hb : parseStrict b id = .ok file₂) :
    parseStrict (a ++ "\n" ++ b) id =
      .ok ⟨file₁.items ++ file₂.items.map (Item.shift (a.length + 1)),
        ⟨id, 0, (a ++ "\n" ++ b).length⟩⟩ := by
  obtain ⟨hlex₁, -, span₁, hparse₁⟩ := parseStrict_eq_ok_iff.1 ha
  obtain ⟨hlex₂, -, span₂, hparse₂⟩ := parseStrict_eq_ok_iff.1 hb
  have hparse := parseTokens_append hparse₁ hparse₂ (a.length + 1)
  refine parseStrict_eq_ok_iff.2 ⟨?_, rfl, ?_⟩
  · rw [lex_append_newline hlex₁, hlex₂]
    rfl
  · rw [lex_append_newline hlex₁]
    exact ⟨_, hparse⟩

/-- A block ends a definition without a semicolon, and a string stands on the next line. -/
theorem parseStrict_append_block :
    let block : Item :=
      ⟨⟨⟨"a", ⟨0, 0, 1⟩⟩, none, false, ⟨.block ⟨[], none, ⟨0, 5, 7⟩⟩, ⟨0, 5, 7⟩⟩, false⟩, ⟨0, 0, 7⟩⟩
    let string (k : Nat) : Item :=
      ⟨⟨⟨"b", ⟨0, k, k + 1⟩⟩, none, false,
        ⟨.literal (.string ⟨none, [.content "x" ⟨k + 6, k + 7⟩]⟩), ⟨0, k + 5, k + 8⟩⟩, true⟩,
        ⟨0, k, k + 9⟩⟩
    parseStrict "a :: {}" 0 = .ok ⟨[block], ⟨0, 0, 7⟩⟩ ∧
      parseStrict "b :: \"x\";" 0 = .ok ⟨[string 0], ⟨0, 0, 9⟩⟩ ∧
      parseStrict "a :: {}\nb :: \"x\";" 0 = .ok ⟨[block, string 8], ⟨0, 0, 17⟩⟩ := by
  intro block string
  have hblock : parseStrict "a :: {}" 0 = .ok ⟨[block], ⟨0, 0, 7⟩⟩ := by
    have hlex : lex "a :: {}" 0 =
        ([⟨.ident "a", ⟨0, 1⟩⟩, ⟨.digraph .pathSep, ⟨2, 4⟩⟩, ⟨.control '{', ⟨5, 6⟩⟩,
          ⟨.control '}', ⟨6, 7⟩⟩], []) := by
      decide +kernel
    rw [parseStrict_eq_ok_iff, hlex]
    exact ⟨rfl, rfl, ⟨0, 0, 7⟩, by with_unfolding_all rfl⟩
  have hstring : parseStrict "b :: \"x\";" 0 = .ok ⟨[string 0], ⟨0, 0, 9⟩⟩ := by
    have hlex : lex "b :: \"x\";" 0 =
        ([⟨.ident "b", ⟨0, 1⟩⟩, ⟨.digraph .pathSep, ⟨2, 4⟩⟩,
          ⟨.literal (.string ⟨none, [.content "x" ⟨6, 7⟩]⟩), ⟨5, 8⟩⟩, ⟨.control ';', ⟨8, 9⟩⟩],
          []) := by
      decide +kernel
    rw [parseStrict_eq_ok_iff, hlex]
    exact ⟨rfl, rfl, ⟨0, 0, 9⟩, by with_unfolding_all rfl⟩
  have hsource : "a :: {}" ++ "\n" ++ "b :: \"x\";" = "a :: {}\nb :: \"x\";" := by decide +kernel
  have hboth := parseStrict_append hblock hstring
  rw [hsource] at hboth
  exact ⟨hblock, hstring, hboth⟩

end LunSyntax
