import LunSyntax.Proofs.Grammar.Locality
import LunSyntax.Proofs.Grammar.Soundness

/-!
# Faults are contained

Whatever stands between two well-formed sources, it does not change what they are read as, if each
of them is preceded by a semicolon or by nothing.

* `itemsFrom`: the definitions from a place on, as an equation for each way the parser goes on
  there: a definition is read, a token is skipped, or the input ends;
* `itemsFrom_past`: no definition that starts before a semicolon goes past it, if what follows is
  balanced;
* `itemsFrom_beside`: what is read without complaint is read the same way in another input, up to
  its last semicolon;
* `parseTokens_contains`: the definitions before and after arbitrary tokens.
-/

set_option autoImplicit false

namespace LunSyntax

open LunSyntax.Parser

theorem GlobalDef.Derives.ne_nil {mode : Mode} {d : GlobalDef} {ts : List TokenKind}
    (h : d.Derives mode ts) : ts ≠ [] := by
  cases h
  simp

/-- Where related parsers come first, a success without complaints goes on at places beside each
other. -/
theorem Parser.Related.bind_clean {α β : Type} {n : Nat} {K : TokenKind → Prop} {p : Parser α}
    {f : α → Parser β} {t₁ t₂ v : List Lexeme} {c₁ c₂ a₁ : Cursor} {b : β}
    {alt : Option Complaint} (h : Related n K p p) (ht : Tails K t₁ t₂) (hv : v.length < n)
    (hc : Cursor.Beside t₁ t₂ v c₁ c₂) (hok : (p >>= f) c₁ = ⟨[], .ok b a₁ alt⟩) :
    ∃ x v' m₁ m₂ alt₁, Cursor.Onward t₁ t₂ v c₁ c₂ v' m₁ m₂ ∧ f x m₁ = ⟨[], .ok b a₁ alt₁⟩ ∧
      ∀ a₂ alt₂, f x m₂ = ⟨[], .ok b a₂ alt₂⟩ → ∃ alt₃, (p >>= f) c₂ = ⟨[], .ok b a₂ alt₃⟩ := by
  obtain ⟨r, x, m₁, alt', more, alt₁, hp, hf, hnil⟩ := bind_eq_ok hok
  obtain ⟨rfl, rfl⟩ := List.nil_eq_append_iff.1 hnil
  have hagree := h ht hv hc
  rw [hp] at hagree
  obtain ⟨v', m₂, alt'', hq, hw⟩ := hagree.of_clean
  refine ⟨x, v', m₁, m₂, alt₁, hw, hf, fun a₂ alt₂ hg => ⟨_, bind_of_ok_ok hq hg⟩⟩

namespace Grammar

/-! ## Definitions from a place on -/

/-- A definition at the place itself. -/
def itemHere : Parser Item := withSpan Item.mk definition

theorem itemHere_reads :
    Reads .recovering itemHere fun i ts => i.definition.Derives .recovering ts :=
  .withSpan definition_reads fun _ _ _ h => h

theorem itemHere_passes {c after : Cursor} {i : Item} (h : (itemHere c).result = some (i, after)) :
    ∃ used, c.Passes used after ∧ i.definition.Derives .recovering (used.map Spanned.node) := by
  unfold Outcome.result at h
  split at h
  · rename_i hc
    cases h
    exact itemHere_reads hc fun _ => rfl
  · cases h

theorem left_lt_of_itemHere {c after : Cursor} {i : Item}
    (h : (itemHere c).result = some (i, after)) : after.left < c.left := by
  obtain ⟨used, hpass, hd⟩ := itemHere_passes h
  rw [after.left_eq, c.left_eq, hpass.rest_eq, List.length_append]
  have := List.length_pos_iff.2 (mt (congrArg (List.map Spanned.node)) hd.ne_nil)
  omega

theorem left_lt_of_item {c after : Cursor} {i : Item}
    (h : (item (P := Parser) c).result = some (i, after)) :
    after.left < c.left := by
  induction hm : c.left using Nat.strongRecOn generalizing c with
  | ind m ih =>
    cases hhere : (itemHere c).result with
    | some x =>
      have h : (recoverSkipping itemHere c).result = some (i, after) := h
      rw [recoverSkipping_result, hhere] at h
      cases h
      exact hm ▸ left_lt_of_itemHere hhere
    | none =>
      cases hn : c.next? with
      | none =>
        have h : (recoverSkipping itemHere c).result = some (i, after) := h
        rw [recoverSkipping_result, hhere, retry_of_rest_nil (Cursor.rest_of_next?_none hn)] at h
        cases h
      | some x =>
        obtain ⟨t, mid⟩ := x
        have hlt := Cursor.left_lt_of_next? hn
        have hmid : (item (P := Parser) mid).result = some (i, after) :=
          (recoverSkipping_of_next hhere hn).symm.trans h
        have := ih mid.left (by omega) hmid rfl
        omega

/-- The definitions from a place on. -/
def itemsFrom (c : Cursor) : List Item := (runMany item c).values

theorem itemsFrom_eq (c : Cursor) :
    itemsFrom c = match (item (P := Parser) c).result with
      | some (i, after) => i :: itemsFrom after
      | none => [] := by
  unfold itemsFrom
  cases hc : item (P := Parser) c with
  | mk reported reply =>
    cases reply with
    | fail a => rw [runMany_of_fail hc]; rfl
    | ok i after alt =>
      have hlt : after.left < c.left := left_lt_of_item (by rw [hc]; rfl)
      rw [runMany_of_ok hc hlt]
      rfl

theorem itemsFrom_of_here {c after : Cursor} {i : Item}
    (h : (itemHere c).result = some (i, after)) : itemsFrom c = i :: itemsFrom after := by
  have hitem : (item (P := Parser) c).result = some (i, after) := by
    change (recoverSkipping itemHere c).result = _
    rw [recoverSkipping_result, h]
    rfl
  rw [itemsFrom_eq, hitem]

theorem itemsFrom_of_skip {c after : Cursor} {t : Lexeme} (h : (itemHere c).result = none)
    (hn : c.next? = some (t, after)) : itemsFrom c = itemsFrom after := by
  have hitem : (item (P := Parser) c).result = (item (P := Parser) after).result :=
    recoverSkipping_of_next h hn
  rw [itemsFrom_eq, itemsFrom_eq after, hitem]

theorem item_of_rest_nil {c : Cursor} (h : c.rest = []) :
    ∃ as a, item (P := Parser) c = ⟨as, .fail a⟩ := by
  cases hitem : item (P := Parser) c with
  | mk as reply =>
    cases reply with
    | fail a => exact ⟨as, a, rfl⟩
    | ok i after alt =>
      have hlt : after.left < c.left := left_lt_of_item (by rw [hitem]; rfl)
      rw [c.left_eq, h] at hlt
      exact absurd hlt (Nat.not_lt_zero _)

theorem itemsFrom_of_rest_nil {c : Cursor} (h : c.rest = []) : itemsFrom c = [] := by
  obtain ⟨as, a, hitem⟩ := item_of_rest_nil h
  unfold itemsFrom
  rw [runMany_of_fail hitem]

/-- Only a definition at the place itself is read without complaint. -/
theorem itemHere_of_clean {c after : Cursor} {i : Item} {alt : Option Complaint}
    (h : item (P := Parser) c = ⟨[], .ok i after alt⟩) : itemHere c = ⟨[], .ok i after alt⟩ := by
  change recoverSkipping itemHere c = _ at h
  unfold recoverSkipping at h
  split at h
  · rename_i hhere
    exact hhere.trans h
  · split at h
    · simp at h
    · cases h

/-! ## Past a semicolon -/

/-- A definition which starts before a semicolon ends before it or with it, if a balanced text
follows. -/
theorem itemHere_reach {c after : Cursor} {i : Item} {gap rest : List Lexeme} {k : Lexeme}
    (hrest : c.rest = gap ++ k :: rest) (hk : k.node = .control ';')
    (hb : Balanced (rest.map Spanned.node)) (h : (itemHere c).result = some (i, after)) :
    after.finish = c.finish ∧
      ((∃ gap', gap'.length < gap.length ∧ after.rest = gap' ++ k :: rest) ∨
        after.rest = rest) := by
  obtain ⟨used, hpass, hd⟩ := itemHere_passes h
  have hlt := left_lt_of_itemHere h
  refine ⟨hpass.finish_eq, ?_⟩
  have heq : used ++ after.rest = gap ++ k :: rest := hpass.rest_eq.symm.trans hrest
  have hkinds := congrArg (List.map Spanned.node) heq
  rw [List.map_append, List.map_append, List.map_cons, hk] at hkinds
  have hlen : used.length ≤ gap.length + 1 := by
    rcases hd.reach hb hkinds with ⟨gap', hgap⟩ | hgap
    · have := congrArg List.length hgap
      simp only [List.length_map, List.length_append] at this
      omega
    · have := congrArg List.length hgap
      simp only [List.length_map, List.length_append, List.length_cons, List.length_nil] at this
      omega
  have hpos : 0 < used.length := by
    rw [after.left_eq, c.left_eq, hpass.rest_eq, List.length_append] at hlt
    omega
  rcases List.append_eq_append_iff.1 heq with ⟨gap', rfl, hafter⟩ | ⟨beyond, rfl, hbeyond⟩
  · rw [List.length_append]
    exact .inl ⟨gap', by omega, hafter⟩
  · -- the definition has gone as far as the semicolon, or just past it
    rw [List.length_append] at hlen hpos
    cases beyond with
    | nil => exact .inl ⟨[], by simpa using hpos, hbeyond.symm⟩
    | cons t beyond =>
      have : beyond = [] := List.length_eq_zero_iff.1 (by rw [List.length_cons] at hlen; omega)
      subst this
      exact .inr (List.cons.inj hbeyond).2.symm

/-- **No definition goes past a semicolon which a balanced text follows**, so the definitions of
that text are the last ones. -/
theorem itemsFrom_past {c : Cursor} {gap rest : List Lexeme} {k : Lexeme}
    (hrest : c.rest = gap ++ k :: rest) (hk : k.node = .control ';')
    (hb : Balanced (rest.map Spanned.node)) :
    ∃ between c', c'.rest = rest ∧ c'.finish = c.finish ∧
      itemsFrom c = between ++ itemsFrom c' := by
  induction hm : gap.length using Nat.strongRecOn generalizing c gap with
  | ind m ih =>
    cases hhere : (itemHere c).result with
    | some x =>
      obtain ⟨i, after⟩ := x
      obtain ⟨hfin, ⟨gap', hlt, hafter⟩ | hafter⟩ := itemHere_reach hrest hk hb hhere
      · obtain ⟨between, c', hr, hf, hitems⟩ := ih gap'.length (by omega) hafter rfl
        refine ⟨i :: between, c', hr, hf.trans hfin, ?_⟩
        rw [itemsFrom_of_here hhere, hitems, List.cons_append]
      · exact ⟨[i], after, hafter, hfin, itemsFrom_of_here hhere⟩
    | none =>
      cases gap with
      | nil =>
        obtain ⟨after, hn, hr, -, hf⟩ := Cursor.next?_of_rest hrest
        exact ⟨[], after, hr, hf, itemsFrom_of_skip hhere hn⟩
      | cons t gap =>
        obtain ⟨after, hn, hr, -, hf⟩ := Cursor.next?_of_rest hrest
        rw [List.length_cons] at hm
        obtain ⟨between, c', hr', hf', hitems⟩ := ih gap.length (by omega) hr rfl
        exact ⟨between, c', hr', hf'.trans hf, (itemsFrom_of_skip hhere hn).trans hitems⟩

/-! ## Beside another input -/

open Cursor

section Beside

variable {t₁ t₂ v : List Lexeme} {c₁ c₂ a₁ : Cursor}

/-- Whether a semicolon follows is the same in both inputs, and it may be the one to stop at. -/
theorem semicolon_beside {s : Option Unit} {alt₁ : Option Complaint}
    (ht : Tails (· = .control ';') t₁ t₂) (hc : Beside t₁ t₂ v c₁ c₂)
    (h : optional (control (P := Parser) ';') c₁ = ⟨[], .ok s a₁ alt₁⟩) :
    ∃ a₂ alt₂, optional (control ';') c₂ = ⟨[], .ok s a₂ alt₂⟩ ∧
      ((∃ v', Onward t₁ t₂ v c₁ c₂ v' a₁ a₂) ∨
        a₁.left < c₁.left ∧ a₂.left < c₂.left ∧ a₁.lastStop = a₂.lastStop ∧
          a₁.rest = t₁.tail ∧ a₂.rest = t₂.tail ∧ a₂.finish = c₂.finish) := by
  change optional (just (.control ';')) c₁ = _ at h
  have h₁ := hc.rest_left
  have h₂ := hc.rest_right
  cases v with
  | nil =>
    rw [List.nil_append] at h₁ h₂
    rcases ht with ⟨rfl, rfl⟩ | ⟨k, r₁, r₂, rfl, rfl, hk⟩
    · rw [optional_of_fail (just_of_ne (by simp [h₁]))] at h
      cases h
      exact ⟨c₂, _, optional_of_fail (just_of_ne (by simp [h₂])), .inl ⟨[], hc.refl⟩⟩
    · obtain ⟨d₁, hn₁, hr₁, hl₁, -⟩ := Cursor.next?_of_rest h₁
      obtain ⟨d₂, hn₂, hr₂, hl₂, hf₂⟩ := Cursor.next?_of_rest h₂
      rw [optional_of_ok (just_of_next hn₁ hk)] at h
      cases h
      exact ⟨d₂, _, optional_of_ok (just_of_next hn₂ hk),
        .inr ⟨left_lt_of_next? hn₁, left_lt_of_next? hn₂, hl₁.trans hl₂.symm, hr₁, hr₂, hf₂⟩⟩
  | cons t v =>
    by_cases hnode : t.node = .control ';'
    · obtain ⟨d₁, d₂, hn₁, hn₂, hw⟩ := hc.step (by rw [hnode]; rfl)
      rw [optional_of_ok (just_of_next hn₁ hnode)] at h
      cases h
      exact ⟨d₂, _, optional_of_ok (just_of_next hn₂ hnode), .inl ⟨v, hw⟩⟩
    · rw [optional_of_fail (just_of_ne (by simpa [h₁] using hnode))] at h
      cases h
      exact ⟨c₂, _, optional_of_fail (just_of_ne (by simpa [h₂] using hnode)),
        .inl ⟨t :: v, hc.refl⟩⟩

/-- A definition which is read without complaint is read in the other input as well.  It ends at
places beside each other, or behind the semicolon to stop at. -/
theorem itemHere_beside {i : Item} {alt₁ : Option Complaint}
    (ht : Tails (· = .control ';') t₁ t₂) (hc : Beside t₁ t₂ v c₁ c₂)
    (h : itemHere c₁ = ⟨[], .ok i a₁ alt₁⟩) :
    ∃ a₂ alt₂, itemHere c₂ = ⟨[], .ok i a₂ alt₂⟩ ∧
      ((∃ v', Onward t₁ t₂ v c₁ c₂ v' a₁ a₂) ∨
        a₁.rest = t₁.tail ∧ a₂.rest = t₂.tail ∧ a₂.finish = c₂.finish) := by
  have hstop : Tails Stop t₁ t₂ := by
    rcases ht with hnil | ⟨k, r₁, r₂, h₁, h₂, hk⟩
    · exact .inl hnil
    · exact .inr ⟨k, r₁, r₂, h₁, h₂, .inl hk⟩
  obtain ⟨d, hd, rfl⟩ := withSpan_eq_ok h
  unfold definition at hd
  obtain ⟨d', hbody, hcheck⟩ := check_eq_clean hd
  have hlen := Nat.lt_succ_self v.length
  obtain ⟨name, v₁, m₁, m₂, _, hw₁, hheader, back₁⟩ :=
    ident_related.bind_clean hstop hlen hc hbody
  obtain ⟨header, v₂, n₁, n₂, _, hw₂, hvalue, back₂⟩ :=
    (header_related _).bind_clean hstop (Nat.lt_succ_self _) hw₁.beside hheader
  obtain ⟨value, v₃, o₁, o₂, _, hw₃, hsemi, back₃⟩ :=
    (expr_related _).bind_clean hstop (Nat.lt_succ_self _) hw₂.beside hvalue
  obtain ⟨r, s, q₁, _, more, _, hopt, hpure, hnil⟩ := bind_eq_ok hsemi
  obtain ⟨rfl, rfl⟩ := List.nil_eq_append_iff.1 hnil
  cases hpure
  have hw := (hw₁.trans hw₂).trans hw₃
  obtain ⟨a₂, alt₂, hopt₂, hend⟩ := semicolon_beside ht hw₃.beside hopt
  obtain ⟨_, h₃⟩ := back₃ a₂ _ (bind_of_ok_ok hopt₂ rfl)
  obtain ⟨_, h₂⟩ := back₂ a₂ _ h₃
  obtain ⟨alt, h₁⟩ := back₁ a₂ _ h₂
  have hspan : c₁.spanTo a₁ = c₂.spanTo a₂ := by
    rcases hend with ⟨v', hw'⟩ | ⟨hlt₁, hlt₂, hlast, -⟩
    · exact (hw.trans hw').spanTo_eq hc (hc.here_eq ht)
    · unfold Cursor.spanTo
      rw [if_pos (Nat.lt_of_lt_of_le hlt₁ (hw.left_le_left hc)),
        if_pos (Nat.lt_of_lt_of_le hlt₂ (hw.left_le_right hc)), hc.source, hc.here_eq ht, hlast]
  refine ⟨a₂, alt, ?_, ?_⟩
  · have hdefinition : definition (P := Parser) c₂ = ⟨[], .ok d a₂ alt⟩ := by
      unfold definition
      exact check_of_clean h₁ hcheck
    rw [hspan]
    exact withSpan_of_ok hdefinition
  · rcases hend with ⟨v', hw'⟩ | ⟨-, -, -, hr₁, hr₂, hf₂⟩
    · exact .inl ⟨v', hw.trans hw'⟩
    · exact .inr ⟨hr₁, hr₂, hf₂.trans hw.finish_right⟩

/-- **What is read without complaint is read the same way in another input**, up to the semicolon
where the tokens in common end. -/
theorem itemsFrom_beside (ht : Tails (· = .control ';') t₁ t₂) (htail : t₁.tail = [])
    (hc : Beside t₁ t₂ v c₁ c₂) (hclean : (runMany item c₁).reported = [])
    (hend : (runMany item c₁).after.rest = []) :
    ∃ c', c'.rest = t₂.tail ∧ c'.finish = c₂.finish ∧
      itemsFrom c₂ = itemsFrom c₁ ++ itemsFrom c' := by
  induction hm : v.length using Nat.strongRecOn generalizing v c₁ c₂ with
  | ind m ih =>
    cases hitem : item (P := Parser) c₁ with
    | mk reported reply =>
      cases reply with
      | fail a =>
        rw [runMany_of_fail hitem] at hend
        have hnil := hend
        rw [hc.rest_left, List.append_eq_nil_iff] at hnil
        have ht₂ : t₂ = [] := by
          rcases ht with ⟨-, h⟩ | ⟨k, r₁, r₂, h, -⟩
          · exact h
          · rw [hnil.2] at h
            cases h
        refine ⟨c₂, ?_, rfl, ?_⟩
        · rw [hc.rest_right, hnil.1, ht₂]
          rfl
        · rw [itemsFrom_of_rest_nil hend, List.nil_append]
      | ok i a₁ alt =>
        have hlt : a₁.left < c₁.left := left_lt_of_item (by rw [hitem]; rfl)
        rw [runMany_of_ok hitem hlt] at hclean hend
        obtain ⟨rfl, hclean⟩ := List.append_eq_nil_iff.1 hclean
        have hhere := itemHere_of_clean hitem
        obtain ⟨a₂, alt₂, hhere₂, hw⟩ := itemHere_beside ht hc hhere
        rw [itemsFrom_of_here (c := c₁) (by rw [hhere]; rfl),
          itemsFrom_of_here (c := c₂) (by rw [hhere₂]; rfl)]
        rcases hw with ⟨v', hw⟩ | ⟨hr₁, hr₂, hf₂⟩
        · obtain ⟨c', hr, hf, hitems⟩ := ih v'.length
            (hm ▸ (hw.left_lt_left hc).1 hlt) hw.beside hclean hend rfl
          exact ⟨c', hr, hf.trans hw.finish_right, by rw [hitems, List.cons_append]⟩
        · refine ⟨a₂, hr₂, hf₂, ?_⟩
          rw [itemsFrom_of_rest_nil (hr₁.trans htail), List.cons_append, List.nil_append]

end Beside

/-! ## Whole inputs -/

theorem any_of_next {c after : Cursor} {t : Lexeme} (hn : c.next? = some (t, after)) :
    any c = ⟨[], .ok t.node after none⟩ :=
  token_of_next hn rfl

theorem any_of_rest_nil {c : Cursor} (h : c.rest = []) : any c = ⟨[], .fail (c.unexpected [])⟩ :=
  token_of_rejected (by simp [h])

theorem runMany_any (c : Cursor) :
    (runMany any c).reported = [] ∧ (runMany any c).after.rest = [] := by
  induction hm : c.rest generalizing c with
  | nil =>
    rw [runMany_of_fail (any_of_rest_nil hm)]
    exact ⟨rfl, hm⟩
  | cons t rest ih =>
    obtain ⟨after, hn, hr, -, -⟩ := Cursor.next?_of_rest hm
    rw [runMany_of_ok (any_of_next hn) (left_lt_of_next? hn)]
    exact ih after hr

/-- Where tokens are left, they are reported and skipped. -/
theorem optional_trailing (c : Cursor) : ∃ reported rest after alt,
    optional trailing c = ⟨reported, .ok rest after alt⟩ ∧ after.rest = [] ∧
      (reported = [] ↔ c.rest = []) := by
  unfold trailing
  cases hrest : c.rest with
  | nil =>
    refine ⟨_, _, _, _, optional_of_fail (check_of_fail (bind_of_fail (any_of_rest_nil hrest))),
      hrest, iff_of_true rfl rfl⟩
  | cons t rest =>
    obtain ⟨mid, hn, -⟩ := Cursor.next?_of_rest hrest
    obtain ⟨-, hend⟩ := runMany_any mid
    have hread := bind_of_ok_ok (f := fun first => many any >>= fun _ => Pure.pure first)
      (any_of_next hn) (bind_of_ok_ok (p := many any) rfl rfl)
    exact ⟨_, _, _, _, optional_of_ok (check_of_ok hread), hend, by simp⟩

/-- A whole input is always read to its end, and without complaint just if its definitions are and
these are all of it. -/
theorem sourceFile_eq_ok (c : Cursor) : ∃ reported after alt,
    sourceFile (P := Parser) c = ⟨reported, .ok (itemsFrom c) after alt⟩ ∧
      (reported = [] ↔ (runMany item c).reported = [] ∧ (runMany item c).after.rest = []) := by
  obtain ⟨reported, rest, after, alt, htrailing, hend, hnil⟩ :=
    optional_trailing (runMany item c).after
  have hfinish : Parser.finish after = ⟨[], .ok () after none⟩ := by
    unfold Parser.finish
    rw [hend]
  refine ⟨_, after, _, bind_of_ok_ok (p := many item) rfl
    (bind_of_ok_ok htrailing (bind_of_ok_ok hfinish rfl)), ?_⟩
  simp only [List.append_nil, List.append_eq_nil_iff, hnil]

end Grammar

open Grammar

theorem parseTokens_eq_some (tokens : List Token) (id : UInt16) :
    ∃ file, (parseTokens tokens id).1 = some file ∧
      file.items = itemsFrom (tokenStream tokens id) := by
  obtain ⟨reported, after, alt, h, -⟩ := sourceFile_eq_ok (tokenStream tokens id)
  unfold parseTokens
  rw [h]
  exact ⟨_, rfl, rfl⟩

theorem items_of_parseTokens {tokens : List Token} {id : UInt16} {file : SourceFile}
    {diagnostics : List Diagnostic} (h : parseTokens tokens id = (some file, diagnostics)) :
    file.items = itemsFrom (tokenStream tokens id) := by
  obtain ⟨file', hfile, hitems⟩ := parseTokens_eq_some tokens id
  rw [h] at hfile
  cases hfile
  exact hitems

/-- Tokens which are parsed without complaint. -/
structure CleanStream (c : Cursor) : Prop where
  balanced : Balanced (c.rest.map Spanned.node)
  reported : (runMany item c).reported = []
  after : (runMany item c).after.rest = []

theorem tokenStream_clean {tokens : List Token} {id : UInt16}
    (h : (parseTokens tokens id).2 = []) : CleanStream (tokenStream tokens id) := by
  obtain ⟨reported, after, alt, hfile, hclean⟩ := sourceFile_eq_ok (tokenStream tokens id)
  unfold parseTokens at h
  rw [hfile] at h
  have hnil : reported = [] := List.map_eq_nil_iff.1 h
  obtain ⟨hreported, hafter⟩ := hclean.1 hnil
  exact ⟨(sourceFile_derives (hnil ▸ hfile)).balanced, hreported, hafter⟩

theorem tokenStream_append (us vs : List Token) (id : UInt16) :
    (tokenStream (us ++ vs) id).rest = (tokenStream us id).rest ++ (tokenStream vs id).rest := by
  simp [tokenStream, Cursor.start]

theorem tokenStream_finish_append (us vs : List Token) (id : UInt16)
    (h : (tokenStream vs id).rest ≠ []) :
    (tokenStream (us ++ vs) id).finish = (tokenStream vs id).finish := by
  have hne : vs ≠ [] := by
    rintro rfl
    exact h rfl
  have hend : tokensEnd (us ++ vs) = tokensEnd vs := by
    unfold tokensEnd
    rw [List.getLast?_append, List.getLast?_eq_some_getLast hne, Option.some_or]
  simp only [tokenStream, Cursor.start, hend]

/-- The definitions of a well-formed input come first in any input that goes on after it, if it ends
with a semicolon. -/
theorem itemsFrom_before {c₁ c₂ : Cursor} {more : List Lexeme} (h : CleanStream c₁)
    (hlast : ∀ t ∈ c₁.rest.getLast?, t.node = .control ';') (hrest : c₂.rest = c₁.rest ++ more)
    (hsource : c₁.finish.source = c₂.finish.source) :
    ∃ c', c'.rest = more ∧ c'.finish = c₂.finish ∧
      itemsFrom c₂ = itemsFrom c₁ ++ itemsFrom c' := by
  rcases List.eq_nil_or_concat c₁.rest with hnil | ⟨v, k, hv⟩
  · refine ⟨c₂, by rw [hrest, hnil, List.nil_append], rfl, ?_⟩
    rw [itemsFrom_of_rest_nil hnil, List.nil_append]
  · rw [List.concat_eq_append] at hv
    have hk : k.node = .control ';' := hlast k (by simp [hv])
    have hbalanced : Balanced (v.map Spanned.node) := by
      have := h.balanced
      rw [hv, List.map_append] at this
      exact this.dropLast (by rw [hk]; rfl)
    have hbeside : Cursor.Beside [k] (k :: more) v c₁ c₂ :=
      ⟨hv, by rw [hrest, hv]; simp, hbalanced, hsource, by simp⟩
    exact itemsFrom_beside (.inr ⟨k, [], more, rfl, rfl, hk⟩) rfl hbeside h.reported h.after

/-- The definitions of a well-formed input are read at any place that has just its tokens left. -/
theorem itemsFrom_after {c₁ c₂ : Cursor} (h : CleanStream c₁) (hrest : c₂.rest = c₁.rest)
    (hfinish : c₁.rest ≠ [] → c₁.finish = c₂.finish) : itemsFrom c₂ = itemsFrom c₁ := by
  by_cases hnil : c₁.rest = []
  · rw [itemsFrom_of_rest_nil hnil, itemsFrom_of_rest_nil (hrest.trans hnil)]
  · have hfinish := hfinish hnil
    have hbeside : Cursor.Beside [] [] c₁.rest c₁ c₂ :=
      ⟨by simp, by simp [hrest], h.balanced, by rw [hfinish], fun _ _ => hfinish⟩
    obtain ⟨c', hr, -, hitems⟩ :=
      itemsFrom_beside (.inl ⟨rfl, rfl⟩) rfl hbeside h.reported h.after
    rw [hitems, itemsFrom_of_rest_nil hr, List.append_nil]

/-- **Faults are contained.**  Between tokens that are parsed without complaint, of which the first
ones end with a semicolon or are none, and the others come after a semicolon, there may be any
tokens at all, with brackets that do not match: the definitions before and after them stay as they
are. -/
theorem parseTokens_contains (before gap after : List Token) (semicolon : Token) (id : UInt16)
    (file₁ file₂ : SourceFile) (hbefore : parseTokens before id = (some file₁, []))
    (hlast : ∀ k ∈ (grammarKinds before).getLast?, k = .control ';')
    (hsemicolon : semicolon.kind = .control ';')
    (hafter : parseTokens after id = (some file₂, [])) :
    ∃ file between, (parseTokens (before ++ gap ++ [semicolon] ++ after) id).1 = some file ∧
      file.items = file₁.items ++ between ++ file₂.items := by
  have hclean₁ := tokenStream_clean (congrArg Prod.snd hbefore)
  have hclean₂ := tokenStream_clean (congrArg Prod.snd hafter)
  have hitems₁ := items_of_parseTokens hbefore
  have hitems₂ := items_of_parseTokens hafter
  obtain ⟨file, hfile, hitems⟩ :=
    parseTokens_eq_some (before ++ gap ++ [semicolon] ++ after) id
  generalize hc : tokenStream (before ++ gap ++ [semicolon] ++ after) id = c at hitems
  have hrest : c.rest = (tokenStream before id).rest ++ ((tokenStream gap id).rest ++
      ⟨.control ';', semicolon.extent.inSource id⟩ :: (tokenStream after id).rest) := by
    rw [← hc, tokenStream_append, tokenStream_append, tokenStream_append]
    simp [tokenStream, Cursor.start, hsemicolon, TokenKind.isComment]
  have hlast' : ∀ t ∈ (tokenStream before id).rest.getLast?, t.node = .control ';' := by
    intro t ht
    refine hlast t.node ?_
    rw [← tokenStream_kinds before id, List.getLast?_map]
    exact Option.mem_map_of_mem _ ht
  obtain ⟨c', hrest', hfinish', h₁⟩ :=
    itemsFrom_before hclean₁ hlast' hrest (by rw [← hc]; rfl)
  obtain ⟨between, c'', hrest'', hfinish'', h₂⟩ := itemsFrom_past hrest' rfl hclean₂.balanced
  have h₃ := itemsFrom_after hclean₂ hrest'' fun hne => by
    rw [hfinish'', hfinish', ← hc]
    exact (tokenStream_finish_append _ _ id hne).symm
  refine ⟨file, between, hfile, ?_⟩
  rw [hitems, hitems₁, hitems₂, h₁, h₂, h₃, List.append_assoc]

/-- Garbage with an unclosed brace and a parenthesis that closes nothing, between `a :: null;` and
`b :: {};`. -/
theorem parseTokens_contains_unclosed :
    let before : List Token :=
      [⟨.ident "a", ⟨0, 1⟩⟩, ⟨.digraph .pathSep, ⟨2, 4⟩⟩, ⟨.keyword "null", ⟨5, 9⟩⟩,
        ⟨.control ';', ⟨9, 10⟩⟩]
    let gap : List Token :=
      [⟨.ident "x", ⟨11, 12⟩⟩, ⟨.digraph .pathSep, ⟨12, 14⟩⟩, ⟨.control '{', ⟨14, 15⟩⟩,
        ⟨.control ')', ⟨15, 16⟩⟩]
    let after : List Token :=
      [⟨.ident "b", ⟨18, 19⟩⟩, ⟨.digraph .pathSep, ⟨20, 22⟩⟩, ⟨.control '{', ⟨23, 24⟩⟩,
        ⟨.control '}', ⟨24, 25⟩⟩, ⟨.control ';', ⟨25, 26⟩⟩]
    ∃ file₁ file₂ file between,
      parseTokens before 0 = (some file₁, []) ∧ parseTokens after 0 = (some file₂, []) ∧
      (∀ k ∈ (grammarKinds before).getLast?, k = .control ';') ∧
      (parseTokens (before ++ gap ++ [⟨.control ';', ⟨16, 17⟩⟩] ++ after) 0).1 = some file ∧
      file.items = file₁.items ++ between ++ file₂.items := by
  intro before gap after
  obtain ⟨file₁, h₁, -⟩ := parseTokens_eq_some before 0
  obtain ⟨file₂, h₂, -⟩ := parseTokens_eq_some after 0
  have hclean₁ : (parseTokens before 0).2 = [] := by decide +kernel
  have hclean₂ : (parseTokens after 0).2 = [] := by decide +kernel
  have hlast : ∀ k ∈ (grammarKinds before).getLast?, k = .control ';' := by decide
  have hbefore : parseTokens before 0 = (some file₁, []) := Prod.ext h₁ hclean₁
  have hafter : parseTokens after 0 = (some file₂, []) := Prod.ext h₂ hclean₂
  obtain ⟨file, between, hfile, hitems⟩ :=
    parseTokens_contains before gap after ⟨.control ';', ⟨16, 17⟩⟩ 0 file₁ file₂ hbefore hlast rfl
      hafter
  exact ⟨file₁, file₂, file, between, hbefore, hafter, hlast, hfile, hitems⟩

end LunSyntax
