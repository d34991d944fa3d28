import LunSyntax.Document.Reader
import LunSyntax.Proofs.Document.Nesting

/-!
# Reading back what was written

A reader gets a value back from the document the value is written as, unless the document has more
brackets one inside the other than may be opened.  Then it fails at the first bracket too many, and
at nothing else.

* `Reader.Recovers`: what that means of a reader, a document and a value;
* one rule for each kind of document and the reader of its kind: `Reader.recovers_str`,
  `Reader.recovers_list`, `Reader.recovers_record`, `Reader.recovers_variant` and so on;
* `Reader.Recovers.run`: what it means for a whole text.
-/

set_option autoImplicit false

namespace LunSyntax

/-! ## Spans -/

theorem splitAtFirst_append {sep : Char} {before : List Char} (h : sep ∉ before)
    (rest : List Char) : splitAtFirst sep (before ++ sep :: rest) = some (before, rest) := by
  induction before with
  | nil => rw [List.nil_append, splitAtFirst, if_pos rfl]
  | cons c more ih =>
    obtain ⟨hc, hmore⟩ := not_or.1 (fun hmem => h (List.mem_cons.2 hmem))
    rw [List.cons_append, splitAtFirst, if_neg (Ne.symm hc), ih hmore]
    rfl

theorem not_mem_toString {n : Nat} {c : Char} (h : c.isDigit = false) :
    c ∉ (toString n).toList :=
  fun hmem => Bool.false_ne_true (h.symm.trans (isDigit_of_mem_toString hmem))

/-- **A span is read from its text**, if its ends are offsets of a machine word. -/
theorem Span.ofText_text {s : Span} (hstart : s.start ≤ maxOffset) (hstop : s.stop ≤ maxOffset) :
    Span.ofText s.text = .ok s := by
  have htext : s.text.toList = (toString s.source.toNat).toList ++
      ':' :: ((toString s.start).toList ++ '-' :: (toString s.stop).toList) := by
    simp [Span.text, List.append_assoc]
  have hsource : s.source.toNat ≤ maxSource := Nat.le_of_lt_succ s.source.toNat_lt
  have hpart {n limit : Nat} (hn : n ≤ limit) :
      readPart limit (toString n).toList = .ok n := by
    rw [readPart, readNumeral_toString hn]
    rfl
  have hcolon : ':' ∉ (toString s.source.toNat).toList := not_mem_toString rfl
  have hminus : '-' ∉ (toString s.start).toList := not_mem_toString rfl
  simp only [Span.ofText, htext, splitAtFirst_append hcolon, splitAtFirst_append hminus,
    hpart hsource, hpart hstart, hpart hstop]
  change Except.ok (⟨s.source.toNat.toUInt16, s.start, s.stop⟩ : Span) = _
  rw [Nat.toUInt16, UInt16.ofNat_toNat]

namespace Reader

universe u v

open Document (jsonItemsBefore jsonFieldsBefore itemsDepth fieldsDepth)

variable {α β : Type} {r : Reader α} {f : α → Reader β} {a : α} {b : β} {c : Char}
  {text middle after : List Char} {P Q : Prop} {room : Nat}

/-! ## Success and failure -/

/-- The reader fails on a text at a bracket too many. -/
def Refuses (r : Reader α) (text : List Char) : Prop :=
  ∀ s : Scanner, s.rest = text → ∃ place s', r s = .fault ⟨.tooDeep, some place⟩ s'

theorem Refuses.bind (h : Refuses r text) : Refuses (r >>= f) text := by
  intro s hs
  obtain ⟨place, s', hr⟩ := h s hs
  refine ⟨place, s', ?_⟩
  change Reader.bind r f s = _
  rw [Reader.bind, hr]

theorem Reads.bind_refuses (hr : Reads r text a middle) (hf : Refuses (f a) middle) :
    Refuses (r >>= f) text := by
  intro s hs
  obtain ⟨s₁, hr, hs₁⟩ := hr s hs
  obtain ⟨place, s₂, hf⟩ := hf s₁ hs₁
  refine ⟨place, s₂, ?_⟩
  change Reader.bind r f s = _
  rw [Reader.bind, hr]
  exact hf

theorem Refuses.placed (h : Refuses r text) : Refuses r.placed text := by
  intro s hs
  obtain ⟨place, s', hr⟩ := h s hs
  exact ⟨place, s', by rw [Reader.placed, hr]⟩

theorem Refuses.closedBy {finish : Reader Unit} (h : Refuses r text) :
    Refuses (closedBy finish r) text := by
  intro s hs
  obtain ⟨place, s', hr⟩ := h s hs
  exact ⟨place, (finish s').scanner, by rw [Reader.closedBy, hr]⟩

theorem Reads.closedBy {finish : Reader Unit} (hr : Reads r text a middle)
    (hf : Reads finish middle () after) : Reads (closedBy finish r) text a after := by
  intro s hs
  obtain ⟨s₁, hr, hs₁⟩ := hr s hs
  obtain ⟨s₂, hf, hs₂⟩ := hf s₁ hs₁
  exact ⟨s₂, by simp only [Reader.closedBy, hr, hf], hs₂⟩

/-- The reader takes a value from the front of a text if the text fits, and else fails at a bracket
too many. -/
def Yields (r : Reader α) (text : List Char) (fits : Prop) (a : α) (after : List Char) : Prop :=
  (fits → Reads r text a after) ∧ (¬fits → Refuses r text)

theorem Reads.yields (h : Reads r text a after) (hfits : P) : Yields r text P a after :=
  ⟨fun _ => h, fun hnot => absurd hfits hnot⟩

theorem Yields.congr (h : Yields r text P a after) (hiff : P ↔ Q) : Yields r text Q a after :=
  ⟨fun hq => h.1 (hiff.2 hq), fun hq => h.2 fun hp => hq (hiff.1 hp)⟩

theorem Yields.bind (hr : Yields r text P a middle) (hf : Yields (f a) middle Q b after) :
    Yields (r >>= f) text (P ∧ Q) b after := by
  refine ⟨fun ⟨hp, hq⟩ => (hr.1 hp).bind (hf.1 hq), fun hnot => ?_⟩
  by_cases hp : P
  · exact (hr.1 hp).bind_refuses (hf.2 fun hq => hnot ⟨hp, hq⟩)
  · exact (hr.2 hp).bind

theorem Reads.bind_yields (hr : Reads r text a middle) (hf : Yields (f a) middle P b after) :
    Yields (r >>= f) text P b after :=
  ⟨fun hp => hr.bind (hf.1 hp), fun hp => hr.bind_refuses (hf.2 hp)⟩

theorem Yields.bind_reads (hr : Yields r text P a middle) (hf : Reads (f a) middle b after) :
    Yields (r >>= f) text P b after :=
  ⟨fun hp => (hr.1 hp).bind hf, fun hp => (hr.2 hp).bind⟩

theorem Yields.placed (h : Yields r text P a after) : Yields r.placed text P a after :=
  ⟨fun hp => (h.1 hp).placed, fun hp => (h.2 hp).placed⟩

/-- A loop which may take as many steps as the text has chars. -/
theorem Yields.left (loop : Nat → Reader α) (h : Yields (loop text.length) text P a after) :
    Yields (fun s => loop s.left s) text P a after := by
  refine ⟨fun hp s hs => ?_, fun hp s hs => ?_⟩
  · have hread := h.1 hp s hs
    rwa [← hs, ← s.left_eq] at hread
  · have hread := h.2 hp s hs
    rwa [← hs, ← s.left_eq] at hread

/-- Brackets around what is read with one bracket less to open. -/
theorem Yields.bracketed {γ : Type u} {finish : Reader Unit} {content : Nat → γ}
    {inside : γ → Reader α} {depth : Nat}
    (h : ∀ d, Yields (inside (content d)) text (depth ≤ d) a middle)
    (hf : Reads finish middle () after) (c : Char) (room : Nat) :
    Yields (bracketed finish ((deeper room content).map inside)) (c :: text) (depth + 1 ≤ room) a
      after := by
  cases room with
  | zero =>
    -- the opening bracket itself is one too many
    exact ⟨fun hle => absurd hle (by omega), fun _ s _ => ⟨_, _, rfl⟩⟩
  | succ d =>
    refine (reads_skip c text).bind_yields ?_
    refine ⟨fun hle => ?_, fun hle => ?_⟩
    · exact ((h d).1 (by omega)).closedBy hf
    · exact ((h d).2 (by omega)).closedBy

/-! ## Texts of documents -/

/-- What may follow a value: nothing, a comma or a closing bracket. -/
def Ends (text : List Char) : Prop := ∀ c ∈ text.head?, c ∈ [',', ']', '}']

theorem ends_nil : Ends [] := by
  rintro c ⟨⟩

theorem ends_cons (hc : c ∈ [',', ']', '}']) (rest : List Char) : Ends (c :: rest) := by
  rintro d ⟨⟩
  exact hc

theorem Ends.endsNumber (h : Ends text) : EndsNumber text := by
  intro c hc
  have hmem := h c hc
  simp only [List.mem_cons, List.not_mem_nil, or_false] at hmem
  rcases hmem with rfl | rfl | rfl <;> decide

theorem ends_jsonItemsBefore (items : List Document) :
    Ends (jsonItemsBefore (']' :: after) items) := by
  cases items with
  | nil => exact ends_cons (by decide) after
  | cons item rest => exact ends_cons (by decide) _

theorem ends_jsonFieldsBefore (fields : List (String × Document)) :
    Ends (jsonFieldsBefore ('}' :: after) fields) := by
  cases fields with
  | nil => exact ends_cons (by decide) after
  | cons field rest => exact ends_cons (by decide) _

theorem length_lt_jsonStringBefore (value : String) (after : List Char) :
    after.length < (jsonStringBefore value after).length := by
  have hle := length_le_jsonCharsBefore value.toList ('\x22' :: after)
  rw [List.length_cons] at hle
  rw [jsonStringBefore, List.length_cons]
  omega

mutual

theorem length_lt_jsonBefore (after : List Char) : ∀ d : Document,
    after.length < (d.jsonBefore after).length
  | .null | .bool true | .bool false | .list [] | .record [] => by
    simp only [Document.jsonBefore, List.length_cons]
    omega
  | .nat n => by
    obtain ⟨c, rest, heq, -⟩ := head_toString n
    simp only [Document.jsonBefore, heq, List.length_append, List.length_cons]
    omega
  | .char c => by
    simp only [Document.jsonBefore, List.length_append, List.length_cons]
    omega
  | .str value => length_lt_jsonStringBefore value after
  | .list (item :: rest) => by
    have hitem := length_lt_jsonBefore (jsonItemsBefore (']' :: after) rest) item
    have hrest := length_le_jsonItemsBefore (']' :: after) rest
    simp only [Document.jsonBefore, List.length_cons] at hrest ⊢
    omega
  | .record ((key, value) :: rest) => by
    have hkey := length_lt_jsonStringBefore key
      (':' :: value.jsonBefore (jsonFieldsBefore ('}' :: after) rest))
    have hvalue := length_lt_jsonBefore (jsonFieldsBefore ('}' :: after) rest) value
    have hrest := length_le_jsonFieldsBefore ('}' :: after) rest
    simp only [Document.jsonBefore, List.length_cons] at hkey hrest ⊢
    omega
  | .variant name content => by
    have hname := length_lt_jsonStringBefore name (':' :: content.jsonBefore ('}' :: after))
    have hcontent := length_lt_jsonBefore ('}' :: after) content
    simp only [Document.jsonBefore, List.length_cons] at hname hcontent ⊢
    omega

theorem length_le_jsonItemsBefore (after : List Char) : ∀ items : List Document,
    items.length + after.length ≤ (jsonItemsBefore after items).length
  | [] => Nat.le_of_eq (Nat.zero_add _)
  | item :: rest => by
    have hitem := length_lt_jsonBefore (jsonItemsBefore after rest) item
    have hrest := length_le_jsonItemsBefore after rest
    simp only [jsonItemsBefore, List.length_cons]
    omega

theorem length_le_jsonFieldsBefore (after : List Char) :
    ∀ fields : List (String × Document),
    fields.length + after.length ≤ (jsonFieldsBefore after fields).length
  | [] => Nat.le_of_eq (Nat.zero_add _)
  | (key, value) :: rest => by
    have hkey := length_lt_jsonStringBefore key
      (':' :: value.jsonBefore (jsonFieldsBefore after rest))
    have hvalue := length_lt_jsonBefore (jsonFieldsBefore after rest) value
    have hrest := length_le_jsonFieldsBefore after rest
    simp only [jsonFieldsBefore, List.length_cons] at hkey ⊢
    omega

end

theorem isJsonBlank_of_isDigit (h : c.isDigit = true) : isJsonBlank c = false := by
  rw [isJsonBlank]
  simp only [Bool.or_eq_false_iff, beq_eq_false_iff_ne]
  refine ⟨⟨⟨?_, ?_⟩, ?_⟩, ?_⟩ <;> (rintro rfl; cases h)

/-- How a document starts. -/
theorem jsonBefore_head (d : Document) (after : List Char) :
    ∃ c rest, d.jsonBefore after = c :: rest ∧ isJsonBlank c = false ∧ c ≠ ']' ∧
      (c = 'n' → d = .null) := by
  match d with
  | .null => exact ⟨_, _, rfl, by decide, by decide, fun _ => rfl⟩
  | .bool true | .bool false | .char _ | .str _ | .list [] | .list (_ :: _) | .record [] |
    .record (_ :: _) | .variant _ _ =>
    exact ⟨_, _, rfl, by decide, by decide, fun h => absurd h (by decide)⟩
  | .nat n =>
    obtain ⟨c, rest, heq, -⟩ := head_toString n
    have hc : c.isDigit = true := isDigit_of_mem_toString (heq ▸ List.mem_cons_self)
    refine ⟨c, rest ++ after, by rw [Document.jsonBefore, heq, List.cons_append],
      isJsonBlank_of_isDigit hc, ?_, ?_⟩
    · rintro rfl
      cases hc
    · rintro rfl
      cases hc

/-- With so many brackets to open, the reader gets the value back from the document: it succeeds if
the document is no deeper, and else fails at a bracket too many. -/
def Recovers (r : Reader α) (room : Nat) (d : Document) (a : α) : Prop :=
  ∀ after, Ends after → Yields r (d.jsonBefore after) (d.depth ≤ room) a after

variable {d : Document}

/-- A scalar opens no bracket. -/
theorem recovers_scalar (hd : d.depth = 0)
    (h : ∀ after, Ends after → Reads r (d.jsonBefore after) a after) : Recovers r room d a :=
  fun after hends => (h after hends).yields (hd ▸ Nat.zero_le room)

/-- What is made of the value does not matter to reading. -/
theorem Recovers.bind (h : Recovers r room d a) (hf : f a = Pure.pure b) :
    Recovers (r >>= f) room d b :=
  fun after hends => (h after hends).bind_reads (hf ▸ reads_pure b after)

theorem Recovers.map (h : Recovers r room d a) (g : α → β) : Recovers (g <$> r) room d (g a) :=
  h.bind rfl

/-! ## Scalars -/

theorem reads_valueStart (hc : isJsonBlank c = false) (rest : List Char) :
    Reads valueStart (c :: rest) c (c :: rest) :=
  (reads_peekValue hc rest).bind (reads_pure c (c :: rest))

theorem reads_stringWith {wanted value : String} {make : String → Except ReadCause α}
    (h : make value = .ok a) (after : List Char) :
    Reads (stringWith wanted make) (jsonStringBefore value after) a after := by
  refine ((reads_valueStart rfl _).bind ?_).placed
  refine (reads_skip '\x22' _).bind ((reads_string value after).bind ?_)
  rw [h]
  exact reads_pure a after

theorem recovers_str (value : String) : Recovers str room (.str value) value :=
  recovers_scalar rfl fun after _ => reads_stringWith rfl after

theorem recovers_char (c : Char) : Recovers char room (.char c) c := by
  refine recovers_scalar rfl fun after _ => ?_
  have htext : (Document.char c).jsonBefore after = jsonStringBefore (String.ofList [c]) after := by
    rw [jsonStringBefore, String.toList_ofList]
    rfl
  rw [htext]
  refine reads_stringWith ?_ after
  rw [String.toList_ofList]

theorem recovers_natUpTo {limit n : Nat} {wanted : String} (h : n ≤ limit)
    (hlimit : limit ≤ maxSignificand) : Recovers (natUpTo limit wanted) room (.nat n) n := by
  refine recovers_scalar rfl fun after hends => ?_
  have hread := reads_number (Nat.le_trans h hlimit) hends.endsNumber
  obtain ⟨c, rest, heq, -⟩ := head_toString n
  have hc : c.isDigit = true := isDigit_of_mem_toString (heq ▸ List.mem_cons_self)
  have hblank : isJsonBlank c = false := isJsonBlank_of_isDigit hc
  have hminus : c ≠ '-' := by
    rintro rfl
    cases hc
  rw [Document.jsonBefore]
  rw [heq, List.cons_append] at hread ⊢
  refine ((reads_valueStart hblank _).bind ?_).placed
  simp only [hminus, isDecimal_of_isDigit hc, decide_false, Bool.false_or, if_true, if_false,
    beq_eq_false_iff_ne.2 hminus]
  refine hread.bind ?_
  simp only [if_pos h]
  exact reads_pure n after

theorem recovers_word32 {n : Nat} (h : n ≤ 0xFFFFFFFF) : Recovers word32 room (.nat n) n :=
  recovers_natUpTo h (by decide)

theorem recovers_word64 {n : Nat} (h : n ≤ maxOffset) : Recovers word64 room (.nat n) n :=
  recovers_natUpTo h (Nat.le_refl _)

theorem recovers_place {s : Span} (hstart : s.start ≤ maxOffset) (hstop : s.stop ≤ maxOffset) :
    Recovers place room (.str s.text) s := by
  refine recovers_scalar rfl fun after _ => reads_stringWith ?_ after
  rw [Span.ofText_text hstart hstop]
  rfl

theorem recovers_bool (value : Bool) : Recovers bool room (.bool value) value := by
  refine recovers_scalar rfl fun after _ => ?_
  cases value with
  | true =>
    refine ((reads_valueStart rfl _).bind ?_).placed
    exact (reads_skip 't' _).bind ((reads_word ['r', 'u', 'e'] after).bind (reads_pure true after))
  | false =>
    refine ((reads_valueStart rfl _).bind ?_).placed
    exact (reads_skip 'f' _).bind
      ((reads_word ['a', 'l', 's', 'e'] after).bind (reads_pure false after))

theorem recovers_none : Recovers (option r) room .null none := by
  refine recovers_scalar rfl fun after _ => (reads_peekValue rfl _).bind ?_
  exact (reads_skip 'n' _).bind ((reads_word ['u', 'l', 'l'] after).bind (reads_pure none after))

/-- Only null stands for no value. -/
theorem Recovers.option (h : Recovers r room d a) (hd : d ≠ .null) :
    Recovers (Reader.option r) room d (some a) := by
  intro after hends
  obtain ⟨c, rest, heq, hblank, -, hnull⟩ := jsonBefore_head d after
  have hread := h after hends
  rw [heq] at hread ⊢
  refine (reads_peekValue hblank rest).bind_yields ?_
  have hc : some c ≠ some 'n' := fun hc => hd (hnull (Option.some.inj hc))
  rw [if_neg hc]
  exact hread.bind_reads (reads_pure _ after)

/-! ## Lists -/

theorem reads_listEnd (after : List Char) : Reads listEnd (']' :: after) () after :=
  (reads_peekValue rfl after).bind (reads_skip ']' after)

theorem reads_anotherItem_none (first : Bool) (after : List Char) :
    Reads (anotherItem first) (']' :: after) false (']' :: after) :=
  (reads_peekValue rfl after).bind (reads_pure false _)

theorem reads_anotherItem_first (d : Document) (after : List Char) :
    Reads (anotherItem true) (d.jsonBefore after) true (d.jsonBefore after) := by
  obtain ⟨c, rest, heq, hblank, hclose, -⟩ := jsonBefore_head d after
  rw [heq]
  refine (reads_peekValue hblank rest).bind ?_
  split
  · contradiction
  · rename_i hc
    exact absurd (Option.some.inj hc) hclose
  · exact reads_pure true _

theorem reads_anotherItem_next (d : Document) (after : List Char) :
    Reads (anotherItem false) (',' :: d.jsonBefore after) true (d.jsonBefore after) := by
  obtain ⟨c, rest, heq, hblank, hclose, -⟩ := jsonBefore_head d after
  rw [heq]
  refine (reads_peekValue rfl _).bind ((reads_skip ',' _).bind ?_)
  refine (reads_peekValue hblank rest).bind ?_
  split
  · rename_i hc
    exact absurd (Option.some.inj hc) hclose
  · exact reads_pure true _
  · contradiction

/-- One item, and those after it. -/
theorem Yields.itemsFrom {first : Bool} {fuel : Nat} {rest : List α}
    (hmore : Reads (anotherItem first) text true (d.jsonBefore middle))
    (hitem : Recovers r room d a) (hends : Ends middle)
    (hrest : Yields (itemsFrom r fuel false) middle P rest after) :
    Yields (itemsFrom r (fuel + 1) first) text (d.depth ≤ room ∧ P) (a :: rest) after :=
  hmore.bind_yields ((hitem middle hends).bind (hrest.bind_reads (reads_pure _ after)))

variable {toDocument : α → Document}

/-- All items after the first.  Every one of them takes a step of the loop. -/
theorem yields_itemsFrom (after : List Char) {items : List α}
    (h : ∀ a ∈ items, Recovers r room (toDocument a) a) : ∀ fuel, items.length < fuel →
    Yields (itemsFrom r fuel false) (jsonItemsBefore (']' :: after) (items.map toDocument))
      (itemsDepth (items.map toDocument) ≤ room) items (']' :: after) := by
  induction items with
  | nil =>
    intro fuel hfuel
    obtain ⟨fuel, rfl⟩ := Nat.exists_eq_succ_of_ne_zero (Nat.ne_of_gt hfuel)
    refine ((reads_anotherItem_none false after).bind ?_).yields (Nat.zero_le room)
    exact reads_pure [] _
  | cons a rest ih =>
    intro fuel hfuel
    obtain ⟨fuel, rfl⟩ := Nat.exists_eq_succ_of_ne_zero (Nat.ne_of_gt (Nat.zero_lt_of_lt hfuel))
    obtain ⟨ha, hrest⟩ := List.forall_mem_cons.1 h
    have hmore := reads_anotherItem_next (toDocument a)
      (jsonItemsBefore (']' :: after) (rest.map toDocument))
    refine (Yields.itemsFrom hmore ha (ends_jsonItemsBefore _)
      (ih hrest fuel (Nat.lt_of_succ_lt_succ hfuel))).congr ?_
    rw [List.map_cons, itemsDepth, Nat.max_le]

theorem yields_list {item : Nat → Reader α} {items : List α} {depth : Nat}
    (h : ∀ d, Yields (itemsFrom (item d) (text.length + 1) true) text (depth ≤ d) items
      (']' :: after)) :
    Yields (list (deeper room item)) ('[' :: text) (depth + 1 ≤ room) items after := by
  refine ((reads_valueStart rfl text).bind_yields ?_).placed
  rw [if_pos rfl]
  have hinside := fun d => Yields.left (fun n => itemsFrom (item d) (n + 1) true) (h d)
  exact Yields.bracketed hinside (reads_listEnd after) '[' room

/-- **A list is read back from its items**, each with one bracket less to open. -/
theorem recovers_list {item : Nat → Reader α} {items : List α}
    (h : ∀ d, ∀ a ∈ items, Recovers (item d) d (toDocument a) a) :
    Recovers (list (deeper room item)) room (.list (items.map toDocument)) items := by
  intro after hends
  cases items with
  | nil =>
    refine yields_list fun d => Reads.yields ?_ (Nat.zero_le d)
    exact (reads_anotherItem_none true after).bind (reads_pure [] _)
  | cons a rest =>
    refine yields_list fun d => ?_
    obtain ⟨ha, hrest⟩ := List.forall_mem_cons.1 (h d)
    have hitem := length_lt_jsonBefore
      (jsonItemsBefore (']' :: after) (rest.map toDocument)) (toDocument a)
    have hitems := length_le_jsonItemsBefore (']' :: after) (rest.map toDocument)
    rw [List.length_map] at hitems
    have hloop := yields_itemsFrom after hrest _
      (Nat.lt_of_le_of_lt (Nat.le_of_add_right_le hitems) hitem)
    refine (Yields.itemsFrom (reads_anotherItem_first (toDocument a) _) ha
      (ends_jsonItemsBefore _) hloop).congr ?_
    rw [List.map_cons, itemsDepth, Nat.max_le]

/-! ## Records -/

theorem reads_recordEnd (after : List Char) : Reads recordEnd ('}' :: after) () after :=
  (reads_peekValue rfl after).bind (reads_skip '}' after)

theorem reads_anotherKey_none (first : Bool) (after : List Char) :
    Reads (anotherKey first) ('}' :: after) none ('}' :: after) :=
  (reads_peekValue rfl after).bind (reads_pure none _)

theorem reads_anotherKey_first (key : String) (after : List Char) :
    Reads (anotherKey true) (jsonStringBefore key after) (some key) after :=
  (reads_peekValue rfl _).bind
    ((reads_skip '\x22' _).bind ((reads_string key after).bind (reads_pure _ after)))

theorem reads_anotherKey_next (key : String) (after : List Char) :
    Reads (anotherKey false) (',' :: jsonStringBefore key after) (some key) after :=
  (reads_peekValue rfl _).bind ((reads_skip ',' _).bind ((reads_peekValue rfl _).bind
    ((reads_skip '\x22' _).bind ((reads_string key after).bind (reads_pure _ after)))))

@[simp] theorem Fields.keys_nil : Fields.nil.keys = [] := rfl

@[simp] theorem Fields.keys_cons {types : List Type} (key : String) (r : Reader α)
    (absence : Absence α) (fields : Fields types) :
    (Fields.cons key r absence fields).keys = key :: fields.keys :=
  rfl

/-- The value of a field that an object lacks. -/
def Absence.value? : Absence α → Option α
  | refused => none
  | allowed a | anywhere a => some a

/-- The fields without a value get theirs from those which are still written, in this order; those
which are not written have one for that. -/
inductive Fields.Awaits (room : Nat) : {types : List Type} → Fields types → Slots types →
    List (String × Document) → Values types → Prop where
  | nil : Awaits room .nil () [] ()
  | filled {α : Type} {types : List Type} {key : String} {r : Reader α} {absence : Absence α}
      {fields : Fields types} {a : α} {slots : Slots types} {written : List (String × Document)}
      {values : Values types} (hrest : Awaits room fields slots written values) :
      Awaits room (.cons key r absence fields) (some a, slots) written (a, values)
  | next {α : Type} {types : List Type} {key : String} {r : Reader α} {absence : Absence α}
      {fields : Fields types} {a : α} {d : Document} {slots : Slots types}
      {written : List (String × Document)} {values : Values types}
      (hvalue : Recovers r room d a) (hrest : Awaits room fields slots written values) :
      Awaits room (.cons key r absence fields) (none, slots) ((key, d) :: written) (a, values)
  | absent {α : Type} {types : List Type} {key : String} {r : Reader α} {absence : Absence α}
      {fields : Fields types} {a : α} {slots : Slots types} {written : List (String × Document)}
      {values : Values types} (habsence : absence.value? = some a)
      (hrest : Awaits room fields slots written values) :
      Awaits room (.cons key r absence fields) (none, slots) written (a, values)

variable {types : List Type} {fields : Fields types} {slots : Slots types}
  {written : List (String × Document)} {values : Values types} {key : String}

theorem Fields.Awaits.mem_keys (h : fields.Awaits room slots written values) :
    ∀ field ∈ written, field.1 ∈ fields.keys := by
  induction h with
  | nil => exact fun field hmem => nomatch hmem
  | filled hrest ih | absent habsence hrest ih =>
    exact fun field hmem => List.mem_cons_of_mem _ (ih field hmem)
  | next hvalue hrest ih =>
    refine List.forall_mem_cons.2 ⟨List.mem_cons_self, fun field hmem => ?_⟩
    exact List.mem_cons_of_mem _ (ih field hmem)

/-- A key among those of the rest is passed on to them. -/
theorem Fields.fill?_rest {r : Reader α} {absence : Absence α} {slot : Option α}
    {wanted : String} {filled : Reader (Slots types)}
    (hkeys : (Fields.cons key r absence fields).keys.Nodup) (hwanted : wanted ∈ fields.keys)
    (h : fields.fill? wanted slots = some filled) :
    (Fields.cons key r absence fields).fill? wanted (slot, slots) =
      some (do return (slot, ← filled)) := by
  -- no two fields have the same key
  have hne : wanted ≠ key := by
    rintro rfl
    exact (List.nodup_cons.1 hkeys).1 hwanted
  cases slot with
  | none | some a =>
    rw [Fields.fill?, if_neg (by simpa using hne), h]
    rfl

/-- The next field that is written gets its value. -/
theorem Fields.Awaits.fill? (h : fields.Awaits room slots ((key, d) :: written) values)
    (hkeys : fields.keys.Nodup) :
    ∃ (filled : Reader (Slots types)) (slots' : Slots types), fields.fill? key slots = some filled ∧
      (∀ after, Ends after →
        Yields filled (':' :: d.jsonBefore after) (d.depth ≤ room) slots' after) ∧
      fields.Awaits room slots' written values := by
  -- the induction goes along the fields, past those which are filled or not written
  generalize hall : (key, d) :: written = all at h
  induction h with
  | nil => cases hall
  | @filled _ _ _ _ _ _ a _ _ _ hrest ih =>
    subst hall
    obtain ⟨filled, slots', heq, hread, hawaits⟩ := ih (List.nodup_cons.1 hkeys).2 rfl
    have hmem := hrest.mem_keys _ List.mem_cons_self
    refine ⟨_, (some a, slots'), fill?_rest hkeys hmem heq, fun after hends => ?_, .filled hawaits⟩
    exact (hread after hends).bind_reads (reads_pure _ after)
  | @next _ _ _ r _ _ a _ slots _ _ hvalue hrest ih =>
    cases hall
    refine ⟨do colon; return (some (← r), slots), (some a, slots), ?_, fun after hends => ?_,
      .filled hrest⟩
    · rw [Fields.fill?, if_pos (beq_self_eq_true _)]
    · exact (reads_colon _).bind_yields ((hvalue after hends).bind_reads (reads_pure _ after))
  | absent habsence hrest ih =>
    subst hall
    obtain ⟨filled, slots', heq, hread, hawaits⟩ := ih (List.nodup_cons.1 hkeys).2 rfl
    have hmem := hrest.mem_keys _ List.mem_cons_self
    refine ⟨_, (none, slots'), fill?_rest hkeys hmem heq, fun after hends => ?_,
      .absent habsence hawaits⟩
    exact (hread after hends).bind_reads (reads_pure _ after)

/-- Once all that is written was read, no field lacks its value. -/
theorem Fields.Awaits.complete (h : fields.Awaits room slots [] values) :
    fields.complete slots = .ok values := by
  generalize hall : [] = all at h
  induction h with
  | nil => rfl
  | filled hrest ih => rw [Fields.complete, ih hall]
  | next hvalue hrest ih => cases hall
  | @absent _ _ _ _ absence _ _ _ _ _ habsence hrest ih =>
    cases absence with
    | refused => cases habsence
    | allowed a | anywhere a =>
      cases habsence
      rw [Fields.complete, ih hall]

/-- One field, and those after it. -/
theorem Fields.Awaits.fromObject_next {strict first : Bool} {fuel : Nat}
    (h : fields.Awaits room slots ((key, d) :: written) values) (hkeys : fields.keys.Nodup)
    (hmore : Reads (anotherKey first) text (some key) (':' :: d.jsonBefore middle))
    (hends : Ends middle)
    (hrest : ∀ slots', fields.Awaits room slots' written values →
      Yields (fields.fromObject strict fuel false slots') middle P values after) :
    Yields (fields.fromObject strict (fuel + 1) first slots) text (d.depth ≤ room ∧ P) values
      after := by
  obtain ⟨filled, slots', heq, hread, hawaits⟩ := h.fill? hkeys
  refine hmore.bind_yields ?_
  simp only [heq]
  exact (hread middle hends).bind (hrest slots' hawaits)

/-- The end of an object of which all was read. -/
theorem Fields.Awaits.fromObject_end {strict first : Bool} {fuel : Nat}
    (h : fields.Awaits room slots [] values) (after : List Char) :
    Reads (fields.fromObject strict (fuel + 1) first slots) ('}' :: after) values
      ('}' :: after) := by
  refine (reads_anotherKey_none first after).bind ?_
  simp only [h.complete]
  exact reads_pure values _

/-- All fields after the first.  Every one of them takes a step of the loop. -/
theorem Fields.Awaits.fromObject {strict : Bool} (hkeys : fields.keys.Nodup)
    (after : List Char) :
    ∀ (written : List (String × Document)) (slots : Slots types) (fuel : Nat),
    fields.Awaits room slots written values → written.length < fuel →
    Yields (fields.fromObject strict fuel false slots) (jsonFieldsBefore ('}' :: after) written)
      (fieldsDepth written ≤ room) values ('}' :: after) := by
  intro written
  induction written with
  | nil =>
    intro slots fuel h hfuel
    obtain ⟨fuel, rfl⟩ := Nat.exists_eq_succ_of_ne_zero (Nat.ne_of_gt hfuel)
    exact (h.fromObject_end after).yields (Nat.zero_le room)
  | cons field rest ih =>
    intro slots fuel h hfuel
    obtain ⟨fuel, rfl⟩ := Nat.exists_eq_succ_of_ne_zero (Nat.ne_of_gt (Nat.zero_lt_of_lt hfuel))
    have hmore := reads_anotherKey_next field.1
      (':' :: field.2.jsonBefore (jsonFieldsBefore ('}' :: after) rest))
    refine (h.fromObject_next hkeys hmore (ends_jsonFieldsBefore rest) fun slots' h' =>
      ih slots' fuel h' (Nat.lt_of_succ_lt_succ hfuel)).congr ?_
    rw [fieldsDepth, Nat.max_le]

theorem yields_record {kind : RecordKind} {fields : Nat → Fields types} {depth : Nat}
    (h : ∀ d, Yields ((fields d).fromObject kind.strict (text.length + 1) true (fields d).empty)
      text (depth ≤ d) values ('}' :: after)) :
    Yields (record kind (deeper room fields)) ('{' :: text) (depth + 1 ≤ room) values after := by
  refine ((reads_valueStart rfl text).bind_yields ?_).placed
  have hinside := fun d =>
    Yields.left (fun n => (fields d).fromObject kind.strict (n + 1) true (fields d).empty) (h d)
  exact Yields.bracketed hinside (reads_recordEnd after) '{' room

/-- **A record is read back from its fields**, each with one bracket less to open. -/
theorem recovers_record {kind : RecordKind} {fields : Nat → Fields types}
    (hkeys : ∀ d, (fields d).keys.Nodup)
    (h : ∀ d, (fields d).Awaits d (fields d).empty written values) :
    Recovers (record kind (deeper room fields)) room (.record written) values := by
  intro after hends
  match written with
  | [] => exact yields_record fun d => ((h d).fromObject_end after).yields (Nat.zero_le d)
  | (key, value) :: rest =>
    refine yields_record fun d => ?_
    have hkey := length_lt_jsonStringBefore key
      (':' :: value.jsonBefore (jsonFieldsBefore ('}' :: after) rest))
    have hvalue := length_lt_jsonBefore (jsonFieldsBefore ('}' :: after) rest) value
    have hfields := length_le_jsonFieldsBefore ('}' :: after) rest
    rw [List.length_cons] at hkey
    refine ((h d).fromObject_next (hkeys d) (reads_anotherKey_first key _)
      (ends_jsonFieldsBefore rest) fun slots' h' =>
        h'.fromObject (hkeys d) after rest slots' _ (by omega)).congr ?_
    rw [fieldsDepth, Nat.max_le]

theorem deeper_map {γ : Type u} {δ : Type v} (room : Nat) (content : Nat → γ) (inside : γ → δ) :
    (deeper room content).map inside = deeper room fun d => inside (content d) := by
  cases room <;> rfl

/-- A record whose readers depend on more than the depth. -/
theorem recovers_record_map {γ : Type u} {kind : RecordKind} {content : Nat → γ}
    {fields : γ → Fields types}
    (hkeys : ∀ d, (fields (content d)).keys.Nodup)
    (h : ∀ d, (fields (content d)).Awaits d (fields (content d)).empty written values) :
    Recovers (record kind ((deeper room content).map fields)) room (.record written) values := by
  rw [deeper_map]
  exact recovers_record hkeys h

/-! ## Cases -/

variable {known : List String} {name : String} {content : Document} {bare : String → Option α}

theorem reads_caseName (hname : name ∈ known) (after : List Char) :
    Reads (caseName known) (jsonStringBefore name after) name after := by
  refine reads_stringWith ?_ after
  rw [if_pos (List.contains_iff_mem.2 hname)]

/-- **A case is read back from its name alone**, if it is one without content. -/
theorem recovers_bare {cases : Option (String → Case α)} (hname : name ∈ known)
    (hbare : bare name = some a) : Recovers (case known bare cases) room (.str name) a := by
  refine recovers_scalar rfl fun after _ => (reads_valueStart rfl _).bind ?_
  refine (reads_caseName hname after).bind ?_
  simp only [hbare]
  exact reads_pure a after

/-- **A case is read back from its name and its content.** -/
theorem recovers_variant {cases : Nat → String → Case α} (hname : name ∈ known)
    (h : ∀ d, ∃ r, cases d name = .content r ∧ Recovers r d content a) :
    Recovers (case known bare (deeper room cases)) room (.variant name content) a := by
  intro after hends
  refine (reads_valueStart rfl _).bind_yields ?_
  cases room with
  | zero => exact ⟨fun hle => absurd hle (by simp [Document.depth]), fun _ s _ => ⟨_, _, rfl⟩⟩
  | succ d =>
    obtain ⟨r, heq, hread⟩ := h d
    have hinside : Yields (caseInside known (cases d))
        (jsonStringBefore name (':' :: content.jsonBefore ('}' :: after))) (content.depth ≤ d) a
        ('}' :: after) := by
      refine (reads_caseName hname _).bind_yields ((reads_colon _).bind_yields ?_)
      simp only [heq]
      exact hread ('}' :: after) (ends_cons (by decide) after)
    refine ((reads_skip '{' _).bind_yields (hinside.bind_reads ?_)).congr
      Nat.succ_le_succ_iff.symm
    exact (reads_peekValue rfl after).bind ((reads_skip '}' after).bind (reads_pure a after))

/-- **A case is read back as the only field of a record.** -/
theorem recovers_singleton {sum : String} {cases : Nat → String → Reader α}
    (hname : name ∈ known) (h : ∀ d, Recovers (cases d name) d content a) :
    Recovers (singleton sum known (deeper room cases)) room (.record [(name, content)]) a := by
  intro after hends
  have hinside : ∀ d, Yields (onlyCase known (cases d))
      (jsonStringBefore name (':' :: content.jsonBefore ('}' :: after))) (content.depth ≤ d) a
      ('}' :: after) := by
    intro d
    refine (reads_anotherKey_first name _).bind_yields ?_
    simp only [if_pos (List.contains_iff_mem.2 hname)]
    refine (reads_colon _).bind_yields ((h d _ (ends_cons (by decide) after)).bind_reads ?_)
    exact (reads_anotherKey_none false after).bind (reads_pure a _)
  refine ((reads_valueStart rfl _).bind_yields ?_).placed
  refine (Yields.bracketed hinside (reads_recordEnd after) '{' room).congr ?_
  rw [Document.depth, fieldsDepth, fieldsDepth, Nat.max_zero]

/-! ## Whole texts -/

theorem Reads.run {source : String} (h : Reads r source.toList a []) : r.run source = .ok a := by
  obtain ⟨s, hr, hs⟩ := h (Scanner.start source) rfl
  obtain ⟨s', hpeek, -⟩ := reads_peekValue_nil s hs
  simp only [Reader.run, Bind.bind, Reader.bind, hr, hpeek]
  rfl

theorem Refuses.run {source : String} (h : Refuses r source.toList) :
    ∃ place, r.run source = .error ⟨.tooDeep, some place⟩ := by
  obtain ⟨place, s, hr⟩ := h (Scanner.start source) rfl
  exact ⟨place, by simp only [Reader.run, Bind.bind, Reader.bind, hr]⟩

/-- **A document is read back from its text**, unless more brackets are open at once than may be.
-/
theorem Recovers.run (h : Recovers r room d a) :
    (jsonNesting d.toJson ≤ room → r.run d.toJson = .ok a) ∧
      (room < jsonNesting d.toJson →
        ∃ place, r.run d.toJson = .error ⟨.tooDeep, some place⟩) := by
  have hread := h [] ends_nil
  rw [← String.toList_ofList (l := d.jsonBefore [])] at hread
  rw [Document.jsonNesting_toJson]
  exact ⟨fun hle => (hread.1 hle).run, fun hlt => (hread.2 (Nat.not_le.2 hlt)).run⟩

end Reader

end LunSyntax
