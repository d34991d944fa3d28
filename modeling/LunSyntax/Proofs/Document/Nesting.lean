import LunSyntax.Proofs.Document.Scanning

/-!
# How deep a document is

The brackets of a text are open one inside the other.  How many are open at once can be told from
the chars of the text alone, and from the document it is written from.

* `jsonNesting`: the number of brackets which are open at most at once in a text, where those in
  strings do not count;
* `Document.depth`: the number of lists, records and variants around the innermost value;
* `Document.jsonNesting_toJson`: both are the same.
-/

set_option autoImplicit false

namespace LunSyntax

/-- The number of brackets open at most at once from some char on, where so many are open before
it.  The flag tells whether the char is in a string. -/
def nestingFrom : Bool → Nat → List Char → Nat
  | _, depth, [] => depth
  | true, depth, '\\' :: _ :: rest => nestingFrom true depth rest
  | true, depth, c :: rest => nestingFrom (c != '\x22') depth rest
  | false, depth, c :: rest =>
    if c == '[' || c == '{' then nestingFrom false (depth + 1) rest
    else if c == ']' || c == '}' then max depth (nestingFrom false (depth - 1) rest)
    else nestingFrom (c == '\x22') depth rest

/-- The number of brackets open at most at once in a text. -/
def jsonNesting (text : String) : Nat := nestingFrom false 0 text.toList

namespace Document

mutual

/-- The number of brackets around the innermost value of a document. -/
def depth : Document → Nat
  | null | bool _ | nat _ | char _ | str _ => 0
  | list items => itemsDepth items + 1
  | record fields => fieldsDepth fields + 1
  | variant _ content => content.depth + 1

/-- The largest depth of some documents. -/
def itemsDepth : List Document → Nat
  | [] => 0
  | item :: rest => max item.depth (itemsDepth rest)

/-- The largest depth of the values of some fields. -/
def fieldsDepth : List (String × Document) → Nat
  | [] => 0
  | (_, value) :: rest => max value.depth (fieldsDepth rest)

end

end Document

/-! ## Strings -/

/-- What has no brackets and does not start or end a string. -/
theorem nestingFrom_plain {c : Char} (h : c ∉ ['[', '{', ']', '}', '\x22']) (depth : Nat)
    (rest : List Char) : nestingFrom false depth (c :: rest) = nestingFrom false depth rest := by
  simp only [List.mem_cons, List.not_mem_nil, or_false, not_or] at h
  obtain ⟨h1, h2, h3, h4, h5⟩ := h
  have hquote : (c == '\x22') = false := by simpa using h5
  simp [nestingFrom, h1, h2, h3, h4, hquote]

theorem nestingFrom_open {c : Char} (h : c = '[' ∨ c = '{') (depth : Nat) (rest : List Char) :
    nestingFrom false depth (c :: rest) = nestingFrom false (depth + 1) rest := by
  rcases h with rfl | rfl <;> rfl

theorem nestingFrom_close {c : Char} (h : c = ']' ∨ c = '}') (depth : Nat) (rest : List Char) :
    nestingFrom false (depth + 1) (c :: rest) =
      max (depth + 1) (nestingFrom false depth rest) := by
  rcases h with rfl | rfl <;> rfl

theorem nestingFrom_quoted {c : Char} (hback : c ≠ '\\') (hquote : c ≠ '\x22') (depth : Nat)
    (rest : List Char) : nestingFrom true depth (c :: rest) = nestingFrom true depth rest := by
  have hquote : (c != '\x22') = true := by simpa using hquote
  rw [nestingFrom, hquote]
  rintro _ _ rfl
  exact absurd rfl hback

theorem hexDigit_plain {d : Nat} (h : d < 16) : hexDigit d ≠ '\\' ∧ hexDigit d ≠ '\x22' := by
  revert d
  decide

/-- The chars of a string count nothing, however they are written. -/
theorem nestingFrom_escape (c : Char) (depth : Nat) (rest : List Char) :
    nestingFrom true depth (jsonEscape c ++ rest) = nestingFrom true depth rest := by
  rcases Reader.jsonEscape_cases c with
    ⟨letter, -, -, heq⟩ | ⟨hlow, heq⟩ | ⟨hquote, hback, -, heq⟩
  · rw [heq]
    rfl
  · rw [heq]
    have hfirst := hexDigit_plain (show c.toNat / 16 < 16 by omega)
    have hsecond := hexDigit_plain (show c.toNat % 16 < 16 by omega)
    change nestingFrom true depth ('0' :: '0' :: _ :: _ :: rest) = _
    rw [nestingFrom_quoted (by decide) (by decide), nestingFrom_quoted (by decide) (by decide),
      nestingFrom_quoted hfirst.1 hfirst.2, nestingFrom_quoted hsecond.1 hsecond.2]
  · rw [heq]
    exact nestingFrom_quoted hback hquote depth rest

theorem nestingFrom_chars (chars : List Char) (depth : Nat) (after : List Char) :
    nestingFrom true depth (jsonCharsBefore ('\x22' :: after) chars) =
      nestingFrom false depth after := by
  induction chars with
  | nil => rfl
  | cons c rest ih => rw [jsonCharsBefore, nestingFrom_escape, ih]

theorem nestingFrom_string (text : String) (depth : Nat) (after : List Char) :
    nestingFrom false depth (jsonStringBefore text after) = nestingFrom false depth after :=
  nestingFrom_chars text.toList depth after

theorem nestingFrom_nat (value depth : Nat) (after : List Char) :
    nestingFrom false depth ((toString value).toList ++ after) = nestingFrom false depth after := by
  have hdigits : ∀ c ∈ (toString value).toList, c.isDigit = true :=
    fun c hc => isDigit_of_mem_toString hc
  generalize (toString value).toList = digits at hdigits ⊢
  induction digits with
  | nil => rfl
  | cons c rest ih =>
    obtain ⟨hc, hrest⟩ := List.forall_mem_cons.1 hdigits
    rw [List.cons_append, nestingFrom_plain, ih hrest]
    intro hmem
    simp only [List.mem_cons, List.not_mem_nil, or_false] at hmem
    rcases hmem with rfl | rfl | rfl | rfl | rfl <;> cases hc

/-- A depth is never left below. -/
theorem le_nestingFrom (quoted : Bool) (depth : Nat) (cs : List Char) :
    depth ≤ nestingFrom quoted depth cs := by
  fun_induction nestingFrom quoted depth cs <;> omega

/-! ## Documents -/

namespace Document

mutual

theorem nestingFrom_jsonBefore (depth : Nat) (after : List Char) : ∀ d : Document,
    nestingFrom false depth (d.jsonBefore after) =
      max (depth + d.depth) (nestingFrom false depth after)
  | null => by
    have hle := le_nestingFrom false depth after
    rw [Document.depth, Nat.add_zero, Nat.max_eq_right hle]
    rfl
  | bool true => by
    have hle := le_nestingFrom false depth after
    rw [Document.depth, Nat.add_zero, Nat.max_eq_right hle]
    rfl
  | bool false => by
    have hle := le_nestingFrom false depth after
    rw [Document.depth, Nat.add_zero, Nat.max_eq_right hle]
    rfl
  | nat value => by
    have hle := le_nestingFrom false depth after
    rw [Document.depth, Nat.add_zero, Nat.max_eq_right hle]
    exact nestingFrom_nat value depth after
  | char value => by
    have hle := le_nestingFrom false depth after
    rw [Document.depth, Nat.add_zero, Nat.max_eq_right hle]
    exact nestingFrom_escape value depth _
  | str value => by
    have hle := le_nestingFrom false depth after
    rw [Document.depth, Nat.add_zero, Nat.max_eq_right hle]
    exact nestingFrom_string value depth after
  | list [] => rfl
  | list (item :: rest) => by
    have hle := le_nestingFrom false depth after
    rw [jsonBefore, nestingFrom_open (.inl rfl), nestingFrom_jsonBefore,
      nestingFrom_jsonItemsBefore, nestingFrom_close (.inl rfl), Document.depth, itemsDepth]
    omega
  | record [] => rfl
  | record ((key, value) :: rest) => by
    rw [jsonBefore, nestingFrom_open (.inr rfl), nestingFrom_string,
      nestingFrom_plain (by decide), nestingFrom_jsonBefore, nestingFrom_jsonFieldsBefore,
      nestingFrom_close (.inr rfl), Document.depth, fieldsDepth]
    omega
  | variant name content => by
    rw [jsonBefore, nestingFrom_open (.inr rfl), nestingFrom_string,
      nestingFrom_plain (by decide), nestingFrom_jsonBefore, nestingFrom_close (.inr rfl),
      Document.depth]
    omega

theorem nestingFrom_jsonItemsBefore (depth : Nat) (after : List Char) : ∀ items : List Document,
    nestingFrom false depth (jsonItemsBefore after items) =
      max (depth + itemsDepth items) (nestingFrom false depth after)
  | [] => by
    have hle := le_nestingFrom false depth after
    rw [jsonItemsBefore, itemsDepth, Nat.add_zero, Nat.max_eq_right hle]
  | item :: rest => by
    rw [jsonItemsBefore, nestingFrom_plain (by decide), nestingFrom_jsonBefore,
      nestingFrom_jsonItemsBefore, itemsDepth]
    omega

theorem nestingFrom_jsonFieldsBefore (depth : Nat) (after : List Char) :
    ∀ fields : List (String × Document),
    nestingFrom false depth (jsonFieldsBefore after fields) =
      max (depth + fieldsDepth fields) (nestingFrom false depth after)
  | [] => by
    have hle := le_nestingFrom false depth after
    rw [jsonFieldsBefore, fieldsDepth, Nat.add_zero, Nat.max_eq_right hle]
  | (key, value) :: rest => by
    rw [jsonFieldsBefore, nestingFrom_plain (by decide), nestingFrom_string,
      nestingFrom_plain (by decide), nestingFrom_jsonBefore, nestingFrom_jsonFieldsBefore,
      fieldsDepth]
    omega

end

/-- **The nesting of a text is the depth of the document it is written from.** -/
theorem jsonNesting_toJson (d : Document) : jsonNesting d.toJson = d.depth := by
  rw [jsonNesting, toJson, String.toList_ofList, nestingFrom_jsonBefore]
  simp [nestingFrom]

example : jsonNesting "[\x7b\x22a\x22:[1]\x7d,\x22[[[\\\x22[\x22]" = 3 := by decide

end Document

end LunSyntax
