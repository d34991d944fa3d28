import Mathlib.Data.Nat.Digits.Defs
import LunSyntax.Proofs.Token.Fidelity

/-!
# Values of integer literals

The digits of an integer stand for a number by their positions.  That number may be of any size, and
the value of the literal is the same number as long as it has 128 bits.

* `IntegerLit.positional`: the number that the digits stand for, without separators;
* `IntegerLit.Readable`: a literal as the lexer makes them, and `Numeral.readable`: that it does;
* `IntegerLit.Readable.value_eq`: the value of such a literal;
* `lex_integers`: so it is for all integers of a source.
-/

set_option autoImplicit false

namespace LunSyntax

/-- Digits stand for a number by their positions, the last one for as many ones. -/
theorem digitsValue_eq_ofDigits (radix : Nat) (digits : List Char) :
    digitsValue radix 0 digits =
      Nat.ofDigits radix (digits.reverse.map fun c => (digitOf? radix c).getD 0) := by
  rw [digitsValue, Nat.ofDigits_eq_foldr, List.foldr_map, List.foldr_reverse]
  simp only [Nat.cast_id, Nat.mul_comm radix, Nat.add_comm]

theorem digitOf?_zero {radix : Nat} (h : 0 < radix) : digitOf? radix '0' = some 0 := by
  have hvalue : digitValue? '0' = some 0 := by decide
  rw [digitOf?, hvalue, Option.filter_some, if_pos (decide_eq_true h)]

theorem digitOf?_plus (radix : Nat) : digitOf? radix '+' = none := by
  have hvalue : digitValue? '+' = none := by decide
  rw [digitOf?, hvalue, Option.filter_none]

namespace IntegerLit

/-- The digits without separators. -/
def plainDigits (lit : IntegerLit) : List Char := lit.digits.toList.filter (· != '_')

/-- The number that the digits stand for by their positions. -/
def positional (lit : IntegerLit) : Nat :=
  Nat.ofDigits lit.radix (lit.plainDigits.reverse.map fun c => (digitOf? lit.radix c).getD 0)

/-- A literal with digits of its radix only, where the radix is one that has as many digits. -/
structure Readable (lit : IntegerLit) : Prop where
  radix : radixAllowed lit.radix = true
  digits : ∀ c ∈ lit.plainDigits, (digitOf? lit.radix c).isSome = true

variable {lit lit' : IntegerLit}

theorem Readable.one_le_radix (h : lit.Readable) : 1 ≤ lit.radix := by
  have htwo := (Bool.and_eq_true_iff.1 h.radix).1
  rw [decide_eq_true_eq] at htwo
  omega

/-- **A literal has the value of its digits**, if there are any and 128 bits are enough. -/
theorem Readable.value_eq (h : lit.Readable) :
    lit.value =
      if lit.plainDigits ≠ [] ∧ lit.positional < 2 ^ 128 then some lit.positional else none := by
  change (readNumeral lit.radix maxValue lit.plainDigits).toOption = _
  by_cases hempty : lit.plainDigits = []
  · rw [hempty, if_neg (fun hboth => hboth.1 rfl)]
    rfl
  · have hsign : ∀ c ∈ lit.plainDigits.head?, c ≠ '+' := by
      rintro _ hc rfl
      have hdigit := h.digits _ (List.mem_of_mem_head? hc)
      rw [digitOf?_plus] at hdigit
      cases hdigit
    have hlimit : lit.positional ≤ maxValue ↔ lit.positional < 2 ^ 128 := by
      rw [maxValue]
      omega
    rw [readNumeral_eq hempty hsign, readDigits_eq h.one_le_radix h.digits (Nat.zero_le _),
      digitsValue_eq_ofDigits]
    change (if lit.positional ≤ maxValue then Except.ok lit.positional
      else Except.error NumeralFault.tooLarge).toOption = _
    by_cases hsmall : lit.positional < 2 ^ 128
    · rw [if_pos (hlimit.2 hsmall), if_pos ⟨hempty, hsmall⟩]
      rfl
    · rw [if_neg (mt hlimit.1 hsmall), if_neg (fun hboth => hsmall hboth.2)]
      rfl

/-- **Neither separators nor a tag nor zeros in front change the value** of a literal which has
digits. -/
theorem Readable.value_zeros (h : lit.Readable) (hdigits : lit.plainDigits ≠ [])
    (hradix : lit'.radix = lit.radix) {zeros : Nat}
    (hzeros : lit'.plainDigits = List.replicate zeros '0' ++ lit.plainDigits) :
    lit'.value = lit.value := by
  have hzero := digitOf?_zero h.one_le_radix
  have hpositional : lit'.positional = lit.positional := by
    rw [positional, positional, hradix, hzeros, List.reverse_append, List.map_append,
      List.reverse_replicate, List.map_replicate, hzero, Option.getD_some,
      Nat.ofDigits_append_replicate_zero]
  have hreadable : lit'.Readable := by
    refine ⟨hradix ▸ h.radix, fun c hc => ?_⟩
    rw [hzeros] at hc
    rw [hradix]
    rcases List.mem_append.1 hc with hc | hc
    · rw [List.eq_of_mem_replicate hc, hzero]
      rfl
    · exact h.digits c hc
  have hdigits' : lit'.plainDigits ≠ [] := by
    rw [hzeros]
    exact fun hnil => hdigits (List.append_eq_nil_iff.1 hnil).2
  rw [hreadable.value_eq, h.value_eq, hpositional]
  simp only [ne_eq, hdigits, hdigits', not_false_eq_true, true_and]

end IntegerLit

/-- **What the lexer takes for an integer can be read**: its digits are of the radix. -/
theorem Numeral.readable {radix : Nat} {digits : List Char} (h : Numeral radix digits)
    (tag : Option String) : IntegerLit.Readable ⟨radix, String.ofList digits, tag⟩ := by
  have hof : IntegerLit.radixAllowed radix = true →
      (∀ c ∈ digits, c ≠ '_' → (digitOf? radix c).isSome = true) →
      IntegerLit.Readable ⟨radix, String.ofList digits, tag⟩ := by
    refine fun hradix hdigits => ⟨hradix, fun c hc => ?_⟩
    rw [IntegerLit.plainDigits, String.toList_ofList, List.mem_filter] at hc
    exact hdigits c hc.1 (by simpa using hc.2)
  cases h with
  | binary _ hdigits =>
    refine hof (by decide) fun c hc hne => ?_
    rcases hdigits c hc with rfl | rfl | rfl
    · decide
    · decide
    · exact absurd rfl hne
  | octal _ hdigits => exact hof (by decide) fun c hc hne => (hdigits c hc).resolve_right hne
  | hexadecimal _ hdigits => exact hof (by decide) fun c hc _ => hdigits c hc
  | decimal hfirst hdigits =>
    refine hof (by decide) fun c hc hne => ?_
    have hdigit : c.isDigit = true := by
      rcases List.mem_cons.1 hc with rfl | hc
      · exact hfirst
      · exact (hdigits c hc).resolve_right hne
    rw [digitOf?_ten hdigit]
    rfl

/-- **Integers have the right value.**  The radix of an integer of a source is one that can be read.
The literal has a value iff it has a digit and the number that its digits stand for is of 128 bits,
and then this number is the value.  So a literal with other separators, another tag or zeros in
front has the same value. -/
theorem lex_integers (source : String) (id : UInt16) :
    ∀ t ∈ (lex source id).1, ∀ lit, t.kind = .literal (.integer lit) →
      IntegerLit.radixAllowed lit.radix = true ∧
      (∀ c ∈ lit.plainDigits, (digitOf? lit.radix c).isSome = true) ∧
      (∀ v, lit.value = some v ↔ lit.plainDigits ≠ [] ∧ v = lit.positional ∧ v < 2 ^ 128) ∧
      (lit.value = none ↔ lit.plainDigits = [] ∨ 2 ^ 128 ≤ lit.positional) ∧
      ∀ (lit' : IntegerLit) (zeros : Nat), lit.plainDigits ≠ [] → lit'.radix = lit.radix →
        lit'.plainDigits = List.replicate zeros '0' ++ lit.plainDigits →
        lit'.value = lit.value := by
  intro t ht lit hlit
  obtain ⟨lexeme, rest, -, -, hrule⟩ := (scan_munches 0 source.toList).rule rfl t ht
  have hreadable : lit.Readable := by
    rw [hlit] at hrule
    generalize hkind : TokenKind.literal (.integer lit) = kind at hrule
    cases hrule with
    | integer hnumeral _ =>
      cases hkind
      exact hnumeral.readable _
    | _ => cases hkind
  refine ⟨hreadable.radix, hreadable.digits, fun v => ?_, ?_,
    fun lit' zeros hdigits hradix hzeros => hreadable.value_zeros hdigits hradix hzeros⟩
  · rw [hreadable.value_eq, Option.ite_none_right_eq_some, Option.some.injEq]
    constructor
    · rintro ⟨⟨hdigits, hsmall⟩, rfl⟩
      exact ⟨hdigits, rfl, hsmall⟩
    · rintro ⟨hdigits, rfl, hsmall⟩
      exact ⟨⟨hdigits, hsmall⟩, rfl⟩
  · rw [hreadable.value_eq, ite_eq_right_iff]
    simp only [reduceCtorEq, imp_false, not_and_or, not_not, not_lt]

/-- An octal number with a tag, separators and a zero in front, which are no matter; and the first
number which is too large. -/
theorem lex_integers_octal :
    let lit : IntegerLit := ⟨8, "0_7_7", some "u8"⟩
    let large : IntegerLit := ⟨10, "340282366920938463463374607431768211456", none⟩
    let tokens := (lex "0o0_7_7'u8 340282366920938463463374607431768211456" 1).1
    tokens = [⟨.literal (.integer lit), ⟨0, 10⟩⟩, ⟨.literal (.integer large), ⟨11, 50⟩⟩] ∧
      lit.value = some 63 ∧ (⟨8, "0007_7", none⟩ : IntegerLit).value = lit.value ∧
      large.value = none := by
  intro lit large tokens
  have htokens : tokens =
      [⟨.literal (.integer lit), ⟨0, 10⟩⟩, ⟨.literal (.integer large), ⟨11, 50⟩⟩] := by
    decide +kernel
  have hlit : ⟨.literal (.integer lit), ⟨0, 10⟩⟩ ∈ tokens := by
    rw [htokens]
    exact List.mem_cons_self
  have hlarge : ⟨.literal (.integer large), ⟨11, 50⟩⟩ ∈ tokens := by
    rw [htokens]
    exact List.mem_cons_of_mem _ List.mem_cons_self
  obtain ⟨-, -, hvalue, -, hzeros⟩ := lex_integers _ 1 _ hlit lit rfl
  obtain ⟨-, -, -, hnone, -⟩ := lex_integers _ 1 _ hlarge large rfl
  exact ⟨htokens, (hvalue 63).2 ⟨by decide +kernel, by decide +kernel, by decide⟩,
    hzeros _ 2 (by decide +kernel) rfl (by decide +kernel), hnone.2 (.inr (by decide +kernel))⟩

end LunSyntax
