import LunSyntax.Text.Numeral

/-!
# The value of digits

`digitsValue` is the number that digits stand for in a radix, without any limit; `readDigits_eq`
says that reading digits of a radix gives it, unless it exceeds the limit.  A numeral without a sign
is read so: `readNumeral_eq`.  A number in decimal digits is read as itself: `readNumeral_toString`.

What is read as a number is nothing else: `readDigits_eq_ok_iff` for digits of a radix, and
`readNumeral_ten_iff` for decimal numerals, which `DecimalNumber` describes.
-/

set_option autoImplicit false

namespace LunSyntax

/-- The number that continues `value` by some digits; a char which is no digit counts nothing. -/
def digitsValue (radix : Nat) (value : Nat) (digits : List Char) : Nat :=
  digits.foldl (fun value c => value * radix + (digitOf? radix c).getD 0) value

theorem digitsValue_cons (radix value : Nat) (c : Char) (rest : List Char) :
    digitsValue radix value (c :: rest) =
      digitsValue radix (value * radix + (digitOf? radix c).getD 0) rest :=
  rfl

/-- More digits never make a number smaller. -/
theorem le_digitsValue {radix : Nat} (hr : 1 ≤ radix) (digits : List Char) :
    ∀ value, value ≤ digitsValue radix value digits := by
  induction digits with
  | nil => exact fun value => Nat.le_refl value
  | cons c rest ih =>
    intro value
    have hstep : value ≤ value * radix + (digitOf? radix c).getD 0 :=
      Nat.le_trans (Nat.le_mul_of_pos_right value hr) (Nat.le_add_right _ _)
    exact Nat.le_trans hstep (ih _)

/-- **Digits of the radix are read as the number they stand for, up to the limit.** -/
theorem readDigits_eq {radix limit : Nat} (hr : 1 ≤ radix) {digits : List Char}
    (hd : ∀ c ∈ digits, (digitOf? radix c).isSome = true) :
    ∀ {value : Nat}, value ≤ limit → readDigits radix limit value digits =
      if digitsValue radix value digits ≤ limit then .ok (digitsValue radix value digits)
      else .error .tooLarge := by
  induction digits with
  | nil =>
    intro value hv
    rw [readDigits, digitsValue, List.foldl_nil, if_pos hv]
  | cons c rest ih =>
    intro value hv
    obtain ⟨d, hdig⟩ := Option.isSome_iff_exists.1 (hd c (by simp))
    have hrest : ∀ c ∈ rest, (digitOf? radix c).isSome = true := fun x hx => hd x (by simp [hx])
    rw [readDigits, digitsValue_cons, hdig]
    simp only [Option.getD_some]
    split
    · rename_i hle
      exact ih hrest hle
    · rename_i hgt
      -- the number only grows from here on
      have := le_digitsValue hr rest (value * radix + d)
      rw [if_neg (by omega)]

/-- A numeral without a sign is all digits. -/
theorem readNumeral_eq {radix limit : Nat} {cs : List Char} (hne : cs ≠ [])
    (hsign : ∀ c ∈ cs.head?, c ≠ '+') :
    readNumeral radix limit cs = readDigits radix limit 0 cs := by
  obtain ⟨c, rest, rfl⟩ := List.exists_cons_of_ne_nil hne
  have hplus : c ≠ '+' := hsign c rfl
  rw [readNumeral]
  · exact List.cons_ne_nil c rest
  · exact fun h => hplus (List.cons.inj h).1
  · exact fun _ h => hplus (List.cons.inj h).1

/-- What can be read is all digits. -/
theorem isSome_digitOf?_of_readDigits {radix limit n : Nat} {digits : List Char} :
    ∀ {value : Nat}, readDigits radix limit value digits = .ok n →
      ∀ c ∈ digits, (digitOf? radix c).isSome = true := by
  induction digits with
  | nil => simp
  | cons c rest ih =>
    intro value h
    rw [readDigits] at h
    split at h
    · cases h
    · rename_i d hdigit
      split at h
      · simp only [List.forall_mem_cons, hdigit, Option.isSome_some, true_and]
        exact ih h
      · cases h

/-- **Digits are read as a number iff they are of the radix and stand for it**, within the limit. -/
theorem readDigits_eq_ok_iff {radix limit n : Nat} (hr : 1 ≤ radix) {digits : List Char} :
    readDigits radix limit 0 digits = .ok n ↔
      (∀ c ∈ digits, (digitOf? radix c).isSome = true) ∧
        n = digitsValue radix 0 digits ∧ n ≤ limit := by
  constructor
  · intro h
    have hdigits := isSome_digitOf?_of_readDigits h
    rw [readDigits_eq hr hdigits (Nat.zero_le limit)] at h
    split at h
    · rename_i hle
      cases h
      exact ⟨hdigits, rfl, hle⟩
    · cases h
  · rintro ⟨hdigits, rfl, hle⟩
    rw [readDigits_eq hr hdigits (Nat.zero_le limit), if_pos hle]

/-! ## Decimal digits -/

theorem toList_toString (n : Nat) : (toString n).toList = Nat.toDigits 10 n := by
  rw [Nat.toString_eq_ofList_toDigits, String.toList_ofList]

/-- A number is written in digits only. -/
theorem isDigit_of_mem_toString {n : Nat} {c : Char} (h : c ∈ (toString n).toList) :
    c.isDigit = true := by
  rw [toList_toString] at h
  exact Nat.isDigit_of_mem_toDigits (by decide) (by decide) h

/-- Only zero starts with the digit zero, which is then the only one. -/
theorem head_toString (n : Nat) :
    ∃ c rest, (toString n).toList = c :: rest ∧ (c = '0' → rest = []) := by
  rw [toList_toString]
  induction n using Nat.strongRecOn with
  | ind n ih =>
    by_cases hlt : n < 10
    · exact ⟨n.digitChar, [], Nat.toDigits_of_lt_base hlt, fun _ => rfl⟩
    · obtain ⟨c, rest, heq, hzero⟩ := ih (n / 10) (by omega)
      rw [Nat.toDigits_of_base_le (by decide) (by omega), heq]
      refine ⟨c, rest ++ [(n % 10).digitChar], rfl, fun hc => ?_⟩
      -- what comes before the last digit is not zero
      have hvalue := @Nat.ofDigitChars_ten_toDigits (n / 10)
      rw [heq, hzero hc, hc] at hvalue
      change 0 = n / 10 at hvalue
      omega

theorem digitOf?_ten {c : Char} (h : c.isDigit = true) :
    digitOf? 10 c = some (c.toNat - '0'.toNat) := by
  have hle : '0' ≤ c ∧ c ≤ '9' := by
    simpa [Char.isDigit, Char.le_def] using h
  have hten : c.toNat - '0'.toNat < 10 := by
    have := hle.2
    rw [Char.le_def, UInt32.le_iff_toNat_le] at this
    change c.toNat ≤ 57 at this
    change c.toNat - 48 < 10
    omega
  rw [digitOf?, digitValue?, if_pos hle, Option.filter_some, if_pos (by simpa using hten)]

theorem isSome_digitOf?_ten {c : Char} : (digitOf? 10 c).isSome = true ↔ c.isDigit = true := by
  constructor
  · intro h
    obtain ⟨d, hd⟩ := Option.isSome_iff_exists.1 h
    obtain ⟨hvalue, hlt⟩ := Option.filter_eq_some_iff.1 hd
    rw [decide_eq_true_eq] at hlt
    -- letters stand for ten and more
    unfold digitValue? at hvalue
    split at hvalue
    · rename_i hle
      simpa [Char.isDigit, Char.le_def] using hle
    · split at hvalue
      · cases hvalue
        omega
      · split at hvalue
        · cases hvalue
          omega
        · cases hvalue
  · intro h
    rw [digitOf?_ten h]
    rfl

theorem digitsValue_ten {digits : List Char} (h : ∀ c ∈ digits, c.isDigit = true) :
    ∀ value, digitsValue 10 value digits = Nat.ofDigitChars 10 digits value := by
  induction digits with
  | nil => exact fun value => rfl
  | cons c rest ih =>
    intro value
    obtain ⟨hc, hrest⟩ := List.forall_mem_cons.1 h
    rw [digitsValue_cons, ih hrest, digitOf?_ten hc, Option.getD_some, Nat.mul_comm]
    rfl

/-- **The digits of a number stand for it.** -/
theorem digitsValue_toString (n : Nat) : digitsValue 10 0 (toString n).toList = n := by
  rw [digitsValue_ten (fun c hc => isDigit_of_mem_toString hc), toList_toString,
    Nat.ofDigitChars_ten_toDigits]

/-- **A number is read from its decimal digits, up to the limit.** -/
theorem readNumeral_toString {n limit : Nat} (h : n ≤ limit) :
    readNumeral 10 limit (toString n).toList = .ok n := by
  have hread : readDigits 10 limit 0 (toString n).toList = .ok n := by
    rw [readDigits_eq (by decide) _ (Nat.zero_le limit), digitsValue_toString, if_pos h]
    intro c hc
    rw [digitOf?_ten (isDigit_of_mem_toString hc)]
    rfl
  rw [← hread, readNumeral_eq (by simp)]
  rintro _ hc rfl
  exact absurd (isDigit_of_mem_toString (List.mem_of_mem_head? hc)) (by decide)

/-! ## Decimal numerals -/

/-- Decimal digits, at least one, and the number that they stand for by their positions. -/
structure DecimalDigits (digits : List Char) (n : Nat) : Prop where
  nonempty : digits ≠ []
  decimal : ∀ c ∈ digits, c.isDigit = true
  value : n = Nat.ofDigitChars 10 digits 0

/-- Decimal digits, which may follow one plus sign. -/
def DecimalNumber (cs : List Char) (n : Nat) : Prop :=
  DecimalDigits cs n ∨ ∃ digits, cs = '+' :: digits ∧ DecimalDigits digits n

theorem readDigits_ten_iff {limit n : Nat} {digits : List Char} (hne : digits ≠ []) :
    readDigits 10 limit 0 digits = .ok n ↔ DecimalDigits digits n ∧ n ≤ limit := by
  rw [readDigits_eq_ok_iff (by decide)]
  simp only [isSome_digitOf?_ten]
  constructor
  · rintro ⟨hdecimal, hn, hle⟩
    exact ⟨⟨hne, hdecimal, hn.trans (digitsValue_ten hdecimal 0)⟩, hle⟩
  · rintro ⟨⟨-, hdecimal, hn⟩, hle⟩
    exact ⟨hdecimal, hn.trans (digitsValue_ten hdecimal 0).symm, hle⟩

theorem DecimalDigits.head_ne_plus {digits : List Char} {n : Nat} (h : DecimalDigits digits n) :
    ∀ c ∈ digits.head?, c ≠ '+' := by
  rintro _ hc rfl
  exact absurd (h.decimal _ (List.mem_of_mem_head? hc)) (by decide)

theorem readNumeral_plus {radix limit : Nat} {digits : List Char} (hne : digits ≠ []) :
    readNumeral radix limit ('+' :: digits) = readDigits radix limit 0 digits := by
  obtain ⟨c, rest, rfl⟩ := List.exists_cons_of_ne_nil hne
  rfl

/-- **A text is read as a number iff it is a decimal numeral for it**, within the limit. -/
theorem readNumeral_ten_iff {limit n : Nat} {cs : List Char} :
    readNumeral 10 limit cs = .ok n ↔ DecimalNumber cs n ∧ n ≤ limit := by
  constructor
  · intro h
    unfold readNumeral at h
    split at h
    · cases h
    · cases h
    · rename_i digits hne
      obtain ⟨hdigits, hle⟩ := (readDigits_ten_iff (by rintro rfl; exact hne rfl)).1 h
      exact ⟨.inr ⟨digits, rfl, hdigits⟩, hle⟩
    · rename_i hne _ _
      obtain ⟨hdigits, hle⟩ := (readDigits_ten_iff hne).1 h
      exact ⟨.inl hdigits, hle⟩
  · rintro ⟨hdigits | ⟨digits, rfl, hdigits⟩, hle⟩
    · rw [readNumeral_eq hdigits.nonempty hdigits.head_ne_plus]
      exact (readDigits_ten_iff hdigits.nonempty).2 ⟨hdigits, hle⟩
    · rw [readNumeral_plus hdigits.nonempty]
      exact (readDigits_ten_iff hdigits.nonempty).2 ⟨hdigits, hle⟩

end LunSyntax
