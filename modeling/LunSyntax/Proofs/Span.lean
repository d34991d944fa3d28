import Mathlib.Algebra.Group.Nat.Defs
import LunSyntax.Ast.Document
import LunSyntax.Ast.Reader
import LunSyntax.Proofs.Document.Recovery

/-!
# Texts of spans

A span has one text that it is written as, and is read from all texts with the same three numbers:
signs and zeros in front do not matter.

* `Span.WrittenAs`: what the texts look like that a span is read from;
* `Span.ofText_eq_ok_iff`: it is read from these texts and from no others;
* `Span.ofJson_str`: so it is where the text is a string in JSON, and `Span.ofText_of_ofJson`:
  nothing else in JSON is a span;
* `spans_recover`: whatever a span was read from, it is read again from what it is written as.
-/

set_option autoImplicit false

namespace LunSyntax

/-! ## Parts -/

theorem splitAtFirst_eq_some_iff {sep : Char} {cs before after : List Char} :
    splitAtFirst sep cs = some (before, after) ↔ cs = before ++ sep :: after ∧ sep ∉ before := by
  constructor
  · intro h
    induction cs generalizing before with
    | nil => cases h
    | cons c rest ih =>
      rw [splitAtFirst] at h
      split at h
      · rename_i hc
        cases h
        simp [hc]
      · rename_i hc
        obtain ⟨⟨more, after'⟩, hrest, heq⟩ := Option.map_eq_some_iff.1 h
        cases heq
        obtain ⟨rfl, hsep⟩ := ih hrest
        refine ⟨rfl, ?_⟩
        rw [List.mem_cons, not_or]
        exact ⟨Ne.symm hc, hsep⟩
  · rintro ⟨rfl, hsep⟩
    exact splitAtFirst_append hsep after

theorem mapError_eq_ok {ε ε' α : Type} {f : ε → ε'} {x : Except ε α} {a : α} :
    x.mapError f = .ok a ↔ x = .ok a := by
  cases x with
  | ok b =>
    show (Except.ok b : Except ε' α) = .ok a ↔ _
    rw [Except.ok.injEq, Except.ok.injEq]
  | error e =>
    show (Except.error (f e) : Except ε' α) = .ok a ↔ _
    simp

theorem readPart_eq_ok_iff {limit n : Nat} {cs : List Char} :
    readPart limit cs = .ok n ↔ DecimalNumber cs n ∧ n ≤ limit := by
  rw [readPart, mapError_eq_ok, readNumeral_ten_iff]

/-! ## Texts -/

theorem except_bind_eq_ok {ε α β : Type} {x : Except ε α} {f : α → Except ε β} {b : β} :
    (x >>= f) = .ok b ↔ ∃ a, x = .ok a ∧ f a = .ok b := by
  cases x <;> simp [Bind.bind, Except.bind]

namespace Span

variable {s : Span} {text : String}

/-- A text is made of three numerals, the first of them up to the first colon and the second up to
the first dash after it.  They are those of the source and of two offsets of 64 bits, of which
neither has to be the larger one. -/
def WrittenAs (s : Span) (text : List Char) : Prop :=
  ∃ id start stop : List Char, text = id ++ ':' :: (start ++ '-' :: stop) ∧
    ':' ∉ id ∧ '-' ∉ start ∧
    (DecimalNumber id s.source.toNat ∧ s.source.toNat < 2 ^ 16) ∧
    (DecimalNumber start s.start ∧ s.start < 2 ^ 64) ∧
    DecimalNumber stop s.stop ∧ s.stop < 2 ^ 64

theorem le_maxOffset_iff {n : Nat} : n ≤ maxOffset ↔ n < 2 ^ 64 := by
  rw [maxOffset]
  omega

theorem toNat_toUInt16 {n : Nat} (h : n ≤ maxSource) : n.toUInt16.toNat = n := by
  rw [maxSource] at h
  rw [Nat.toUInt16_eq, UInt16.toNat_ofNat_of_lt']
  rw [UInt16.size]
  omega

/-- **A span is read from the texts it may be written as, and from no others.** -/
theorem ofText_eq_ok_iff : Span.ofText text = .ok s ↔ s.WrittenAs text.toList := by
  constructor
  · intro h
    unfold Span.ofText at h
    split at h
    · cases h
    · rename_i id offsets hid
      obtain ⟨n, hsource, h⟩ := except_bind_eq_ok.1 h
      split at h
      · cases h
      · rename_i start stop hoffsets
        obtain ⟨a, hstart, h⟩ := except_bind_eq_ok.1 h
        obtain ⟨b, hstop, h⟩ := except_bind_eq_ok.1 h
        cases h
        obtain ⟨htext, hcolon⟩ := splitAtFirst_eq_some_iff.1 hid
        obtain ⟨rfl, hdash⟩ := splitAtFirst_eq_some_iff.1 hoffsets
        obtain ⟨hid, hn⟩ := readPart_eq_ok_iff.1 hsource
        have hsource : DecimalNumber id n.toUInt16.toNat ∧ n.toUInt16.toNat < 2 ^ 16 :=
          ⟨(toNat_toUInt16 hn).symm ▸ hid, n.toUInt16.toNat_lt⟩
        rw [readPart_eq_ok_iff, le_maxOffset_iff] at hstart hstop
        exact ⟨id, start, stop, htext, hcolon, hdash, hsource, hstart, hstop⟩
  · rintro ⟨id, start, stop, htext, hcolon, hdash, ⟨hid, hn⟩, hstart, hstop⟩
    have hsource : readPart maxSource id = .ok s.source.toNat :=
      readPart_eq_ok_iff.2 ⟨hid, Nat.le_of_lt_succ hn⟩
    rw [← le_maxOffset_iff, ← readPart_eq_ok_iff] at hstart hstop
    simp only [Span.ofText, htext, splitAtFirst_append hcolon, splitAtFirst_append hdash,
      hsource, hstart, hstop]
    change Except.ok (⟨s.source.toNat.toUInt16, s.start, s.stop⟩ : Span) = _
    rw [Nat.toUInt16, UInt16.ofNat_toNat]

/-- What a span is read from has offsets of 64 bits, so it is read from its own text again. -/
theorem ofText_text_of_ofText (h : Span.ofText text = .ok s) : Span.ofText s.text = .ok s := by
  obtain ⟨-, -, -, -, -, -, -, ⟨-, hstart⟩, -, hstop⟩ := ofText_eq_ok_iff.1 h
  exact ofText_text (le_maxOffset_iff.2 hstart) (le_maxOffset_iff.2 hstop)

end Span

/-! ## Strings in JSON -/

namespace Reader

variable {α β : Type} {r : Reader α} {f : α → Reader β} {a : α} {b : β} {s s' : Scanner}

theorem bind_eq_ok : (r >>= f) s = .ok b s' ↔ ∃ a s₁, r s = .ok a s₁ ∧ f a s₁ = .ok b s' := by
  change Reader.bind r f s = _ ↔ _
  rw [Reader.bind]
  cases r s with
  | ok a s₁ => simp [and_assoc]
  | fault fault s₁ => simp

theorem placed_eq_ok : placed r s = .ok a s' ↔ r s = .ok a s' := by
  rw [placed]
  split
  · rename_i hr
    simp [hr]
  · rfl

/-- The reader takes a value from no text. -/
def Barren (r : Reader α) : Prop := ∀ s a s', r s ≠ .ok a s'

theorem barren_fail (cause : ReadCause) : Barren (fail (α := α) cause) :=
  fun _ _ _ h => by cases h

theorem barren_failNext (cause : ReadCause) : Barren (failNext (α := α) cause) :=
  fun _ _ _ h => by cases h

/-- Whatever is read before does not matter. -/
theorem Barren.after (h : ∀ a, Barren (f a)) : Barren (r >>= f) := by
  intro s b s' hb
  obtain ⟨a, s₁, -, hf⟩ := bind_eq_ok.1 hb
  exact h a s₁ b s' hf

theorem Barren.placed (h : Barren r) : Barren r.placed :=
  fun s a s' hr => h s a s' (placed_eq_ok.1 hr)

/-- Where a value of another type is wanted, there is no value. -/
theorem barren_wrongType (wanted : String) : Barren (wrongType (α := α) wanted) := by
  refine Barren.placed (.after fun c => ?_)
  split
  · exact .after fun _ => .after fun _ => barren_fail _
  · exact .after fun _ => .after fun _ => barren_fail _
  · exact .after fun _ => .after fun _ => barren_fail _
  · exact .after fun _ => .after fun _ => barren_fail _
  · exact .after fun _ => .after fun _ => barren_fail _
  · exact barren_fail _
  · exact barren_fail _
  · split
    · exact .after fun _ => barren_fail _
    · exact barren_failNext _
  · exact barren_failNext _

variable {wanted value : String} {make : String → Except ReadCause α} {after : List Char}

/-- What is made of a string was made of the text between the quotes. -/
theorem of_stringWith (h : stringWith wanted make s = .ok a s') :
    ∃ s₁ s₂ value, valueStart s = .ok '\x22' s₁ ∧ string s₁.advance = .ok value s₂ ∧
      make value = .ok a := by
  obtain ⟨c, s₁, hstart, h⟩ := bind_eq_ok.1 (placed_eq_ok.1 h)
  split at h
  · rename_i hquote
    obtain ⟨⟨⟩, s₂, hskip, h⟩ := bind_eq_ok.1 h
    cases hskip
    obtain ⟨value, s₃, hvalue, h⟩ := bind_eq_ok.1 h
    refine ⟨s₁, s₃, value, hquote ▸ hstart, hvalue, ?_⟩
    cases hmake : make value with
    | ok made =>
      rw [hmake] at h
      cases h
      rfl
    | error cause =>
      rw [hmake] at h
      exact absurd h (barren_fail cause _ _ _)
  · exact absurd h (barren_wrongType wanted _ _ _)

/-- So it is made of the string that was written. -/
theorem make_of_stringWith (h : stringWith wanted make s = .ok a s')
    (hs : s.rest = jsonStringBefore value after) : make value = .ok a := by
  obtain ⟨s₁, s₂, value', hstart, hstring, hmake⟩ := of_stringWith h
  obtain ⟨t₁, ht₁, hrest₁⟩ := reads_valueStart rfl _ s hs
  obtain rfl : t₁ = s₁ := by
    rw [ht₁] at hstart
    cases hstart
    rfl
  have hinside : t₁.advance.rest = jsonCharsBefore ('\x22' :: after) value.toList := by
    rw [Scanner.advance_rest, hrest₁, List.tail_cons]
  obtain ⟨t₂, ht₂, -⟩ := reads_string value after t₁.advance hinside
  rw [ht₂] at hstring
  cases hstring
  exact hmake

theorem of_run {source : String} (h : r.run source = .ok a) :
    ∃ s', r (Scanner.start source) = .ok a s' := by
  rw [Reader.run] at h
  split at h
  · rename_i a' s₁ hwhole
    cases h
    obtain ⟨a', s₂, hr, hpeek⟩ := bind_eq_ok.1 hwhole
    obtain ⟨next, s₃, -, hend⟩ := bind_eq_ok.1 hpeek
    split at hend
    · exact absurd hend (barren_failNext _ _ _ _)
    · cases hend
      exact ⟨s₂, hr⟩
  · cases h

end Reader

namespace Span

variable {s : Span} {source : String}

/-- **A string is a span in JSON iff its text is one.** -/
theorem ofJson_str (text : String) :
    Span.ofJson (Document.str text).toJson = .ok s ↔ Span.ofText text = .ok s := by
  constructor
  · intro h
    obtain ⟨s', hplace⟩ := Reader.of_run h
    have hrest : (Scanner.start (Document.str text).toJson).rest = jsonStringBefore text [] :=
      String.toList_ofList
    exact mapError_eq_ok.1 (Reader.make_of_stringWith hplace hrest)
  · intro h
    have hreads : Reader.Reads Reader.place (Document.str text).toJson.toList s [] := by
      rw [Document.toJson, String.toList_ofList]
      exact Reader.reads_stringWith (mapError_eq_ok.2 h) []
    exact hreads.run

/-- **Only a string is a span in JSON.** -/
theorem ofText_of_ofJson (h : Span.ofJson source = .ok s) :
    ∃ text, Span.ofText text = .ok s := by
  obtain ⟨s', hplace⟩ := Reader.of_run h
  obtain ⟨-, -, text, -, -, hmade⟩ := Reader.of_stringWith hplace
  exact ⟨text, mapError_eq_ok.1 hmade⟩

end Span

/-- **Spans are read from what they are written as.**  A span of 64-bit offsets, in whichever order,
is read back from its text.  A text is read as a span iff it is cut into three numerals of 16, 64
and 64 bits at its first colon and at the first dash after that.  From whatever text a span was
read, it is read again from its own text.  In JSON all this is true of strings, and nothing but a
string is read as a span. -/
theorem spans_recover :
    (∀ s : Span, s.start < 2 ^ 64 → s.stop < 2 ^ 64 →
      Span.ofText s.text = .ok s ∧ Span.ofJson s.toDocument.toJson = .ok s) ∧
    (∀ (text : String) (s : Span),
      (Span.ofText text = .ok s ↔ s.WrittenAs text.toList) ∧
      (Span.ofJson (Document.str text).toJson = .ok s ↔ s.WrittenAs text.toList)) ∧
    (∀ (text : String) (s : Span), Span.ofText text = .ok s → Span.ofText s.text = .ok s) ∧
    ∀ (source : String) (s : Span), Span.ofJson source = .ok s →
      (∃ text, Span.ofText text = .ok s) ∧ Span.ofJson s.toDocument.toJson = .ok s := by
  refine ⟨fun s hstart hstop => ?_, fun text s => ?_, fun text s => Span.ofText_text_of_ofText,
    fun source s h => ?_⟩
  · have hread : Span.ofText s.text = .ok s :=
      Span.ofText_text (Span.le_maxOffset_iff.2 hstart) (Span.le_maxOffset_iff.2 hstop)
    exact ⟨hread, (Span.ofJson_str s.text).2 hread⟩
  · exact ⟨Span.ofText_eq_ok_iff, (Span.ofJson_str text).trans Span.ofText_eq_ok_iff⟩
  · obtain ⟨text, htext⟩ := Span.ofText_of_ofJson h
    have hread := Span.ofText_text_of_ofText htext
    exact ⟨⟨text, htext⟩, (Span.ofJson_str s.text).2 hread⟩

/-- The largest numbers, with signs and zeros in front, where the span ends before it starts. -/
theorem spans_recover_reversed :
    let s : Span := ⟨65535, 18446744073709551615, 7⟩
    let text := "+065535:18446744073709551615-+07"
    (Span.ofText s.text = .ok s ∧ Span.ofJson s.toDocument.toJson = .ok s) ∧
      Span.ofText text = .ok s ∧ s.text ≠ text ∧
      Span.ofJson (Document.str text).toJson = .ok s := by
  intro s text
  have hdigits {digits : List Char} {n : Nat} (hne : digits ≠ [])
      (hall : digits.all Char.isDigit = true) (hn : n = Nat.ofDigitChars 10 digits 0) :
      DecimalDigits digits n := ⟨hne, List.all_eq_true.1 hall, hn⟩
  have hwritten : s.WrittenAs text.toList :=
    ⟨"+065535".toList, "18446744073709551615".toList, "+07".toList, by decide, by decide, by decide,
      ⟨.inr ⟨"065535".toList, by decide, hdigits (by decide) (by decide) (by decide)⟩, by decide⟩,
      ⟨.inl (hdigits (by decide) (by decide) (by decide)), by decide⟩,
      .inr ⟨"07".toList, by decide, hdigits (by decide) (by decide) (by decide)⟩, by decide⟩
  exact ⟨spans_recover.1 s (by decide) (by decide), (spans_recover.2.1 text s).1.2 hwritten,
    by decide, (spans_recover.2.1 text s).2.2 hwritten⟩

end LunSyntax
