import LunSyntax.Text.Utf8

/-!
# Texts as bytes

The bytes of a text are those of its chars, one after the other, and reading them gives the text
again.

* `utf8Bytes`: the bytes of some chars, with `toList_toUTF8` for those of a string;
* `utf8Head_encode`: the first sequence of the bytes of some chars is that of the first char;
* `decodeUtf8_utf8Bytes`: the bytes of chars are read as these chars;
* `mem_utf8EncodeChar`: bytes below 128 are in no char but the one of their number;
* `utf8Head_multibyte`: other bytes start no char of ASCII, even among bytes which are no text, so
  `zero_not_mem_lossyChars`: a char of number zero is read from a zero only.
-/

set_option autoImplicit false

namespace LunSyntax

/-- The bytes of some chars. -/
def utf8Bytes (cs : List Char) : List UInt8 := cs.flatMap String.utf8EncodeChar

@[simp]
theorem utf8Bytes_nil : utf8Bytes [] = [] := rfl

theorem utf8Bytes_cons (c : Char) (cs : List Char) :
    utf8Bytes (c :: cs) = String.utf8EncodeChar c ++ utf8Bytes cs :=
  List.flatMap_cons

theorem utf8Bytes_append (cs ds : List Char) :
    utf8Bytes (cs ++ ds) = utf8Bytes cs ++ utf8Bytes ds :=
  List.flatMap_append

/-! ## Bytes of strings -/

/-- The bytes of an array from an index on are put behind those seen before. -/
theorem toList_loop (bytes : ByteArray) (i : Nat) (seen : List UInt8) :
    ByteArray.toList.loop bytes i seen = seen.reverse ++ bytes.data.toList.drop i := by
  fun_induction ByteArray.toList.loop bytes i seen with
  | case1 i seen h ih =>
    have hi : i < bytes.data.toList.length := h
    have hget : bytes.get! i = bytes.data.toList[i] := by
      simp only [ByteArray.get!]
      exact getElem!_pos bytes.data i hi
    rw [ih, List.reverse_cons, List.append_assoc, hget, List.drop_eq_getElem_cons hi]
    rfl
  | case2 i seen h =>
    have hi : bytes.data.toList.length ≤ i := Nat.le_of_not_lt h
    rw [List.drop_eq_nil_of_le hi, List.append_nil]

/-- The bytes of a string are those of its chars. -/
theorem toList_toUTF8 (s : String) : s.toUTF8.toList = utf8Bytes s.toList := by
  have hdata : s.toUTF8.data.toList = utf8Bytes s.toList := by
    rw [← String.ofList_toList (s := s)]
    simp only [String.toUTF8, String.toByteArray_ofList, String.toList_ofList, List.utf8Encode,
      List.data_toByteArray, utf8Bytes]
  rw [ByteArray.toList, toList_loop, hdata]
  rfl

/-! ## Reading the bytes of a char -/

theorem toNat_byte {n : Nat} (h : n < 256) : (UInt8.ofNat n).toNat = n :=
  UInt8.toNat_ofNat_of_lt' h

theorem continuation?_ofNat {n : Nat} (h : n < 64) :
    continuation? (UInt8.ofNat (n + 128)) = some n := by
  have hbyte := toNat_byte (n := n + 128) (by omega)
  have hrange : 0x80 ≤ UInt8.ofNat (n + 128) ∧ UInt8.ofNat (n + 128) ≤ 0xBF := by
    simp only [UInt8.le_iff_toNat_le, hbyte, UInt8.reduceToNat]
    omega
  rw [continuation?, if_pos hrange, hbyte, Nat.add_sub_cancel]

/-- A byte which goes on a sequence is taken to the code. -/
theorem readTail_succ {length code missing n : Nat} (h : n < 64) (rest : List UInt8) :
    readTail length code (missing + 1) (UInt8.ofNat (n + 128) :: rest) =
      readTail (length + 1) (code * 64 + n) missing rest := by
  rw [readTail, continuation?_ofNat h]

/-! A first byte tells how many are to follow, and the second one may not be any. -/

theorem utf8Head_one {n : Nat} (hn : n < 128) (rest : List UInt8) :
    utf8Head (UInt8.ofNat n) rest = .char (Char.ofNat n) 1 := by
  have hbyte := toNat_byte (n := n) (by omega)
  have hlt : UInt8.ofNat n < 0x80 := by
    simp only [UInt8.lt_iff_toNat_lt, hbyte, UInt8.reduceToNat]
    exact hn
  rw [utf8Head, if_pos hlt, hbyte]

theorem utf8Head_two {n : Nat} (hn : 2 ≤ n) (hn' : n < 32) (rest : List UInt8) :
    utf8Head (UInt8.ofNat (n + 192)) rest = readTail 1 n 1 rest := by
  have hbyte := toNat_byte (n := n + 192) (by omega)
  simp only [utf8Head, UInt8.lt_iff_toNat_lt, UInt8.le_iff_toNat_le, hbyte, UInt8.reduceToNat]
  rw [if_neg (by omega), if_pos (by omega), Nat.add_sub_cancel]

/-- Where a first byte leaves no choice for some bits of the second one, these are as it asks. -/
theorem mem_secondRange {n second : Nat} (hn : n < 256) (hsecond : second < 64)
    (he0 : n = 0xE0 → 32 ≤ second) (hed : n = 0xED → second < 32) (hf0 : n = 0xF0 → 16 ≤ second)
    (hf4 : n = 0xF4 → second < 16) :
    (secondRange (UInt8.ofNat n)).1 ≤ UInt8.ofNat (second + 128) ∧
      UInt8.ofNat (second + 128) ≤ (secondRange (UInt8.ofNat n)).2 := by
  have hbyte := toNat_byte hn
  have hbyte' := toNat_byte (n := second + 128) (by omega)
  simp only [secondRange, beq_iff_eq, ← UInt8.toNat_inj, hbyte, UInt8.le_iff_toNat_le, hbyte',
    UInt8.reduceToNat]
  by_cases h1 : n = 0xE0
  · have := he0 h1
    simp only [if_pos h1, UInt8.reduceToNat]
    omega
  by_cases h2 : n = 0xED
  · have := hed h2
    simp only [if_neg h1, if_pos h2, UInt8.reduceToNat]
    omega
  by_cases h3 : n = 0xF0
  · have := hf0 h3
    simp only [if_neg h1, if_neg h2, if_pos h3, UInt8.reduceToNat]
    omega
  by_cases h4 : n = 0xF4
  · have := hf4 h4
    simp only [if_neg h1, if_neg h2, if_neg h3, if_pos h4, UInt8.reduceToNat]
    omega
  · simp only [if_neg h1, if_neg h2, if_neg h3, if_neg h4, UInt8.reduceToNat]
    omega

theorem utf8Head_three {n second : Nat} (hn : n < 16) (hsecond : second < 64)
    (hlow : n = 0 → 32 ≤ second) (hhigh : n = 13 → second < 32) (rest : List UInt8) :
    utf8Head (UInt8.ofNat (n + 224)) (UInt8.ofNat (second + 128) :: rest) =
      readTail 1 n 2 (UInt8.ofNat (second + 128) :: rest) := by
  have hbyte := toNat_byte (n := n + 224) (by omega)
  have hrange := mem_secondRange (n := n + 224) (by omega) hsecond (by omega) (by omega) (by omega)
    (by omega)
  unfold utf8Head
  dsimp only
  rw [if_pos hrange]
  simp only [UInt8.lt_iff_toNat_lt, UInt8.le_iff_toNat_le, hbyte, UInt8.reduceToNat]
  rw [if_neg (by omega), if_neg (by omega), if_pos (by omega), if_pos (by omega),
    Nat.add_sub_cancel]

theorem utf8Head_four {n second : Nat} (hn : n < 5) (hsecond : second < 64)
    (hlow : n = 0 → 16 ≤ second) (hhigh : n = 4 → second < 16) (rest : List UInt8) :
    utf8Head (UInt8.ofNat (n + 240)) (UInt8.ofNat (second + 128) :: rest) =
      readTail 1 n 3 (UInt8.ofNat (second + 128) :: rest) := by
  have hbyte := toNat_byte (n := n + 240) (by omega)
  have hrange := mem_secondRange (n := n + 240) (by omega) hsecond (by omega) (by omega) (by omega)
    (by omega)
  unfold utf8Head
  dsimp only
  rw [if_pos hrange]
  simp only [UInt8.lt_iff_toNat_lt, UInt8.le_iff_toNat_le, hbyte, UInt8.reduceToNat]
  rw [if_neg (by omega), if_neg (by omega), if_pos (by omega), if_neg (by omega),
    Nat.add_sub_cancel]

/-- The bytes of a char, in front of any others, are read as that char. -/
theorem utf8Head_encode (c : Char) (rest : List UInt8) :
    ∃ first tail, String.utf8EncodeChar c = first :: tail ∧ tail.length = c.utf8Size - 1 ∧
      utf8Head first (tail ++ rest) = .char c c.utf8Size := by
  have hchar : Char.ofNat c.val.toNat = c := Char.ofNat_toNat c
  have hvalid : c.val.toNat < 0xD800 ∨ 0xDFFF < c.val.toNat ∧ c.val.toNat < 0x110000 := c.valid
  have hlength := String.length_utf8EncodeChar c
  unfold String.utf8EncodeChar at hlength ⊢
  generalize c.val.toNat = v at *
  dsimp only at hlength ⊢
  by_cases h1 : v ≤ 127
  · rw [if_pos h1] at hlength ⊢
    refine ⟨_, _, rfl, by rw [← hlength]; rfl, ?_⟩
    rw [utf8Head_one (by omega), hchar, ← hlength]
    rfl
  · rw [if_neg h1] at hlength ⊢
    by_cases h2 : v ≤ 2047
    · rw [if_pos h2] at hlength ⊢
      refine ⟨_, _, rfl, by rw [← hlength]; rfl, ?_⟩
      have hcode : v / 64 % 32 * 64 + v % 64 = v := by omega
      rw [utf8Head_two (by omega) (by omega), List.cons_append, readTail_succ (by omega), readTail,
        hcode, hchar, ← hlength]
      rfl
    · rw [if_neg h2] at hlength ⊢
      by_cases h3 : v ≤ 65535
      · rw [if_pos h3] at hlength ⊢
        refine ⟨_, _, rfl, by rw [← hlength]; rfl, ?_⟩
        have hcode : (v / 4096 % 16 * 64 + v / 64 % 64) * 64 + v % 64 = v := by omega
        rw [List.cons_append, utf8Head_three (by omega) (by omega) (by omega) (by omega),
          readTail_succ (by omega), List.cons_append, readTail_succ (by omega), readTail, hcode,
          hchar, ← hlength]
        rfl
      · rw [if_neg h3] at hlength ⊢
        refine ⟨_, _, rfl, by rw [← hlength]; rfl, ?_⟩
        have hcode :
            ((v / 262144 % 8 * 64 + v / 4096 % 64) * 64 + v / 64 % 64) * 64 + v % 64 = v := by
          omega
        rw [List.cons_append, utf8Head_four (by omega) (by omega) (by omega) (by omega),
          readTail_succ (by omega), List.cons_append, readTail_succ (by omega), List.cons_append,
          readTail_succ (by omega), readTail, hcode, hchar, ← hlength]
        rfl

/-- The bytes of chars are read as these chars. -/
theorem decodeUtf8From_utf8Bytes (index : Nat) (cs : List Char) :
    decodeUtf8From index (utf8Bytes cs) = .ok cs := by
  induction cs generalizing index with
  | nil => rw [utf8Bytes_nil, decodeUtf8From]
  | cons c cs ih =>
    obtain ⟨first, tail, hbytes, hlength, hhead⟩ := utf8Head_encode c (utf8Bytes cs)
    rw [utf8Bytes_cons, hbytes, List.cons_append, decodeUtf8From, hhead]
    dsimp only
    rw [← hlength, List.drop_left, ih]

/-- **The bytes of chars are well-formed.** -/
theorem decodeUtf8_utf8Bytes (cs : List Char) :
    decodeUtf8 (utf8Bytes cs) = .ok (String.ofList cs) := by
  rw [decodeUtf8, decodeUtf8From_utf8Bytes]
  rfl

/-! ## Bytes of single chars -/

/-- A byte below 128 is only in the char of its number. -/
theorem mem_utf8EncodeChar {b : UInt8} {c : Char} (hb : b.toNat < 128) :
    b ∈ String.utf8EncodeChar c ↔ c.toNat = b.toNat := by
  have hvalid : c.val.toNat < 0xD800 ∨ 0xDFFF < c.val.toNat ∧ c.val.toNat < 0x110000 := c.valid
  have hother : ∀ {n : Nat}, 128 ≤ n → n < 256 → b ≠ UInt8.ofNat n := by
    rintro n hn hn' rfl
    rw [toNat_byte hn'] at hb
    omega
  show _ ↔ c.val.toNat = b.toNat
  unfold String.utf8EncodeChar
  generalize c.val.toNat = v at *
  dsimp only
  by_cases h : v ≤ 127
  · rw [if_pos h, List.mem_singleton, ← UInt8.toNat_inj, toNat_byte (by omega), eq_comm]
  · rw [if_neg h]
    refine iff_of_false ?_ (by omega)
    split
    · simp only [List.mem_cons, List.not_mem_nil, or_false, not_or]
      exact ⟨hother (by omega) (by omega), hother (by omega) (by omega)⟩
    · split
      · simp only [List.mem_cons, List.not_mem_nil, or_false, not_or]
        exact ⟨hother (by omega) (by omega), hother (by omega) (by omega),
          hother (by omega) (by omega)⟩
      · simp only [List.mem_cons, List.not_mem_nil, or_false, not_or]
        exact ⟨hother (by omega) (by omega), hother (by omega) (by omega),
          hother (by omega) (by omega), hother (by omega) (by omega)⟩

/-! ## Bytes which may be no text -/

/-- A sequence that is not at its end goes on with a byte of six bits. -/
theorem readTail_succ_eq_char {length code missing stop : Nat} {bytes : List UInt8} {c : Char}
    (h : readTail length code (missing + 1) bytes = .char c stop) :
    ∃ b rest bits, bytes = b :: rest ∧ b.toNat = bits + 128 ∧ bits < 64 ∧
      readTail (length + 1) (code * 64 + bits) missing rest = .char c stop := by
  cases bytes with
  | nil => cases h
  | cons b rest =>
    unfold readTail continuation? at h
    split at h
    · rename_i bits hbits
      split at hbits
      · rename_i hrange
        simp only [UInt8.le_iff_toNat_le, UInt8.reduceToNat] at hrange
        have hbits := Option.some.inj hbits
        exact ⟨b, rest, bits, rfl, by omega, by omega, h⟩
      · cases hbits
    · cases h

/-- What the second byte may be after the first bytes which leave it no choice for some bits. -/
theorem secondRange_bounds {first second : UInt8}
    (h : (secondRange first).1.toNat ≤ second.toNat ∧
      second.toNat ≤ (secondRange first).2.toNat) :
    (first.toNat = 0xE0 → 0xA0 ≤ second.toNat) ∧ (first.toNat = 0xED → second.toNat ≤ 0x9F) ∧
      (first.toNat = 0xF0 → 0x90 ≤ second.toNat) ∧
      (first.toNat = 0xF4 → second.toNat ≤ 0x8F) := by
  have hfirst : ∀ n : UInt8, first.toNat = n.toNat → first = n := fun n => UInt8.toNat_inj.1
  refine ⟨fun hn => ?_, fun hn => ?_, fun hn => ?_, fun hn => ?_⟩
  · rw [hfirst 0xE0 hn] at h
    exact h.1
  · rw [hfirst 0xED hn] at h
    exact h.2
  · rw [hfirst 0xF0 hn] at h
    exact h.1
  · rw [hfirst 0xF4 hn] at h
    exact h.2

theorem toNat_ofNat_of_valid {n : Nat} (h : n.isValidChar) : (Char.ofNat n).toNat = n := by
  rw [Char.ofNat, dif_pos h]
  rfl

/-- Only a byte below 128 is a char of ASCII. -/
theorem utf8Head_multibyte {first : UInt8} {rest : List UInt8} {c : Char} {stop : Nat}
    (hfirst : 128 ≤ first.toNat) (h : utf8Head first rest = .char c stop) : 128 ≤ c.toNat := by
  -- the code is that of a char, and of one that needs as many bytes
  have hcode : ∀ {n : Nat}, 128 ≤ n → n < 0xD800 ∨ 0xDFFF < n ∧ n < 0x110000 →
      128 ≤ (Char.ofNat n).toNat := by
    intro n hn hvalid
    rw [toNat_ofNat_of_valid hvalid]
    exact hn
  unfold utf8Head at h
  dsimp only at h
  split at h
  · rename_i hlow
    simp only [UInt8.lt_iff_toNat_lt, UInt8.reduceToNat] at hlow
    omega
  split at h
  · rename_i htwo
    simp only [UInt8.le_iff_toNat_le, UInt8.reduceToNat] at htwo
    obtain ⟨_, _, bits, -, -, hbits, h⟩ := readTail_succ_eq_char h
    rw [readTail] at h
    cases h
    exact hcode (by omega) (by omega)
  split at h
  · rename_i hmore
    simp only [UInt8.le_iff_toNat_le, UInt8.reduceToNat] at hmore h
    split at h
    · cases h
    · rename_i second tail
      split at h
      · rename_i hrange
        obtain ⟨h0, h1, h2, h3⟩ := secondRange_bounds hrange
        split at h
        · obtain ⟨b, _, bits, hb, hbits, hlt, h⟩ := readTail_succ_eq_char h
          obtain ⟨_, _, bits', -, -, hlt', h⟩ := readTail_succ_eq_char h
          obtain ⟨rfl, -⟩ := List.cons.inj hb
          rw [readTail] at h
          cases h
          exact hcode (by omega) (by omega)
        · obtain ⟨b, _, bits, hb, hbits, hlt, h⟩ := readTail_succ_eq_char h
          obtain ⟨_, _, bits', -, -, hlt', h⟩ := readTail_succ_eq_char h
          obtain ⟨_, _, bits'', -, -, hlt'', h⟩ := readTail_succ_eq_char h
          obtain ⟨rfl, -⟩ := List.cons.inj hb
          rw [readTail] at h
          cases h
          exact hcode (by omega) (by omega)
      · cases h
  · cases h

theorem utf8Head_ne_zero {first : UInt8} {rest : List UInt8} {c : Char} {stop : Nat}
    (hfirst : first ≠ 0) (h : utf8Head first rest = .char c stop) : c ≠ '\x00' := by
  rintro rfl
  by_cases hlow : first < 0x80
  · have hlt := UInt8.lt_iff_toNat_lt.1 hlow
    rw [utf8Head, if_pos hlow] at h
    have hzero := congrArg Char.toNat (Utf8Head.char.inj h).1
    rw [toNat_ofNat_of_valid (.inl (Nat.lt_trans hlt (by decide)))] at hzero
    exact hfirst (UInt8.toNat_inj.1 hzero)
  · have hhigh : 128 ≤ first.toNat := UInt8.le_iff_toNat_le.1 (UInt8.not_lt.1 hlow)
    exact absurd (utf8Head_multibyte hhigh h) (by decide)

/-- **Bytes without a zero are read as a text without one**, whatever they are. -/
theorem zero_not_mem_lossyChars {bytes : List UInt8} (h : 0 ∉ bytes) :
    '\x00' ∉ lossyChars bytes := by
  fun_induction lossyChars bytes with
  | case1 => simp
  | case2 first rest c length hhead ih =>
    obtain ⟨hfirst, hrest⟩ := not_or.1 (mt List.mem_cons.2 h)
    have hrest := ih fun hmem => hrest (List.mem_of_mem_drop hmem)
    exact List.not_mem_cons_of_ne_of_not_mem
      (utf8Head_ne_zero (Ne.symm hfirst) hhead).symm hrest
  | case3 first rest length hhead ih =>
    obtain ⟨-, hrest⟩ := not_or.1 (mt List.mem_cons.2 h)
    have hrest := ih fun hmem => hrest (List.mem_of_mem_drop hmem)
    exact List.not_mem_cons_of_ne_of_not_mem (by decide) hrest
  | case4 first rest hhead => decide

end LunSyntax
