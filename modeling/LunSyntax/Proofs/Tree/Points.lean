import LunSyntax.Proofs.Text.Rows
import LunSyntax.Proofs.Text.Utf8
import LunSyntax.Proofs.Tree.Insertion

/-!
# Points of bytes

The rows of a source start at its first byte and after each new-line byte.  A point is found among
these starts, and is what counting the bytes before it tells.

* `pointAfter`: the point after some bytes, by counting them;
* `SourceIndex.rowsFrom_eq`: the rows of chars are those of their bytes;
* `SourceIndex.point_eq`: the point of a byte is the one after the bytes before it;
* `SourceIndex.point_byte_row`: the row of the first byte of a char, by counting chars;
* `SourceIndex.point_start`: its row starts no later than at the byte;
* `SourceIndex.point_row_search`: its row is found by halves.
-/

set_option autoImplicit false

namespace LunSyntax

/-- The byte of the new-line char. -/
def newline : UInt8 := 10

/-- The point after some bytes: the new-line bytes are counted, and the bytes since the last. -/
def pointAfter (before : List UInt8) : Point :=
  ⟨before.count newline, sinceLast newline before⟩

/-! ## Searching by halves -/

/-- In a list in order, the elements up to a number end where a search by halves does. -/
theorem partitionPoint_eq_takeWhile {starts : List Nat} (h : starts.Pairwise (· < ·)) (b : Nat) :
    Arena.partitionPoint (fun row => decide (starts[row]?.getD 0 ≤ b)) 0 starts.length =
      (starts.takeWhile fun start => decide (start ≤ b)).length := by
  have hmono : ∀ i j, 0 ≤ i → i ≤ j → j < starts.length →
      decide (starts[j]?.getD 0 ≤ b) = true → decide (starts[i]?.getD 0 ≤ b) = true := by
    intro i j _ hij hj hle
    rw [decide_eq_true_eq, List.getElem?_eq_getElem hj, Option.getD_some] at hle
    rw [decide_eq_true_eq, List.getElem?_eq_getElem (by omega), Option.getD_some]
    rcases Nat.lt_or_eq_of_le hij with hlt | rfl
    · have := List.pairwise_iff_getElem.1 h i j (by omega) hj hlt
      omega
    · exact hle
  obtain ⟨-, hle, hbefore, hafter⟩ := Arena.partitionPoint_spec (Nat.zero_le _) hmono
  generalize Arena.partitionPoint _ 0 starts.length = p at hle hbefore hafter ⊢
  have htake : ∀ start ∈ starts.take p, decide (start ≤ b) = true := by
    intro start hstart
    obtain ⟨i, hi, rfl⟩ := List.mem_take_iff_getElem.1 hstart
    have htrue := hbefore i (Nat.zero_le _) (by omega)
    rwa [List.getElem?_eq_getElem (by omega), Option.getD_some] at htrue
  have hdrop : (starts.drop p).takeWhile (fun start => decide (start ≤ b)) = [] := by
    rcases Nat.lt_or_eq_of_le hle with hlt | rfl
    · have hfalse := hafter p (Nat.le_refl _) hlt
      rw [List.getElem?_eq_getElem hlt, Option.getD_some] at hfalse
      rw [List.drop_eq_getElem_cons hlt, List.takeWhile_cons_of_neg (by simp [hfalse])]
    · rw [List.drop_length, List.takeWhile_nil]
  rw [← List.take_append_drop p starts, List.takeWhile_append_of_pos htake, hdrop, List.append_nil,
    List.length_take_of_le hle]

/-! ## Rows of a source -/

/-- The new-line byte is in no char but one. -/
theorem newline_mem_iff {c : Char} : newline ∈ String.utf8EncodeChar c ↔ c = '\n' := by
  rw [mem_utf8EncodeChar (by decide), ← Char.toNat_inj]
  rfl

theorem bytesOf_eq (cs : List Char) : bytesOf cs = (utf8Bytes cs).length := by
  induction cs with
  | nil => rfl
  | cons c cs ih =>
    rw [bytesOf_cons, utf8Bytes_cons, List.length_append, String.length_utf8EncodeChar, ih]

/-- New-line bytes are those of new-line chars. -/
theorem count_utf8Bytes (cs : List Char) : (utf8Bytes cs).count newline = cs.count '\n' := by
  induction cs with
  | nil => rfl
  | cons c cs ih =>
    rw [utf8Bytes_cons, List.count_append, ih, List.count_cons, Nat.add_comm]
    congr 1
    by_cases hc : c = '\n'
    · rw [hc]
      rfl
    · rw [List.count_eq_zero.2 (mt newline_mem_iff.1 hc), if_neg (by simpa using hc)]

theorem utf8ByteSize_eq (source : String) :
    source.utf8ByteSize = (utf8Bytes source.toList).length := by
  rw [← bytesOf_eq, bytesOf, String.ofList_toList]

namespace SourceIndex

/-- The rows of chars are those of their bytes. -/
theorem rowsFrom_eq (offset : Nat) (cs : List Char) :
    rowsFrom offset cs = rowStartsFrom newline offset (utf8Bytes cs) := by
  induction cs generalizing offset with
  | nil => rfl
  | cons c cs ih =>
    rw [rowsFrom, utf8Bytes_cons, rowStartsFrom_append, String.length_utf8EncodeChar]
    split
    · rename_i hc
      subst hc
      exact congrArg _ (ih _)
    · rename_i hc
      rw [rowStartsFrom_eq_nil (mt newline_mem_iff.1 hc), List.nil_append, ih]

variable (source : String)

theorem rowStarts_eq :
    (ofSource source).rowStarts = 0 :: rowStartsFrom newline 0 (utf8Bytes source.toList) :=
  congrArg _ (rowsFrom_eq 0 source.toList)

theorem rowStarts_pairwise : (ofSource source).rowStarts.Pairwise (· < ·) := by
  rw [rowStarts_eq]
  exact .cons (fun _ => lt_of_mem_rowStartsFrom) (rowStartsFrom_pairwise newline 0 _)

/-- The rows which start by a byte. -/
theorem takeWhile_rowStarts (b : Nat) :
    (ofSource source).rowStarts.takeWhile (fun start => decide (start ≤ b)) =
      0 :: rowStartsFrom newline 0 ((utf8Bytes source.toList).take b) := by
  have htake := takeWhile_rowStartsFrom newline 0 b (utf8Bytes source.toList)
  rw [Nat.zero_add] at htake
  rw [rowStarts_eq, List.takeWhile_cons_of_pos (by simp), htake]

/-- **The point of a byte** tells how many new-line bytes there are before it, and how many bytes
since the last of them. -/
theorem point_eq {b : Nat} (hb : b ≤ source.utf8ByteSize) :
    (ofSource source).point b = pointAfter ((utf8Bytes source.toList).take b) := by
  have hlast := getLast_rowStartsFrom newline ((utf8Bytes source.toList).take b)
  rw [List.length_take_of_le (by rwa [← utf8ByteSize_eq])] at hlast
  rw [point, takeWhile_rowStarts, pointAfter, List.length_cons, rowStartsFrom_length,
    Nat.add_sub_cancel, Nat.sub_eq_of_eq_add' hlast.symm]

/-- The bytes before the first one of a char are those of the chars before it. -/
theorem take_byte (i : Nat) : (utf8Bytes source.toList).take ((ofSource source).byte i) =
    utf8Bytes (source.toList.take i) := by
  have happend : utf8Bytes source.toList =
      utf8Bytes (source.toList.take i) ++ utf8Bytes (source.toList.drop i) := by
    rw [← utf8Bytes_append, List.take_append_drop]
  rw [byte_eq, bytesOf_eq, happend, List.take_left]

/-- The row of the first byte of a char tells how many new-line chars there are before it. -/
theorem point_byte_row (i : Nat) :
    ((ofSource source).point ((ofSource source).byte i)).row =
      (source.toList.take i).count '\n' := by
  rw [point_eq source (byte_le source i), take_byte, pointAfter, count_utf8Bytes]

/-- The row of a byte starts no later than at the byte, and the column is their difference. -/
theorem point_start (b : Nat) :
    ∃ start, (ofSource source).rowStarts[((ofSource source).point b).row]? = some start ∧
      start + ((ofSource source).point b).column = b := by
  have happend := List.takeWhile_append_dropWhile (l := (ofSource source).rowStarts)
    (p := fun start => decide (start ≤ b))
  have hall := List.all_takeWhile (l := (ofSource source).rowStarts)
    (p := fun start => decide (start ≤ b))
  have hne := takeWhile_rowStarts source b
  unfold point
  dsimp only
  generalize (ofSource source).rowStarts.takeWhile (fun start => decide (start ≤ b)) = before at *
  have hnil : before ≠ [] := by simp [hne]
  have hlast : before.getLast? = some (before.getLast hnil) := List.getLast?_eq_some_getLast hnil
  have hle : before.getLast hnil ≤ b := by
    simpa using List.all_eq_true.1 hall _ (List.getLast_mem hnil)
  refine ⟨before.getLast hnil, ?_, ?_⟩
  · rw [← happend, List.getElem?_append_left (by have := List.length_pos_iff.2 hnil; omega),
      ← List.getLast?_eq_getElem?, hlast]
  · rw [hlast, Option.getD_some]
    omega

/-- The row of a byte is the one before the first that starts later, searched for by halves. -/
theorem point_row_search (b : Nat) :
    Arena.partitionPoint
        (fun row => decide ((ofSource source).rowStarts[row]?.getD 0 ≤ b)) 0
        (ofSource source).rowStarts.length - 1 = ((ofSource source).point b).row :=
  congrArg (· - 1) (partitionPoint_eq_takeWhile (rowStarts_pairwise source) b)

end SourceIndex

end LunSyntax
