import Mathlib.Data.List.Induction

/-!
# Rows

The elements of a list stand in rows, each of which ends after a separator.  Where rows start tells
the row of a place and its column, and so does counting what is before the place.

* `rowStartsFrom`: where rows start after the first one, with `takeWhile_rowStartsFrom` for those
  which start by some place;
* `sinceLast`: how many elements there are since the last separator;
* `rowStartsFrom_length`, `getLast_rowStartsFrom`: the number of rows and the start of the last one,
  by counting.
-/

set_option autoImplicit false

namespace LunSyntax

section

variable {α : Type} [DecidableEq α] (separator : α)

/-- The offsets after separators, where the first element has a given offset. -/
def rowStartsFrom (offset : Nat) : List α → List Nat
  | [] => []
  | a :: rest =>
    if a = separator then (offset + 1) :: rowStartsFrom (offset + 1) rest
    else rowStartsFrom (offset + 1) rest

/-- The elements since the last separator, or since the first one. -/
def sinceLast (before : List α) : Nat := (before.reverse.takeWhile (· != separator)).length

/-! ## The elements since a separator -/

@[simp]
theorem sinceLast_nil : sinceLast separator [] = 0 := rfl

@[simp]
theorem sinceLast_concat (before : List α) (a : α) :
    sinceLast separator (before ++ [a]) =
      if a = separator then 0 else sinceLast separator before + 1 := by
  unfold sinceLast
  rw [List.reverse_append, List.reverse_singleton, List.singleton_append]
  split
  · rename_i ha
    rw [ha, List.takeWhile_cons_of_neg (by simp), List.length_nil]
  · rename_i ha
    rw [List.takeWhile_cons_of_pos (by simpa using ha), List.length_cons]

theorem sinceLast_le (before : List α) : sinceLast separator before ≤ before.length := by
  have hle := (List.takeWhile_sublist (l := before.reverse) (· != separator)).length_le
  rwa [List.length_reverse] at hle

/-! ## Starts of rows -/

theorem rowStartsFrom_append (offset : Nat) (before after : List α) :
    rowStartsFrom separator offset (before ++ after) =
      rowStartsFrom separator offset before ++
        rowStartsFrom separator (offset + before.length) after := by
  induction before generalizing offset with
  | nil => rfl
  | cons a before ih =>
    have hlength : offset + (a :: before).length = offset + 1 + before.length := by
      rw [List.length_cons]
      omega
    simp only [List.cons_append, rowStartsFrom, ih, hlength]
    split
    · rfl
    · rfl

variable {separator} {offset : Nat} {before : List α}

theorem rowStartsFrom_eq_nil (h : separator ∉ before) :
    rowStartsFrom separator offset before = [] := by
  induction before generalizing offset with
  | nil => rfl
  | cons a before ih =>
    rw [List.mem_cons, not_or] at h
    rw [rowStartsFrom, if_neg (Ne.symm h.1), ih h.2]

theorem lt_of_mem_rowStartsFrom {start : Nat}
    (h : start ∈ rowStartsFrom separator offset before) : offset < start := by
  induction before generalizing offset with
  | nil => cases h
  | cons a before ih =>
    rw [rowStartsFrom] at h
    split at h
    · rcases List.mem_cons.1 h with rfl | h
      · omega
      · have := ih h
        omega
    · have := ih h
      omega

variable (separator)

theorem rowStartsFrom_pairwise (offset : Nat) (before : List α) :
    (rowStartsFrom separator offset before).Pairwise (· < ·) := by
  induction before generalizing offset with
  | nil => exact .nil
  | cons a before ih =>
    rw [rowStartsFrom]
    split
    · exact .cons (fun _ => lt_of_mem_rowStartsFrom) (ih _)
    · exact ih _

/-- The rows which start by some place are those of the elements before it. -/
theorem takeWhile_rowStartsFrom (offset n : Nat) (all : List α) :
    (rowStartsFrom separator offset all).takeWhile (fun start => decide (start ≤ offset + n)) =
      rowStartsFrom separator offset (all.take n) := by
  induction all generalizing offset n with
  | nil => rw [List.take_nil, rowStartsFrom, List.takeWhile_nil]
  | cons a all ih =>
    cases n with
    | zero =>
      cases hrows : rowStartsFrom separator offset (a :: all) with
      | nil => rfl
      | cons start rows =>
        have hmem : start ∈ rowStartsFrom separator offset (a :: all) := by simp [hrows]
        have hlt := lt_of_mem_rowStartsFrom hmem
        rw [List.takeWhile_cons_of_neg (by simpa using hlt)]
        rfl
    | succ n =>
      have hn : offset + (n + 1) = offset + 1 + n := by omega
      rw [List.take_succ_cons, rowStartsFrom, rowStartsFrom, hn]
      split
      · rw [List.takeWhile_cons_of_pos (by simp), ih]
      · rw [ih]

theorem rowStartsFrom_length (offset : Nat) (before : List α) :
    (rowStartsFrom separator offset before).length = before.count separator := by
  induction before generalizing offset with
  | nil => rfl
  | cons a before ih =>
    rw [rowStartsFrom]
    split
    · rename_i ha
      rw [List.length_cons, ih, ha, List.count_cons_self]
    · rename_i ha
      rw [ih, List.count_cons_of_ne ha]

/-- The last row starts as many elements before the end as there are since the last separator. -/
theorem getLast_rowStartsFrom (before : List α) :
    ((0 :: rowStartsFrom separator 0 before).getLast?.getD 0) + sinceLast separator before =
      before.length := by
  induction before using List.reverseRecOn with
  | nil => rfl
  | append_singleton before a ih =>
    rw [rowStartsFrom_append, sinceLast_concat, List.length_append,
      List.length_singleton, ← List.cons_append]
    simp only [rowStartsFrom]
    split
    · rw [List.getLast?_concat]
      simp
    · rw [List.append_nil]
      omega

end

end LunSyntax
