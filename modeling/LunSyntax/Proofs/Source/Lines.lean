import LunSyntax.Proofs.Grammar.Diagnostics
import LunSyntax.Proofs.Text.Rows

/-!
# Lines and rows

Readers see a source in lines, hosts see it in rows of bytes.  Where only new-line chars end lines,
both are the same up to the last one: there is a row after a new-line char at the end of the source,
but no line.

* `OnlyNewlines`: sources whose lines end with new-line chars only;
* `linesFrom_starts`: where their lines start;
* `SourceLines.locate?_eq`, `SourceLines.locate?_end`: the line and column of an offset, by counting
  the chars before it.
-/

set_option autoImplicit false

namespace LunSyntax

/-- The only chars which end lines are new-line chars. -/
def OnlyNewlines (cs : List Char) : Prop := ∀ c ∈ cs, endsLine c = true → c = '\n'

-- Over the list, since there are too many chars to go through all of them.
instance (cs : List Char) : Decidable (OnlyNewlines cs) :=
  List.decidableBAll (fun c => endsLine c = true → c = '\n') cs

/-! ## Lines -/

theorem OnlyNewlines.tail {c : Char} {cs : List Char} (h : OnlyNewlines (c :: cs)) :
    OnlyNewlines cs :=
  fun d hd => h d (List.mem_cons_of_mem _ hd)

/-- Lines start like rows, but there is none after the last char. -/
theorem linesFrom_starts {cs : List Char} (h : OnlyNewlines cs) (hne : cs ≠ []) (start : Nat) :
    (linesFrom start (lineChars cs)).map TextLine.start =
      start :: rowStartsFrom '\n' start cs.dropLast := by
  fun_induction lineChars cs generalizing start with
  | case1 => exact absurd rfl hne
  | case2 rest => exact absurd (h '\r' (List.mem_cons_self ..) (by decide)) (by decide)
  | case3 c rest hreturn hends ih =>
    obtain rfl := h c (List.mem_cons_self ..) hends
    rw [linesFrom, List.map_cons]
    cases rest with
    | nil => rfl
    | cons d rest =>
      rw [List.dropLast_cons_cons, rowStartsFrom, if_pos rfl]
      exact congrArg (start :: ·) (ih h.tail (by simp) (start + 1))
  | case4 c rest hreturn hends line more hrest ih =>
    have hc : c ≠ '\n' := by
      rintro rfl
      exact hends (by decide)
    have hne : rest ≠ [] := by
      rintro rfl
      cases hrest
    obtain ⟨d, rest, rfl⟩ := List.exists_cons_of_ne_nil hne
    have hstarts := ih h.tail (by simp) (start + 1)
    rw [hrest, linesFrom, List.map_cons, List.cons.injEq] at hstarts
    rw [linesFrom, List.map_cons, List.dropLast_cons_cons, rowStartsFrom, if_neg hc, ← hstarts.2,
      List.length_cons, Nat.add_right_comm, Nat.add_assoc]
  | case5 c rest hreturn hends hrest ih =>
    rw [lineChars_eq_nil hrest]
    rfl

/-- The last line that starts by an offset, where lines are searched as they are listed. -/
theorem lastStarting_eq (offset index : Nat) (line : TextLine) (lines : List TextLine) :
    let starts := (lines.map TextLine.start).takeWhile fun start => decide (start ≤ offset)
    (SourceLines.lastStarting offset (index, line) (index + 1) lines).1 = index + starts.length ∧
      (SourceLines.lastStarting offset (index, line) (index + 1) lines).2.start =
        (line.start :: starts).getLast?.getD 0 := by
  induction lines generalizing index line with
  | nil => exact ⟨rfl, rfl⟩
  | cons next lines ih =>
    rw [SourceLines.lastStarting, List.map_cons]
    split
    · rename_i hle
      rw [List.takeWhile_cons_of_pos (by simpa using hle)]
      obtain ⟨hindex, hstart⟩ := ih (index + 1) next
      refine ⟨by rw [hindex, List.length_cons]; omega, hstart.trans ?_⟩
      rw [List.getLast?_cons_cons]
    · rename_i hlt
      rw [List.takeWhile_cons_of_neg (by simpa using hlt)]
      exact ⟨rfl, rfl⟩

namespace SourceLines

variable {source : String}

theorem locate?_cons {first : TextLine} {lines : List TextLine}
    (hlines : linesFrom 0 (lineChars source.toList) = first :: lines) {offset : Nat}
    (hle : offset ≤ source.length) :
    (ofSource source).locate? offset = some ⟨(lastStarting offset (0, first) 1 lines).1,
      offset - (lastStarting offset (0, first) 1 lines).2.start⟩ := by
  unfold locate? ofSource
  rw [hlines]
  dsimp only
  rw [lineOf?]
  dsimp only
  rw [if_pos hle]
  rfl

/-- The line of an offset is found by counting, but the last char is never before it. -/
theorem locate?_rows (h : OnlyNewlines source.toList) (hne : source.toList ≠ []) {offset : Nat}
    (hle : offset ≤ source.length) :
    let before := source.toList.dropLast.take offset
    (ofSource source).locate? offset =
      some ⟨before.count '\n', offset - (before.length - sinceLast '\n' before)⟩ := by
  intro before
  have hstarts := linesFrom_starts h hne 0
  cases hlines : linesFrom 0 (lineChars source.toList) with
  | nil =>
    rw [hlines] at hstarts
    cases hstarts
  | cons first lines =>
    rw [hlines, List.map_cons, List.cons.injEq] at hstarts
    obtain ⟨hfirst, hrest⟩ := hstarts
    obtain ⟨hindex, hstart⟩ := lastStarting_eq offset 0 first lines
    have htake := takeWhile_rowStartsFrom '\n' 0 offset source.toList.dropLast
    have hlast := getLast_rowStartsFrom '\n' before
    simp only [Nat.zero_add] at htake hindex hstart
    rw [hrest, htake] at hindex hstart
    rw [hfirst] at hstart
    rw [locate?_cons hlines hle, hindex, hstart, rowStartsFrom_length,
      Nat.eq_sub_of_add_eq hlast]

theorem locate?_nil (hnil : source.toList = []) :
    (ofSource source).locate? 0 = some ⟨0, 0⟩ := by
  have hlength : (ofSource source).lines = [⟨0, []⟩] := by
    unfold ofSource
    rw [hnil]
    rfl
  unfold locate? lineOf?
  rw [hlength]
  rfl

/-- **Lines by counting.**  The line of an offset tells how many new-line chars there are before it,
and the column how many chars since the last of these; but the end of the source is still in the
line of its last char. -/
theorem locate?_eq (h : OnlyNewlines source.toList) {offset : Nat} (hle : offset ≤ source.length)
    (hend : offset = source.length → source.toList.getLast? ≠ some '\n') :
    (ofSource source).locate? offset =
      some ⟨(source.toList.take offset).count '\n',
        sinceLast '\n' (source.toList.take offset)⟩ := by
  rcases List.eq_nil_or_concat source.toList with hnil | ⟨init, last, hconcat⟩
  · have hlength : source.length = 0 := by rw [← String.length_toList, hnil, List.length_nil]
    obtain rfl : offset = 0 := by omega
    rw [locate?_nil hnil, List.take_zero, List.count_nil, sinceLast_nil]
  rw [List.concat_eq_append] at hconcat
  have hlength : source.length = init.length + 1 := by
    rw [← String.length_toList, hconcat, List.length_append, List.length_singleton]
  have hlocate := locate?_rows h (by simp [hconcat]) hle
  simp only [hconcat, List.dropLast_concat] at hlocate
  rw [hlocate, hconcat]
  rcases Nat.lt_or_eq_of_le hle with hlt | rfl
  · have hsince := sinceLast_le '\n' (init.take offset)
    rw [List.length_take_of_le (by omega)] at hsince
    rw [List.take_append_of_le_length (by omega), List.length_take_of_le (by omega),
      Nat.sub_sub_self hsince]
  · have hlast : last ≠ '\n' := by
      rintro rfl
      exact hend rfl (by rw [hconcat, List.getLast?_concat])
    have hsince := sinceLast_le '\n' init
    rw [List.take_of_length_le (by omega), List.take_of_length_le (by simp [hlength]),
      List.count_append, List.count_singleton, sinceLast_concat, if_neg hlast,
      if_neg (by simpa using hlast)]
    congr 2
    omega

/-- At the end, a new-line char before it still has the line it ends. -/
theorem locate?_end (h : OnlyNewlines source.toList) {init : List Char}
    (hend : source.toList = init ++ ['\n']) :
    (ofSource source).locate? source.length =
      some ⟨init.count '\n', sinceLast '\n' init + 1⟩ := by
  have hlength : source.length = init.length + 1 := by
    rw [← String.length_toList, hend, List.length_append, List.length_singleton]
  have hlocate := locate?_rows h (by simp [hend]) (Nat.le_refl source.length)
  have hsince := sinceLast_le '\n' init
  simp only [hend, List.dropLast_concat] at hlocate
  rw [hlocate, List.take_of_length_le (by omega), hlength]
  congr 2
  omega

end SourceLines

end LunSyntax
