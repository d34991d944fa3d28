import LunSyntax.Text.Ansi

/-!
# Text without escape sequences

What is kept of a text is printed as it is, so nothing is left to remove.

* `stripFrom_printed`: chars which are kept are no controls but white space;
* `stripAnsi_idempotent`: removing escape sequences once is enough.
-/

set_option autoImplicit false

namespace LunSyntax

/-- A char which breaks off an escape sequence is printed. -/
theorem isPrinted_of_breaksOff {state : EscapeState} {c : Char} (h : breaksOff state c = true) :
    isPrinted c = true := by
  unfold breaksOff at h
  rw [isPrinted, Bool.or_eq_true, Bool.and_eq_true, decide_eq_true_eq, bne_iff_ne]
  rcases Bool.or_eq_true_iff.1 h with hlarge | hwhite
  · have := of_decide_eq_true hlarge
    exact .inr (by omega)
  · refine .inl ?_
    split at hwhite
    case h_4 => cases hwhite
    all_goals exact hwhite

/-- **Only printed chars are kept.** -/
theorem stripFrom_printed (state : EscapeState) (cs : List Char) :
    ∀ c ∈ stripFrom state cs, isPrinted c = true := by
  fun_induction stripFrom state cs with
  | case1 => simp
  | case2 c rest hprinted ih => exact List.forall_mem_cons.2 ⟨hprinted, ih⟩
  | case3 c rest _ ih => exact ih
  | case4 state c rest _ hbreaks ih =>
    exact List.forall_mem_cons.2 ⟨isPrinted_of_breaksOff hbreaks, ih⟩
  | case5 state c rest _ _ ih => exact ih

/-- A text of printed chars is kept. -/
theorem stripFrom_eq_self {cs : List Char} (h : ∀ c ∈ cs, isPrinted c = true) :
    stripFrom .ground cs = cs := by
  induction cs with
  | nil => rfl
  | cons c rest ih =>
    obtain ⟨hc, hrest⟩ := List.forall_mem_cons.1 h
    rw [stripFrom, if_pos hc, ih hrest]

/-- **Nothing is left to remove.** -/
theorem stripAnsi_idempotent (text : String) : stripAnsi (stripAnsi text) = stripAnsi text := by
  rw [stripAnsi, stripAnsi, String.toList_ofList, stripFrom_eq_self (stripFrom_printed _ _)]

theorem zero_not_mem_stripAnsi (text : String) : '\x00' ∉ (stripAnsi text).toList := by
  rw [stripAnsi, String.toList_ofList]
  intro hzero
  exact absurd (stripFrom_printed _ _ _ hzero) (by decide)

end LunSyntax
