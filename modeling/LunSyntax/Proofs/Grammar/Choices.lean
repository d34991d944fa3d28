import Mathlib.Data.List.Sort
import LunSyntax.Proofs.Parser.Wording

/-!
# Wording of what was expected

What a complaint expected is a set of tokens.  However they are ordered and repeated, the diagnostic
is the same, since what the tokens are called is sorted before it is worded.

* `sortUnique_ascending`, `sortUnique_congr`: sorting gives an ascending list, which depends only on
  what strings there are;
* `listChoices_eq`: a list of choices is an `enumeration` of them, which names each of them once;
* `Complaint.reason_of_unexpected`: how a complaint about an unexpected token is worded;
* `Complaint.toDiagnostic_orderless`: so a diagnostic does not depend on any order.
-/

set_option autoImplicit false

namespace LunSyntax

/-! ## Sorting -/

/-- Strings in ascending order, each once. -/
def Ascending (texts : List String) : Prop := texts.Pairwise (· < ·)

instance (texts : List String) : Decidable (Ascending texts) :=
  inferInstanceAs (Decidable (texts.Pairwise (· < ·)))

theorem insertSorted_ascending {s : String} {texts : List String} (h : Ascending texts) :
    Ascending (insertSorted s texts) := by
  fun_induction insertSorted s texts with
  | case1 => exact List.pairwise_singleton _ _
  | case2 => exact h
  | case3 t rest _ hlt =>
    obtain ⟨hhead, -⟩ := List.pairwise_cons.1 h
    refine List.pairwise_cons.2 ⟨fun u hu => ?_, h⟩
    rcases List.mem_cons.1 hu with rfl | hu
    · exact hlt
    · exact String.lt_trans hlt (hhead u hu)
  | case4 t rest hne hnlt ih =>
    obtain ⟨hhead, hrest⟩ := List.pairwise_cons.1 h
    refine List.pairwise_cons.2 ⟨fun u hu => ?_, ih hrest⟩
    rcases mem_insertSorted.1 hu with rfl | hu
    · exact Std.lt_of_le_of_ne (String.not_lt.1 hnlt) (Ne.symm hne)
    · exact hhead u hu

theorem sortUnique_ascending (texts : List String) : Ascending (sortUnique texts) := by
  induction texts with
  | nil => exact List.Pairwise.nil
  | cons s rest ih => exact insertSorted_ascending ih

/-- An ascending list is determined by its members. -/
theorem Ascending.ext {as bs : List String} (ha : Ascending as) (hb : Ascending bs)
    (h : ∀ s, s ∈ as ↔ s ∈ bs) : as = bs :=
  List.Pairwise.eq_of_mem_iff ha hb h

/-- **Sorting depends only on what strings there are**, and not on their order or repetition. -/
theorem sortUnique_congr {as bs : List String} (h : ∀ s, s ∈ as ↔ s ∈ bs) :
    sortUnique as = sortUnique bs :=
  (sortUnique_ascending as).ext (sortUnique_ascending bs) fun s => by
    rw [mem_sortUnique, mem_sortUnique, h]

/-! ## Choices -/

/-- Names one after the other, with commas between them and `or` before the last. -/
def enumeration : List String → String
  | [] => ""
  | [last] => last
  | [name, last] => name ++ " or " ++ last
  | name :: next :: rest => name ++ ", " ++ enumeration (next :: rest)

/-- The choice of one of some names, of which there may be many. -/
def choiceOf (names : List String) : String :=
  (if 2 < names.length then "one of " else "") ++ enumeration names

/-- All names but the last, and the last one after them. -/
theorem enumeration_eq (name next : String) (rest : List String) :
    enumeration (name :: next :: rest) =
      ", ".intercalate (name :: next :: rest).dropLast ++ " or " ++
        (name :: next :: rest).getLast?.getD "" := by
  induction rest generalizing name next with
  | nil => simp [enumeration]
  | cons last rest ih =>
    rw [enumeration, ih next last]
    · simp only [List.dropLast_cons_cons, String.intercalate_cons_cons, List.getLast?_cons_cons,
        String.append_assoc]
    · simp

/-- **A list of choices names them in their order, each once.** -/
theorem listChoices_eq (names : List String) : listChoices names = choiceOf names := by
  match names with
  | [] => rfl
  | [name] => simp [listChoices, choiceOf, enumeration]
  | [name, last] => simp [listChoices, choiceOf, enumeration]
  | name :: next :: last :: rest =>
    rw [choiceOf, enumeration_eq, if_pos (by simp), listChoices]
    · simp only [String.append_assoc]
    · simp
    · simp
    · simp

/-! ## Diagnostics -/

namespace Complaint

variable {c : Complaint}

/-- What the expected tokens are called, in ascending order. -/
def names (c : Complaint) : List String := sortUnique (c.expected.map tokenLabel)

theorem mem_names {name : String} :
    name ∈ c.names ↔ ∃ kind ∈ c.expected, tokenLabel kind = name := by
  rw [names, mem_sortUnique, List.mem_map]

/-- **An unexpected token is worded by the names of the expected ones**, as long as there are some
and not too many of them. -/
theorem reason_of_unexpected (h : c.cause = .unexpected) : c.reason =
    if c.names.length = 0 ∨ 10 < c.names.length then .simple ("unexpected " ++ tokenLabel c.found)
    else match c.found with
      | some found => .expected none (choiceOf c.names) found.label
      | none => .simple ("Expected " ++ choiceOf c.names
          ++ ", but didn't find anything before the end.") := by
  have hcount : (c.names.isEmpty || decide (10 < c.names.length)) = true ↔
      c.names.length = 0 ∨ 10 < c.names.length := by
    simp
  rw [← listChoices_eq]
  unfold Complaint.reason
  split
  · rename_i hcause
    rw [h] at hcause
    cases hcause
  · rename_i hcause
    rw [h] at hcause
    cases hcause
  · exact if_congr hcount rfl rfl

/-- The wording depends only on what tokens were expected. -/
theorem reason_congr {expected : List (Option TokenKind)}
    (h : ∀ kind, kind ∈ expected ↔ kind ∈ c.expected) :
    Complaint.reason { c with expected } = c.reason := by
  have hnames : sortUnique (expected.map tokenLabel) = sortUnique (c.expected.map tokenLabel) :=
    sortUnique_congr fun name => by simp only [List.mem_map, h]
  simp only [Complaint.reason, hnames]

/-- **Diagnostics do not depend on the order of what was expected.**  Whatever the order and the
repetition of the expected tokens, a complaint makes the same diagnostic.  If the complaint is about
an unexpected token, and the expected ones have one to ten different names, the text has each of
these names once, in ascending order.  With no or more names it has only that of the token found.
No rule of the grammar has a label of its own, so there is none to be named. -/
theorem toDiagnostic_orderless (c : Complaint) :
    (∀ expected : List (Option TokenKind), (∀ kind, kind ∈ expected ↔ kind ∈ c.expected) →
      Complaint.toDiagnostic { c with expected } = c.toDiagnostic) ∧
    (c.cause = .unexpected → ∃ names : List String, Ascending names ∧
      (∀ name, name ∈ names ↔ ∃ kind ∈ c.expected, tokenLabel kind = name) ∧
      c.toDiagnostic.reason.message =
        if 1 ≤ names.length ∧ names.length ≤ 10 then
          match c.found with
          | some found => "expected " ++ choiceOf names ++ ", but found " ++ found.label
          | none => "Expected " ++ choiceOf names ++ ", but didn't find anything before the end."
        else "unexpected " ++ tokenLabel c.found) := by
  refine ⟨fun expected h => ?_, fun h => ⟨c.names, sortUnique_ascending _, fun _ => mem_names, ?_⟩⟩
  · show Diagnostic.located _ _ _ _ = Diagnostic.located _ _ _ _
    rw [reason_congr h]
    rfl
  · show c.reason.message = _
    rw [reason_of_unexpected h]
    by_cases hcount : 1 ≤ c.names.length ∧ c.names.length ≤ 10
    · rw [if_pos hcount, if_neg (by omega)]
      cases c.found with
      | some found =>
        show "" ++ "expected " ++ choiceOf c.names ++ ", but found " ++ found.label = _
        rw [String.empty_append]
      | none => rfl
    · rw [if_neg hcount, if_pos (by omega)]
      rfl

/-- Two literals are called the same, and one token is expected twice. -/
theorem toDiagnostic_orderless_literals :
    let one : TokenKind := .literal (.integer ⟨10, "1", none⟩)
    let two : TokenKind := .literal (.integer ⟨10, "2", none⟩)
    let c : Complaint := ⟨3, ⟨1, 4, 5⟩, .unexpected,
      [some (.control ','), some one, some (.ident ""), some two, some (.control ')')],
      some (.control ';')⟩
    let expected := [some two, some (.control ')'), some one, some (.control ')'),
      some (.control ','), some (.ident "")]
    Complaint.toDiagnostic { c with expected } = c.toDiagnostic ∧
      c.toDiagnostic.reason.message =
        "expected one of `)`, `,`, a literal or an identifier, but found `;`" := by
  intro one two c expected
  have hleft : ∀ kind ∈ expected, kind ∈ c.expected := by decide
  have hright : ∀ kind ∈ c.expected, kind ∈ expected := by decide
  refine ⟨(toDiagnostic_orderless c).1 expected fun kind => ⟨hleft kind, hright kind⟩, ?_⟩
  obtain ⟨names, hascending, hmem, htext⟩ := (toDiagnostic_orderless c).2 rfl
  have hnames : names = ["`)`", "`,`", "a literal", "an identifier"] := by
    refine Ascending.ext hascending (by decide) fun name => ?_
    rw [hmem, ← List.mem_map]
    constructor
    · revert name
      decide
    · revert name
      decide
  rw [htext, hnames]
  decide

end Complaint

end LunSyntax
