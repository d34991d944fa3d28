import LunSyntax.Grammar.Combinators

/-!
# Parsers which may be cut short

A `Checked` parser does what a `Parser` does, but has no outcome where a parse would not come to
its end: where what is repeated goes on without reading anything, where spans of different sources
are merged, or where an offset is too large.

What a parser finds out without running another is lifted; `Checked.around` is for what runs one
parser at its own place, which is run first and its outcome handed on.
-/

set_option autoImplicit false

namespace LunSyntax

/-- A parser from a place on, whose parse may be cut short. -/
def Checked (α : Type) : Type := Cursor → Option (Outcome α)

namespace Checked

open LunSyntax.Parser (Run)

variable {α β : Type}

/-- A parser whose parse is never cut short. -/
def lift (p : Parser α) : Checked α := fun c => some (p c)

/-- What is made of the outcome of one parser. -/
def around (f : Parser α → Parser β) (p : Checked α) : Checked β := fun c =>
  (p c).map fun outcome => f (fun _ => outcome) c

/-- Run a parser, then one that depends on its value. -/
def bind (p : Checked α) (f : α → Checked β) : Checked β := fun c =>
  match p c with
  | none => none
  | some ⟨reported, .fail complaint⟩ => some ⟨reported, .fail complaint⟩
  | some ⟨reported, .ok a after alt⟩ =>
    (f a after).map fun second =>
      Parser.bind (fun _ => ⟨reported, .ok a after alt⟩) (fun _ _ => second) c

instance : Monad Checked where
  pure a := lift (Parser.pure a)
  bind := Checked.bind

/-- The first of two parsers, unless it fails or complains and the second does better. -/
def either (p q : Checked α) : Checked α := fun c =>
  match p c with
  | none => none
  | some ⟨[], .ok a after alt⟩ => some ⟨[], .ok a after alt⟩
  | some first => (q c).map fun second => Parser.or (fun _ => first) (fun _ => second) c

/-- The first of some parsers which succeeds. -/
def firstOf (alt : Option Complaint) : List (Checked α) → Checked α
  | [] => lift (Parser.firstOf alt [])
  | p :: rest => fun c =>
    match p c with
    | none => none
    | some ⟨reported, .ok a after alt⟩ => some ⟨reported, .ok a after alt⟩
    | some ⟨_, .fail complaint⟩ =>
      firstOf (Complaint.joinOptions alt (some complaint)) rest c

/-- Run a parser as often as it succeeds.  A success without reading anything would be repeated
for ever. -/
def runMany (p : Checked α) (c : Cursor) : Option (Run α) :=
  match p c with
  | none => none
  | some ⟨reported, .fail complaint⟩ => some ⟨[], [], c, some (complaint.joinAll reported)⟩
  | some ⟨reported, .ok a after alt⟩ =>
    if after.left < c.left then
      (runMany p after).map fun more =>
        ⟨reported ++ more.reported, a :: more.values, more.after,
          Complaint.joinOptions alt more.alt⟩
    else none
termination_by c.left

/-- A parser as often as it succeeds. -/
def many (p : Checked α) : Checked (List α) := fun c =>
  (runMany p c).map fun run => ⟨run.reported, .ok run.values run.after run.alt⟩

/-- Items after the first, each after a separator.  An item and its separator without anything
read would be repeated for ever. -/
def runSeparated (item : Checked α) (sep : Checked Unit) (c : Cursor) : Option (Run α) :=
  match sep c with
  | none => none
  | some ⟨reported, .fail complaint⟩ => some ⟨reported, [], c, some complaint⟩
  | some ⟨reported, .ok () between sepAlt⟩ =>
    match item between with
    | none => none
    | some ⟨more, .fail complaint⟩ =>
      some ⟨reported ++ more, [], c, Complaint.joinOptions sepAlt (some complaint)⟩
    | some ⟨more, .ok a after alt⟩ =>
      if after.left < c.left then
        (runSeparated item sep after).map fun rest =>
          ⟨reported ++ more ++ rest.reported, a :: rest.values, rest.after,
            Complaint.joinOptions (Complaint.joinOptions sepAlt alt) rest.alt⟩
      else none
termination_by c.left

/-- Items with separators between them and, if there are items, one more at the end if it is
there. -/
def sepBy (item : Checked α) (sep : Checked Unit) : Checked (List α) := fun c =>
  match item c with
  | none => none
  | some ⟨reported, .fail complaint⟩ => some ⟨reported, .ok [] c (some complaint)⟩
  | some ⟨reported, .ok a after alt⟩ =>
    match runSeparated item sep after with
    | none => none
    | some run =>
      let values := a :: run.values
      let alt := Complaint.joinOptions alt run.alt
      match sep run.after with
      | none => none
      | some ⟨more, .ok () last sepAlt⟩ =>
        some ⟨reported ++ run.reported,
          .ok values last (more.foldl (fun acc e => Complaint.joinOptions acc (some e))
            (Complaint.joinOptions alt sepAlt))⟩
      | some ⟨more, .fail complaint⟩ =>
        some ⟨reported ++ run.reported,
          .ok values run.after (Complaint.joinOptions alt (some (complaint.joinAll more)))⟩

/-- The first success of a parser at one of the later places, if there is one. -/
def retry (p : Checked α) (c : Cursor) : Option (Option (Outcome α)) :=
  match h : c.next? with
  | none => some none
  | some (_, after) =>
    have : after.left < c.left := Cursor.left_lt_of_next? h
    match p after with
    | none => none
    | some ⟨reported, .ok a last alt⟩ => some (some ⟨reported, .ok a last alt⟩)
    | some ⟨_, .fail _⟩ => retry p after
termination_by c.left

/-- After a failure, skip tokens until the parser succeeds. -/
def recoverSkipping (p : Checked α) : Checked α := fun c =>
  match p c with
  | none => none
  | some ⟨reported, .ok a after alt⟩ => some ⟨reported, .ok a after alt⟩
  | some ⟨reported, .fail complaint⟩ =>
    match retry p c with
    | none => none
    | some (some ⟨more, reply⟩) => some ⟨more ++ [complaint], reply⟩
    | some none => some ⟨reported, .fail complaint⟩

/-- Spans of different sources cannot be merged. -/
def merge (a b : Span) : Checked Span := fun c =>
  (a.merge? b).map fun span => ⟨[], .ok span c none⟩

/-- There is no offset after the largest one. -/
def nextOffset (offset : Nat) : Checked Nat := fun c =>
  if offset < maxOffset then some ⟨[], .ok (offset + 1) c none⟩ else none

end Checked

instance : Combinators Checked where
  fail expected := Checked.lift (Parser.fail expected)
  token f expected := Checked.lift (Parser.token f expected)
  just kind := Checked.lift (Parser.just kind)
  any := Checked.lift Parser.any
  finish := Checked.lift Parser.finish
  withSpan f := Checked.around (Parser.withSpan f)
  check f := Checked.around (Parser.check f)
  either := Checked.either
  choice := Checked.firstOf none
  optional := Checked.around Parser.optional
  many := Checked.many
  sepBy := Checked.sepBy
  recoverDelimited pair other fallback :=
    Checked.around (Parser.recoverDelimited pair other fallback)
  recoverSkipping := Checked.recoverSkipping
  deferred f := fun c => f c.left c
  merge := Checked.merge
  nextOffset := Checked.nextOffset

end LunSyntax
