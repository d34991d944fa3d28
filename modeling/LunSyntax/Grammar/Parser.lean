import LunSyntax.Ast

/-!
# Parsers which recover

A `Parser` reads tokens from a `Cursor` on.  It succeeds or fails, and in both cases may have
reported complaints on its way.  A success also remembers the furthest complaint that an
alternative would have made: should the parse fail later on, but no further, that complaint tells
more about what was expected.

* `Complaint.join`: of two complaints the further one counts, and at one place they are merged;
* `Parser.bind` runs parsers one after the other, `Parser.or` and `firstOf` choose among some,
  `Parser.optional`, `many` and `sepBy` repeat one;
* `Parser.recoverDelimited` and `Parser.recoverSkipping` go on after a failure.
-/

set_option autoImplicit false

namespace LunSyntax

/-- A token for the grammar. -/
abbrev Lexeme := Spanned TokenKind

/-! ## Complaints -/

/-- What a complaint is about. -/
inductive Cause where
  /-- a token, or the end, where something else was expected -/
  | unexpected
  /-- a delimiter which is never closed -/
  | unclosed (delimiter : TokenKind)
  /-- anything else -/
  | custom (message : String)
  deriving DecidableEq, Repr

/-- What a parser has to say about a place.  The place is given by how many tokens are left there;
the end of the input among the expected tokens is `none`, as it is when found. -/
structure Complaint where
  left : Nat
  span : Span
  cause : Cause
  expected : List (Option TokenKind)
  found : Option TokenKind
  deriving Repr

namespace Complaint

/-- Both complaints in one.  The first has the place; what was expected adds up, and an unclosed
delimiter outweighs any other cause. -/
def merge (a b : Complaint) : Complaint :=
  { a with
    cause :=
      match a.cause, b.cause with
      | .unclosed delimiter, _ => .unclosed delimiter
      | _, .unclosed delimiter => .unclosed delimiter
      | cause, _ => cause
    expected := a.expected ++ b.expected }

/-- The further of two complaints, or both in one. -/
def join (a b : Complaint) : Complaint :=
  if a.left < b.left then a else if b.left < a.left then b else a.merge b

/-- Join the complaint of an alternative, if there is one. -/
def joinOption (a : Complaint) : Option Complaint → Complaint
  | some b => a.join b
  | none => a

/-- Complaints in the order they were made; the later one leads. -/
def joinOptions : Option Complaint → Option Complaint → Option Complaint
  | a, some b => some (b.joinOption a)
  | a, none => a

/-- A complaint, and others made after it. -/
def joinAll (a : Complaint) (rest : List Complaint) : Complaint :=
  rest.foldl (fun acc b => b.join acc) a

end Complaint

/-! ## Cursors -/

/-- A place in the input.  The end of the input has a span too, where what is missing is found. -/
structure Cursor where
  rest : List Lexeme
  left : Nat
  lastStop : Nat
  finish : Span
  left_eq : left = rest.length

namespace Cursor

def start (tokens : List Lexeme) (finish : Span) : Cursor :=
  ⟨tokens, tokens.length, 0, finish, rfl⟩

/-- The next token and the place after it. -/
def next? : Cursor → Option (Lexeme × Cursor)
  | ⟨[], _, _, _, _⟩ => none
  | ⟨t :: rest, left, _, finish, hleft⟩ =>
    some (t, ⟨rest, left - 1, t.span.stop, finish, by simp [hleft]⟩)

/-- Reading a token leaves one token less. -/
theorem left_lt_of_next? {c after : Cursor} {t : Lexeme} (h : c.next? = some (t, after)) :
    after.left < c.left := by
  obtain ⟨rest, left, lastStop, finish, hleft⟩ := c
  cases rest with
  | nil => simp [next?] at h
  | cons t' rest =>
    simp only [next?, Option.some.injEq, Prod.mk.injEq] at h
    obtain ⟨-, rfl⟩ := h
    simp_all

/-- The span of the next token, or of the end. -/
def here (c : Cursor) : Span :=
  match c.rest with
  | t :: _ => t.span
  | [] => c.finish

def found (c : Cursor) : Option TokenKind := c.rest.head?.map Spanned.node

/-- From the start of the next token to the end of the last one before a later place.  When nothing
was read in between, it is the next token that counts. -/
def spanTo (c after : Cursor) : Span :=
  ⟨c.finish.source, c.here.start, if after.left < c.left then after.lastStop else c.here.stop⟩

/-- The complaint that none of the expected tokens comes next. -/
def unexpected (c : Cursor) (expected : List (Option TokenKind)) : Complaint :=
  ⟨c.left, c.here, .unexpected, expected, c.found⟩

end Cursor

/-! ## Parsers -/

/-- How a parse ends: with a value, the place after it and the furthest complaint of alternatives,
or with a complaint. -/
inductive Reply (α : Type) where
  | ok (value : α) (after : Cursor) (alt : Option Complaint)
  | fail (complaint : Complaint)

/-- A reply, and the complaints reported before. -/
structure Outcome (α : Type) where
  reported : List Complaint
  reply : Reply α

/-- A parser reads from a place on. -/
def Parser (α : Type) : Type := Cursor → Outcome α

namespace Parser

variable {α β : Type}

/-- Read nothing. -/
@[inline] def pure (a : α) : Parser α := fun c => ⟨[], .ok a c none⟩

/-- Run a parser, then one that depends on its value. -/
@[inline] def bind (p : Parser α) (f : α → Parser β) : Parser β := fun c =>
  match p c with
  | ⟨reported, .fail complaint⟩ => ⟨reported, .fail complaint⟩
  | ⟨reported, .ok a after alt⟩ =>
    match f a after with
    | ⟨more, .fail complaint⟩ => ⟨reported ++ more, .fail (complaint.joinOption alt)⟩
    | ⟨more, .ok b last alt'⟩ => ⟨reported ++ more, .ok b last (Complaint.joinOptions alt alt')⟩

instance : Monad Parser where
  pure := Parser.pure
  bind := Parser.bind

def fail (expected : List (Option TokenKind)) : Parser α := fun c =>
  ⟨[], .fail (c.unexpected expected)⟩

/-- A token of which something can be made.  Failing, it says what it expected. -/
@[inline] def token (f : Lexeme → Option α) (expected : List (Option TokenKind)) : Parser α :=
  fun c =>
    match c.next? with
    | some (t, after) =>
      match f t with
      | some a => ⟨[], .ok a after none⟩
      | none => ⟨[], .fail (c.unexpected expected)⟩
    | none => ⟨[], .fail (c.unexpected expected)⟩

def just (kind : TokenKind) : Parser Unit :=
  token (fun t => if t.node = kind then some () else none) [some kind]

def any : Parser TokenKind := token (fun t => some t.node) []

def finish : Parser Unit := fun c =>
  match c.rest with
  | [] => ⟨[], .ok () c none⟩
  | _ :: _ => ⟨[], .fail (c.unexpected [none])⟩

/-- The value together with its span. -/
@[inline] def withSpan (f : α → Span → β) (p : Parser α) : Parser β := fun c =>
  match p c with
  | ⟨reported, .ok a after alt⟩ => ⟨reported, .ok (f a (c.spanTo after)) after alt⟩
  | ⟨reported, .fail complaint⟩ => ⟨reported, .fail complaint⟩

/-- A parser which is made where it is run, for the number of tokens left there. -/
def deferred (f : Nat → Parser α) : Parser α := fun c => f c.left c

/-- The span that covers two of one source. -/
def merge (a b : Span) : Parser Span := Parser.pure (a.cover b)

/-- The offset after one which is not the last. -/
def nextOffset (offset : Nat) : Parser Nat := Parser.pure (offset + 1)

/-- The complaint of a message at a span. -/
def complain (c : Cursor) (span : Span) (message : String) : Complaint :=
  ⟨c.left, span, .custom message, [], none⟩

/-- Look over a value and report messages about it. -/
@[inline] def check (f : α → Span → β × List (Span × String)) (p : Parser α) : Parser β := fun c =>
  match p c with
  | ⟨reported, .ok a after alt⟩ =>
    let (b, messages) := f a (c.spanTo after)
    ⟨reported ++ messages.map fun (span, message) => complain after span message,
      .ok b after alt⟩
  | ⟨reported, .fail complaint⟩ => ⟨reported, .fail complaint⟩

/-! ### Choices -/

/-- Whether the last complaint of `as` is further than that of `bs` (`true`), less far (`false`)
or neither. -/
def furtherLast (a b : Option Complaint) : Option Bool :=
  match a, b with
  | some a, some b =>
    if a.left < b.left then some true else if b.left < a.left then some false else none
  | _, _ => none

/-- Whether a list is shorter (`true`), longer (`false`) or neither. -/
def shorter (as bs : List Complaint) : Option Bool :=
  if as.length < bs.length then some true
  else if bs.length < as.length then some false
  else none

/-- Choose between two outcomes, neither of which is a success without complaints.  A success is
better than a failure; of two successes the one with fewer complaints counts, of two failures the
further one.  Failures which are equally good are merged. -/
def choose (a b : Outcome α) : Outcome α :=
  match a, b with
  | ⟨as, .ok x after alt⟩, ⟨_, .fail _⟩ => ⟨as, .ok x after alt⟩
  | ⟨_, .fail _⟩, ⟨bs, .ok x after alt⟩ => ⟨bs, .ok x after alt⟩
  | ⟨as, .ok x after alt⟩, ⟨bs, .ok y after' alt'⟩ =>
    let better := (shorter as bs <|> furtherLast as.getLast? bs.getLast?
      <|> furtherLast alt alt').getD true
    if better then ⟨as, .ok x after alt⟩ else ⟨bs, .ok y after' alt'⟩
  | ⟨as, .fail e⟩, ⟨bs, .fail e'⟩ =>
    match furtherLast (some e) (some e') <|> shorter as bs
        <|> furtherLast as.getLast? bs.getLast? with
    | some true => ⟨as, .fail e⟩
    | some false => ⟨bs, .fail e'⟩
    | none => ⟨as, .fail (e.join e')⟩

/-- The first of two parsers, unless it fails or complains and the second does better. -/
@[inline] def or (p q : Parser α) : Parser α := fun c =>
  match p c with
  | ⟨[], .ok a after alt⟩ => ⟨[], .ok a after alt⟩
  | first =>
    match q c with
    | ⟨[], .ok b after alt⟩ => ⟨[], .ok b after alt⟩
    | second => choose first second

/-- The first of some parsers which succeeds, whatever it complains about.  Without one, all that
they expected is merged. -/
def firstOf (alt : Option Complaint) : List (Parser α) → Parser α
  | [] => fun c =>
    ⟨[], .fail (alt.getD (c.unexpected []))⟩
  | p :: rest => fun c =>
    match p c with
    | ⟨reported, .ok a after alt⟩ => ⟨reported, .ok a after alt⟩
    | ⟨_, .fail complaint⟩ =>
      firstOf (Complaint.joinOptions alt (some complaint)) rest c

/-- The first of some parsers which succeeds. -/
def choice (ps : List (Parser α)) : Parser α := firstOf none ps

/-- A parser, or nothing where it fails. -/
@[inline] def optional (p : Parser α) : Parser (Option α) := fun c =>
  match p c with
  | ⟨reported, .ok a after alt⟩ => ⟨reported, .ok (some a) after alt⟩
  | ⟨_, .fail complaint⟩ => ⟨[], .ok none c (some complaint)⟩

/-! ### Repetition -/

/-- Values read one after the other. -/
structure Run (α : Type) where
  reported : List Complaint
  values : List α
  after : Cursor
  alt : Option Complaint

/-- Run a parser as often as it succeeds and reads something. -/
def runMany (p : Parser α) (c : Cursor) : Run α :=
  match p c with
  | ⟨reported, .fail complaint⟩ => ⟨[], [], c, some (complaint.joinAll reported)⟩
  | ⟨reported, .ok a after alt⟩ =>
    if after.left < c.left then
      let more := runMany p after
      ⟨reported ++ more.reported, a :: more.values, more.after,
        Complaint.joinOptions alt more.alt⟩
    else ⟨reported, [a], after, alt⟩
termination_by c.left

/-- A parser as often as it succeeds. -/
def many (p : Parser α) : Parser (List α) := fun c =>
  let run := runMany p c
  ⟨run.reported, .ok run.values run.after run.alt⟩

/-- Items after the first, each after a separator.  A separator without an item is left unread. -/
def runSeparated (item : Parser α) (sep : Parser Unit) (c : Cursor) : Run α :=
  match sep c with
  | ⟨reported, .fail complaint⟩ => ⟨reported, [], c, some complaint⟩
  | ⟨reported, .ok () between sepAlt⟩ =>
    match item between with
    | ⟨more, .fail complaint⟩ =>
      ⟨reported ++ more, [], c, Complaint.joinOptions sepAlt (some complaint)⟩
    | ⟨more, .ok a after alt⟩ =>
      if after.left < c.left then
        let rest := runSeparated item sep after
        ⟨reported ++ more ++ rest.reported, a :: rest.values, rest.after,
          Complaint.joinOptions (Complaint.joinOptions sepAlt alt) rest.alt⟩
      else ⟨reported ++ more, [a], after, Complaint.joinOptions sepAlt alt⟩
termination_by c.left

/-- Items with separators between them and, if there are items, one more at the end if it is
there. -/
def sepBy (item : Parser α) (sep : Parser Unit) : Parser (List α) := fun c =>
  match item c with
  | ⟨reported, .fail complaint⟩ => ⟨reported, .ok [] c (some complaint)⟩
  | ⟨reported, .ok a after alt⟩ =>
    let run := runSeparated item sep after
    let values := a :: run.values
    let alt := Complaint.joinOptions alt run.alt
    match sep run.after with
    | ⟨more, .ok () last sepAlt⟩ =>
      ⟨reported ++ run.reported,
        .ok values last (more.foldl (fun acc e => Complaint.joinOptions acc (some e))
          (Complaint.joinOptions alt sepAlt))⟩
    | ⟨more, .fail complaint⟩ =>
      ⟨reported ++ run.reported,
        .ok values run.after (Complaint.joinOptions alt (some (complaint.joinAll more)))⟩

/-! ### Recovery -/

structure Delimiters where
  opening : TokenKind
  closing : TokenKind

/-- Where a search for the closing delimiter ends: after it, if it was found. -/
structure SearchEnd where
  after : Option Cursor
  complaint : Option Complaint

/-- The complaint that a delimiter is unclosed where something else is found. -/
def unclosed (pair : Delimiters) (c : Cursor) : Complaint :=
  ⟨c.left, c.here, .unclosed pair.opening, [some pair.closing], c.found⟩

/-- Search for the delimiter that closes the outermost of `depth` open ones.  `others` is the
balance of the other pair; where it shows that the delimiter is unclosed, the first such place is
complained about. -/
def closingOf (pair other : Delimiters) (depth : Nat) (others : Int)
    (complaint : Option Complaint) (c : Cursor) : SearchEnd :=
  match h : c.next? with
  | none => ⟨none, if depth = 1 then complaint.or (some (unclosed pair c)) else complaint⟩
  | some (t, after) =>
    have : after.left < c.left := Cursor.left_lt_of_next? h
    if t.node = pair.opening then closingOf pair other (depth + 1) others complaint after
    else if t.node = pair.closing then
      if depth ≤ 1 then ⟨some after, complaint⟩
      else closingOf pair other (depth - 1) others complaint after
    else if t.node = other.opening then
      closingOf pair other depth (others + 1) complaint after
    else if t.node = other.closing then
      let complaint :=
        if others ≤ 0 ∧ depth = 1 then complaint.or (some (unclosed pair c)) else complaint
      closingOf pair other depth (others - 1) complaint after
    else closingOf pair other depth others complaint after
termination_by c.left

/-- Search for the delimiter that closes the first token, which has to open one. -/
def closing (pair other : Delimiters) (c : Cursor) : SearchEnd :=
  match c.next? with
  | some (t, after) =>
    if t.node = pair.opening then closingOf pair other 1 0 none after else ⟨none, none⟩
  | none => ⟨none, none⟩

/-- After a failure, skip from an opening delimiter to the one that closes it.  The complaint of
the failure is reported too, unless it is as far as the last report. -/
@[inline] def recoverDelimited (pair other : Delimiters) (fallback : Span → α) (p : Parser α) :
    Parser α := fun c =>
  match p c with
  | ⟨reported, .ok a after alt⟩ => ⟨reported, .ok a after alt⟩
  | ⟨reported, .fail complaint⟩ =>
    let search := closing pair other c
    let reported := reported ++ search.complaint.toList
    match search.after with
    | none => ⟨reported, .fail complaint⟩
    | some after =>
      let covered := match reported.getLast? with
        | some last => decide (complaint.left ≤ last.left)
        | none => false
      ⟨if covered then reported else reported ++ [complaint],
        .ok (fallback (c.spanTo after)) after none⟩

/-- The first success of a parser at one of the later places. -/
def retry (p : Parser α) (c : Cursor) : Option (Outcome α) :=
  match h : c.next? with
  | none => none
  | some (_, after) =>
    have : after.left < c.left := Cursor.left_lt_of_next? h
    match p after with
    | ⟨reported, .ok a last alt⟩ => some ⟨reported, .ok a last alt⟩
    | ⟨_, .fail _⟩ => retry p after
termination_by c.left

/-- After a failure, skip tokens until the parser succeeds.  Its first complaint is reported after
those of the success. -/
def recoverSkipping (p : Parser α) : Parser α := fun c =>
  match p c with
  | ⟨reported, .ok a after alt⟩ => ⟨reported, .ok a after alt⟩
  | ⟨reported, .fail complaint⟩ =>
    match retry p c with
    | some ⟨more, reply⟩ => ⟨more ++ [complaint], reply⟩
    | none => ⟨reported, .fail complaint⟩

end Parser

end LunSyntax
