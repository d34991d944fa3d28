import LunSyntax.Diagnostic
import LunSyntax.Text.Visible
import LunSyntax.Token

/-!
# From text to tokens

At each place after blanks, the first rule that fits the text takes a token: comments, operators
of two chars, strings, integers, single chars, words.  A char where no rule fits is reported and
skipped, so the tokens around it are kept.

* `scanToken` is the choice among the rules, each a function from a text to a `Match`;
* `scan` tokenises a text and collects its `LexicalFault`s;
* `lex` turns the faults into diagnostics, one for each run of skipped chars.
-/

set_option autoImplicit false

namespace LunSyntax

/-- What is wrong with a text as a sequence of tokens. -/
inductive LexicalFault where
  /-- chars which start no token -/
  | unexpected (extent : Extent)
  /-- an escape sequence whose code is of no char -/
  | invalidCodePoint (extent : Extent)
  /-- a block comment which runs to the end of the source -/
  | unterminatedComment (extent : Extent)
  deriving DecidableEq, Repr

/-- A token at the head of a text: its kind, the number of its chars and the faults inside. -/
structure Match where
  kind : TokenKind
  length : Nat
  faults : List LexicalFault := []

/-! ## Classes of chars -/

/-- Chars an identifier starts with; letters are ASCII. -/
def isWordStart (c : Char) : Bool := c.isAlpha || c == '_'

/-- Chars an identifier goes on with. -/
def isWordChar (c : Char) : Bool := c.isAlphanum || c == '_'

/-- Hexadecimal digits of either case. -/
def isHexDigit (c : Char) : Bool := (digitOf? 16 c).isSome

/-! ## Words -/

/-- The identifier at the head of a text. -/
def word? : List Char → Option (List Char)
  | c :: rest => if isWordStart c then some (c :: rest.takeWhile isWordChar) else none
  | [] => none

/-- An identifier or a keyword. -/
def scanWord (cs : List Char) : Option Match :=
  (word? cs).map fun chars =>
    let word := String.ofList chars
    ⟨if isKeyword word then .keyword word else .ident word, chars.length, []⟩

/-! ## Comments -/

/-- The length of a line comment after its slashes: up to the end of the line, where a backslash
takes the next char along, be it a new line. -/
def lineCommentLength : List Char → Nat
  | '\\' :: _ :: rest => lineCommentLength rest + 2
  | ['\\'] => 0
  | '\n' :: _ => 0
  | _ :: rest => lineCommentLength rest + 1
  | [] => 0

/-- The length of a block comment after its opening, up to the first closing included. -/
def blockCommentLength? : List Char → Option Nat
  | '*' :: '/' :: _ => some 2
  | _ :: rest => (blockCommentLength? rest).map (· + 1)
  | [] => none

/-- A comment.  A block comment which is never closed takes the rest of the text. -/
def scanComment (offset : Nat) (cs : List Char) : Option Match :=
  match cs with
  | '/' :: '/' :: rest =>
    let length := lineCommentLength rest + 2
    some ⟨.comment (String.ofList (cs.take length)), length, []⟩
  | '/' :: '*' :: rest =>
    match blockCommentLength? rest with
    | some length => some ⟨.comment (String.ofList (cs.take (length + 2))), length + 2, []⟩
    | none =>
      some ⟨.comment (String.ofList cs), cs.length,
        [.unterminatedComment ⟨offset, offset + cs.length⟩]⟩
  | _ => none

/-! ## Operators -/

/-- An operator of two chars. -/
def scanDigraph : List Char → Option Match
  | a :: b :: _ =>
    (Digraph.all.find? fun d => d.first == a && d.second == b).map fun d => ⟨.digraph d, 2, []⟩
  | _ => none

/-- A single char which is a token of its own. -/
def scanControl : List Char → Option Match
  | c :: _ => if controls.contains c then some ⟨.control c, 1, []⟩ else none
  | [] => none

/-! ## Strings -/

/-- A part of a string as read.  An escape sequence has no value when its code is of no char. -/
inductive Piece where
  | content (text : List Char)
  | escape (raw : List Char) (value : Option Char)

def Piece.chars : Piece → List Char
  | content text => text
  | escape raw _ => raw

/-- Chars which stand for themselves in a string. -/
def isPlain (c : Char) : Bool := !(c == '\\' || c == '\x22' || c == '\n')

/-- The char of a one-letter escape. -/
def simpleEscape? : Char → Option Char
  | '0' => some '\x00'
  | 'n' => some '\n'
  | 'r' => some '\r'
  | 't' => some '\t'
  | 'v' => some '\x0b'
  | 'a' => some '\x07'
  | 'b' => some '\x08'
  | 'e' => some '\x1b'
  | '\\' => some '\\'
  | _ => none

/-- The char of a code in hexadecimal digits, if it is of one. -/
def charOfCode? (digits : List Char) : Option Char :=
  match readDigits 16 0xFFFFFFFF 0 digits with
  | .ok code => if h : code.isValidChar then some (Char.ofNatAux code h) else none
  | .error _ => none

/-- The escape sequence after a backslash. -/
def escape? : List Char → Option Piece
  | 'x' :: a :: b :: _ =>
    if isHexDigit a && isHexDigit b then
      some (.escape ['\\', 'x', a, b] (charOfCode? [a, b]))
    else none
  | 'u' :: '{' :: rest =>
    let digits := rest.takeWhile isHexDigit
    if digits.isEmpty then none
    else
      match rest.drop digits.length with
      | '}' :: _ =>
        some (.escape ('\\' :: 'u' :: '{' :: digits ++ ['}']) (charOfCode? digits))
      | _ => none
  | c :: _ => (simpleEscape? c).map fun value => .escape ['\\', c] (some value)
  | [] => none

/-- The piece that starts with a char of a string. -/
def piece? (c : Char) (rest : List Char) : Option Piece :=
  if c == '\\' then escape? rest
  else if isPlain c then some (.content (c :: rest.takeWhile isPlain))
  else none

/-- The pieces at the head of a text, and what follows them. -/
def pieces : List Char → List Piece × List Char
  | [] => ([], [])
  | c :: rest =>
    match piece? c rest with
    | some piece =>
      let (more, after) := pieces (rest.drop (piece.chars.length - 1))
      (piece :: more, after)
    | none => ([], c :: rest)
termination_by cs => cs.length
decreasing_by simp only [List.length_drop, List.length_cons]; omega

/-- The pieces as parts of a literal, one after the other from an offset on. -/
def placePieces (offset : Nat) : List Piece → List StringPart
  | [] => []
  | .content text :: rest =>
    let stop := offset + text.length
    .content (String.ofList text) ⟨offset, stop⟩ :: placePieces stop rest
  | .escape raw value :: rest =>
    let stop := offset + raw.length
    .escape (String.ofList raw) (value.getD '\uFFFD') ⟨offset, stop⟩ :: placePieces stop rest

/-- The faults of pieces from an offset on: codes of no char.  The backslash is not marked. -/
def pieceFaults (offset : Nat) : List Piece → List LexicalFault
  | [] => []
  | .escape raw none :: rest =>
    .invalidCodePoint ⟨offset + 1, offset + raw.length⟩ :: pieceFaults (offset + raw.length) rest
  | piece :: rest => pieceFaults (offset + piece.chars.length) rest

/-- A string, after the identifier which tags it, if any. -/
def scanString (offset : Nat) (cs : List Char) : Option Match :=
  let tag := word? cs
  let tagLength := (tag.getD []).length
  match cs.drop tagLength with
  | '\x22' :: body =>
    match pieces body with
    | (found, '\x22' :: _) =>
      let start := offset + tagLength + 1
      some {
        kind := .literal (.string ⟨tag.map String.ofList, placePieces start found⟩)
        length := tagLength + (found.flatMap Piece.chars).length + 2
        faults := pieceFaults start found }
    | _ => none
  | _ => none

/-! ## Integers -/

/-- The digits of an integer: the radix, how many chars mark it, and the digits.  Hexadecimal
digits cannot be separated, and a number without a mark starts with a digit. -/
def integerDigits? : List Char → Option (Nat × Nat × List Char)
  | '0' :: 'b' :: rest => marked 2 (fun c => c == '0' || c == '1' || c == '_') 'b' rest
  | '0' :: 'o' :: rest => marked 8 (fun c => (digitOf? 8 c).isSome || c == '_') 'o' rest
  | '0' :: 'x' :: rest => marked 16 isHexDigit 'x' rest
  | c :: rest => plain c rest
  | [] => none
where
  /-- Digits after a mark; without any, the zero of the mark is a number of its own. -/
  marked (radix : Nat) (isDigit : Char → Bool) (letter : Char) (rest : List Char) :
      Option (Nat × Nat × List Char) :=
    let digits := rest.takeWhile isDigit
    if digits.isEmpty then plain '0' (letter :: rest) else some (radix, 2, digits)
  /-- Decimal digits. -/
  plain (c : Char) (rest : List Char) : Option (Nat × Nat × List Char) :=
    if c.isDigit then some (10, 0, c :: rest.takeWhile fun c => c.isDigit || c == '_')
    else none

/-- The tag after an integer, if an apostrophe and at least one char follow. -/
def integerTag? : List Char → Option (List Char)
  | '\x27' :: rest =>
    let tag := rest.takeWhile isWordChar
    if tag.isEmpty then none else some tag
  | _ => none

/-- An integer with its tag. -/
def scanInteger (cs : List Char) : Option Match :=
  (integerDigits? cs).map fun (radix, markLength, digits) =>
    let length := markLength + digits.length
    let tag := integerTag? (cs.drop length)
    let tagLength := match tag with
      | some tag => tag.length + 1
      | none => 0
    ⟨.literal (.integer ⟨radix, String.ofList digits, tag.map String.ofList⟩),
      length + tagLength, []⟩

/-! ## Tokens -/

/-- The token at the head of a text.  Strings come before words, since the tag of a string is one,
and operators of two chars before their first chars. -/
def scanToken (offset : Nat) (cs : List Char) : Option Match :=
  scanComment offset cs <|> scanDigraph cs <|> scanString offset cs <|> scanInteger cs
    <|> scanControl cs <|> scanWord cs

/-- The tokens of a text and its faults, both in order. -/
structure Scanned where
  tokens : List Token
  faults : List LexicalFault

/-- Tokenise a text that starts at an offset. -/
def scan (offset : Nat) : List Char → Scanned
  | [] => ⟨[], []⟩
  | c :: rest =>
    if isBlank c then scan (offset + 1) rest
    else
      match scanToken offset (c :: rest) with
      | some found =>
        let after := scan (offset + found.length) (rest.drop (found.length - 1))
        ⟨⟨found.kind, offset, offset + found.length⟩ :: after.tokens,
          found.faults ++ after.faults⟩
      | none =>
        let after := scan (offset + 1) rest
        ⟨after.tokens, .unexpected ⟨offset, offset + 1⟩ :: after.faults⟩
termination_by cs => cs.length
decreasing_by all_goals simp only [List.length_drop, List.length_cons]; omega

/-- Join the reports of chars skipped one after the other. -/
def joinRuns : List LexicalFault → List LexicalFault
  | .unexpected a :: rest =>
    match joinRuns rest with
    | .unexpected b :: more =>
      if a.stop = b.start then .unexpected ⟨a.start, b.stop⟩ :: more
      else .unexpected a :: .unexpected b :: more
    | more => .unexpected a :: more
  | fault :: rest => fault :: joinRuns rest
  | [] => []

/-- The chars of a source in an extent. -/
def charsIn (source : List Char) (extent : Extent) : List Char :=
  (source.drop extent.start).take (extent.stop - extent.start)

/-- The diagnostic of a fault. -/
def LexicalFault.toDiagnostic (source : List Char) (id : UInt16) : LexicalFault → Diagnostic
  | .unexpected extent =>
    .located (.unexpected (String.ofList (charsIn source extent))) (extent.inSource id)
      lexicalCode .lexer
  | .invalidCodePoint extent =>
    .located (.simple "escape sequence") (extent.inSource id) lexicalCode .lexer
  | .unterminatedComment extent =>
    .located (.simple "unterminated block comment") (extent.inSource id) lexicalCode .lexer

/-- The tokens of a source, comments included, and the diagnostics of all else in it. -/
def lex (source : String) (id : UInt16) : List Token × List Diagnostic :=
  let chars := source.toList
  let scanned := scan 0 chars
  (scanned.tokens, (joinRuns scanned.faults).map (·.toDiagnostic chars id))

/-- The tokens of a source without faults, or the diagnostics. -/
def lexStrict (source : String) (id : UInt16) : Except (List Diagnostic) (List Token) :=
  match lex source id with
  | (tokens, []) => .ok tokens
  | (_, diagnostics) => .error diagnostics

end LunSyntax
