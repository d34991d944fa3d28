import LunSyntax.Document
import LunSyntax.Text.Numeral
import LunSyntax.Text.Quoted

/-!
# Documents as YAML

Collections are written as blocks: fields and items on lines of their own, records two blanks
deeper than what holds them, lists in a record as deep as the record.  A variant is a tag in front
of its content.

A string is written plain where that reads back as the same string.  Otherwise it is quoted, or
written as a literal block if it has several lines:

* `wantedStyle` is the style for a string to be read as a string at all;
* `TextTraits` tell which styles a text can be written in;
* `fallbackStyle` takes the next style where one is not possible.
-/

set_option autoImplicit false

namespace LunSyntax

/-! ## What plain text reads as -/

/-- The words for truth values. -/
def truthWords : List String := ["true", "True", "TRUE", "false", "False", "FALSE"]

/-- The words for a missing value. -/
def nullWords : List String := ["", "null", "Null", "NULL", "~"]

/-- The words for infinity and what is not a number. -/
def infiniteWords : List String :=
  [".inf", ".Inf", ".INF", "+.inf", "+.Inf", "+.INF", "-.inf", "-.Inf", "-.INF", ".nan", ".NaN",
    ".NAN"]

/-- A text without one sign in front. -/
def withoutSign : List Char → List Char
  | '+' :: rest => rest
  | '-' :: rest => rest
  | cs => cs

/-- Whether a text is of digits of which the first is a zero.  Some take it for a number. -/
def isZeroLed (cs : List Char) : Bool :=
  match withoutSign cs with
  | '0' :: rest => !rest.isEmpty && rest.all Char.isDigit
  | _ => false

/-- Whether a text is a numeral with the mark of its radix, and of at most 128 bits. -/
def isMarkedInteger (cs : List Char) : Bool :=
  let limit := if cs.head? == some '-' then Nat.pow 2 127 else Nat.pow 2 128 - 1
  let digits (radix : Nat) (rest : List Char) : Bool :=
    !rest.isEmpty && (readDigits radix limit 0 rest).isOk
  match withoutSign cs with
  | '0' :: 'x' :: rest => digits 16 rest
  | '0' :: 'o' :: rest => digits 8 rest
  | '0' :: 'b' :: rest => digits 2 rest
  | _ => false

/-- The exponent at the end of a number, if what is there is one. -/
def exponentOf? : List Char → Option Int
  | [] => some 0
  | c :: rest =>
    if c == 'e' || c == 'E' then
      let digits := withoutSign rest
      if digits.isEmpty || !digits.all Char.isDigit then none
      else
        let value := Int.ofNat (digits.foldl (fun acc d => acc * 10 + (d.toNat - '0'.toNat)) 0)
        some (if rest.head? == some '-' then -value else value)
    else none

/-- Whether `digits · 10 ^ exponent` is not too large for a float. -/
def isFiniteDecimal (digits : Nat) (exponent : Int) : Bool :=
  if digits == 0 then true
  else
    let places : Int := Int.ofNat (toString digits).length + exponent
    if 400 < places then false
    else if places < 0 then true
    else
      let limit := Nat.pow 2 1024 - Nat.pow 2 970
      if 0 ≤ exponent then digits * Nat.pow 10 exponent.toNat < limit
      else digits < limit * Nat.pow 10 (-exponent).toNat

/-- Whether a text is a number in decimal notation, with or without point and exponent. -/
def isDecimalNumber (cs : List Char) : Bool :=
  let body := withoutSign cs
  let whole := body.takeWhile Char.isDigit
  let afterWhole := body.dropWhile Char.isDigit
  let (fraction, rest) :=
    match afterWhole with
    | '.' :: rest => (rest.takeWhile Char.isDigit, rest.dropWhile Char.isDigit)
    | rest => ([], rest)
  let digits := whole ++ fraction
  match exponentOf? rest with
  | none => false
  | some exponent =>
    !digits.isEmpty &&
      isFiniteDecimal (digits.foldl (fun acc d => acc * 10 + (d.toNat - '0'.toNat)) 0)
        (exponent - fraction.length)

/-- Whether a plain text is read as something other than a string. -/
def readsOtherwise (text : String) : Bool :=
  let cs := text.toList
  truthWords.contains text || nullWords.contains text || infiniteWords.contains text
    || isMarkedInteger cs || isZeroLed cs || isDecimalNumber cs

/-! ## Styles -/

/-- The ways to write a string. -/
inductive TextStyle where
  | plain
  | single
  | double
  | literal
  deriving DecidableEq, Repr

/-- The style for a string to be read as a string. -/
def wantedStyle (text : String) : TextStyle :=
  if text.toList.contains '\n' then .literal
  else if readsOtherwise text then .single
  else .plain

/-- Chars which end a line. -/
def isYamlBreak (c : Char) : Bool :=
  c == '\n' || c == '\r' || c == '\u0085' || c == '\u2028' || c == '\u2029'

/-- Blanks, ends of lines and the end of a text. -/
def isYamlBlank (c : Char) : Bool := c == ' ' || c == '\t' || c == '\x00' || isYamlBreak c

/-- Chars which stand for themselves in any style. -/
def isYamlPrintable (c : Char) : Bool :=
  let n := c.toNat
  n == 0x0A || (0x20 ≤ n && n ≤ 0x7E)
    || (0xA0 ≤ n && n != 0xFEFF && n != 0xFFFE && n != 0xFFFF)

/-- Chars which mean something at the start of a plain text. -/
def startIndicators : List Char :=
  ['#', ',', '[', ']', '{', '}', '&', '*', '!', '|', '>', '\x27', '\x22', '%', '@', '\x60']

/-- Whether a char at the start of a text means something there. -/
def isStartIndicator (c : Char) (blankFollows : Bool) : Bool :=
  startIndicators.contains c || (blankFollows && (c == '?' || c == ':' || c == '-'))

/-- Whether any char after the first means something in a plain text.  `before` is the char before
it. -/
def hasInnerIndicator (before : Char) : List Char → Bool
  | [] => false
  | c :: rest =>
    let blankFollows := rest.head?.all isYamlBlank
    (c == ':' && blankFollows) || (c == '#' && isYamlBlank before) || hasInnerIndicator c rest

/-- Whether a text means something other than itself when it is written plain. -/
def hasIndicator : List Char → Bool
  | [] => false
  | c :: rest =>
    isStartIndicator c (rest.head?.all isYamlBlank) || hasInnerIndicator c rest
      || ['-', '-', '-'].isPrefixOf (c :: rest) || ['.', '.', '.'].isPrefixOf (c :: rest)

/-- Whether a char of a class is right before one of another. -/
def hasPair (p q : Char → Bool) : List Char → Bool
  | a :: b :: rest => (p a && q b) || hasPair p q (b :: rest)
  | _ => false

/-- What decides in which styles a text can be written. -/
structure TextTraits where
  plain : Bool
  single : Bool
  literal : Bool
  deriving DecidableEq, Repr

/-- The traits of a text. -/
def TextTraits.of (cs : List Char) : TextTraits :=
  let isSpace (c : Char) : Bool := c == ' '
  let special := !cs.all isYamlPrintable
  let spaceBreak := hasPair isSpace isYamlBreak cs
  let breakSpace := hasPair isYamlBreak isSpace cs
  let outer (c : Char) : Bool := isSpace c || isYamlBreak c
  { plain := !special && !cs.any isYamlBreak && !hasIndicator cs && !cs.head?.any outer
      && !cs.getLast?.any outer
    single := !special && !spaceBreak && !breakSpace
    literal := !special && !spaceBreak && !cs.getLast?.any isSpace }

/-- The style, or the next one that is possible. -/
def fallbackStyle (traits : TextTraits) : TextStyle → TextStyle
  | .plain => if traits.plain then .plain else if traits.single then .single else .double
  | .single => if traits.single then .single else .double
  | .literal => if traits.literal then .literal else .double
  | .double => .double

/-! ## Writing texts -/

/-- Blanks up to a column, before a text. -/
def blanksBefore (count : Nat) (after : List Char) : List Char :=
  List.replicate count ' ' ++ after

/-- A single-quoted text to its end; `broken` after an end of line.  A first new-line is written
twice, since one alone reads as a space. -/
def singleBefore (indent : Nat) (after : List Char) (broken : Bool) : List Char → List Char
  | [] =>
    let closing := '\x27' :: after
    if broken then blanksBefore indent closing else closing
  | c :: rest =>
    if isYamlBreak c then
      let text := c :: singleBefore indent after true rest
      if !broken && c == '\n' then '\n' :: text else text
    else
      let text := c :: singleBefore indent after false rest
      let text := if c == '\x27' then '\x27' :: text else text
      if broken then blanksBefore indent text else text

/-- A number in as many hexadecimal digits, in upper case. -/
def upperHex : Nat → Nat → List Char
  | 0, _ => []
  | count + 1, n => upperHex count (n / 16) ++ [(hexDigit (n % 16)).toUpper]

/-- The letters of escapes for single chars. -/
def doubleEscapes : List (Char × Char) :=
  [('\x00', '0'), ('\x07', 'a'), ('\x08', 'b'), ('\t', 't'), ('\n', 'n'), ('\x0b', 'v'),
    ('\x0c', 'f'), ('\r', 'r'), ('\x1b', 'e'), ('\x22', '\x22'), ('\\', '\\'), ('\u0085', 'N'),
    ('\u00a0', '_'), ('\u2028', 'L'), ('\u2029', 'P')]

/-- A char between double quotes. -/
def doubleChar (c : Char) : List Char :=
  if isYamlPrintable c && !isYamlBreak c && c != '\x22' && c != '\\' then [c]
  else
    match doubleEscapes.lookup c with
    | some letter => ['\\', letter]
    | none =>
      if c.toNat ≤ 0xFF then '\\' :: 'x' :: upperHex 2 c.toNat
      else if c.toNat ≤ 0xFFFF then '\\' :: 'u' :: upperHex 4 c.toNat
      else '\\' :: 'U' :: upperHex 8 c.toNat

/-- The lines of a literal block; `broken` at the start of a line. -/
def literalBefore (indent : Nat) (after : List Char) (broken : Bool) : List Char → List Char
  | [] => if broken then after else '\n' :: after
  | c :: rest =>
    if isYamlBreak c then c :: literalBefore indent after true rest
    else
      let text := c :: literalBefore indent after false rest
      if broken then blanksBefore indent text else text

/-- What tells a literal block apart: how deep it is, if it starts with blanks, and what becomes of
the ends of line at its end. -/
def literalHints (cs : List Char) : List Char :=
  let depth := if cs.head?.any fun c => c == ' ' || isYamlBreak c then ['2'] else []
  let ends :=
    match cs.reverse with
    | [] => ['-']
    | [c] => if isYamlBreak c then ['+'] else ['-']
    | c :: d :: _ => if !isYamlBreak c then ['-'] else if isYamlBreak d then ['+'] else []
  depth ++ ends

/-- A text in a style, to the end of the line, before another. -/
def styledBefore (indent : Nat) (style : TextStyle) (cs after : List Char) : List Char :=
  match fallbackStyle (TextTraits.of cs) style with
  | .plain => cs ++ '\n' :: after
  | .single => '\x27' :: singleBefore indent ('\n' :: after) false cs
  | .double => '\x22' :: (cs.flatMap doubleChar ++ '\x22' :: '\n' :: after)
  | .literal => '|' :: (literalHints cs ++ '\n' :: literalBefore indent after true cs)

/-- A string on its line, before a text. -/
def yamlTextBefore (indent : Nat) (text : String) (after : List Char) : List Char :=
  styledBefore indent (wantedStyle text) text.toList after

/-! ## Writing documents -/

namespace Document

/-- A tag after a blank, before a text. -/
def tagBefore (tag : Option String) (after : List Char) : List Char :=
  match tag with
  | some name => ' ' :: '!' :: (name.toList ++ after)
  | none => after

mutual

/-- The value of a field, after its colon, in a record `indent` deep. -/
def yamlValueBefore (indent : Nat) (tag : Option String) (after : List Char) :
    Document → List Char
  | null => tagBefore tag (' ' :: ("null".toList ++ '\n' :: after))
  | bool value =>
    tagBefore tag (' ' :: ((if value then "true" else "false").toList ++ '\n' :: after))
  | nat value => tagBefore tag (' ' :: ((toString value).toList ++ '\n' :: after))
  | char value => tagBefore tag (' ' :: styledBefore (indent + 2) .single [value] after)
  | str value => tagBefore tag (' ' :: yamlTextBefore (indent + 2) value after)
  | list [] => tagBefore tag (' ' :: '[' :: ']' :: '\n' :: after)
  | list (item :: rest) =>
    tagBefore tag ('\n' :: blanksBefore indent
      ('-' :: yamlItemBefore indent none (yamlItemsBefore indent after rest) item))
  | record [] => tagBefore tag (' ' :: '{' :: '}' :: '\n' :: after)
  | record ((key, value) :: rest) =>
    tagBefore tag ('\n' :: blanksBefore (indent + 2)
      (key.toList ++ ':' :: yamlValueBefore (indent + 2) none
        (yamlFieldsBefore (indent + 2) after rest) value))
  | variant name content => yamlValueBefore indent (some name) after content

/-- An item of a list, after its dash, in a list `indent` deep. -/
def yamlItemBefore (indent : Nat) (tag : Option String) (after : List Char) :
    Document → List Char
  | null => tagBefore tag (' ' :: ("null".toList ++ '\n' :: after))
  | bool value =>
    tagBefore tag (' ' :: ((if value then "true" else "false").toList ++ '\n' :: after))
  | nat value => tagBefore tag (' ' :: ((toString value).toList ++ '\n' :: after))
  | char value => tagBefore tag (' ' :: styledBefore (indent + 2) .single [value] after)
  | str value => tagBefore tag (' ' :: yamlTextBefore (indent + 2) value after)
  | list [] => tagBefore tag (' ' :: '[' :: ']' :: '\n' :: after)
  | list (item :: rest) =>
    let items := '-' :: yamlItemBefore (indent + 2) none (yamlItemsBefore (indent + 2) after rest)
      item
    match tag with
    | none => ' ' :: items
    | some _ => tagBefore tag ('\n' :: blanksBefore (indent + 2) items)
  | record [] => tagBefore tag (' ' :: '{' :: '}' :: '\n' :: after)
  | record ((key, value) :: rest) =>
    let fields := key.toList ++ ':' :: yamlValueBefore (indent + 2) none
      (yamlFieldsBefore (indent + 2) after rest) value
    match tag with
    | none => ' ' :: fields
    | some _ => tagBefore tag ('\n' :: blanksBefore (indent + 2) fields)
  | variant name content => yamlItemBefore indent (some name) after content

/-- Fields, each on a line of its own, before a text. -/
def yamlFieldsBefore (indent : Nat) (after : List Char) : List (String × Document) → List Char
  | [] => after
  | (key, value) :: rest =>
    blanksBefore indent
      (key.toList ++ ':' :: yamlValueBefore indent none (yamlFieldsBefore indent after rest) value)

/-- Items, each on a line of its own, before a text. -/
def yamlItemsBefore (indent : Nat) (after : List Char) : List Document → List Char
  | [] => after
  | item :: rest =>
    blanksBefore indent
      ('-' :: yamlItemBefore indent none (yamlItemsBefore indent after rest) item)

end

/-- The document as YAML. -/
def toYaml (d : Document) : String :=
  match d with
  | record (field :: rest) => String.ofList (yamlFieldsBefore 0 [] (field :: rest))
  | list (item :: rest) => String.ofList (yamlItemsBefore 0 [] (item :: rest))
  | d => String.ofList ((yamlValueBefore 0 none [] d).drop 1)

end Document

end LunSyntax
