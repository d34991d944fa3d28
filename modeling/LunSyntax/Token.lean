import LunSyntax.Span

/-!
# Tokens

What a source is made of.  A `Token` is a `TokenKind` and the extent it was read from; the kinds
are words, literals, punctuation and comments.

* `TokenKind.text` is a token as the source has it;
* `TokenKind.label` names a token to a reader of messages;
* `IntegerLit.value` and `StringLit.value` are what literals stand for.
-/

set_option autoImplicit false

namespace LunSyntax

/-! ## Words -/

def keywords : List String :=
  ["orb", "true", "false", "null", "if", "else", "while", "for", "in", "loop", "return", "break",
    "continue", "mut", "fun"]

/-- The builtin types.  Their names are reserved too. -/
inductive PrimitiveType where
  | isz | i128 | i64 | i32 | i16 | i8
  | usz | u128 | u64 | u32 | u16 | u8
  | f16 | f32 | f64 | f128
  | bool | str | char | never | void
  deriving DecidableEq, Repr

namespace PrimitiveType

def all : List PrimitiveType :=
  [isz, i128, i64, i32, i16, i8, usz, u128, u64, u32, u16, u8, f16, f32, f64, f128, bool, str,
    char, never, void]

/-- The name in a source. -/
def text : PrimitiveType → String
  | isz => "isz" | i128 => "i128" | i64 => "i64" | i32 => "i32" | i16 => "i16" | i8 => "i8"
  | usz => "usz" | u128 => "u128" | u64 => "u64" | u32 => "u32" | u16 => "u16" | u8 => "u8"
  | f16 => "f16" | f32 => "f32" | f64 => "f64" | f128 => "f128"
  | bool => "bool" | str => "str" | char => "char" | never => "never" | void => "void"

def ofText? (name : String) : Option PrimitiveType :=
  all.find? (·.text == name)

end PrimitiveType

/-- Whether a word is reserved. -/
def isKeyword (word : String) : Bool :=
  keywords.contains word || (PrimitiveType.ofText? word).isSome

/-! ## Literals -/

/-- An integer literal, such as `42`, `0x2A` or `42'u8`.  The digits come without the mark of the
radix and may hold `_`; the tag is what follows the apostrophe. -/
structure IntegerLit where
  radix : Nat
  digits : String
  tag : Option String
  deriving DecidableEq, Repr, Inhabited

namespace IntegerLit

/-- The largest value of a literal. -/
def maxValue : Nat := 0xFFFFFFFFFFFFFFFFFFFFFFFFFFFFFFFF

/-- Radixes which have enough digits and letters. -/
def radixAllowed (radix : Nat) : Bool := 2 ≤ radix && radix ≤ 36

/-- The number written, if it is one of 128 bits.  Separators do not count. -/
def value (lit : IntegerLit) : Option Nat :=
  (readNumeral lit.radix maxValue (lit.digits.toList.filter (· != '_'))).toOption

/-- The mark in front of the digits. -/
def mark (radix : Nat) : String :=
  match radix with
  | 2 => "0b"
  | 8 => "0o"
  | 16 => "0x"
  | _ => ""

/-- The literal as written. -/
def text (lit : IntegerLit) : String :=
  mark lit.radix ++ lit.digits ++
    match lit.tag with
    | some tag => "'" ++ tag
    | none => ""

end IntegerLit

/-- A part of a string literal: plain text, or an escape sequence with the char it denotes. -/
inductive StringPart where
  | content (text : String) (extent : Extent)
  | escape (raw : String) (value : Char) (extent : Extent)
  deriving DecidableEq, Repr

def StringPart.text : StringPart → String
  | content text _ => text
  | escape raw _ _ => raw

/-- The text a part denotes. -/
def StringPart.value : StringPart → String
  | content text _ => text
  | escape _ value _ => String.singleton value

def StringPart.extent : StringPart → Extent
  | content _ extent => extent
  | escape _ _ extent => extent

/-- A string literal, such as `"a\n"` or `c"abc"`. -/
structure StringLit where
  tag : Option String
  parts : List StringPart
  deriving DecidableEq, Repr, Inhabited

namespace StringLit

/-- The text denoted, with escapes decoded. -/
def value (lit : StringLit) : String :=
  String.join (lit.parts.map StringPart.value)

def text (lit : StringLit) : String :=
  lit.tag.getD "" ++ "\"" ++ String.join (lit.parts.map StringPart.text) ++ "\""

end StringLit

inductive Literal where
  | integer (lit : IntegerLit)
  | string (lit : StringLit)
  deriving DecidableEq, Repr

def Literal.text : Literal → String
  | integer lit => lit.text
  | string lit => lit.text

/-! ## Kinds of tokens -/

inductive Digraph where
  | pathSep | deref | eq | ne | gte | lte | and | or | shl | shr
  deriving DecidableEq, Repr

namespace Digraph

def all : List Digraph := [pathSep, deref, eq, ne, gte, lte, and, or, shl, shr]

def first : Digraph → Char
  | pathSep => ':' | deref => '.' | eq => '=' | ne => '!' | gte => '>' | lte => '<'
  | and => '&' | or => '|' | shl => '<' | shr => '>'

def second : Digraph → Char
  | pathSep => ':' | deref => '*' | eq => '=' | ne => '=' | gte => '=' | lte => '='
  | and => '&' | or => '|' | shl => '<' | shr => '>'

def text (d : Digraph) : String := String.ofList [d.first, d.second]

end Digraph

/-- The single chars which are tokens of their own. -/
def controls : List Char :=
  ['+', '-', '*', '/', '%', '<', '>', '=', '!', '&', '|', '^', '.', ',', ';', ':', '(', ')', '{',
    '}']

/-- The kinds of tokens.  Comments mean nothing to the grammar, but are kept. -/
inductive TokenKind where
  | ident (name : String)
  | keyword (word : String)
  | literal (lit : Literal)
  | control (c : Char)
  | digraph (op : Digraph)
  | comment (text : String)
  deriving DecidableEq, Repr

namespace TokenKind

/-- The token as the source has it. -/
def lexeme : TokenKind → String
  | ident name => name
  | keyword word => word
  | literal lit => lit.text
  | control c => String.singleton c
  | digraph op => op.text
  | comment text => text

/-- The token in a listing, where keywords are marked and the nameless identifier stands for any
identifier. -/
def text : TokenKind → String
  | ident name => if name.isEmpty then "an identifier" else name
  | keyword word => "keyword " ++ word
  | kind => kind.lexeme

/-- The token in a message: quoted as written, while literals and comments are only named. -/
def label : TokenKind → String
  | ident name => if name.isEmpty then "an identifier" else "`" ++ name ++ "`"
  | keyword word => "keyword `" ++ word ++ "`"
  | literal _ => "a literal"
  | comment _ => "a comment"
  | kind => "`" ++ kind.lexeme ++ "`"

def isComment : TokenKind → Bool
  | comment _ => true
  | _ => false

end TokenKind

structure Token where
  kind : TokenKind
  extent : Extent
  deriving DecidableEq, Repr

end LunSyntax
