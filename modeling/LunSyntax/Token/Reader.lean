import LunSyntax.Document.Reader
import LunSyntax.Token.Document

/-!
# Reading tokens

Tokens from the JSON they are written as.  All readers take the number of brackets that may still
be opened.
-/

set_option autoImplicit false

namespace LunSyntax

open Reader

/-- Read the extent of a token. -/
def Extent.read (depth : Nat) : Reader Extent := do
  let fields := deeper depth fun _ =>
    Fields.cons "start" word64 .refused <| .cons "end" word64 .refused .nil
  let (start, stop, _) ← record ⟨"Range", true⟩ fields
  return ⟨start, stop⟩

/-- Read an integer literal. -/
def IntegerLit.read (depth : Nat) : Reader IntegerLit := do
  let fields := deeper depth fun _ =>
    Fields.cons "radix" word32 .refused <| .cons "digits" str .refused <|
      .cons "tag" (option str) (.anywhere none) .nil
  let (radix, digits, tag, _) ← record ⟨"IntegerLit", false⟩ fields
  return ⟨radix, digits, tag⟩

/-- Read the plain text of a string literal. -/
def StringPart.readContent (depth : Nat) : Reader StringPart := do
  let fields := deeper depth fun d =>
    Fields.cons "text" str .refused <| .cons "span" (Extent.read d) .refused .nil
  let (text, extent, _) ← record ⟨"StringContent", false⟩ fields
  return .content text extent

/-- Read an escape of a string literal. -/
def StringPart.readEscape (depth : Nat) : Reader StringPart := do
  let fields := deeper depth fun d =>
    Fields.cons "raw" str .refused <| .cons "value" char .refused <|
      .cons "span" (Extent.read d) .refused .nil
  let (raw, value, extent, _) ← record ⟨"EscapeSequence", false⟩ fields
  return .escape raw value extent

def StringPart.read (depth : Nat) : Reader StringPart :=
  case ["Content", "Escape"] (fun _ => none) <| deeper depth fun d name =>
    .content (if name == "Content" then StringPart.readContent d else StringPart.readEscape d)

/-- Read a string literal. -/
def StringLit.read (depth : Nat) : Reader StringLit := do
  let fields := deeper depth fun d =>
    Fields.cons "tag" (option str) (.anywhere none) <|
      .cons "parts" (list (deeper d StringPart.read)) .refused .nil
  let (tag, parts, _) ← record ⟨"StringLit", false⟩ fields
  return ⟨tag, parts⟩

def Literal.read (depth : Nat) : Reader Literal :=
  singleton "Literal" ["Integer", "String"] <| deeper depth fun d name =>
    if name == "Integer" then Literal.integer <$> IntegerLit.read d
    else Literal.string <$> StringLit.read d

def TokenKind.caseNames : List String :=
  ["Ident", "Keyword", "Literal", "Control"] ++ Digraph.all.map Digraph.caseName ++ ["Comment"]

def Digraph.ofCaseName? (name : String) : Option Digraph :=
  Digraph.all.find? (·.caseName == name)

/-- The content of a kind of tokens. -/
def TokenKind.readCase (depth : Nat) (name : String) : Case TokenKind :=
  match name with
  | "Ident" => .content (TokenKind.ident <$> str)
  | "Keyword" => .content (TokenKind.keyword <$> str)
  | "Literal" => .content (TokenKind.literal <$> Literal.read depth)
  | "Control" => .content (TokenKind.control <$> char)
  | _ =>
    match Digraph.ofCaseName? name with
    | some op => .bare (.digraph op)
    | none => .content (TokenKind.comment <$> str)

def TokenKind.read (depth : Nat) : Reader TokenKind :=
  case TokenKind.caseNames (fun name => (Digraph.ofCaseName? name).map .digraph)
    (deeper depth TokenKind.readCase)

/-- Read a token. -/
def Token.read (depth : Nat) : Reader Token := do
  let fields := deeper depth fun d =>
    Fields.cons "kind" (TokenKind.read d) .refused <| .cons "span" (Extent.read d) .refused .nil
  let (kind, extent, _) ← record ⟨"Token", false⟩ fields
  return ⟨kind, extent⟩

def tokensOfJson (source : String) : Except ReadFault (List Token) :=
  (list (deeper maxDepth Token.read)).run source

end LunSyntax
