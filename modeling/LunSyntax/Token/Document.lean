import LunSyntax.Document
import LunSyntax.Token

/-!
# Tokens as documents

The written form of tokens and literals.  A tag that is missing is left out.
-/

set_option autoImplicit false

namespace LunSyntax

open Document (ofList)

def Extent.toDocument (e : Extent) : Document :=
  .record [("start", .nat e.start), ("end", .nat e.stop)]

def PrimitiveType.caseName (p : PrimitiveType) : String :=
  match p.text.toList with
  | c :: rest => String.ofList (c.toUpper :: rest)
  | [] => ""

/-- A field which is left out when it has no value. -/
def optionalField (key : String) : Option String → List (String × Document)
  | some value => [(key, .str value)]
  | none => []

def IntegerLit.toDocument (lit : IntegerLit) : Document :=
  .record ([("radix", .nat lit.radix), ("digits", .str lit.digits)] ++ optionalField "tag" lit.tag)

/-- A part of a string as a variant. -/
def StringPart.toDocument : StringPart → Document
  | content text extent =>
    .variant "Content" (.record [("text", .str text), ("span", extent.toDocument)])
  | escape raw value extent =>
    .variant "Escape" (.record [("raw", .str raw), ("value", .char value),
      ("span", extent.toDocument)])

def StringLit.toDocument (lit : StringLit) : Document :=
  .record (optionalField "tag" lit.tag ++ [("parts", ofList StringPart.toDocument lit.parts)])

/-- A literal as a record whose only field is its case. -/
def Literal.toDocument : Literal → Document
  | integer lit => .record [("Integer", lit.toDocument)]
  | string lit => .record [("String", lit.toDocument)]

def Digraph.caseName : Digraph → String
  | pathSep => "PathSep" | deref => "Deref" | eq => "Eq" | ne => "Ne" | gte => "Gte"
  | lte => "Lte" | and => "And" | or => "Or" | shl => "Shl" | shr => "Shr"

/-- A kind of token as a variant. -/
def TokenKind.toDocument : TokenKind → Document
  | ident name => .variant "Ident" (.str name)
  | keyword word => .variant "Keyword" (.str word)
  | literal lit => .variant "Literal" lit.toDocument
  | control c => .variant "Control" (.char c)
  | digraph op => .str op.caseName
  | comment text => .variant "Comment" (.str text)

def Token.toDocument (t : Token) : Document :=
  .record [("kind", t.kind.toDocument), ("span", t.extent.toDocument)]

def tokensToDocument (tokens : List Token) : Document :=
  ofList Token.toDocument tokens

end LunSyntax
