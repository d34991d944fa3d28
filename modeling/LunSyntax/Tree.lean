import LunSyntax.Grammar.Item
import LunSyntax.Text.Utf8
import LunSyntax.Tree.Lowering
import LunSyntax.Tree.Position

/-!
# Syntax trees

A `Tree` is a parsed source with a table of nodes: those of its syntax, its comments and its
errors.  Hosts walk it by the numbers of nodes, of which the root is zero.

* `Tree.parse` builds the tree of any source;
* `Tree.children`, `Tree.parent?`, `Tree.nextSibling?` and the like lead from node to node;
* `Tree.sexp` writes a node and all below it.
-/

set_option autoImplicit false

namespace LunSyntax

/-- Whether messages are shown in color. -/
inductive DisplayStyle where
  | plain
  | color
  deriving DecidableEq, Repr

namespace DisplayStyle

def text : DisplayStyle → String
  | plain => "plain"
  | color => "ansi_color"

def ofText? (text : String) : Option DisplayStyle :=
  [plain, color].find? (·.text == text)

def caseName : DisplayStyle → String
  | plain => "Plain"
  | color => "AnsiColor"

end DisplayStyle

/-- The number of a source which is the only one. -/
def defaultSource : UInt16 := 1

/-- How a source is parsed: the number its spans get, and how its messages are shown. -/
structure Options where
  source : UInt16 := defaultSource
  display : DisplayStyle := .color
  deriving DecidableEq, Repr

/-- A parsed source and its nodes. -/
structure Tree where
  language : Language
  source : String
  options : Options
  file : Option SourceFile
  diagnostics : List Diagnostic
  arena : Arena
  index : SourceIndex

namespace Tree

/-- The nodes of a source: syntax, then comments, then errors. -/
def nodes (index : SourceIndex) (file : Option SourceFile) (comments : List Extent)
    (errors : List Extent) : Arena :=
  let locate (e : Extent) : Extent := ⟨index.byte e.start, index.byte e.stop⟩
  let arena := lowerSource index.byte index.charCount file
  let arena := (comments.map locate).foldl Arena.insertComment arena
  let arena := (errors.map locate).foldl Arena.insertError arena
  arena.propagateErrors

def commentExtents (tokens : List Token) : List Extent :=
  (tokens.filter fun t => t.kind.isComment).map Token.extent

def errorExtents (diagnostics : List Diagnostic) : List Extent :=
  diagnostics.filterMap fun d => d.span.map fun span => ⟨span.start, span.stop⟩

/-- The tree of a source. -/
def parse (language : Language) (source : String) (options : Options) : Tree :=
  let parsed := LunSyntax.parse source options.source
  let index := SourceIndex.ofSource source
  { language, source, options
    file := parsed.file
    diagnostics := parsed.diagnostics
    arena := nodes index parsed.file (commentExtents parsed.tokens)
      (errorExtents parsed.diagnostics)
    index }

def node? (t : Tree) (id : Nat) : Option NodeData := t.arena[id]?

/-- Whether the node is or contains an error. -/
def nodeHasError (t : Tree) (id : Nat) : Bool :=
  match t.node? id with
  | some node => node.hasError
  | none => false

/-- Whether anything is wrong with the source. -/
def hasError (t : Tree) : Bool := !t.diagnostics.isEmpty || t.nodeHasError 0

/-! ## From node to node -/

def children (t : Tree) (id : Nat) : List Nat :=
  match t.node? id with
  | some node => node.children
  | none => []

/-- Whether a node is named after a rule of the grammar. -/
def isNamed (t : Tree) (id : Nat) : Bool :=
  match t.node? id with
  | some node => node.kind.isNamed
  | none => false

/-- The children which are named after a rule. -/
def namedChildren (t : Tree) (id : Nat) : List Nat :=
  (t.children id).filter t.isNamed

def field? (t : Tree) (id : Nat) : Option Field :=
  match t.node? id with
  | some node => node.field
  | none => none

def childrenByFieldName (t : Tree) (id : Nat) (name : String) : List Nat :=
  (t.children id).filter fun child => ((t.field? child).map Field.text) == some name

def childByField? (t : Tree) (id : Nat) (field : Field) : Option Nat :=
  (t.children id).find? fun child => t.field? child == some field

/-- The name of the field of a child. -/
def fieldNameForChild? (t : Tree) (id i : Nat) : Option String := do
  let child ← (t.children id)[i]?
  let field ← t.field? child
  return field.text

def parent? (t : Tree) (id : Nat) : Option Nat :=
  match t.node? id with
  | some node => node.parent
  | none => none

/-- The next child of the parent. -/
def nextSibling? (t : Tree) (id : Nat) : Option Nat := do
  let parent ← t.parent? id
  let siblings := t.children parent
  let position ← siblings.findIdx? (· == id)
  siblings[position + 1]?

/-- The nodes below and including a node, in preorder, down to a depth. -/
def preorderWithin (t : Tree) : (depth id : Nat) → List Nat
  | 0, _ => []
  | depth + 1, id => id :: (t.children id).flatMap (preorderWithin t depth)

def preorder (t : Tree) : List Nat := t.preorderWithin t.arena.size 0

/-! ## Text -/

def sexp (t : Tree) (id : Nat) : String :=
  match t.arena.shapeAt id with
  | some shape => shape.sexp
  | none => ""

/-- A node with the points of its ends, in braces. -/
def describe (t : Tree) (id : Nat) : String :=
  match t.node? id with
  | some node =>
    "\x7bNode " ++ node.kind.name ++ " " ++ (t.index.point node.extent.start).text ++ " - "
      ++ (t.index.point node.extent.stop).text ++ "\x7d"
  | none => ""

/-- The tree by its root, in braces. -/
def text (t : Tree) : String := "\x7bTree " ++ t.describe 0 ++ "\x7d"

/-- The bytes of a node in some bytes, if they have as many. -/
def bytesIn? (t : Tree) (id : Nat) (bytes : List UInt8) : Option (List UInt8) := do
  let node ← t.node? id
  let extent := node.extent
  if extent.start ≤ extent.stop ∧ extent.stop ≤ bytes.length then
    return (bytes.drop extent.start).take (extent.stop - extent.start)
  else none

end Tree

end LunSyntax
