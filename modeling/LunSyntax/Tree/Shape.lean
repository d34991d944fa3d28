import LunSyntax.Language

/-!
# The shape of a syntax tree

A `Shape` is a node with its kind, its field in the parent, its extent and its children.  It is
written as an S-expression, `Shape.sexp`.
-/

set_option autoImplicit false

namespace LunSyntax

/-- A node and all below it. -/
inductive Shape where
  | node (kind : NodeKind) (field : Option Field) (extent : Extent) (children : List Shape)

namespace Shape

def field : Shape → Option Field
  | node _ field _ _ => field

def extent : Shape → Extent
  | node _ _ extent _ => extent

mutual

/-- The S-expression of a node before a text: its kind and its children in parentheses. -/
def sexpBefore (after : List Char) : Shape → List Char
  | node kind _ _ children => '(' :: (kind.name.toList ++ childrenBefore (')' :: after) children)

/-- The children of a node, each after a blank and the name of its field, before a text. -/
def childrenBefore (after : List Char) : List Shape → List Char
  | [] => after
  | node kind field extent children :: rest =>
    let text := sexpBefore (childrenBefore after rest) (node kind field extent children)
    ' ' :: match field with
      | some field => field.text.toList ++ ':' :: ' ' :: text
      | none => text

end

def sexp (s : Shape) : String := String.ofList (sexpBefore [] s)

end Shape

end LunSyntax
