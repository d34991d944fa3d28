/-!
# Documents

What tokens, syntax and messages are written as: a tree of scalars, lists, records and variants.
Records keep the order of their fields.  A variant is one case of a sum with its content; a case
without content is the string of its name.
-/

set_option autoImplicit false

namespace LunSyntax

/-- A value to be written. -/
inductive Document where
  | null
  | bool (value : Bool)
  | nat (value : Nat)
  | char (value : Char)
  | str (value : String)
  | list (items : List Document)
  | record (fields : List (String × Document))
  | variant (name : String) (content : Document)
  deriving Inhabited

namespace Document

def ofOption {α : Type} (f : α → Document) : Option α → Document
  | some a => f a
  | none => null

def ofList {α : Type} (f : α → Document) (items : List α) : Document :=
  list (items.map f)

end Document

end LunSyntax
