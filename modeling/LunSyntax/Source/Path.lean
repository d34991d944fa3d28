/-!
# Paths of sources

A path is a text of parts between slashes.  Paths which differ only in repeated slashes, slashes at
the end or parts `.` after the first are the same.
-/

set_option autoImplicit false

namespace LunSyntax

/-- The parts of a text between slashes. -/
def splitSlashes : List Char → List (List Char)
  | [] => [[]]
  | c :: rest =>
    match splitSlashes rest with
    | part :: more => if c = '/' then [] :: part :: more else (c :: part) :: more
    | [] => [[c]]

/-- Parts which lead somewhere. -/
def isStep (part : List Char) : Bool := part != [] && part != ['.']

/-- The steps of a path.  A path from the root starts with a slash of its own, and a first part `.`
counts. -/
def pathSteps (path : String) : List (List Char) :=
  match splitSlashes path.toList with
  | [] => []
  | [] :: rest => (if path.isEmpty then [] else [['/']]) ++ rest.filter isStep
  | first :: rest => first :: rest.filter isStep

/-- Whether two paths are the same. -/
def samePath (a b : String) : Bool := pathSteps a == pathSteps b

end LunSyntax
