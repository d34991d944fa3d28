import LunSyntax.Tree.Shape

/-!
# The nodes of a tree as a table

Hosts know a node by its number, so the nodes of a tree are in a table: those of the syntax in
preorder, then comments and errors in the order they are inserted.  A parent always comes before
its children.

* `Arena.place` adds a node of the syntax, and `Arena.shapeAt` unfolds what is below one;
* `Arena.insertComment` and `Arena.insertError` put a node into the innermost one around it;
* `Arena.propagateErrors` marks the nodes above errors.
-/

set_option autoImplicit false

namespace LunSyntax

/-- A row of the table. -/
structure NodeData where
  kind : NodeKind
  field : Option Field
  extent : Extent
  parent : Option Nat
  children : List Nat
  hasError : Bool
  deriving Repr

/-- Whether a range lies within a node.  An empty range has to be strictly inside, so that a place
at the edge of a node belongs to its parent. -/
def NodeData.contains (node : NodeData) (range : Extent) : Bool :=
  if range.start = range.stop then
    node.extent.start < range.start && range.stop < node.extent.stop
  else node.extent.start ≤ range.start && range.stop ≤ node.extent.stop

/-- The table of nodes. -/
abbrev Arena := Array NodeData

namespace Arena

/-- Add a child to a node, at a position among its children. -/
def link (arena : Arena) (parent position child : Nat) : Arena :=
  arena.modify parent fun node =>
    { node with children := node.children.take position ++ child :: node.children.drop position }

/-- Add a node without children. -/
def addNode (arena : Arena) (parent : Option Nat) (kind : NodeKind) (field : Option Field)
    (extent : Extent) : Arena :=
  arena.push ⟨kind, field, extent, parent, [], kind == .error⟩

/-- Add a node as the last child of its parent. -/
def place (arena : Arena) (parent : Option Nat) (kind : NodeKind) (field : Option Field)
    (extent : Extent) : Arena :=
  let id := arena.size
  let arena := addNode arena parent kind field extent
  match parent with
  | some parent => arena.modify parent fun node => { node with children := node.children ++ [id] }
  | none => arena

/-- The shape below a node, down to a depth. -/
def shapeWithin (arena : Arena) : (depth id : Nat) → Option Shape
  | 0, _ => none
  | depth + 1, id => do
    let node ← arena[id]?
    return .node node.kind node.field node.extent (node.children.filterMap (shapeWithin arena depth))

/-- The shape below a node. -/
def shapeAt (arena : Arena) (id : Nat) : Option Shape := shapeWithin arena arena.size id

/-- The child of a node which a search goes on in: the first which can hold others and contains
the range. -/
def step? (arena : Arena) (range : Extent) (current : Nat) : Option Nat := do
  let node ← arena[current]?
  node.children.find? fun id =>
    match arena[id]? with
    | some child => !child.kind.isLeaf && child.contains range
    | none => false

/-- The innermost node around a range, at or below a node.  Children come after their parents. -/
def container (arena : Arena) (range : Extent) (current : Nat) : Nat :=
  match step? arena range current with
  | some id =>
    if current < id ∧ id < arena.size then container arena range id else current
  | none => current
termination_by arena.size - current

/-- Whether an error is represented by an error node: it is within one or touches one. -/
def isRepresented (arena : Arena) (parent : Nat) (range : Extent) : Bool :=
  match arena[parent]? with
  | none => false
  | some node =>
    node.kind == .error || node.children.any fun id =>
      match arena[id]? with
      | some child =>
        child.kind == .error && child.extent.start ≤ range.stop
          && range.start ≤ child.extent.stop
      | none => false

/-- The first position from `lo` on, and before `hi`, where a condition fails.  It is searched for by
halves, as it may where the condition fails ever after it has failed once. -/
def partitionPoint (p : Nat → Bool) (lo hi : Nat) : Nat :=
  if lo < hi then
    let mid := lo + (hi - lo) / 2
    if p mid then partitionPoint p (mid + 1) hi else partitionPoint p lo mid
  else lo
termination_by hi - lo

/-- Whether one of some nodes starts no later than at a byte. -/
def startsBy (arena : Arena) (children : List Nat) (byte position : Nat) : Bool :=
  match children[position]?.bind (arena[·]?) with
  | some child => child.extent.start ≤ byte
  | none => false

/-- Add a node below a parent, after the children which start no later. -/
def insertBelow (arena : Arena) (parent : Nat) (kind : NodeKind) (range : Extent) : Arena :=
  let children := (arena[parent]?.map NodeData.children).getD []
  let position := partitionPoint (startsBy arena children range.start) 0 children.length
  link (addNode arena (some parent) kind none range) parent position arena.size

def insertComment (arena : Arena) (range : Extent) : Arena :=
  insertBelow arena (container arena range 0) .comment range

/-- Insert an error, unless it is represented already. -/
def insertError (arena : Arena) (range : Extent) : Arena :=
  let parent := container arena range 0
  if isRepresented arena parent range then arena else insertBelow arena parent .error range

/-- Mark the parent of a node which has an error. -/
def markParent (arena : Arena) (id : Nat) : Arena :=
  match arena[id]? with
  | some node =>
    match node.hasError, node.parent with
    | true, some parent => arena.modify parent fun node => { node with hasError := true }
    | _, _ => arena
  | none => arena

/-- Mark all nodes above errors, from the last node to the first. -/
def propagateErrors (arena : Arena) : Arena :=
  (List.range arena.size).reverse.foldl markParent arena

end Arena

end LunSyntax
