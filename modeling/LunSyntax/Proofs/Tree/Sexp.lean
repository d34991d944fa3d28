import LunSyntax.Proofs.Tree.Insertion
import LunSyntax.Proofs.Tree.Structure

/-!
# Reading S-expressions back

The S-expression of a node shows its kind and all nodes below it, with their kinds and fields.  From
the text one can tell where the text of each of them ends, so all of this can be read back.

* `KindTree`: what an S-expression shows, and `readSexp`: a reader of them;
* `readNode_sexpBefore`: the reader stops where the text of a node ends;
* `Arena.Rooted.shapeAt_eq`: what is unfolded below a node, to whatever depth there are nodes;
* `Tree.sexp_unambiguous`: texts which are equal are of nodes which look the same.
-/

set_option autoImplicit false

namespace LunSyntax

/-! ## What is shown -/

/-- What an S-expression shows of a node: its kind, and the nodes below it with their fields. -/
inductive KindTree where
  | node (kind : NodeKind) (children : List (Option Field × KindTree))

namespace KindTree

def kind : KindTree → NodeKind
  | node kind _ => kind

def children : KindTree → List (Option Field × KindTree)
  | node _ children => children

/-- The field and the kind of a node below one in a field.  The path says which children lead
there. -/
def labelFrom? : List Nat → Option Field → KindTree → Option (Option Field × NodeKind)
  | [], field, tree => some (field, tree.kind)
  | i :: path, _, tree =>
    match tree.children[i]? with
    | some (field, child) => labelFrom? path field child
    | none => none

/-- The field and the kind of a node below this one, which is in no field itself. -/
def labelAt? (tree : KindTree) (path : List Nat) : Option (Option Field × NodeKind) :=
  labelFrom? path none tree

end KindTree

mutual

/-- What is shown of a shape. -/
def Shape.kinds : Shape → KindTree
  | .node kind _ _ children => .node kind (Shape.childKinds children)

/-- What is shown of the children of a shape. -/
def Shape.childKinds : List Shape → List (Option Field × KindTree)
  | [] => []
  | child :: rest => (child.field, child.kinds) :: Shape.childKinds rest

end

theorem Shape.childKinds_eq (children : List Shape) :
    Shape.childKinds children = children.map fun child => (child.field, child.kinds) := by
  induction children with
  | nil => rfl
  | cons child rest ih => rw [Shape.childKinds, ih, List.map_cons]

/-! ## Reading -/

/-- Chars of names: all but those which separate them. -/
def isNameChar (c : Char) : Bool := !(c == ' ' || c == '(' || c == ')' || c == ':')

/-- The kind of a name. -/
def NodeKind.ofName? (name : String) : Option NodeKind := NodeKind.all.find? (·.name == name)

/-- The field in front of a node, if it has one, and the text from the node on. -/
def readField (text : List Char) : Option (Option Field × List Char) :=
  match text.dropWhile isNameChar with
  | ':' :: ' ' :: rest =>
    (Field.ofText? (String.ofList (text.takeWhile isNameChar))).map fun field => (some field, rest)
  | _ => some (none, text)

mutual

/-- The node at the head of a text, and the text after it, in no more steps than given. -/
def readNode : Nat → List Char → Option (KindTree × List Char)
  | steps + 1, '(' :: text => do
    let kind ← NodeKind.ofName? (String.ofList (text.takeWhile isNameChar))
    let (children, rest) ← readChildren steps (text.dropWhile isNameChar)
    return (.node kind children, rest)
  | _, _ => none

/-- The nodes up to a closing parenthesis, and the text after that. -/
def readChildren : Nat → List Char → Option (List (Option Field × KindTree) × List Char)
  | _, ')' :: rest => some ([], rest)
  | steps + 1, ' ' :: text => do
    let (field, text) ← readField text
    let (child, text) ← readNode steps text
    let (siblings, rest) ← readChildren steps text
    return ((field, child) :: siblings, rest)
  | _, _ => none

end

/-- What an S-expression shows.  There are no more steps to take than there are chars. -/
def readSexp (text : String) : Option KindTree :=
  match readNode text.length text.toList with
  | some (tree, []) => some tree
  | _ => none

/-! ## Names -/

@[simp]
theorem NodeKind.ofName?_name (kind : NodeKind) : ofName? kind.name = some kind := by
  cases kind <;> decide

@[simp]
theorem Field.ofText?_text (field : Field) : ofText? field.text = some field := by
  cases field <;> decide

theorem NodeKind.name_chars (kind : NodeKind) : ∀ c ∈ kind.name.toList, isNameChar c = true := by
  have hall : kind.name.toList.all isNameChar = true := by cases kind <;> decide
  exact List.all_eq_true.1 hall

theorem Field.text_chars (field : Field) : ∀ c ∈ field.text.toList, isNameChar c = true := by
  have hall : field.text.toList.all isNameChar = true := by cases field <;> decide
  exact List.all_eq_true.1 hall

/-- A name is read up to the char that separates it. -/
theorem takeWhile_name {name : List Char} {c : Char} (h : ∀ d ∈ name, isNameChar d = true)
    (hc : isNameChar c = false) (rest : List Char) :
    (name ++ c :: rest).takeWhile isNameChar = name ∧
      (name ++ c :: rest).dropWhile isNameChar = c :: rest := by
  constructor
  · rw [List.takeWhile_append_of_pos h, List.takeWhile_cons_of_neg (by simp [hc]), List.append_nil]
  · rw [List.dropWhile_append_of_pos h, List.dropWhile_cons_of_neg (by simp [hc])]

/-! ## Texts of nodes -/

namespace Shape

theorem sexpBefore_head (after : List Char) (s : Shape) :
    ∃ text, s.sexpBefore after = '(' :: text := by
  cases s
  exact ⟨_, rfl⟩

theorem childrenBefore_head (after : List Char) (children : List Shape) :
    ∃ c text, childrenBefore (')' :: after) children = c :: text ∧ isNameChar c = false := by
  cases children with
  | nil => exact ⟨_, _, rfl, by decide⟩
  | cons child rest =>
    cases child
    exact ⟨_, _, rfl, by decide⟩

theorem length_sexpBefore (after : List Char) (s : Shape) :
    after.length ≤ (s.sexpBefore after).length := by
  rw [sexpBefore_eq, List.length_append]
  exact Nat.le_add_left _ _

/-- The text of a node after the name of its field, before the text of others. -/
def inField (after : List Char) (s : Shape) : List Char :=
  match s.field with
  | some field => field.text.toList ++ ':' :: ' ' :: s.sexpBefore after
  | none => s.sexpBefore after

theorem childrenBefore_cons (after : List Char) (s : Shape) (rest : List Shape) :
    childrenBefore after (s :: rest) = ' ' :: s.inField (childrenBefore after rest) := by
  obtain ⟨kind, field, extent, children⟩ := s
  cases field <;> simp only [childrenBefore] <;> rfl

theorem length_inField (after : List Char) (s : Shape) :
    (s.sexpBefore after).length ≤ (s.inField after).length := by
  rw [inField]
  split
  · simp only [List.length_append, List.length_cons]
    omega
  · exact Nat.le_refl _

theorem readField_inField (after : List Char) (s : Shape) :
    readField (s.inField after) = some (s.field, s.sexpBefore after) := by
  rw [inField]
  split
  · rename_i field hfield
    obtain ⟨htake, hdrop⟩ := takeWhile_name field.text_chars (by decide : isNameChar ':' = false)
      (' ' :: s.sexpBefore after)
    rw [readField, hdrop, htake, hfield]
    simp
  · rename_i hfield
    obtain ⟨text, htext⟩ := sexpBefore_head after s
    rw [htext, readField, List.dropWhile_cons_of_neg (by decide), hfield]
    rfl

mutual

/-- **A node is read from its text, whatever follows**, and the reader stops where the text ends. -/
theorem readNode_sexpBefore (after : List Char) : ∀ (s : Shape) (steps : Nat),
    (s.sexpBefore after).length ≤ steps →
      readNode steps (s.sexpBefore after) = some (s.kinds, after)
  | node _ _ _ _, 0, h => by simp [sexpBefore] at h
  | node kind _ _ children, steps + 1, h => by
    obtain ⟨c, text, htext, hc⟩ := childrenBefore_head after children
    obtain ⟨htake, hdrop⟩ := takeWhile_name kind.name_chars hc text
    rw [sexpBefore, List.length_cons, List.length_append] at h
    have hchildren := readChildren_childrenBefore after children steps (by omega)
    rw [htext] at hchildren
    rw [sexpBefore, readNode, htext, htake, hdrop, hchildren]
    simp [kinds]

theorem readChildren_childrenBefore (after : List Char) : ∀ (children : List Shape) (steps : Nat),
    (childrenBefore (')' :: after) children).length ≤ steps →
      readChildren steps (childrenBefore (')' :: after) children) =
        some (childKinds children, after)
  | [], steps, _ => by rw [childrenBefore, readChildren, childKinds]
  | child :: rest, 0, h => by simp [childrenBefore_cons] at h
  | child :: rest, steps + 1, h => by
    rw [childrenBefore_cons, List.length_cons, Nat.add_le_add_iff_right] at h
    have hlength := (length_inField _ child).trans h
    have hchild := readNode_sexpBefore _ child steps hlength
    have hsiblings := readChildren_childrenBefore after rest steps
      ((length_sexpBefore _ child).trans hlength)
    rw [childrenBefore_cons, readChildren, readField_inField]
    simp [hchild, hsiblings, childKinds]

end

/-- **An S-expression is read back.** -/
theorem readSexp_sexp (s : Shape) : readSexp s.sexp = some s.kinds := by
  have hread := readNode_sexpBefore [] s s.sexp.length
    (by rw [← String.length_toList, sexp_toList])
  rw [readSexp, sexp_toList, hread]

end Shape

/-! ## Nodes of tables -/

namespace Arena

variable {size : Nat} {arena : Arena}

/-- Below a node there are no more levels than there are nodes after it. -/
theorem Rooted.shapeWithin_succ (h : Rooted size arena) : ∀ (depth id : Nat),
    arena.size - id ≤ depth → arena.shapeWithin (depth + 1) id = arena.shapeWithin depth id := by
  intro depth
  induction depth with
  | zero =>
    intro id hid
    have hnone : arena[id]? = none := by
      rw [Array.getElem?_eq_none_iff]
      omega
    simp [shapeWithin, hnone]
  | succ depth ih =>
    intro id hid
    rw [shapeWithin, shapeWithin]
    cases hrow : arena[id]? with
    | none => rfl
    | some node =>
      have hbelow : node.children.filterMap (arena.shapeWithin (depth + 1)) =
          node.children.filterMap (arena.shapeWithin depth) := by
        refine List.filterMap_congr fun c hc => ih c ?_
        rw [← row_of_getElem? hrow] at hc
        have := (h.child hc).1
        omega
      simp [hbelow]

/-- **All that is below a node is unfolded**, to whatever depth there are nodes. -/
theorem Rooted.shapeAt_eq (h : Rooted size arena) {id : Nat} {node : NodeData}
    (hnode : arena[id]? = some node) :
    arena.shapeAt id = some (.node node.kind node.field node.extent
      (node.children.filterMap arena.shapeAt)) := by
  have hid := (Array.getElem?_eq_some_iff.1 hnode).1
  obtain ⟨depth, hdepth⟩ := Nat.exists_eq_succ_of_ne_zero (Nat.ne_of_gt h.nonempty)
  have hbelow : node.children.filterMap (arena.shapeWithin depth) =
      node.children.filterMap arena.shapeAt := by
    refine List.filterMap_congr fun c hc => ?_
    rw [← row_of_getElem? hnode] at hc
    have := (h.child hc).1
    rw [shapeAt, hdepth, h.shapeWithin_succ depth c (by omega)]
  rw [shapeAt, hdepth, shapeWithin, hnode, ← hbelow]
  rfl

end Arena

/-! ## Nodes of trees -/

namespace Tree

/-- The field and the kind of a node below one in a field.  The path says which children lead
there. -/
def labelFrom? (t : Tree) : List Nat → Option Field → Nat → Option (Option Field × NodeKind)
  | [], field, id => (t.node? id).map fun node => (field, node.kind)
  | i :: path, _, id =>
    match (t.children id)[i]? with
    | some child => labelFrom? t path (t.field? child) child
    | none => none

/-- The field and the kind of a node below another.  The field of the other node is a matter of its
parent, and not told. -/
def labelAt? (t : Tree) (id : Nat) (path : List Nat) : Option (Option Field × NodeKind) :=
  t.labelFrom? path none id

variable {size : Nat} {t : Tree}

/-- What is shown of the children of a node is what is shown of each of them. -/
theorem childKinds_getElem? (h : t.arena.Rooted size) (id i : Nat) :
    (Shape.childKinds ((t.children id).filterMap t.arena.shapeAt))[i]? =
      (t.children id)[i]?.bind fun child =>
        (t.arena.shapeAt child).map fun s => (t.field? child, s.kinds) := by
  have hall : ∀ child ∈ t.children id, ∃ s, t.arena.shapeAt child = some s ∧
      s.field = t.field? child := by
    intro child hchild
    rw [children_eq] at hchild
    have hnode := Arena.getElem?_eq_row (h.child hchild).2.1
    refine ⟨_, h.shapeAt_eq hnode, ?_⟩
    rw [field?, node?, hnode]
    rfl
  rw [Shape.childKinds_eq]
  generalize t.children id = children at hall
  induction children generalizing i with
  | nil => rfl
  | cons child rest ih =>
    obtain ⟨⟨s, hs, hfield⟩, hrest⟩ := List.forall_mem_cons.1 hall
    rw [List.filterMap_cons_some hs, List.map_cons]
    cases i with
    | zero => simp [hs, hfield]
    | succ i => simpa using ih i hrest

/-- **What is shown of a node is so at each place below it.** -/
theorem kinds_labelFrom? (h : t.arena.Rooted size) (path : List Nat) :
    ∀ (field : Option Field) (id : Nat) (node : NodeData) (s : Shape), t.node? id = some node →
      t.arena.shapeAt id = some s →
      KindTree.labelFrom? path field s.kinds = t.labelFrom? path field id := by
  induction path with
  | nil =>
    intro field id node s hnode hs
    obtain rfl := Option.some.inj (hs.symm.trans (h.shapeAt_eq hnode))
    rw [labelFrom?, hnode]
    rfl
  | cons i path ih =>
    intro field id node s hnode hs
    obtain rfl := Option.some.inj (hs.symm.trans (h.shapeAt_eq hnode))
    have hchildren : t.children id = node.children := by rw [children, hnode]
    have hkinds := childKinds_getElem? h id i
    rw [hchildren] at hkinds
    rw [KindTree.labelFrom?, Shape.kinds, KindTree.children, hkinds, labelFrom?, hchildren]
    cases hchild : node.children[i]? with
    | none => rfl
    | some child =>
      have hmem : child ∈ (t.arena.row id).children := by
        rw [Arena.row_of_getElem? hnode]
        exact List.mem_of_getElem? hchild
      have hbelow := Arena.getElem?_eq_row (h.child hmem).2.1
      have hshape := h.shapeAt_eq hbelow
      rw [Option.bind_some, hshape]
      exact ih (t.field? child) child _ _ hbelow hshape

/-- The S-expression of a node shows what is below it. -/
theorem readSexp_eq (h : t.arena.Rooted size) {id : Nat} {node : NodeData}
    (hnode : t.node? id = some node) :
    ∃ tree, readSexp (t.sexp id) = some tree ∧ ∀ path, tree.labelAt? path = t.labelAt? id path := by
  have hs := h.shapeAt_eq hnode
  refine ⟨_, ?_, fun path => kinds_labelFrom? h path none id node _ hnode hs⟩
  rw [sexp, hs]
  exact Shape.readSexp_sexp _

/-- **S-expressions are unambiguous.**  From the text of a node the kinds of it and of all nodes
below it are read back, and their fields, each at its place.  So two nodes of any two trees which
have the same text look the same: they have children at the same places, of the same kinds and in
the same fields. -/
theorem sexp_unambiguous (language language' : Language) (source source' : String)
    (options options' : Options) :
    let t := parse language source options
    let t' := parse language' source' options'
    (∀ id node, t.node? id = some node → ∃ tree, readSexp (t.sexp id) = some tree ∧
      ∀ path, tree.labelAt? path = t.labelAt? id path) ∧
    ∀ id id' node node', t.node? id = some node → t'.node? id' = some node' →
      t.sexp id = t'.sexp id' → ∀ path, t.labelAt? id path = t'.labelAt? id' path := by
  intro t t'
  have hrooted := (arena_rooted language source options).1
  have hrooted' := (arena_rooted language' source' options').1
  refine ⟨fun id node hnode => readSexp_eq hrooted hnode,
    fun id id' node node' hnode hnode' htext path => ?_⟩
  obtain ⟨tree, hread, hlabels⟩ := readSexp_eq hrooted hnode
  obtain ⟨tree', hread', hlabels'⟩ := readSexp_eq hrooted' hnode'
  rw [htext, hread'] at hread
  cases hread
  exact (hlabels path).symm.trans (hlabels' path)

/-- Two definitions with other names, numbers and blanks, the second one after a comment. -/
theorem sexp_unambiguous_definitions :
    let t := parse .current "a :: f(1);" {}
    let t' := parse .current "/**/ main ::\n  print( 0x2 );" {}
    t.sexp 1 = t'.sexp 1 ∧ ∀ path, t.labelAt? 1 path = t'.labelAt? 1 path := by
  intro t t'
  obtain ⟨hsize, hsize', htext⟩ : 1 < t.arena.size ∧ 1 < t'.arena.size ∧ t.sexp 1 = t'.sexp 1 := by
    decide +kernel
  exact ⟨htext, (sexp_unambiguous .current .current _ _ {} {}).2 1 1 _ _
    (Arena.getElem?_eq_row hsize) (Arena.getElem?_eq_row hsize') htext⟩

end Tree

end LunSyntax
