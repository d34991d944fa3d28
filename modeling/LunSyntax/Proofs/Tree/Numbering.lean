import LunSyntax.Proofs.Tree.Structure

/-!
# Shapes in a table

A shape is added to a table node by node, and can be read off the table again.

* `Arena.graft` adds a shape as the last child of a parent;
* `Arena.Lays`: the nodes of a shape stand in a table, in preorder from a number on;
* `Arena.graft_grafts`: so they do after `Arena.graft`, and nothing else has changed but the
  children of the parent;
* `Arena.Lays.shapeWithin_eq`, `Arena.Lays.preorderWithin_eq`: what is unfolded below the first of
  them is the shape, and the numbers in preorder are all numbers from the first one on.
-/

set_option autoImplicit false

namespace LunSyntax

/-! ## Numbers -/

namespace Shape

mutual

def size : Shape → Nat
  | node _ _ _ children => sizeAll children + 1

/-- The number of nodes of some shapes. -/
def sizeAll : List Shape → Nat
  | [] => 0
  | s :: rest => s.size + sizeAll rest

end

/-- The numbers of shapes one after the other, of which the first has a given one. -/
def numbers (id : Nat) : List Shape → List Nat
  | [] => []
  | s :: rest => id :: numbers (id + s.size) rest

end Shape

open Shape (size sizeAll numbers)

/-- Add to the children of a node. -/
def NodeData.adopt (ids : List Nat) (node : NodeData) : NodeData :=
  { node with children := node.children ++ ids }

@[simp]
theorem NodeData.adopt_nil : NodeData.adopt [] = id := by
  funext node
  simp [NodeData.adopt]

@[simp]
theorem NodeData.adopt_adopt (ids ids' : List Nat) (node : NodeData) :
    (node.adopt ids).adopt ids' = node.adopt (ids ++ ids') := by
  simp [NodeData.adopt]

namespace Arena

/-! ## One node -/

section

variable {arena : Arena} {parent : Option Nat} {kind : NodeKind} {field : Option Field}
  {extent : Extent}

@[simp]
theorem place_size : (arena.place parent kind field extent).size = arena.size + 1 := by
  cases parent with
  | none => simp [place, addNode]
  | some p => simp [place, addNode]

/-- Only the parent of a new node changes. -/
theorem place_old {i : Nat} (hi : i < arena.size) :
    (arena.place parent kind field extent)[i]? =
      if parent = some i then arena[i]?.map (NodeData.adopt [arena.size]) else arena[i]? := by
  have hne : i ≠ arena.size := by omega
  cases parent with
  | none => simp [place, addNode, Array.getElem?_push, hne]
  | some p =>
    simp only [place, addNode, Array.getElem?_modify, Array.getElem?_push, if_neg hne,
      Option.some.injEq]
    rfl

theorem place_new (hp : ∀ p ∈ parent, p < arena.size) :
    (arena.place parent kind field extent)[arena.size]? =
      some ⟨kind, field, extent, parent, [], kind == .error⟩ := by
  cases parent with
  | none => simp [place, addNode]
  | some p =>
    have hne : p ≠ arena.size := Nat.ne_of_lt (hp p rfl)
    simp only [place, addNode, Array.getElem?_modify, if_neg hne, Array.getElem?_push_size]

end

/-! ## Shapes -/

mutual

/-- Add a shape as the last child of a parent. -/
def graft (arena : Arena) (parent : Option Nat) : Shape → Arena
  | .node kind field extent children =>
    graftAll (arena.place parent kind field extent) arena.size children

/-- Add shapes as children of a parent, in order. -/
def graftAll (arena : Arena) (parent : Nat) : List Shape → Arena
  | [] => arena
  | s :: rest => graftAll (graft arena (some parent) s) parent rest

end

mutual

/-- A shape stands in a table from a number on, in preorder. -/
def Lays (arena : Arena) (parent : Option Nat) (id : Nat) : Shape → Prop
  | .node kind field extent children =>
    (∃ hasError, arena[id]? =
      some ⟨kind, field, extent, parent, numbers (id + 1) children, hasError⟩) ∧
    LaysAll arena (some id) (id + 1) children

/-- Shapes stand in a table from a number on, one after the other. -/
def LaysAll (arena : Arena) (parent : Option Nat) (id : Nat) : List Shape → Prop
  | [] => True
  | s :: rest => Lays arena parent id s ∧ LaysAll arena parent (id + s.size) rest

end

/-- Two tables have the same nodes between two numbers, wherever there are errors. -/
def Same (lo hi : Nat) (arena arena' : Arena) : Prop :=
  ∀ i, lo ≤ i → i < hi → ∀ node, arena[i]? = some node →
    ∃ hasError, arena'[i]? = some { node with hasError }

theorem Same.mono {lo hi lo' hi' : Nat} {arena arena' : Arena} (h : Same lo hi arena arena')
    (hlo : lo ≤ lo') (hhi : hi' ≤ hi) : Same lo' hi' arena arena' :=
  fun i h1 h2 => h i (Nat.le_trans hlo h1) (Nat.lt_of_lt_of_le h2 hhi)

mutual

/-- Where its nodes stay the same, a shape stays in a table. -/
theorem Lays.frame {arena arena' : Arena} {parent : Option Nat} {id : Nat} : ∀ {s : Shape},
    Lays arena parent id s → Same id (id + s.size) arena arena' → Lays arena' parent id s
  | .node kind field extent children, h, hsame => by
    obtain ⟨⟨hasError, hrow⟩, hchildren⟩ := h
    rw [Shape.size] at hsame
    obtain ⟨hasError', hrow'⟩ := hsame id (Nat.le_refl _) (by omega) _ hrow
    exact ⟨⟨hasError', hrow'⟩, LaysAll.frame hchildren (hsame.mono (by omega) (by omega))⟩

theorem LaysAll.frame {arena arena' : Arena} {parent : Option Nat} {id : Nat} :
    ∀ {ss : List Shape}, LaysAll arena parent id ss →
      Same id (id + sizeAll ss) arena arena' → LaysAll arena' parent id ss
  | [], _, _ => trivial
  | s :: rest, h, hsame => by
    obtain ⟨hfirst, hrest⟩ := h
    rw [Shape.sizeAll] at hsame
    exact ⟨Lays.frame hfirst (hsame.mono (by omega) (by omega)),
      LaysAll.frame hrest (hsame.mono (by omega) (by omega))⟩

end

/-- A table with some shapes added below a parent. -/
structure Grafts (arena arena' : Arena) (parent : Option Nat) (shapes : List Shape) : Prop where
  size_eq : arena'.size = arena.size + sizeAll shapes
  /-- only the parent has changed -/
  old : ∀ i, i < arena.size → arena'[i]? =
    if parent = some i then arena[i]?.map (NodeData.adopt (numbers arena.size shapes))
    else arena[i]?
  new : LaysAll arena' parent arena.size shapes

/-- Shapes which are added one after the other. -/
theorem Grafts.trans {arena mid arena' : Arena} {parent : Option Nat} {s : Shape}
    {rest : List Shape} (hp : ∀ p ∈ parent, p < arena.size) (h : Grafts arena mid parent [s])
    (h' : Grafts mid arena' parent rest) : Grafts arena arena' parent (s :: rest) := by
  have hsize : mid.size = arena.size + s.size := by
    have := h.size_eq
    simpa [Shape.sizeAll] using this
  refine ⟨?_, fun i hi => ?_, ?_, ?_⟩
  · rw [h'.size_eq, hsize, Shape.sizeAll]
    omega
  · rw [h'.old i (by omega), h.old i hi]
    split
    · simp only [numbers, hsize, Option.map_map]
      congr 1
      funext node
      simp
    · rfl
  · -- the nodes of the first shape are no parents of the others
    refine h.new.1.frame fun i h1 h2 node hnode => ⟨node.hasError, ?_⟩
    have hne : parent ≠ some i := by
      rintro rfl
      have := hp i rfl
      omega
    rw [h'.old i (by omega), if_neg hne]
    exact hnode
  · have hnew := h'.new
    rwa [hsize] at hnew

mutual

/-- **A shape that is added to a table stands there, and all else stays.** -/
theorem graft_grafts : ∀ (s : Shape) (arena : Arena) (parent : Option Nat),
    (∀ p ∈ parent, p < arena.size) → Grafts arena (arena.graft parent s) parent [s]
  | .node kind field extent children, arena, parent, hp => by
    have h := graftAll_grafts children (arena.place parent kind field extent) arena.size
      (by simp)
    rw [graft]
    have hnew : (arena.place parent kind field extent)[arena.size]? =
        some ⟨kind, field, extent, parent, [], kind == .error⟩ := place_new hp
    refine ⟨?_, fun i hi => ?_, ⟨⟨kind == .error, ?_⟩, ?_⟩, trivial⟩
    · rw [h.size_eq, place_size, Shape.sizeAll, Shape.size, Shape.sizeAll]
      omega
    · have hne : ¬ some arena.size = some i := by
        rintro ⟨⟩
        omega
      rw [h.old i (by rw [place_size]; omega), if_neg hne, place_old hi]
      rfl
    · rw [h.old arena.size (by simp), if_pos rfl, hnew, place_size]
      rfl
    · have hlays := h.new
      rwa [place_size] at hlays

theorem graftAll_grafts : ∀ (ss : List Shape) (arena : Arena) (parent : Nat),
    parent < arena.size → Grafts arena (arena.graftAll parent ss) (some parent) ss
  | [], arena, parent, _ => by
    refine ⟨by simp [graftAll, Shape.sizeAll], fun i hi => ?_, trivial⟩
    simp [graftAll, numbers]
  | s :: rest, arena, parent, hp => by
    have hp' : ∀ p ∈ some parent, p < arena.size := by
      rintro _ ⟨⟩
      exact hp
    have hfirst := graft_grafts s arena (some parent) hp'
    rw [graftAll]
    refine hfirst.trans hp' (graftAll_grafts rest _ parent ?_)
    rw [hfirst.size_eq]
    omega

end

/-! ## Reading shapes -/

mutual

/-- The shape below the first node is the one which was added. -/
theorem Lays.shapeWithin_eq {arena : Arena} {parent : Option Nat} {depth id : Nat} :
    ∀ {s : Shape}, Lays arena parent id s → s.size ≤ depth →
      arena.shapeWithin depth id = some s
  | .node kind field extent children, h, hdepth => by
    obtain ⟨⟨hasError, hrow⟩, hchildren⟩ := h
    rw [Shape.size] at hdepth
    obtain ⟨depth, rfl⟩ : ∃ d, depth = d + 1 := ⟨depth - 1, by omega⟩
    have hbelow : (numbers (id + 1) children).filterMap (arena.shapeWithin depth) = children :=
      LaysAll.shapeWithin_eq hchildren (by omega)
    rw [shapeWithin, hrow]
    simp only [Option.bind_eq_bind, Option.bind_some, Option.pure_def, hbelow]

theorem LaysAll.shapeWithin_eq {arena : Arena} {parent : Option Nat} {depth id : Nat} :
    ∀ {ss : List Shape}, LaysAll arena parent id ss → sizeAll ss ≤ depth →
      (numbers id ss).filterMap (arena.shapeWithin depth) = ss
  | [], _, _ => rfl
  | s :: rest, h, hdepth => by
    rw [Shape.sizeAll] at hdepth
    rw [numbers, List.filterMap_cons_some (Lays.shapeWithin_eq h.1 (by omega)),
      LaysAll.shapeWithin_eq h.2 (by omega)]

end

mutual

/-- The numbers of the nodes in preorder are those from the first one on. -/
theorem Lays.preorderWithin_eq {t : Tree} {parent : Option Nat} {depth id : Nat} :
    ∀ {s : Shape}, Lays t.arena parent id s → s.size ≤ depth →
      t.preorderWithin depth id = List.range' id s.size
  | .node kind field extent children, h, hdepth => by
    obtain ⟨⟨hasError, hrow⟩, hchildren⟩ := h
    rw [Shape.size] at hdepth ⊢
    obtain ⟨depth, rfl⟩ : ∃ d, depth = d + 1 := ⟨depth - 1, by omega⟩
    have hlist : t.children id = numbers (id + 1) children := by
      simp only [Tree.children, Tree.node?, hrow]
    rw [Tree.preorderWithin, hlist, LaysAll.preorderWithin_eq hchildren (by omega),
      List.range'_succ]

theorem LaysAll.preorderWithin_eq {t : Tree} {parent : Option Nat} {depth id : Nat} :
    ∀ {ss : List Shape}, LaysAll t.arena parent id ss → sizeAll ss ≤ depth →
      (numbers id ss).flatMap (t.preorderWithin depth) = List.range' id (sizeAll ss)
  | [], _, _ => rfl
  | s :: rest, h, hdepth => by
    rw [Shape.sizeAll] at hdepth ⊢
    rw [numbers, List.flatMap_cons, Lays.preorderWithin_eq h.1 (by omega),
      LaysAll.preorderWithin_eq h.2 (by omega), List.range'_append_1]

end

/-! ## Errors above nodes -/

/-- The rows of a table but for their marks stay the same when errors are propagated. -/
theorem markParent_size (arena : Arena) (id : Nat) : (arena.markParent id).size = arena.size := by
  unfold markParent
  split
  · split
    · simp
    · rfl
  · rfl

theorem markParent_same (arena : Arena) (id lo hi : Nat) :
    Same lo hi arena (arena.markParent id) := by
  intro i _ _ node hnode
  unfold markParent
  split
  · split
    · rw [Array.getElem?_modify, hnode]
      split
      · exact ⟨true, rfl⟩
      · exact ⟨node.hasError, rfl⟩
    · exact ⟨node.hasError, hnode⟩
  · exact ⟨node.hasError, hnode⟩

theorem propagateErrors_same (arena : Arena) :
    arena.propagateErrors.size = arena.size ∧
      ∀ lo hi, Same lo hi arena arena.propagateErrors := by
  unfold propagateErrors
  generalize (List.range arena.size).reverse = ids
  induction ids generalizing arena with
  | nil => exact ⟨rfl, fun lo hi i _ _ node hnode => ⟨node.hasError, hnode⟩⟩
  | cons id ids ih =>
    obtain ⟨hsize, hsame⟩ := ih (arena.markParent id)
    rw [List.foldl_cons]
    refine ⟨hsize.trans (arena.markParent_size id), fun lo hi i h1 h2 node hnode => ?_⟩
    obtain ⟨hasError, hmarked⟩ := arena.markParent_same id lo hi i h1 h2 node hnode
    obtain ⟨hasError', hlast⟩ := hsame lo hi i h1 h2 _ hmarked
    exact ⟨hasError', hlast⟩

end Arena

end LunSyntax
