import LunSyntax.Proofs.Tree.Layout
import LunSyntax.Proofs.Tree.Refinement

/-!
# Tables which are trees

A table of nodes, in which they know each other by their numbers, is an ordered tree with a root, as
long as each node is added within its parent and among its children in order.

* `Arena.row`: the row of a number, whether there is such a node or not;
* `Arena.Inserts`: a node has been added to a table, below a parent;
* `Arena.Rooted`: a table is a tree with a root; `Arena.Rooted.insert`: an insertion keeps it so;
* `Arena.Tidy`: besides, children do not overlap; `Arena.Tidy.insert`: an insertion keeps it so;
* `Arena.Tidy.graft`: hence a whole shape does, and `Arena.tidy_graft`: the table of a shape that
  fits is tidy.
-/

set_option autoImplicit false

namespace LunSyntax

/-- Add a child to a node, at a position among its children. -/
def NodeData.insertChild (position child : Nat) (node : NodeData) : NodeData :=
  { node with children := node.children.take position ++ child :: node.children.drop position }

namespace Arena

/-! ## Rows -/

/-- What a number stands for which no node has. -/
def blank : NodeData := ⟨.error, none, ⟨0, 0⟩, none, [], false⟩

/-- The row of a number. -/
def row (arena : Arena) (id : Nat) : NodeData := arena[id]?.getD blank

section

variable {arena : Arena} {id : Nat}

theorem getElem?_eq_row (h : id < arena.size) : arena[id]? = some (arena.row id) := by
  simp [row, h]

theorem row_of_le (h : arena.size ≤ id) : arena.row id = blank := by
  simp [row, h]

theorem row_of_getElem? {node : NodeData} (h : arena[id]? = some node) : arena.row id = node := by
  simp [row, h]

end

/-! ## Insertions -/

/-- A table with a node added below a parent, at a position among its children. -/
structure Inserts (arena arena' : Arena) (parent position : Nat) (kind : NodeKind)
    (extent : Extent) : Prop where
  parent_lt : parent < arena.size
  size_eq : arena'.size = arena.size + 1
  /-- only the parent has changed -/
  old : ∀ id, id ≠ arena.size → arena'.row id =
    if id = parent then (arena.row id).insertChild position arena.size else arena.row id
  new : ∃ field hasError, arena'.row arena.size = ⟨kind, field, extent, some parent, [], hasError⟩

/-- An insertion is known by the rows of the table. -/
theorem Inserts.of_getElem? {arena arena' : Arena} {parent position : Nat} {kind : NodeKind}
    {field : Option Field} {extent : Extent} {hasError : Bool} (hparent : parent < arena.size)
    (hsize : arena'.size = arena.size + 1)
    (hold : ∀ id, id < arena.size → arena'[id]? =
      if id = parent then arena[id]?.map (NodeData.insertChild position arena.size) else arena[id]?)
    (hnew : arena'[arena.size]? = some ⟨kind, field, extent, some parent, [], hasError⟩) :
    Inserts arena arena' parent position kind extent := by
  refine ⟨hparent, hsize, fun id hid => ?_, field, hasError, row_of_getElem? hnew⟩
  rcases Nat.lt_or_gt_of_ne hid with hlt | hgt
  · rw [row, hold id hlt, getElem?_eq_row hlt]
    split
    · rfl
    · rfl
  · rw [row_of_le (by omega), row_of_le (by omega), if_neg (by omega)]

theorem place_inserts {arena : Arena} {parent : Nat} (kind : NodeKind) (field : Option Field)
    (extent : Extent) (hparent : parent < arena.size) :
    Inserts arena (arena.place (some parent) kind field extent) parent
      (arena.row parent).children.length kind extent := by
  refine .of_getElem? hparent place_size (fun id hid => ?_) (place_new ?_)
  · rw [place_old hid]
    by_cases heq : id = parent
    · subst heq
      rw [if_pos rfl, if_pos rfl, getElem?_eq_row hid]
      simp [NodeData.adopt, NodeData.insertChild]
    · rw [if_neg heq, if_neg (by simpa using fun h => heq h.symm)]
  · rintro _ ⟨⟩
    exact hparent

namespace Inserts

variable {arena arena' : Arena} {parent position : Nat} {kind : NodeKind} {extent : Extent}
  {id : Nat}

theorem extent_old (h : Inserts arena arena' parent position kind extent) (hid : id ≠ arena.size) :
    (arena'.row id).extent = (arena.row id).extent := by
  rw [h.old id hid]
  split
  · rfl
  · rfl

theorem parent_old (h : Inserts arena arena' parent position kind extent) (hid : id ≠ arena.size) :
    (arena'.row id).parent = (arena.row id).parent := by
  rw [h.old id hid]
  split
  · rfl
  · rfl

theorem kind_old (h : Inserts arena arena' parent position kind extent) (hid : id ≠ arena.size) :
    (arena'.row id).kind = (arena.row id).kind := by
  rw [h.old id hid]
  split
  · rfl
  · rfl

theorem children_parent (h : Inserts arena arena' parent position kind extent) :
    (arena'.row parent).children = (arena.row parent).children.take position ++
      arena.size :: (arena.row parent).children.drop position := by
  rw [h.old parent (Nat.ne_of_lt h.parent_lt), if_pos rfl]
  rfl

theorem children_old (h : Inserts arena arena' parent position kind extent)
    (hid : id ≠ parent) : (arena'.row id).children = (arena.row id).children := by
  by_cases heq : id = arena.size
  · obtain ⟨field, hasError, hnew⟩ := h.new
    rw [heq, hnew, row_of_le (Nat.le_refl _)]
    rfl
  · rw [h.old id heq, if_neg hid]

theorem extent_new (h : Inserts arena arena' parent position kind extent) :
    (arena'.row arena.size).extent = extent := by
  obtain ⟨field, hasError, hnew⟩ := h.new
  rw [hnew]

theorem parent_new (h : Inserts arena arena' parent position kind extent) :
    (arena'.row arena.size).parent = some parent := by
  obtain ⟨field, hasError, hnew⟩ := h.new
  rw [hnew]

theorem kind_new (h : Inserts arena arena' parent position kind extent) :
    (arena'.row arena.size).kind = kind := by
  obtain ⟨field, hasError, hnew⟩ := h.new
  rw [hnew]

end Inserts

/-! ## Rooted tables -/

/-- A table is a tree with a root: its first node spans a source of some bytes, each other node is
among the children of its parent, which comes before it, and within it, and children are in order
of their starts. -/
structure Rooted (size : Nat) (arena : Arena) : Prop where
  nonempty : 0 < arena.size
  root_kind : (arena.row 0).kind = .sourceFile
  root_extent : (arena.row 0).extent = ⟨0, size⟩
  root_parent : (arena.row 0).parent = none
  parent : ∀ id, 0 < id → id < arena.size → ∃ p, p < id ∧ (arena.row id).parent = some p ∧
    (arena.row id).extent.Inside (arena.row p).extent
  nodup : ∀ id, (arena.row id).children.Nodup
  mem_iff : ∀ id child, child ∈ (arena.row id).children ↔ (arena.row child).parent = some id
  forward : ∀ id, (arena.row id).extent.start ≤ (arena.row id).extent.stop
  sorted : ∀ id, (arena.row id).children.Pairwise fun a b =>
    (arena.row a).extent.start ≤ (arena.row b).extent.start

namespace Rooted

variable {size : Nat} {arena arena' : Arena} {id c : Nat}

/-- A child is a node after its parent, and within it. -/
theorem child (h : Rooted size arena) (hc : c ∈ (arena.row id).children) :
    id < c ∧ c < arena.size ∧ (arena.row c).extent.Inside (arena.row id).extent := by
  have hparent := (h.mem_iff id c).1 hc
  have hlt : c < arena.size := by
    refine Nat.lt_of_not_le fun hle => ?_
    rw [row_of_le hle] at hparent
    cases hparent
  have hpos : 0 < c := by
    refine Nat.pos_of_ne_zero fun hzero => ?_
    rw [hzero, h.root_parent] at hparent
    cases hparent
  obtain ⟨p, hp, hparent', hinside⟩ := h.parent c hpos hlt
  obtain rfl : p = id := by
    rw [hparent'] at hparent
    cases hparent
    rfl
  exact ⟨hp, hlt, hinside⟩

end Rooted

/-- Extents of children which are in some relation stay so with one between them. -/
theorem Inserts.pairwise {arena arena' : Arena} {parent position : Nat} {kind : NodeKind}
    {extent : Extent} {R : Extent → Extent → Prop} {size : Nat} (hr : Rooted size arena)
    (h : Inserts arena arena' parent position kind extent)
    (hpairs : ∀ id, (arena.row id).children.Pairwise fun a b =>
      R (arena.row a).extent (arena.row b).extent)
    (hbefore : ∀ a ∈ (arena.row parent).children.take position, R (arena.row a).extent extent)
    (hafter : ∀ b ∈ (arena.row parent).children.drop position, R extent (arena.row b).extent)
    (id : Nat) :
    (arena'.row id).children.Pairwise fun a b => R (arena'.row a).extent (arena'.row b).extent := by
  have hold : ∀ id, ∀ a ∈ (arena.row id).children,
      (arena'.row a).extent = (arena.row a).extent :=
    fun id a ha => h.extent_old (Nat.ne_of_lt (hr.child ha).2.1)
  have hkept : ∀ id, (arena.row id).children.Pairwise fun a b =>
      R (arena'.row a).extent (arena'.row b).extent := by
    intro id
    refine (hpairs id).imp_of_mem fun ha hb hab => ?_
    rw [hold id _ ha, hold id _ hb]
    exact hab
  by_cases hid : id = parent
  · subst hid
    have hsplit := hkept id
    rw [← List.take_append_drop position (arena.row id).children] at hsplit
    obtain ⟨htake, hdrop, hcross⟩ := List.pairwise_append.1 hsplit
    rw [h.children_parent]
    refine List.pairwise_append.2 ⟨htake, .cons (fun b hb => ?_) hdrop, fun a ha b hb => ?_⟩
    · rw [h.extent_new, hold id b (List.mem_of_mem_drop hb)]
      exact hafter b hb
    · rcases List.mem_cons.1 hb with rfl | hb
      · rw [h.extent_new, hold id a (List.mem_of_mem_take ha)]
        exact hbefore a ha
      · exact hcross a ha b hb
  · rw [h.children_old hid]
    exact hkept id

/-- **An insertion keeps a table rooted**, if the new node is within its parent and among its
children in order. -/
theorem Rooted.insert {arena arena' : Arena} {parent position size : Nat} {kind : NodeKind}
    {extent : Extent} (hr : Rooted size arena)
    (h : Inserts arena arena' parent position kind extent)
    (hforward : extent.start ≤ extent.stop) (hinside : extent.Inside (arena.row parent).extent)
    (hbefore : ∀ a ∈ (arena.row parent).children.take position,
      (arena.row a).extent.start ≤ extent.start)
    (hafter : ∀ b ∈ (arena.row parent).children.drop position,
      extent.start ≤ (arena.row b).extent.start) :
    Rooted size arena' := by
  have hzero : 0 ≠ arena.size := Nat.ne_of_lt hr.nonempty
  have hfresh : ∀ id, arena.size ∉ (arena.row id).children :=
    fun id hmem => Nat.lt_irrefl _ (hr.child hmem).2.1
  have hperm : ∀ id, id = parent →
      (arena'.row id).children.Perm (arena.size :: (arena.row id).children) := by
    rintro id rfl
    rw [h.children_parent]
    refine List.perm_middle.trans ?_
    rw [List.take_append_drop]
  refine ⟨?_, ?_, ?_, ?_, fun id hpos hlt => ?_, fun id => ?_, fun id child => ?_, fun id => ?_,
    h.pairwise (R := fun a b => a.start ≤ b.start) hr hr.sorted hbefore hafter⟩
  · rw [h.size_eq]
    omega
  · rw [h.kind_old hzero, hr.root_kind]
  · rw [h.extent_old hzero, hr.root_extent]
  · rw [h.parent_old hzero, hr.root_parent]
  · rw [h.size_eq] at hlt
    by_cases hid : id = arena.size
    · subst hid
      refine ⟨parent, h.parent_lt, h.parent_new, ?_⟩
      rw [h.extent_new, h.extent_old (Nat.ne_of_lt h.parent_lt)]
      exact hinside
    · obtain ⟨p, hp, hparent, hwithin⟩ := hr.parent id hpos (by omega)
      refine ⟨p, hp, (h.parent_old hid).trans hparent, ?_⟩
      rw [h.extent_old hid, h.extent_old (by omega)]
      exact hwithin
  · by_cases hid : id = parent
    · exact (hperm id hid).nodup_iff.2 (List.nodup_cons.2 ⟨hfresh id, hr.nodup id⟩)
    · rw [h.children_old hid]
      exact hr.nodup id
  · by_cases hchild : child = arena.size
    · subst hchild
      rw [h.parent_new, Option.some.injEq]
      by_cases hid : id = parent
      · subst hid
        simp [h.children_parent]
      · rw [h.children_old hid]
        exact iff_of_false (hfresh id) fun heq => hid heq.symm
    · rw [h.parent_old hchild, ← hr.mem_iff]
      by_cases hid : id = parent
      · rw [(hperm id hid).mem_iff, List.mem_cons, or_iff_right hchild]
      · rw [h.children_old hid]
  · by_cases hid : id = arena.size
    · rw [hid, h.extent_new]
      exact hforward
    · rw [h.extent_old hid]
      exact hr.forward id

/-- A rooted table in which children do not overlap, leaves have none, and all nodes satisfy a
condition on their kinds and extents. -/
structure Tidy (P : NodeKind → Extent → Prop) (size : Nat) (arena : Arena) : Prop
    extends Rooted size arena where
  separate : ∀ id, (arena.row id).children.Pairwise fun a b =>
    (arena.row a).extent.stop ≤ (arena.row b).extent.start
  holds : ∀ id, (arena.row id).children ≠ [] → (arena.row id).kind.isLeaf = false
  all : ∀ id, id < arena.size → P (arena.row id).kind (arena.row id).extent

/-- Leaves stay without children after an insertion below a node which may have some. -/
theorem Inserts.holds {arena arena' : Arena} {parent position : Nat} {kind : NodeKind}
    {extent : Extent} (h : Inserts arena arena' parent position kind extent)
    (hparent : (arena.row parent).kind.isLeaf = false)
    (hold : ∀ id, (arena.row id).children ≠ [] → (arena.row id).kind.isLeaf = false) (id : Nat)
    (hne : (arena'.row id).children ≠ []) : (arena'.row id).kind.isLeaf = false := by
  by_cases hid : id = parent
  · rw [hid, h.kind_old (Nat.ne_of_lt h.parent_lt)]
    exact hparent
  · rw [h.children_old hid] at hne
    have hlt : id ≠ arena.size := by
      rintro rfl
      exact hne (by rw [row_of_le (Nat.le_refl _)]; rfl)
    rw [h.kind_old hlt]
    exact hold id hne

/-- **An insertion keeps a table tidy**, if the new node does not overlap with the other children of
its parent, which may have some. -/
theorem Tidy.insert {P : NodeKind → Extent → Prop} {arena arena' : Arena}
    {parent position size : Nat} {kind : NodeKind} {extent : Extent} (ht : Tidy P size arena)
    (h : Inserts arena arena' parent position kind extent)
    (hparent : (arena.row parent).kind.isLeaf = false) (hkind : P kind extent)
    (hforward : extent.start ≤ extent.stop) (hinside : extent.Inside (arena.row parent).extent)
    (hbefore : ∀ a ∈ (arena.row parent).children.take position,
      (arena.row a).extent.stop ≤ extent.start)
    (hafter : ∀ b ∈ (arena.row parent).children.drop position,
      extent.stop ≤ (arena.row b).extent.start) :
    Tidy P size arena' := by
  have hrooted : Rooted size arena' :=
    ht.toRooted.insert h hforward hinside
      (fun a ha => Nat.le_trans (ht.forward a) (hbefore a ha))
      (fun b hb => Nat.le_trans hforward (hafter b hb))
  refine ⟨hrooted, h.pairwise (R := fun a b => a.stop ≤ b.start) ht.toRooted ht.separate hbefore
    hafter, h.holds hparent ht.holds, fun id hid => ?_⟩
  rw [h.size_eq] at hid
  by_cases heq : id = arena.size
  · rw [heq, h.kind_new, h.extent_new]
    exact hkind
  · rw [h.kind_old heq, h.extent_old heq]
    exact ht.all id (by omega)

/-! ## The nodes of a shape -/

section

variable {P : NodeKind → Extent → Prop} {size : Nat}

theorem Grafts.extent_old {arena arena' : Arena} {parent : Option Nat} {ss : List Shape} {id : Nat}
    (h : Grafts arena arena' parent ss) (hid : id < arena.size) :
    (arena'.row id).extent = (arena.row id).extent := by
  rw [row, h.old id hid, getElem?_eq_row hid]
  split
  · rfl
  · rfl

theorem Grafts.kind_old {arena arena' : Arena} {parent : Option Nat} {ss : List Shape} {id : Nat}
    (h : Grafts arena arena' parent ss) (hid : id < arena.size) :
    (arena'.row id).kind = (arena.row id).kind := by
  rw [row, h.old id hid, getElem?_eq_row hid]
  split
  · rfl
  · rfl

theorem Grafts.children_parent {arena arena' : Arena} {parent : Nat} {ss : List Shape}
    (h : Grafts arena arena' (some parent) ss) (hparent : parent < arena.size) :
    (arena'.row parent).children =
      (arena.row parent).children ++ Shape.numbers arena.size ss := by
  rw [row, h.old parent hparent, if_pos rfl, getElem?_eq_row hparent]
  rfl

theorem Lays.extent_eq {arena : Arena} {parent : Option Nat} {id : Nat} {s : Shape}
    (h : Lays arena parent id s) : (arena.row id).extent = s.extent := by
  cases s with
  | node kind field extent children =>
    obtain ⟨⟨hasError, hrow⟩, -⟩ := h
    rw [row_of_getElem? hrow]
    rfl

mutual

/-- **A table stays tidy when a fitting shape is added to it**, after all children of a parent. -/
theorem Tidy.graft : ∀ (s : Shape) {arena : Arena} {parent : Nat}, Tidy P size arena →
    parent < arena.size → (arena.row parent).kind.isLeaf = false → s.Fits P →
    s.extent.Inside (arena.row parent).extent →
    (∀ a ∈ (arena.row parent).children, (arena.row a).extent.stop ≤ s.extent.start) →
      Tidy P size (arena.graft (some parent) s)
  | .node kind field extent children, arena, parent, ht, hparent, hleaf, hfits, hinside,
    hbefore => by
    obtain ⟨hkind, hforward, hholds, hwithin, hpairs, hchildren⟩ := hfits
    have hplace := place_inserts kind field extent hparent
    have hplaced := ht.insert hplace hleaf hkind hforward hinside
      (fun a ha => hbefore a (List.mem_of_mem_take ha)) (by simp)
    rw [Arena.graft]
    refine Tidy.graftAll children hplaced (by simp) (fun hne => ?_) hchildren (fun s hs => ?_) hpairs
      ?_
    · rw [hplace.kind_new]
      exact hholds hne
    · rw [hplace.extent_new]
      exact hwithin s hs
    · rw [hplace.children_old (Nat.ne_of_gt hparent), row_of_le (Nat.le_refl _)]
      exact nofun

theorem Tidy.graftAll : ∀ (ss : List Shape) {arena : Arena} {parent : Nat}, Tidy P size arena →
    parent < arena.size → (ss ≠ [] → (arena.row parent).kind.isLeaf = false) →
    (∀ s ∈ ss, s.Fits P) →
    (∀ s ∈ ss, s.extent.Inside (arena.row parent).extent) →
    (ss.Pairwise fun a b => a.extent.stop ≤ b.extent.start) →
    (∀ a ∈ (arena.row parent).children, ∀ s ∈ ss, (arena.row a).extent.stop ≤ s.extent.start) →
      Tidy P size (arena.graftAll parent ss)
  | [], arena, parent, ht, _, _, _, _, _, _ => by
    rw [Arena.graftAll]
    exact ht
  | s :: rest, arena, parent, ht, hparent, hholds, hfits, hinside, hpairs, hbefore => by
    have hleaf := hholds (List.cons_ne_nil s rest)
    obtain ⟨hfirst, hrest⟩ := List.forall_mem_cons.1 hfits
    obtain ⟨hin, hins⟩ := List.forall_mem_cons.1 hinside
    obtain ⟨hnext, hpairs⟩ := List.pairwise_cons.1 hpairs
    have hgraft : Grafts arena (arena.graft (some parent) s) (some parent) [s] :=
      graft_grafts s arena (some parent) (by simpa using hparent)
    have htidy := Tidy.graft s ht hparent hleaf hfirst hin
      (fun a ha => hbefore a ha s (List.mem_cons_self ..))
    rw [Arena.graftAll]
    refine Tidy.graftAll rest htidy (by rw [hgraft.size_eq]; omega) (fun _ => ?_) hrest
      (fun r hr => ?_) hpairs (fun a ha r hr => ?_)
    · rw [hgraft.kind_old hparent]
      exact hleaf
    · rw [hgraft.extent_old hparent]
      exact hins r hr
    · rw [hgraft.children_parent hparent] at ha
      rcases List.mem_append.1 ha with ha | ha
      · rw [hgraft.extent_old (ht.child ha).2.1]
        exact hbefore a ha r (List.mem_cons_of_mem _ hr)
      · -- the shape which was just added
        cases List.mem_singleton.1 ha
        rw [hgraft.new.1.extent_eq]
        exact hnext r hr

end

/-- A table of a root alone is tidy. -/
theorem tidy_root (hroot : P .sourceFile ⟨0, size⟩) :
    Tidy P size (place #[] none .sourceFile none ⟨0, size⟩) := by
  generalize htable : place #[] none .sourceFile none ⟨0, size⟩ = arena
  have hsize : arena.size = 1 := by
    rw [← htable, place_size]
    rfl
  have hzero : arena.row 0 = ⟨.sourceFile, none, ⟨0, size⟩, none, [], false⟩ := by
    rw [← htable]
    rfl
  have hrow : ∀ id, arena.row id = arena.row 0 ∨ arena.row id = blank := by
    intro id
    rcases Nat.eq_zero_or_pos id with rfl | hpos
    · exact .inl rfl
    · exact .inr (row_of_le (by omega))
  have hparent : ∀ id, (arena.row id).parent = none := by
    intro id
    rcases hrow id with h | h
    · rw [h, hzero]
    · rw [h]
      rfl
  have hchildren : ∀ id, (arena.row id).children = [] := by
    intro id
    rcases hrow id with h | h
    · rw [h, hzero]
    · rw [h]
      rfl
  refine ⟨⟨by omega, by rw [hzero], by rw [hzero], by rw [hzero], fun id _ _ => by omega,
    fun id => ?_, fun id child => ?_, fun id => ?_, fun id => ?_⟩, fun id => ?_,
    fun id hne => absurd (hchildren id) hne, fun id hid => ?_⟩
  · rw [hchildren]
    exact .nil
  · rw [hchildren, hparent]
    simp
  · rcases hrow id with h | h
    · rw [h, hzero]
      exact Nat.zero_le _
    · rw [h]
      exact Nat.le_refl _
  · rw [hchildren]
    exact .nil
  · rw [hchildren]
    exact .nil
  · obtain rfl : id = 0 := by omega
    rw [hzero]
    exact hroot

/-- **Lowering makes a tidy table** of a shape that fits. -/
theorem tidy_graft {children : List Shape}
    (h : (Shape.node .sourceFile none ⟨0, size⟩ children).Fits P) :
    Tidy P size (Arena.graft #[] none (.node .sourceFile none ⟨0, size⟩ children)) := by
  obtain ⟨hroot, -, -, hwithin, hpairs, hchildren⟩ := h
  have htidy : Tidy P size (place #[] none .sourceFile none ⟨0, size⟩) := tidy_root hroot
  rw [graft]
  exact Tidy.graftAll children htidy htidy.nonempty (fun _ => rfl) hchildren hwithin hpairs nofun

end

end Arena

end LunSyntax
