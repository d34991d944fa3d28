import Mathlib.Logic.Relation
import LunSyntax.Proofs.Tree.Insertion
import LunSyntax.Proofs.Tree.Kinds

/-!
# Errors of a source and of its tree

What is wrong with a source shows in its tree, and nothing else does: an error is inserted, unless
there is an error node for it already, and other error nodes come from syntax that was given up,
which is reported.

* `Arena.All`: a condition on the kinds and marks of all nodes, kept by whatever adds nodes;
* `Arena.Marking`: the nodes from a number on have marked their parents.  `Arena.Marking.step` goes
  on by one node, and `Arena.propagateErrors_marks`: in the end, the nodes at and above error nodes
  are marked;
* `Tree.parse_errors`: errors, error nodes and marks agree.
-/

set_option autoImplicit false

namespace LunSyntax

open Relation (ReflTransGen)

namespace Arena

/-! ## Kinds and marks -/

/-- All nodes of a table satisfy a condition on their kinds and marks. -/
def All (Q : NodeKind → Bool → Prop) (arena : Arena) : Prop :=
  ∀ (id : Nat) (node : NodeData), arena[id]? = some node → Q node.kind node.hasError

/-- A node is marked if it is an error, and not otherwise. -/
def Fresh (kind : NodeKind) (hasError : Bool) : Prop := hasError = (kind == .error)

section

variable {Q : NodeKind → Bool → Prop} {arena : Arena} {kind : NodeKind}

theorem All.addNode {parent : Option Nat} {field : Option Field} {extent : Extent}
    (h : All Q arena) (hkind : Q kind (kind == .error)) :
    All Q (arena.addNode parent kind field extent) := by
  intro id node hnode
  rw [Arena.addNode, Array.getElem?_push] at hnode
  split at hnode
  · cases hnode
    exact hkind
  · exact h id node hnode

/-- A change of other things than kinds and marks. -/
theorem All.modify {f : NodeData → NodeData} {id : Nat} (h : All Q arena)
    (hf : ∀ node, (f node).kind = node.kind ∧ (f node).hasError = node.hasError) :
    All Q (Array.modify arena id f) := by
  intro i node hnode
  rw [Array.getElem?_modify] at hnode
  split at hnode
  · obtain ⟨old, hold, rfl⟩ := Option.map_eq_some_iff.1 hnode
    rw [(hf old).1, (hf old).2]
    exact h i old hold
  · exact h i node hnode

theorem All.place {parent : Option Nat} {field : Option Field} {extent : Extent}
    (h : All Q arena) (hkind : Q kind (kind == .error)) :
    All Q (arena.place parent kind field extent) := by
  cases parent with
  | none => exact h.addNode hkind
  | some parent => exact (h.addNode hkind).modify fun _ => ⟨rfl, rfl⟩

theorem All.insertBelow {parent : Nat} {range : Extent} (h : All Q arena)
    (hkind : Q kind (kind == .error)) : All Q (arena.insertBelow parent kind range) := by
  unfold Arena.insertBelow link
  exact (h.addNode hkind).modify fun _ => ⟨rfl, rfl⟩

theorem All.insertComments {ranges : List Extent} (h : All Q arena) (hcomment : Q .comment false) :
    All Q (ranges.foldl Arena.insertComment arena) := by
  induction ranges generalizing arena with
  | nil => exact h
  | cons range rest ih => exact ih (h.insertBelow hcomment)

theorem All.insertErrors {ranges : List Extent} (h : All Q arena) (herror : Q .error true) :
    All Q (ranges.foldl Arena.insertError arena) := by
  induction ranges generalizing arena with
  | nil => exact h
  | cons range rest ih =>
    refine ih ?_
    unfold insertError
    dsimp only
    split
    · exact h
    · exact h.insertBelow herror

mutual

/-- A shape adds nodes of its kinds. -/
theorem All.graft : ∀ (s : Shape) {arena : Arena} {parent : Option Nat}, All Q arena →
    (∀ kind, s.Has kind → Q kind (kind == .error)) → All Q (arena.graft parent s)
  | .node kind field extent children, arena, parent, h, hs => by
    rw [Arena.graft]
    exact All.graftAll children (h.place (hs kind .here)) fun s hmem k hk => hs k (.inside hmem hk)

theorem All.graftAll : ∀ (ss : List Shape) {arena : Arena} {parent : Nat}, All Q arena →
    (∀ s ∈ ss, ∀ kind, s.Has kind → Q kind (kind == .error)) → All Q (arena.graftAll parent ss)
  | [], arena, parent, h, _ => by
    rw [Arena.graftAll]
    exact h
  | s :: rest, arena, parent, h, hss => by
    obtain ⟨hs, hrest⟩ := List.forall_mem_cons.1 hss
    rw [Arena.graftAll]
    exact All.graftAll rest (All.graft s h hs) hrest

end

/-- The table of a source has the kinds of its shape. -/
theorem All.lowerSource {byte : Nat → Nat} {chars : Nat} {file : Option SourceFile}
    (hshape : ∀ kind, (sourceShape byte chars file).Has kind → Q kind (kind == .error)) :
    All Q (lowerSource byte chars file) := by
  rw [lowerSource_eq]
  exact All.graft _ (fun id node hnode => by simp at hnode) hshape

end

/-! ## Error nodes -/

/-- A table has an error node. -/
def HasErrorNode (arena : Arena) : Prop :=
  ∃ (id : Nat) (node : NodeData), arena[id]? = some node ∧ node.kind = .error

theorem exists_getElem?_kind {arena : Arena} {id : Nat} {kind : NodeKind} :
    (∃ node, arena[id]? = some node ∧ node.kind = kind) ↔
      id < arena.size ∧ (arena.row id).kind = kind := by
  constructor
  · rintro ⟨node, hget, hkind⟩
    exact ⟨(Array.getElem?_eq_some_iff.1 hget).1, by rwa [row_of_getElem? hget]⟩
  · rintro ⟨hlt, hkind⟩
    exact ⟨_, getElem?_eq_row hlt, hkind⟩

/-- After an error is inserted there is an error node: the one which represents it, or a new one. -/
theorem insertError_hasErrorNode (arena : Arena) (range : Extent) :
    (arena.insertError range).HasErrorNode := by
  unfold insertError
  dsimp only
  split
  · rename_i hrepresented
    unfold isRepresented at hrepresented
    split at hrepresented
    · cases hrepresented
    · rename_i node hnode
      rcases Bool.or_eq_true_iff.1 hrepresented with hkind | hchild
      · exact ⟨_, node, hnode, eq_of_beq hkind⟩
      · obtain ⟨id, -, hid⟩ := List.any_eq_true.1 hchild
        split at hid
        · rename_i child hget
          simp only [Bool.and_eq_true] at hid
          exact ⟨id, child, hget, eq_of_beq hid.1.1⟩
        · cases hid
  · refine ⟨arena.size, ?_⟩
    simp only [insertBelow, link, addNode, Array.getElem?_modify, Array.getElem?_push_size]
    split
    · exact ⟨_, rfl, rfl⟩
    · exact ⟨_, rfl, rfl⟩

theorem insertErrors_hasErrorNode {ranges : List Extent} (arena : Arena) (h : ranges ≠ []) :
    (ranges.foldl insertError arena).HasErrorNode := by
  rw [← List.dropLast_append_getLast h, List.foldl_append]
  exact insertError_hasErrorNode _ _

/-! ## Marks -/

/-- A node is a child of another one. -/
def Child (arena : Arena) (id child : Nat) : Prop := child ∈ (arena.row id).children

/-- An error node is at a node or below it. -/
def AboveError (arena : Arena) (id : Nat) : Prop :=
  ∃ e, ReflTransGen arena.Child id e ∧ e < arena.size ∧ (arena.row e).kind = .error

/-- One step marks at most the parent of a node, and only if the node is marked. -/
theorem markParent_row (arena : Arena) (id i : Nat) : (arena.markParent id).row i =
    if i < arena.size ∧ (arena.row id).hasError = true ∧ (arena.row id).parent = some i then
      { arena.row i with hasError := true }
    else arena.row i := by
  rcases Nat.lt_or_ge id arena.size with hid | hid
  · unfold markParent
    rw [getElem?_eq_row hid]
    dsimp only
    split
    · rename_i p hmark hparent
      rw [hmark, hparent, row, Array.getElem?_modify]
      by_cases hi : i < arena.size
      · rw [getElem?_eq_row hi]
        by_cases hp : p = i
        · simp [hp, hi]
        · simp [hp]
      · simp [hi, row_of_le (Nat.le_of_not_lt hi)]
    · rename_i hnot
      rw [if_neg]
      rintro ⟨-, hmark, hparent⟩
      exact hnot i hmark hparent
  · have hnone : arena[id]? = none := by simpa using hid
    rw [row_of_le hid, markParent, hnone]
    simp [blank]

/-- A table in which all nodes from a number on have marked their parents. -/
structure Marking (arena marked : Arena) (k : Nat) : Prop where
  size_eq : marked.size = arena.size
  parent_eq : ∀ id, (marked.row id).parent = (arena.row id).parent
  kept : ∀ id, (arena.row id).hasError = true → (marked.row id).hasError = true
  sound : ∀ id, (marked.row id).hasError = true → arena.AboveError id
  closed : ∀ c p, k ≤ c → (arena.row c).parent = some p → (marked.row c).hasError = true →
    (marked.row p).hasError = true

/-- **One more node marks its parent.**  The parent comes before it, so the nodes that come after
stay as they are. -/
theorem Marking.step {size k : Nat} {arena marked : Arena} (hr : Rooted size arena)
    (h : Marking arena marked (k + 1)) : Marking arena (marked.markParent k) k := by
  have hchild : ∀ {c p}, (arena.row c).parent = some p → p < c ∧ arena.Child p c := by
    intro c p hparent
    have hmem := (hr.mem_iff p c).2 hparent
    exact ⟨(hr.child hmem).1, hmem⟩
  refine ⟨(marked.markParent_size k).trans h.size_eq, fun id => ?_, fun id hid => ?_,
    fun id hid => ?_, fun c p hc hparent hmark => ?_⟩
  · rw [markParent_row]
    split
    · exact h.parent_eq id
    · exact h.parent_eq id
  · rw [markParent_row]
    split
    · rfl
    · exact h.kept id hid
  · rw [markParent_row] at hid
    split at hid
    · rename_i hmarks
      obtain ⟨-, hmark, hparent⟩ := hmarks
      rw [h.parent_eq] at hparent
      obtain ⟨e, hbelow, he⟩ := h.sound k hmark
      exact ⟨e, .head (hchild hparent).2 hbelow, he⟩
    · exact h.sound id hid
  · obtain ⟨hlt, hmem⟩ := hchild hparent
    have hp : p < marked.size := by
      have := (hr.child hmem).2.1
      rw [h.size_eq]
      omega
    -- the parent of `k` comes before `k`, hence before `c`
    have hsame : (marked.markParent k).row c = marked.row c := by
      rw [markParent_row, if_neg]
      rintro ⟨-, -, hk⟩
      rw [h.parent_eq] at hk
      have := (hchild hk).1
      omega
    rw [hsame] at hmark
    rw [markParent_row]
    split
    · rfl
    · rename_i hnot
      rcases Nat.eq_or_lt_of_le hc with rfl | hlt
      · exact absurd ⟨hp, hmark, (h.parent_eq k).trans hparent⟩ hnot
      · exact h.closed c p hlt hparent hmark

/-- Marks go up from all nodes, the last one first. -/
theorem Marking.run {size : Nat} {arena : Arena} (hr : Rooted size arena) (k : Nat) :
    ∀ {marked : Arena}, Marking arena marked k →
      Marking arena ((List.range k).reverse.foldl markParent marked) 0 := by
  induction k with
  | zero => exact fun h => h
  | succ k ih =>
    intro marked h
    rw [List.range_succ, List.reverse_append, List.reverse_singleton, List.singleton_append,
      List.foldl_cons]
    exact ih (h.step hr)

/-- **The marked nodes are those at and above error nodes**, if just the error nodes were marked
before. -/
theorem propagateErrors_marks {size : Nat} {arena : Arena} (hr : Rooted size arena)
    (hfresh : All Fresh arena) {id : Nat} :
    (arena.propagateErrors.row id).hasError = true ↔ arena.AboveError id := by
  have hmarked : ∀ id, id < arena.size →
      ((arena.row id).hasError = true ↔ (arena.row id).kind = .error) := by
    intro id hid
    have := hfresh id _ (getElem?_eq_row hid)
    rw [this, beq_iff_eq]
  have hstart : Marking arena arena arena.size := by
    refine ⟨rfl, fun _ => rfl, fun _ h => h, fun id hmark => ?_, fun c p hc hparent => ?_⟩
    · have hid : id < arena.size := by
        refine Nat.lt_of_not_le fun hle => ?_
        rw [row_of_le hle] at hmark
        cases hmark
      exact ⟨id, .refl, hid, (hmarked id hid).1 hmark⟩
    · rw [row_of_le hc] at hparent
      cases hparent
  have h := hstart.run hr
  refine ⟨h.sound id, ?_⟩
  rintro ⟨e, hbelow, he, hkind⟩
  induction hbelow using ReflTransGen.head_induction_on with
  | refl => exact h.kept e ((hmarked e he).2 hkind)
  | head hchild _ ih => exact h.closed _ _ (Nat.zero_le _) ((hr.mem_iff _ _).1 hchild) ih

/-- All nodes are at the root or below it. -/
theorem Rooted.below_root {size : Nat} {arena : Arena} (h : Rooted size arena) (id : Nat)
    (hid : id < arena.size) : ReflTransGen arena.Child 0 id := by
  induction id using Nat.strongRecOn with
  | ind id ih =>
    rcases Nat.eq_zero_or_pos id with rfl | hpos
    · exact .refl
    · obtain ⟨p, hp, hparent, -⟩ := h.parent id hpos hid
      exact (ih p hp (by omega)).tail ((h.mem_iff p id).2 hparent)

end Arena

/-! ## Trees of texts -/

/-- All that is reported of a text has a place. -/
theorem errorExtents_eq_nil (text : String) (id : UInt16) :
    Tree.errorExtents (parse text id).diagnostics = [] ↔ (parse text id).diagnostics = [] := by
  have hspan : ∀ d ∈ (parse text id).diagnostics, d.span ≠ none := by
    intro d hd
    obtain ⟨-, reported, -, hdiagnostics, -⟩ := parse_spells text id
    rw [hdiagnostics] at hd
    rcases List.mem_append.1 hd with hd | hd
    · obtain ⟨fault, -, rfl⟩ := List.mem_map.1 hd
      simp [toDiagnostic_span]
    · obtain ⟨c, -, rfl⟩ := List.mem_map.1 hd
      simp [Complaint.toDiagnostic, Diagnostic.located]
  rw [Tree.errorExtents, List.filterMap_eq_nil_iff]
  refine ⟨fun h => List.eq_nil_iff_forall_not_mem.2 fun d hd => ?_, fun h => by simp [h]⟩
  exact hspan d hd (by simpa using h d hd)

namespace Tree

/-- A node is another one, or below it. -/
def Descends (t : Tree) : Nat → Nat → Prop := ReflTransGen fun id c => c ∈ t.children id

theorem nodeHasError_eq (t : Tree) (id : Nat) : t.nodeHasError id = (t.arena.row id).hasError := by
  unfold nodeHasError node? Arena.row
  cases t.arena[id]? with
  | none => rfl
  | some node => rfl

/-- Without errors, there are no error nodes. -/
theorem unmarkedNodes_clean {text : String} {id : UInt16}
    (h : (LunSyntax.parse text id).diagnostics = []) :
    (unmarkedNodes text id).All fun kind _ => kind ≠ .error := by
  obtain ⟨file, hfile, -⟩ := parseTokens_eq_some (lex text id).1 id
  have hparsed := parse_file hfile
  have hnone : (parseTokens (lex text id).1 id).2 = [] := (List.append_eq_nil_iff.1 h).2
  rw [unmarkedNodes, (errorExtents_eq_nil text id).2 h, commentedNodes, hparsed]
  refine (Arena.All.lowerSource fun kind hkind => ?_).insertComments (by decide)
  rintro rfl
  have herror := ((sourceShape_has .error _ _).1 hkind).2
  refine SyntaxNode.not_hasError (by simp) (fun part hpart => ?_) herror
  obtain ⟨item, hitem, rfl⟩ := List.mem_map.1 hpart
  exact not_hasError_of_parseTokens hfile hnone item hitem

/-- Before marks are propagated, just the error nodes have one. -/
theorem unmarkedNodes_fresh (text : String) (id : UInt16) :
    (unmarkedNodes text id).All Arena.Fresh :=
  ((Arena.All.lowerSource (Q := Arena.Fresh) fun _ _ => rfl).insertComments rfl).insertErrors rfl

theorem unmarkedNodes_hasErrorNode (text : String) (id : UInt16) :
    (unmarkedNodes text id).HasErrorNode ↔ (LunSyntax.parse text id).diagnostics ≠ [] := by
  constructor
  · rintro ⟨i, node, hnode, hkind⟩ hnone
    exact unmarkedNodes_clean hnone i node hnode hkind
  · intro hsome
    refine Arena.insertErrors_hasErrorNode _ ?_
    rw [ne_eq, List.map_eq_nil_iff, errorExtents_eq_nil]
    exact hsome

/-- **Errors, error nodes and marks agree.**  For any text, the following are the same: there are
errors; there is an error node; the root is marked; the tree is said to have an error.  A node is
marked iff it or a node below it is an error node. -/
theorem parse_errors (language : Language) (source : String) (options : Options) :
    let t := parse language source options
    (t.diagnostics ≠ [] ↔ ∃ id node, t.node? id = some node ∧ node.kind = .error) ∧
    (t.diagnostics ≠ [] ↔ t.nodeHasError 0 = true) ∧
    (t.diagnostics ≠ [] ↔ t.hasError = true) ∧
    ∀ id, t.nodeHasError id = true ↔
      ∃ e node, t.Descends id e ∧ t.node? e = some node ∧ node.kind = .error := by
  intro t
  have hrooted := unmarkedNodes_rooted source options.source
  have hfresh := unmarkedNodes_fresh source options.source
  have hreported := unmarkedNodes_hasErrorNode source options.source
  have harena : t.arena = (unmarkedNodes source options.source).propagateErrors :=
    arena_eq language source options
  generalize unmarkedNodes source options.source = unmarked at *
  have hnode : ∀ id, (∃ node, t.node? id = some node ∧ node.kind = .error) ↔
      id < unmarked.size ∧ (unmarked.row id).kind = .error := by
    intro id
    rw [node?, harena, ← unmarked.propagateErrors_kind, ← unmarked.propagateErrors_size]
    exact Arena.exists_getElem?_kind
  have hbelow : t.Descends = ReflTransGen unmarked.Child := by
    unfold Descends Arena.Child
    simp only [children_eq, harena, Arena.propagateErrors_children]
  have hmark : ∀ id, t.nodeHasError id = true ↔ unmarked.AboveError id := by
    intro id
    rw [nodeHasError_eq, harena, Arena.propagateErrors_marks hrooted hfresh]
  have herrors : t.diagnostics ≠ [] ↔ unmarked.HasErrorNode := hreported.symm
  have hnodes : unmarked.HasErrorNode ↔ ∃ id node, t.node? id = some node ∧ node.kind = .error := by
    exact exists_congr fun id => Arena.exists_getElem?_kind.trans (hnode id).symm
  have hroot : t.diagnostics ≠ [] ↔ t.nodeHasError 0 = true := by
    rw [herrors, hnodes, hmark, Arena.AboveError]
    refine exists_congr fun e => ?_
    rw [hnode e]
    exact ⟨fun he => ⟨hrooted.below_root e he.1, he⟩, fun he => he.2⟩
  refine ⟨herrors.trans hnodes, hroot, ?_, fun id => ?_⟩
  · rw [hasError, Bool.or_eq_true_iff, ← hroot]
    simp
  · rw [hmark, Arena.AboveError, ← hbelow]
    refine exists_congr fun e => ?_
    rw [← hnode e, exists_and_left]

end Tree

end LunSyntax
