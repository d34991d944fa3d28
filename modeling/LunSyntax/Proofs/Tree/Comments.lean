import LunSyntax.Proofs.Tree.Placement

/-!
# Where comments are put

Comments are leaves, so none is ever in the way of another one, and errors that are inserted later
leave them where they are.

* `Arena.Tidy.insertComments_placed`: where one of several comments is put;
* `Arena.Rooted.insertErrors_holds`: errors give no children to leaves;
* `Tree.lowerSource_kind_ne`: the syntax itself has no comments;
* `Tree.parse_places_comments`: comments of a text and their nodes.
-/

set_option autoImplicit false

namespace LunSyntax

namespace Arena

/-! ## Insertions -/

section

variable {P Q : NodeKind → Extent → Prop} {size : Nat} {arena lowered : Arena} {range : Extent}
  {earlier later : List Extent}

theorem insertComments_size (arena : Arena) (ranges : List Extent) :
    (ranges.foldl Arena.insertComment arena).size = arena.size + ranges.length := by
  induction ranges generalizing arena with
  | nil => rfl
  | cons r rest ih =>
    have hone : (arena.insertComment r).size = arena.size + 1 := by
      simp [insertComment, insertBelow, link, addNode]
    rw [List.foldl_cons, ih, hone, List.length_cons]
    omega

/-- A search passes by comments, so it ends where it would without them. -/
theorem Grows.ends_comments (h : Grows (fun kind _ => kind = .comment) lowered arena)
    (hl : Rooted size lowered) (hr : Rooted size arena) {p : Nat} (hends : arena.Ends range 0 p) :
    lowered.Ends range 0 p := by
  apply h.ends_old hl hr ?_ hends
  rcases hends.around with rfl | ⟨hleaf, -⟩
  · exact hl.nonempty
  · refine Nat.lt_of_not_le fun hge => ?_
    rw [h.new p hge hends.lt] at hleaf
    cases hleaf

/-- **Where one of several comments is put**, those before it and after it included. -/
theorem Tidy.insertComments_placed (hl : Tidy (Clear (earlier ++ range :: later)) size lowered)
    (hranges : ∀ r ∈ earlier ++ range :: later, r.start < r.stop ∧ r.stop ≤ size)
    (hapart : (earlier ++ range :: later).Pairwise Extent.Apart)
    (hgrows : Grows Q ((earlier ++ range :: later).foldl Arena.insertComment lowered) arena) :
    ∃ p, lowered.size + earlier.length < arena.size ∧
      (arena.row (lowered.size + earlier.length)).kind = .comment ∧
      (arena.row (lowered.size + earlier.length)).extent = range ∧
      (arena.row (lowered.size + earlier.length)).parent = some p ∧ lowered.Innermost range p := by
  obtain ⟨hearlier, hrest⟩ := List.forall_mem_append.1 hranges
  obtain ⟨⟨hlt, hstop⟩, hlater⟩ := List.forall_mem_cons.1 hrest
  have hbefore := hl.insertFirstComments hearlier hapart
  have hold : Grows (fun kind _ => kind = .comment) lowered
      (earlier.foldl Arena.insertComment lowered) := by
    apply (hl.clear (List.subset_append_left _ _)).insertComments_grows hearlier
    exact (List.pairwise_append.1 hapart).1
  obtain ⟨hfirst, hapart⟩ := List.pairwise_cons.1 (List.pairwise_append.1 hapart).2.1
  have hsize := insertComments_size lowered earlier
  rw [List.foldl_append, List.foldl_cons] at hgrows
  generalize earlier.foldl Arena.insertComment lowered = before at hbefore hold hgrows hsize
  have hends := hbefore.container_root hstop
  have hinserts := insertBelow_inserts .comment range hends.lt
  have hnew : Grows (fun _ _ => True) (before.insertComment range) arena := by
    have hmore := (hbefore.insertComment hlt hstop hfirst).insertComments_grows hlater hapart
    exact (hmore.mono fun _ _ _ => trivial).trans (hgrows.mono fun _ _ _ => trivial)
  have hid : before.size < (before.insertComment range).size := by
    rw [show (before.insertComment range).size = before.size + 1 from hinserts.size_eq]
    exact Nat.lt_succ_self _
  refine ⟨before.container range 0, ?_⟩
  rw [← hsize, hnew.kind_eq _ hid, hnew.extent_eq _ hid, hnew.parent_eq _ hid]
  refine ⟨Nat.lt_of_lt_of_le hid hnew.size_le, hinserts.kind_new, hinserts.extent_new,
    hinserts.parent_new, ?_⟩
  exact hl.innermost (Nat.le_of_lt hlt) (hold.ends_comments hl.toRooted hbefore.toRooted hends)

/-- Leaves stay without children when errors are inserted. -/
theorem Rooted.insertErrors_holds {ranges : List Extent} (h : Rooted size arena)
    (hranges : ∀ r ∈ ranges, r.start ≤ r.stop ∧ r.stop ≤ size)
    (hholds : ∀ id, (arena.row id).children ≠ [] → (arena.row id).kind.isLeaf = false) :
    ∀ id, ((ranges.foldl Arena.insertError arena).row id).children ≠ [] →
      ((ranges.foldl Arena.insertError arena).row id).kind.isLeaf = false := by
  induction ranges generalizing arena with
  | nil => exact hholds
  | cons r rest ih =>
    obtain ⟨⟨hforward, hstop⟩, hrest⟩ := List.forall_mem_cons.1 hranges
    apply ih (h.insertError hforward hstop) hrest
    unfold Arena.insertError
    dsimp only
    split
    · exact hholds
    · have hinserts := insertBelow_inserts .error r (h.container_root hstop).lt
      exact hinserts.holds (h.container_isLeaf hstop) hholds

end

end Arena

/-! ## Trees of texts -/

namespace Tree

/-- The nodes of the syntax are not comments. -/
theorem lowerSource_kind_ne {byte : Nat → Nat} {chars : Nat} {file : Option SourceFile} {id : Nat}
    (h : id < (lowerSource byte chars file).size) :
    ((lowerSource byte chars file).row id).kind ≠ .comment := by
  have hall : (lowerSource byte chars file).All fun kind _ => kind ≠ .comment := by
    apply Arena.All.lowerSource
    rintro kind hkind rfl
    cases file with
    | none => simp [sourceShape] at hkind
    | some file =>
      have herror := ((sourceShape_has .comment _ _).1 hkind).1
      cases herror
  exact hall id _ (Arena.getElem?_eq_row h)

/-- Errors are added to the nodes of a text and its comments, and leave leaves without children. -/
theorem arena_grows (language : Language) (source : String) (options : Options) :
    let t := parse language source options
    Arena.Grows (fun kind _ => kind = .error) (commentedNodes source options.source) t.arena ∧
      ∀ id, (t.arena.row id).children ≠ [] → (t.arena.row id).kind.isLeaf = false := by
  intro t
  have htidy := commentedNodes_tidy source options.source
  have hbounds := errorExtents_located source options.source
  rw [show t.arena = (unmarkedNodes source options.source).propagateErrors from
    arena_eq language source options]
  constructor
  · apply Arena.Grows.trans ?_ Arena.propagateErrors_grows
    exact (htidy.toRooted.insertErrors_grows hbounds).mono fun _ _ h => h.1
  · intro id
    rw [Arena.propagateErrors_children, Arena.propagateErrors_kind]
    exact htidy.toRooted.insertErrors_holds hbounds htidy.holds id

/-- The ranges of the comments of a text, in bytes. -/
def commentRanges (text : String) (id : UInt16) : List Extent :=
  (commentExtents (lex text id).1).map (Extent.located (SourceIndex.ofSource text).byte)

/-- Each comment has a node, below the innermost node of the syntax around it. -/
theorem comment_placed (language : Language) (source : String) (options : Options) :
    let t := parse language source options
    ∀ i range, (commentRanges source options.source)[i]? = some range →
      ∃ p, t.syntaxSize + i < t.arena.size ∧
        (t.arena.row (t.syntaxSize + i)).kind = .comment ∧
        (t.arena.row (t.syntaxSize + i)).extent = range ∧
        (t.arena.row (t.syntaxSize + i)).parent = some p ∧ t.Innermost range p := by
  intro t i range hrange
  let lowered := lowerSource t.index.byte t.index.charCount t.file
  have hlowered : lowered.Tidy (Clear (commentRanges source options.source)) source.utf8ByteSize :=
    lowerSource_tidy source options.source
  obtain ⟨hbounds, hapart⟩ : (∀ r ∈ commentRanges source options.source, r.start < r.stop ∧
      r.stop ≤ source.utf8ByteSize) ∧ (commentRanges source options.source).Pairwise Extent.Apart :=
    commentExtents_located source options.source
  have hcommented := hlowered.insertComments_grows hbounds hapart
  have hgrows : Arena.Grows (fun kind _ => kind = .error)
      ((commentRanges source options.source).foldl Arena.insertComment lowered) t.arena :=
    (arena_grows language source options).1
  have hall : Arena.Grows (fun _ _ => True) lowered t.arena :=
    (hcommented.mono fun _ _ _ => trivial).trans (hgrows.mono fun _ _ _ => trivial)
  obtain ⟨hi, hget⟩ := List.getElem?_eq_some_iff.1 hrange
  have hsplit : (commentRanges source options.source).take i ++ range ::
      (commentRanges source options.source).drop (i + 1) = commentRanges source options.source := by
    rw [← hget]
    simp
  rw [← hsplit] at hlowered hbounds hapart hgrows
  obtain ⟨p, hplaced⟩ := hlowered.insertComments_placed hbounds hapart hgrows
  rw [List.length_take_of_le (Nat.le_of_lt hi)] at hplaced
  obtain ⟨hlt, hkind, hextent, hparent, hinner⟩ := hplaced
  refine ⟨p, hlt, hkind, hextent, hparent, ?_⟩
  have hrooted := (arena_rooted language source options).1
  exact innermost_of_grows hall hlowered.toRooted hrooted rfl hinner

/-- Only comments have nodes of their kind. -/
theorem comment_bounds (language : Language) (source : String) (options : Options) :
    let t := parse language source options
    ∀ id, id < t.arena.size → (t.arena.row id).kind = .comment →
      t.syntaxSize ≤ id ∧ id < t.syntaxSize + (commentRanges source options.source).length := by
  intro t id hid hkind
  obtain ⟨hbounds, hapart⟩ := commentExtents_located source options.source
  have hcommented := (lowerSource_tidy source options.source).insertComments_grows hbounds hapart
  have hgrows := (arena_grows language source options).1
  have hsize : (commentedNodes source options.source).size =
      t.syntaxSize + (commentRanges source options.source).length :=
    Arena.insertComments_size _ _
  constructor
  · refine Nat.le_of_not_lt fun hlt => ?_
    have hold : (t.arena.row id).kind = ((lowerSource t.index.byte t.index.charCount t.file).row
        id).kind := by
      rw [hgrows.kind_eq id (Nat.lt_of_lt_of_le hlt hcommented.size_le)]
      exact hcommented.kind_eq id hlt
    exact lowerSource_kind_ne hlt (hold.symm.trans hkind)
  · refine Nat.lt_of_not_le fun hle => ?_
    rw [← hsize] at hle
    rw [hgrows.new id hle hid] at hkind
    cases hkind

/-- **Where comments are put.**  The comments of any text are the nodes after those of its syntax,
in their order, and no other nodes are comments.  Each has just the bytes of its token and no
children, and is below the innermost node of the syntax around it. -/
theorem parse_places_comments (language : Language) (source : String) (options : Options) :
    let t := parse language source options
    let comments := (lex source options.source).1.filter fun token => token.kind.isComment
    (∀ id, (∃ node, t.node? id = some node ∧ node.kind = .comment) ↔
      t.syntaxSize ≤ id ∧ id < t.syntaxSize + comments.length) ∧
    ∀ i (h : i < comments.length), ∃ node p, t.node? (t.syntaxSize + i) = some node ∧
      node.kind = .comment ∧
      node.extent = ⟨bytesOf (source.toList.take comments[i].extent.start),
        bytesOf (source.toList.take comments[i].extent.stop)⟩ ∧
      node.children = [] ∧ node.parent = some p ∧ t.Innermost node.extent p := by
  intro t comments
  have hlength : (commentRanges source options.source).length = comments.length := by
    simp [commentRanges, commentExtents, comments]
  have hrange : ∀ i (h : i < comments.length), (commentRanges source options.source)[i]? =
      some ⟨bytesOf (source.toList.take comments[i].extent.start),
        bytesOf (source.toList.take comments[i].extent.stop)⟩ := by
    intro i hi
    simp [commentRanges, commentExtents, comments, Extent.located, SourceIndex.byte_eq, hi]
  constructor
  · intro id
    rw [show (∃ node, t.node? id = some node ∧ node.kind = .comment) ↔ _ from
      Arena.exists_getElem?_kind]
    constructor
    · rintro ⟨hid, hkind⟩
      rw [← hlength]
      exact comment_bounds language source options id hid hkind
    · rintro ⟨hle, hlt⟩
      obtain ⟨i, rfl⟩ := Nat.exists_eq_add_of_le hle
      obtain ⟨p, hid, hkind, -⟩ :=
        comment_placed language source options i _ (hrange i (by omega))
      exact ⟨hid, hkind⟩
  · intro i hi
    obtain ⟨p, hid, hkind, hextent, hparent, hinner⟩ :=
      comment_placed language source options i _ (hrange i hi)
    refine ⟨_, p, Arena.getElem?_eq_row hid, hkind, hextent, ?_, hparent, ?_⟩
    · refine Decidable.not_not.1 fun hne => ?_
      have hleaf := (arena_grows language source options).2 _ hne
      rw [hkind] at hleaf
      cases hleaf
    · rw [hextent]
      exact hinner

/-- A comment with a char of two bytes, within an expression that was given up. -/
theorem parse_places_comments_in_error :
    let t := parse .current "a :: (1 2 /* é */ 3); // x" {}
    t.syntaxSize = 4 ∧ ∃ node p, t.node? 4 = some node ∧ node.kind = .comment ∧
      node.extent = ⟨10, 18⟩ ∧ node.children = [] ∧ node.parent = some p ∧
      t.Innermost node.extent p := by
  intro t
  have hsize : t.syntaxSize = 4 := by decide +kernel
  obtain ⟨node, p, hnode, hkind, hextent, hrest⟩ :=
    (parse_places_comments .current "a :: (1 2 /* é */ 3); // x" {}).2 0 (by decide +kernel)
  rw [show (parse .current "a :: (1 2 /* é */ 3); // x" {}).syntaxSize + 0 = 4 from hsize] at hnode
  exact ⟨hsize, node, p, hnode, hkind, hextent.trans (by decide +kernel), hrest⟩

end Tree

end LunSyntax
