import LunSyntax.Proofs.Tree.Rooted

/-!
# Comments and errors in a tree

Comments and errors are inserted into the innermost node around them, before the first child that
starts later, which is searched for by halves.  The search is right as long as children are in
order, and they stay so.

* `Arena.Ends`, `Arena.Rooted.container_spec`: the innermost node around a range;
* `Arena.partitionPoint_spec`, `Arena.Rooted.position_spec`: the place among its children;
* `Arena.Tidy.insertComment`: comments overlap with no other node, since nodes are clear of them;
* `Arena.Rooted.insertError`: errors may overlap, but keep the order of starts;
* `Tree.parse_rooted`: the nodes of any text are an ordered tree with a root.
-/

set_option autoImplicit false

namespace LunSyntax

namespace Arena

/-! ## The innermost node around a range -/

theorem contains_inside {node : NodeData} {range : Extent} (h : node.contains range = true) :
    range.Inside node.extent := by
  unfold NodeData.contains at h
  unfold Extent.Inside
  split at h
  · simp only [Bool.and_eq_true, decide_eq_true_eq] at h
    omega
  · simpa using h

section

variable {size : Nat} {arena : Arena} {range : Extent}

/-- The search goes on in a child that holds others and contains the range, if there is one. -/
theorem Rooted.step?_eq (h : Rooted size arena) {current : Nat} (hcurrent : current < arena.size) :
    arena.step? range current = (arena.row current).children.find? fun id =>
      !(arena.row id).kind.isLeaf && (arena.row id).contains range := by
  unfold step?
  rw [getElem?_eq_row hcurrent, Option.bind_eq_bind, Option.bind_some, ← List.head?_filter,
    ← List.head?_filter]
  congr 1
  refine List.filter_congr fun id hid => ?_
  rw [getElem?_eq_row (h.child hid).2.1]

/-- Where a search for the innermost node around a range ends: no child of the node which may hold
others contains the range. -/
structure Ends (arena : Arena) (range : Extent) (start p : Nat) : Prop where
  lt : p < arena.size
  inside : range.Inside (arena.row p).extent
  /-- the search has gone down only to nodes which contain the range -/
  around : p = start ∨ (arena.row p).kind.isLeaf = false ∧ (arena.row p).contains range = true
  none : ∀ child ∈ (arena.row p).children,
    (arena.row child).kind.isLeaf = false → (arena.row child).contains range = false

/-- **The container of a range** is where the search ends. -/
theorem Rooted.container_spec (h : Rooted size arena) {current : Nat}
    (hcurrent : current < arena.size) (hinside : range.Inside (arena.row current).extent) :
    arena.Ends range current (arena.container range current) := by
  fun_induction container arena range current with
  | case1 current id hstep hlt ih =>
    rw [h.step?_eq hcurrent] at hstep
    have hfound := List.find?_some hstep
    simp only [Bool.and_eq_true, Bool.not_eq_true'] at hfound
    have hends := ih hlt.2 (contains_inside hfound.2)
    refine ⟨hends.lt, hends.inside, .inr ?_, hends.none⟩
    rcases hends.around with heq | haround
    · rw [heq]
      exact hfound
    · exact haround
  | case2 current id hstep hnot =>
    -- the search never stops short, since children come after their parents
    rw [h.step?_eq hcurrent] at hstep
    have hchild := h.child (List.mem_of_find?_eq_some hstep)
    exact absurd ⟨hchild.1, hchild.2.1⟩ hnot
  | case3 current hstep =>
    rw [h.step?_eq hcurrent] at hstep
    refine ⟨hcurrent, hinside, .inl rfl, fun child hchild hleaf => ?_⟩
    have hnone := List.find?_eq_none.1 hstep child hchild
    simpa [hleaf] using hnone

/-- A range of the source has a container, as it is within the root. -/
theorem Rooted.container_root (h : Rooted size arena) (hstop : range.stop ≤ size) :
    arena.Ends range 0 (arena.container range 0) := by
  refine h.container_spec h.nonempty ?_
  rw [h.root_extent]
  exact ⟨Nat.zero_le _, hstop⟩

/-- The container of a range may hold others. -/
theorem Rooted.container_isLeaf (h : Rooted size arena) (hstop : range.stop ≤ size) :
    (arena.row (arena.container range 0)).kind.isLeaf = false := by
  rcases (h.container_root hstop).around with heq | ⟨hleaf, -⟩
  · rw [heq, h.root_kind]
    rfl
  · exact hleaf

end

/-! ## Positions -/

/-- **The search by halves** finds where a condition starts to fail, if it fails ever after. -/
theorem partitionPoint_spec {p : Nat → Bool} {lo hi : Nat} (hle : lo ≤ hi)
    (hp : ∀ i j, lo ≤ i → i ≤ j → j < hi → p j = true → p i = true) :
    lo ≤ partitionPoint p lo hi ∧ partitionPoint p lo hi ≤ hi ∧
      (∀ i, lo ≤ i → i < partitionPoint p lo hi → p i = true) ∧
      ∀ i, partitionPoint p lo hi ≤ i → i < hi → p i = false := by
  fun_induction partitionPoint p lo hi with
  | case1 lo hi hlt mid hmid ih =>
    have hbetween : lo ≤ mid ∧ mid < hi := by omega
    obtain ⟨h1, h2, h3, h4⟩ := ih (by omega) (fun i j hi => hp i j (by omega))
    refine ⟨by omega, h2, fun i hi1 hi2 => ?_, h4⟩
    rcases Nat.lt_or_ge mid i with hmi | him
    · exact h3 i hmi hi2
    · exact hp i mid hi1 him hbetween.2 hmid
  | case2 lo hi hlt mid hmid ih =>
    have hbetween : lo ≤ mid ∧ mid < hi := by omega
    obtain ⟨h1, h2, h3, h4⟩ := ih (by omega) (fun i j hi1 hij hj => hp i j hi1 hij (by omega))
    refine ⟨h1, by omega, h3, fun i hi1 hi2 => ?_⟩
    rcases Nat.lt_or_ge i mid with him | hmi
    · exact h4 i hi1 him
    · exact Bool.eq_false_iff.2 fun htrue => hmid (hp mid i hbetween.1 hmi hi2 htrue)
  | case3 lo hi hlt =>
    refine ⟨Nat.le_refl _, hle, fun i hi1 hi2 => ?_, fun i hi1 hi2 => ?_⟩
    · omega
    · omega

/-- The position of a new child among those of its parent. -/
def position (arena : Arena) (parent byte : Nat) : Nat :=
  partitionPoint (arena.startsBy (arena.row parent).children byte) 0
    (arena.row parent).children.length

/-- A new child comes after those which start no later, and before all others. -/
theorem Rooted.position_spec {size : Nat} {arena : Arena} (h : Rooted size arena)
    (parent byte : Nat) :
    (∀ a ∈ (arena.row parent).children.take (arena.position parent byte),
      (arena.row a).extent.start ≤ byte) ∧
    ∀ b ∈ (arena.row parent).children.drop (arena.position parent byte),
      byte < (arena.row b).extent.start := by
  have hstarts : ∀ i (hi : i < (arena.row parent).children.length),
      arena.startsBy (arena.row parent).children byte i =
        decide ((arena.row (arena.row parent).children[i]).extent.start ≤ byte) := by
    intro i hi
    have hchild := h.child (List.getElem_mem hi)
    rw [startsBy, List.getElem?_eq_getElem hi, Option.bind_some, getElem?_eq_row hchild.2.1]
  have hsorted := List.pairwise_iff_getElem.1 (h.sorted parent)
  have hdown : ∀ i j, 0 ≤ i → i ≤ j → j < (arena.row parent).children.length →
      arena.startsBy (arena.row parent).children byte j = true →
        arena.startsBy (arena.row parent).children byte i = true := by
    intro i j _ hij hj htrue
    rw [hstarts j hj, decide_eq_true_eq] at htrue
    rw [hstarts i (by omega), decide_eq_true_eq]
    rcases Nat.lt_or_eq_of_le hij with hlt | rfl
    · exact Nat.le_trans (hsorted i j (by omega) hj hlt) htrue
    · exact htrue
  obtain ⟨-, hle, hbefore, hafter⟩ := partitionPoint_spec (Nat.zero_le _) hdown
  refine ⟨fun a ha => ?_, fun b hb => ?_⟩
  · obtain ⟨i, hi, rfl⟩ := List.mem_take_iff_getElem.1 ha
    have htrue := hbefore i (Nat.zero_le _) (by unfold position at hi; omega)
    rwa [hstarts i (by omega), decide_eq_true_eq] at htrue
  · obtain ⟨i, hi, rfl⟩ := List.mem_drop_iff_getElem.1 hb
    have hfalse := hafter (arena.position parent byte + i) (Nat.le_add_right _ _) (by omega)
    rw [hstarts _ (by omega), decide_eq_false_iff_not] at hfalse
    omega

/-! ## Comments and errors -/

theorem insertBelow_inserts {arena : Arena} {parent : Nat} (kind : NodeKind) (range : Extent)
    (hparent : parent < arena.size) :
    Inserts arena (arena.insertBelow parent kind range) parent (arena.position parent range.start)
      kind range := by
  have hchildren : (arena[parent]?.map NodeData.children).getD [] = (arena.row parent).children := by
    rw [getElem?_eq_row hparent]
    rfl
  have hne : parent ≠ arena.size := by omega
  have hnew : (arena.insertBelow parent kind range)[arena.size]? =
      some ⟨kind, none, range, some parent, [], kind == .error⟩ := by
    simp only [insertBelow, link, addNode, Array.getElem?_modify, if_neg hne,
      Array.getElem?_push_size]
  refine .of_getElem? hparent (by simp [insertBelow, link, addNode]) (fun id hid => ?_) hnew
  have hid' : id ≠ arena.size := by omega
  simp only [insertBelow, hchildren, link, addNode, Array.getElem?_modify, Array.getElem?_push,
    if_neg hid', eq_comm (a := parent)]
  rfl

section

variable {size : Nat} {arena : Arena} {range : Extent}

theorem Rooted.insertBelow {parent : Nat} (h : Rooted size arena) (kind : NodeKind)
    (hparent : parent < arena.size) (hforward : range.start ≤ range.stop)
    (hinside : range.Inside (arena.row parent).extent) :
    Rooted size (arena.insertBelow parent kind range) := by
  obtain ⟨hbefore, hafter⟩ := h.position_spec parent range.start
  exact h.insert (insertBelow_inserts kind range hparent) hforward hinside hbefore
    fun b hb => Nat.le_of_lt (hafter b hb)

/-- **Inserting an error keeps a table rooted.** -/
theorem Rooted.insertError (h : Rooted size arena) (hforward : range.start ≤ range.stop)
    (hstop : range.stop ≤ size) : Rooted size (arena.insertError range) := by
  have hends := h.container_root hstop
  simp only [Arena.insertError]
  split
  · exact h
  · exact h.insertBelow .error hends.lt hforward hends.inside

theorem Rooted.insertErrors {ranges : List Extent} (h : Rooted size arena)
    (hranges : ∀ r ∈ ranges, r.start ≤ r.stop ∧ r.stop ≤ size) :
    Rooted size (ranges.foldl Arena.insertError arena) := by
  induction ranges generalizing arena with
  | nil => exact h
  | cons r rest ih =>
    obtain ⟨⟨hforward, hstop⟩, hrest⟩ := List.forall_mem_cons.1 hranges
    exact ih (h.insertError hforward hstop) hrest

/-- Nodes which are clear of some ranges are clear of fewer. -/
theorem Tidy.clear {ranges fewer : List Extent} (h : Tidy (Clear ranges) size arena)
    (hsub : fewer ⊆ ranges) : Tidy (Clear fewer) size arena :=
  ⟨h.toRooted, h.separate, h.holds, fun id hid r hr => h.all id hid r (hsub hr)⟩

/-- **Inserting a comment keeps a table tidy**, if all nodes are clear of the comment. -/
theorem Tidy.insertComment {rest : List Extent} (h : Tidy (Clear (range :: rest)) size arena)
    (hlt : range.start < range.stop) (hstop : range.stop ≤ size)
    (hrest : ∀ r ∈ rest, range.Apart r) : Tidy (Clear rest) size (arena.insertComment range) := by
  have hends := h.container_root hstop
  obtain ⟨hbefore, hafter⟩ := h.position_spec (arena.container range 0) range.start
  -- a child that holds the comment would be the container
  have hapart : ∀ c ∈ (arena.row (arena.container range 0)).children,
      (arena.row c).extent.Apart range := by
    intro c hc
    rcases h.all c (h.child hc).2.1 range (List.mem_cons_self ..) with hapart | ⟨hleaf, hin⟩
    · exact hapart
    · have hnot := hends.none c hc hleaf
      unfold NodeData.contains at hnot
      rw [if_neg (Nat.ne_of_lt hlt)] at hnot
      unfold Extent.Inside at hin
      simp [hin.1, hin.2] at hnot
  have hless : Tidy (Clear rest) size arena := h.clear fun r hr => List.mem_cons_of_mem _ hr
  refine hless.insert (insertBelow_inserts .comment range hends.lt) (h.container_isLeaf hstop)
    (fun r hr => .inl (hrest r hr)) (Nat.le_of_lt hlt) hends.inside (fun a ha => ?_) (fun b hb => ?_)
  · have hstart := hbefore a ha
    have := hapart a (List.mem_of_mem_take ha)
    unfold Extent.Apart at this
    omega
  · have hstart := hafter b hb
    have hforward := h.forward b
    have := hapart b (List.mem_of_mem_drop hb)
    unfold Extent.Apart at this
    omega

/-- The first of some comments have been inserted, and all nodes are clear of the others. -/
theorem Tidy.insertFirstComments {ranges later : List Extent}
    (h : Tidy (Clear (ranges ++ later)) size arena)
    (hranges : ∀ r ∈ ranges, r.start < r.stop ∧ r.stop ≤ size)
    (hapart : (ranges ++ later).Pairwise Extent.Apart) :
    Tidy (Clear later) size (ranges.foldl Arena.insertComment arena) := by
  induction ranges generalizing arena with
  | nil => exact h
  | cons r rest ih =>
    obtain ⟨⟨hlt, hstop⟩, hrest⟩ := List.forall_mem_cons.1 hranges
    obtain ⟨hfirst, hapart⟩ := List.pairwise_cons.1 hapart
    exact ih (h.insertComment hlt hstop hfirst) hrest hapart

theorem Tidy.insertComments {ranges : List Extent} (h : Tidy (Clear ranges) size arena)
    (hranges : ∀ r ∈ ranges, r.start < r.stop ∧ r.stop ≤ size)
    (hapart : ranges.Pairwise Extent.Apart) :
    Tidy (Clear []) size (ranges.foldl Arena.insertComment arena) := by
  rw [← List.append_nil ranges] at h hapart
  exact h.insertFirstComments hranges hapart

end

/-! ## Marks -/

section

variable (arena : Arena) (id : Nat)

/-- The rows of a table stay the same, but for their marks. -/
theorem propagateErrors_row :
    ∃ hasError, arena.propagateErrors.row id = { arena.row id with hasError } := by
  obtain ⟨hsize, hsame⟩ := arena.propagateErrors_same
  rcases Nat.lt_or_ge id arena.size with hlt | hge
  · obtain ⟨hasError, hrow⟩ := hsame 0 arena.size id (Nat.zero_le _) hlt _ (getElem?_eq_row hlt)
    exact ⟨hasError, row_of_getElem? hrow⟩
  · refine ⟨false, ?_⟩
    rw [row_of_le (by omega), row_of_le hge]
    rfl

@[simp]
theorem propagateErrors_size : arena.propagateErrors.size = arena.size :=
  arena.propagateErrors_same.1

@[simp]
theorem propagateErrors_kind : (arena.propagateErrors.row id).kind = (arena.row id).kind := by
  obtain ⟨hasError, hrow⟩ := arena.propagateErrors_row id
  rw [hrow]

@[simp]
theorem propagateErrors_extent : (arena.propagateErrors.row id).extent = (arena.row id).extent := by
  obtain ⟨hasError, hrow⟩ := arena.propagateErrors_row id
  rw [hrow]

@[simp]
theorem propagateErrors_parent : (arena.propagateErrors.row id).parent = (arena.row id).parent := by
  obtain ⟨hasError, hrow⟩ := arena.propagateErrors_row id
  rw [hrow]

@[simp]
theorem propagateErrors_children :
    (arena.propagateErrors.row id).children = (arena.row id).children := by
  obtain ⟨hasError, hrow⟩ := arena.propagateErrors_row id
  rw [hrow]

end

theorem Rooted.propagateErrors {size : Nat} {arena : Arena} (h : Rooted size arena) :
    Rooted size arena.propagateErrors where
  nonempty := by simpa using h.nonempty
  root_kind := by simpa using h.root_kind
  root_extent := by simpa using h.root_extent
  root_parent := by simpa using h.root_parent
  parent := by simpa using h.parent
  nodup := by simpa using h.nodup
  mem_iff := by simpa using h.mem_iff
  forward := by simpa using h.forward
  sorted := by simpa using h.sorted

end Arena

/-! ## Trees of texts -/

/-- What is wrong with a text is reported at a range of it, or at its end. -/
theorem errorExtents_forward (text : String) (id : UInt16) :
    ∀ e ∈ Tree.errorExtents (parse text id).diagnostics, e.start ≤ e.stop := by
  intro e he
  obtain ⟨d, hd, hmap⟩ := List.mem_filterMap.1 he
  obtain ⟨span, hspan, rfl⟩ := Option.map_eq_some_iff.1 hmap
  obtain ⟨-, reported, -, hdiagnostics, -, hreported⟩ := parse_spells text id
  rw [hdiagnostics] at hd
  rcases List.mem_append.1 hd with hd | hd
  · obtain ⟨fault, hfault, rfl⟩ := List.mem_map.1 hd
    have hbounds := (joinRuns_inOrder (scan_faults 0 text.toList)).bounds
      (List.mem_map_of_mem hfault)
    rw [toDiagnostic_span] at hspan
    rw [← Option.some.inj hspan]
    exact Nat.le_of_lt hbounds.2.1
  · obtain ⟨c, hc, rfl⟩ := List.mem_map.1 hd
    have hforward : c.span.start ≤ c.span.stop := by
      rcases hreported c hc with hlocated | hfinish
      · generalize c.span = s at hlocated
        cases hlocated with
        | span hin hcovers =>
          have := hcovers.bounds ((stream_ranged text id).sublist hin.sublist)
          omega
        | stop _ _ => exact Nat.le_refl _
      · rw [hfinish.span]
        exact Nat.le_succ _
    obtain rfl : c.shownSpan = span := Option.some.inj hspan
    unfold Complaint.shownSpan
    split
    · dsimp only
      omega
    · exact hforward

/-- The comments of a text are not empty, and apart from each other. -/
theorem commentExtents_apart (text : String) (id : UInt16) :
    (∀ c ∈ Tree.commentExtents (parse text id).tokens, c.start < c.stop ∧ c.stop ≤ text.length) ∧
      (Tree.commentExtents (parse text id).tokens).Pairwise Extent.Apart := by
  have hsub : (Tree.commentExtents (parse text id).tokens).Sublist
      ((scan 0 text.toList).tokens.map Token.extent) := List.filter_sublist.map _
  have horder := (scan_tokens 0 text.toList).sublist hsub
  rw [Nat.zero_add, String.length_toList] at horder
  exact ⟨fun c hc => (horder.bounds hc).2, horder.pairwise.imp .inl⟩

namespace Tree

theorem children_eq (t : Tree) (id : Nat) : t.children id = (t.arena.row id).children := by
  unfold children node? Arena.row
  cases t.arena[id]? with
  | none => rfl
  | some node => rfl

theorem parent?_eq (t : Tree) (id : Nat) : t.parent? id = (t.arena.row id).parent := by
  unfold parent? node? Arena.row
  cases t.arena[id]? with
  | none => rfl
  | some node => rfl

/-- The nodes of a text and its comments, without its errors. -/
def commentedNodes (text : String) (id : UInt16) : Arena :=
  ((commentExtents (LunSyntax.parse text id).tokens).map
    (Extent.located (SourceIndex.ofSource text).byte)).foldl Arena.insertComment
      (lowerSource (SourceIndex.ofSource text).byte (SourceIndex.ofSource text).charCount
        (LunSyntax.parse text id).file)

/-- The nodes of a text, its comments and its errors, before marks are propagated. -/
def unmarkedNodes (text : String) (id : UInt16) : Arena :=
  ((errorExtents (LunSyntax.parse text id).diagnostics).map
    (Extent.located (SourceIndex.ofSource text).byte)).foldl Arena.insertError
      (commentedNodes text id)

/-- Errors are added last. -/
theorem arena_eq (language : Language) (source : String) (options : Options) :
    (parse language source options).arena =
      (unmarkedNodes source options.source).propagateErrors := by
  simp only [parse, nodes, unmarkedNodes, commentedNodes]
  rfl

/-- The nodes of the syntax of a text do not overlap, and each comment is beside or within each of
them. -/
theorem lowerSource_tidy (text : String) (id : UInt16) :
    (lowerSource (SourceIndex.ofSource text).byte (SourceIndex.ofSource text).charCount
      (LunSyntax.parse text id).file).Tidy
        (Clear ((commentExtents (LunSyntax.parse text id).tokens).map
          (Extent.located (SourceIndex.ofSource text).byte))) text.utf8ByteSize := by
  have hfits := sourceShape_fits text id
  rw [lowerSource_eq, SourceIndex.charCount_eq]
  unfold Shape.FitsAmong at hfits
  unfold sourceShape Shape.covering at hfits ⊢
  rw [SourceIndex.byte_zero, SourceIndex.byte_length] at hfits ⊢
  exact Arena.tidy_graft hfits

/-- The comments of a text in bytes are not empty, and apart from each other. -/
theorem commentExtents_located (text : String) (id : UInt16) :
    (∀ r ∈ (commentExtents (LunSyntax.parse text id).tokens).map
        (Extent.located (SourceIndex.ofSource text).byte),
      r.start < r.stop ∧ r.stop ≤ text.utf8ByteSize) ∧
      ((commentExtents (LunSyntax.parse text id).tokens).map
        (Extent.located (SourceIndex.ofSource text).byte)).Pairwise Extent.Apart := by
  obtain ⟨hbounds, hapart⟩ := commentExtents_apart text id
  refine ⟨fun r hr => ?_, ?_⟩
  · obtain ⟨c, hc, rfl⟩ := List.mem_map.1 hr
    exact ⟨SourceIndex.byte_lt text (hbounds c hc).1 (hbounds c hc).2, SourceIndex.byte_le text _⟩
  · exact List.pairwise_map.2 (hapart.imp fun h =>
      h.imp (SourceIndex.byte_mono text) (SourceIndex.byte_mono text))

/-- The errors of a text in bytes. -/
theorem errorExtents_located (text : String) (id : UInt16) :
    ∀ r ∈ (errorExtents (LunSyntax.parse text id).diagnostics).map
        (Extent.located (SourceIndex.ofSource text).byte),
      r.start ≤ r.stop ∧ r.stop ≤ text.utf8ByteSize := by
  intro r hr
  obtain ⟨e, he, rfl⟩ := List.mem_map.1 hr
  exact ⟨SourceIndex.byte_mono text (errorExtents_forward text id e he),
    SourceIndex.byte_le text _⟩

/-- Before errors are inserted, the nodes of a text do not overlap. -/
theorem commentedNodes_tidy (text : String) (id : UInt16) :
    (commentedNodes text id).Tidy (Clear []) text.utf8ByteSize :=
  (lowerSource_tidy text id).insertComments (commentExtents_located text id).1
    (commentExtents_located text id).2

theorem unmarkedNodes_rooted (text : String) (id : UInt16) :
    (unmarkedNodes text id).Rooted text.utf8ByteSize :=
  (commentedNodes_tidy text id).toRooted.insertErrors (errorExtents_located text id)

/-- The nodes of a text are a tree with a root, in which children do not overlap if nothing is wrong
with the text. -/
theorem arena_rooted (language : Language) (source : String) (options : Options) :
    (parse language source options).arena.Rooted source.utf8ByteSize ∧
      ((parse language source options).diagnostics = [] →
        ∀ id, ((parse language source options).arena.row id).children.Pairwise fun a b =>
          ((parse language source options).arena.row a).extent.stop ≤
            ((parse language source options).arena.row b).extent.start) := by
  rw [arena_eq]
  refine ⟨(unmarkedNodes_rooted source options.source).propagateErrors, fun hnone id => ?_⟩
  have herrors : errorExtents (LunSyntax.parse source options.source).diagnostics = [] :=
    congrArg errorExtents hnone
  simpa [unmarkedNodes, herrors] using (commentedNodes_tidy source options.source).separate id

/-- The nodes of a tree are an ordered tree with a root. -/
structure Rooted (t : Tree) : Prop where
  /-- the first node is the root, and spans the source -/
  root : ∃ node, t.node? 0 = some node ∧ node.kind = .sourceFile ∧ node.parent = none ∧
    node.extent = ⟨0, t.source.utf8ByteSize⟩
  /-- each other node has a parent before it and around it, and is a child of that alone -/
  parent : ∀ id node, t.node? id = some node → id ≠ 0 → ∃ p outer, node.parent = some p ∧
    p < id ∧ t.node? p = some outer ∧ node.extent.Inside outer.extent ∧
    ∀ q, (t.children q).count id = if q = p then 1 else 0
  forward : ∀ id node, t.node? id = some node → node.extent.start ≤ node.extent.stop
  /-- children are in order of their starts -/
  sorted : ∀ id, (t.children id).Pairwise fun a b => ∀ x y, t.node? a = some x →
    t.node? b = some y → x.extent.start ≤ y.extent.start
  /-- a child leads back to its parent and on to the next child -/
  child : ∀ id i c, (t.children id)[i]? = some c →
    t.parent? c = some id ∧ t.nextSibling? c = (t.children id)[i + 1]?

theorem nextSibling?_eq {size : Nat} {t : Tree} (h : t.arena.Rooted size) {id i c : Nat}
    (hc : (t.children id)[i]? = some c) :
    t.parent? c = some id ∧ t.nextSibling? c = (t.children id)[i + 1]? := by
  obtain ⟨hi, hget⟩ := List.getElem?_eq_some_iff.1 hc
  have hmem : c ∈ t.children id := List.mem_of_getElem? hc
  have hnodup : (t.children id).Nodup := by
    rw [children_eq]
    exact h.nodup id
  have hparent : t.parent? c = some id := by
    rw [children_eq] at hmem
    rw [parent?_eq]
    exact (h.mem_iff id c).1 hmem
  have hindex : (t.children id).findIdx? (· == c) = some i := by
    refine List.findIdx?_eq_some_iff_getElem.2 ⟨hi, by simp [hget], fun j hj => ?_⟩
    rw [beq_iff_eq, ← hget]
    exact List.pairwise_iff_getElem.1 hnodup j i (by omega) hi hj
  refine ⟨hparent, ?_⟩
  unfold nextSibling?
  rw [hparent]
  simp only [Option.bind_eq_bind, Option.bind_some, hindex]

/-- **The nodes of any text are an ordered tree with a root.**  The root spans the text; each other
node is within its parent, which comes before it and has it once among its children, where they are
in order of their starts, whatever comments and errors were put between them.  If there is no error,
children do not overlap. -/
theorem parse_rooted (language : Language) (source : String) (options : Options) :
    (parse language source options).Rooted ∧
      ((parse language source options).hasError = false →
        ∀ id, ((parse language source options).children id).Pairwise fun a b => ∀ x y,
          (parse language source options).node? a = some x →
          (parse language source options).node? b = some y → x.extent.stop ≤ y.extent.start) := by
  obtain ⟨hrooted, hseparate⟩ := arena_rooted language source options
  have hsource : (parse language source options).source = source := rfl
  generalize parse language source options = t at hrooted hseparate hsource
  have hrow : ∀ {id node}, t.node? id = some node → id < t.arena.size ∧ t.arena.row id = node :=
    fun hnode => ⟨(Array.getElem?_eq_some_iff.1 hnode).1, Arena.row_of_getElem? hnode⟩
  refine ⟨⟨?_, fun id node hnode hid => ?_, fun id node hnode => ?_, fun id => ?_,
    fun id i c hc => nextSibling?_eq hrooted hc⟩, fun hnone id => ?_⟩
  · refine ⟨t.arena.row 0, Arena.getElem?_eq_row hrooted.nonempty, hrooted.root_kind,
      hrooted.root_parent, ?_⟩
    rw [hsource]
    exact hrooted.root_extent
  · obtain ⟨hlt, rfl⟩ := hrow hnode
    obtain ⟨p, hp, hparent, hinside⟩ := hrooted.parent id (Nat.pos_of_ne_zero hid) hlt
    refine ⟨p, t.arena.row p, hparent, hp, Arena.getElem?_eq_row (by omega), hinside,
      fun q => ?_⟩
    rw [children_eq, (hrooted.nodup q).count]
    refine if_congr ?_ rfl rfl
    rw [hrooted.mem_iff, hparent, Option.some.injEq, eq_comm]
  · obtain ⟨-, rfl⟩ := hrow hnode
    exact hrooted.forward id
  · rw [children_eq]
    refine (hrooted.sorted id).imp fun hab x y hx hy => ?_
    rw [← (hrow hx).2, ← (hrow hy).2]
    exact hab
  · have hdiagnostics : t.diagnostics = [] := by
      unfold hasError at hnone
      simp only [Bool.or_eq_false_iff, Bool.not_eq_false', List.isEmpty_iff] at hnone
      exact hnone.1
    rw [children_eq]
    refine (hseparate hdiagnostics id).imp fun hab x y hx hy => ?_
    rw [← (hrow hx).2, ← (hrow hy).2]
    exact hab

/-- Comments between the arguments of a call, before and after all of them, one with a char of two
bytes. -/
theorem parse_rooted_commented :
    let t := parse .current "a :: f(/* é */ 1, // one\n2 /**/);" {}
    t.hasError = false ∧ t.children 7 = [12, 8, 13, 10, 14] ∧ t.Rooted ∧
      ∀ id, (t.children id).Pairwise fun a b => ∀ x y, t.node? a = some x → t.node? b = some y →
        x.extent.stop ≤ y.extent.start := by
  intro t
  have hnone : t.hasError = false := by decide +kernel
  obtain ⟨hrooted, hseparate⟩ := parse_rooted .current "a :: f(/* é */ 1, // one\n2 /**/);" {}
  exact ⟨hnone, by decide +kernel, hrooted, hseparate hnone⟩

end Tree

end LunSyntax
