import LunSyntax.Proofs.Tree.Errors

/-!
# Where errors are put

Comments and errors are added to the nodes of the syntax, which keep their places.  An error is left
out where an error node touches it, be it of the syntax or of an error before; all others are put
into the innermost node of the syntax around them.

* `Arena.Grows`: a table has got more nodes, and the nodes it had are where they were;
* `Arena.Tidy.comparable`: of two nodes around a range, one is below the other;
* `Arena.Tidy.innermost`: a node around a range is above the one where the search for it ends;
* `Arena.Tidy.insertError_placed`: where one error is put;
* `Tree.parse_places_errors`: where all errors of a text are put;
* `Tree.parse_hides_error`: an error next to another one is left out, although nothing of the syntax
  represents it.
-/

set_option autoImplicit false

namespace LunSyntax

open Relation (ReflTransGen)

/-- Two ranges share a place, or one stops where the other starts. -/
def Extent.Touches (a b : Extent) : Prop := a.start ≤ b.stop ∧ b.start ≤ a.stop

namespace Arena

/-! ## Tables which have grown -/

/-- A table has got more nodes, which satisfy a condition on their kinds and extents.  The nodes it
had may only have more children. -/
structure Grows (P : NodeKind → Extent → Prop) (arena arena' : Arena) : Prop where
  size_le : arena.size ≤ arena'.size
  kind_eq : ∀ id, id < arena.size → (arena'.row id).kind = (arena.row id).kind
  extent_eq : ∀ id, id < arena.size → (arena'.row id).extent = (arena.row id).extent
  parent_eq : ∀ id, id < arena.size → (arena'.row id).parent = (arena.row id).parent
  new : ∀ id, arena.size ≤ id → id < arena'.size → P (arena'.row id).kind (arena'.row id).extent

section

variable {P Q : NodeKind → Extent → Prop} {arena mid arena' : Arena} {size : Nat}

theorem Grows.refl : Grows P arena arena :=
  ⟨Nat.le_refl _, fun _ _ => rfl, fun _ _ => rfl, fun _ _ => rfl, fun _ _ _ => by omega⟩

theorem Grows.mono (h : Grows P arena arena') (hPQ : ∀ kind extent, P kind extent → Q kind extent) :
    Grows Q arena arena' :=
  ⟨h.size_le, h.kind_eq, h.extent_eq, h.parent_eq, fun id hle hlt => hPQ _ _ (h.new id hle hlt)⟩

theorem Grows.trans (h : Grows P arena mid) (h' : Grows P mid arena') : Grows P arena arena' := by
  have hle := h.size_le
  refine ⟨Nat.le_trans hle h'.size_le, fun id hid => ?_, fun id hid => ?_, fun id hid => ?_,
    fun id hge hlt => ?_⟩
  · rw [h'.kind_eq id (by omega), h.kind_eq id hid]
  · rw [h'.extent_eq id (by omega), h.extent_eq id hid]
  · rw [h'.parent_eq id (by omega), h.parent_eq id hid]
  · rcases Nat.lt_or_ge id mid.size with hmid | hmid
    · rw [h'.kind_eq id hmid, h'.extent_eq id hmid]
      exact h.new id hge hmid
    · exact h'.new id hmid hlt

theorem Inserts.grows {parent position : Nat} {kind : NodeKind} {extent : Extent}
    (h : Inserts arena arena' parent position kind extent) (hnew : P kind extent) :
    Grows P arena arena' := by
  refine ⟨by rw [h.size_eq]; omega, fun id hid => h.kind_old (Nat.ne_of_lt hid),
    fun id hid => h.extent_old (Nat.ne_of_lt hid), fun id hid => h.parent_old (Nat.ne_of_lt hid),
    fun id hge hlt => ?_⟩
  rw [h.size_eq] at hlt
  obtain rfl : id = arena.size := by omega
  rw [h.kind_new, h.extent_new]
  exact hnew

theorem propagateErrors_grows : Grows P arena arena.propagateErrors :=
  ⟨by simp, fun _ _ => by simp, fun _ _ => by simp, fun _ _ => by simp,
    fun id hge hlt => by simp at hlt; omega⟩

theorem Tidy.insertComments_grows {ranges : List Extent} (h : Tidy (Clear ranges) size arena)
    (hranges : ∀ r ∈ ranges, r.start < r.stop ∧ r.stop ≤ size)
    (hapart : ranges.Pairwise Extent.Apart) :
    Grows (fun kind _ => kind = .comment) arena (ranges.foldl Arena.insertComment arena) := by
  induction ranges generalizing arena with
  | nil => exact .refl
  | cons r rest ih =>
    obtain ⟨⟨hlt, hstop⟩, hrest⟩ := List.forall_mem_cons.1 hranges
    obtain ⟨hfirst, hapart⟩ := List.pairwise_cons.1 hapart
    have hinserts := insertBelow_inserts .comment r (h.container_root hstop).lt
    exact (hinserts.grows rfl).trans (ih (h.insertComment hlt hstop hfirst) hrest hapart)

theorem Rooted.insertErrors_grows {ranges : List Extent} (h : Rooted size arena)
    (hranges : ∀ r ∈ ranges, r.start ≤ r.stop ∧ r.stop ≤ size) :
    Grows (fun kind extent => kind = .error ∧ extent ∈ ranges) arena
      (ranges.foldl Arena.insertError arena) := by
  induction ranges generalizing arena with
  | nil => exact .refl
  | cons r rest ih =>
    obtain ⟨⟨hforward, hstop⟩, hrest⟩ := List.forall_mem_cons.1 hranges
    have hfirst : Grows (fun kind extent => kind = .error ∧ extent ∈ r :: rest) arena
        (arena.insertError r) := by
      unfold Arena.insertError
      dsimp only
      split
      · exact .refl
      · exact (insertBelow_inserts .error r (h.container_root hstop).lt).grows
          ⟨rfl, List.mem_cons_self ..⟩
    refine hfirst.trans ((ih (h.insertError hforward hstop) hrest).mono ?_)
    exact fun kind extent hnew => ⟨hnew.1, List.mem_cons_of_mem _ hnew.2⟩

/-- Nodes which had a child have it still. -/
theorem Grows.child (h : Grows P arena arena') (hr : Rooted size arena) (hr' : Rooted size arena')
    {id c : Nat} (hc : arena.Child id c) : arena'.Child id c := by
  have hlt := (hr.child hc).2.1
  refine (hr'.mem_iff id c).2 ?_
  rw [h.parent_eq c hlt]
  exact (hr.mem_iff id c).1 hc

end

/-! ## Nodes around a range -/

section

variable {P : NodeKind → Extent → Prop} {size : Nat} {arena : Arena} {range : Extent}

/-- What contains a node contains all that the node contains. -/
theorem contains_of_inside {node outer : NodeData} (h : node.contains range = true)
    (hinside : node.extent.Inside outer.extent) : outer.contains range = true := by
  unfold NodeData.contains at h ⊢
  obtain ⟨hstart, hstop⟩ := hinside
  split at h
  · rename_i hempty
    simp only [Bool.and_eq_true, decide_eq_true_eq] at h
    rw [if_pos hempty]
    simp only [Bool.and_eq_true, decide_eq_true_eq]
    omega
  · rename_i hempty
    simp only [Bool.and_eq_true, decide_eq_true_eq] at h
    rw [if_neg hempty]
    simp only [Bool.and_eq_true, decide_eq_true_eq]
    omega

theorem Rooted.contains_of_below (h : Rooted size arena) {p q : Nat}
    (hbelow : ReflTransGen arena.Child p q) (hq : (arena.row q).contains range = true) :
    (arena.row p).contains range = true := by
  induction hbelow using ReflTransGen.head_induction_on with
  | refl => exact hq
  | head hchild _ ih => exact contains_of_inside ih (h.child hchild).2.2

/-- At most one of the children of a node contains a range. -/
theorem Tidy.child_eq (h : Tidy P size arena) (hforward : range.start ≤ range.stop) {p c d : Nat}
    (hc : arena.Child p c) (hd : arena.Child p d) (hcr : (arena.row c).contains range = true)
    (hdr : (arena.row d).contains range = true) : c = d := by
  have hapart : ∀ {a b : Nat}, (arena.row a).contains range = true →
      (arena.row b).contains range = true →
      ¬ (arena.row a).extent.stop ≤ (arena.row b).extent.start := by
    intro a b ha hb
    unfold NodeData.contains at ha hb
    split at ha
    · rename_i hempty
      rw [if_pos hempty] at hb
      simp only [Bool.and_eq_true, decide_eq_true_eq] at ha hb
      omega
    · rename_i hempty
      rw [if_neg hempty] at hb
      simp only [Bool.and_eq_true, decide_eq_true_eq] at ha hb
      omega
  rcases mem_or_of_pairwise (h.separate p) hc hd with heq | hcd | hdc
  · exact heq
  · exact absurd hcd (hapart hcr hdr)
  · exact absurd hdc (hapart hdr hcr)

/-- **Of two nodes around a range, one is below the other.** -/
theorem Tidy.comparable (h : Tidy P size arena) (hforward : range.start ≤ range.stop) {p : Nat}
    (hp : p < arena.size) (hpr : (arena.row p).contains range = true) (q : Nat) :
    q < arena.size → (arena.row q).contains range = true →
      ReflTransGen arena.Child q p ∨ ReflTransGen arena.Child p q := by
  induction q using Nat.strongRecOn with
  | ind q ih =>
    intro hq hqr
    rcases Nat.eq_zero_or_pos q with rfl | hpos
    · exact .inl (h.below_root p hp)
    · obtain ⟨outer, hlt, hparent, hinside⟩ := h.parent q hpos hq
      have hchild : arena.Child outer q := (h.mem_iff outer q).2 hparent
      rcases ih outer hlt (by omega) (contains_of_inside hqr hinside) with hbelow | habove
      · rcases hbelow.cases_head with rfl | ⟨c, hc, hbelow⟩
        · exact .inr (.single hchild)
        · -- the way down to `p` leads through `q`
          obtain rfl := h.child_eq hforward hc hchild (h.contains_of_below hbelow hpr) hqr
          exact .inl hbelow
      · exact .inr (habove.tail hchild)

/-- The innermost node around a range, or the root if there is none. -/
structure Innermost (arena : Arena) (range : Extent) (p : Nat) : Prop where
  lt : p < arena.size
  around : p = 0 ∨ (arena.row p).kind.isLeaf = false ∧ (arena.row p).contains range = true
  inner : ∀ q, q < arena.size → (arena.row q).kind.isLeaf = false →
    (arena.row q).contains range = true → ReflTransGen arena.Child q p

/-- **Where the search ends is the innermost node**: a node around the range which is not above it
would be below a child the search went on in. -/
theorem Tidy.innermost (h : Tidy P size arena) (hforward : range.start ≤ range.stop) {p : Nat}
    (hends : arena.Ends range 0 p) : arena.Innermost range p := by
  refine ⟨hends.lt, hends.around, fun q hq hleaf hqr => ?_⟩
  have hcomparable : ReflTransGen arena.Child q p ∨ ReflTransGen arena.Child p q := by
    rcases hends.around with rfl | ⟨-, hpr⟩
    · exact .inr (h.below_root q hq)
    · exact h.comparable hforward hends.lt hpr q hq hqr
  rcases hcomparable with hbelow | habove
  · exact hbelow
  · rcases habove.cases_head with rfl | ⟨c, hc, hbelow⟩
    · exact .refl
    · have hholds : (arena.row c).kind.isLeaf = false := by
        rcases hbelow.cases_head with rfl | ⟨d, hd, -⟩
        · exact hleaf
        · exact h.holds c (List.ne_nil_of_mem hd)
      have hnot := hends.none c hc hholds
      rw [h.contains_of_below hbelow hqr] at hnot
      cases hnot

end

/-! ## Errors -/

section

variable {P Q : NodeKind → Extent → Prop} {size : Nat} {arena lowered : Arena} {range : Extent}
  {earlier : List Extent}

/-- An error is represented only where an error node touches it. -/
theorem Rooted.isRepresented_touches (h : Rooted size arena)
    (hforward : range.start ≤ range.stop) {p : Nat} (hends : arena.Ends range 0 p)
    (hrepresented : arena.isRepresented p range = true) :
    ∃ id, id < arena.size ∧ (arena.row id).kind = .error ∧ (arena.row id).extent.Touches range := by
  unfold isRepresented at hrepresented
  rw [getElem?_eq_row hends.lt] at hrepresented
  rcases Bool.or_eq_true_iff.1 hrepresented with hkind | hchild
  · have hinside := hends.inside
    unfold Extent.Inside at hinside
    exact ⟨p, hends.lt, eq_of_beq hkind, by unfold Extent.Touches; omega⟩
  · obtain ⟨id, hid, hmatch⟩ := List.any_eq_true.1 hchild
    have hlt := (h.child hid).2.1
    rw [getElem?_eq_row hlt] at hmatch
    simp only [Bool.and_eq_true, beq_iff_eq, decide_eq_true_eq] at hmatch
    exact ⟨id, hlt, hmatch.1.1, hmatch.1.2, hmatch.2⟩

/-- A search which ends at a node that was there before has gone through such nodes only. -/
theorem Grows.ends_old (h : Grows Q lowered arena) (hl : Rooted size lowered)
    (hr : Rooted size arena) {p : Nat} (hp : p < lowered.size) (hends : arena.Ends range 0 p) :
    lowered.Ends range 0 p := by
  have hcontains : ∀ id, id < lowered.size →
      (arena.row id).contains range = (lowered.row id).contains range := by
    intro id hid
    unfold NodeData.contains
    rw [h.extent_eq id hid]
  refine ⟨hp, ?_, ?_, fun c hc hleaf => ?_⟩
  · rw [← h.extent_eq p hp]
    exact hends.inside
  · rw [← h.kind_eq p hp, ← hcontains p hp]
    exact hends.around
  · have hlt := (hl.child hc).2.1
    rw [← h.kind_eq c hlt] at hleaf
    rw [← hcontains c hlt]
    exact hends.none c (h.child hl hr hc) hleaf

/-- Where no error node touches a range, the search for it goes through the syntax only. -/
theorem Grows.ends (h : Grows (fun kind extent => kind = .comment ∨ kind = .error ∧ extent ∈ earlier)
      lowered arena) (hl : Rooted size lowered) (hr : Rooted size arena)
    (hforward : range.start ≤ range.stop)
    (hnone : ∀ id, id < arena.size → (arena.row id).kind = .error →
      ¬ (arena.row id).extent.Touches range) {p : Nat} (hends : arena.Ends range 0 p) :
    lowered.Ends range 0 p := by
  refine h.ends_old hl hr ?_ hends
  rcases hends.around with rfl | ⟨hleaf, hcontains⟩
  · exact hl.nonempty
  · refine Nat.lt_of_not_le fun hge => ?_
    rcases h.new p hge hends.lt with hcomment | ⟨herror, -⟩
    · rw [hcomment] at hleaf
      cases hleaf
    · have hinside := hends.inside
      unfold Extent.Inside at hinside
      exact hnone p hends.lt herror (by unfold Extent.Touches; omega)

/-- **Where an error is put.**  An error node touches it, which is of the syntax or of an error
before, or it becomes a child of the innermost node of the syntax around it. -/
theorem Tidy.insertError_placed (hl : Tidy P size lowered)
    (h : Grows (fun kind extent => kind = .comment ∨ kind = .error ∧ extent ∈ earlier) lowered arena)
    (hr : Rooted size arena) (hforward : range.start ≤ range.stop) (hstop : range.stop ≤ size) :
    (∃ id, id < arena.size ∧ (arena.row id).kind = .error ∧ (arena.row id).extent.Touches range ∧
      (id < lowered.size ∨ (arena.row id).extent ∈ earlier)) ∨
    ∃ p position, Inserts arena (arena.insertError range) p position .error range ∧
      lowered.Innermost range p := by
  by_cases htouch : ∃ id, id < arena.size ∧ (arena.row id).kind = .error ∧
      (arena.row id).extent.Touches range
  · obtain ⟨id, hid, hkind, htouches⟩ := htouch
    refine .inl ⟨id, hid, hkind, htouches, ?_⟩
    rcases Nat.lt_or_ge id lowered.size with hlt | hge
    · exact .inl hlt
    · rcases h.new id hge hid with hcomment | ⟨-, hearlier⟩
      · rw [hcomment] at hkind
        cases hkind
      · exact .inr hearlier
  · have hends := hr.container_root hstop
    have hnot : arena.isRepresented (arena.container range 0) range = false :=
      Bool.eq_false_iff.2 fun htrue => htouch (hr.isRepresented_touches hforward hends htrue)
    refine .inr ⟨_, arena.position (arena.container range 0) range.start, ?_,
      hl.innermost hforward (h.ends hl.toRooted hr hforward ?_ hends)⟩
    · unfold Arena.insertError
      simp only [hnot, Bool.false_eq_true, if_false]
      exact insertBelow_inserts .error range hends.lt
    · exact fun id hid hkind htouches => htouch ⟨id, hid, hkind, htouches⟩

/-- **Where one of several errors is put**, those before it and after it included. -/
theorem Tidy.insertErrors_placed {commented : Arena} {later : List Extent}
    (hl : Tidy P size lowered) (hcommented : Grows (fun kind _ => kind = .comment) lowered commented)
    (hr : Rooted size commented)
    (hranges : ∀ r ∈ earlier ++ range :: later, r.start ≤ r.stop ∧ r.stop ≤ size)
    (hgrows : Grows Q ((earlier ++ range :: later).foldl insertError commented) arena) :
    (∃ id, id < arena.size ∧ (arena.row id).kind = .error ∧ (arena.row id).extent.Touches range ∧
      (id < lowered.size ∨ (arena.row id).extent ∈ earlier)) ∨
    ∃ id p, id < arena.size ∧ (arena.row id).kind = .error ∧ (arena.row id).extent = range ∧
      (arena.row id).parent = some p ∧ lowered.Innermost range p := by
  obtain ⟨hearlier, hrest⟩ := List.forall_mem_append.1 hranges
  obtain ⟨⟨hforward, hstop⟩, hlater⟩ := List.forall_mem_cons.1 hrest
  rw [List.foldl_append, List.foldl_cons] at hgrows
  have hbefore := hr.insertErrors hearlier
  have hold : Grows (fun kind extent => kind = .comment ∨ kind = .error ∧ extent ∈ earlier) lowered
      (earlier.foldl insertError commented) :=
    (hcommented.mono fun _ _ => .inl).trans
      ((hr.insertErrors_grows hearlier).mono fun _ _ => .inr)
  have hplaced := hl.insertError_placed hold hbefore hforward hstop
  have hone : ∀ r ∈ [range], r.start ≤ r.stop ∧ r.stop ≤ size := by simp [hforward, hstop]
  have hfirst : Grows (fun _ _ => True) (earlier.foldl insertError commented)
      ((earlier.foldl insertError commented).insertError range) :=
    (hbefore.insertErrors_grows hone).mono fun _ _ _ => trivial
  have hnew : Grows (fun _ _ => True) ((earlier.foldl insertError commented).insertError range)
      arena :=
    (((hbefore.insertError hforward hstop).insertErrors_grows hlater).mono fun _ _ _ => trivial).trans
      (hgrows.mono fun _ _ _ => trivial)
  rcases hplaced with ⟨id, hid, hkind, htouches, hfrom⟩ | ⟨p, position, hinserts, hinner⟩
  · have hkept := hfirst.trans hnew
    refine .inl ⟨id, Nat.lt_of_lt_of_le hid hkept.size_le, ?_⟩
    rw [hkept.kind_eq id hid, hkept.extent_eq id hid]
    exact ⟨hkind, htouches, hfrom⟩
  · have hid : (earlier.foldl insertError commented).size <
        ((earlier.foldl insertError commented).insertError range).size := by
      rw [hinserts.size_eq]
      exact Nat.lt_succ_self _
    refine .inr ⟨_, p, Nat.lt_of_lt_of_le hid hnew.size_le, ?_⟩
    rw [hnew.kind_eq _ hid, hnew.extent_eq _ hid, hnew.parent_eq _ hid]
    exact ⟨hinserts.kind_new, hinserts.extent_new, hinserts.parent_new, hinner⟩

end

end Arena

/-! ## Trees of texts -/

namespace Tree

/-- The number of nodes of the syntax, which come before comments and errors. -/
def syntaxSize (t : Tree) : Nat := (lowerSource t.index.byte t.index.charCount t.file).size

/-- The ranges of what is wrong with the source, in bytes. -/
def errorRanges (t : Tree) : List Extent :=
  (errorExtents t.diagnostics).map (Extent.located t.index.byte)

/-- The innermost node of the syntax around a range which may hold others, or the root if there is
none. -/
structure Innermost (t : Tree) (range : Extent) (p : Nat) : Prop where
  lt : p < t.syntaxSize
  around : p = 0 ∨ ∃ node, t.node? p = some node ∧ node.kind.isLeaf = false ∧
    node.contains range = true
  inner : ∀ q node, q < t.syntaxSize → t.node? q = some node → node.kind.isLeaf = false →
    node.contains range = true → t.Descends q p

/-- What is innermost among the nodes of the syntax is so in the tree. -/
theorem innermost_of_grows {t : Tree} {lowered : Arena} {size p : Nat} {range : Extent}
    {P : NodeKind → Extent → Prop} (h : Arena.Grows P lowered t.arena)
    (hl : Arena.Rooted size lowered) (hr : Arena.Rooted size t.arena)
    (hsize : t.syntaxSize = lowered.size) (hinner : lowered.Innermost range p) :
    t.Innermost range p := by
  have hcontains : ∀ id, id < lowered.size →
      (t.arena.row id).contains range = (lowered.row id).contains range := by
    intro id hid
    unfold NodeData.contains
    rw [h.extent_eq id hid]
  refine ⟨by rw [hsize]; exact hinner.lt, hinner.around.imp_right fun haround => ?_,
    fun q node hq hnode hleaf hqr => ?_⟩
  · refine ⟨_, Arena.getElem?_eq_row (Nat.lt_of_lt_of_le hinner.lt h.size_le), ?_⟩
    rw [h.kind_eq p hinner.lt, hcontains p hinner.lt]
    exact haround
  · rw [hsize] at hq
    obtain rfl : t.arena.row q = node := Arena.row_of_getElem? hnode
    rw [h.kind_eq q hq] at hleaf
    rw [hcontains q hq] at hqr
    have hstep : ∀ a b, lowered.Child a b → b ∈ t.children a := by
      intro a b hab
      rw [children_eq]
      exact h.child hl hr hab
    exact (hinner.inner q hq hleaf hqr).lift _ hstep

/-- **Where errors are put.**  For any text and any of its errors: an error node touches the range of
the error, be it of the syntax or of an error before, or there is an error node of that very range
below the innermost node of the syntax around it. -/
theorem parse_places_errors (language : Language) (source : String) (options : Options) :
    let t := parse language source options
    ∀ (earlier : List Extent) (range : Extent) (later : List Extent),
      t.errorRanges = earlier ++ range :: later →
      (∃ e node, t.node? e = some node ∧ node.kind = .error ∧ node.extent.Touches range ∧
        (e < t.syntaxSize ∨ node.extent ∈ earlier)) ∨
      ∃ e node p, t.node? e = some node ∧ node.kind = .error ∧ node.extent = range ∧
        node.parent = some p ∧ t.Innermost range p := by
  intro t earlier range later hranges
  have hlowered := lowerSource_tidy source options.source
  obtain ⟨hcomments, hapart⟩ := commentExtents_located source options.source
  have hcommented := hlowered.insertComments_grows hcomments hapart
  have hrooted := (commentedNodes_tidy source options.source).toRooted
  have hbounds : ∀ r ∈ t.errorRanges, r.start ≤ r.stop ∧ r.stop ≤ source.utf8ByteSize :=
    errorExtents_located source options.source
  have harena : t.arena = (t.errorRanges.foldl Arena.insertError
      (commentedNodes source options.source)).propagateErrors := arena_eq language source options
  have hgrown : Arena.Grows (fun _ _ => True) (t.errorRanges.foldl Arena.insertError
      (commentedNodes source options.source)) t.arena := by
    rw [harena]
    exact Arena.propagateErrors_grows
  have hfinal : t.arena.Rooted source.utf8ByteSize := by
    rw [harena]
    exact (hrooted.insertErrors hbounds).propagateErrors
  rw [hranges] at hbounds hgrown
  have hall := ((hcommented.mono fun _ _ _ => trivial).trans
    ((hrooted.insertErrors_grows hbounds).mono fun _ _ _ => trivial)).trans hgrown
  rcases hlowered.insertErrors_placed hcommented hrooted hbounds hgrown with
    ⟨e, he, hkind, htouches, hfrom⟩ | ⟨e, p, he, hkind, hextent, hparent, hinner⟩
  · exact .inl ⟨e, _, Arena.getElem?_eq_row he, hkind, htouches, hfrom⟩
  · refine .inr ⟨e, _, p, Arena.getElem?_eq_row he, hkind, hextent, hparent, ?_⟩
    exact innermost_of_grows hall hlowered.toRooted hfinal rfl hinner

/-- The second of two lexical errors inside a call. -/
theorem parse_places_errors_in_call :
    let t := parse .current "a :: f(1 @ , 2 @ );" {}
    t.errorRanges = [⟨9, 10⟩, ⟨15, 16⟩] ∧
      ((∃ e node, t.node? e = some node ∧ node.kind = .error ∧ node.extent.Touches ⟨15, 16⟩ ∧
        (e < t.syntaxSize ∨ node.extent ∈ [Extent.mk 9 10])) ∨
      ∃ e node p, t.node? e = some node ∧ node.kind = .error ∧ node.extent = ⟨15, 16⟩ ∧
        node.parent = some p ∧ t.Innermost ⟨15, 16⟩ p) := by
  intro t
  have hranges : t.errorRanges = [⟨9, 10⟩] ++ ⟨15, 16⟩ :: [] := by decide +kernel
  exact ⟨hranges, parse_places_errors .current "a :: f(1 @ , 2 @ );" {} _ _ _ hranges⟩

/-- **An error next to another one has no node**: the error node for `@` is not of the syntax, but the
error which starts where it stops is left out for it. -/
theorem parse_hides_error :
    let t := parse .current "@x" {}
    ¬ ∀ range ∈ t.errorRanges,
      (∃ e node, t.node? e = some node ∧ node.kind = .error ∧ node.extent.Touches range ∧
        e < t.syntaxSize) ∨
      ∃ e node p, t.node? e = some node ∧ node.kind = .error ∧ node.extent = range ∧
        node.parent = some p ∧ t.Innermost range p := by
  intro t h
  have hkinds : t.arena.toList.map (fun node => (node.kind, node.extent)) =
      [(.sourceFile, ⟨0, 2⟩), (.error, ⟨0, 1⟩)] := by decide +kernel
  have hsize : t.syntaxSize = 1 := by decide +kernel
  have hmem : ∀ {e node}, t.node? e = some node →
      [(NodeKind.sourceFile, Extent.mk 0 2), (.error, ⟨0, 1⟩)][e]? = some (node.kind, node.extent) := by
    intro e node hnode
    rw [← hkinds, List.getElem?_map, Array.getElem?_toList]
    exact congrArg (Option.map _) hnode
  rcases h ⟨1, 2⟩ (by decide +kernel) with ⟨e, node, hnode, hkind, -, he⟩ | ⟨e, node, -, hnode, -,
    hextent, -, -⟩
  · obtain rfl : e = 0 := by omega
    have := hmem hnode
    simp [hkind] at this
  · have := hmem hnode
    rw [hextent] at this
    match e with
    | 0 => simp at this
    | 1 => simp at this
    | e + 2 => simp at this

end Tree

end LunSyntax
