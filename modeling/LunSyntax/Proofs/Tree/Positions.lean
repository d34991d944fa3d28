import LunSyntax.Proofs.Grammar.Diagnostics
import LunSyntax.Proofs.Tree.Comments
import LunSyntax.Proofs.Tree.Points

/-!
# Texts and points of nodes

Each node of a tree is about some chars of its source, wherever these are in the bytes.

* `lowerSource_located`: the table of a syntax in bytes is that in chars, with all extents led to
  bytes;
* `SourceIndex.byte_valid`, `SourceIndex.utf8Bytes_extent`: the bytes of chars start and stop
  between chars, and hold just these;
* `Tree.node_about`: each node is about some chars, and the nodes after those of the syntax are
  about comments and errors;
* `Tree.parse_shows`: extent, text and points of all nodes of a text.
-/

set_option autoImplicit false

namespace LunSyntax

/-! ## Nodes in chars and in bytes -/

/-- A node of some chars as one of bytes. -/
def NodeData.located (byte : Nat → Nat) (node : NodeData) : NodeData :=
  { node with extent := node.extent.located byte }

@[simp]
theorem NodeData.located_extent (byte : Nat → Nat) (node : NodeData) :
    (node.located byte).extent = node.extent.located byte := rfl

@[simp]
theorem NodeData.located_kind (byte : Nat → Nat) (node : NodeData) :
    (node.located byte).kind = node.kind := rfl

namespace Shape

mutual

/-- A shape of some chars as one of bytes. -/
def located (byte : Nat → Nat) : Shape → Shape
  | node kind field extent children =>
    node kind field (extent.located byte) (locatedAll byte children)

/-- Shapes of some chars as those of bytes. -/
def locatedAll (byte : Nat → Nat) : List Shape → List Shape
  | [] => []
  | s :: rest => s.located byte :: locatedAll byte rest

end

variable (byte : Nat → Nat)

theorem locatedAll_eq_map (ss : List Shape) : locatedAll byte ss = ss.map (located byte) := by
  induction ss with
  | nil => rfl
  | cons s rest ih => rw [locatedAll, ih, List.map_cons]

@[simp]
theorem located_covering (kind : NodeKind) (field : Option Field) (start stop : Nat)
    (children : List Shape) :
    (covering (fun c => c) kind field start stop children).located byte =
      covering byte kind field start stop (children.map (located byte)) := by
  rw [covering, located, locatedAll_eq_map]
  rfl

@[simp]
theorem located_ofSpan (kind : NodeKind) (field : Option Field) (span : Span)
    (children : List Shape) :
    (ofSpan (fun c => c) kind field span children).located byte =
      ofSpan byte kind field span (children.map (located byte)) :=
  located_covering byte kind field span.start span.stop children

end Shape

section

variable (byte : Nat → Nat)

@[simp]
theorem Ident.shape_located (field : Field) (name : Ident) :
    (name.shape (fun c => c) field).located byte = name.shape byte field := by
  simp [Ident.shape]

@[simp]
theorem StringPart.shape_located (part : StringPart) :
    (part.shape (fun c => c)).located byte = part.shape byte := by
  cases part <;> simp [StringPart.shape]

@[simp]
theorem Literal.shape_located (span : Span) (lit : Literal) :
    (lit.shape (fun c => c) span).located byte = lit.shape byte span := by
  cases lit with
  | integer lit => simp [Literal.shape]
  | string lit => cases htag : lit.tag <;> simp [Literal.shape, htag, Function.comp_def]

@[simp]
theorem Path.shape_located (span : Span) (p : Path) :
    (p.shape (fun c => c) span).located byte = p.shape byte span := by
  cases hroot : p.root <;> simp [Path.shape, hroot, Function.comp_def]

mutual

theorem Expr.shape_located (field : Option Field) : ∀ e : Expr,
    (e.shape (fun c => c) field).located byte = e.shape byte field
  | ⟨form, span⟩ => by
    rw [Expr.shape, Expr.shape]
    exact ExprKind.shape_located field span form

/-- The node of a form of expression, first in chars and then in bytes. -/
theorem ExprKind.shape_located (field : Option Field) (span : Span) : ∀ form : ExprKind,
    (form.shape (fun c => c) field span).located byte = form.shape byte field span
  | .bool value => by simp [ExprKind.shape]
  | .null => by simp [ExprKind.shape]
  | .error => by simp [ExprKind.shape]
  | .literal lit => by simp [ExprKind.shape]
  | .path path => by simp [ExprKind.shape]
  | .paren inner => by simp [ExprKind.shape, inner.shape_located]
  | .binary lhs op rhs => by simp [ExprKind.shape, lhs.shape_located, rhs.shape_located]
  | .assign lhs rhs => by simp [ExprKind.shape, lhs.shape_located, rhs.shape_located]
  | .unary op operand => by simp [ExprKind.shape, operand.shape_located]
  | .deref operand => by simp [ExprKind.shape, operand.shape_located]
  | .borrow none operand => by simp [ExprKind.shape, operand.shape_located]
  | .borrow (some mutSpan) operand => by simp [ExprKind.shape, operand.shape_located]
  | .call callee args => by simp [ExprKind.shape, callee.shape_located, args.shape_located]
  | .field base name => by simp [ExprKind.shape, base.shape_located]
  | .conditional cond consequent alternative => by
    simp [ExprKind.shape, cond.shape_located, consequent.shape_located,
      alternativeShapes_located alternative]
  | .ret value => by simp [ExprKind.shape, optionShapes_located none value]
  | .brk label value => by
    cases label <;> simp [ExprKind.shape, optionShapes_located none value]
  | .cont label => by cases label <;> simp [ExprKind.shape]
  | .block body => by simp [ExprKind.shape, body.shape_located]
  | .whileLoop cond body => by simp [ExprKind.shape, cond.shape_located, body.shape_located]
  | .forLoop var iterator body => by
    simp [ExprKind.shape, iterator.shape_located, body.shape_located]
  | .loop body => by simp [ExprKind.shape, body.shape_located]
  | .labeled label ⟨form, inner⟩ => by
    have hinner := Expr.shape_located none ⟨form, inner⟩
    cases form with
    | block body =>
      rw [ExprKind.shape, ExprKind.shape]
      simp [body.shape_located]
    | _ =>
      rw [ExprKind.shape, ExprKind.shape]
      · simp [hinner]
      · simp
      · simp

theorem Arguments.shape_located : ∀ args : Arguments,
    (args.shape (fun c => c)).located byte = args.shape byte
  | ⟨args, span⟩ => by simp [Arguments.shape, exprShapes_located args]

theorem alternativeShapes_located : ∀ alternative : Option Alternative,
    (alternativeShapes (fun c => c) alternative).map (Shape.located byte) =
      alternativeShapes byte alternative
  | none => by simp [alternativeShapes]
  | some (.chain conditional) => by simp [alternativeShapes, conditional.shape_located]
  | some (.block body) => by simp [alternativeShapes, body.shape_located]

theorem Block.shape_located (field : Option Field) : ∀ b : Block,
    (b.shape (fun c => c) field).located byte = b.shape byte field
  | ⟨stmts, lastExpr, span⟩ => by
    simp [Block.shape, stmtShapes_located stmts, optionShapes_located (some .lastExpr) lastExpr]

theorem optionShapes_located (field : Option Field) : ∀ value : Option Expr,
    (optionShapes (fun c => c) field value).map (Shape.located byte) =
      optionShapes byte field value
  | none => by simp [optionShapes]
  | some e => by simp [optionShapes, e.shape_located]

theorem exprShapes_located : ∀ es : List Expr,
    (exprShapes (fun c => c) es).map (Shape.located byte) = exprShapes byte es
  | [] => by simp [exprShapes]
  | e :: rest => by simp [exprShapes, e.shape_located, exprShapes_located rest]

theorem stmtShapes_located : ∀ stmts : List Stmt,
    (stmtShapes (fun c => c) stmts).map (Shape.located byte) = stmtShapes byte stmts
  | [] => by simp [stmtShapes]
  | ⟨e, _⟩ :: rest => by simp [stmtShapes, e.shape_located, stmtShapes_located rest]

end

@[simp]
theorem Item.shape_located (item : Item) :
    (item.shape (fun c => c)).located byte = item.shape byte := by
  have hvalue := item.definition.value.shape_located byte (some .value)
  cases htype : item.definition.type with
  | none => simp [Item.shape, htype, hvalue]
  | some type =>
    cases type with
    | primitive type => simp [Item.shape, htype, hvalue, TypeExpr.shape]
    | expr e => simp [Item.shape, htype, hvalue, TypeExpr.shape, e.shape_located]

theorem sourceShape_located (chars : Nat) (file : Option SourceFile) :
    (sourceShape (fun c => c) chars file).located byte = sourceShape byte chars file := by
  cases file with
  | none => simp [sourceShape]
  | some file => simp [sourceShape, Function.comp_def]

end

namespace Arena

variable (byte : Nat → Nat)

theorem place_located (arena : Arena) (parent : Option Nat) (kind : NodeKind)
    (field : Option Field) (extent : Extent) :
    place (arena.map (NodeData.located byte)) parent kind field (extent.located byte) =
      (place arena parent kind field extent).map (NodeData.located byte) := by
  have hadded :
      addNode (arena.map (NodeData.located byte)) parent kind field (extent.located byte) =
        (addNode arena parent kind field extent).map (NodeData.located byte) := by
    simp [addNode, NodeData.located]
  cases parent with
  | none => exact hadded
  | some p =>
    unfold place
    dsimp only
    rw [hadded, Array.size_map]
    apply Array.ext_getElem?
    intro i
    simp only [Array.getElem?_map, Array.getElem?_modify]
    split
    · simp [NodeData.located, Function.comp_def]
    · rfl

mutual

theorem graft_located : ∀ (s : Shape) (arena : Arena) (parent : Option Nat),
    graft (arena.map (NodeData.located byte)) parent (s.located byte) =
      (graft arena parent s).map (NodeData.located byte)
  | .node kind field extent children, arena, parent => by
    rw [Shape.located, graft, graft, place_located, Array.size_map]
    exact graftAll_located children _ _

theorem graftAll_located : ∀ (ss : List Shape) (arena : Arena) (parent : Nat),
    graftAll (arena.map (NodeData.located byte)) parent (Shape.locatedAll byte ss) =
      (graftAll arena parent ss).map (NodeData.located byte)
  | [], arena, parent => by rw [Shape.locatedAll, graftAll, graftAll]
  | s :: rest, arena, parent => by
    rw [Shape.locatedAll, graftAll, graftAll, graft_located s]
    exact graftAll_located rest _ _

end

end Arena

/-- **The table of a syntax in bytes is that in chars**, with all extents led to bytes. -/
theorem lowerSource_located (byte : Nat → Nat) (chars : Nat) (file : Option SourceFile) :
    lowerSource byte chars file =
      (lowerSource (fun c => c) chars file).map (NodeData.located byte) := by
  rw [lowerSource_eq, lowerSource_eq, ← sourceShape_located byte, ← Arena.graft_located,
    Array.map_empty]

/-! ## Bytes of chars -/

namespace SourceIndex

variable (source : String)

/-- The bytes of chars start and stop between chars. -/
theorem byte_valid (i : Nat) : (⟨(ofSource source).byte i⟩ : String.Pos.Raw).IsValid source := by
  refine String.Pos.Raw.isValid_iff_exists_append.2
    ⟨String.ofList (source.toList.take i), String.ofList (source.toList.drop i), ?_, ?_⟩
  · rw [← String.ofList_append, List.take_append_drop, String.ofList_toList]
  · rw [byte_eq]
    rfl

/-- Between the first bytes of two chars there are the bytes of the chars from one to the other. -/
theorem utf8Bytes_extent {e : Extent} (h : e.start ≤ e.stop) :
    ((utf8Bytes source.toList).drop ((ofSource source).byte e.start)).take
        ((ofSource source).byte e.stop - (ofSource source).byte e.start) =
      utf8Bytes (charsIn source.toList e) := by
  have hstop : source.toList.take e.stop =
      source.toList.take e.start ++ charsIn source.toList e := by
    rw [charsIn, ← List.take_add, Nat.add_sub_cancel' h]
  have hall : utf8Bytes source.toList = utf8Bytes (source.toList.take e.start) ++
      (utf8Bytes (charsIn source.toList e) ++ utf8Bytes (source.toList.drop e.stop)) := by
    rw [← List.append_assoc, ← utf8Bytes_append, ← utf8Bytes_append, ← hstop,
      List.take_append_drop]
  rw [byte_eq, byte_eq, hstop, bytesOf_append, Nat.add_sub_cancel_left, bytesOf_eq, bytesOf_eq,
    hall, List.drop_left, List.take_left]

end SourceIndex

/-! ## Nodes of a text -/

namespace Arena

/-- No node stops after the end. -/
theorem Rooted.stop_le {size : Nat} {arena : Arena} (h : Rooted size arena) (id : Nat)
    (hid : id < arena.size) : (arena.row id).extent.stop ≤ size := by
  induction id using Nat.strongRecOn with
  | ind id ih =>
    rcases Nat.eq_zero_or_pos id with rfl | hpos
    · rw [h.root_extent]
    · obtain ⟨p, hp, -, hinside⟩ := h.parent id hpos hid
      exact Nat.le_trans hinside.2 (ih p hp (by omega))

theorem row_located {byte : Nat → Nat} {arena : Arena} {id : Nat} (h : id < arena.size) :
    row (arena.map (NodeData.located byte)) id = (arena.row id).located byte := by
  apply row_of_getElem?
  rw [Array.getElem?_map, getElem?_eq_row h]
  rfl

end Arena

namespace Tree

/-- The syntax of a text as a table in chars. -/
def charNodes (t : Tree) : Arena := lowerSource (fun c => c) t.source.length t.file

theorem charNodes_rooted (language : Language) (source : String) (options : Options) :
    (parse language source options).charNodes.Rooted source.length := by
  obtain ⟨file, hfile, hspan, hsettled⟩ := parse_settled source options.source
  have hfits : (sourceShape (fun c => c) source.length (some file)).FitsAmong (fun c => c)
      (commentExtents (LunSyntax.parse source options.source).tokens) :=
    (sourceShape_renders hspan).fits monotone_id hsettled
  unfold charNodes
  rw [lowerSource_eq, show (parse language source options).file = some file from hfile]
  exact (Arena.tidy_graft hfits).toRooted

/-- The table of the syntax in bytes has the same nodes. -/
theorem lowerSource_chars (language : Language) (source : String) (options : Options) :
    let t := parse language source options
    lowerSource t.index.byte t.index.charCount t.file =
      t.charNodes.map (NodeData.located t.index.byte) := by
  intro t
  rw [lowerSource_located, charNodes, show t.index.charCount = t.source.length from
    SourceIndex.charCount_eq source]

/-- A node of the syntax is where it is in the table in chars. -/
theorem syntaxNode_row (language : Language) (source : String) (options : Options) :
    let t := parse language source options
    ∀ id, id < t.syntaxSize → id < t.charNodes.size ∧
      (t.arena.row id).kind = (t.charNodes.row id).kind ∧
      (t.arena.row id).extent = (t.charNodes.row id).extent.located t.index.byte := by
  intro t id hid
  obtain ⟨hbounds, hapart⟩ := commentExtents_located source options.source
  have hcommented := (lowerSource_tidy source options.source).insertComments_grows hbounds hapart
  have hgrows := (arena_grows language source options).1
  have hkept := (hcommented.mono (Q := fun _ _ => True) fun _ _ _ => trivial).trans
    (hgrows.mono fun _ _ _ => trivial)
  have hlowered := lowerSource_chars language source options
  have hchars : id < t.charNodes.size := by
    rwa [← Array.size_map (f := NodeData.located t.index.byte), ← hlowered]
  rw [hkept.extent_eq id hid, hkept.kind_eq id hid,
    show lowerSource (SourceIndex.ofSource source).byte (SourceIndex.ofSource source).charCount
      (LunSyntax.parse source options.source).file = _ from hlowered, Arena.row_located hchars,
    NodeData.located_extent, NodeData.located_kind]
  exact ⟨hchars, rfl, rfl⟩

/-- Where a node is in its source, in chars: a node of the syntax has this from its span, all others
from a comment or an error. -/
structure About (t : Tree) (id : Nat) (node : NodeData) (e : Extent) : Prop where
  forward : e.start ≤ e.stop
  stop_le : e.stop ≤ t.source.length
  located : node.extent = e.located t.index.byte
  syntactic : id < t.syntaxSize → ∃ row, t.charNodes[id]? = some row ∧ row.kind = node.kind ∧
    row.extent = e
  added : t.syntaxSize ≤ id → e ∈ commentExtents (lex t.source t.options.source).1 ∨
    e ∈ errorExtents t.diagnostics

/-- What is wrong with a text is within it. -/
theorem errorExtents_bounds (text : String) (id : UInt16) :
    ∀ e ∈ errorExtents (LunSyntax.parse text id).diagnostics,
      e.start ≤ e.stop ∧ e.stop ≤ text.length := by
  intro e he
  obtain ⟨d, hd, hspan⟩ := List.mem_filterMap.1 he
  obtain ⟨span, hspan', -, hforward, hstop⟩ := parse_bounded text id d hd
  rw [hspan'] at hspan
  cases hspan
  exact ⟨hforward, hstop⟩

/-- The nodes after those of the syntax and the comments have the ranges of errors. -/
theorem errorNodes_range (language : Language) (source : String) (options : Options) :
    let t := parse language source options
    ∀ id, (commentedNodes source options.source).size ≤ id → id < t.arena.size →
      (t.arena.row id).extent ∈ t.errorRanges := by
  intro t id hge hlt
  have hrooted := (commentedNodes_tidy source options.source).toRooted
  have herrors : Arena.Grows (fun kind extent => kind = .error ∧ extent ∈ t.errorRanges)
      (commentedNodes source options.source) t.arena := by
    rw [show t.arena = (unmarkedNodes source options.source).propagateErrors from
      arena_eq language source options]
    apply Arena.Grows.trans ?_ Arena.propagateErrors_grows
    exact hrooted.insertErrors_grows (errorExtents_located source options.source)
  exact (herrors.new id hge hlt).2

/-- Each node is about some chars of its source. -/
theorem node_about (language : Language) (source : String) (options : Options) :
    let t := parse language source options
    ∀ id, id < t.arena.size → ∃ e, t.About id (t.arena.row id) e := by
  intro t id hid
  have hsize : (commentedNodes source options.source).size =
      t.syntaxSize + (commentRanges source options.source).length :=
    Arena.insertComments_size _ _
  rcases Nat.lt_or_ge id t.syntaxSize with hsyntax | hadded
  · -- a node of the syntax
    obtain ⟨hchars, hkind, hextent⟩ := syntaxNode_row language source options id hsyntax
    have hrooted : t.charNodes.Rooted source.length := charNodes_rooted language source options
    exact ⟨(t.charNodes.row id).extent, hrooted.forward id, hrooted.stop_le id hchars, hextent,
      fun _ => ⟨_, Arena.getElem?_eq_row hchars, hkind.symm, rfl⟩,
      fun hle => absurd hle (Nat.not_le.2 hsyntax)⟩
  have hnot : ¬ id < t.syntaxSize := Nat.not_lt.2 hadded
  rcases Nat.lt_or_ge id (commentedNodes source options.source).size with hcomment | herror
  · -- a comment
    obtain ⟨i, rfl⟩ := Nat.exists_eq_add_of_le hadded
    have hi : i < (commentRanges source options.source).length := by omega
    obtain ⟨c, hc, hrange⟩ := List.mem_map.1 (List.getElem_mem hi)
    obtain ⟨p, -, -, hextent, -⟩ := comment_placed language source options i _
      (List.getElem?_eq_getElem hi)
    obtain ⟨hlt, hle⟩ := (commentExtents_apart source options.source).1 c hc
    exact ⟨c, Nat.le_of_lt hlt, hle, hextent.trans hrange.symm, fun h => absurd h hnot,
      fun _ => .inl hc⟩
  · -- an error
    obtain ⟨e, he, hrange⟩ :=
      List.mem_map.1 (errorNodes_range language source options id herror hid)
    obtain ⟨hforward, hstop⟩ := errorExtents_bounds source options.source e he
    exact ⟨e, hforward, hstop, hrange.symm, fun h => absurd h hnot, fun _ => .inr he⟩

/-- What a host sees of a node which is about some chars of the source. -/
structure Shows (t : Tree) (id : Nat) (node : NodeData) (e : Extent) : Prop where
  forward : node.extent.start ≤ node.extent.stop
  stop_le : node.extent.stop ≤ t.source.utf8ByteSize
  start_valid : (⟨node.extent.start⟩ : String.Pos.Raw).IsValid t.source
  stop_valid : (⟨node.extent.stop⟩ : String.Pos.Raw).IsValid t.source
  /-- the bytes of the node are the chars it is about -/
  text : (t.bytesIn? id t.source.toUTF8.toList).map decodeUtf8 =
    some (.ok (String.ofList (charsIn t.source.toList e)))
  /-- the points count the new-line bytes before them, and the bytes since the last of these -/
  start_point : t.index.point node.extent.start =
    pointAfter (t.source.toUTF8.toList.take node.extent.start)
  stop_point : t.index.point node.extent.stop =
    pointAfter (t.source.toUTF8.toList.take node.extent.stop)

/-- **Texts and points of nodes.**  Each node of any text is about some chars, those of its span if
it is of the syntax and those of a comment or an error if not.  Its bytes start and stop between
chars and are just these chars; its points tell how many new-line bytes there are before them, and
how many bytes since the last one or the start.  The row of a point never starts after it. -/
theorem parse_shows (language : Language) (source : String) (options : Options) :
    let t := parse language source options
    (∀ id node, t.node? id = some node → ∃ e, t.About id node e ∧ t.Shows id node e) ∧
      ∀ b, ∃ start, t.index.rowStarts[(t.index.point b).row]? = some start ∧
        start + (t.index.point b).column = b := by
  intro t
  refine ⟨fun id node hnode => ?_, SourceIndex.point_start source⟩
  obtain rfl : t.arena.row id = node := Arena.row_of_getElem? hnode
  obtain ⟨e, habout⟩ := node_about language source options id (Array.getElem?_eq_some_iff.1 hnode).1
  refine ⟨e, habout, ?_⟩
  have hextent : (t.arena.row id).extent = e.located (SourceIndex.ofSource source).byte :=
    habout.located
  have hforward : (t.arena.row id).extent.start ≤ (t.arena.row id).extent.stop := by
    rw [hextent]
    exact SourceIndex.byte_mono source habout.forward
  have hstop : (t.arena.row id).extent.stop ≤ source.utf8ByteSize := by
    rw [hextent]
    exact SourceIndex.byte_le source e.stop
  have hbytes : t.bytesIn? id t.source.toUTF8.toList =
      some (utf8Bytes (charsIn source.toList e)) := by
    unfold bytesIn?
    rw [hnode, toList_toUTF8]
    simp only [Option.bind_eq_bind, Option.bind_some]
    rw [if_pos ⟨hforward, by rw [← utf8ByteSize_eq]; exact hstop⟩, hextent]
    exact congrArg some (SourceIndex.utf8Bytes_extent source habout.forward)
  refine ⟨hforward, hstop, ?_, ?_, ?_, ?_, ?_⟩
  · rw [hextent]
    exact SourceIndex.byte_valid source e.start
  · rw [hextent]
    exact SourceIndex.byte_valid source e.stop
  · rw [hbytes, Option.map_some, decodeUtf8_utf8Bytes]
    rfl
  · rw [toList_toUTF8]
    exact SourceIndex.point_eq source (Nat.le_trans hforward hstop)
  · rw [toList_toUTF8]
    exact SourceIndex.point_eq source hstop

/-- A comment over two lines, with chars of two bytes in it and before it, and with an error after
it. -/
theorem parse_shows_comment :
    let t := parse .current "a :: f(\n\"ü\", /* é\n */ @);" {}
    ∃ node e, t.node? 11 = some node ∧ node.kind = .comment ∧ node.extent = ⟨14, 23⟩ ∧
      t.About 11 node e ∧ t.Shows 11 node e := by
  intro t
  have hnode : (t.node? 11).map (fun node => (node.kind, node.extent)) =
      some (.comment, ⟨14, 23⟩) := by decide +kernel
  obtain ⟨node, hnode, hparts⟩ := Option.map_eq_some_iff.1 hnode
  obtain ⟨e, habout, hshows⟩ :=
    (parse_shows .current "a :: f(\n\"ü\", /* é\n */ @);" {}).1 11 node hnode
  exact ⟨node, e, hnode, congrArg Prod.fst hparts, congrArg Prod.snd hparts, habout, hshows⟩

end Tree

end LunSyntax
