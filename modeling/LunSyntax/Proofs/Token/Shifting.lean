import LunSyntax.Proofs.Token.Accounting

/-!
# Texts further on

A text which stands further on in a source has the same tokens and faults there, further on.

* `Extent.shift`, and one function of this name for each thing that holds places;
* `scanToken_shift`, `scan_shift`: the lexer commutes with it;
* `joinRuns_shift`, `toDiagnostic_shift`: so do its reports.
-/

set_option autoImplicit false

namespace LunSyntax

variable (k : Nat)

/-! ## Places moved on -/

/-- An extent, moved on by a number of chars. -/
def Extent.shift (e : Extent) : Extent := ⟨e.start + k, e.stop + k⟩

def Span.shift (s : Span) : Span := { s with start := s.start + k, stop := s.stop + k }

def StringPart.shift : StringPart → StringPart
  | content text extent => content text (extent.shift k)
  | escape raw value extent => escape raw value (extent.shift k)

/-- A literal, moved on: the parts of a string are. -/
def Literal.shift : Literal → Literal
  | integer lit => integer lit
  | string lit => string { lit with parts := lit.parts.map (StringPart.shift k) }

def TokenKind.shift : TokenKind → TokenKind
  | literal lit => literal (lit.shift k)
  | kind => kind

/-- A token, moved on with all in it. -/
def Token.shift (t : Token) : Token := ⟨t.kind.shift k, t.extent.shift k⟩

def LexicalFault.shift : LexicalFault → LexicalFault
  | unexpected extent => unexpected (extent.shift k)
  | invalidCodePoint extent => invalidCodePoint (extent.shift k)
  | unterminatedComment extent => unterminatedComment (extent.shift k)

/-- A match, moved on: the places in its kind and its faults are. -/
def Match.shift (m : Match) : Match :=
  ⟨m.kind.shift k, m.length, m.faults.map (LexicalFault.shift k)⟩

def Diagnostic.shift (d : Diagnostic) : Diagnostic := { d with span := d.span.map (Span.shift k) }

@[simp] theorem TokenKind.shift_isComment (kind : TokenKind) :
    (kind.shift k).isComment = kind.isComment := by
  cases kind <;> rfl

/-! ## Rules -/

theorem scanComment_shift (offset : Nat) (cs : List Char) :
    scanComment (offset + k) cs = (scanComment offset cs).map (Match.shift k) := by
  unfold scanComment
  split
  · rfl
  · split
    · rfl
    · simp [Match.shift, TokenKind.shift, LexicalFault.shift, Extent.shift, Nat.add_right_comm]
  · rfl

theorem placePieces_shift (offset : Nat) (found : List Piece) :
    placePieces (offset + k) found = (placePieces offset found).map (StringPart.shift k) := by
  fun_induction placePieces offset found with
  | case1 offset => rfl
  | case2 offset text rest stop ih =>
    rw [placePieces, List.map_cons, ← ih, Nat.add_right_comm offset k]
    rfl
  | case3 offset raw value rest stop ih =>
    rw [placePieces, List.map_cons, ← ih, Nat.add_right_comm offset k]
    rfl

theorem pieceFaults_shift (offset : Nat) (found : List Piece) :
    pieceFaults (offset + k) found = (pieceFaults offset found).map (LexicalFault.shift k) := by
  fun_induction pieceFaults offset found with
  | case1 offset => rfl
  | case2 offset raw rest ih =>
    rw [pieceFaults, List.map_cons, ← ih, Nat.add_right_comm offset k, Nat.add_right_comm offset k]
    rfl
  | case3 offset piece rest hne ih =>
    rw [pieceFaults, ← ih, Nat.add_right_comm offset k]
    exact hne

theorem scanString_shift (offset : Nat) (cs : List Char) :
    scanString (offset + k) cs = (scanString offset cs).map (Match.shift k) := by
  unfold scanString
  dsimp only
  split
  · split
    · rw [show offset + k + ((word? cs).getD []).length + 1 =
        offset + ((word? cs).getD []).length + 1 + k by omega, placePieces_shift,
        pieceFaults_shift]
      rfl
    · rfl
  · rfl

theorem scanDigraph_shift (cs : List Char) :
    (scanDigraph cs).map (Match.shift k) = scanDigraph cs := by
  unfold scanDigraph
  split
  · rw [Option.map_map]
    rfl
  · rfl

theorem scanInteger_shift (cs : List Char) :
    (scanInteger cs).map (Match.shift k) = scanInteger cs := by
  unfold scanInteger
  rw [Option.map_map]
  rfl

theorem scanControl_shift (cs : List Char) :
    (scanControl cs).map (Match.shift k) = scanControl cs := by
  unfold scanControl
  split
  · split <;> rfl
  · rfl

theorem scanWord_shift (cs : List Char) :
    (scanWord cs).map (Match.shift k) = scanWord cs := by
  unfold scanWord
  rw [Option.map_map]
  congr 1
  funext chars
  by_cases hkeyword : isKeyword (String.ofList chars) = true <;>
    simp [hkeyword, Match.shift, TokenKind.shift]

/-- **A token further on is the same token, moved on.** -/
theorem scanToken_shift (offset : Nat) (cs : List Char) :
    scanToken (offset + k) cs = (scanToken offset cs).map (Match.shift k) := by
  simp only [scanToken, Option.orElse_eq_orElse, Option.orElse_eq_or, Option.map_or,
    scanComment_shift, scanDigraph_shift, scanString_shift, scanInteger_shift, scanControl_shift,
    scanWord_shift]

/-! ## Sources -/

/-- **A text further on has the same tokens and faults, moved on.** -/
theorem scan_shift (offset : Nat) (cs : List Char) :
    (scan (offset + k) cs).tokens = (scan offset cs).tokens.map (Token.shift k) ∧
      (scan (offset + k) cs).faults = (scan offset cs).faults.map (LexicalFault.shift k) := by
  fun_induction scan offset cs with
  | case1 offset =>
    rw [scan]
    exact ⟨rfl, rfl⟩
  | case2 offset c rest hblank ih =>
    rw [scan, if_pos hblank, Nat.add_right_comm offset k]
    exact ih
  | case3 offset c rest hblank m hm after ih =>
    rw [scan, if_neg hblank, scanToken_shift, hm]
    dsimp only [Option.map_some, Match.shift]
    rw [Nat.add_right_comm offset k, ih.1, ih.2, List.map_cons, List.map_append]
    exact ⟨rfl, rfl⟩
  | case4 offset c rest hblank hm after ih =>
    rw [scan, if_neg hblank, scanToken_shift, hm]
    dsimp only [Option.map_none]
    rw [Nat.add_right_comm offset k, ih.1, ih.2, List.map_cons]
    exact ⟨rfl, rfl⟩

theorem joinRuns_shift (faults : List LexicalFault) :
    joinRuns (faults.map (LexicalFault.shift k)) = (joinRuns faults).map (LexicalFault.shift k) := by
  fun_induction joinRuns faults with
  | case1 a rest b more hrest hjoin ih =>
    rw [hrest] at ih
    rw [List.map_cons, LexicalFault.shift, joinRuns, ih]
    simp [LexicalFault.shift, Extent.shift, hjoin]
  | case2 a rest b more hrest hjoin ih =>
    rw [hrest] at ih
    rw [List.map_cons, LexicalFault.shift, joinRuns, ih]
    simp [LexicalFault.shift, Extent.shift, hjoin]
  | case3 a rest hne ih =>
    rw [List.map_cons, LexicalFault.shift, joinRuns, ih]
    cases hrest : joinRuns rest with
    | nil => rfl
    | cons fault more =>
      cases fault with
      | unexpected b => exact absurd hrest (hne b more)
      | invalidCodePoint e => rfl
      | unterminatedComment e => rfl
  | case4 fault rest hne ih =>
    rw [List.map_cons, joinRuns, ih, List.map_cons]
    intro a ha
    cases fault with
    | unexpected b => exact hne b rfl
    | invalidCodePoint e => cases ha
    | unterminatedComment e => cases ha
  | case5 => rfl

/-- The chars of what stands further on are the same ones. -/
theorem charsIn_shift (front chars : List Char) (e : Extent) :
    charsIn (front ++ chars) (e.shift front.length) = charsIn chars e := by
  unfold charsIn Extent.shift
  dsimp only
  rw [Nat.add_sub_add_right, Nat.add_comm e.start, List.drop_length_add_append]

/-- **The diagnostic of a fault further on says the same**, of a place further on. -/
theorem toDiagnostic_shift (front chars : List Char) (id : UInt16) (fault : LexicalFault) :
    (fault.shift front.length).toDiagnostic (front ++ chars) id =
      (fault.toDiagnostic chars id).shift front.length := by
  cases fault with
  | unexpected extent =>
    rw [LexicalFault.shift, LexicalFault.toDiagnostic, charsIn_shift]
    rfl
  | invalidCodePoint extent => rfl
  | unterminatedComment extent => rfl

end LunSyntax
