import Mathlib.Data.List.Chain
import LunSyntax.Proofs.Token.Lexemes
import LunSyntax.Proofs.Token.Munch

/-!
# Tokens and the chars they were read from

A listing of tokens shows the source: each token has the text under its extent, and the parts of a
string have all that is between its quotes, each the text under its own extent.

* `Tiles`: extents which make up a range, one after the other;
* `Munches.rule`: a token stands for the chars at its extent, by a rule for tokens;
* `StringBody.tile`, `StringBody.apart`: the parts of a string have all of its chars, and plain
  chars in a row are one part;
* `StringLit.WrittenAt`, `TokenRule.writtenAt`: hence a string is written at its extent;
* `lex_faithful`: all tokens of a source are written there.
-/

set_option autoImplicit false

namespace LunSyntax

/-- Extents which make up the range from an offset to `hi`, one after the other. -/
inductive Tiles (hi : Nat) : Nat → List Extent → Prop
  | nil : Tiles hi hi []
  | cons {e : Extent} {es : List Extent} :
    e.start < e.stop → Tiles hi e.stop es → Tiles hi e.start (e :: es)

/-- Whether a part of a string is plain text. -/
def StringPart.isContent : StringPart → Bool
  | content _ _ => true
  | escape _ _ _ => false

/-- A string literal as chars of a source have it under an extent, where it opens with a quote at an
offset. -/
structure StringLit.WrittenAt (chars : List Char) (extent : Extent) (opening : Nat)
    (lit : StringLit) : Prop where
  start_le : extent.start ≤ opening
  /-- before the opening quote there is the tag, or nothing -/
  tag : charsIn chars ⟨extent.start, opening⟩ = (lit.tag.getD "").toList
  untagged : lit.tag = none ↔ extent.start = opening
  opens : chars[opening]? = some '\x22'
  closes : chars[extent.stop - 1]? = some '\x22'
  /-- the parts have all between the quotes -/
  tiles : Tiles (extent.stop - 1) (opening + 1) (lit.parts.map StringPart.extent)
  parts : ∀ part ∈ lit.parts, charsIn chars part.extent = part.text.toList
  apart : lit.parts.IsChain fun a b => ¬ (a.isContent = true ∧ b.isContent = true)

/-- What a listing puts in front of a token. -/
def TokenKind.mark : TokenKind → String
  | keyword _ => "keyword "
  | _ => ""

theorem TokenKind.text_eq {kind : TokenKind} (h : kind ≠ .ident "") :
    kind.text = kind.mark ++ kind.lexeme := by
  cases kind with
  | ident name =>
    have hne : name ≠ "" := fun hname => h (by rw [hname])
    simp [text, mark, lexeme, String.isEmpty_iff, hne]
  | keyword word => rfl
  | _ => simp [text, mark]

/-! ## Tokens by their rules -/

/-- **A token stands for the chars at its extent**, by a rule for tokens. -/
theorem Munches.rule {chars cs : List Char} {offset : Nat} {tokens : List Token}
    {skipped : List Nat} (h : Munches offset cs tokens skipped) (hcs : chars.drop offset = cs) :
    ∀ t ∈ tokens, ∃ lexeme rest, chars.drop t.extent.start = lexeme ++ rest ∧
      t.extent.stop = t.extent.start + lexeme.length ∧
      TokenRule t.extent.start lexeme rest t.kind := by
  have hdrop : ∀ {offset : Nat} (lexeme : List Char) {rest : List Char},
      chars.drop offset = lexeme ++ rest → chars.drop (offset + lexeme.length) = rest := by
    intro offset lexeme rest h
    rw [← List.drop_drop, h, List.drop_left]
  induction h with
  | done => simp
  | @blank offset c rest _ _ _ _ ih => exact ih (hdrop [c] hcs)
  | @token offset c lexeme rest kind tokens _ _ hlongest _ ih =>
    refine List.forall_mem_cons.2 ⟨⟨_, _, hcs, rfl, hlongest.rule⟩, ih (hdrop _ hcs)⟩
  | @unknown offset c rest _ _ _ _ _ ih => exact ih (hdrop [c] hcs)

theorem TokenRule.ne_ident {offset : Nat} {lexeme rest : List Char} {kind : TokenKind}
    (h : TokenRule offset lexeme rest kind) : kind ≠ .ident "" := by
  rintro rfl
  generalize hname : TokenKind.ident "" = kind at h
  cases h with
  | ident hword =>
    obtain ⟨c, more, rfl, -⟩ := hword
    simp at hname
  | _ => cases hname

/-! ## Strings -/

variable {offset : Nat} {body : List Char} {parts : List StringPart}

theorem EscapeText.ne_nil {raw : List Char} {value : Char} (h : EscapeText raw value) :
    raw ≠ [] := by
  cases h <;> simp

/-- The parts of a string have all of its chars. -/
theorem StringBody.tile (h : StringBody offset body parts) : Tile offset body parts := by
  have hcons : ∀ {offset : Nat} {text body : List Char} {parts : List StringPart}
      (part : StringPart), part.text = String.ofList text → text ≠ [] →
      part.extent = ⟨offset, offset + text.length⟩ → Tile (offset + text.length) body parts →
      Tile offset (text ++ body) (part :: parts) := by
    intro offset text body parts part htext hne hextent htile
    obtain rfl : part.text.toList = text := by rw [htext, String.toList_ofList]
    exact .cons hne hextent htile
  induction h with
  | nil => exact .nil
  | escape hraw _ ih => exact hcons _ rfl hraw.ne_nil rfl ih
  | content hne _ _ _ ih => exact hcons _ rfl hne rfl ih

theorem Tile.tiles (h : Tile offset body parts) :
    Tiles (offset + body.length) offset (parts.map StringPart.extent) := by
  induction h with
  | nil => exact .nil
  | @cons offset part chars parts hne hextent _ ih =>
    have hpos := List.length_pos_iff.2 hne
    obtain ⟨hstart, hstop⟩ : part.extent.start = offset ∧
        part.extent.stop = offset + part.text.toList.length := by simp [hextent]
    rw [List.length_append, ← Nat.add_assoc, List.map_cons, ← hstop, ← hstart]
    rw [← hstop] at ih
    exact .cons (by omega) ih

/-- Plain chars in a row are one part. -/
theorem StringBody.apart (h : StringBody offset body parts) :
    parts.IsChain fun a b => ¬ (a.isContent = true ∧ b.isContent = true) := by
  induction h with
  | nil => exact .nil
  | escape _ _ ih => exact List.isChain_cons.2 ⟨by simp [StringPart.isContent], ih⟩
  | @content offset text body parts _ _ hstop hbody ih =>
    refine List.isChain_cons.2 ⟨fun part hpart => ?_, ih⟩
    cases hbody with
    | nil => cases hpart
    | escape _ _ =>
      cases hpart
      simp [StringPart.isContent]
    | content hne hplain _ _ =>
      -- the next char would be plain
      obtain ⟨c, more, rfl⟩ := List.exists_cons_of_ne_nil hne
      have hnot := hstop c rfl
      rw [hplain c (List.mem_cons_self ..)] at hnot
      cases hnot

theorem TokenRule.writtenAt {chars lexeme rest : List Char} {extent : Extent} {lit : StringLit}
    (hdrop : chars.drop extent.start = lexeme ++ rest)
    (hstop : extent.stop = extent.start + lexeme.length)
    (h : TokenRule extent.start lexeme rest (.literal (.string lit))) :
    ∃ opening, lit.WrittenAt chars extent opening := by
  generalize hkind : TokenKind.literal (.string lit) = kind at h
  cases h with
  | @string tag body rest parts hword hbody =>
    cases hkind
    have htag : ((tag.map String.ofList).getD "").toList = tag.getD [] := by
      cases tag with
      | none => rfl
      | some word => exact String.toList_ofList
    have hafter : chars.drop (extent.start + (tag.getD []).length) =
        '\x22' :: body ++ ['\x22'] ++ rest := by
      rw [← List.drop_drop, hdrop]
      simp
    have hbetween : chars.drop (extent.start + (tag.getD []).length + 1) =
        body ++ ('\x22' :: rest) := by
      rw [← List.drop_drop, hafter]
      simp
    have hlength : extent.stop - 1 = extent.start + (tag.getD []).length + 1 + body.length := by
      simp only [List.length_append, List.length_cons, List.length_nil] at hstop
      omega
    refine ⟨extent.start + (tag.getD []).length, Nat.le_add_right _ _, ?_, ?_, ?_, ?_, ?_,
      hbody.tile.charsIn hbetween, hbody.apart⟩
    · rw [htag, charsIn, hdrop]
      simp
    · cases tag with
      | none => simp
      | some word =>
        obtain ⟨c, more, rfl, -⟩ := hword word rfl
        simp
    · rw [← List.head?_drop, hafter]
      rfl
    · rw [hlength, ← List.head?_drop, ← List.drop_drop, hbetween, List.drop_left]
      rfl
    · rw [hlength]
      exact hbody.tile.tiles
  | _ => cases hkind

/-! ## Sources -/

/-- **Tokens are faithful.**  A token is listed with just the chars under its extent, keywords
marked as such.  A string has its tag before the opening quote, and its parts make up all between
the quotes, each with the chars under its own extent and no plain text beside another one. -/
theorem lex_faithful (source : String) (id : UInt16) :
    ∀ t ∈ (lex source id).1,
      t.kind.text = t.kind.mark ++ String.ofList (charsIn source.toList t.extent) ∧
      ∀ lit, t.kind = .literal (.string lit) →
        ∃ opening, lit.WrittenAt source.toList t.extent opening := by
  intro t ht
  obtain ⟨lexeme, rest, hdrop, hstop, hrule⟩ := (scan_munches 0 source.toList).rule rfl t ht
  refine ⟨?_, fun lit hlit => ?_⟩
  · rw [TokenKind.text_eq hrule.ne_ident, (lex_written source id t ht).lexeme,
      String.ofList_toList]
  · rw [hlit] at hrule
    exact hrule.writtenAt hdrop hstop

/-- A tagged string with escapes beside plain text. -/
theorem lex_faithful_string :
    let lit : StringLit := ⟨some "c", [.content "aé" ⟨2, 4⟩, .escape "\\n" '\n' ⟨4, 6⟩,
      .content "b" ⟨6, 7⟩]⟩
    let t : Token := ⟨.literal (.string lit), ⟨0, 8⟩⟩
    t ∈ (lex "c\"aé\\nb\"" 1).1 ∧ t.kind.text = "c\"aé\\nb\"" ∧
      ∃ opening, lit.WrittenAt "c\"aé\\nb\"".toList t.extent opening := by
  intro lit t
  have ht : t ∈ (lex "c\"aé\\nb\"" 1).1 := by decide +kernel
  obtain ⟨htext, hstring⟩ := lex_faithful "c\"aé\\nb\"" 1 t ht
  exact ⟨ht, htext.trans (by decide), hstring lit rfl⟩

end LunSyntax
