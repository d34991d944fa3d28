import LunSyntax.Proofs.Document.Recovery
import LunSyntax.Token.Reader

/-!
# Reading tokens back

Tokens are read back from the documents they are written as, whatever chars, names and literals
they hold.  All that is asked of them is that their numbers fit in machine words, as those of
tokens do: offsets in 64 bits, and the radix of an integer in 32.

* `Token.fits`: whether the numbers of a token are such;
* `Token.recovers`: the token comes back, or has more brackets than may be opened.
-/

set_option autoImplicit false

namespace LunSyntax

open Reader

/-! ## Numbers of machine words -/

/-- Whether both ends fit in a machine word. -/
def Extent.fits (e : Extent) : Bool := e.start ≤ maxOffset && e.stop ≤ maxOffset

/-- Whether the radix fits in 32 bits. -/
def IntegerLit.fits (lit : IntegerLit) : Bool := lit.radix ≤ 0xFFFFFFFF

def StringLit.fits (lit : StringLit) : Bool := lit.parts.all (·.extent.fits)

def Literal.fits : Literal → Bool
  | integer lit => lit.fits
  | string lit => lit.fits

def TokenKind.fits : TokenKind → Bool
  | literal lit => lit.fits
  | _ => true

def Token.fits (t : Token) : Bool := t.kind.fits && t.extent.fits

/-! ## Literals -/

variable {room : Nat}

theorem Extent.recovers {e : Extent} (h : e.fits = true) :
    Recovers (Extent.read room) room e.toDocument e := by
  obtain ⟨hstart, hstop⟩ : e.start ≤ maxOffset ∧ e.stop ≤ maxOffset := by
    simpa [Extent.fits] using h
  exact (recovers_record (by simp) fun _ =>
    .next (recovers_word64 hstart) (.next (recovers_word64 hstop) .nil)).bind rfl

/-- A field which is left out when it has no value. -/
theorem awaits_optionalField {types : List Type} {fields : Fields types}
    {slots : Slots types} {written : List (String × Document)} {values : Values types}
    (key : String) (value : Option String) (h : fields.Awaits room slots written values) :
    Fields.Awaits room (.cons key (option str) (.anywhere none) fields) (none, slots)
      (optionalField key value ++ written) (value, values) := by
  cases value with
  | none => exact .absent rfl h
  | some text => exact .next ((recovers_str text).option nofun) h

theorem IntegerLit.recovers {lit : IntegerLit} (h : lit.fits = true) :
    Recovers (IntegerLit.read room) room lit.toDocument lit := by
  have hradix : lit.radix ≤ 0xFFFFFFFF := by simpa [IntegerLit.fits] using h
  have htag := fun d => awaits_optionalField "tag" lit.tag (@Fields.Awaits.nil d)
  simp only [List.append_nil] at htag
  exact (recovers_record (by simp) fun d =>
    .next (recovers_word32 hradix) (.next (recovers_str lit.digits) (htag d))).bind rfl

theorem StringPart.recovers {part : StringPart} (h : part.extent.fits = true) :
    Recovers (StringPart.read room) room part.toDocument part := by
  cases part with
  | content text extent =>
    refine recovers_variant (by simp) fun d => ⟨_, rfl, ?_⟩
    exact (recovers_record (by simp) fun _ =>
      .next (recovers_str text) (.next (Extent.recovers h) .nil)).bind rfl
  | escape raw value extent =>
    refine recovers_variant (by simp) fun d => ⟨_, rfl, ?_⟩
    exact (recovers_record (by simp) fun _ =>
      .next (recovers_str raw) (.next (recovers_char value)
        (.next (Extent.recovers h) .nil))).bind rfl

theorem StringLit.recovers {lit : StringLit} (h : lit.fits = true) :
    Recovers (StringLit.read room) room lit.toDocument lit := by
  have hparts : ∀ part ∈ lit.parts, part.extent.fits = true := by
    simpa [StringLit.fits] using h
  have hlist : ∀ d, Recovers (list (deeper d StringPart.read)) d
      (.list (lit.parts.map StringPart.toDocument)) lit.parts :=
    fun _ => recovers_list fun _ part hpart => StringPart.recovers (hparts part hpart)
  exact (recovers_record (by simp) fun d =>
    awaits_optionalField "tag" lit.tag (.next (hlist d) .nil)).bind rfl

theorem Literal.recovers {lit : Literal} (h : lit.fits = true) :
    Recovers (Literal.read room) room lit.toDocument lit := by
  cases lit with
  | integer lit =>
    exact recovers_singleton (by simp) fun _ => (IntegerLit.recovers h).map Literal.integer
  | string lit =>
    exact recovers_singleton (by simp) fun _ => (StringLit.recovers h).map Literal.string

/-! ## Tokens -/

theorem TokenKind.recovers {kind : TokenKind} (h : kind.fits = true) :
    Recovers (TokenKind.read room) room kind.toDocument kind := by
  cases kind with
  | ident name => exact recovers_variant (by decide) fun _ => ⟨_, rfl, (recovers_str name).map _⟩
  | keyword word => exact recovers_variant (by decide) fun _ => ⟨_, rfl, (recovers_str word).map _⟩
  | literal lit =>
    exact recovers_variant (by decide) fun _ => ⟨_, rfl, (Literal.recovers h).map _⟩
  | control c => exact recovers_variant (by decide) fun _ => ⟨_, rfl, (recovers_char c).map _⟩
  | digraph op => cases op <;> exact recovers_bare (by decide) rfl
  | comment text => exact recovers_variant (by decide) fun _ => ⟨_, rfl, (recovers_str text).map _⟩

/-- **A token is read back from its document.** -/
theorem Token.recovers {t : Token} (h : t.fits = true) :
    Recovers (Token.read room) room t.toDocument t := by
  obtain ⟨hkind, hextent⟩ : t.kind.fits = true ∧ t.extent.fits = true := by
    simpa [Token.fits] using h
  exact (recovers_record (by simp) fun _ =>
    .next (TokenKind.recovers hkind) (.next (Extent.recovers hextent) .nil)).bind rfl

end LunSyntax
