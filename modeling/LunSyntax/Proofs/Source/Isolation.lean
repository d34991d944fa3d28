import LunSyntax.Proofs.Grammar.Diagnostics
import LunSyntax.Proofs.Grammar.Totality

/-!
# Sources do not interfere

A source of a project is parsed by itself: what comes out depends on its number, its path and its
content, and on nothing else that the project has.

* `SourceTree.AgreeAt`: a number leads to the same path and content in two projects;
* `Message.compose?_agree`: messages about that source are composed alike;
* `SourceTree.parse_isolated`: the source is parsed alike.
-/

set_option autoImplicit false

namespace LunSyntax

/-- A number leads to the same path in two projects, if to any, and the path to the same source, if
to any.  The paths are the same text: that they lead to the same file, as `samePath` says, would not
do, since the display quotes the path. -/
structure SourceTree.AgreeAt (t t' : SourceTree) (id : UInt16) : Prop where
  path_eq : t.path? id = t'.path? id
  content_eq : ∀ path, t.path? id = some path → t.content? path = t'.content? path

section

variable {t t' : SourceTree} {id : UInt16} {colored : Bool}

theorem SourceTree.AgreeAt.source_eq (h : t.AgreeAt t' id) :
    (t.path? id).bind t.content? = (t'.path? id).bind t'.content? := by
  rw [← h.path_eq]
  cases hpath : t.path? id with
  | none => rfl
  | some path => exact h.content_eq path hpath

/-- A message is composed with the source of its span only. -/
theorem Message.compose?_agree {m : Message}
    (h : ∀ span, m.span = some span → t.AgreeAt t' span.source) :
    m.compose? t colored = m.compose? t' colored := by
  unfold Message.compose?
  cases hspan : m.span with
  | none => rfl
  | some span =>
    have hagree := h span hspan
    cases hpath : t.path? span.source with
    | none =>
      have hpath' := hagree.path_eq.symm.trans hpath
      simp only [hpath, hpath', Option.bind_eq_bind, Option.bind_some, Option.bind_none]
    | some path =>
      have hpath' := hagree.path_eq.symm.trans hpath
      have hcontent := hagree.content_eq path hpath
      simp only [hpath, hpath', hcontent, Option.bind_eq_bind, Option.bind_some]

/-- Messages are composed with the sources of their spans only. -/
theorem composeDiagnostics_agree {diagnostics : List Diagnostic}
    (h : ∀ d ∈ diagnostics, ∀ span, d.span = some span → t.AgreeAt t' span.source) :
    composeDiagnostics t colored diagnostics = composeDiagnostics t' colored diagnostics := by
  have hmessages : composeMessages? t colored (diagnostics.map Message.ofDiagnostic) =
      composeMessages? t' colored (diagnostics.map Message.ofDiagnostic) := by
    unfold composeMessages?
    induction diagnostics with
    | nil => rfl
    | cons d rest ih =>
      obtain ⟨hd, hrest⟩ := List.forall_mem_cons.1 h
      rw [List.map_cons, List.mapM_cons, List.mapM_cons, Message.compose?_agree hd, ih hrest]
  unfold composeDiagnostics
  dsimp only
  rw [hmessages]

end

namespace SourceTree

/-- **Sources do not interfere.**  Where a number leads to the same path and source in two projects,
if to any, the source is parsed alike: to the same syntax or to the same messages, with their spans,
locations and displays.  All else may be different: other sources and numbers, and the root. -/
theorem parse_isolated (t t' : SourceTree) (id : UInt16) (colored : Bool) (h : t.AgreeAt t' id) :
    t.parse id colored = t'.parse id colored := by
  unfold SourceTree.parse
  rw [← h.source_eq]
  cases (t.path? id).bind t.content? with
  | none => rfl
  | some source =>
    obtain ⟨file, hfile, -⟩ := parseTokens_eq_some (lex source id).1 id
    dsimp only
    rw [parseStrict_eq (parse_file hfile)]
    split
    · rfl
    · -- all that is reported is about the parsed source, so nothing else is looked up
      refine congrArg Except.error (composeDiagnostics_agree fun d hd span hspan => ?_)
      obtain ⟨span', hspan', hid, -⟩ := parse_bounded source id d hd
      obtain rfl : span' = span := Option.some.inj (hspan'.symm.trans hspan)
      rwa [hid]

/-- An unfinished source among others in one project, and alone in another, which has lost the
source of a number that only it has. -/
theorem parse_isolated_unfinished :
    let t : SourceTree :=
      ⟨some "lib", [("a.lun", "a :: 1;"), ("b.lun", "b ::\n ;")], [(1, "a.lun"), (2, "b.lun")]⟩
    let t' : SourceTree := ⟨none, [("b.lun", "b ::\n ;")], [(7, "c.lun"), (2, "b.lun")]⟩
    t.AgreeAt t' 2 ∧ t.parse 2 false = t'.parse 2 false ∧
      ∃ messages, t.parse 2 false = .error messages ∧
        messages.map Message.location = [some ⟨⟨0, 0⟩, ⟨1, 2⟩⟩] := by
  intro t t'
  have hpath : t.path? 2 = some "b.lun" := by decide +kernel
  have hagree : t.AgreeAt t' 2 := by
    refine ⟨by decide +kernel, fun path h => ?_⟩
    obtain rfl : "b.lun" = path := Option.some.inj (hpath.symm.trans h)
    decide +kernel
  refine ⟨hagree, parse_isolated t t' 2 false hagree, ?_⟩
  have hlocation : (match t.parse 2 false with
      | .ok _ => none
      | .error messages => some (messages.map Message.location)) =
        some [some ⟨⟨0, 0⟩, ⟨1, 2⟩⟩] := by
    decide +kernel
  generalize t.parse 2 false = result at hlocation ⊢
  cases result with
  | ok file => cases hlocation
  | error messages => exact ⟨messages, rfl, Option.some.inj hlocation⟩

end SourceTree

end LunSyntax
