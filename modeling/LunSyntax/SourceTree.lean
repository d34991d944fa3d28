import LunSyntax.Grammar.Item
import LunSyntax.Message.Display
import LunSyntax.Source.Path
import LunSyntax.Tree

/-!
# Sources of a project

A `SourceTree` holds sources by path, and numbers for the paths, which spans refer to.  Several
numbers may lead to one path, and a path may have lost its source.

* `SourceTree.insert` adds a source with the number after the largest one, as long as there is one;
* `SourceTree.parse` parses a source strictly;
* `Message.compose?` adds the location and the display to a message.
-/

set_option autoImplicit false

namespace LunSyntax

/-- Sources by path, and paths by number. -/
structure SourceTree where
  root : Option String
  sources : List (String × String)
  ids : List (UInt16 × String)

namespace SourceTree

def empty : SourceTree := ⟨none, [], []⟩

/-- Set the value of a key, which keeps its place if it has one. -/
def assign {κ α : Type} (same : κ → κ → Bool) (key : κ) (value : α) :
    List (κ × α) → List (κ × α)
  | [] => [(key, value)]
  | (k, v) :: rest =>
    if same k key then (k, value) :: rest else (k, v) :: assign same key value rest

/-- Store a source, in place of one with its path. -/
def store (t : SourceTree) (path content : String) : SourceTree :=
  { t with sources := assign samePath path content t.sources }

/-- Give a path a number, in place of the one that has it. -/
def number (t : SourceTree) (id : UInt16) (path : String) : SourceTree :=
  { t with ids := assign (· == ·) id path t.ids }

def path? (t : SourceTree) (id : UInt16) : Option String :=
  (t.ids.find? (·.1 == id)).map Prod.snd

def content? (t : SourceTree) (path : String) : Option String :=
  (t.sources.find? fun s => samePath s.1 path).map Prod.snd

def single (id : UInt16) (path content : String) : SourceTree :=
  (empty.store path content).number id path

/-- A source without a path. -/
def ofSource (source : String) : SourceTree := single defaultSource "" source

/-- Add sources which are numbered on from an index. -/
def addFrom (t : SourceTree) : Nat → List (String × String) → SourceTree
  | _, [] => t
  | index, (path, content) :: rest =>
    ((t.store path content).number (index + 1).toUInt16 path).addFrom (index + 1) rest

/-- Sources numbered from one on, up to the last number and then again from zero. -/
def ofSources (sources : List (String × String)) (root : Option String) : SourceTree :=
  { empty with root }.addFrom 0 sources

/-- The largest number in use, or zero. -/
def lastId (t : SourceTree) : UInt16 :=
  t.ids.foldl (fun acc entry => max acc entry.1) 0

/-- Add a source with the number after the largest one, and tell that number.  If there is none
left, the source is stored all the same, and only a number that its path had before leads to it. -/
def insert (t : SourceTree) (path content : String) : Option UInt16 × SourceTree :=
  let stored := t.store path content
  if t.lastId.toNat < maxSource then (some (t.lastId + 1), stored.number (t.lastId + 1) path)
  else (none, stored)

/-- Remove a source.  Its numbers stay. -/
def erase (t : SourceTree) (path : String) : SourceTree :=
  { t with sources := t.sources.filter fun s => !samePath s.1 path }

/-- The numbers in ascending order, with their paths. -/
def idsInOrder (t : SourceTree) : List (UInt16 × String) :=
  t.ids.mergeSort fun a b => a.1 ≤ b.1

/-- The sources in the order of their paths. -/
def sourcesInOrder (t : SourceTree) : List (String × String) :=
  t.sources.mergeSort fun a b => a.1 ≤ b.1

end SourceTree

/-! ## Messages about sources -/

/-- Where a span starts and ends, unless it is not in the source. -/
def Span.locate? (s : Span) (lines : SourceLines) : Option Location := do
  return ⟨← lines.locate? s.start, ← lines.locate? s.stop⟩

def Message.plain (m : Message) : Message :=
  { m with display := m.display.map stripAnsi }

/-- Add location and display to a message about one of the sources; any other message stays as it
is.  There is no result if the span is reversed, which nothing can be drawn for. -/
def Message.compose? (sources : SourceTree) (colored : Bool) (m : Message) : Option Message :=
  let located := do
    let span ← m.span
    let path ← sources.path? span.source
    let lines := SourceLines.ofSource (← sources.content? path)
    let location ← span.locate? lines
    return (span, path, lines, location)
  match located with
  | none => some m
  | some (span, path, lines, location) =>
    if span.start ≤ span.stop then
      let display := drawDisplay lines path m span.start span.stop
      let composed := { m with location := some location, display }
      some (if colored then composed else composed.plain)
    else none

/-- Compose all of some messages. -/
def composeMessages? (sources : SourceTree) (colored : Bool) (messages : List Message) :
    Option (List Message) :=
  messages.mapM (Message.compose? sources colored)

def DisplayStyle.apply (style : DisplayStyle) (messages : List Message) : List Message :=
  match style with
  | .plain => messages.map Message.plain
  | .color => messages

/-- The messages for diagnostics, as far as they can be composed. -/
def composeDiagnostics (sources : SourceTree) (colored : Bool) (diagnostics : List Diagnostic) :
    List Message :=
  let messages := diagnostics.map Message.ofDiagnostic
  (composeMessages? sources colored messages).getD messages

/-- Parse a source of a project strictly. -/
def SourceTree.parse (sources : SourceTree) (id : UInt16) (colored : Bool) :
    Except (List Message) SourceFile :=
  match (sources.path? id).bind sources.content? with
  | none => .error [.ofDiagnostic (.ofReason (.notFound (toString id.toNat) "source id"))]
  | some source =>
    (parseStrict source id).mapError (composeDiagnostics sources colored)

/-- The messages for what is wrong with the source of a tree. -/
def Tree.messages (t : Tree) (colored : Bool) : List Message :=
  t.options.display.apply
    (composeDiagnostics (.single t.options.source "" t.source) colored t.diagnostics)

end LunSyntax
