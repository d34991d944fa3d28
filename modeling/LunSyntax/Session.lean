import LunSyntax.SourceTree

/-!
# Parsing sessions

A `Session` is what a host parses with: options, and the language once it is set.
-/

set_option autoImplicit false

namespace LunSyntax

/-- A language to parse, if set, and how to parse it. -/
structure Session where
  language : Option Language := none
  options : Options := {}
  deriving DecidableEq, Repr

namespace Session

/-- Set the language.  One of an unknown version is refused. -/
def setLanguage (s : Session) (language : Language) : Except LanguageFault Session :=
  if language.isCompatible then .ok { s with language := some language }
  else .error ⟨language.version⟩

def withOptions (s : Session) (options : Options) : Session := { s with options }

def withoutColor (s : Session) : Session :=
  s.withOptions { s.options with display := .plain }

/-- Number the source. -/
def withSource (s : Session) (source : UInt16) : Session :=
  s.withOptions { s.options with source }

/-- Go back to the options of a new session.  The language stays. -/
def reset (s : Session) : Session := s.withOptions {}

/-- Parse a source, once there is a language. -/
def parse? (s : Session) (source : String) : Option Tree :=
  s.language.map fun language => Tree.parse language source s.options

end Session

end LunSyntax
