import LunSyntax.Diagnostic

/-!
# The language and its tables

Hosts know nodes by `NodeKind` and their place in a parent by `Field`, each with a name and a
number.  Kinds up to `NodeKind.error` are named after a rule of the grammar; the others are
operators and named as they are written.

A `Language` is a handle with the version of these tables.  Parsers take only handles of the
versions they know.
-/

set_option autoImplicit false

namespace LunSyntax

/-- The kinds of nodes. -/
inductive NodeKind where
  | sourceFile | globalDefItem | primitiveType | mutSpec | blockExpr | labeledExpr | boolExpr
  | litExpr | parenExpr | pathExpr | path | binaryExpr | assignExpr | leftUnaryExpr
  | rightUnaryExpr | borrowExpr | arguments | callExpr | ifExpr | whileExpr | forExpr | loopExpr
  | returnExpr | breakExpr | continueExpr | nullExpr | fieldExpr | block | comment | integerLit
  | stringLit | stringContent | escapeSequence | identifier | error
  | add | sub | mul | div | mod | shl | shr | bitAnd | bitXor | bitOr | eq | ne | lt | lte | gt
  | gte | and | or | not | deref
  deriving DecidableEq, Repr

/-- The parts of a name between underscores, each with a capital first letter. -/
def camelCase (name : String) : String :=
  let step : Bool × List Char → Char → Bool × List Char
    | (start, chars), c =>
      if c = '_' then (true, chars)
      else (false, (if start then c.toUpper else c) :: chars)
  String.ofList (name.toList.foldl step (true, [])).2.reverse

namespace NodeKind

/-- All kinds, in the order of their numbers. -/
def all : List NodeKind :=
  [sourceFile, globalDefItem, primitiveType, mutSpec, blockExpr, labeledExpr, boolExpr, litExpr,
    parenExpr, pathExpr, path, binaryExpr, assignExpr, leftUnaryExpr, rightUnaryExpr, borrowExpr,
    arguments, callExpr, ifExpr, whileExpr, forExpr, loopExpr, returnExpr, breakExpr,
    continueExpr, nullExpr, fieldExpr, block, comment, integerLit, stringLit, stringContent,
    escapeSequence, identifier, error, add, sub, mul, div, mod, shl, shr, bitAnd, bitXor, bitOr,
    eq, ne, lt, lte, gt, gte, and, or, not, deref]

/-- The name of a kind. -/
def name : NodeKind → String
  | sourceFile => "source_file" | globalDefItem => "global_def_item"
  | primitiveType => "primitive_type" | mutSpec => "mut_spec" | blockExpr => "block_expr"
  | labeledExpr => "labeled_expr" | boolExpr => "bool_expr" | litExpr => "lit_expr"
  | parenExpr => "paren_expr" | pathExpr => "path_expr" | path => "path"
  | binaryExpr => "binary_expr" | assignExpr => "assign_expr"
  | leftUnaryExpr => "left_unary_expr" | rightUnaryExpr => "right_unary_expr"
  | borrowExpr => "borrow_expr" | arguments => "arguments" | callExpr => "call_expr"
  | ifExpr => "if_expr" | whileExpr => "while_expr" | forExpr => "for_expr"
  | loopExpr => "loop_expr" | returnExpr => "return_expr" | breakExpr => "break_expr"
  | continueExpr => "continue_expr" | nullExpr => "null_expr" | fieldExpr => "field_expr"
  | block => "block" | comment => "comment" | integerLit => "integer_lit"
  | stringLit => "string_lit" | stringContent => "string_content"
  | escapeSequence => "escape_sequence" | identifier => "identifier" | error => "ERROR"
  | add => "+" | sub => "-" | mul => "*" | div => "/" | mod => "%" | shl => "<<" | shr => ">>"
  | bitAnd => "&" | bitXor => "^" | bitOr => "|" | eq => "==" | ne => "!=" | lt => "<"
  | lte => "<=" | gt => ">" | gte => ">=" | and => "&&" | or => "||" | not => "!" | deref => ".*"

/-- The name of a kind among its cases. -/
def caseName : NodeKind → String
  | error => "Error" | add => "Add" | sub => "Sub" | mul => "Mul" | div => "Div" | mod => "Mod"
  | shl => "Shl" | shr => "Shr" | bitAnd => "BitAnd" | bitXor => "BitXor" | bitOr => "BitOr"
  | eq => "Eq" | ne => "Ne" | lt => "Lt" | lte => "Lte" | gt => "Gt" | gte => "Gte"
  | and => "And" | or => "Or" | not => "Not" | deref => "Deref"
  | kind => camelCase kind.name

def id (kind : NodeKind) : Nat := all.idxOf kind

def ofId? (id : Nat) : Option NodeKind := all[id]?

/-- Whether a kind is named after a rule. -/
def isNamed (kind : NodeKind) : Bool := kind.id ≤ error.id

/-- Whether nodes of a kind have no parts which could hold others. -/
def isLeaf (kind : NodeKind) : Bool :=
  match kind with
  | primitiveType | mutSpec | boolExpr | nullExpr | comment | integerLit | stringContent
  | escapeSequence | identifier => true
  | kind => !kind.isNamed

end NodeKind

/-- The places of nodes in a parent. -/
inductive Field where
  | name | typeexpr | value | block | label | firstSeg | seg | lhs | op | rhs | deref | callee
  | args | cond | thenBranch | elseBranch | var | iterator | body | member | stmt | lastExpr | tag
  deriving DecidableEq, Repr

namespace Field

/-- All fields, in the order of their numbers. -/
def all : List Field :=
  [name, typeexpr, value, block, label, firstSeg, seg, lhs, op, rhs, deref, callee, args, cond,
    thenBranch, elseBranch, var, iterator, body, member, stmt, lastExpr, tag]

/-- The name of a field. -/
def text : Field → String
  | name => "name" | typeexpr => "typeexpr" | value => "value" | block => "block"
  | label => "label" | firstSeg => "first_seg" | seg => "seg" | lhs => "lhs" | op => "op"
  | rhs => "rhs" | deref => "deref" | callee => "callee" | args => "args" | cond => "cond"
  | thenBranch => "then" | elseBranch => "else" | var => "var" | iterator => "iterator"
  | body => "body" | member => "field" | stmt => "stmt" | lastExpr => "last_expr" | tag => "tag"

def caseName (f : Field) : String := camelCase f.text

/-- The number of a field, from one on. -/
def id (f : Field) : Nat := all.idxOf f + 1

def ofId? : Nat → Option Field
  | 0 => none
  | n + 1 => all[n]?

def ofText? (text : String) : Option Field := all.find? (·.text == text)

end Field

/-- A handle to the tables of a version. -/
structure Language where
  version : Nat
  deriving DecidableEq, Repr

namespace Language

/-- The newest version. -/
def currentVersion : Nat := 1

/-- The oldest version still known. -/
def oldestVersion : Nat := 1

def current : Language := ⟨currentVersion⟩

def name : String := "lun"

def release : String := "0.1.0"

/-- Whether the tables of a handle are known. -/
def isCompatible (l : Language) : Bool :=
  oldestVersion ≤ l.version && l.version ≤ currentVersion

/-- The number of a kind with a name. -/
def kindId? (name : String) (named : Bool) : Option Nat :=
  (NodeKind.all.find? fun kind => kind.name == name && kind.isNamed == named).map NodeKind.id

/-- Whether a number is of a kind that is named after a rule. -/
def isNamedId (id : Nat) : Bool :=
  match NodeKind.ofId? id with
  | some kind => kind.isNamed
  | none => false

end Language

/-- A handle of an unknown version. -/
structure LanguageFault where
  version : Nat
  deriving DecidableEq, Repr

namespace LanguageFault

def message (fault : LanguageFault) : String :=
  "Incompatible language version " ++ toString fault.version ++ ". Expected minimum "
    ++ toString Language.oldestVersion ++ ", maximum " ++ toString Language.currentVersion

def toDiagnostic (fault : LanguageFault) : Diagnostic :=
  ((Diagnostic.ofReason (.simple fault.message)).withCode versionCode).withStage .language

end LanguageFault

end LunSyntax
