import LunSyntax.Document.Scanner

/-!
# Reading documents

Readers of scalars, lists, records and cases, as documents are written in JSON.  A value is read as
soon as its text is seen, so that the first fault of a text counts, be it of form or of shape.

Only so many brackets may be open at once (`maxDepth`).  Whatever opens one is given the readers of
its contents only while it may; `Option` stands for that.

* A record is an object, or a list of its values in order.  Keys come in any order, and a field may
  have a value to use when it is missing;
* a case is an object with its name as the only key; one without content may be just its name.
-/

set_option autoImplicit false

namespace LunSyntax

/-- How many brackets may be open at once. -/
def maxDepth : Nat := 127

universe u

/-- What may be read inside one bracket more. -/
@[inline] def deeper {α : Type u} (depth : Nat) (f : Nat → α) : Option α :=
  match depth with
  | 0 => none
  | d + 1 => some (f d)

namespace Reader

variable {α β : Type}

/-! ## Scalars -/

/-- What a number is found to be. -/
def JsonNumber.found : JsonNumber → Found
  | .nat value => .nat value
  | .negative value => .negative value
  | .float value => .float value

/-- Fail since the next value is of another type than wanted. -/
def wrongType (wanted : String) : Reader α :=
  placed do
    match ← peek with
    | some 'n' => skip; word ['u', 'l', 'l']; fail (.wrongType .null wanted)
    | some 't' => skip; word ['r', 'u', 'e']; fail (.wrongType (.bool true) wanted)
    | some 'f' => skip; word ['a', 'l', 's', 'e']; fail (.wrongType (.bool false) wanted)
    | some '-' => skip; fail (.wrongType (← number true).found wanted)
    | some '\x22' => skip; fail (.wrongType (.str (← string)) wanted)
    | some '[' => fail (.wrongType .list wanted)
    | some '{' => fail (.wrongType .record wanted)
    | some c =>
      if isDecimal c then fail (.wrongType (← number false).found wanted)
      else failNext .valueWanted
    | none => failNext .valueWanted

/-- Read a value that starts with a certain char, once there is one. -/
def valueStart : Reader Char := do
  match ← peekValue with
  | some c => return c
  | none => failNext .endInValue

/-- A string of which something can be made. -/
def stringWith (wanted : String) (f : String → Except ReadCause α) : Reader α :=
  placed do
    if (← valueStart) = '\x22' then
      skip
      match f (← string) with
      | .ok a => return a
      | .error cause => fail cause
    else wrongType wanted

def str : Reader String := stringWith "a string" .ok

/-- A string of one char. -/
def char : Reader Char :=
  stringWith "a character" fun s =>
    match s.toList with
    | [c] => .ok c
    | _ => .error (.wrongValue (.str s) "a character")

/-- A string which is the written form of a span. -/
def place : Reader Span :=
  stringWith "A span string of form `file_id:x-y`" fun s => (Span.ofText s).mapError .span

/-- A natural number of at most `limit`. -/
def natUpTo (limit : Nat) (wanted : String) : Reader Nat :=
  placed do
    let c ← valueStart
    if c = '-' || isDecimal c then
      if c = '-' then skip
      match ← number (c == '-') with
      | .nat value =>
        if value ≤ limit then return value else fail (.wrongValue (.nat value) wanted)
      | .negative value => fail (.wrongValue (.negative value) wanted)
      | .float value => fail (.wrongType (.float value) wanted)
    else wrongType wanted

/-- A natural number of 32 bits. -/
def word32 : Reader Nat := natUpTo 0xFFFFFFFF "u32"

/-- A natural number of 64 bits. -/
def word64 : Reader Nat := natUpTo 0xFFFFFFFFFFFFFFFF "usize"

/-- A truth value. -/
def bool : Reader Bool :=
  placed do
    match ← valueStart with
    | 't' => skip; word ['r', 'u', 'e']; return true
    | 'f' => skip; word ['a', 'l', 's', 'e']; return false
    | _ => wrongType "a boolean"

/-- The value of a case without content. -/
def unit : Reader Unit :=
  placed do
    if (← valueStart) = 'n' then
      skip
      word ['u', 'l', 'l']
    else wrongType "unit"

/-- A value, or null in its place. -/
def option (r : Reader α) : Reader (Option α) := do
  if (← peekValue) = some 'n' then
    skip
    word ['u', 'l', 'l']
    return none
  else return some (← r)

/-! ## Brackets -/

/-- The end of a list. -/
def listEnd : Reader Unit := do
  match ← peekValue with
  | some ']' => skip
  | some ',' =>
    skip
    if (← peekValue) = some ']' then failNext .trailingComma else failNext .trailingText
  | some _ => failNext .trailingText
  | none => failNext .endInList

/-- The end of a record. -/
def recordEnd : Reader Unit := do
  match ← peekValue with
  | some '}' => skip
  | some ',' => failNext .trailingComma
  | some _ => failNext .trailingText
  | none => failNext .endInRecord

/-- Read the inside of a bracket, and then its end.  After a fault inside, the end is still looked
for, as far as that goes. -/
def closedBy (finish : Reader Unit) (inside : Reader α) : Reader α := fun s =>
  match inside s with
  | .ok a after =>
    match finish after with
    | .ok _ last => .ok a last
    | .fault fault stopped => .fault fault stopped
  | .fault fault stopped => .fault fault (finish stopped).scanner

/-- Open a bracket, if one more may be, and read what is in it. -/
def bracketed (finish : Reader Unit) : Option (Reader α) → Reader α
  | some inside => do
    skip
    closedBy finish inside
  | none => failNext .tooDeep

/-- Whether a list goes on. -/
def anotherItem (first : Bool) : Reader Bool := do
  match ← peekValue with
  | none => failNext .endInList
  | some ']' => return false
  | some c =>
    if first then return true
    else if c = ',' then
      skip
      match ← peekValue with
      | some ']' => failNext .trailingComma
      | some _ => return true
      | none => failNext .endInValue
    else failNext .listEndWanted

/-- The next key of a record, if there is one more. -/
def anotherKey (first : Bool) : Reader (Option String) := do
  match ← peekValue with
  | none => failNext .endInRecord
  | some '}' => return none
  | some c =>
    if first then
      if c = '\x22' then
        skip
        return some (← string)
      else failNext .keyNotString
    else if c = ',' then
      skip
      match ← peekValue with
      | some '\x22' =>
        skip
        return some (← string)
      | some '}' => failNext .trailingComma
      | some _ => failNext .keyNotString
      | none => failNext .endInValue
    else failNext .recordEndWanted

/-! ## Lists -/

/-- The items of a list, as many as there are.  Every item takes a char. -/
def itemsFrom (item : Reader α) : Nat → Bool → Reader (List α)
  | 0, _ => failHere .endInList
  | fuel + 1, first => do
    if ← anotherItem first then
      let a ← item
      return a :: (← itemsFrom item fuel false)
    else return []

/-- A list. -/
def list (item : Option (Reader α)) : Reader (List α) :=
  placed do
    if (← valueStart) = '[' then
      bracketed listEnd (item.map fun r s => itemsFrom r (s.left + 1) true s)
    else wrongType "a sequence"

/-! ## Records -/

/-- What to do without a field. -/
inductive Absence (α : Type) where
  /-- the field is needed -/
  | refused
  /-- an object may lack it -/
  | allowed (value : α)
  /-- an object may lack it, and a list may end before it -/
  | anywhere (value : α)

/-- The fields of a record, with readers for their values. -/
inductive Fields : List Type → Type 1 where
  | nil : Fields []
  | cons {α : Type} {types : List Type} (key : String) (value : Reader α) (absence : Absence α)
      (rest : Fields types) : Fields (α :: types)

/-- Values for all fields of a record. -/
def Values : List Type → Type
  | [] => Unit
  | α :: types => α × Values types

/-- Values for some fields of a record. -/
def Slots : List Type → Type
  | [] => Unit
  | α :: types => Option α × Slots types

namespace Fields

/-- The keys of the fields. -/
def keys {types : List Type} : Fields types → List String
  | nil => []
  | cons key _ _ rest => key :: rest.keys

def empty {types : List Type} : Fields types → Slots types
  | nil => ()
  | cons _ _ _ rest => (none, rest.empty)

/-- Read the value of a key, which must not have one; none if no field has that key. -/
def fill? {types : List Type} : Fields types → String → Slots types → Option (Reader (Slots types))
  | nil, _, _ => none
  | cons key value _ rest, wanted, (slot, slots) =>
    if wanted == key then
      match slot with
      | some _ => some (fail (.repeatedField key))
      | none => some do
        colon
        return (some (← value), slots)
    else
      (rest.fill? wanted slots).map fun r => do return (slot, ← r)

/-- All values, with those of missing fields.  The first field which is needed and missing is
reported. -/
def complete {types : List Type} : Fields types → Slots types → Except ReadCause (Values types)
  | nil, _ => .ok ()
  | cons key _ absence rest, (slot, slots) =>
    match slot, absence with
    | none, .refused => .error (.missingField key)
    | some a, _ | none, .allowed a | none, .anywhere a =>
      match rest.complete slots with
      | .ok values => .ok (a, values)
      | .error cause => .error cause

/-- The values of the fields from a list, of which `index` were read before. -/
def fromList {types : List Type} (wanted : String) :
    Fields types → Nat → Reader (Values types)
  | nil, _ => pure ()
  | cons _ value absence rest, index => do
    if ← anotherItem (index == 0) then
      let a ← value
      return (a, ← rest.fromList wanted (index + 1))
    else
      match absence with
      | .anywhere a => return (a, ← rest.fromList wanted (index + 1))
      | _ => fail (.wrongLength index wanted)

/-- The values of the fields from an object, some of which were read before.  Every key takes a
char. -/
def fromObject {types : List Type} (fields : Fields types) (strict : Bool) :
    Nat → Bool → Slots types → Reader (Values types)
  | 0, _, _ => failHere .endInRecord
  | fuel + 1, first, slots => do
    match ← anotherKey first with
    | none =>
      match fields.complete slots with
      | .ok values => return values
      | .error cause => fail cause
    | some key =>
      match fields.fill? key slots with
      | some filled => fields.fromObject strict fuel false (← filled)
      | none =>
        if strict then fail (.unknownField key fields.keys)
        else
          colon
          skipValue
          fields.fromObject strict fuel false slots

end Fields

/-- What is known of a kind of records: their name, and whether they refuse unknown keys. -/
structure RecordKind where
  name : String
  strict : Bool := false

/-- Read a record into its values. -/
def record {types : List Type} (kind : RecordKind) (fields : Option (Fields types)) :
    Reader (Values types) :=
  placed do
    let wanted := "struct " ++ kind.name
    match ← valueStart with
    | '[' =>
      bracketed listEnd <| fields.map fun f =>
        let size := f.keys.length
        let size := " with " ++ toString size ++ if size == 1 then " element" else " elements"
        f.fromList (if kind.strict then wanted else wanted ++ size) 0
    | '{' =>
      bracketed recordEnd <| fields.map fun f s =>
        f.fromObject kind.strict (s.left + 1) true f.empty s
    | _ => wrongType wanted

/-! ## Cases -/

/-- A case of a sum: with content to read, or just by name. -/
inductive Case (α : Type) where
  | content (r : Reader α)
  | bare (value : α)

def caseName (known : List String) : Reader String :=
  stringWith "variant identifier" fun name =>
    if known.contains name then .ok name else .error (.unknownCase name known)

/-- Read the inside of an object with a case. -/
def caseInside (known : List String) (cases : String → Case α) : Reader α := do
  let name ← caseName known
  colon
  match cases name with
  | .content r => r
  | .bare value =>
    unit
    return value

/-- Read a case of a sum.  The cases with their contents are those which one more bracket holds;
by name alone only `bare` cases are found. -/
def case (known : List String) (bare : String → Option α) (cases : Option (String → Case α)) :
    Reader α := do
  match ← valueStart with
  | '{' =>
    match cases with
    | none => failNext .tooDeep
    | some cases =>
      skip
      let a ← caseInside known cases
      match ← peekValue with
      | some '}' =>
        skip
        return a
      | some _ => failHere .valueWanted
      | none => failHere .endInRecord
  | '\x22' =>
    match bare (← caseName known) with
    | some value => return value
    | none => fail (.wrongType .bareCase "newtype variant")
  | _ => failNext .valueWanted

/-- Whatever follows a value that is read as the only one of an object. -/
def onlyKey (a : α) : Reader α := do
  match ← anotherKey false with
  | none => return a
  | some _ => fail (.wrongValue .record "map with a single key")

/-- The contents of an object with a case as its only key. -/
def onlyCase (known : List String) (cases : String → Reader α) : Reader α := do
  match ← anotherKey true with
  | none => fail (.wrongValue .record "map with a single key")
  | some name =>
    if known.contains name then
      colon
      onlyKey (← cases name)
    else fail (.unknownCase name known)

/-- Read a case of a sum, all of which have content, as an object with one key. -/
def singleton (sum : String) (known : List String) (cases : Option (String → Reader α)) :
    Reader α :=
  placed do
    let wanted := "enum " ++ sum
    match ← valueStart with
    | '{' => bracketed recordEnd (cases.map (onlyCase known))
    | '[' => bracketed listEnd (cases.map fun _ => fail (.wrongType .list wanted))
    | '\x22' =>
      skip
      let name ← string
      if known.contains name then fail (.wrongType .bareCase "newtype variant")
      else fail (.unknownCase name known)
    | _ => wrongType wanted

/-! ## Whole texts -/

/-- Read all of a text. -/
def run (r : Reader α) (source : String) : Except ReadFault α :=
  let whole : Reader α := do
    let a ← r
    match ← peekValue with
    | some _ => failNext .trailingText
    | none => return a
  match whole (Scanner.start source) with
  | .ok a _ => .ok a
  | .fault fault _ => .error fault

end Reader

end LunSyntax
