import LunSyntax.Document

/-!
# Schemas of documents

What documents look like, for tools which check or complete JSON: the types of values, and the
definitions of records and sums by name.  `Schema.toDocument` writes a schema as one of JSON Schema,
with fields and definitions in the order of their names.
-/

set_option autoImplicit false

namespace LunSyntax

/-- The type of a value. -/
inductive ValueType where
  | text
  | optionalText
  | char
  | bool
  | word (format : String) (largest : Option Nat)
  | named (name : String)
  | optional (name : String)
  | list (name : String)
  deriving DecidableEq, Repr

/-- A field of a record.  Fields which need not be there are not required. -/
structure FieldSchema where
  key : String
  type : ValueType
  note : Option String := none
  required : Bool := true
  deriving DecidableEq, Repr

/-- A case of a sum, without content or with some. -/
structure CaseSchema where
  name : String
  content : Option ValueType := none
  note : Option String := none
  deriving DecidableEq, Repr

/-- What a name stands for. -/
inductive Definition where
  | record (note : Option String) (fields : List FieldSchema)
  | sum (note : Option String) (cases : List CaseSchema)
  | list (name : String)
  deriving DecidableEq, Repr

/-- A definition with a title, and those it refers to. -/
structure Schema where
  title : String
  root : Definition
  definitions : List (String × Definition)

/-! ## Written form -/

/-- A note in front of other fields. -/
def noteFields : Option String → List (String × Document)
  | some note => [("description", .str note)]
  | none => []

def namedSchema (name : String) : Document := .record [("$ref", .str ("#/$defs/" ++ name))]

/-- The fields of the schema of a type. -/
def ValueType.fields : ValueType → List (String × Document)
  | text => [("type", .str "string")]
  | optionalText => [("type", .list [.str "string", .str "null"])]
  | char => [("type", .str "string"), ("maxLength", .nat 1), ("minLength", .nat 1)]
  | bool => [("type", .str "boolean")]
  | word format largest =>
    [("type", .str "integer"), ("format", .str format)]
      ++ (match largest with
        | some n => [("maximum", .nat n)]
        | none => [])
      ++ [("minimum", .nat 0)]
  | named name => [("$ref", .str ("#/$defs/" ++ name))]
  | optional name =>
    [("anyOf", .list [namedSchema name, .record [("type", .str "null")]])]
  | list name => [("type", .str "array"), ("items", namedSchema name)]

/-- Fields in the order of their keys. -/
def sortedFields (fields : List (String × Document)) : List (String × Document) :=
  fields.mergeSort fun a b => a.1 ≤ b.1

/-- The keys which are required, if any. -/
def requiredFields (keys : List String) : List (String × Document) :=
  if keys.isEmpty then [] else [("required", .ofList .str keys)]

/-- A case with content: an object with its name as the only key. -/
def CaseSchema.objectFields (name : String) (content : ValueType) : List (String × Document) :=
  [("type", .str "object"), ("properties", .record [(name, .record content.fields)]),
    ("additionalProperties", .bool false), ("required", .list [.str name])]

/-- The schema of a case which is not just a name among others. -/
def CaseSchema.toDocument? (c : CaseSchema) : Option Document :=
  match c.content, c.note with
  | some content, note =>
    some (.record (noteFields note ++ CaseSchema.objectFields c.name content))
  | none, some note =>
    some (.record (noteFields note ++ [("type", .str "string"), ("const", .str c.name)]))
  | none, none => none

/-- The schema of names. -/
def namesFields (names : List String) : List (String × Document) :=
  [("type", .str "string"), ("enum", .ofList .str names)]

/-- The fields of the schema of a definition. -/
def Definition.fields : Definition → List (String × Document)
  | record note fields =>
    let properties := fields.map fun f => (f.key, .record (noteFields f.note ++ f.type.fields))
    noteFields note
      ++ [("type", .str "object"), ("properties", .record (sortedFields properties))]
      ++ requiredFields ((fields.filter FieldSchema.required).map FieldSchema.key)
  | sum note cases =>
    let names := (cases.filter fun c => c.content.isNone && c.note.isNone).map CaseSchema.name
    let others := cases.filterMap CaseSchema.toDocument?
    noteFields note
      ++ if others.isEmpty then namesFields names
        else
          [("oneOf", .list ((if names.isEmpty then [] else [.record (namesFields names)]) ++ others))]
  | list name => (ValueType.list name).fields

def schemaDialect : String := "https:" ++ "//json-schema.org/draft/2020-12/schema"

def Schema.toDocument (s : Schema) : Document :=
  .record ([("$schema", .str schemaDialect), ("title", .str s.title)] ++ s.root.fields
    ++ [("$defs", .record (sortedFields
      (s.definitions.map fun (name, d) => (name, .record d.fields))))])

end LunSyntax
