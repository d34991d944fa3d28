import LunSyntax.Document
import LunSyntax.Text.Quoted

/-!
# Documents as JSON

Records are objects, and a variant is an object whose only key is its name.  Strings escape the
quote, the backslash and control chars only; all else stands for itself.

* `Document.toJson` has no blanks;
* `Document.toPrettyJson` puts each item on a line of its own, two blanks deeper than its parent.

The writers put a text in front of what follows it, so that no text is copied.
-/

set_option autoImplicit false

namespace LunSyntax

/-- A char inside a quoted string. -/
def jsonEscape (c : Char) : List Char :=
  if c == '\x22' then ['\\', '\x22']
  else if c == '\\' then ['\\', '\\']
  else if c == '\n' then ['\\', 'n']
  else if c == '\r' then ['\\', 'r']
  else if c == '\t' then ['\\', 't']
  else if c == '\x08' then ['\\', 'b']
  else if c == '\x0c' then ['\\', 'f']
  else if c.toNat < 0x20 then
    ['\\', 'u', '0', '0', hexDigit (c.toNat / 16), hexDigit (c.toNat % 16)]
  else [c]

/-- The chars of a string, escaped, before a text. -/
def jsonCharsBefore (after : List Char) : List Char → List Char
  | [] => after
  | c :: rest => jsonEscape c ++ jsonCharsBefore after rest

/-- A quoted string before a text. -/
def jsonStringBefore (text : String) (after : List Char) : List Char :=
  '\x22' :: jsonCharsBefore ('\x22' :: after) text.toList

namespace Document

mutual

/-- A document before a text. -/
def jsonBefore (after : List Char) : Document → List Char
  | null => 'n' :: 'u' :: 'l' :: 'l' :: after
  | bool true => 't' :: 'r' :: 'u' :: 'e' :: after
  | bool false => 'f' :: 'a' :: 'l' :: 's' :: 'e' :: after
  | nat value => (toString value).toList ++ after
  | char value => '\x22' :: (jsonEscape value ++ '\x22' :: after)
  | str value => jsonStringBefore value after
  | list [] => '[' :: ']' :: after
  | list (item :: rest) => '[' :: jsonBefore (jsonItemsBefore (']' :: after) rest) item
  | record [] => '{' :: '}' :: after
  | record ((key, value) :: rest) =>
    '{' :: jsonStringBefore key (':' :: jsonBefore (jsonFieldsBefore ('}' :: after) rest) value)
  | variant name content =>
    '{' :: jsonStringBefore name (':' :: jsonBefore ('}' :: after) content)

/-- The items of a list after the first, each after a comma, before a text. -/
def jsonItemsBefore (after : List Char) : List Document → List Char
  | [] => after
  | item :: rest => ',' :: jsonBefore (jsonItemsBefore after rest) item

/-- The fields of a record after the first, each after a comma, before a text. -/
def jsonFieldsBefore (after : List Char) : List (String × Document) → List Char
  | [] => after
  | (key, value) :: rest =>
    ',' :: jsonStringBefore key (':' :: jsonBefore (jsonFieldsBefore after rest) value)

end

def toJson (d : Document) : String :=
  String.ofList (jsonBefore [] d)

/-- A new line with the blanks of a depth, before a text. -/
def indentBefore (depth : Nat) (after : List Char) : List Char :=
  '\n' :: (List.replicate (2 * depth) ' ' ++ after)

mutual

/-- A document at a depth, over several lines, before a text. -/
def prettyBefore (depth : Nat) (after : List Char) : Document → List Char
  | null => jsonBefore after null
  | bool value => jsonBefore after (bool value)
  | nat value => jsonBefore after (nat value)
  | char value => jsonBefore after (char value)
  | str value => jsonBefore after (str value)
  | list [] => '[' :: ']' :: after
  | list (item :: rest) =>
    '[' :: indentBefore (depth + 1)
      (prettyBefore (depth + 1)
        (prettyItemsBefore depth (indentBefore depth (']' :: after)) rest) item)
  | record [] => '{' :: '}' :: after
  | record ((key, value) :: rest) =>
    '{' :: indentBefore (depth + 1)
      (jsonStringBefore key (':' :: ' ' :: prettyBefore (depth + 1)
        (prettyFieldsBefore depth (indentBefore depth ('}' :: after)) rest) value))
  | variant name content =>
    '{' :: indentBefore (depth + 1)
      (jsonStringBefore name (':' :: ' ' :: prettyBefore (depth + 1)
        (indentBefore depth ('}' :: after)) content))

/-- The items of a list at a depth after the first, before a text. -/
def prettyItemsBefore (depth : Nat) (after : List Char) : List Document → List Char
  | [] => after
  | item :: rest =>
    ',' :: indentBefore (depth + 1)
      (prettyBefore (depth + 1) (prettyItemsBefore depth after rest) item)

/-- The fields of a record at a depth after the first, before a text. -/
def prettyFieldsBefore (depth : Nat) (after : List Char) : List (String × Document) → List Char
  | [] => after
  | (key, value) :: rest =>
    ',' :: indentBefore (depth + 1)
      (jsonStringBefore key (':' :: ' ' :: prettyBefore (depth + 1)
        (prettyFieldsBefore depth after rest) value))

end

def toPrettyJson (d : Document) : String :=
  String.ofList (prettyBefore 0 [] d)

end Document

end LunSyntax
