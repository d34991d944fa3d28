import LunSyntax.Message
import LunSyntax.Text.Ansi
import LunSyntax.Text.Width

/-!
# Displays of messages

A message drawn below the lines of the source it is about.  Within one line the text in question
is underlined, and an arrow leads from its middle to the wording; text over several lines gets a
bracket on the left, which leaves out all lines but the first and the last.

* `excerptRows` are the rows with source text;
* `drawDisplay` adds the frame around them, with the place and the hints.
-/

set_option autoImplicit false

namespace LunSyntax

namespace Display

/-! ## Style -/

def headingColor : Color := .red

/-- The color of the frame and of line numbers. -/
def frameColor : Color := .fixed 246

/-- The color of the frame beside rows without source text. -/
def besideColor : Color := .fixed 240

/-- The color of source text which is not in question. -/
def dimColor : Color := .fixed 249

def hintColor : Color := .fixed 115

def tabWidth : Nat := 4

/-- How far an arrow reaches behind what it belongs to. -/
def arrowReach : Nat := 2

def fill (n : Nat) (c : Char) : String := String.ofList (List.replicate n c)

/-! ## Cells -/

/-- What a char of a line looks like: the char drawn, and its columns.  Blanks are drawn as
spaces. -/
def cell (column : Nat) (c : Char) : Char × Nat :=
  if c == '\t' then (' ', tabWidth - column % tabWidth)
  else if isBlank c then (' ', 1)
  else (c, charWidth c)

/-- A cell as it is drawn in a color. -/
def cellText (color : Option Color) (column : Nat) (c : Char) : String :=
  let (shown, width) := cell column c
  if shown == ' ' then String.join (List.replicate width (paint color " "))
  else paint color (String.singleton shown)

/-- The chars of a line which are drawn. -/
def shownChars (line : TextLine) : List Char := trimEnd line.chars

/-- The text of a line from a column on, where only what is in question stands out. -/
def lineText (start stop : Nat) (line : TextLine) : Nat → List Char → String
  | _, [] => ""
  | column, c :: rest =>
    let offset := line.start + column
    let color := if start ≤ offset && offset < stop then none else some dimColor
    cellText color column c ++ lineText start stop line (column + 1) rest

/-- Draw below a line, from a column on: for each of its chars, and then for so many columns behind
them, a char at first and another over the rest of its width. -/
def belowText (draw : Nat → Char × Char) : Nat → Nat → List Char → String
  | 0, _, _ => ""
  | count + 1, column, chars =>
    let (first, tail) := draw column
    let (width, rest) :=
      match chars with
      | [] => (1, [])
      | c :: rest => ((cell column c).2, rest)
    let text := if width == 0 then "" else String.singleton first ++ fill (width - 1) tail
    text ++ belowText draw count (column + 1) rest

/-! ## Margins -/

/-- The margin of a row with source text. -/
def numberMargin (width number : Nat) : String :=
  let digits := toString number
  " " ++ paint (some frameColor) (fill (width - digits.length) ' ' ++ digits ++ " │") ++ " "

/-- The margin of another row. -/
def besideMargin (width : Nat) (bar : String) : String :=
  " " ++ paint (some besideColor) (fill (width + 1) ' ' ++ bar) ++ " "

/-! ## Excerpts -/

/-- The rows for a place within one line, from its number on. -/
def inlineRows (width start stop : Nat) (wording : String) (number : Nat) (line : TextLine) :
    List String :=
  let chars := shownChars line
  let middle := max ((start + stop) / 2) start - line.start
  let count := stop - line.start + arrowReach
  let marked (column : Nat) : Bool :=
    start ≤ line.start + column && line.start + column < stop
  let underline (column : Nat) : Char × Char :=
    if column == middle then if marked column then ('┬', '─') else ('│', ' ')
    else if marked column then ('─', '─')
    else (' ', ' ')
  let arrow (column : Nat) : Char × Char :=
    if column == middle then ('╰', '─')
    else if middle < column then ('─', '─')
    else (' ', ' ')
  [numberMargin width number ++ lineText start stop line 0 chars,
    besideMargin width "│" ++ belowText underline count 0 chars,
    besideMargin width "│" ++ belowText arrow count 0 chars ++ " " ++ wording]

/-- The rows for a place over several lines: its first line, whether there are lines in between, and
its last line. -/
def bracketRows (width start stop : Nat) (wording : String) (first last : Nat × TextLine) :
    List String :=
  let chars := shownChars last.2
  let count := last.2.length + arrowReach
  let text (l : TextLine) : String := lineText start stop l 0 (shownChars l)
  [numberMargin width (first.1 + 1) ++ "╭─▶ " ++ text first.2]
    ++ (if first.1 + 1 < last.1 then [besideMargin width "┆" ++ "┆   "] else [])
    ++ [numberMargin width (last.1 + 1) ++ "├─▶ " ++ text last.2,
      besideMargin width "│" ++ "│   " ++ belowText (fun _ => (' ', ' ')) count 0 chars,
      besideMargin width "│" ++ "╰───" ++ belowText (fun _ => ('─', '─')) count 0 chars
        ++ " " ++ wording]

/-- The rows with source text, for a place from one line to another. -/
def excerptRows (width start stop : Nat) (wording : String) (first last : Nat × TextLine) :
    List String :=
  if first.1 == last.1 then inlineRows width start stop wording (first.1 + 1) first.2
  else bracketRows width start stop wording first last

/-! ## Hints -/

/-- A line without the carriage return at its end. -/
def withoutReturn (line : List Char) : List Char :=
  if line.getLast? == some '\r' then line.dropLast else line

/-- The lines of a hint; an end of line after the last one does not count. -/
def hintLines (hint : String) : List (List Char) :=
  let lines := splitLines hint.toList
  (if lines.getLast? == some [] then lines.dropLast else lines).map withoutReturn

/-- The rows of a hint.  The first row is empty, the second has the word in front of the text, and
others are below the text. -/
def hintRows (margin word : String) (hint : String) : List String :=
  match hintLines hint with
  | [] => [margin]
  | line :: more =>
    [margin, margin ++ paint (some hintColor) word ++ ": " ++ String.ofList line]
      ++ more.map fun line => margin ++ fill (word.length + 2) ' ' ++ String.ofList line

/-- What stands in the column of the bracket beside hints: its bar goes on if what is in question
starts with the second line. -/
def bracketBeside (lines : SourceLines) (start : Nat) (inline : Bool) : String :=
  if inline then ""
  else if (lines.lines.head?.map TextLine.stop) == some start then "│   "
  else "    "

/-- The words in front of the first and the second hint; there is no room for others. -/
def hintWords : List String := ["Help", "Note"]

/-! ## All of it -/

/-- The heading of a display. -/
def heading (code : Option String) : String :=
  let code := match code with
    | some code => "[" ++ code ++ fill (2 - code.length) ' ' ++ "] "
    | none => ""
  paint (some headingColor) (code ++ "Error:") ++ " "

/-- The row with the place. -/
def placeRow (width : Nat) (path : String) (place : LineColumn) : String :=
  fill (width + 2) ' ' ++ paint (some frameColor) "╭" ++ paint (some frameColor) "─"
    ++ paint (some frameColor) "[" ++ " " ++ path ++ ":" ++ toString (place.line + 1) ++ ":"
    ++ toString (place.column + 1) ++ " " ++ paint (some frameColor) "]"

/-- The rows of a display, for a place from one line to another. -/
def rows (lines : SourceLines) (path : String) (m : Message) (start stop : Nat)
    (first last : Nat × TextLine) : List String :=
  let width := (toString (last.1 + 1)).length
  let margin := besideMargin width "│" ++ bracketBeside lines start (first.1 == last.1)
  [heading m.code, placeRow width path ⟨first.1, start - first.2.start⟩,
    fill (width + 2) ' ' ++ paint (some frameColor) "│"]
    ++ excerptRows width start stop m.reason first last
    ++ (hintWords.zip m.hints).flatMap (fun (word, hint) => hintRows margin word hint)
    ++ [paint (some frameColor) (fill (width + 2) '─' ++ "╯")]

end Display

/-- The display of a message about a place in a source, if the place is there. -/
def drawDisplay (lines : SourceLines) (path : String) (m : Message) (start stop : Nat) :
    Option String := do
  let first ← lines.lineOf? start
  let last ← lines.lineOf? (max (stop - 1) start)
  return String.join ((Display.rows lines path m start stop first last).map (· ++ "\n"))

end LunSyntax
