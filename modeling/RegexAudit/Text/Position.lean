import RegexAudit.Text.Basic

/-!
# Lines and columns

Where a byte offset lies for a reader: its line and its column, both counted
from one. Columns count characters, so an accented letter is one column
however many bytes it takes.

## Main definitions

* `Position.after`: the position that follows a leading part of a text.
* `LineMap`: the lines of a text, each with the offset where it starts.
* `LineMap.position`: looks a byte offset up in the lines.

## Design notes

`Position.after` counts through the whole leading part and serves as the
meaning. `LineMap.position` finds the last line that starts no later than the
offset and counts within that line only.
-/

namespace RegexAudit

/-- A line and a column, both counted from one. -/
structure Position where
  line : Nat
  column : Nat
deriving DecidableEq, Repr, Inhabited

namespace Position

/-- The position of the first character of a text. -/
def first : Position := ⟨1, 1⟩

/-- The position after one more character. -/
def step (p : Position) (c : Char) : Position :=
  if c = '\n' then ⟨p.line + 1, 1⟩ else ⟨p.line, p.column + 1⟩

/-- The position that follows a leading part of a text. -/
def after (before : List Char) : Position := before.foldl step first

end Position

/-- One line of a text: the byte offset where it starts and its characters without the newline. -/
structure Line where
  start : Nat
  text : List Char
deriving DecidableEq, Repr, Inhabited

/-- The lines of a text in order. There is always a first one. -/
structure LineMap where
  first : Line
  more : List Line
deriving DecidableEq, Repr, Inhabited

namespace Line

/-- The number of characters of a text that start within its first `bytes` bytes. -/
def charsWithin : Nat → List Char → Nat
  | 0, _ => 0
  | _ + 1, [] => 0
  | n + 1, c :: cs => charsWithin (n + 1 - c.utf8Size) cs + 1

/-- The column of a byte offset in a line; an offset past the end has the column after the last
character. -/
def column (line : Line) (offset : Nat) : Nat := charsWithin (offset - line.start) line.text + 1

end Line

namespace LineMap

/-- Splits a text into lines. The line being read starts at `start` and has the characters `read`,
last first. The finished lines stand in `done`, last first. -/
def split (done : List Line) (start : Nat) (read : List Char) : List Char → List Line
  | [] => (⟨start, read.reverse⟩ :: done).reverse
  | c :: cs =>
    if c = '\n' then
      split (⟨start, read.reverse⟩ :: done) (start + Text.width read + 1) [] cs
    else split done start (c :: read) cs

/-- The lines of a text. -/
def ofText (s : List Char) : LineMap :=
  match split [] 0 [] s with
  | [] => ⟨⟨0, []⟩, []⟩
  | first :: more => ⟨first, more⟩

/-- Looks an offset up from the line `current` on, which has the number `number`. -/
def locate (offset : Nat) (number : Nat) (current : Line) : List Line → Position
  | [] => ⟨number, current.column offset⟩
  | next :: more =>
    if next.start ≤ offset then locate offset (number + 1) next more
    else ⟨number, current.column offset⟩

/-- The position of a byte offset. An offset past the end has the position of the end. -/
def position (lines : LineMap) (offset : Nat) : Position :=
  locate offset 1 lines.first lines.more

end LineMap

/-- The position of a byte offset in a text. -/
def Text.position (s : List Char) (offset : Nat) : Position := (LineMap.ofText s).position offset

end RegexAudit
