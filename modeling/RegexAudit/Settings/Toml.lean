import RegexAudit.Settings.Toml.Value

/-!
# TOML

Reads documents in the TOML format.

## Main definitions

* `Toml.statement`: reads a header or a named value into a draft.
* `Toml.ofText`: the document that a whole text spells.
-/

namespace RegexAudit

namespace Toml

open RegexAudit.Reader Document.Reader

/-- What has been read: the outermost table, and the path of the latest header. -/
structure Draft where
  root : Table
  header : List String

namespace Draft

/-- The draft before anything is read. -/
def empty : Draft := ⟨.empty .own, []⟩

/-- Adds a named value under the latest header. -/
def define? (draft : Draft) (path : List String) (name : String) (value : Document) :
    Option Draft := do
  let root ← draft.root.update? .header (·.define? path name value) draft.header
  some { draft with root }

/-- Begins a table with a header of its own. -/
def open? (draft : Draft) (path : List String) (name : String) : Option Draft := do
  some ⟨← draft.root.open? path name, path ++ [name]⟩

/-- Begins a further table of a header in double brackets. -/
def append? (draft : Draft) (path : List String) (name : String) : Option Draft := do
  some ⟨← draft.root.append? path name, path ++ [name]⟩

end Draft

/-- Reads a header or a named value. -/
def statement (limit : Nat) (draft : Draft) : Document.Reader Draft := do
  if ← accept ['[', '['] then
    let (path, name) ← path limit
    required [']', ']']
    valueOf (draft.append? path name)
  else if ← accept ['['] then
    let (path, name) ← path limit
    required [']']
    valueOf (draft.open? path name)
  else
    let (path, name) ← path limit
    required ['=']
    space
    valueOf (draft.define? path name (← value limit maxNesting))

/-- Moves over the end of a line, with space and a comment before it. -/
def endLine : Document.Reader Unit := do
  space
  let _ ← comment
  unless (← atEnd) || (← newline) do malformed

/-- Reads lines to the end of the text. -/
def statements (limit : Nat) : Document.Reader Draft :=
  iterate limit (fun draft => do
    trivia limit
    if ← atEnd then return .inr draft
    else
      let draft ← statement limit draft
      endLine
      return .inl draft) .empty

/-- The document that a whole text spells. A byte order mark may stand in front. -/
def ofText (text : List Char) : Except Error Document :=
  Document.ofText (do
    let _ ← accept ['\uFEFF']
    return (← statements text.length).root.document) text

end Toml

end RegexAudit
