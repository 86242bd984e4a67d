import RegexAudit.Regex.Class
import RegexAudit.Regex.Group
import RegexAudit.Regex.Nesting
import RegexAudit.Regex.Repetition

/-!
# Parsing a regex

Reads a pattern from left to right into a tree. The groups that are open form
a stack, the innermost first.

## Main definitions

* `Level`: what has been read inside the innermost open group.
* `Frame`: an open group with the level that it interrupts.
* `State.step`: reads on after one character.
* `Regex.parse`: the tree of a pattern.

## Design notes

Each step consumes at least the character that decides it, so the loop ends.
The first fault from the left is reported. The nesting limit is checked once
the whole pattern has been read.
-/

namespace RegexAudit

namespace Regex

/-- What has been read inside the innermost open group, or in the whole pattern. -/
structure Level where
  /-- Whether space and comments are ignored. -/
  ws : Bool
  /-- The branches that are finished, last first. -/
  branches : List Tree
  /-- The offset where the first branch begins. -/
  start : Nat
  /-- The offset where the current branch begins. -/
  branchStart : Nat
  /-- The items of the current branch, last first. -/
  items : List Tree
deriving Repr

/-- An open group with the level that it interrupts. -/
structure Frame where
  /-- The offset of the opening parenthesis. -/
  opener : Nat
  kind : GroupKind
  outer : Level
deriving Repr

/-- The state of reading: the current level, the open groups, and the group names in use. -/
structure State where
  level : Level
  frames : List Frame
  names : List (List Char)
deriving Repr

namespace Level

/-- A level that begins at an offset. -/
def fresh (ws : Bool) (start : Nat) : Level := ⟨ws, [], start, start, []⟩

/-- Adds an item to the current branch. -/
def push (level : Level) (item : Tree) : Level := { level with items := item :: level.items }

/-- The current branch, which ends at an offset. -/
def branch (level : Level) (stop : Nat) : Tree :=
  match level.items.reverse with
  | [] => .empty ⟨level.branchStart, stop⟩
  | [item] => item
  | items => .concat ⟨level.branchStart, stop⟩ items

/-- Ends the current branch at a bar with the given offset. -/
def addBranch (level : Level) (bar : Nat) : Level :=
  { level with
    branches := level.branch bar :: level.branches, branchStart := bar + 1, items := [] }

/-- The tree of a level that ends at an offset. -/
def tree (level : Level) (stop : Nat) : Tree :=
  match level.branches.reverse with
  | [] => level.branch stop
  | branches => .alternation ⟨level.start, stop⟩ (branches ++ [level.branch stop])

/-- The last item together with the level without it, if it can be repeated. -/
def popRepeatable? (level : Level) : Option (Tree × Level) :=
  match level.items with
  | [] | .flags .. :: _ => none
  | item :: items => some (item, { level with items })

end Level

namespace State

/-- Adds an item to the current branch. -/
def push (st : State) (item : Tree) : State := { st with level := st.level.push item }

/-- Reads the operator of a repetition, which began at `start`, with `operator`. -/
def repetition (st : State) (start : Nat) (operator : Reader Span) : Reader State := do
  match st.level.popRepeatable? with
  | none => Reader.fail .repetitionMissing (.empty start)
  | some (item, level) =>
    let span ← operator
    return { st with level := level.push (.repetition ⟨item.span.start, span.stop⟩ span item) }

/-- Reads the beginning of a group whose parenthesis stood at `start`. -/
def openGroup (st : State) (start : Nat) : Reader State := do
  match ← Reader.opening st.level.ws st.names start with
  | .setFlags items =>
    let level := st.level.push (.flags ⟨start, ← Reader.offset⟩ items)
    return { st with level := { level with ws := (ignoresSpace? items).getD level.ws } }
  | .group kind =>
    let ws := match kind with
      | .flagged _ items => (ignoresSpace? items).getD st.level.ws
      | _ => st.level.ws
    let names := match kind with
      | .named name => name :: st.names
      | _ => st.names
    return ⟨.fresh ws (← Reader.offset), ⟨start, kind, st.level⟩ :: st.frames, names⟩

/-- Ends the innermost group at a parenthesis that stood at `start`. -/
def closeGroup (st : State) (start : Nat) : Reader State := do
  match st.frames with
  | [] => Reader.fail .groupUnopened ⟨start, start + 1⟩
  | frame :: frames =>
    let group := .group ⟨frame.opener, start + 1⟩ frame.kind (st.level.tree start)
    return { st with level := frame.outer.push group, frames }

/-- Reads on after the character `ch`, which stood at `start`. -/
def step (st : State) (start : Nat) (ch : Char) : Reader State :=
  match ch with
  | '(' => st.openGroup start
  | ')' => st.closeGroup start
  | '|' => return { st with level := st.level.addBranch start }
  | '[' => return st.push (← Reader.bracketed st.level.ws start)
  | '?' | '*' | '+' => st.repetition start (Reader.uncounted start)
  | '\x7b' => st.repetition start (Reader.counted st.level.ws start)
  | '\\' => return st.push (← Reader.escape st.level.ws start).tree
  | '.' => return st.push (.dot (charSpan start ch))
  | '^' => return st.push (.assertion (charSpan start ch) .startLine)
  | '$' => return st.push (.assertion (charSpan start ch) .endLine)
  | _ => return st.push (.literal (charSpan start ch) ch)

/-- The tree of a pattern that ends at an offset. -/
def finish (st : State) (stop : Nat) : Except Fault Tree :=
  match st.frames with
  | [] => .ok (st.level.tree stop)
  | frame :: _ => .error ⟨.groupUnclosed, ⟨frame.opener, frame.opener + 1⟩⟩

/-- Reads the rest of a pattern. -/
def read (st : State) (here : Cursor) : Except Fault Tree :=
  match _hrest : (here.skipTrivia st.level.ws).rest with
  | [] => st.finish (here.skipTrivia st.level.ws).offset
  | ch :: cs =>
    match _h : (st.step (here.skipTrivia st.level.ws).offset ch).run
        ((here.skipTrivia st.level.ws).past [ch] cs) with
    | .error fault => .error fault
    | .ok (st', there) => st'.read there
termination_by here.rest.length
decreasing_by
  have := Cursor.skipTrivia_length_le st.level.ws here
  have := Reader.le _ _h
  simp only [_hrest, Cursor.past, List.length_cons] at *
  omega

end State

/-- The tree of a pattern. The argument `ws` tells whether space and comments are ignored from the
beginning on. -/
def parse (ws : Bool) (pattern : List Char) : Except Fault Tree :=
  match State.read ⟨.fresh ws 0, [], []⟩ (.ofText pattern) with
  | .error fault => .error fault
  | .ok tree => tree.admit

end Regex

end RegexAudit
