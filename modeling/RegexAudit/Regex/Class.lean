import RegexAudit.Regex.Escape

/-!
# Bracketed classes

Reads what stands between square brackets: characters, ranges, predefined and
nested classes, and the operators between sets.

## Main definitions

* `OpenClass`: a class of which the closing bracket has not been read.
* `Reader.classStep`: reads one item, operator or bracket.
* `Reader.bracketed`: reads a class to its closing bracket.

## Design notes

The classes that are open form a stack, the innermost first. All operators
have one precedence and bind to the left, so an open class holds at most one
left side that waits for its right side.
-/

namespace RegexAudit

namespace Regex

/-- A class of which the closing bracket has not been read. -/
structure OpenClass where
  /-- The span of what opened the class, where its absence of an end is reported. -/
  opener : Span
  negated : Bool
  /-- The operator last read and its left side. -/
  pending : Option (SetOperator × ClassSet)
  /-- The offset where the items since the last operator begin. -/
  itemsStart : Nat
  /-- The items since the last operator, last first. -/
  items : List ClassItem
deriving Repr

namespace OpenClass

/-- Adds an item. -/
def push (c : OpenClass) (item : ClassItem) : OpenClass := { c with items := item :: c.items }

/-- The items since the last operator as one item. -/
def operand (c : OpenClass) : ClassItem :=
  match c.items.reverse with
  | [] => .empty (.empty c.itemsStart)
  | [item] => item
  | first :: more =>
    let last := (c.items.head?.map (·.span.stop)).getD first.span.stop
    .union ⟨first.span.start, last⟩ (first :: more)

/-- The contents read so far: the left side that waits, if any, joined with the items after it. -/
def set (c : OpenClass) : ClassSet :=
  let rhs := ClassSet.item c.operand
  match c.pending with
  | none => rhs
  | some (op, lhs) => .operation ⟨lhs.span.start, rhs.span.stop⟩ op lhs rhs

/-- Takes an operator after which further items begin at an offset. -/
def operate (c : OpenClass) (op : SetOperator) (start : Nat) : OpenClass :=
  { c with pending := some (op, c.set), itemsStart := start, items := [] }

end OpenClass

/-- The names of the classes that may be written between `[:` and `:]`. -/
def posixNames : List String :=
  ["alnum", "alpha", "ascii", "blank", "cntrl", "digit", "graph", "lower", "print", "punct",
    "space", "upper", "word", "xdigit"]

/-- The number of characters of a POSIX class whose opening bracket is followed by `cs`, that
bracket not counted. -/
def posixLength? (cs : List Char) : Option Nat :=
  match cs with
  | ':' :: cs =>
    let (mark, body) := match cs with
      | '^' :: body => (1, body)
      | _ => (0, cs)
    let name := body.takeWhile (· != ':')
    if posixNames.contains (String.ofList name) &&
        [':', ']'].isPrefixOf (body.dropWhile (· != ':')) then
      some (1 + mark + name.length + 2)
    else none
  | _ => none

/-- The character that decides whether a hyphen before it makes a range. Space is passed over where
it is ignored, and so is the first mark of a comment. -/
def afterHyphen (ws : Bool) (inComment : Bool) : List Char → Option Char
  | [] => none
  | c :: cs =>
    if ws && Text.isBlank c then afterHyphen ws inComment cs
    else if ws && !inComment && c == '#' then afterHyphen ws true cs
    else some c

/-- Whether a text begins with a hyphen that makes a range. -/
def makesRange (ws : Bool) : List Char → Bool
  | '-' :: cs => afterHyphen ws false cs != some ']' && afterHyphen ws false cs != some '-'
  | _ => false

/-- The operator of which the first character is `ch` and `cs` follows. -/
def setOperator? (ch : Char) (cs : List Char) : Option SetOperator :=
  match ch, cs with
  | '&', '&' :: _ => some .intersection
  | '-', '-' :: _ => some .difference
  | '~', '~' :: _ => some .symmetricDifference
  | _, _ => none

/-- What one step in a class comes to: the class is finished, or some are still open. -/
inductive ClassProgress where
  | finished (tree : Tree)
  | inside (innermost : OpenClass) (outer : List OpenClass)
deriving Repr

namespace Reader

open RegexAudit.Reader

/-- Fails unless there is more to read. -/
def orUnclosed (span : Nat → Span) : Reader Unit := do
  let _ ← peekOr .classUnclosed span

/-- Reads hyphens at the beginning of a class that opened at `start`, as literals. Those already
read are given last first. -/
def leadingHyphens (ws : Bool) (start : Nat) :
    (room : Nat) → List ClassItem → Reader (List ClassItem)
  | 0, items => return items
  | room + 1, items => do
    if (← peek?) = some '-' then
      let hyphen ← offset
      next ws
      orUnclosed fun _ => ⟨start, start⟩
      leadingHyphens ws start room (.literal (charSpan hyphen '-') '-' :: items)
    else return items

/-- Reads the beginning of a class whose bracket stands at `start`. A closing bracket that comes
first is a literal. -/
def openClass (ws : Bool) (start : Nat) : Reader OpenClass := do
  skip ws
  orUnclosed (⟨start, ·⟩)
  let negated := (← peek?) = some '^'
  if negated then
    next ws
    orUnclosed (⟨start, ·⟩)
  let here ← place
  let hyphens ← leadingHyphens ws start here.rest.length []
  let bracket ← offset
  if hyphens.isEmpty && (← peek?) == some ']' then
    next ws
    orUnclosed (⟨start, ·⟩)
    return ⟨⟨start, ← offset⟩, negated, none, here.offset, [.literal (charSpan bracket ']') ']']⟩
  else return ⟨⟨start, ← offset⟩, negated, none, here.offset, hyphens⟩

/-- Reads the rest of an escape or single character that begins with `ch` at `start`. -/
def classPrimitive (ws : Bool) (start : Nat) (ch : Char) : Reader Primitive :=
  if ch = '\\' then escape ws start else return .literal (charSpan start ch) ch

/-- The character that a primitive is as one end of a range. -/
def rangeEnd : Primitive → Reader Char
  | .literal _ c => return c
  | p => fail .classRangeLiteral p.span

/-- The item that a primitive is on its own. -/
def singleItem : Primitive → Reader ClassItem
  | .literal span c => return .literal span c
  | .predefined span => return .predefined span
  | .assertion span _ => fail .classEscapeInvalid span

/-- Reads the rest of an item or a range that begins with `ch` at `start`, in a class with the given
opener. -/
def itemOrRange (ws : Bool) (opener : Span) (start : Nat) (ch : Char) : Reader ClassItem := do
  let first ← classPrimitive ws start ch
  skip ws
  orUnclosed fun _ => opener
  if makesRange ws (← place).rest then
    next ws
    let ch ← peekOr .classUnclosed fun _ => opener
    let middle ← offset
    advance 1
    let second ← classPrimitive ws middle ch
    let lo ← rangeEnd first
    let hi ← rangeEnd second
    let span : Span := ⟨first.span.start, second.span.stop⟩
    if hi < lo then fail .classRangeInvalid span else return .range span lo hi
  else singleItem first

/-- Reads on in a class after the character `ch`, which stood at `start`. -/
def classStep (ws : Bool) (c : OpenClass) (outer : List OpenClass) (start : Nat) (ch : Char) :
    Reader ClassProgress := do
  if ch = '[' then
    match posixLength? (← place).rest with
    | some n =>
      advance n
      return .inside (c.push (.predefined ⟨start, ← offset⟩)) outer
    | none => return .inside (← openClass ws start) (c :: outer)
  else if ch = ']' then
    let span : Span := ⟨c.opener.start, ← offset⟩
    match outer with
    | [] => return .finished (.bracketed span c.negated c.set)
    | parent :: outer => return .inside (parent.push (.bracketed span c.negated c.set)) outer
  else
    match setOperator? ch (← place).rest with
    | some op =>
      advance 1
      return .inside (c.operate op (← offset)) outer
    | none => return .inside (c.push (← itemOrRange ws c.opener start ch)) outer

end Reader

/-- Reads the rest of a class, of which `c` is the innermost part that is open. -/
def readClass (ws : Bool) (c : OpenClass) (outer : List OpenClass) (here : Cursor) :
    Except Fault (Tree × Cursor) :=
  match _hrest : (here.skipTrivia ws).rest with
  | [] => .error ⟨.classUnclosed, c.opener⟩
  | ch :: cs =>
    match _h : (Reader.classStep ws c outer (here.skipTrivia ws).offset ch).run
        ((here.skipTrivia ws).past [ch] cs) with
    | .error fault => .error fault
    | .ok (.finished tree, there) => .ok (tree, there)
    | .ok (.inside c' outer', there) => readClass ws c' outer' there
termination_by here.rest.length
decreasing_by
  have := Cursor.skipTrivia_length_le ws here
  have := Reader.le _ _h
  simp only [_hrest, Cursor.past, List.length_cons] at *
  omega

theorem readClass_length_le {ws : Bool} {c : OpenClass} {outer : List OpenClass}
    {here there : Cursor} {t : Tree} (h : readClass ws c outer here = .ok (t, there)) :
    there.rest.length ≤ here.rest.length := by
  fun_induction readClass ws c outer here with
  | case1 => simp at h
  | case2 => simp at h
  | case3 c outer here ch cs hrest tree there' hstep =>
    have := Cursor.skipTrivia_length_le ws here
    have := Reader.le _ hstep
    simp only [hrest, Cursor.past, List.length_cons, Except.ok.injEq, Prod.mk.injEq] at *
    rw [← h.2]
    omega
  | case4 c outer here ch cs hrest c' outer' there' hstep ih =>
    have := Cursor.skipTrivia_length_le ws here
    have := Reader.le _ hstep
    have := ih h
    simp only [hrest, Cursor.past, List.length_cons] at *
    omega

namespace Reader

open RegexAudit.Reader

/-- Reads the rest of a class that is open. -/
def restOfClass (ws : Bool) (c : OpenClass) : Reader Tree where
  run := readClass ws c []
  le := readClass_length_le

/-- Reads a class whose opening bracket stood at `start`. -/
def bracketed (ws : Bool) (start : Nat) : Reader Tree := do
  restOfClass ws (← openClass ws start)

end Reader

end Regex

end RegexAudit
