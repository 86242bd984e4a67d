import RegexAudit.Regex.Reader
import RegexAudit.Regex.Tree

/-!
# Beginnings of groups

Reads what follows an opening parenthesis, up to the body of the group: a
group name, flags, or nothing.

## Main definitions

* `Opening`: what an opening parenthesis turns out to begin.
* `FlagItem.switches?`: whether a flag list turns a flag on or off.
* `Reader.opening`: reads the beginning of a group.
-/

namespace RegexAudit

namespace Regex

/-- What an opening parenthesis turns out to begin. -/
inductive Opening where
  /-- A group, of which the body follows. -/
  | group (kind : GroupKind)
  /-- Flags for the rest of the enclosing group, which have been read with their parenthesis. -/
  | setFlags (items : List FlagItem)
deriving Repr

/-- The letters of the flags that a pattern may set. -/
def flagLetters : List Char := ['i', 'm', 's', 'U', 'u', 'R', 'x']

/-- Whether a flag list turns a flag on or off; the flags after a negation are turned off. -/
def FlagItem.switches? (letter : Char) (value : Bool) : List FlagItem → Option Bool
  | [] => none
  | .negation :: items => switches? letter false items
  | .flag l :: items => if l = letter then some value else switches? letter value items

/-- Whether a flag list changes how space is read, and then how. -/
def ignoresSpace? (items : List FlagItem) : Option Bool := FlagItem.switches? 'x' true items

/-- A character that may stand in a group name. -/
def isGroupNamePart (isFirst : Bool) (c : Char) : Bool :=
  c == '_' ||
    if isFirst then Text.isAlphabetic c
    else c == '.' || c == '[' || c == ']' || Text.isAlphanumeric c

/-- Reads the characters of a group name up to its closing bracket or the end of the pattern. The
characters already read are given last first. -/
def groupName (read : List Char) (c : Cursor) : Except Fault (List Char × Cursor) :=
  match _h : c.rest with
  | [] => .ok (read.reverse, c)
  | ch :: cs =>
    if ch = '>' then .ok (read.reverse, c)
    else if isGroupNamePart read.isEmpty ch then groupName (ch :: read) (c.past [ch] cs)
    else .error ⟨.groupNameInvalid, c.spanTo (c.past [ch] cs)⟩
termination_by c.rest.length
decreasing_by simp [_h, Cursor.past]

theorem groupName_length_le {read name : List Char} {c d : Cursor}
    (h : groupName read c = .ok (name, d)) : d.rest.length ≤ c.rest.length := by
  fun_induction groupName read c with
  | case1 | case2 =>
    simp only [Except.ok.injEq, Prod.mk.injEq] at h
    simp [h.2]
  | case3 read c ch cs hrest _ _ ih =>
    have := ih h
    simp only [hrest, Cursor.past, List.length_cons] at *
    omega
  | case4 => simp at h

/-- The items that a flag list may still take: each flag once, and one negation. -/
def admitFlag (items : List FlagItem) (ch : Char) : Except Cause FlagItem :=
  if ch = '-' then
    if items.contains .negation then .error .flagRepeatedNegation else .ok .negation
  else if flagLetters.contains ch then
    if items.contains (.flag ch) then .error .flagDuplicate else .ok (.flag ch)
  else .error .flagUnrecognized

/-- Reads flags up to the colon or parenthesis that ends them. The flags already read are given last
first. -/
def flagList (items : List FlagItem) (c : Cursor) : Except Fault (List FlagItem × Cursor) :=
  match _h : c.rest with
  | [] => .error ⟨.flagUnexpectedEnd, .empty c.offset⟩
  | ch :: cs =>
    if ch = ':' ∨ ch = ')' then .ok (items.reverse, c)
    else
      match admitFlag items ch with
      | .error cause => .error ⟨cause, c.spanTo (c.past [ch] cs)⟩
      | .ok item => flagList (item :: items) (c.past [ch] cs)
termination_by c.rest.length
decreasing_by simp [_h, Cursor.past]

theorem flagList_length_le {read items : List FlagItem} {c d : Cursor}
    (h : flagList read c = .ok (items, d)) : d.rest.length ≤ c.rest.length := by
  fun_induction flagList read c with
  | case1 => simp at h
  | case2 =>
    simp only [Except.ok.injEq, Prod.mk.injEq] at h
    simp [h.2]
  | case3 => simp at h
  | case4 read c ch cs hrest _ item hitem ih =>
    have := ih h
    simp only [hrest, Cursor.past, List.length_cons] at *
    omega

namespace Reader

open RegexAudit.Reader

/-- Reads the name of a group and the bracket that closes it. The name must differ from the given
ones. -/
def named (names : List (List Char)) : Reader Opening := do
  let first ← offset
  let _ ← peekOr .groupNameUnexpectedEnd .empty
  let name ← Reader.mk (groupName []) groupName_length_le
  let last ← offset
  let _ ← peekOr .groupNameUnexpectedEnd .empty
  advance 1
  if name.isEmpty then fail .groupNameEmpty (.empty first)
  else if names.contains name then fail .groupNameDuplicate ⟨first, last⟩
  else return .group (.named name)

/-- Reads flags and what ends them. The parenthesis stood at `start` and the question mark at
`mark`. -/
def flagged (start mark : Nat) : Reader Opening := do
  let _ ← peekOr .groupUnclosed fun _ => ⟨start, start + 1⟩
  let first ← offset
  let items ← Reader.mk (flagList []) flagList_length_le
  let last ← offset
  if items.getLast? = some .negation then fail .flagDanglingNegation ⟨last - 1, last⟩
  let terminator ← peek?
  advance 1
  if terminator = some ')' then
    if items.isEmpty then fail .repetitionMissing (.empty mark) else return .setFlags items
  else return .group (.flagged ⟨first, last⟩ items)

/-- Reads the beginning of a group whose parenthesis stood at `start`. Its name must differ from the
given ones. -/
def opening (ws : Bool) (names : List (List Char)) (start : Nat) : Reader Opening := do
  skip ws
  let here ← place
  match here.rest with
  | '?' :: '=' :: _ | '?' :: '!' :: _ => fail .unsupportedLookAround ⟨start, here.offset + 2⟩
  | '?' :: '<' :: '=' :: _ | '?' :: '<' :: '!' :: _ =>
    fail .unsupportedLookAround ⟨start, here.offset + 3⟩
  | '?' :: 'P' :: '<' :: _ =>
    advance 3
    named names
  | '?' :: '<' :: _ =>
    advance 2
    named names
  | '?' :: _ =>
    advance 1
    flagged start here.offset
  | _ => return .group .capturing

end Reader

end Regex

end RegexAudit
