import RegexAudit.Check.Basic

/-!
# Duplicate characters in classes

Reports items of a class that an earlier item of the same class already covers
in part: a repeated character, a character inside a range, or ranges that
overlap. Where case is ignored, ASCII letters count without their case.

## Main definitions

* `ClassItem.extent?`: the characters of a literal or a range, as an interval.
* `ClassItem.duplicates`: the items that overlap an earlier one.
* `Tree.classes`: all bracketed classes in order, outer before inner.

## Design notes

Only the items of a class itself are compared. A nested class is examined on
its own, and the sides of an operator between sets are not examined.
-/

namespace RegexAudit

namespace Regex

/-- An inclusive interval of characters. -/
structure Extent where
  first : Char
  last : Char
deriving DecidableEq, Repr

namespace Extent

/-- Whether two intervals share a character. -/
def overlaps (a b : Extent) : Bool := a.first ≤ b.last && b.first ≤ a.last

/-- The interval without the case of ASCII letters. An interval that would be turned around, or that
does not reach from letter to letter, is left as it is. -/
def foldCase (e : Extent) : Extent :=
  if e.first.isAlpha && e.last.isAlpha && e.first.toLower ≤ e.last.toLower then
    ⟨e.first.toLower, e.last.toLower⟩
  else e

end Extent

namespace ClassItem

/-- The characters of a literal or a range. -/
def extent? (ignoreCase : Bool) : ClassItem → Option Extent
  | .literal _ c => some (if ignoreCase then Extent.foldCase ⟨c, c⟩ else ⟨c, c⟩)
  | .range _ first last =>
    some (if ignoreCase then Extent.foldCase ⟨first, last⟩ else ⟨first, last⟩)
  | _ => none

/-- The spans of the items that share a character with an earlier one or with the extents already
seen. -/
def duplicates (ignoreCase : Bool) (seen : List Extent) : List ClassItem → List Span
  | [] => []
  | item :: items =>
    match item.extent? ignoreCase with
    | none => duplicates ignoreCase seen items
    | some extent =>
      let rest := duplicates ignoreCase (extent :: seen) items
      if seen.any (·.overlaps extent) then item.span :: rest else rest

end ClassItem

/-- The items of a class, unless it is an operation between sets. -/
def ClassSet.items : ClassSet → List ClassItem
  | .item (.union _ items) => items
  | .item i => [i]
  | .operation .. => []

mutual

/-- The bracketed classes in a class item, outer before inner. -/
def ClassItem.classes : ClassItem → List (Span × ClassSet)
  | .bracketed span _ set => (span, set) :: set.classes
  | .union _ items => ClassItem.classesAll items
  | _ => []

/-- The bracketed classes in some class items, in order. -/
def ClassItem.classesAll : List ClassItem → List (Span × ClassSet)
  | [] => []
  | i :: is => i.classes ++ ClassItem.classesAll is

/-- The bracketed classes inside the contents of a class, in order. -/
def ClassSet.classes : ClassSet → List (Span × ClassSet)
  | .item i => i.classes
  | .operation _ _ lhs rhs => lhs.classes ++ rhs.classes

end

/-- All bracketed classes of a tree in order, outer before inner. -/
def Tree.classes (tree : Tree) : List (Span × ClassSet) :=
  tree.preorder.flatMap fun
    | .bracketed span _ set => (span, set) :: set.classes
    | _ => []

end Regex

namespace Check

/-- The finding for a class with duplicates. -/
def duplicateFinding? (ignoreCase : Bool) (cls : Span × Regex.ClassSet) : Option Finding :=
  match Regex.ClassItem.duplicates ignoreCase [] cls.2.items with
  | [] => none
  | spans =>
    some {
      span := cls.1
      message := "Remove duplicates in this character class."
      notes := spans.map (⟨·, some "Additional duplicate"⟩)
      gap := none }

/-- Reports classes in which a character occurs twice. -/
def duplicateClassChars : Check :=
  .onTree "regex/duplicate-class-chars"
    "Character classes should not contain the same character twice" fun subject tree =>
    tree.classes.filterMap (duplicateFinding? (subject.flags.contains .caseInsensitive))

end Check

end RegexAudit
