import RegexAudit.Regex.Fault
import RegexAudit.Regex.Tree

/-!
# The nesting limit

Groups, repetitions, alternations, sequences and bracketed classes each add a
level while inside them. A tree with too many levels is refused.

## Main definitions

* `Tree.overNested?`: the first node, in preorder, that exceeds the limit.
-/

namespace RegexAudit

namespace Regex

mutual

/-- The first node of a class item that would exceed the limit, at a given depth. -/
def ClassItem.overNested? (depth : Nat) : ClassItem → Option Span
  | .bracketed span _ set => if nestLimit ≤ depth then some span else set.overNested? (depth + 1)
  | .union span items =>
    if nestLimit ≤ depth then some span else ClassItem.overNestedAll? (depth + 1) items
  | _ => none

/-- The first node of some class items that would exceed the limit, at a given depth. -/
def ClassItem.overNestedAll? (depth : Nat) : List ClassItem → Option Span
  | [] => none
  | i :: is =>
    match i.overNested? depth with
    | some span => some span
    | none => ClassItem.overNestedAll? depth is

/-- The first node of the contents of a class that would exceed the limit, at a given depth. -/
def ClassSet.overNested? (depth : Nat) : ClassSet → Option Span
  | .item i => i.overNested? depth
  | .operation span _ lhs rhs =>
    if nestLimit ≤ depth then some span
    else
      match lhs.overNested? (depth + 1) with
      | some span => some span
      | none => rhs.overNested? (depth + 1)

end

mutual

/-- The first node of a tree that would exceed the limit, at a given depth. -/
def Tree.overNested? (depth : Nat) : Tree → Option Span
  | .bracketed span _ set => if nestLimit ≤ depth then some span else set.overNested? (depth + 1)
  | .repetition span _ body | .group span _ body =>
    if nestLimit ≤ depth then some span else body.overNested? (depth + 1)
  | .alternation span trees | .concat span trees =>
    if nestLimit ≤ depth then some span else Tree.overNestedAll? (depth + 1) trees
  | _ => none

/-- The first node of some trees that would exceed the limit, at a given depth. -/
def Tree.overNestedAll? (depth : Nat) : List Tree → Option Span
  | [] => none
  | t :: ts =>
    match t.overNested? depth with
    | some span => some span
    | none => Tree.overNestedAll? depth ts

end

/-- Admits a tree that does not exceed the limit. -/
def Tree.admit (t : Tree) : Except Fault Tree :=
  match t.overNested? 0 with
  | some span => .error ⟨.nestLimitExceeded, span⟩
  | none => .ok t

end Regex

end RegexAudit
