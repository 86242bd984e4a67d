import RegexAudit.Text.Basic

/-!
# Regex trees

The tree of a parsed regular expression. Every node carries the span of the
pattern that it was read from.

## Main definitions

* `ClassItem`, `ClassSet`: the inside of a bracketed class.
* `Tree`: regular expressions.
* `Tree.span`, `ClassItem.span`, `ClassSet.span`: the span of a node.
* `Tree.preorder`: all nodes outside of classes, each before its parts.
-/

namespace RegexAudit

namespace Regex

/-- The operators between sets of characters. -/
inductive SetOperator where
  | intersection
  | difference
  | symmetricDifference
deriving DecidableEq, Repr

mutual

/-- The items of a bracketed class. -/
inductive ClassItem where
  /-- Nothing, as one side of an operator may be. -/
  | empty (span : Span)
  | literal (span : Span) (char : Char)
  | range (span : Span) (first last : Char)
  /-- A predefined class such as `\d`, `\pL` or `[:alpha:]`. -/
  | predefined (span : Span)
  /-- A class inside a class. -/
  | bracketed (span : Span) (negated : Bool) (set : ClassSet)
  | union (span : Span) (items : List ClassItem)
deriving Repr

/-- What a bracketed class holds. -/
inductive ClassSet where
  | item (item : ClassItem)
  | operation (span : Span) (op : SetOperator) (lhs rhs : ClassSet)
deriving Repr

end

/-- Conditions on a place in the text. -/
inductive AssertionKind where
  | startLine
  | endLine
  | startText
  | endText
  | wordBoundary
  | notWordBoundary
  | wordStart
  | wordEnd
  | wordStartHalf
  | wordEndHalf
deriving DecidableEq, Repr

/-- The pieces of a flag list such as `i-s`. -/
inductive FlagItem where
  | negation
  | flag (letter : Char)
deriving DecidableEq, Repr

/-- The kinds of group. -/
inductive GroupKind where
  | capturing
  | named (name : List Char)
  /-- A group that captures nothing, with the flags that hold inside it and their span. -/
  | flagged (flagSpan : Span) (flags : List FlagItem)
deriving DecidableEq, Repr

/-- Regular expressions. -/
inductive Tree where
  | empty (span : Span)
  /-- Flags that hold until the enclosing group ends. -/
  | flags (span : Span) (items : List FlagItem)
  | literal (span : Span) (char : Char)
  /-- Any character. -/
  | dot (span : Span)
  | assertion (span : Span) (kind : AssertionKind)
  /-- A predefined class such as `\d` or `\pL`. -/
  | predefined (span : Span)
  | bracketed (span : Span) (negated : Bool) (set : ClassSet)
  /-- A repetition, whose operator has a span of its own. -/
  | repetition (span operator : Span) (body : Tree)
  | group (span : Span) (kind : GroupKind) (body : Tree)
  | alternation (span : Span) (branches : List Tree)
  | concat (span : Span) (items : List Tree)
deriving Repr

/-- The span of a class item. -/
def ClassItem.span : ClassItem → Span
  | empty span | literal span _ | range span _ _ | predefined span | bracketed span _ _
  | union span _ => span

/-- The span of the contents of a class. -/
def ClassSet.span : ClassSet → Span
  | item i => i.span
  | operation span _ _ _ => span

namespace Tree

/-- The span of a node. -/
def span : Tree → Span
  | empty span | flags span _ | literal span _ | dot span | assertion span _ | predefined span
  | bracketed span _ _ | repetition span _ _ | group span _ _ | alternation span _
  | concat span _ => span

mutual

/-- All nodes outside of classes, each before its parts. -/
def preorder : Tree → List Tree
  | t@(repetition _ _ body) => t :: body.preorder
  | t@(group _ _ body) => t :: body.preorder
  | t@(alternation _ branches) => t :: preorderAll branches
  | t@(concat _ items) => t :: preorderAll items
  | t => [t]

/-- All nodes of some trees, in order. -/
def preorderAll : List Tree → List Tree
  | [] => []
  | t :: ts => t.preorder ++ preorderAll ts

end

end Tree

end Regex

end RegexAudit
