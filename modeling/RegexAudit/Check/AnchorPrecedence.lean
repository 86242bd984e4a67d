import RegexAudit.Check.Basic

/-!
# Anchors in alternations

In `^a|b|c$` the anchors belong to the first and the last branch only, which
is rarely what was meant.

## Main definitions

* `Tree.startsAnchored`, `Tree.endsAnchored`: an anchor at either end.
* `Tree.hasAmbiguousAnchors`: an anchor on an outermost branch that another
  branch lacks.
-/

namespace RegexAudit

namespace Regex

mutual

/-- Whether a tree begins with an anchor for the start of a line or of the text. -/
def Tree.startsAnchored : Tree → Bool
  | .assertion _ kind => kind == .startLine || kind == .startText
  | .concat _ items => Tree.firstAnchored items
  | _ => false

/-- Whether the first of some trees begins with an anchor for the start. -/
def Tree.firstAnchored : List Tree → Bool
  | [] => false
  | t :: _ => t.startsAnchored

end

mutual

/-- Whether a tree ends with an anchor for the end of a line or of the text. -/
def Tree.endsAnchored : Tree → Bool
  | .assertion _ kind => kind == .endLine || kind == .endText
  | .concat _ items => Tree.lastAnchored items
  | _ => false

/-- Whether the last of some trees ends with an anchor for the end. -/
def Tree.lastAnchored : List Tree → Bool
  | [] => false
  | [t] => t.endsAnchored
  | _ :: ts => Tree.lastAnchored ts

end

/-- Whether the first branch has an anchor for the start that some other branch lacks, or the last
branch an anchor for the end. -/
def Tree.hasAmbiguousAnchors (branches : List Tree) : Bool :=
  (branches.head?.any Tree.startsAnchored && branches.tail.any (!·.startsAnchored)) ||
    (branches.getLast?.any Tree.endsAnchored && branches.dropLast.any (!·.endsAnchored))

end Regex

namespace Check

/-- Reports a pattern that is an alternation with anchors on an outermost branch only. -/
def anchorPrecedence : Check :=
  .onTree "regex/anchor-precedence"
    "Alternatives in regular expressions should be grouped when used with anchors" fun _ tree =>
    match tree with
    | .alternation span branches =>
      if Regex.Tree.hasAmbiguousAnchors branches then
        [.plain span
          "Group parts of the regex together to make the intended operator precedence explicit."]
      else []
    | _ => []

end Check

end RegexAudit
