import RegexAudit.Check.Basic

/-!
# Empty groups

Reports groups with nothing inside, such as `()` and `(|)`.

## Main definitions

* `Tree.isHollow`: a body that consists of nothing, or of branches that do.
-/

namespace RegexAudit

namespace Regex

mutual

/-- Whether a tree is empty, or an alternation of such trees. -/
def Tree.isHollow : Tree → Bool
  | .empty _ => true
  | .alternation _ branches => Tree.allHollow branches
  | _ => false

/-- Whether all trees are empty, or alternations of such trees. -/
def Tree.allHollow : List Tree → Bool
  | [] => true
  | t :: ts => t.isHollow && Tree.allHollow ts

end

/-- The span of a group with nothing inside. -/
def Tree.emptyGroup? : Tree → Option Span
  | .group span _ body => if body.isHollow then some span else none
  | _ => none

end Regex

namespace Check

/-- Reports groups with nothing inside. -/
def emptyGroups : Check :=
  .onTree "regex/empty-group" "Regular expressions should not contain empty groups" fun _ tree =>
    (tree.preorder.filterMap Regex.Tree.emptyGroup?).map (.plain · "Remove this empty group.")

end Check

end RegexAudit
