import RegexAudit.Check.Basic

/-!
# Alternations of single characters

Reports alternations such as `a|b|c`, which are better written as a class.
-/

namespace RegexAudit

namespace Regex

/-- Whether a tree is a single character. -/
def Tree.isLiteral : Tree → Bool
  | .literal .. => true
  | _ => false

/-- The span of an alternation of single characters. -/
def Tree.charAlternation? : Tree → Option Span
  | .alternation span branches =>
    if 1 < branches.length && branches.all Tree.isLiteral then some span else none
  | _ => none

end Regex

namespace Check

/-- Reports alternations of single characters. -/
def singleCharAlternations : Check :=
  .onTree "regex/single-char-alternation"
    "Single-character alternations should be replaced with character classes" fun _ tree =>
    (tree.preorder.filterMap Regex.Tree.charAlternation?).map
      (.plain · "Replace this alternation with a character class.")

end Check

end RegexAudit
