import RegexAudit.Check.Basic

/-!
# What checks see of a pattern

A check looks at a pattern, its flags and what parsing it with these flags came to.

## Main definitions

* `Subject.ofPattern`: what a check sees of a pattern that is parsed with some flags.

## Main statements

* `Check.run_onTree`: a check that looks at trees sees the tree of a pattern that is parsed.
-/

namespace RegexAudit

/-- What a check sees of a pattern that is parsed with some flags. -/
def Subject.ofPattern (pattern : List Char) (flags : Flags) : Subject :=
  ⟨pattern, flags, Regex.parse (flags.contains .comments) pattern⟩

theorem Check.run_onTree {id description : String} {run : Subject → Regex.Tree → List Finding}
    {pattern : List Char} {flags : Flags} {tree : Regex.Tree}
    (hparse : Regex.parse (flags.contains .comments) pattern = .ok tree) :
    (Check.onTree id description run).run (.ofPattern pattern flags) =
      run (.ofPattern pattern flags) tree := by
  simp only [onTree, Subject.tree?, Subject.ofPattern, hparse, Except.toOption]

end RegexAudit
