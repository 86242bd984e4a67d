import RegexAudit.Check.Basic

/-!
# Complexity

Scores a regex as cognitive complexity scores code. Every bar, every
repetition operator, every bracketed class and every list of flags costs one
point. Bars and operators cost one more for each alternation and repetition
around them.

## Main definitions

* `Visit`: entering or leaving a node on a walk through a tree.
* `Contribution`: a place that costs points.
* `Scorer`: collects the contributions on a walk.
* `Tree.score?`: the points of a tree together, if they fit a word.
* `Check.complexity`: reports a score that exceeds a maximum.

## Design notes

The scorer sees a tree only as the walk through it, and keeps count of the
alternations and repetitions that it is inside of.

Points, nesting and scores are 32-bit words. A score that does not fit a word
ends the program (`Error.overflow`). The place of a bar takes a search through
the pattern, so the points are added up without the places, and the
contributions are collected only for a score that is reported.
-/

namespace RegexAudit

namespace Regex

/-- Entering or leaving a node on a walk through a tree. -/
inductive Visit where
  | enter (tree : Tree)
  | leave (tree : Tree)
deriving Repr

mutual

/-- The walk through a tree, depth first and from left to right. -/
def Tree.walk : Tree → List Visit
  | t@(.repetition _ _ body) => .enter t :: (body.walk ++ [.leave t])
  | t@(.group _ _ body) => .enter t :: (body.walk ++ [.leave t])
  | t@(.alternation _ branches) => .enter t :: (Tree.walkAll branches ++ [.leave t])
  | t@(.concat _ items) => .enter t :: (Tree.walkAll items ++ [.leave t])
  | t => [.enter t, .leave t]

/-- The walks through some trees, one after the other. -/
def Tree.walkAll : List Tree → List Visit
  | [] => []
  | t :: ts => t.walk ++ Tree.walkAll ts

end

end Regex

open Regex

/-- A place that costs points, some of them for nesting. -/
structure Contribution where
  span : Span
  points : UInt32
  nesting : UInt32
deriving DecidableEq, Repr

/-- What is said about a contribution. -/
def Contribution.message (c : Contribution) : String :=
  if c.nesting = 0 then "+" ++ toString c.points
  else "+" ++ toString c.points ++ " (incl " ++ toString c.nesting ++ " for nesting)"

/-- The contributions found so far, last first, and the number of alternations and repetitions
around the current place. -/
structure Scorer where
  nesting : UInt32
  contributions : List Contribution
deriving DecidableEq, Repr

/-- The place of the bar between two branches: the first bar between their spans. -/
def barBetween (pattern : List Char) (left right : Tree) : Span :=
  let gap := Text.slice pattern ⟨left.span.stop, right.span.start⟩
  let offset :=
    if gap.contains '|' then left.span.stop + Text.width (gap.takeWhile (· != '|'))
    else left.span.stop
  ⟨offset, offset + 1⟩

/-- The places of the bars between some branches. -/
def bars (pattern : List Char) : List Tree → List Span
  | left :: right :: more => barBetween pattern left right :: bars pattern (right :: more)
  | _ => []

namespace Scorer

/-- Adds a contribution that costs more when nested. -/
def nested (s : Scorer) (span : Span) : Scorer :=
  { s with contributions := ⟨span, 1 + s.nesting, s.nesting⟩ :: s.contributions }

/-- Adds a contribution that costs one point everywhere. -/
def flat (s : Scorer) (span : Span) : Scorer :=
  { s with contributions := ⟨span, 1, 0⟩ :: s.contributions }

/-- Scores the entry into a node. -/
def enter (pattern : List Char) (s : Scorer) : Tree → Scorer
  | .alternation _ branches =>
    let s := (bars pattern branches).foldl nested s
    { s with nesting := s.nesting + 1 }
  | .repetition _ operator _ =>
    let s := s.nested operator
    { s with nesting := s.nesting + 1 }
  | .bracketed span _ _ => s.flat span
  | .flags span _ => s.flat span
  | .group _ (.flagged span (_ :: _)) _ => s.flat span
  | _ => s

/-- Scores the exit from a node. -/
def leave (s : Scorer) : Tree → Scorer
  | .alternation .. | .repetition .. => { s with nesting := s.nesting - 1 }
  | _ => s

/-- Scores one step of a walk. -/
def visit (pattern : List Char) (s : Scorer) : Visit → Scorer
  | .enter t => s.enter pattern t
  | .leave t => s.leave t

end Scorer

/-- All contributions of a tree, in the order of the walk. -/
def Regex.Tree.contributions (pattern : List Char) (tree : Tree) : List Contribution :=
  (tree.walk.foldl (Scorer.visit pattern) ⟨0, []⟩).contributions.reverse

/-- Adds points to a score, if the sum fits a word. -/
def addPoints? (score points : UInt32) : Option UInt32 :=
  if score + points < score then none else some (score + points)

/-- Adds the points of the bars between some branches to a score, at a nesting. -/
def addBars? (nesting score : UInt32) : List Regex.Tree → Option UInt32
  | _ :: right :: more =>
    match addPoints? score (1 + nesting) with
    | none => none
    | some score => addBars? nesting score (right :: more)
  | _ => some score

mutual

/-- Adds the points of a tree to a score, inside of some alternations and repetitions. -/
def Regex.Tree.addScore? (nesting score : UInt32) : Tree → Option UInt32
  | .alternation _ branches =>
    match addBars? nesting score branches with
    | none => none
    | some score => Tree.addScores? (nesting + 1) score branches
  | .repetition _ _ body =>
    match addPoints? score (1 + nesting) with
    | none => none
    | some score => body.addScore? (nesting + 1) score
  | .bracketed .. | .flags .. => addPoints? score 1
  | .group _ (.flagged _ (_ :: _)) body =>
    match addPoints? score 1 with
    | none => none
    | some score => body.addScore? nesting score
  | .group _ _ body => body.addScore? nesting score
  | .concat _ items => Tree.addScores? nesting score items
  | _ => some score

/-- Adds the points of some trees to a score. -/
def Regex.Tree.addScores? (nesting score : UInt32) : List Tree → Option UInt32
  | [] => some score
  | t :: ts =>
    match t.addScore? nesting score with
    | none => none
    | some score => Tree.addScores? nesting score ts

end

/-- The points of a tree together, if they fit a word. -/
def Regex.Tree.score? (tree : Tree) : Option UInt32 := tree.addScore? 0 0

namespace Check

/-- The finding for a tree whose score exceeds the maximum. There is none for a score that does not
fit a word. -/
def complexityFindings (max : UInt32) (pattern : List Char) (tree : Tree) : List Finding :=
  match tree.score? with
  | none => []
  | some score =>
    if score ≤ max then []
    else
      [{ span := tree.span
         message := "Simplify this regular expression to reduce its complexity from " ++
           toString score ++ " to the " ++ toString max ++ " allowed."
         notes := (tree.contributions pattern).map fun c => ⟨c.span, some c.message⟩
         gap := some (.ofNat (score - max).toNat) }]

/-- Reports a regex whose score exceeds the maximum. -/
def complexity (max : UInt32) : Check :=
  { onTree "regex/complexity" "Regular expressions should not be too complicated"
      fun subject tree => complexityFindings max subject.pattern tree with
    overflows := fun subject => subject.tree?.any fun tree => tree.score?.isNone }

end Check

end RegexAudit
