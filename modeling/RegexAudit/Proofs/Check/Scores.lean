import Mathlib.Algebra.BigOperators.Group.List.Basic
import Mathlib.Algebra.Ring.Nat
import RegexAudit.Check.Complexity
import RegexAudit.Proofs.Check.Subject
import RegexAudit.Proofs.Regex.Reading

/-!
# Scores by recursion

The scorer goes through the walk of a tree with a counter, which it raises on entering an
alternation or a repetition and lowers on leaving it. Its contributions are those of a recursion on
the tree that hands the nesting down as an argument, and the counter is never lowered below zero.

Points and nesting are words. Because of the nesting limit no sum of one contribution wraps, but
their sum need not fit a word: then the check stops, and nothing is reported.

## Main definitions

* `Tree.scores`: the contributions of a tree at a nesting, by recursion.
* `Tree.score`: the points of a whole tree, as a number without bound.
* `Tree.nests`: how far a tree nests.
* `Scorer.KeepsCount`: the counter is positive wherever a walk lowers it.

## Main statements

* `Scorer.foldl_walk`: what the walk through a tree does to any scorer.
* `Scorer.keepsCount_walk`: the counter is positive wherever it is lowered.
* `Tree.addScore?_eq`: the points are added up as the contributions come.
* `Tree.score?_eq_some_iff`, `Tree.score?_eq_none_iff`: the sum in words and the exact one.
* `Check.complexity_scores`: what is reported about a pattern that is parsed.
-/

namespace RegexAudit

namespace Regex

/-- The places of the bars between some branches: one for each two that follow each other. -/
theorem bars_eq_zipWith (pattern : List Char) (branches : List Tree) :
    bars pattern branches = branches.zipWith (barBetween pattern) branches.tail := by
  fun_induction bars pattern branches with
  | case1 left right more ih => rw [ih, List.tail_cons, List.tail_cons, List.zipWith_cons_cons]
  | case2 branches h =>
    obtain _ | ⟨t, _ | ⟨u, ts⟩⟩ := branches
    · rfl
    · rfl
    · exact absurd rfl (h t u ts)

theorem bars_length (pattern : List Char) (branches : List Tree) :
    (bars pattern branches).length = branches.length - 1 := by
  rw [bars_eq_zipWith, List.length_zipWith, List.length_tail]
  exact Nat.min_eq_right (Nat.sub_le _ _)

/-- What costs more when nested, at a nesting. -/
def scored (nesting : UInt32) (span : Span) : Contribution := ⟨span, 1 + nesting, nesting⟩

mutual

/-- The contributions of a tree inside of some alternations and repetitions, each before those of
its parts. Between two branches there is one for their bar. -/
def Tree.scores (pattern : List Char) (nesting : UInt32) : Tree → List Contribution
  | .alternation _ branches =>
    (branches.zipWith (barBetween pattern) branches.tail).map (scored nesting) ++
      Tree.scoresAll pattern (nesting + 1) branches
  | .repetition _ operator body => scored nesting operator :: body.scores pattern (nesting + 1)
  | .bracketed span _ _ | .flags span _ => [⟨span, 1, 0⟩]
  | .group _ (.flagged span (_ :: _)) body => ⟨span, 1, 0⟩ :: body.scores pattern nesting
  | .group _ _ body => body.scores pattern nesting
  | .concat _ items => Tree.scoresAll pattern nesting items
  | .empty _ | .literal _ _ | .dot _ | .assertion _ _ | .predefined _ => []

/-- The contributions of some trees, in order. -/
def Tree.scoresAll (pattern : List Char) (nesting : UInt32) : List Tree → List Contribution
  | [] => []
  | t :: ts => t.scores pattern nesting ++ Tree.scoresAll pattern nesting ts

end

/-- The points of a whole tree, as a number without bound. -/
def Tree.score (pattern : List Char) (tree : Tree) : Nat :=
  ((tree.scores pattern 0).map (·.points.toNat)).sum

mutual

/-- The number of alternations and repetitions that are inside of one another. -/
def Tree.nests : Tree → Nat
  | .alternation _ branches => Tree.nestsAll branches + 1
  | .repetition _ _ body => body.nests + 1
  | .group _ _ body => body.nests
  | .concat _ items => Tree.nestsAll items
  | _ => 0

/-- The greatest number of alternations and repetitions that are inside of one another. -/
def Tree.nestsAll : List Tree → Nat
  | [] => 0
  | t :: ts => max t.nests (Tree.nestsAll ts)

end

/-- The tree adds to the nesting of its parts. -/
def Tree.Nests : Tree → Prop
  | .alternation .. | .repetition .. => True
  | _ => False

end Regex

open Regex

/-- The sum of two words is the exact one if that fits a word. -/
theorem addPoints?_eq_some_iff {score points total : UInt32} :
    addPoints? score points = some total ↔ total.toNat = score.toNat + points.toNat := by
  have hscore := score.toNat_lt
  have hpoints := points.toNat_lt
  have htotal := total.toNat_lt
  rw [addPoints?]
  by_cases hwraps : score + points < score
  · rw [if_pos hwraps]
    rw [UInt32.lt_iff_toNat_lt, UInt32.toNat_add] at hwraps
    simp only [reduceCtorEq, false_iff]
    omega
  · rw [if_neg hwraps, Option.some.injEq, ← UInt32.toNat_inj, UInt32.toNat_add]
    rw [UInt32.lt_iff_toNat_lt, UInt32.toNat_add] at hwraps
    omega

/-- The sum of some words is the exact one if that fits a word. -/
theorem foldlM_addPoints?_eq_some_iff {score total : UInt32} {points : List UInt32} :
    points.foldlM addPoints? score = some total ↔
      total.toNat = score.toNat + (points.map UInt32.toNat).sum := by
  induction points generalizing score with
  | nil =>
    rw [List.foldlM_nil, List.map_nil, List.sum_nil, Nat.add_zero, UInt32.toNat_inj, eq_comm]
    exact Option.some_inj
  | cons first points ih =>
    rw [List.foldlM_cons, List.map_cons, List.sum_cons, ← Nat.add_assoc]
    refine Option.bind_eq_some_iff.trans ?_
    constructor
    · rintro ⟨next, hnext, hrest⟩
      rw [ih.1 hrest, addPoints?_eq_some_iff.1 hnext]
    · intro htotal
      have hfits : score.toNat + first.toNat < 2 ^ 32 := by
        have := total.toNat_lt
        omega
      have hnext : (score + first).toNat = score.toNat + first.toNat := by
        rw [UInt32.toNat_add, Nat.mod_eq_of_lt hfits]
      exact ⟨score + first, addPoints?_eq_some_iff.2 hnext, ih.2 (by rw [hnext, htotal])⟩

namespace Regex

variable {pattern : List Char}

theorem addBars?_eq (nesting score : UInt32) (branches : List Tree) :
    addBars? nesting score branches =
      ((bars pattern branches).map fun span => (scored nesting span).points).foldlM addPoints?
        score := by
  fun_induction bars pattern branches generalizing score with
  | case1 left right more ih =>
    rw [addBars?, List.map_cons, List.foldlM_cons, scored]
    cases addPoints? score (1 + nesting) with
    | none => rfl
    | some next => exact ih next
  | case2 branches h =>
    obtain _ | ⟨t, _ | ⟨u, ts⟩⟩ := branches
    · rfl
    · rfl
    · exact absurd rfl (h t u ts)

mutual

/-- The points of a tree are added to a score in the order of its contributions. -/
theorem Tree.addScore?_eq : ∀ (t : Tree) (nesting score : UInt32), t.addScore? nesting score =
    ((t.scores pattern nesting).map (·.points)).foldlM addPoints? score
  | .alternation span branches, n, score => by
    rw [addScore?, scores, List.map_append, List.foldlM_append, List.map_map, ← bars_eq_zipWith,
      show ((·.points) ∘ scored n : Span → UInt32) = fun span => (scored n span).points from rfl,
      ← addBars?_eq]
    cases addBars? n score branches with
    | none => rfl
    | some next => exact addScores?_eq branches (n + 1) next
  | .repetition span operator body, n, score => by
    rw [addScore?, scores, List.map_cons, List.foldlM_cons, scored]
    cases addPoints? score (1 + n) with
    | none => rfl
    | some next => exact addScore?_eq body (n + 1) next
  | .group span kind body, n, score => by
    obtain _ | _ | ⟨flagSpan, _ | ⟨item, items⟩⟩ := kind
    · exact addScore?_eq body n score
    · exact addScore?_eq body n score
    · exact addScore?_eq body n score
    · rw [addScore?, scores, List.map_cons, List.foldlM_cons]
      cases addPoints? score 1 with
      | none => rfl
      | some next => exact addScore?_eq body n next
  | .concat span items, n, score => by
    rw [addScore?, scores]
    exact addScores?_eq items n score
  | .bracketed .., n, score | .flags .., n, score => by
    rw [addScore?, scores, List.map_singleton, List.foldlM_cons]
    exact (Option.bind_fun_some _).symm
  | .empty _, n, score | .literal .., n, score | .dot _, n, score | .assertion .., n, score
  | .predefined _, n, score => rfl

/-- The points of some trees are added to a score in the order of their contributions. -/
theorem Tree.addScores?_eq : ∀ (ts : List Tree) (nesting score : UInt32),
    Tree.addScores? nesting score ts =
      ((Tree.scoresAll pattern nesting ts).map (·.points)).foldlM addPoints? score
  | [], n, score => rfl
  | t :: ts, n, score => by
    rw [addScores?, scoresAll, List.map_append, List.foldlM_append, ← addScore?_eq t n score]
    cases t.addScore? n score with
    | none => rfl
    | some next => exact addScores?_eq ts n next

end

/-- The points of a tree are those of its contributions together, if these fit a word. -/
theorem Tree.score?_eq_some_iff (pattern : List Char) {tree : Tree} {total : UInt32} :
    tree.score? = some total ↔ total.toNat = tree.score pattern := by
  have hfold : tree.score? = ((tree.scores pattern 0).map (·.points)).foldlM addPoints? 0 :=
    tree.addScore?_eq 0 0
  rw [hfold, foldlM_addPoints?_eq_some_iff, List.map_map, score, UInt32.toNat_zero, Nat.zero_add]
  rfl

/-- The points of a tree do not fit a word if their exact sum exceeds the greatest one. -/
theorem Tree.score?_eq_none_iff (pattern : List Char) {tree : Tree} :
    tree.score? = none ↔ 2 ^ 32 ≤ tree.score pattern := by
  constructor
  · intro hnone
    by_contra hless
    have htotal : (UInt32.ofNat (tree.score pattern)).toNat = tree.score pattern :=
      UInt32.toNat_ofNat_of_lt' (Nat.not_le.1 hless)
    rw [(score?_eq_some_iff pattern).2 htotal] at hnone
    cases hnone
  · intro hgreat
    rw [Option.eq_none_iff_forall_ne_some]
    intro total htotal
    have := total.toNat_lt
    rw [(score?_eq_some_iff pattern).1 htotal] at this
    exact absurd this (Nat.not_lt.2 hgreat)

mutual

/-- A tree that is admitted nests no further than the limit. -/
theorem Tree.nests_le : ∀ (t : Tree) {depth : Nat}, depth ≤ nestLimit → t.overNested? depth = none →
    t.nests + depth ≤ nestLimit
  | .alternation span branches, depth, hdepth, h => by
    rw [overNested?] at h
    rw [nests]
    split at h
    · cases h
    · have := nestsAll_le branches (by omega) h
      omega
  | .repetition span operator body, depth, hdepth, h => by
    rw [overNested?] at h
    rw [nests]
    split at h
    · cases h
    · have := nests_le body (by omega) h
      omega
  | .group span kind body, depth, hdepth, h => by
    rw [overNested?] at h
    rw [nests]
    split at h
    · cases h
    · have := nests_le body (by omega) h
      omega
  | .concat span items, depth, hdepth, h => by
    rw [overNested?] at h
    rw [nests]
    split at h
    · cases h
    · have := nestsAll_le items (by omega) h
      omega
  | .empty _, depth, hdepth, h | .flags .., depth, hdepth, h | .literal .., depth, hdepth, h
  | .dot _, depth, hdepth, h | .assertion .., depth, hdepth, h | .predefined _, depth, hdepth, h
  | .bracketed .., depth, hdepth, h => (Nat.zero_add depth).trans_le hdepth

/-- None of some trees that are admitted nests further than the limit. -/
theorem Tree.nestsAll_le : ∀ (ts : List Tree) {depth : Nat}, depth ≤ nestLimit →
    Tree.overNestedAll? depth ts = none → Tree.nestsAll ts + depth ≤ nestLimit
  | [], depth, hdepth, _ => by
    rw [nestsAll]
    omega
  | t :: ts, depth, hdepth, h => by
    rw [overNestedAll?] at h
    split at h
    · cases h
    · next hfirst =>
      have := nests_le t hdepth hfirst
      have := nestsAll_le ts hdepth h
      rw [nestsAll]
      omega

end

/-- A pattern that is parsed nests no further than the limit. -/
theorem nests_le_of_parse {ws : Bool} {tree : Tree} (h : parse ws pattern = .ok tree) :
    tree.nests ≤ nestLimit :=
  tree.nests_le (Nat.zero_le _) (parse_eq_ok_iff.1 h).2

/-- The points of a contribution are one more than its nesting, as numbers without bound, and the
nesting does not exceed the limit. -/
structure IsExact (c : Contribution) : Prop where
  nesting : c.nesting.toNat ≤ nestLimit
  points : c.points.toNat = c.nesting.toNat + 1

theorem toNat_succ_of_le {n : UInt32} (h : n.toNat ≤ nestLimit) : (n + 1).toNat = n.toNat + 1 := by
  rw [UInt32.toNat_add, UInt32.toNat_one]
  exact Nat.mod_eq_of_lt (by rw [nestLimit] at h; omega)

theorem isExact_scored {n : UInt32} (h : n.toNat ≤ nestLimit) (span : Span) :
    IsExact (scored n span) := by
  refine ⟨h, ?_⟩
  show (1 + n).toNat = _
  rw [UInt32.add_comm, toNat_succ_of_le h]
  rfl

theorem isExact_flat (span : Span) : IsExact ⟨span, 1, 0⟩ := ⟨Nat.zero_le _, rfl⟩

mutual

/-- No sum in the contributions of a tree wraps, where the tree stays within the limit. -/
theorem Tree.isExact_of_mem_scores {c : Contribution} : ∀ (t : Tree) {n : UInt32},
    n.toNat + t.nests ≤ nestLimit → c ∈ t.scores pattern n → IsExact c
  | .alternation span branches, n, hn, h => by
    rw [nests] at hn
    rw [scores] at h
    obtain h | h := List.mem_append.1 h
    · obtain ⟨span, -, rfl⟩ := List.mem_map.1 h
      exact isExact_scored (by omega) span
    · exact isExact_of_mem_scoresAll branches (by rw [toNat_succ_of_le (by omega)]; omega) h
  | .repetition span operator body, n, hn, h => by
    rw [nests] at hn
    rw [scores] at h
    obtain rfl | h := List.mem_cons.1 h
    · exact isExact_scored (by omega) operator
    · exact isExact_of_mem_scores body (by rw [toNat_succ_of_le (by omega)]; omega) h
  | .group span kind body, n, hn, h => by
    rw [nests] at hn
    obtain _ | _ | ⟨flagSpan, _ | ⟨item, items⟩⟩ := kind
    · exact isExact_of_mem_scores body hn h
    · exact isExact_of_mem_scores body hn h
    · exact isExact_of_mem_scores body hn h
    · obtain rfl | h := List.mem_cons.1 h
      · exact isExact_flat flagSpan
      · exact isExact_of_mem_scores body hn h
  | .concat span items, n, hn, h => by
    rw [nests] at hn
    exact isExact_of_mem_scoresAll items hn h
  | .bracketed span _ _, n, hn, h | .flags span _, n, hn, h => by
    obtain rfl := List.mem_singleton.1 h
    exact isExact_flat span
  | .empty _, n, hn, h | .literal .., n, hn, h | .dot _, n, hn, h | .assertion .., n, hn, h
  | .predefined _, n, hn, h => by cases h

/-- The same of the contributions of some trees. -/
theorem Tree.isExact_of_mem_scoresAll {c : Contribution} : ∀ (ts : List Tree) {n : UInt32},
    n.toNat + Tree.nestsAll ts ≤ nestLimit → c ∈ Tree.scoresAll pattern n ts → IsExact c
  | [], n, hn, h => by cases h
  | t :: ts, n, hn, h => by
    rw [nestsAll] at hn
    obtain h | h := List.mem_append.1 h
    · exact isExact_of_mem_scores t (by omega) h
    · exact isExact_of_mem_scoresAll ts (by omega) h

end

end Regex

namespace Scorer

variable {pattern : List Char}

theorem foldl_nested (s : Scorer) (spans : List Span) :
    spans.foldl nested s =
      ⟨s.nesting, (spans.map (scored s.nesting)).reverse ++ s.contributions⟩ := by
  induction spans generalizing s with
  | nil => rfl
  | cons span spans ih =>
    rw [List.foldl_cons, ih]
    simp [nested, scored]

mutual

/-- The walk through a tree adds its contributions and leaves the counter as it was. -/
theorem foldl_walk : ∀ (t : Tree) (s : Scorer), t.walk.foldl (visit pattern) s =
    ⟨s.nesting, (t.scores pattern s.nesting).reverse ++ s.contributions⟩
  | .alternation span branches, s => by
    simp [Tree.walk, Tree.scores, visit, enter, leave, foldl_nested, bars_eq_zipWith,
      foldl_walkAll branches]
  | .repetition span operator body, s => by
    simp [Tree.walk, Tree.scores, visit, enter, leave, nested, scored, foldl_walk body]
  | .group span kind body, s => by
    obtain _ | _ | ⟨flagSpan, _ | ⟨item, items⟩⟩ := kind <;>
      simp [Tree.walk, Tree.scores, visit, enter, leave, flat, foldl_walk body]
  | .concat span items, s => by
    simp [Tree.walk, Tree.scores, visit, enter, leave, foldl_walkAll items]
  | .bracketed .., s | .flags .., s => by
    simp [Tree.walk, Tree.scores, visit, enter, leave, flat]
  | .empty _, s | .literal .., s | .dot _, s | .assertion .., s | .predefined _, s => by
    simp [Tree.walk, Tree.scores, visit, enter, leave]

/-- The walks through some trees add their contributions. -/
theorem foldl_walkAll : ∀ (ts : List Tree) (s : Scorer), (Tree.walkAll ts).foldl (visit pattern) s =
    ⟨s.nesting, (Tree.scoresAll pattern s.nesting ts).reverse ++ s.contributions⟩
  | [], s => rfl
  | t :: ts, s => by
    simp [Tree.walkAll, Tree.scoresAll, foldl_walk t, foldl_walkAll ts]

end

/-- Wherever the visits leave an alternation or a repetition, the counter is positive. -/
def KeepsCount (pattern : List Char) (s : Scorer) (visits : List Visit) : Prop :=
  ∀ before t after, visits = before ++ .leave t :: after → t.Nests →
    0 < (before.foldl (visit pattern) s).nesting

section

variable {s : Scorer} {visits : List Visit} {t : Tree}

theorem keepsCount_nil : KeepsCount pattern s [] := by
  intro before t after h
  simp at h

theorem keepsCount_leave (h : t.Nests → 0 < s.nesting) : KeepsCount pattern s [.leave t] := by
  intro before u after heq hu
  obtain _ | ⟨v, before⟩ := before
  · cases heq
    exact h hu
  · simp at heq

theorem KeepsCount.enter (h : KeepsCount pattern (s.enter pattern t) visits) :
    KeepsCount pattern s (.enter t :: visits) := by
  intro before u after heq hu
  obtain _ | ⟨v, before⟩ := before
  · cases heq
  · obtain ⟨rfl, hvisits⟩ := List.cons.inj heq
    exact h before u after hvisits hu

theorem KeepsCount.append {more : List Visit} (h : KeepsCount pattern s visits)
    (hmore : KeepsCount pattern (visits.foldl (visit pattern) s) more) :
    KeepsCount pattern s (visits ++ more) := by
  intro before u after heq hu
  obtain ⟨lead, rfl, hlead⟩ | ⟨rest, rfl, hrest⟩ := List.append_eq_append_iff.1 heq
  · -- the exit is one of the later visits
    rw [List.foldl_append]
    exact hmore lead u after hlead hu
  · obtain _ | ⟨v, rest⟩ := rest
    · rw [List.append_nil] at hmore
      exact hmore [] u after hrest.symm hu
    · obtain ⟨rfl, -⟩ := List.cons.inj hrest
      exact h before u rest rfl hu

end

mutual

/-- On the walk through a tree the counter is positive wherever it is lowered, if it stays within
the limit. -/
theorem keepsCount_walk : ∀ (t : Tree) (s : Scorer), s.nesting.toNat + t.nests ≤ nestLimit →
    KeepsCount pattern s t.walk
  | .alternation span branches, s, hs => by
    rw [Tree.nests] at hs
    have hcount : (s.nesting + 1).toNat = s.nesting.toNat + 1 := toNat_succ_of_le (by omega)
    rw [Tree.walk]
    refine .enter (.append (keepsCount_walkAll branches _ ?_) (keepsCount_leave fun _ => ?_))
    · simp only [enter, foldl_nested]
      omega
    · simp only [foldl_walkAll, enter, foldl_nested, UInt32.lt_iff_toNat_lt, hcount]
      exact Nat.succ_pos _
  | .repetition span operator body, s, hs => by
    rw [Tree.nests] at hs
    have hcount : (s.nesting + 1).toNat = s.nesting.toNat + 1 := toNat_succ_of_le (by omega)
    rw [Tree.walk]
    refine .enter (.append (keepsCount_walk body _ ?_) (keepsCount_leave fun _ => ?_))
    · simp only [enter, nested]
      omega
    · simp only [foldl_walk, enter, nested, UInt32.lt_iff_toNat_lt, hcount]
      exact Nat.succ_pos _
  | .group span kind body, s, hs => by
    have hcount : (s.enter pattern (.group span kind body)).nesting = s.nesting := by
      obtain _ | _ | ⟨flagSpan, _ | ⟨item, items⟩⟩ := kind <;> rfl
    rw [Tree.walk]
    refine .enter (.append (keepsCount_walk body _ ?_) (keepsCount_leave nofun))
    rw [hcount]
    exact hs
  | .concat span items, s, hs => by
    rw [Tree.walk]
    exact .enter (.append (keepsCount_walkAll items _ hs) (keepsCount_leave nofun))
  | .empty _, s, _ | .flags .., s, _ | .literal .., s, _ | .dot _, s, _ | .assertion .., s, _
  | .predefined _, s, _ | .bracketed .., s, _ => .enter (keepsCount_leave nofun)

/-- The same holds on the walks through some trees. -/
theorem keepsCount_walkAll : ∀ (ts : List Tree) (s : Scorer),
    s.nesting.toNat + Tree.nestsAll ts ≤ nestLimit → KeepsCount pattern s (Tree.walkAll ts)
  | [], s, _ => keepsCount_nil
  | t :: ts, s, hs => by
    rw [Tree.nestsAll] at hs
    rw [Tree.walkAll]
    refine (keepsCount_walk t s (by omega)).append (keepsCount_walkAll ts _ ?_)
    rw [foldl_walk]
    exact Nat.le_trans (Nat.add_le_add_left (Nat.le_max_right _ _) _) hs

end

end Scorer

namespace Check

variable {pattern : List Char} {flags : Flags} {tree : Tree}

/-- The finding for a tree whose score exceeds a maximum: its gap is the excess, and each
contribution is a note. -/
def scoreFinding (pattern : List Char) (tree : Tree) (max : UInt32) : Finding where
  span := tree.span
  message := "Simplify this regular expression to reduce its complexity from " ++
    toString (tree.score pattern) ++ " to the " ++ toString max ++ " allowed."
  notes := (tree.scores pattern 0).map fun c => ⟨c.span, some c.message⟩
  gap := some ((tree.score pattern : Int) - max.toNat)

theorem contributions_eq_scores (pattern : List Char) (tree : Tree) :
    tree.contributions pattern = tree.scores pattern 0 := by
  rw [Tree.contributions, Scorer.foldl_walk]
  simp

/-- What is found about a tree whose points fit a word. -/
theorem complexityFindings_eq (max : UInt32) {pattern : List Char} {tree : Tree}
    (hfits : tree.score pattern < 2 ^ 32) :
    complexityFindings max pattern tree =
      if max.toNat < tree.score pattern then [scoreFinding pattern tree max] else [] := by
  have hsome : tree.score? ≠ none := by
    rw [Ne, Tree.score?_eq_none_iff pattern]
    exact Nat.not_le.2 hfits
  obtain ⟨score, hscore⟩ := Option.ne_none_iff_exists'.1 hsome
  have hexact : score.toNat = tree.score pattern := (Tree.score?_eq_some_iff pattern).1 hscore
  simp only [complexityFindings, hscore, contributions_eq_scores]
  rw [← hexact]
  by_cases h : score ≤ max
  · rw [if_pos h, if_neg (Nat.not_lt.2 (UInt32.le_iff_toNat_le.1 h))]
  · have hless : max.toNat < score.toNat := by
      rwa [UInt32.not_le, UInt32.lt_iff_toNat_lt] at h
    rw [if_neg h, if_pos hless, scoreFinding, ← hexact,
      UInt32.toNat_sub_of_le _ _ (UInt32.le_iff_toNat_le.2 (Nat.le_of_lt hless))]
    have hgap : Int.ofNat (score.toNat - max.toNat) = (score.toNat : Int) - max.toNat := by
      rw [Int.ofNat_eq_natCast]
      omega
    rw [hgap]
    rfl

theorem run_complexity (hparse : Regex.parse (flags.contains .comments) pattern = .ok tree)
    (max : UInt32) :
    (complexity max).run (.ofPattern pattern flags) = complexityFindings max pattern tree := by
  simp only [complexity, onTree, Subject.tree?, Subject.ofPattern, hparse, Except.toOption]

theorem overflows_complexity (hparse : Regex.parse (flags.contains .comments) pattern = .ok tree)
    (max : UInt32) :
    (complexity max).overflows (.ofPattern pattern flags) = true ↔ 2 ^ 32 ≤ tree.score pattern := by
  rw [← Tree.score?_eq_none_iff pattern]
  simp only [complexity, Subject.tree?, Subject.ofPattern, hparse, Except.toOption, Option.any_some,
    Option.isNone_iff_eq_none]

/-- The contributions to the score of a pattern that is parsed are those of the recursion, in which
no sum wraps, and the score adds up their points in this order. The counter is positive wherever it
is lowered, and zero at the end. The check stops exactly if all points together do not fit a word.
Otherwise there is one finding if they exceed the maximum, and none if they do not. -/
theorem complexity_scores (hparse : Regex.parse (flags.contains .comments) pattern = .ok tree)
    (max : UInt32) :
    tree.contributions pattern = tree.scores pattern 0 ∧
      tree.score? = ((tree.contributions pattern).map (·.points)).foldlM addPoints? 0 ∧
      (∀ c ∈ tree.contributions pattern, IsExact c) ∧
      Scorer.KeepsCount pattern ⟨0, []⟩ tree.walk ∧
      (tree.walk.foldl (Scorer.visit pattern) ⟨0, []⟩).nesting = 0 ∧
      ((complexity max).overflows (.ofPattern pattern flags) = true ↔
        2 ^ 32 ≤ tree.score pattern) ∧
      (tree.score pattern < 2 ^ 32 →
        (complexity max).run (.ofPattern pattern flags) =
          if max.toNat < tree.score pattern then [scoreFinding pattern tree max] else []) := by
  have hnests : (0 : UInt32).toNat + tree.nests ≤ nestLimit := by
    rw [UInt32.toNat_zero, Nat.zero_add]
    exact nests_le_of_parse hparse
  refine ⟨contributions_eq_scores pattern tree, ?_, ?_, Scorer.keepsCount_walk tree _ hnests, ?_,
    overflows_complexity hparse max, fun hfits => ?_⟩
  · rw [contributions_eq_scores]
    exact tree.addScore?_eq 0 0
  · rw [contributions_eq_scores]
    exact fun c hc => tree.isExact_of_mem_scores hnests hc
  · rw [Scorer.foldl_walk]
  · rw [run_complexity hparse, complexityFindings_eq max hfits]

/-- The tree of `(a|b)*`. -/
def repeatedChoice : Tree :=
  .repetition ⟨0, 6⟩ ⟨5, 6⟩
    (.group ⟨0, 5⟩ .capturing (.alternation ⟨1, 4⟩ [.literal ⟨1, 2⟩ 'a', .literal ⟨3, 4⟩ 'b']))

/-- In `(a|b)*` the star costs one point and the bar inside it two. -/
theorem complexity_scores_nested :
    Regex.parse false ['(', 'a', '|', 'b', ')', '*'] = .ok repeatedChoice ∧
      repeatedChoice.contributions ['(', 'a', '|', 'b', ')', '*'] =
        [⟨⟨5, 6⟩, 1, 0⟩, ⟨⟨2, 3⟩, 2, 1⟩] ∧
      (complexity 2).run (.ofPattern ['(', 'a', '|', 'b', ')', '*'] .none) =
        [scoreFinding ['(', 'a', '|', 'b', ')', '*'] repeatedChoice 2] := by
  have hparse : Regex.parse false ['(', 'a', '|', 'b', ')', '*'] = .ok repeatedChoice := by
    with_unfolding_all rfl
  have hscores : repeatedChoice.scores ['(', 'a', '|', 'b', ')', '*'] 0 =
      [⟨⟨5, 6⟩, 1, 0⟩, ⟨⟨2, 3⟩, 2, 1⟩] := by
    with_unfolding_all rfl
  have hscore : (2 : UInt32).toNat < repeatedChoice.score ['(', 'a', '|', 'b', ')', '*'] := by
    rw [Tree.score, hscores]
    decide
  have hfits : repeatedChoice.score ['(', 'a', '|', 'b', ')', '*'] < 2 ^ 32 := by
    rw [Tree.score, hscores]
    decide
  obtain ⟨hcontributions, -, -, -, -, -, hrun⟩ := @complexity_scores _ .none _ hparse 2
  have hfinding := hrun hfits
  rw [if_pos hscore] at hfinding
  exact ⟨hparse, hcontributions.trans hscores, hfinding⟩

end Check

end RegexAudit
