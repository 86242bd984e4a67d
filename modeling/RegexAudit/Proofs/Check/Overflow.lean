import RegexAudit.Proofs.Check.Scores

/-!
# Scores that do not fit a word

Some bars in parentheses, with stars behind them, make a pattern that is parsed. Each bar costs one
point more than there are stars, so with enough of them the points do not fit a word.

## Main definitions

* `barred`: such a pattern.
* `Starred`: a tree with some repetitions around it.

## Main statements

* `parse_barred`: such a pattern is parsed, into an alternation of empty branches.
* `Starred.le_score`: the points of its bars.
* `Check.overflows_barred`: the check stops on it.
-/

namespace RegexAudit

namespace Regex

/-- Some bars in parentheses, with stars behind them. -/
def barred (bars stars : Nat) : List Char :=
  '(' :: (List.replicate bars '|' ++ ')' :: List.replicate stars '*')

/-- The second tree is the first one with some repetitions around it. -/
inductive Starred : Tree → Nat → Tree → Prop
  | zero (body : Tree) : Starred body 0 body
  | succ {span operator : Span} {body tree : Tree} {stars : Nat}
      (h : Starred (.repetition span operator body) stars tree) : Starred body (stars + 1) tree

/-- The tree does nothing but set flags. -/
def Tree.IsFlags : Tree → Prop
  | .flags .. => True
  | _ => False

/-- All trees are empty. -/
def AllEmpty (trees : List Tree) : Prop := ∀ t ∈ trees, ∃ span, t = .empty span

namespace State

variable {branches items : List Tree} {start branchStart offset : Nat} {frames : List Frame}
  {names : List (List Char)}

theorem read_nil : State.read ⟨⟨false, branches, start, branchStart, items⟩, frames, names⟩
      ⟨offset, []⟩ =
    State.finish ⟨⟨false, branches, start, branchStart, items⟩, frames, names⟩ offset := by
  rw [read]
  rfl

/-- One round of reading where nothing is ignored. -/
theorem read_cons {ch : Char} {rest : List Char} {st' : State} {there : Cursor}
    (hstep : (State.step ⟨⟨false, branches, start, branchStart, items⟩, frames, names⟩ offset
      ch).run ⟨offset + ch.utf8Size, rest⟩ = .ok (st', there)) :
    State.read ⟨⟨false, branches, start, branchStart, items⟩, frames, names⟩
      ⟨offset, ch :: rest⟩ = st'.read there := by
  rw [read]
  split
  · next hnil =>
    have hnil : ch :: rest = [] := hnil
    cases hnil
  · next c cs hcons =>
    have hcons : ch :: rest = c :: cs := hcons
    cases hcons
    split
    · next fault hfault =>
      cases hfault.symm.trans hstep
    · next st'' there' hok =>
      cases hok.symm.trans hstep
      rfl

/-- Bars end empty branches. -/
theorem read_bars (start : Nat) (frames : List Frame) (names : List (List Char)) (rest : List Char)
    (n : Nat) (branches : List Tree) (branchStart offset : Nat) :
    ∃ (more : List Tree) (branchStart' : Nat), more.length = n ∧ AllEmpty more ∧
      State.read ⟨⟨false, branches, start, branchStart, []⟩, frames, names⟩
          ⟨offset, List.replicate n '|' ++ rest⟩ =
        State.read ⟨⟨false, more ++ branches, start, branchStart', []⟩, frames, names⟩
          ⟨offset + n, rest⟩ := by
  induction n generalizing branches branchStart offset with
  | zero => exact ⟨[], branchStart, rfl, nofun, rfl⟩
  | succ n ih =>
    obtain ⟨more, branchStart', hlength, hempty, hread⟩ :=
      ih (.empty ⟨branchStart, offset⟩ :: branches) (offset + 1) (offset + 1)
    refine ⟨more ++ [.empty ⟨branchStart, offset⟩], branchStart', ?_, ?_, ?_⟩
    · rw [List.length_append, hlength]
      rfl
    · intro t ht
      obtain ht | ht := List.mem_append.1 ht
      · exact hempty t ht
      · exact ⟨_, List.mem_singleton.1 ht⟩
    · rw [List.replicate_succ, List.cons_append, read_cons (by rfl), List.append_assoc]
      refine hread.trans ?_
      rw [Nat.add_assoc, Nat.add_comm 1 n]
      rfl

/-- A star repeats the tree in front of it. -/
theorem step_star {body : Tree} (hbody : ¬body.IsFlags) (n : Nat) :
    (State.step ⟨⟨false, [], start, branchStart, [body]⟩, [], names⟩ offset '*').run
        ⟨offset + 1, List.replicate n '*'⟩ =
      .ok (⟨⟨false, [], start, branchStart,
          [.repetition ⟨body.span.start, offset + 1⟩ ⟨offset, offset + 1⟩ body]⟩, [], names⟩,
        ⟨offset + 1, List.replicate n '*'⟩) := by
  have hpop : Level.popRepeatable? ⟨false, [], start, branchStart, [body]⟩ =
      some (body, ⟨false, [], start, branchStart, []⟩) := by
    cases body with
    | flags => exact absurd trivial hbody
    | _ => rfl
  -- No question mark follows that would make the star lazy.
  have hlazy : (Reader.uncounted offset).run ⟨offset + 1, List.replicate n '*'⟩ =
      .ok (⟨offset, offset + 1⟩, ⟨offset + 1, List.replicate n '*'⟩) := by
    cases n with
    | zero => rfl
    | succ n => rfl
  show (State.repetition _ offset (Reader.uncounted offset)).run _ = _
  rw [repetition, hpop]
  show (Reader.bind (Reader.uncounted offset) _).run _ = _
  rw [Reader.bind]
  simp only [hlazy]
  rfl

/-- Stars behind a tree repeat it. -/
theorem read_stars (start branchStart : Nat) (names : List (List Char)) (n : Nat) (body : Tree)
    (offset : Nat) (hbody : ¬body.IsFlags) :
    ∃ tree, Starred body n tree ∧
      State.read ⟨⟨false, [], start, branchStart, [body]⟩, [], names⟩
        ⟨offset, List.replicate n '*'⟩ = .ok tree := by
  induction n generalizing body offset with
  | zero => exact ⟨body, .zero body, read_nil⟩
  | succ n ih =>
    obtain ⟨tree, hstarred, hread⟩ := ih
      (.repetition ⟨body.span.start, offset + 1⟩ ⟨offset, offset + 1⟩ body) (offset + 1) id
    refine ⟨tree, hstarred.succ, ?_⟩
    rw [List.replicate_succ, read_cons (step_star hbody n)]
    exact hread

end State

theorem Starred.overNested? {body tree : Tree} {stars depth : Nat} (h : Starred body stars tree)
    (hdepth : depth + stars ≤ nestLimit) (hbody : body.overNested? (depth + stars) = none) :
    tree.overNested? depth = none := by
  induction h with
  | zero body => exact hbody
  | succ h ih =>
    apply ih (by omega)
    rw [Tree.overNested?, if_neg (by omega)]
    exact hbody

/-- The points of a tree are among those of the tree with some repetitions around it. -/
theorem Starred.suffix_scores (pattern : List Char) {body tree : Tree} {stars : Nat}
    (h : Starred body stars tree) (n : UInt32) :
    body.scores pattern (n + .ofNat stars) <:+ tree.scores pattern n := by
  induction h with
  | zero body =>
    have hsame : n + .ofNat 0 = n := UInt32.add_zero n
    exact ⟨[], congrArg (body.scores pattern) hsame⟩
  | succ h ih =>
    refine List.IsSuffix.trans ?_ ih
    rw [Tree.scores, UInt32.ofNat_add, ← UInt32.add_assoc]
    exact List.suffix_cons _ _

theorem overNestedAll?_of_allEmpty {trees : List Tree} (h : AllEmpty trees) (depth : Nat) :
    Tree.overNestedAll? depth trees = none := by
  induction trees with
  | nil => rfl
  | cons t ts ih =>
    obtain ⟨span, rfl⟩ := h t List.mem_cons_self
    exact ih fun u hu => h u (List.mem_cons_of_mem _ hu)

/-- The tree of a level whose branches are empty. -/
theorem Level.tree_of_allEmpty {branches : List Tree} (hne : branches ≠ [])
    (h : AllEmpty branches) (start branchStart stop : Nat) :
    ∃ all, Level.tree ⟨false, branches, start, branchStart, []⟩ stop =
        .alternation ⟨start, stop⟩ all ∧
      all.length = branches.length + 1 ∧ AllEmpty all := by
  refine ⟨branches.reverse ++ [.empty ⟨branchStart, stop⟩], ?_, ?_, ?_⟩
  · rw [Level.tree]
    split
    · next hnil => exact absurd (List.reverse_eq_nil_iff.1 hnil) hne
    · rfl
  · rw [List.length_append, List.length_reverse]
    rfl
  · intro t ht
    obtain ht | ht := List.mem_append.1 ht
    · exact h t (List.mem_reverse.1 ht)
    · exact ⟨_, List.mem_singleton.1 ht⟩

/-- Bars and stars are parsed, if there are not too many stars. -/
theorem parse_barred {bars stars : Nat} (hbars : 0 < bars) (hstars : stars + 2 ≤ nestLimit) :
    ∃ tree span inner branches, Regex.parse false (barred bars stars) = .ok tree ∧
      Starred (.group span .capturing (.alternation inner branches)) stars tree ∧
      branches.length = bars + 1 ∧ AllEmpty branches := by
  let stop := 1 + bars
  let opened : List Frame := [⟨0, .capturing, .fresh false 0⟩]
  obtain ⟨more, branchStart, hlength, hempty, hbarsRead⟩ := State.read_bars 1 opened []
    (')' :: List.replicate stars '*') bars [] 1 1
  rw [List.append_nil] at hbarsRead
  have hne : more ≠ [] := List.ne_nil_of_length_pos (by omega)
  obtain ⟨branches, htree, hbranches, hall⟩ := Level.tree_of_allEmpty hne hempty 1 branchStart stop
  let group : Tree := .group ⟨0, stop + 1⟩ .capturing (.alternation ⟨1, stop⟩ branches)
  obtain ⟨tree, hstarred, hstarsRead⟩ := State.read_stars 0 0 [] stars group (stop + 1) id
  have hopen : (State.step ⟨.fresh false 0, [], []⟩ 0 '(').run
        ⟨1, List.replicate bars '|' ++ ')' :: List.replicate stars '*'⟩ =
      .ok (⟨.fresh false 1, opened, []⟩,
        ⟨1, List.replicate bars '|' ++ ')' :: List.replicate stars '*'⟩) := by
    cases bars with
    | zero => cases hbars
    | succ n => rfl
  have hclose : (State.step ⟨⟨false, more, 1, branchStart, []⟩, opened, []⟩ stop ')').run
        ⟨stop + 1, List.replicate stars '*'⟩ =
      .ok (⟨⟨false, [], 0, 0, [group]⟩, [], []⟩, ⟨stop + 1, List.replicate stars '*'⟩) := by
    show Except.ok (State.mk (Level.push _ (.group _ _ (Level.tree _ stop))) _ _, _) = _
    rw [htree]
    rfl
  have hread : State.read ⟨.fresh false 0, [], []⟩ (.ofText (barred bars stars)) = .ok tree := by
    refine (State.read_cons hopen).trans (hbarsRead.trans ?_)
    exact (State.read_cons hclose).trans hstarsRead
  refine ⟨tree, _, _, branches, parse_eq_ok_iff.2 ⟨hread, ?_⟩, hstarred, ?_, hall⟩
  · apply hstarred.overNested? (by omega)
    rw [Tree.overNested?, if_neg (by omega), Tree.overNested?, if_neg (by omega)]
    exact overNestedAll?_of_allEmpty hall _
  · rw [hbranches, hlength]

/-- Each bar in parentheses costs one point more than there are repetitions around them. -/
theorem Starred.le_score (pattern : List Char) {tree : Tree} {span inner : Span}
    {branches : List Tree} {stars : Nat}
    (h : Starred (.group span .capturing (.alternation inner branches)) stars tree)
    (hstars : stars ≤ nestLimit) :
    (branches.length - 1) * (stars + 1) ≤ tree.score pattern := by
  let nesting : UInt32 := 0 + .ofNat stars
  have hnesting : nesting.toNat = stars := by
    rw [nestLimit] at hstars
    rw [show nesting = UInt32.ofNat stars from UInt32.zero_add _]
    exact UInt32.toNat_ofNat_of_lt' (by rw [UInt32.size]; omega)
  let barScores := (bars pattern branches).map (scored nesting)
  obtain ⟨before, hbefore⟩ := h.suffix_scores pattern 0
  have hscores : tree.scores pattern 0 =
      before ++ (barScores ++ Tree.scoresAll pattern (nesting + 1) branches) := by
    rw [← hbefore]
    show before ++ ((branches.zipWith (barBetween pattern) branches.tail).map (scored nesting) ++
      Tree.scoresAll pattern (nesting + 1) branches) = _
    rw [← bars_eq_zipWith]
  have hbars : (barScores.map (·.points.toNat)).sum = (branches.length - 1) * (stars + 1) := by
    have hpoints : (·.points.toNat) ∘ scored nesting = fun _ => stars + 1 := by
      funext span
      have hexact := (isExact_scored (by rw [hnesting]; exact hstars) span).points
      rw [show (scored nesting span).nesting = nesting from rfl, hnesting] at hexact
      exact hexact
    rw [List.map_map, hpoints, List.map_const', List.sum_replicate, bars_length]
    rfl
  rw [Tree.score, hscores, List.map_append, List.map_append, List.sum_append, List.sum_append,
    hbars]
  omega

end Regex

namespace Check

open Regex

/-- The check for complexity stops on enough bars and stars, whatever the maximum is, and comes to
no finding. -/
theorem overflows_barred {bars stars : Nat} (hbars : 0 < bars) (hstars : stars + 2 ≤ nestLimit)
    (hgreat : 2 ^ 32 ≤ bars * (stars + 1)) (max : UInt32) :
    ∃ tree, Regex.parse false (barred bars stars) = .ok tree ∧
      2 ^ 32 ≤ tree.score (barred bars stars) ∧
      (complexity max).overflows (.ofPattern (barred bars stars) .none) = true ∧
      (complexity max).run (.ofPattern (barred bars stars) .none) = [] := by
  obtain ⟨tree, span, inner, branches, hparse, hstarred, hlength, -⟩ := parse_barred hbars hstars
  have hscore : 2 ^ 32 ≤ tree.score (barred bars stars) := by
    have hle := hstarred.le_score (barred bars stars) (by omega)
    rw [hlength, Nat.add_sub_cancel] at hle
    exact Nat.le_trans hgreat hle
  have hplain : Regex.parse (Flags.none.contains .comments) (barred bars stars) = .ok tree := hparse
  refine ⟨tree, hparse, hscore, (overflows_complexity hplain max).2 hscore, ?_⟩
  have hnone : tree.score? = none := (Tree.score?_eq_none_iff _).2 hscore
  rw [run_complexity hplain, complexityFindings, hnone]

/-- Under 248 stars the points of 17249280 bars exceed the greatest maximum, but there is no
finding: they do not fit a word. -/
theorem overflows_barred_greatest :
    ∃ tree, Regex.parse false (barred 17249280 248) = .ok tree ∧
      (4294967295 : UInt32).toNat < tree.score (barred 17249280 248) ∧
      (complexity 4294967295).overflows (.ofPattern (barred 17249280 248) .none) = true ∧
      (complexity 4294967295).run (.ofPattern (barred 17249280 248) .none) = [] := by
  have hbars : 0 < 17249280 := by decide
  have hstars : 248 + 2 ≤ nestLimit := by decide
  have hgreat : 2 ^ 32 ≤ 17249280 * (248 + 1) := by decide
  exact overflows_barred hbars hstars hgreat 4294967295

end Check

end RegexAudit
