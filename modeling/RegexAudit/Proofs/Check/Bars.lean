import RegexAudit.Proofs.Check.Scores
import RegexAudit.Proofs.Regex.Separators

/-!
# Places of bars

For two branches that follow each other the scorer records the first bar behind the first of them.
This is the bar that separates them, unless a comment before that one holds a bar.

## Main definitions

* `FirstBar`: a place is the first bar behind an offset.

## Main statements

* `SeparatedBy.barBetween`: the bar recorded and the bar that separates.
* `Check.bars_between_branches`: the bars of a pattern that is parsed.
* `Check.bars_inside_comment`: a bar that is recorded and separates nothing.
-/

namespace RegexAudit

namespace Regex

variable {pattern : List Char} {left right : Tree} {lo hi place bar : Nat}

/-- The place is the first bar behind an offset. -/
structure FirstBar (pattern : List Char) (lo place : Nat) : Prop where
  before : ∃ text, Text.slice? pattern ⟨lo, place⟩ = some text ∧ '|' ∉ text
  mark : Text.slice? pattern ⟨place, place + 1⟩ = some ['|']

theorem firstBar_of_slice? {before after : List Char}
    (h : Text.slice? pattern ⟨lo, hi⟩ = some (before ++ '|' :: after)) (hbefore : '|' ∉ before) :
    FirstBar pattern lo (lo + Text.width before) := by
  obtain ⟨rest, hdrop, -⟩ := Text.slice?_eq_some_iff_drop?.1 h
  rw [List.append_assoc] at hdrop
  refine ⟨⟨before, Text.slice?_eq_some_iff_drop?.2 ⟨_, hdrop, rfl⟩, hbefore⟩, ?_⟩
  exact Text.slice?_eq_some_iff_drop?.2 ⟨after ++ rest, Text.drop?_append hdrop, rfl⟩

/-- The bar recorded is the first one in the text between the spans. -/
theorem barBetween_of_slice? {before after : List Char}
    (h : Text.slice? pattern ⟨left.span.stop, right.span.start⟩ = some (before ++ '|' :: after))
    (hbefore : '|' ∉ before) :
    barBetween pattern left right =
      ⟨left.span.stop + Text.width before, left.span.stop + Text.width before + 1⟩ := by
  have hfirst : (before ++ '|' :: after).takeWhile (· != '|') = before := by
    rw [List.takeWhile_append_of_pos, List.takeWhile_cons_of_neg (by simp), List.append_nil]
    intro c hc
    exact bne_iff_ne.2 (ne_of_mem_of_not_mem hc hbefore)
  rw [barBetween, Text.slice, h, Option.getD_some, if_pos (by simp), hfirst]

/-- Between the spans of two trees that a bar separates there is that bar, behind space and
comments. -/
theorem SeparatedBy.exists_slice? (h : SeparatedBy pattern left right bar) :
    ∃ before after, Text.IsTrivia before ∧
      Text.slice? pattern ⟨left.span.stop, bar⟩ = some before ∧
      Text.slice? pattern ⟨left.span.stop, right.span.start⟩ = some (before ++ '|' :: after) := by
  obtain ⟨before, hbefore, htrivia⟩ := h.before
  obtain ⟨after, hafter, -⟩ := h.behind
  refine ⟨before, after, htrivia, hbefore, ?_⟩
  exact Text.slice?_append hbefore (Text.slice?_append h.mark hafter)

/-- In space and comments a bar stands only inside a comment. -/
theorem hash_mem_of_bar_mem {text : List Char} (h : Text.IsTrivia text) (hbar : '|' ∈ text) :
    '#' ∈ text := by
  induction h with
  | nil => cases hbar
  | blank c s hc _ ih =>
    obtain rfl | hbar := List.mem_cons.1 hbar
    · cases hc
    · exact List.mem_cons_of_mem c (ih hbar)
  | comment => exact List.mem_cons_self

/-- The bar recorded is the first one behind the left tree. It is the bar that separates the trees
unless there is one in the comments before that. -/
theorem SeparatedBy.barBetween (h : SeparatedBy pattern left right bar) :
    ∃ place, barBetween pattern left right = ⟨place, place + 1⟩ ∧
      FirstBar pattern left.span.stop place ∧ place ≤ bar ∧
      (place = bar ↔ '|' ∉ Text.slice pattern ⟨left.span.stop, bar⟩) ∧
      ('#' ∉ pattern → place = bar) := by
  obtain ⟨before, after, htrivia, hbefore, hgap⟩ := h.exists_slice?
  obtain ⟨rest, hdrop, hbar⟩ := Text.slice?_eq_some_iff_drop?.1 hbefore
  rw [Text.slice, hbefore, Option.getD_some]
  by_cases hmem : '|' ∈ before
  · -- the bar recorded lies in a comment
    obtain ⟨body, more, rfl, hbody⟩ := List.eq_append_cons_of_mem hmem
    rw [List.append_assoc, List.cons_append] at hgap
    refine ⟨_, barBetween_of_slice? hgap hbody, firstBar_of_slice? hgap hbody, ?_, ?_, ?_⟩
    · rw [hbar, Text.width_append]
      omega
    · have hwidth : 0 < Text.width ('|' :: more) := by
        rw [Text.width_cons]
        exact Nat.add_pos_left (Char.utf8Size_pos _) _
      rw [hbar, Text.width_append]
      simp only [hmem, not_true_eq_false, iff_false]
      omega
    · intro hhash
      obtain ⟨lead, rfl, -⟩ := Text.drop?_eq_some_iff.1 hdrop
      have hinside := List.mem_append_left rest (hash_mem_of_bar_mem htrivia hmem)
      exact absurd (List.mem_append_right lead hinside) hhash
  · -- nothing before the separator holds a bar
    refine ⟨_, barBetween_of_slice? hgap hmem, firstBar_of_slice? hgap hmem, hbar.ge, ?_, ?_⟩
    · simp only [hbar, hmem, not_false_eq_true]
    · exact fun _ => hbar.symm

theorem bars_getElem? {branches : List Tree} {i : Nat} (hleft : branches[i]? = some left)
    (hright : branches[i + 1]? = some right) :
    (bars pattern branches)[i]? = some (barBetween pattern left right) := by
  rw [bars_eq_zipWith, List.getElem?_zipWith_eq_some]
  exact ⟨left, right, hleft, by rw [List.getElem?_tail, hright], rfl⟩

mutual

/-- Among the contributions of a tree those for the bars of an alternation in it stand together. -/
theorem infix_scores {span : Span} {branches : List Tree} : ∀ (t : Tree) (n : UInt32),
    .alternation span branches ∈ t.preorder →
      ∃ m, (bars pattern branches).map (scored m) <:+: t.scores pattern n
  | .alternation span' branches', n, h => by
    rw [Tree.preorder] at h
    rw [Tree.scores]
    obtain hself | h := List.mem_cons.1 h
    · -- the alternation itself, of which the bars come before all in its branches
      cases hself
      rw [bars_eq_zipWith]
      exact ⟨n, (List.prefix_append _ _).isInfix⟩
    · obtain ⟨m, hm⟩ := infix_scoresAll branches' (n + 1) h
      exact ⟨m, hm.trans (List.suffix_append _ _).isInfix⟩
  | .repetition span' operator body, n, h => by
    rw [Tree.preorder] at h
    rw [Tree.scores]
    obtain ⟨m, hm⟩ := infix_scores body (n + 1) ((List.mem_cons.1 h).resolve_left nofun)
    exact ⟨m, hm.trans (List.suffix_cons _ _).isInfix⟩
  | .group span' kind body, n, h => by
    rw [Tree.preorder] at h
    obtain ⟨m, hm⟩ := infix_scores body n ((List.mem_cons.1 h).resolve_left nofun)
    refine ⟨m, ?_⟩
    obtain _ | _ | ⟨flagSpan, _ | ⟨item, items⟩⟩ := kind
    · exact hm
    · exact hm
    · exact hm
    · exact hm.trans (List.suffix_cons _ _).isInfix
  | .concat span' items, n, h => by
    rw [Tree.preorder] at h
    exact infix_scoresAll items n ((List.mem_cons.1 h).resolve_left nofun)
  | .empty _, n, h | .flags .., n, h | .literal .., n, h | .dot _, n, h | .assertion .., n, h
  | .predefined _, n, h | .bracketed .., n, h => by
    cases List.mem_singleton.1 h

/-- The same among the contributions of some trees. -/
theorem infix_scoresAll {span : Span} {branches : List Tree} : ∀ (ts : List Tree) (n : UInt32),
    .alternation span branches ∈ Tree.preorderAll ts →
      ∃ m, (bars pattern branches).map (scored m) <:+: Tree.scoresAll pattern n ts
  | [], n, h => by cases h
  | t :: ts, n, h => by
    rw [Tree.preorderAll] at h
    rw [Tree.scoresAll]
    obtain h | h := List.mem_append.1 h
    · obtain ⟨m, hm⟩ := infix_scores t n h
      exact ⟨m, hm.trans (List.prefix_append _ _).isInfix⟩
    · obtain ⟨m, hm⟩ := infix_scoresAll ts n h
      exact ⟨m, hm.trans (List.suffix_append _ _).isInfix⟩

end

end Regex

namespace Check

open Regex

variable {ws : Bool} {pattern : List Char} {tree : Tree} {span : Span} {branches : List Tree}

/-- For an alternation in a pattern that is parsed the scorer records one bar for each two branches
that follow each other. Between these there is a single bar that separates them. The one recorded is
the first bar behind the earlier branch, so it is the one that separates unless a comment before
that holds a bar. -/
theorem bars_between_branches (hparse : Regex.parse ws pattern = .ok tree)
    (hmem : .alternation span branches ∈ tree.preorder) :
    2 ≤ branches.length ∧ (bars pattern branches).length = branches.length - 1 ∧
      (∀ s : Scorer, (s.enter pattern (.alternation span branches)).contributions =
        ((bars pattern branches).map (scored s.nesting)).reverse ++ s.contributions) ∧
      (∃ nesting, (bars pattern branches).map (scored nesting) <:+: tree.contributions pattern) ∧
      ∀ i left right, branches[i]? = some left → branches[i + 1]? = some right →
        ∃ bar place, SeparatedBy pattern left right bar ∧
          (∀ other, SeparatedBy pattern left right other → other = bar) ∧
          (bars pattern branches)[i]? = some ⟨place, place + 1⟩ ∧
          FirstBar pattern left.span.stop place ∧ place ≤ bar ∧
          (place = bar ↔ '|' ∉ Text.slice pattern ⟨left.span.stop, bar⟩) ∧
          ('#' ∉ pattern → place = bar) := by
  obtain ⟨htwo, hchain⟩ : Tree.Barred pattern (.alternation span branches) :=
    isBarred_of_parse hparse _ hmem
  refine ⟨htwo, bars_length pattern branches, ?_, ?_, ?_⟩
  · intro s
    simp only [Scorer.enter, Scorer.foldl_nested]
  · rw [contributions_eq_scores]
    exact infix_scores tree 0 hmem
  · intro i left right hleft hright
    obtain ⟨hi, rfl⟩ := List.getElem?_eq_some_iff.1 hleft
    obtain ⟨hi', rfl⟩ := List.getElem?_eq_some_iff.1 hright
    obtain ⟨bar, hbar⟩ := List.isChain_iff_getElem.1 hchain i hi'
    obtain ⟨place, hplace, hfirst, hle, hiff, hhash⟩ := hbar.barBetween
    refine ⟨bar, place, hbar, fun other hother => hother.unique hbar.toClosedBy, ?_, hfirst, hle,
      hiff, hhash⟩
    rw [bars_getElem? hleft hright, hplace]

/-- Two branches with a comment of one character behind the first. -/
def commented (c : Char) : List Char := ['.', '#', c, '\n', '|', 'b']

/-- The branches of a pattern that is commented in this way. -/
def commentedBranches : List Tree := [.dot ⟨0, 1⟩, .literal ⟨5, 6⟩ 'b']

/-- The bar behind the comment separates the branches. -/
theorem separatedBy_commented {c : Char} (hc : c ≠ '\n') (hwidth : c.utf8Size = 1) :
    SeparatedBy (commented c) (.dot ⟨0, 1⟩) (.literal ⟨5, 6⟩ 'b') 4 := by
  have hlead : Text.width ['.', '#', c, '\n'] = 4 := by
    simp only [Text.width_cons, hwidth]
    rfl
  have hdrop : Text.drop? 4 (commented c) = some ['|', 'b'] :=
    Text.drop?_eq_some_iff.2 ⟨['.', '#', c, '\n'], rfl, hlead⟩
  have hcomment : Text.IsTrivia ['#', c, '\n'] :=
    .comment [c] [] (by simpa using Ne.symm hc) .nil
  refine ⟨⟨⟨['#', c, '\n'], ?_, hcomment⟩, ?_⟩, [], ?_, .nil⟩
  · exact Text.slice?_eq_some_iff_drop?.2 ⟨['|', 'b'], rfl, hlead.symm⟩
  · exact Text.slice?_eq_some_iff_drop?.2 ⟨['b'], hdrop, rfl⟩
  · exact Text.slice?_eq_some_iff_drop?.2 ⟨['b'], @Text.drop?_append _ ['|'] _ _ hdrop, rfl⟩

/-- Where the comment is `#x`, the bar behind it is recorded. -/
theorem bars_between_branches_comment :
    Regex.parse true (commented 'x') = .ok (.alternation ⟨0, 6⟩ commentedBranches) ∧
      SeparatedBy (commented 'x') (.dot ⟨0, 1⟩) (.literal ⟨5, 6⟩ 'b') 4 ∧
      (bars (commented 'x') commentedBranches)[0]? = some ⟨4, 5⟩ := by
  have hparse : Regex.parse true (commented 'x') = .ok (.alternation ⟨0, 6⟩ commentedBranches) := by
    with_unfolding_all rfl
  have hseparated : SeparatedBy (commented 'x') (.dot ⟨0, 1⟩) (.literal ⟨5, 6⟩ 'b') 4 :=
    separatedBy_commented (by decide) rfl
  have hslice : Text.slice (commented 'x') ⟨1, 4⟩ = ['#', 'x', '\n'] := by
    with_unfolding_all rfl
  obtain ⟨-, -, -, -, hpairs⟩ := bars_between_branches hparse List.mem_cons_self
  obtain ⟨bar, place, -, hunique, hplace, -, -, hiff, -⟩ := hpairs 0 _ _ rfl rfl
  obtain rfl := hunique 4 hseparated
  obtain rfl : place = 4 := hiff.2 (by
    rw [show (Tree.dot ⟨0, 1⟩).span.stop = 1 from rfl, hslice]
    decide)
  exact ⟨hparse, hseparated, hplace⟩

/-- Where the comment is `#|`, the bar in it is recorded, though another one separates the
branches. -/
theorem bars_inside_comment :
    Regex.parse true (commented '|') = .ok (.alternation ⟨0, 6⟩ commentedBranches) ∧
      (∀ bar, SeparatedBy (commented '|') (.dot ⟨0, 1⟩) (.literal ⟨5, 6⟩ 'b') bar ↔ bar = 4) ∧
      (Tree.alternation ⟨0, 6⟩ commentedBranches).contributions (commented '|') =
        [⟨⟨2, 3⟩, 1, 0⟩] := by
  have hseparated : SeparatedBy (commented '|') (.dot ⟨0, 1⟩) (.literal ⟨5, 6⟩ 'b') 4 :=
    separatedBy_commented (by decide) rfl
  refine ⟨by with_unfolding_all rfl, fun bar => ⟨fun h => ?_, ?_⟩, by with_unfolding_all rfl⟩
  · exact h.unique hseparated.toClosedBy
  · rintro rfl
    exact hseparated

end Check

end RegexAudit
