import Mathlib.Data.List.Basic
import RegexAudit.Check.AnchorPrecedence
import RegexAudit.Proofs.Check.Subject

/-!
# Anchors on an outermost branch

Which alternations are reported for their anchors.

An alternation is reported if its first branch begins with an anchor and *some* other branch does
not, or if its last branch ends with one and some other does not. This includes all alternations
where *no* other branch has the anchor. With three or more branches it includes others as well, such
as `^a|^b|c`.

## Main definitions

* `Tree.Opens`, `Tree.Closes`: a tree begins or ends with an anchor.
* `OnlyFirstOpens`, `OnlyLastCloses`: of all branches, only the outermost one has the anchor.
* `Uniform`: all of some trees have a property, or none has it.

## Main statements

* `Check.anchorPrecedence_uniform`: what is reported, and when it is what the outermost branch alone
  has.
* `Check.anchorPrecedence_shared_anchor`: an anchor that two of three branches have.
-/

namespace RegexAudit

namespace Regex

/-- The tree begins with an anchor for the start of a line or of the text: it is one, or a sequence
of which the first item begins with one. -/
inductive Tree.Opens : Tree → Prop
  | startLine (span : Span) : Opens (.assertion span .startLine)
  | startText (span : Span) : Opens (.assertion span .startText)
  | concat (span : Span) (first : Tree) (more : List Tree) :
      Opens first → Opens (.concat span (first :: more))

/-- The tree ends with an anchor for the end of a line or of the text: it is one, or a sequence of
which the last item ends with one. -/
inductive Tree.Closes : Tree → Prop
  | endLine (span : Span) : Closes (.assertion span .endLine)
  | endText (span : Span) : Closes (.assertion span .endText)
  | concat (span : Span) (more : List Tree) (last : Tree) :
      Closes last → Closes (.concat span (more ++ [last]))

/-- There are two or more branches, of which the first begins with an anchor and no other does. -/
def OnlyFirstOpens (branches : List Tree) : Prop :=
  ∃ first others, branches = first :: others ∧ others ≠ [] ∧ first.Opens ∧
    ∀ branch ∈ others, ¬branch.Opens

/-- There are two or more branches, of which the last ends with an anchor and no other does. -/
def OnlyLastCloses (branches : List Tree) : Prop :=
  ∃ others last, branches = others ++ [last] ∧ others ≠ [] ∧ last.Closes ∧
    ∀ branch ∈ others, ¬branch.Closes

/-- All of the trees have the property, or none has it. -/
def Uniform (property : Tree → Prop) (trees : List Tree) : Prop :=
  (∀ t ∈ trees, property t) ∨ ∀ t ∈ trees, ¬property t

namespace Tree

theorem opens_of_startsAnchored : ∀ {t : Tree}, t.startsAnchored = true → t.Opens
  | .assertion span kind, h => by
    cases kind with
    | startLine => exact .startLine span
    | startText => exact .startText span
    | _ => cases h
  | .concat span [], h => by simp [startsAnchored, firstAnchored] at h
  | .concat span (first :: more), h => by
    rw [startsAnchored, firstAnchored] at h
    exact .concat span first more (opens_of_startsAnchored h)
  | .empty _, h | .flags _ _, h | .literal _ _, h | .dot _, h | .predefined _, h
  | .bracketed _ _ _, h | .repetition _ _ _, h | .group _ _ _, h | .alternation _ _, h => by
    simp [startsAnchored] at h

/-- A tree is tested for an anchor in front by its first item and that one's first item. -/
theorem startsAnchored_iff {t : Tree} : t.startsAnchored = true ↔ t.Opens := by
  refine ⟨opens_of_startsAnchored, fun h => ?_⟩
  induction h with
  | startLine => rfl
  | startText => rfl
  | concat span first more _ ih => rwa [startsAnchored, firstAnchored]

theorem lastAnchored_append_singleton (more : List Tree) (last : Tree) :
    lastAnchored (more ++ [last]) = last.endsAnchored := by
  induction more with
  | nil => rw [List.nil_append, lastAnchored]
  | cons t more ih =>
    rw [List.cons_append, lastAnchored, ih]
    simp

mutual

theorem closes_of_endsAnchored : ∀ {t : Tree}, t.endsAnchored = true → t.Closes
  | .assertion span kind, h => by
    cases kind with
    | endLine => exact .endLine span
    | endText => exact .endText span
    | _ => cases h
  | .concat span items, h => by
    rw [endsAnchored] at h
    obtain ⟨more, last, rfl, hlast⟩ := closes_of_lastAnchored h
    exact .concat span more last hlast
  | .empty _, h | .flags _ _, h | .literal _ _, h | .dot _, h | .predefined _, h
  | .bracketed _ _ _, h | .repetition _ _ _, h | .group _ _ _, h | .alternation _ _, h => by
    simp [endsAnchored] at h

theorem closes_of_lastAnchored : ∀ {items : List Tree}, lastAnchored items = true →
    ∃ more last, items = more ++ [last] ∧ last.Closes
  | [], h => by simp [lastAnchored] at h
  | [t], h => by
    rw [lastAnchored] at h
    exact ⟨[], t, rfl, closes_of_endsAnchored h⟩
  | t :: u :: ts, h => by
    rw [lastAnchored] at h
    · obtain ⟨more, last, heq, hlast⟩ := closes_of_lastAnchored h
      exact ⟨t :: more, last, by rw [heq, List.cons_append], hlast⟩
    · simp

end

/-- A tree is tested for an anchor at its end by its last item and that one's last item. -/
theorem endsAnchored_iff {t : Tree} : t.endsAnchored = true ↔ t.Closes := by
  refine ⟨closes_of_endsAnchored, fun h => ?_⟩
  induction h with
  | endLine => rfl
  | endText => rfl
  | concat span more last _ ih => rwa [endsAnchored, lastAnchored_append_singleton]

end Tree

/-- Of two or more branches, the first begins with an anchor and some other does not. -/
def FirstOpensApart (branches : List Tree) : Prop :=
  ∃ first others, branches = first :: others ∧ first.Opens ∧ ∃ branch ∈ others, ¬branch.Opens

/-- Of two or more branches, the last ends with an anchor and some other does not. -/
def LastClosesApart (branches : List Tree) : Prop :=
  ∃ others last, branches = others ++ [last] ∧ last.Closes ∧ ∃ branch ∈ others, ¬branch.Closes

section Branches

variable {branches : List Tree}

/-- Some other branch has to lack the anchor, and not all of them. -/
theorem hasAmbiguousAnchors_iff : Tree.hasAmbiguousAnchors branches = true ↔
    FirstOpensApart branches ∨ LastClosesApart branches := by
  rw [Tree.hasAmbiguousAnchors, Bool.or_eq_true]
  refine or_congr ?_ ?_
  · cases branches with
    | nil => simp [FirstOpensApart]
    | cons first others => simp [FirstOpensApart, ← Tree.startsAnchored_iff]
  · obtain rfl | ⟨others, last, rfl⟩ := branches.eq_nil_or_concat'
    · simp [LastClosesApart]
    · simp [LastClosesApart, ← Tree.endsAnchored_iff]

/-- An anchor that no other branch has is one that some other branch lacks. -/
theorem OnlyFirstOpens.apart (h : OnlyFirstOpens branches) : FirstOpensApart branches := by
  obtain ⟨first, others, rfl, hne, hfirst, hothers⟩ := h
  obtain ⟨branch, hbranch⟩ := List.exists_mem_of_ne_nil others hne
  exact ⟨first, others, rfl, hfirst, branch, hbranch, hothers branch hbranch⟩

theorem OnlyLastCloses.apart (h : OnlyLastCloses branches) : LastClosesApart branches := by
  obtain ⟨others, last, rfl, hne, hlast, hothers⟩ := h
  obtain ⟨branch, hbranch⟩ := List.exists_mem_of_ne_nil others hne
  exact ⟨others, last, rfl, hlast, branch, hbranch, hothers branch hbranch⟩

/-- Among other branches that are alike, one that lacks the anchor stands for all. -/
theorem FirstOpensApart.only (h : FirstOpensApart branches)
    (halike : Uniform Tree.Opens branches.tail) : OnlyFirstOpens branches := by
  obtain ⟨first, others, rfl, hfirst, branch, hbranch, hlacks⟩ := h
  refine ⟨first, others, rfl, List.ne_nil_of_mem hbranch, hfirst, ?_⟩
  exact halike.resolve_left fun hall => hlacks (hall branch hbranch)

theorem LastClosesApart.only (h : LastClosesApart branches)
    (halike : Uniform Tree.Closes branches.dropLast) : OnlyLastCloses branches := by
  obtain ⟨others, last, rfl, hlast, branch, hbranch, hlacks⟩ := h
  rw [List.dropLast_concat] at halike
  refine ⟨others, last, rfl, List.ne_nil_of_mem hbranch, hlast, ?_⟩
  exact halike.resolve_left fun hall => hlacks (hall branch hbranch)

end Branches

end Regex

namespace Check

open Regex

/-- What is said about an alternation with an anchor on an outermost branch. -/
def anchorFinding (span : Span) : Finding :=
  .plain span
    "Group parts of the regex together to make the intended operator precedence explicit."

variable {pattern : List Char} {flags : Flags} {tree : Tree}

theorem anchorPrecedence_run : Regex.parse (flags.contains .comments) pattern = .ok tree →
    anchorPrecedence.run (.ofPattern pattern flags) = match tree with
      | .alternation span branches =>
        if Tree.hasAmbiguousAnchors branches then [anchorFinding span] else []
      | _ => [] :=
  run_onTree

/-- There is at most one finding, on a pattern that is an alternation as a whole. It is there if the
first branch begins or the last one ends with an anchor that some other branch lacks, and so always
if all others lack it. Where the other branches are alike, this is the only case. -/
theorem anchorPrecedence_uniform
    (hparse : Regex.parse (flags.contains .comments) pattern = .ok tree) :
    (anchorPrecedence.run (.ofPattern pattern flags) ≠ [] →
      ∃ span branches, tree = .alternation span branches ∧
        anchorPrecedence.run (.ofPattern pattern flags) = [anchorFinding span]) ∧
    ∀ span branches, tree = .alternation span branches →
      (anchorPrecedence.run (.ofPattern pattern flags) ≠ [] ↔
        FirstOpensApart branches ∨ LastClosesApart branches) ∧
      (OnlyFirstOpens branches ∨ OnlyLastCloses branches →
        anchorPrecedence.run (.ofPattern pattern flags) ≠ []) ∧
      (Uniform Tree.Opens branches.tail → Uniform Tree.Closes branches.dropLast →
        (anchorPrecedence.run (.ofPattern pattern flags) ≠ [] ↔
          OnlyFirstOpens branches ∨ OnlyLastCloses branches)) := by
  have hrun := anchorPrecedence_run hparse
  constructor
  · intro hne
    cases tree with
    | alternation span branches =>
      refine ⟨span, branches, rfl, ?_⟩
      rw [hrun] at hne ⊢
      dsimp only at hne ⊢
      split
      · rfl
      · next hnone => exact absurd (if_neg hnone) hne
    | _ => exact absurd hrun hne
  · rintro span branches rfl
    have hreported : anchorPrecedence.run (.ofPattern pattern flags) ≠ [] ↔
        FirstOpensApart branches ∨ LastClosesApart branches := by
      rw [hrun, ← hasAmbiguousAnchors_iff]
      simp
    have honly : OnlyFirstOpens branches ∨ OnlyLastCloses branches →
        anchorPrecedence.run (.ofPattern pattern flags) ≠ [] :=
      fun h => hreported.2 (h.imp OnlyFirstOpens.apart OnlyLastCloses.apart)
    refine ⟨hreported, honly, fun hopens hcloses => ⟨fun h => ?_, honly⟩⟩
    exact (hreported.1 h).imp (·.only hopens) (·.only hcloses)

/-- The branches `^a`, `b` and `c$`. -/
def outerAnchors : List Tree := [
  .concat ⟨0, 2⟩ [.assertion ⟨0, 1⟩ .startLine, .literal ⟨1, 2⟩ 'a'],
  .literal ⟨3, 4⟩ 'b',
  .concat ⟨5, 7⟩ [.literal ⟨5, 6⟩ 'c', .assertion ⟨6, 7⟩ .endLine]]

/-- In `^a|b|c$` the middle branch has neither anchor, and each outermost branch lacks that of the
other one. -/
theorem anchorPrecedence_uniform_outer :
    Regex.parse false ['^', 'a', '|', 'b', '|', 'c', '$'] = .ok (.alternation ⟨0, 7⟩ outerAnchors) ∧
      Uniform Tree.Opens outerAnchors.tail ∧ Uniform Tree.Closes outerAnchors.dropLast ∧
      OnlyFirstOpens outerAnchors ∧
      anchorPrecedence.run (.ofPattern ['^', 'a', '|', 'b', '|', 'c', '$'] .none) ≠ [] := by
  have hparse : Regex.parse false ['^', 'a', '|', 'b', '|', 'c', '$'] =
      .ok (.alternation ⟨0, 7⟩ outerAnchors) := by
    with_unfolding_all rfl
  have hopens : ∀ branch ∈ outerAnchors.tail, ¬branch.Opens := by
    simp [outerAnchors, ← Tree.startsAnchored_iff, Tree.startsAnchored, Tree.firstAnchored]
  have hcloses : ∀ branch ∈ outerAnchors.dropLast, ¬branch.Closes := by
    simp [outerAnchors, ← Tree.endsAnchored_iff, Tree.endsAnchored, Tree.lastAnchored]
  have honly : OnlyFirstOpens outerAnchors :=
    ⟨_, _, rfl, List.cons_ne_nil _ _, .concat _ _ _ (.startLine _), hopens⟩
  have hreported :=
    ((@anchorPrecedence_uniform _ .none _ hparse).2 _ _ rfl).2.2 (.inr hopens) (.inr hcloses)
  exact ⟨hparse, .inr hopens, .inr hcloses, honly, hreported.2 (.inl honly)⟩

/-- The branches `^a`, `^b` and `c`. -/
def sharedAnchor : List Tree := [
  .concat ⟨0, 2⟩ [.assertion ⟨0, 1⟩ .startLine, .literal ⟨1, 2⟩ 'a'],
  .concat ⟨3, 5⟩ [.assertion ⟨3, 4⟩ .startLine, .literal ⟨4, 5⟩ 'b'],
  .literal ⟨6, 7⟩ 'c']

/-- In `^a|^b|c` the anchor belongs to two of three branches. It is reported all the same. -/
theorem anchorPrecedence_shared_anchor :
    Regex.parse false ['^', 'a', '|', '^', 'b', '|', 'c'] = .ok (.alternation ⟨0, 7⟩ sharedAnchor) ∧
      ¬(OnlyFirstOpens sharedAnchor ∨ OnlyLastCloses sharedAnchor) ∧
      anchorPrecedence.run (.ofPattern ['^', 'a', '|', '^', 'b', '|', 'c'] .none) =
        [anchorFinding ⟨0, 7⟩] := by
  have hparse : Regex.parse false ['^', 'a', '|', '^', 'b', '|', 'c'] =
      .ok (.alternation ⟨0, 7⟩ sharedAnchor) := by
    with_unfolding_all rfl
  have hfirst : ¬OnlyFirstOpens sharedAnchor := by
    rintro ⟨first, others, ⟨⟩, -, -, hothers⟩
    exact hothers _ List.mem_cons_self (.concat _ _ _ (.startLine _))
  have hlast : ¬OnlyLastCloses sharedAnchor := by
    rintro ⟨others, last, heq, -, hcloses, -⟩
    have hlast : sharedAnchor.getLast? = some last := by rw [heq, List.getLast?_concat]
    cases hlast
    cases hcloses
  refine ⟨hparse, not_or.2 ⟨hfirst, hlast⟩, ?_⟩
  exact @anchorPrecedence_run _ .none _ hparse

end Check

end RegexAudit
