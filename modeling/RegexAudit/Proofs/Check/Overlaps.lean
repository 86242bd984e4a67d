import RegexAudit.Proofs.Check.Duplicates

/-!
# Duplicates where case counts

Where case counts, the check for duplicates reports exactly the items that share a character with an
earlier item of their class, once for each class, in the order of the classes in the pattern.

## Main statements

* `Check.duplicates_exact`: the findings for a pattern that is parsed.
-/

namespace RegexAudit

namespace Regex

namespace ClassItem

theorem pairwise_repeated (ignoreCase : Bool) (items : List ClassItem) :
    (repeated ignoreCase items).Pairwise (· < ·) :=
  List.pairwise_lt_range.filter _

end ClassItem

end Regex

namespace Check

open Regex Regex.ClassItem

variable {pattern : List Char} {flags : Flags} {tree : Tree}

/-- Where case counts, there is a finding for each class in which an item shares a character with an
earlier one, and the items in it are all those that do. The classes are all that stand in the
pattern, alone or in another class, in the order of their brackets. -/
theorem duplicates_exact (hparse : Regex.parse (flags.contains .comments) pattern = .ok tree)
    (hcase : flags.contains .caseInsensitive = false) :
    (∀ cls, cls ∈ tree.classes ↔ tree.HasClass cls) ∧ (openings tree.classes).Pairwise (· < ·) ∧
      ∃ positions : Span × ClassSet → List Nat,
        duplicateClassChars.run (.ofPattern pattern flags) =
          tree.classes.filterMap (fun cls => findingAt? cls (positions cls)) ∧
        ∀ cls ∈ tree.classes, (positions cls).Pairwise (· < ·) ∧
          ∀ i, i ∈ positions cls ↔ ∃ j < i, MeetAt false cls.2.items j i := by
  obtain ⟨stop, horderly⟩ := orderly_of_parse hparse
  refine ⟨fun _ => Tree.mem_classes_iff, horderly.increasing,
    fun cls => repeated false cls.2.items, ?_, fun cls hcls => ⟨pairwise_repeated _ _, fun i => ?_⟩⟩
  · rw [run_ofPattern hparse rfl, hcase]
  · exact mem_repeated_iff_meetAt (horderly.forward cls hcls)

/-- The contents of the class inside of `[a-cb[dd]]`. -/
def doubledLetter : ClassSet :=
  .item (.union ⟨6, 8⟩ [.literal ⟨6, 7⟩ 'd', .literal ⟨7, 8⟩ 'd'])

/-- The contents of the whole class `[a-cb[dd]]`. -/
def nestedClass : ClassSet :=
  .item (.union ⟨1, 9⟩ [.range ⟨1, 4⟩ 'a' 'c', .literal ⟨4, 5⟩ 'b',
    .bracketed ⟨5, 9⟩ false doubledLetter])

theorem classes_nestedClass : (Tree.bracketed ⟨0, 10⟩ false nestedClass).classes =
    [(⟨0, 10⟩, nestedClass), (⟨5, 9⟩, doubledLetter)] := by
  simp [Tree.classes, Tree.preorder, nestedClass, doubledLetter, ClassSet.classes,
    ClassItem.classes, classesAll_eq_flatMap]

/-- In `[a-cb[dd]]` the second item is reported of either class. -/
theorem duplicates_exact_nested :
    Regex.parse false ['[', 'a', '-', 'c', 'b', '[', 'd', 'd', ']', ']'] =
        .ok (.bracketed ⟨0, 10⟩ false nestedClass) ∧
      ∃ positions : Span × ClassSet → List Nat,
        duplicateClassChars.run
            (.ofPattern ['[', 'a', '-', 'c', 'b', '[', 'd', 'd', ']', ']'] .none) =
          [(⟨0, 10⟩, nestedClass), (⟨5, 9⟩, doubledLetter)].filterMap
            (fun cls => findingAt? cls (positions cls)) ∧
        1 ∈ positions (⟨0, 10⟩, nestedClass) ∧ 1 ∈ positions (⟨5, 9⟩, doubledLetter) := by
  have hparse : Regex.parse false ['[', 'a', '-', 'c', 'b', '[', 'd', 'd', ']', ']'] =
      .ok (.bracketed ⟨0, 10⟩ false nestedClass) := by
    with_unfolding_all rfl
  obtain ⟨-, -, positions, hrun, hpositions⟩ := @duplicates_exact _ .none _ hparse rfl
  rw [classes_nestedClass] at hrun hpositions
  refine ⟨hparse, positions, hrun, ?_, ?_⟩
  · refine ((hpositions _ List.mem_cons_self).2 1).2 ⟨0, Nat.one_pos, ?_⟩
    exact ⟨_, _, rfl, rfl, 'b', 'b', ⟨by decide, by decide⟩, rfl, rfl⟩
  · refine ((hpositions _ (by simp)).2 1).2 ⟨0, Nat.one_pos, ?_⟩
    exact ⟨_, _, rfl, rfl, 'd', 'd', rfl, rfl, rfl⟩

end Check

end RegexAudit
