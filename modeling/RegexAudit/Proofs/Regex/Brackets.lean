import RegexAudit.Proofs.Regex.Ranges
import RegexAudit.Proofs.Regex.Reading

/-!
# Brackets of classes

The classes of a pattern are listed in the order of their opening brackets.

## Main definitions

* `openings`: the offsets where some classes begin.
* `Ascends`: offsets that increase, from a first one on and up to an end.

## Main statements

* `Reader.classStep_moves`: one step in a class opens a class behind all others, or none.
* `Reader.bracketed_moves`: where the tree of a class and the classes in it begin and end.
-/

namespace RegexAudit

namespace Regex

/-- The offsets where some classes begin. -/
def openings (classes : List (Span × ClassSet)) : List Nat := classes.map (·.1.start)

/-- The offsets increase, begin with the first one and stay below the end. -/
structure Ascends (first stop : Nat) (offsets : List Nat) : Prop where
  head : offsets.head? = some first
  increasing : offsets.Pairwise (· < ·)
  below : ∀ n ∈ offsets, n < stop

namespace Ascends

variable {first stop stop' : Nat} {offsets : List Nat}

theorem mono (h : Ascends first stop offsets) (hle : stop ≤ stop') : Ascends first stop' offsets :=
  ⟨h.head, h.increasing, fun n hn => Nat.lt_of_lt_of_le (h.below n hn) hle⟩

/-- A further offset comes behind all others. -/
theorem append_singleton {n : Nat} (h : Ascends first stop offsets) (hle : stop ≤ n)
    (hlt : n < stop') : Ascends first stop' (offsets ++ [n]) := by
  have hbelow : ∀ m ∈ offsets, m < n := fun m hm => Nat.lt_of_lt_of_le (h.below m hm) hle
  refine ⟨?_, ?_, ?_⟩
  · rw [List.head?_append, h.head, Option.some_or]
  · refine List.pairwise_append.2 ⟨h.increasing, List.pairwise_singleton _ _, ?_⟩
    intro m hm k hk
    rw [List.mem_singleton.1 hk]
    exact hbelow m hm
  · intro m hm
    obtain hm | hm := List.mem_append.1 hm
    · exact Nat.lt_trans (hbelow m hm) hlt
    · rwa [List.mem_singleton.1 hm]

/-- The first offset is the least one. -/
theorem le_of_mem {n : Nat} (h : Ascends first stop offsets) (hn : n ∈ offsets) : first ≤ n := by
  obtain ⟨offsets, rfl⟩ := List.head?_eq_some_iff.1 h.head
  obtain rfl | hn := List.mem_cons.1 hn
  · exact Nat.le_refl _
  · exact Nat.le_of_lt (List.rel_of_pairwise_cons h.increasing hn)

end Ascends

namespace ClassItem

@[simp] theorem classes_literal (span : Span) (c : Char) : (literal span c).classes = [] := by
  simp [classes]

@[simp] theorem classes_range (span : Span) (first last : Char) :
    (range span first last).classes = [] := by
  simp [classes]

@[simp] theorem classes_predefined (span : Span) : (predefined span).classes = [] := by
  simp [classes]

end ClassItem

namespace OpenClass

variable {c : OpenClass} {item : ClassItem}

/-- The offsets where the class and the classes read in it so far begin. -/
def openings (c : OpenClass) : List Nat :=
  c.opener.start :: (Regex.openings (c.pending.elim [] (·.2.classes)) ++
    Regex.openings (c.items.reverse.flatMap ClassItem.classes))

theorem openings_push (c : OpenClass) (item : ClassItem) :
    (c.push item).openings = c.openings ++ Regex.openings item.classes := by
  simp [openings, push, Regex.openings]

theorem classes_operand (c : OpenClass) :
    c.operand.classes = c.items.reverse.flatMap ClassItem.classes := by
  unfold operand
  split
  · next hitems => simp [hitems, ClassItem.classes]
  · next item hitems => simp [hitems]
  · next first more _ hitems => rw [hitems, ClassItem.classes, ClassItem.classesAll_eq_flatMap]

/-- The bracket of a class and the classes in its contents are the brackets opened since. -/
theorem openings_set (c : OpenClass) :
    c.opener.start :: Regex.openings c.set.classes = c.openings := by
  unfold openings set
  dsimp only
  split
  · next hpending => simp [hpending, ClassSet.classes, classes_operand, Regex.openings]
  · next op lhs hpending => simp [hpending, ClassSet.classes, classes_operand, Regex.openings]

theorem openings_operate (c : OpenClass) (op : SetOperator) (start : Nat) :
    (c.operate op start).openings = c.openings := by
  rw [← openings_set c]
  simp [openings, operate, Regex.openings]

/-- The offsets where open classes and the classes read in them so far begin. The innermost comes
last. -/
def openingsAll (innermost : OpenClass) (outer : List OpenClass) : List Nat :=
  (innermost :: outer).reverse.flatMap openings

theorem openingsAll_eq (innermost : OpenClass) (outer : List OpenClass) :
    openingsAll innermost outer = outer.reverse.flatMap openings ++ innermost.openings := by
  simp [openingsAll]

end OpenClass

/-- What a step in open classes comes to, of which the deciding character stands at `start`. Either
the last class ends here, or the brackets still open or closed by now are those opened before, and
perhaps one more. -/
def ClassProgress.Follows (c : OpenClass) (outer : List OpenClass) (start stop : Nat) :
    ClassProgress → Prop
  | .finished tree => outer = [] ∧ openings tree.classes = c.openings ∧
      ∃ negated set, tree = .bracketed ⟨c.opener.start, stop⟩ negated set
  | .inside c' outer' => OpenClass.openingsAll c' outer' = OpenClass.openingsAll c outer ∨
      OpenClass.openingsAll c' outer' = OpenClass.openingsAll c outer ++ [start]

namespace Reader

open RegexAudit.Reader

variable {α : Type} {ws : Bool} {start here : Nat} {ch : Char}

theorem orUnclosed_then {span : Nat → Span} {f : Unit → Reader α} {fits : α → Nat → Prop}
    (hf : (f ()).Moves here fits) : (orUnclosed span >>= f).Moves here fits := by
  have horUnclosed : (orUnclosed span).Moves here fun _ stop => stop = here :=
    moves_peekOr_then fun _ => moves_pure rfl
  refine horUnclosed.bind ?_
  rintro _ _ rfl
  exact hf

theorem leadingHyphens_moves {room : Nat} {items : List ClassItem}
    (h : ∀ item ∈ items, item.classes = []) :
    (leadingHyphens ws start room items).Moves here fun items _ =>
      ∀ item ∈ items, item.classes = [] := by
  induction room generalizing items here with
  | zero => exact moves_pure h
  | succ room ih =>
    rw [leadingHyphens]
    refine moves_peek?_then fun ch => ?_
    split
    · refine moves_offset_then ((movesOn_next ws).then fun _ _ => orUnclosed_then (ih ?_))
      exact List.forall_mem_cons.2 ⟨ClassItem.classes_literal _ _, h⟩
    · exact moves_pure h

/-- A class that is opened has no classes in it yet. -/
theorem openClass_moves : (openClass ws start).Moves here fun c _ => c.openings = [start] := by
  have hfresh : ∀ {stop negated itemsStart items}, (∀ item ∈ items, item.classes = []) →
      (OpenClass.mk ⟨start, stop⟩ negated none itemsStart items).openings = [start] := by
    intro _ _ _ items hitems
    have hclasses : items.reverse.flatMap ClassItem.classes = [] :=
      List.flatMap_eq_nil_iff.2 fun item hitem => hitems item (List.mem_reverse.1 hitem)
    simp [OpenClass.openings, openings, hclasses]
  refine (movesOn_skip ws).then fun _ _ => orUnclosed_then (moves_peek?_then fun ch => ?_)
  extract_lets negated rest
  have hrest : ∀ u here, (rest u).Moves here fun c _ => c.openings = [start] := by
    refine fun _ _ => moves_place_then fun c _ => ?_
    refine (leadingHyphens_moves (by simp)).bind fun hyphens _ hhyphens => ?_
    refine moves_offset_then (moves_peek?_then fun ch => ?_)
    split
    · refine (movesOn_next ws).then fun _ _ => orUnclosed_then (moves_offset_then ?_)
      exact moves_pure (hfresh (List.forall_mem_singleton.2 (ClassItem.classes_literal _ _)))
    · exact moves_offset_then (moves_pure (hfresh hhyphens))
  split
  · exact (movesOn_next ws).then fun _ _ => orUnclosed_then (hrest () _)
  · exact hrest () _

theorem movesOn_classPrimitive : (classPrimitive ws start ch).MovesOn := by
  intro here
  unfold classPrimitive
  split
  · exact escape_moves.mono fun _ _ _ => trivial
  · exact moves_pure trivial

theorem rangeEnd_then {p : Primitive} {f : Char → Reader α} {fits : α → Nat → Prop}
    (hf : ∀ c, (f c).Moves here fits) : (rangeEnd p >>= f).Moves here fits := by
  cases p with
  | literal span c =>
    constructor
    intro c b d h hstart
    exact (hf _).of_run h hstart
  | _ => exact moves_fail.bind fun _ _ h => h

theorem singleItem_moves {p : Primitive} :
    (singleItem p).Moves here fun item _ => item.classes = [] := by
  cases p with
  | literal => exact moves_pure (ClassItem.classes_literal _ _)
  | predefined => exact moves_pure (ClassItem.classes_predefined _)
  | assertion => exact moves_fail

/-- An item that is no bracket has no classes in it. -/
theorem itemOrRange_moves {opener : Span} :
    (itemOrRange ws opener start ch).Moves here fun item _ => item.classes = [] := by
  refine movesOn_classPrimitive.then fun first _ => (movesOn_skip ws).then fun _ _ => ?_
  refine orUnclosed_then (moves_place_then fun c _ => ?_)
  split
  · refine (movesOn_next ws).then fun _ _ => moves_peekOr_then fun ch => ?_
    refine moves_offset_then ((movesOn_advance 1).then fun _ _ => ?_)
    refine movesOn_classPrimitive.then fun second _ => ?_
    refine rangeEnd_then fun lo => rangeEnd_then fun hi => ?_
    dsimp only
    split
    · exact moves_fail
    · exact moves_pure (ClassItem.classes_range _ _ _)
  · exact singleItem_moves

/-- One step in a class opens one class behind all others, or none. -/
theorem classStep_moves {c : OpenClass} {outer : List OpenClass} :
    (classStep ws c outer start ch).Moves here fun progress stop =>
      progress.Follows c outer start stop := by
  unfold classStep
  split
  · -- a class inside the class
    refine moves_place_then fun place _ => ?_
    split
    · refine (movesOn_advance _).then fun _ _ => moves_offset_then (moves_pure (.inl ?_))
      simp [OpenClass.openingsAll_eq, OpenClass.openings_push, openings]
    · refine openClass_moves.bind fun inner _ hinner => moves_pure (.inr ?_)
      simp [OpenClass.openingsAll, hinner]
  split
  · -- the end of the class
    refine moves_offset_then ?_
    dsimp only
    cases outer with
    | nil =>
      refine moves_pure ⟨rfl, ?_, _, _, rfl⟩
      simp [Tree.classes, Tree.preorder, openings, ← OpenClass.openings_set]
    | cons parent outer =>
      refine moves_pure (.inl ?_)
      simp [OpenClass.openingsAll_eq, OpenClass.openings_push, ClassItem.classes, openings,
        ← OpenClass.openings_set c]
  · -- an operator or an item
    refine moves_place_then fun place _ => ?_
    split
    · refine (movesOn_advance 1).then fun _ _ => moves_offset_then (moves_pure (.inl ?_))
      simp [OpenClass.openingsAll_eq, OpenClass.openings_operate]
    · refine itemOrRange_moves.bind fun item _ hitem => moves_pure (.inl ?_)
      simp [OpenClass.openingsAll_eq, OpenClass.openings_push, hitem, openings]

end Reader

/-- The tree is a class from one offset to another. Its bracket comes first of all those in it. -/
structure Tree.IsClass (first stop : Nat) (tree : Tree) : Prop where
  bracketed : ∃ negated set, tree = .bracketed ⟨first, stop⟩ negated set
  ascends : Ascends first stop (openings tree.classes)

/-- The rest of a class that is open. -/
theorem readClass_reaches {ws : Bool} {c : OpenClass} {outer : List OpenClass} {first : Nat}
    {here there : Cursor} {tree : Tree} (h : readClass ws c outer here = .ok (tree, there))
    (hopen : Ascends first here.offset (OpenClass.openingsAll c outer)) :
    here.Reaches there ∧ tree.IsClass first there.offset := by
  fun_induction readClass ws c outer here with
  | case1 => cases h
  | case2 => cases h
  | case3 c outer here ch cs hrest tree' there' hstep =>
    cases h
    obtain ⟨hreach, rfl, hopenings, negated, set, rfl⟩ := Reader.classStep_moves.of_run hstep rfl
    have hreach := (Cursor.reaches_skipTrivia ws here).trans
      ((@Cursor.reaches_past _ [ch] _ hrest).trans hreach)
    rw [OpenClass.openingsAll_eq] at hopen
    obtain rfl := Option.some.inj hopen.head
    refine ⟨hreach, ⟨negated, set, rfl⟩, ?_⟩
    rw [hopenings]
    exact hopen.mono hreach.offset_le
  | case4 c outer here ch cs hrest c' outer' there' hstep ih =>
    obtain ⟨hreach, hopenings⟩ := Reader.classStep_moves.of_run hstep rfl
    have hskip := Cursor.reaches_skipTrivia ws here
    have hpast := (@Cursor.reaches_past _ [ch] _ hrest).trans hreach
    have hlt : (here.skipTrivia ws).offset < there'.offset := by
      have hle := hreach.offset_le
      have hpos := ch.utf8Size_pos
      simp only [Cursor.past, Text.width_cons, Text.width_nil] at hle
      omega
    have hopen' : Ascends first there'.offset (OpenClass.openingsAll c' outer') := by
      obtain hopenings | hopenings := hopenings
      · rw [hopenings]
        exact hopen.mono (hskip.trans hpast).offset_le
      · rw [hopenings]
        exact hopen.append_singleton hskip.offset_le hlt
    exact (ih h hopen').imp_left (hskip.trans hpast).trans

namespace Reader

/-- A class ends where its span does. -/
theorem bracketed_moves {ws : Bool} {start here : Nat} (hlt : start < here) :
    (bracketed ws start).Moves here fun tree stop => tree.IsClass start stop := by
  refine openClass_moves.onwards.bind fun c stop ⟨hle, hc⟩ => ?_
  constructor
  rintro d tree e h rfl
  refine readClass_reaches h ?_
  rw [OpenClass.openingsAll_eq, hc]
  exact ⟨rfl, List.pairwise_singleton _ _, by simpa using Nat.lt_of_lt_of_le hlt hle⟩

end Reader

end Regex

end RegexAudit
