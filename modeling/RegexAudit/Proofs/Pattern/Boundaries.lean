import Mathlib.Data.List.Chain
import RegexAudit.Proofs.Pattern.Translation

/-!
# Where the fragments of a joined text begin

Each fragment begins where the joined text of those before it ends. When every fragment contributes
something, the first boundary of an index is zero, each of the others lies behind the one before it,
and the last lies inside the joined text.

## Main definitions

* `Fragment.startOf`: where the fragment with some number begins.
* `InverseIndex.stopOf`: where the fragment of a boundary ends, as told by an index.
* `InverseIndex.InOrder`: the boundaries of an index are in order.
* `InverseIndex.checked?`: building an index and checking it.

## Main statements

* `Boundary.getElem?_ofFragments`: the boundary of each fragment.
* `InverseIndex.stopOf_ofFragments`: a fragment ends where the next one begins.
* `InverseIndex.inOrder_ofFragments`, `InverseIndex.checked?_eq_some_iff`: when the checks are
  passed.
-/

namespace RegexAudit

namespace Fragment

/-- The offset of the fragment with the number `i` in the joined text. The number behind the last
one has the offset of the end. -/
def startOf (fragments : List Fragment) (i : Nat) : Nat := Text.width (join (fragments.take i))

variable {fragments : List Fragment} {f : Fragment} {i j : Nat}

@[simp] theorem startOf_zero (fragments : List Fragment) : startOf fragments 0 = 0 := by
  simp [startOf]

@[simp] theorem startOf_length (fragments : List Fragment) :
    startOf fragments fragments.length = Text.width (join fragments) := by
  rw [startOf, List.take_length]

theorem startOf_cons_succ (f : Fragment) (fs : List Fragment) (i : Nat) :
    startOf (f :: fs) (i + 1) = f.size + startOf fs i := by
  rw [startOf, List.take_succ_cons, width_join_cons, startOf]

theorem startOf_succ (h : fragments[i]? = some f) :
    startOf fragments (i + 1) = startOf fragments i + f.size := by
  rw [startOf, List.take_add_one, h, Option.toList_some, join_append, Text.width_append,
    width_join_cons, join_nil, Text.width_nil, Nat.add_zero, startOf]

theorem startOf_lt (hsize : ∀ f ∈ fragments, 0 < f.size) (hij : i < j)
    (hj : j ≤ fragments.length) : startOf fragments i < startOf fragments j := by
  induction j with
  | zero => exact absurd hij (Nat.not_lt_zero i)
  | succ j ih =>
    have hget := List.getElem?_eq_getElem hj
    have hpos := hsize _ (List.getElem_mem hj)
    rw [startOf_succ hget]
    rcases Nat.lt_succ_iff_lt_or_eq.1 hij with hlt | rfl
    · have := ih hlt (Nat.le_of_succ_le hj)
      omega
    · omega

theorem startOf_le (hsize : ∀ f ∈ fragments, 0 < f.size) (hij : i ≤ j)
    (hj : j ≤ fragments.length) : startOf fragments i ≤ startOf fragments j := by
  rcases Nat.lt_or_eq_of_le hij with hlt | rfl
  · exact Nat.le_of_lt (startOf_lt hsize hlt hj)
  · exact Nat.le_refl _

end Fragment

theorem Boundary.getElem?_ofFragments (start : Nat) (fragments : List Fragment) (i : Nat) :
    (ofFragments start fragments)[i]? =
      fragments[i]?.map (ofFragment (start + Fragment.startOf fragments i)) := by
  induction fragments generalizing start i with
  | nil => rfl
  | cons f fs ih =>
    rw [ofFragments]
    cases i with
    | zero => simp
    | succ i =>
      rw [List.getElem?_cons_succ, List.getElem?_cons_succ, ih, Fragment.startOf_cons_succ,
        Nat.add_assoc]

@[simp] theorem Boundary.length_ofFragments (start : Nat) (fragments : List Fragment) :
    (ofFragments start fragments).length = fragments.length := by
  induction fragments generalizing start with
  | nil => rfl
  | cons f fs ih => rw [ofFragments, List.length_cons, List.length_cons, ih]

namespace InverseIndex

/-- The offset where the fragment of the boundary with a number ends: the start of the next
boundary, or the end of the joined text. -/
def stopOf (index : InverseIndex) (i : Nat) : Nat :=
  (index.boundaries[i + 1]?.map (·.start)).getD index.length

/-- The first boundary is at zero, every other one lies behind the one before it, and the last one
lies inside the joined text. -/
structure InOrder (index : InverseIndex) : Prop where
  first : ∀ b ∈ index.boundaries.head?, b.start = 0
  increasing : index.boundaries.IsChain fun b b' => b.start < b'.start
  last : ∀ b ∈ index.boundaries.getLast?, b.start < index.length

instance (index : InverseIndex) : Decidable index.InOrder :=
  decidable_of_iff
    ((∀ b ∈ index.boundaries.head?, b.start = 0) ∧
      index.boundaries.IsChain (fun b b' => b.start < b'.start) ∧
      ∀ b ∈ index.boundaries.getLast?, b.start < index.length)
    ⟨fun ⟨first, increasing, last⟩ => ⟨first, increasing, last⟩,
      fun h => ⟨h.first, h.increasing, h.last⟩⟩

/-- The index of some fragments, provided that there is a fragment and the boundaries are in
order. -/
def checked? (fragments : List Fragment) : Option InverseIndex :=
  if fragments = [] then none
  else if (ofFragments fragments).InOrder then some (ofFragments fragments) else none

variable {fragments : List Fragment} {f : Fragment} {i : Nat}

theorem getElem?_boundaries (fragments : List Fragment) (i : Nat) :
    (ofFragments fragments).boundaries[i]? =
      fragments[i]?.map (Boundary.ofFragment (Fragment.startOf fragments i)) := by
  rw [ofFragments, Boundary.getElem?_ofFragments, Nat.zero_add]

@[simp] theorem length_boundaries (fragments : List Fragment) :
    (ofFragments fragments).boundaries.length = fragments.length :=
  Boundary.length_ofFragments 0 fragments

theorem start_of_getElem? {b : Boundary} (h : (ofFragments fragments).boundaries[i]? = some b) :
    i < fragments.length ∧ b.start = Fragment.startOf fragments i := by
  rw [getElem?_boundaries] at h
  obtain ⟨f, hf, rfl⟩ := Option.map_eq_some_iff.1 h
  exact ⟨(List.getElem?_eq_some_iff.1 hf).1, rfl⟩

/-- A fragment ends where the next one begins. -/
theorem stopOf_ofFragments (h : i < fragments.length) :
    (ofFragments fragments).stopOf i = Fragment.startOf fragments (i + 1) := by
  rw [stopOf, getElem?_boundaries]
  rcases Nat.lt_or_ge (i + 1) fragments.length with hnext | hlast
  · rw [List.getElem?_eq_getElem hnext]
    rfl
  · have hend : i + 1 = fragments.length := Nat.le_antisymm h hlast
    rw [hend, List.getElem?_eq_none (Nat.le_refl _), Fragment.startOf_length]
    rfl

theorem boundaries_increasing (hsize : ∀ f ∈ fragments, 0 < f.size) :
    (ofFragments fragments).boundaries.Pairwise fun b b' => b.start < b'.start := by
  rw [List.pairwise_iff_getElem]
  intro i j hi hj hij
  obtain ⟨-, hstart⟩ := start_of_getElem? (List.getElem?_eq_getElem hi)
  obtain ⟨hle, hstart'⟩ := start_of_getElem? (List.getElem?_eq_getElem hj)
  rw [hstart, hstart']
  exact Fragment.startOf_lt hsize hij (Nat.le_of_lt hle)

/-- In an index whose boundaries are in order, a boundary lies in front of the end of its
fragment. -/
theorem InOrder.lt_stopOf {index : InverseIndex} (h : index.InOrder) {b : Boundary}
    (hb : index.boundaries[i]? = some b) : b.start < index.stopOf i := by
  obtain ⟨hi, rfl⟩ := List.getElem?_eq_some_iff.1 hb
  rw [stopOf]
  rcases Nat.lt_or_ge (i + 1) index.boundaries.length with hnext | hlast
  · rw [List.getElem?_eq_getElem hnext]
    exact List.isChain_iff_getElem.1 h.increasing i hnext
  · -- The last boundary ends with the joined text.
    rw [List.getElem?_eq_none hlast]
    refine h.last _ ?_
    have hi' : index.boundaries.length - 1 = i := by omega
    rw [List.getLast?_eq_getElem?, hi']
    exact hb

/-- The boundaries are in order when every fragment contributes something, and only then. -/
theorem inOrder_ofFragments :
    (ofFragments fragments).InOrder ↔ ∀ f ∈ fragments, 0 < f.size := by
  constructor
  · intro h f hf
    obtain ⟨i, hi⟩ := List.mem_iff_getElem?.1 hf
    have hlt := (List.getElem?_eq_some_iff.1 hi).1
    have hb := getElem?_boundaries fragments i
    rw [hi] at hb
    have hstop := h.lt_stopOf hb
    rw [stopOf_ofFragments hlt, Fragment.startOf_succ hi, Boundary.ofFragment] at hstop
    exact Nat.pos_of_lt_add_right hstop
  · intro hsize
    refine ⟨?_, (boundaries_increasing hsize).isChain, ?_⟩
    · intro b hb
      rw [List.head?_eq_getElem?] at hb
      rw [(start_of_getElem? hb).2, Fragment.startOf_zero]
    · intro b hb
      rw [List.getLast?_eq_getElem?] at hb
      obtain ⟨hlt, hstart⟩ := start_of_getElem? hb
      rw [hstart, ofFragments, ← Fragment.startOf_length]
      exact Fragment.startOf_lt hsize hlt (Nat.le_refl _)

/-- The checks are passed when there is a fragment and every fragment contributes something. -/
theorem checked?_eq_some_iff {index : InverseIndex} :
    checked? fragments = some index ↔
      (fragments ≠ [] ∧ ∀ f ∈ fragments, 0 < f.size) ∧ ofFragments fragments = index := by
  rw [checked?]
  split
  · next hnil => simp [hnil]
  · next hne =>
    split
    · next horder =>
      have hsize := inOrder_ofFragments.1 horder
      exact ⟨fun h => ⟨⟨hne, hsize⟩, Option.some.inj h⟩, fun h => congrArg some h.2⟩
    · next hbroken =>
      refine ⟨fun h => ?_, fun h => absurd (inOrder_ofFragments.2 h.1.2) hbroken⟩
      cases h

end InverseIndex

end RegexAudit
