import Mathlib.Data.List.Nodup
import RegexAudit.Proofs.Pattern.Boundaries
import RegexAudit.Proofs.Pattern.Coverage

/-!
# Looking up a boundary

An offset is looked up among the boundaries in two ways: for the start of an interval the last
boundary counts that starts no later, and for its end the last one that starts before. As the starts
increase, these are the ones with the greatest start, and they differ only where a fragment begins.

## Main definitions

* `Boundary.IsGreatest`: a boundary has the greatest start within a bound.

## Main statements

* `Boundary.getLast?_takeWhile_eq_some_iff`: a search from the front finds the greatest start.
* `InverseIndex.boundaryAt?_eq_some_iff`, `InverseIndex.boundaryBefore?_eq_some_iff`: the look-ups.
* `InverseIndex.boundaryAt?_eq_some_iff_holds`: the fragment that holds an offset is found.
* `InverseIndex.boundaryAt?_eq_boundaryBefore?_iff`: the look-ups agree inside of a fragment.
* `InverseIndex.lookups_exact`: the look-ups at any offset.
-/

namespace RegexAudit

namespace Boundary

/-- Of the boundaries whose starts are within a bound, the one with the greatest start. -/
structure IsGreatest (boundaries : List Boundary) (within : Nat → Prop) (b : Boundary) : Prop where
  mem : b ∈ boundaries
  bounded : within b.start
  greatest : ∀ c ∈ boundaries, within c.start → c.start ≤ b.start

section Search

variable {boundaries : List Boundary} {within : Nat → Prop} {b c : Boundary}
  (h : boundaries.Pairwise fun b c => b.start < c.start)
include h

/-- Boundaries with increasing starts are told apart by their starts. -/
theorem eq_of_start_eq (hb : b ∈ boundaries) (hc : c ∈ boundaries) (hstart : b.start = c.start) :
    b = c := by
  have hnodup : (boundaries.map (·.start)).Nodup :=
    List.pairwise_map.2 (h.imp fun hlt => Nat.ne_of_lt hlt)
  exact List.inj_on_of_nodup_map hnodup hb hc hstart

theorem IsGreatest.unique (hb : b.IsGreatest boundaries within)
    (hc : c.IsGreatest boundaries within) : b = c := by
  apply eq_of_start_eq h hb.mem hc.mem
  have hle := hc.greatest b hb.mem hb.bounded
  have hge := hb.greatest c hc.mem hc.bounded
  omega

variable [DecidablePred within]

/-- What is within a bound from above stands in front of everything else. -/
theorem takeWhile_eq_filter (hdown : ∀ m n, m < n → within n → within m) :
    boundaries.takeWhile (fun b => within b.start) =
      boundaries.filter fun b => within b.start := by
  induction boundaries with
  | nil => rfl
  | cons b bs ih =>
    obtain ⟨hb, hbs⟩ := List.pairwise_cons.1 h
    by_cases hwithin : within b.start
    · rw [List.takeWhile_cons_of_pos (by simpa using hwithin),
        List.filter_cons_of_pos (by simpa using hwithin), ih hbs]
    · -- The starts behind `b` are greater, so none of them is within the bound.
      have hnone : bs.filter (fun c => within c.start) = [] := by
        apply List.filter_eq_nil_iff.2
        intro c hc
        have hout : ¬within c.start := fun hc' => hwithin (hdown _ _ (hb c hc) hc')
        simpa using hout
      rw [List.takeWhile_cons_of_neg (by simpa using hwithin),
        List.filter_cons_of_neg (by simpa using hwithin), hnone]

/-- The last of the boundaries within a bound has the greatest start. -/
theorem isGreatest_of_getLast?_filter
    (hlast : (boundaries.filter fun b => within b.start).getLast? = some b) :
    b.IsGreatest boundaries within := by
  have hmem : ∀ c, c ∈ boundaries.filter (fun b => within b.start) ↔
      c ∈ boundaries ∧ within c.start := by
    intro c
    rw [List.mem_filter, decide_eq_true_eq]
  have hincreasing := h.filter fun b => decide (within b.start)
  obtain ⟨front, hfront⟩ := List.getLast?_eq_some_iff.1 hlast
  rw [hfront] at hmem hincreasing
  obtain ⟨hin, hwithin⟩ := (hmem b).1 (by simp)
  refine ⟨hin, hwithin, fun c hc hc' => ?_⟩
  rcases List.mem_append.1 ((hmem c).2 ⟨hc, hc'⟩) with hfirst | hself
  · exact Nat.le_of_lt ((List.pairwise_append.1 hincreasing).2.2 c hfirst b (by simp))
  · rw [List.mem_singleton.1 hself]

/-- The last boundary that a search from the front passes has the greatest start. -/
theorem getLast?_takeWhile_eq_some_iff (hdown : ∀ m n, m < n → within n → within m) :
    (boundaries.takeWhile fun b => within b.start).getLast? = some b ↔
      b.IsGreatest boundaries within := by
  rw [takeWhile_eq_filter h hdown]
  constructor
  · exact isGreatest_of_getLast?_filter h
  · intro hb
    have hne : boundaries.filter (fun b => within b.start) ≠ [] :=
      List.ne_nil_of_mem (List.mem_filter.2 ⟨hb.mem, decide_eq_true hb.bounded⟩)
    have hlast := List.getLast?_eq_some_getLast hne
    rw [hlast, (isGreatest_of_getLast?_filter h hlast).unique h hb]

/-- A search from the front passes nothing only if nothing is within the bound. -/
theorem getLast?_takeWhile_eq_none_iff (hdown : ∀ m n, m < n → within n → within m) :
    (boundaries.takeWhile fun b => within b.start).getLast? = none ↔
      ∀ b ∈ boundaries, ¬within b.start := by
  rw [takeWhile_eq_filter h hdown, List.getLast?_eq_none_iff, List.filter_eq_nil_iff]
  simp

end Search

end Boundary

namespace InverseIndex

/-- The boundary whose number a search yields is the last one that it passes. -/
theorem getElem?_slot (boundaries : List Boundary) (p : Boundary → Bool) :
    (match (boundaries.takeWhile p).length with
      | 0 => none
      | n + 1 => some n).bind (boundaries[·]?) = (boundaries.takeWhile p).getLast? := by
  have hprefix := List.takeWhile_prefix p (l := boundaries)
  generalize boundaries.takeWhile p = passed at hprefix ⊢
  rw [List.getLast?_eq_getElem?]
  cases hlength : passed.length with
  | zero => simp [List.length_eq_zero_iff.1 hlength]
  | succ n =>
    have hn : n < passed.length := by omega
    rw [Option.bind_some, Nat.add_sub_cancel, List.getElem?_eq_getElem hn]
    exact List.prefix_iff_getElem?.1 hprefix n hn

theorem boundaryAt?_eq (index : InverseIndex) (i : Nat) :
    index.boundaryAt? i = (index.boundaries.takeWhile (·.start ≤ i)).getLast? :=
  getElem?_slot index.boundaries _

theorem boundaryBefore?_eq (index : InverseIndex) (i : Nat) :
    index.boundaryBefore? i = (index.boundaries.takeWhile (·.start < i)).getLast? :=
  getElem?_slot index.boundaries _

section Increasing

variable {index : InverseIndex} {b : Boundary} {i : Nat}
  (h : index.boundaries.Pairwise fun b c => b.start < c.start)
include h

theorem boundaryAt?_eq_some_iff :
    index.boundaryAt? i = some b ↔ b.IsGreatest index.boundaries (· ≤ i) := by
  rw [boundaryAt?_eq]
  exact Boundary.getLast?_takeWhile_eq_some_iff h fun m n hmn hn =>
    Nat.le_trans (Nat.le_of_lt hmn) hn

theorem boundaryAt?_eq_none_iff :
    index.boundaryAt? i = none ↔ ∀ b ∈ index.boundaries, ¬b.start ≤ i := by
  rw [boundaryAt?_eq]
  exact Boundary.getLast?_takeWhile_eq_none_iff h fun m n hmn hn =>
    Nat.le_trans (Nat.le_of_lt hmn) hn

theorem boundaryBefore?_eq_some_iff :
    index.boundaryBefore? i = some b ↔ b.IsGreatest index.boundaries (· < i) := by
  rw [boundaryBefore?_eq]
  exact Boundary.getLast?_takeWhile_eq_some_iff h fun m n hmn hn => Nat.lt_trans hmn hn

theorem boundaryBefore?_eq_none_iff :
    index.boundaryBefore? i = none ↔ ∀ b ∈ index.boundaries, ¬b.start < i := by
  rw [boundaryBefore?_eq]
  exact Boundary.getLast?_takeWhile_eq_none_iff h fun m n hmn hn => Nat.lt_trans hmn hn

/-- The look-ups agree unless a boundary starts at the offset. -/
theorem boundaryAt?_eq_boundaryBefore?_iff :
    index.boundaryAt? i = index.boundaryBefore? i ↔ ∀ b ∈ index.boundaries, b.start ≠ i := by
  constructor
  · intro hsame b hb hstart
    have hat : index.boundaryAt? i = some b :=
      (boundaryAt?_eq_some_iff h).2 ⟨hb, Nat.le_of_eq hstart, fun c _ hc => hstart ▸ hc⟩
    have hlt := ((boundaryBefore?_eq_some_iff h).1 (hsame ▸ hat)).bounded
    omega
  · intro hnone
    -- No boundary is passed by one search alone.
    have hsame : ∀ b ∈ index.boundaries, decide (b.start ≤ i) = decide (b.start < i) := by
      intro b hb
      apply decide_eq_decide.2
      have := hnone b hb
      omega
    rw [boundaryAt?_eq, boundaryBefore?_eq,
      Boundary.takeWhile_eq_filter h fun m n hmn hn => Nat.le_trans (Nat.le_of_lt hmn) hn,
      Boundary.takeWhile_eq_filter h fun m n hmn hn => Nat.lt_trans hmn hn,
      List.filter_congr hsame]

end Increasing

section Fragments

variable {fragments : List Fragment} {f : Fragment} {i k : Nat}
  (hsize : ∀ f ∈ fragments, 0 < f.size)
include hsize

/-- In front of the end of the joined text, the boundary of a fragment is found if the fragment
holds the offset, and only then. -/
theorem boundaryAt?_eq_some_iff_holds (hi : i < (ofFragments fragments).length)
    (hf : fragments[k]? = some f) :
    (ofFragments fragments).boundaryAt? i =
        some (.ofFragment (Fragment.startOf fragments k) f) ↔
      Fragment.startOf fragments k ≤ i ∧ i < Fragment.startOf fragments k + f.size := by
  have hk := (List.getElem?_eq_some_iff.1 hf).1
  have hb := getElem?_boundaries fragments k
  rw [hf] at hb
  rw [boundaryAt?_eq_some_iff (boundaries_increasing hsize), ← Fragment.startOf_succ hf]
  constructor
  · intro hgreatest
    refine ⟨hgreatest.bounded, ?_⟩
    rcases Nat.lt_or_ge (k + 1) fragments.length with hnext | hlast
    · -- The next boundary starts later than the one with the greatest start.
      by_contra hle
      have hc := getElem?_boundaries fragments (k + 1)
      rw [List.getElem?_eq_getElem hnext] at hc
      have hbehind := hgreatest.greatest _ (List.mem_of_getElem? hc) (Nat.le_of_not_lt hle)
      have hlt := Fragment.startOf_lt hsize (Nat.lt_succ_self k) hk
      exact Nat.lt_irrefl _ (Nat.lt_of_lt_of_le hlt hbehind)
    · have hend : k + 1 = fragments.length := Nat.le_antisymm hk hlast
      rw [hend, Fragment.startOf_length]
      exact hi
  · rintro ⟨hle, hlt⟩
    refine ⟨List.mem_of_getElem? hb, hle, fun c hc hci => ?_⟩
    obtain ⟨j, hj⟩ := List.mem_iff_getElem?.1 hc
    obtain ⟨hjlt, hstart⟩ := start_of_getElem? hj
    rw [hstart] at hci ⊢
    have hjk : j ≤ k := by
      by_contra hkj
      have hge := Fragment.startOf_le hsize (show k + 1 ≤ j by omega) (Nat.le_of_lt hjlt)
      omega
    exact Fragment.startOf_le hsize hjk (Nat.le_of_lt hk)

end Fragments

/-- At any offset the boundary with the greatest start up to it is found, and unless the offset lies
behind the joined text, that is the only one whose fragment holds the offset. The boundary with the
greatest start before an offset is found unless the offset is zero. Both are the same except at zero
and where a fragment begins. -/
theorem lookups_exact {fragments : List Fragment} (hne : fragments ≠ [])
    (hfilled : ∀ f ∈ fragments, f.isBackslash = false → f.text ≠ []) (i : Nat) :
    let index := ofFragments fragments
    (index.boundaryAt? i).isSome = true ∧
    (∀ b, index.boundaryAt? i = some b ↔ b.IsGreatest index.boundaries (· ≤ i)) ∧
    (i < index.length → ∀ (k : Nat) (f : Fragment), fragments[k]? = some f →
      ∃ b : Boundary, index.boundaries[k]? = some b ∧
        (index.boundaryAt? i = some b ↔
          b.start ≤ i ∧ i < b.start + Text.width f.normalized)) ∧
    (∀ b, index.boundaryBefore? i = some b ↔ b.IsGreatest index.boundaries (· < i)) ∧
    (index.boundaryBefore? i = none ↔ i = 0) ∧
    (index.boundaryAt? i ≠ index.boundaryBefore? i ↔
      i = 0 ∨ ∃ k < fragments.length, Fragment.startOf fragments k = i) := by
  intro index
  have hsize : ∀ f ∈ fragments, 0 < f.size := fun f hf => Fragment.size_pos (hfilled f hf)
  have hincreasing := boundaries_increasing hsize
  -- The first boundary is found wherever no other one is.
  have hlength : 0 < fragments.length := List.length_pos_iff.2 hne
  have hfirst := getElem?_boundaries fragments 0
  rw [List.getElem?_eq_getElem hlength, Fragment.startOf_zero] at hfirst
  have hmem := List.mem_of_getElem? hfirst
  refine ⟨?_, fun b => boundaryAt?_eq_some_iff hincreasing, ?_,
    fun b => boundaryBefore?_eq_some_iff hincreasing, ?_, ?_⟩
  · rw [Option.isSome_iff_ne_none, Ne, boundaryAt?_eq_none_iff hincreasing]
    intro hnone
    exact hnone _ hmem (Nat.zero_le i)
  · intro hi k f hf
    refine ⟨_, ?_, boundaryAt?_eq_some_iff_holds hsize hi hf⟩
    rw [getElem?_boundaries, hf]
    rfl
  · rw [boundaryBefore?_eq_none_iff hincreasing]
    constructor
    · intro hnone
      exact Nat.eq_zero_of_not_pos (hnone _ hmem)
    · rintro rfl b -
      exact Nat.not_lt_zero b.start
  · rw [Ne, boundaryAt?_eq_boundaryBefore?_iff hincreasing]
    constructor
    · intro hstart
      obtain ⟨b, hb⟩ := not_forall.1 hstart
      obtain ⟨hb, hi⟩ := Classical.not_imp.1 hb
      obtain ⟨k, hk⟩ := List.mem_iff_getElem?.1 hb
      obtain ⟨hlt, heq⟩ := start_of_getElem? hk
      exact .inr ⟨k, hlt, heq.symm.trans (not_not.1 hi)⟩
    · rintro (rfl | ⟨k, hk, rfl⟩) hnone
      · exact hnone _ hmem rfl
      · have hb := getElem?_boundaries fragments k
        rw [List.getElem?_eq_getElem hk] at hb
        exact hnone _ (List.mem_of_getElem? hb) rfl

/-- The look-ups differ where the backslash begins and agree in the middle of it. Behind the end,
the last fragment is found. -/
theorem lookups_exact_split :
    let index := ofFragments Split.fragments
    index.boundaryAt? 2 ≠ index.boundaryBefore? 2 ∧
      index.boundaryAt? 3 = some ⟨2, ⟨3, 4⟩, false⟩ ∧
      index.boundaryAt? 3 = index.boundaryBefore? 3 ∧
      index.boundaryBefore? 0 = none ∧
      index.boundaryBefore? 100 = some ⟨4, ⟨9, 10⟩, true⟩ := by
  intro index
  have hne : Split.fragments ≠ [] := by simp [Split.fragments]
  have hfilled : ∀ f ∈ Split.fragments, f.isBackslash = false → f.text ≠ [] :=
    fun f hf => (Split.proper_of_mem f hf).text
  obtain ⟨-, -, -, -, hzero, -⟩ := lookups_exact hne hfilled 0
  obtain ⟨-, -, -, -, -, hborder⟩ := lookups_exact hne hfilled 2
  obtain ⟨-, -, hholds, -, -, hinside⟩ := lookups_exact hne hfilled 3
  obtain ⟨-, -, -, hbehind, -, -⟩ := lookups_exact hne hfilled 100
  refine ⟨hborder.2 (.inr ⟨1, by decide, by decide⟩), ?_, ?_, hzero.2 rfl,
    (hbehind _).2 ⟨by decide, by decide, by decide⟩⟩
  · obtain ⟨b, hb, hfound⟩ := hholds (by decide) 1 _ rfl
    obtain rfl := Option.some.inj hb
    exact hfound.2 (by decide)
  · by_contra hdiffer
    exact absurd (hinside.1 hdiffer) (by decide)

end InverseIndex

end RegexAudit
