import Mathlib.Data.Char
import Mathlib.Data.List.Basic
import Mathlib.Data.List.Induction
import RegexAudit.Proofs.Check.Subject
import RegexAudit.Proofs.Regex.Classes

/-!
# Duplicates in classes

Which items of a class are reported, told by the characters that they stand for.

Where case is ignored, a range is compared by its two ends without their case. This is exact for a
range of which all characters are capital letters or none is. A range such as `0-Z` stands for both
kinds, and may then be missed.

## Main definitions

* `ClassItem.Holds`, `ClassItem.Meets`: the characters of an item, and items that share one.
* `ClassItem.IsOneCase`: all characters of an item are capital letters, or none is.
* `ClassItem.repeated`: the positions of the items that are reported.

## Main statements

* `Check.run_ofPattern`: the findings, by the positions reported.
* `Check.duplicates_ignoreCase`: which positions are reported where case is ignored.
* `Check.duplicates_miss_capital`: a range that is missed.
-/

namespace RegexAudit

namespace Regex

section Letters

variable {c d : Char}

theorem char_le_iff : c ≤ d ↔ c.toNat ≤ d.toNat := by
  rw [Char.le_def, UInt32.le_iff_toNat_le]
  rfl

theorem isUpper_iff : c.isUpper = true ↔ 65 ≤ c.toNat ∧ c.toNat ≤ 90 := by
  show decide ('A'.val ≤ c.val ∧ c.val ≤ 'Z'.val) = true ↔ _
  rw [decide_eq_true_iff, UInt32.le_iff_toNat_le, UInt32.le_iff_toNat_le]
  rfl

theorem isAlpha_iff : c.isAlpha = true ↔ c.isUpper = true ∨ 97 ≤ c.toNat ∧ c.toNat ≤ 122 := by
  show (c.isUpper || (decide ('a'.val ≤ c.val) && decide (c.val ≤ 'z'.val))) = true ↔ _
  rw [Bool.or_eq_true, Bool.and_eq_true, decide_eq_true_iff, decide_eq_true_iff,
    UInt32.le_iff_toNat_le, UInt32.le_iff_toNat_le]
  rfl

theorem toNat_toLower_of_isUpper (h : c.isUpper = true) : c.toLower.toNat = c.toNat + 32 := by
  have hcode : 65 ≤ c.toNat ∧ c.toNat ≤ 90 := isUpper_iff.1 h
  have hcapital : c.val ≥ 'A'.val ∧ c.val ≤ 'Z'.val :=
    ⟨UInt32.le_iff_toNat_le.2 hcode.1, UInt32.le_iff_toNat_le.2 hcode.2⟩
  have hlower : c.toLower.toNat = (c.val + 32).toNat := congrArg Char.toNat (dif_pos hcapital)
  rw [hlower, UInt32.toNat_add]
  apply Nat.mod_eq_of_lt
  show c.toNat + 32 < 2 ^ 32
  omega

theorem toLower_of_not_isUpper (h : ¬c.isUpper = true) : c.toLower = c := by
  refine dif_neg fun hcapital => h (isUpper_iff.2 ?_)
  exact ⟨UInt32.le_iff_toNat_le.1 hcapital.1, UInt32.le_iff_toNat_le.1 hcapital.2⟩

/-- A small letter is a capital letter without its case. -/
theorem exists_toLower_eq (hleast : 97 ≤ c.toNat) (hmost : c.toNat ≤ 122) :
    ∃ d : Char, d.toNat + 32 = c.toNat ∧ d.toLower = c := by
  have hvalid : (c.toNat - 32).isValidChar := by
    left
    omega
  let d : Char := Char.ofNatAux (c.toNat - 32) hvalid
  have hcode : d.toNat = c.toNat - 32 := rfl
  have hupper : d.isUpper = true := isUpper_iff.2 (by omega)
  refine ⟨d, by omega, Char.toNat_inj.1 ?_⟩
  rw [toNat_toLower_of_isUpper hupper]
  omega

end Letters

namespace Extent

/-- The character lies in the interval. -/
def Holds (e : Extent) (c : Char) : Prop := e.first ≤ c ∧ c ≤ e.last

variable {e : Extent} {c : Char}

/-- Intervals overlap if they share a character. -/
theorem overlaps_iff {a b : Extent} (ha : a.first ≤ a.last) (hb : b.first ≤ b.last) :
    a.overlaps b = true ↔ ∃ c, a.Holds c ∧ b.Holds c := by
  simp only [overlaps, Bool.and_eq_true, decide_eq_true_eq]
  constructor
  · rintro ⟨hab, hba⟩
    -- the first character of one of them is shared
    obtain hle | hle := le_total a.first b.first
    · exact ⟨b.first, ⟨hle, hba⟩, ⟨le_refl _, hb⟩⟩
    · exact ⟨a.first, ⟨le_refl _, ha⟩, ⟨hle, hab⟩⟩
  · rintro ⟨c, ha, hb⟩
    exact ⟨le_trans ha.1 hb.2, le_trans hb.1 ha.2⟩

theorem foldCase_eq (h : e.first.isAlpha = true) (h' : e.last.isAlpha = true)
    (hle : e.first.toLower ≤ e.last.toLower) : e.foldCase = ⟨e.first.toLower, e.last.toLower⟩ := by
  simp [foldCase, h, h', hle]

/-- An interval is compared with its ends in small letters, or as it is. -/
theorem foldCase_cases (e : Extent) :
    (e.first.isAlpha = true ∧ e.last.isAlpha = true ∧ e.first.toLower ≤ e.last.toLower ∧
      e.foldCase = ⟨e.first.toLower, e.last.toLower⟩) ∨
    (¬(e.first.isAlpha = true ∧ e.last.isAlpha = true ∧ e.first.toLower ≤ e.last.toLower) ∧
      e.foldCase = e) := by
  unfold foldCase
  simp only [Bool.and_eq_true, decide_eq_true_eq, and_assoc]
  split
  · next h => exact .inl ⟨h.1, h.2.1, h.2.2, rfl⟩
  · next h => exact .inr ⟨h, rfl⟩

theorem foldCase_isForward (h : e.first ≤ e.last) : e.foldCase.first ≤ e.foldCase.last := by
  obtain ⟨-, -, hle, heq⟩ | ⟨-, heq⟩ := e.foldCase_cases
  · rw [heq]
    exact hle
  · rw [heq]
    exact h

/-- An interval without its case holds nothing new, up to case. -/
theorem exists_of_holds_foldCase (he : e.first ≤ e.last) (h : e.foldCase.Holds c) :
    ∃ d, e.Holds d ∧ d.toLower = c.toLower := by
  obtain ⟨hfirst, hlast, -, heq⟩ | ⟨-, heq⟩ := e.foldCase_cases
  · rw [heq] at h
    obtain ⟨hleast, hmost⟩ := h
    simp only [Holds, char_le_iff] at he hleast hmost ⊢
    by_cases hcapital : e.last.isUpper = true
    · -- both ends are capital letters, and so is the character looked for
      have hcode := isUpper_iff.1 hcapital
      have hfirst' : e.first.isUpper = true := by
        refine (isAlpha_iff.1 hfirst).resolve_right fun hsmall => ?_
        omega
      have hcode' := isUpper_iff.1 hfirst'
      rw [toNat_toLower_of_isUpper hfirst'] at hleast
      rw [toNat_toLower_of_isUpper hcapital] at hmost
      obtain ⟨d, hd, hlower⟩ := exists_toLower_eq (c := c) (by omega) (by omega)
      refine ⟨d, ⟨by omega, by omega⟩, ?_⟩
      have hsmall : ¬c.isUpper = true := by
        rw [isUpper_iff]
        omega
      rw [hlower, toLower_of_not_isUpper hsmall]
    · -- the last end stays, and the first one only moves up
      rw [toLower_of_not_isUpper hcapital] at hmost
      refine ⟨c, ⟨?_, hmost⟩, rfl⟩
      by_cases hfirst' : e.first.isUpper = true
      · rw [toNat_toLower_of_isUpper hfirst'] at hleast
        omega
      · rwa [toLower_of_not_isUpper hfirst'] at hleast
  · rw [heq] at h
    exact ⟨c, h, rfl⟩

/-- An interval that keeps to one case is compared as if each of its characters had lost it. -/
theorem holds_foldCase (he : e.first ≤ e.last)
    (hcase : (∀ d, e.Holds d → d.isUpper = true) ∨ ∀ d, e.Holds d → ¬d.isUpper = true)
    (h : e.Holds c) : e.foldCase.Holds c.toLower := by
  have hfirst : e.Holds e.first := ⟨le_refl _, he⟩
  have hlast : e.Holds e.last := ⟨he, le_refl _⟩
  obtain hcapital | hnone := hcase
  · have hlower : ∀ d, e.Holds d → d.toLower.toNat = d.toNat + 32 :=
      fun d hd => toNat_toLower_of_isUpper (hcapital d hd)
    have hle : e.first.toLower ≤ e.last.toLower := by
      rw [char_le_iff] at he ⊢
      rw [hlower _ hfirst, hlower _ hlast]
      omega
    rw [foldCase_eq (isAlpha_iff.2 (.inl (hcapital _ hfirst)))
      (isAlpha_iff.2 (.inl (hcapital _ hlast))) hle]
    simp only [Holds, char_le_iff, hlower _ hfirst, hlower _ hlast, hlower _ h] at h ⊢
    omega
  · have hsame : ∀ d, e.Holds d → d.toLower = d :=
      fun d hd => toLower_of_not_isUpper (hnone d hd)
    have heq : e.foldCase = e := by
      obtain ⟨-, -, -, heq⟩ | ⟨-, heq⟩ := e.foldCase_cases
      · rw [heq, hsame _ hfirst, hsame _ hlast]
      · exact heq
    rw [heq, hsame _ h]
    exact h

end Extent

namespace ClassItem

/-- The item is a literal or a range, and the character is one of those that it stands for. -/
def Holds (item : ClassItem) (c : Char) : Prop :=
  match item with
  | .literal _ d => c = d
  | .range _ first last => first ≤ c ∧ c ≤ last
  | _ => False

/-- Two items share a character, up to the case of ASCII letters if case is ignored. -/
def Meets (ignoreCase : Bool) (a b : ClassItem) : Prop :=
  ∃ c d, a.Holds c ∧ b.Holds d ∧ if ignoreCase then c.toLower = d.toLower else c = d

/-- All characters of the item are capital letters, or none is. -/
def IsOneCase (item : ClassItem) : Prop :=
  (∀ c, item.Holds c → c.isUpper = true) ∨ ∀ c, item.Holds c → ¬c.isUpper = true

/-- The extents of two items overlap. -/
def overlaps (ignoreCase : Bool) (a b : ClassItem) : Bool :=
  match a.extent? ignoreCase, b.extent? ignoreCase with
  | some x, some y => x.overlaps y
  | _, _ => false

/-- The items at two positions share a character. -/
def MeetAt (ignoreCase : Bool) (items : List ClassItem) (j i : Nat) : Prop :=
  ∃ a b, items[j]? = some a ∧ items[i]? = some b ∧ a.Meets ignoreCase b

/-- The item at a position keeps to one case. -/
def OneCaseAt (items : List ClassItem) (i : Nat) : Prop :=
  ∀ item, items[i]? = some item → item.IsOneCase

/-- The positions of the items that overlap an earlier one. -/
def repeated (ignoreCase : Bool) (items : List ClassItem) : List Nat :=
  (List.range items.length).filter fun i =>
    items[i]?.any fun item => (items.take i).any (overlaps ignoreCase · item)

section

variable {item a b : ClassItem} {c : Char} {e : Extent} {ignoreCase : Bool}

theorem holds_iff : item.Holds c ↔ ∃ e, item.extent? false = some e ∧ e.Holds c := by
  cases item with
  | literal span d =>
    constructor
    · rintro rfl
      exact ⟨⟨c, c⟩, rfl, le_refl _, le_refl _⟩
    · rintro ⟨_, ⟨⟩, hleast, hmost⟩
      exact le_antisymm hmost hleast
  | range span first last =>
    constructor
    · intro h
      exact ⟨⟨first, last⟩, rfl, h⟩
    · rintro ⟨_, ⟨⟩, h⟩
      exact h
  | _ => simp [Holds, extent?]

theorem extent?_ignoreCase : item.extent? true = (item.extent? false).map Extent.foldCase := by
  cases item <;> rfl

theorem IsForward.first_le_last (h : item.IsForward) (he : item.extent? false = some e) :
    e.first ≤ e.last := by
  cases item with
  | literal => cases he; exact le_refl _
  | range => cases he; exact h
  | _ => cases he

theorem overlaps_eq_true_iff : overlaps ignoreCase a b = true ↔
    ∃ x y, a.extent? ignoreCase = some x ∧ b.extent? ignoreCase = some y ∧ x.overlaps y = true := by
  unfold overlaps
  split
  · next x y hx hy => simp [hx, hy]
  · next hnone =>
    simp only [Bool.false_eq_true, false_iff]
    rintro ⟨x, y, hx, hy, -⟩
    exact hnone x y hx hy

/-- Where case counts, two items overlap if they share a character. -/
theorem overlaps_iff_meets (ha : a.IsForward) (hb : b.IsForward) :
    overlaps false a b = true ↔ a.Meets false b := by
  rw [overlaps_eq_true_iff]
  constructor
  · rintro ⟨x, y, hx, hy, hover⟩
    obtain ⟨c, hc, hc'⟩ :=
      (Extent.overlaps_iff (ha.first_le_last hx) (hb.first_le_last hy)).1 hover
    exact ⟨c, c, holds_iff.2 ⟨x, hx, hc⟩, holds_iff.2 ⟨y, hy, hc'⟩, rfl⟩
  · rintro ⟨c, d, hc, hd, heq⟩
    obtain rfl : c = d := heq
    obtain ⟨x, hx, hc⟩ := holds_iff.1 hc
    obtain ⟨y, hy, hd⟩ := holds_iff.1 hd
    refine ⟨x, y, hx, hy, ?_⟩
    exact (Extent.overlaps_iff (ha.first_le_last hx) (hb.first_le_last hy)).2 ⟨c, hc, hd⟩

theorem overlaps_ignoreCase_iff (ha : a.IsForward) (hb : b.IsForward) :
    overlaps true a b = true ↔ ∃ x y, a.extent? false = some x ∧ b.extent? false = some y ∧
      ∃ c, x.foldCase.Holds c ∧ y.foldCase.Holds c := by
  simp only [overlaps_eq_true_iff, extent?_ignoreCase, Option.map_eq_some_iff]
  constructor
  · rintro ⟨_, _, ⟨x, hx, rfl⟩, ⟨y, hy, rfl⟩, hover⟩
    have hx' := Extent.foldCase_isForward (ha.first_le_last hx)
    have hy' := Extent.foldCase_isForward (hb.first_le_last hy)
    exact ⟨x, y, hx, hy, (Extent.overlaps_iff hx' hy').1 hover⟩
  · rintro ⟨x, y, hx, hy, hshared⟩
    have hx' := Extent.foldCase_isForward (ha.first_le_last hx)
    have hy' := Extent.foldCase_isForward (hb.first_le_last hy)
    exact ⟨_, _, ⟨x, hx, rfl⟩, ⟨y, hy, rfl⟩, (Extent.overlaps_iff hx' hy').2 hshared⟩

/-- Where case is ignored, items that overlap share a character up to case. -/
theorem meets_of_overlaps (ha : a.IsForward) (hb : b.IsForward) (h : overlaps true a b = true) :
    a.Meets true b := by
  obtain ⟨x, y, hx, hy, c, hc, hc'⟩ := (overlaps_ignoreCase_iff ha hb).1 h
  obtain ⟨d, hd, hlower⟩ := Extent.exists_of_holds_foldCase (ha.first_le_last hx) hc
  obtain ⟨d', hd', hlower'⟩ := Extent.exists_of_holds_foldCase (hb.first_le_last hy) hc'
  exact ⟨d, d', holds_iff.2 ⟨x, hx, hd⟩, holds_iff.2 ⟨y, hy, hd'⟩, hlower.trans hlower'.symm⟩

theorem IsOneCase.holds_foldCase (ha : a.IsForward) (h : a.IsOneCase)
    (he : a.extent? false = some e) (hc : e.Holds c) : e.foldCase.Holds c.toLower := by
  refine Extent.holds_foldCase (ha.first_le_last he) ?_ hc
  exact h.imp (fun hall d hd => hall d (holds_iff.2 ⟨e, he, hd⟩))
    fun hnone d hd => hnone d (holds_iff.2 ⟨e, he, hd⟩)

/-- Where case is ignored, items of one case that share a character up to case overlap. -/
theorem overlaps_of_meets (ha : a.IsForward) (hb : b.IsForward) (hcase : a.IsOneCase)
    (hcase' : b.IsOneCase) (h : a.Meets true b) : overlaps true a b = true := by
  obtain ⟨c, d, hc, hd, hlower⟩ := h
  obtain ⟨x, hx, hc⟩ := holds_iff.1 hc
  obtain ⟨y, hy, hd⟩ := holds_iff.1 hd
  refine (overlaps_ignoreCase_iff ha hb).2 ⟨x, y, hx, hy, c.toLower, ?_, ?_⟩
  · exact hcase.holds_foldCase ha hx hc
  · rw [show c.toLower = d.toLower from hlower]
    exact hcase'.holds_foldCase hb hy hd

theorem Meets.ignoringCase (h : a.Meets false b) : a.Meets true b := by
  obtain ⟨c, d, hc, hd, heq⟩ := h
  exact ⟨c, d, hc, hd, congrArg Char.toLower heq⟩

end

section

variable {ignoreCase : Bool}

theorem mem_repeated_iff {items : List ClassItem} {i : Nat} : i ∈ repeated ignoreCase items ↔
    ∃ j a b, j < i ∧ items[j]? = some a ∧ items[i]? = some b ∧ overlaps ignoreCase a b = true := by
  simp only [repeated, List.mem_filter, List.mem_range, Option.any_eq_true_iff_get,
    List.any_eq_true]
  constructor
  · rintro ⟨hi, hsome, a, hmem, hover⟩
    obtain ⟨j, hj⟩ := List.mem_iff_getElem?.1 hmem
    rw [List.getElem?_take] at hj
    split at hj
    · next hlt => exact ⟨j, a, _, hlt, hj, (Option.some_get hsome).symm, hover⟩
    · cases hj
  · rintro ⟨j, a, b, hlt, ha, hb, hover⟩
    have hi := (List.getElem?_eq_some_iff.1 hb).1
    refine ⟨hi, by simp [hb], a, ?_, by simpa [hb] using hover⟩
    refine List.mem_iff_getElem?.2 ⟨j, ?_⟩
    rw [List.getElem?_take, if_pos hlt, ha]

/-- A last item is reported if it overlaps one of the others or an extent already seen. -/
theorem duplicates_append_singleton (seen : List Extent) (items : List ClassItem)
    (item : ClassItem) :
    duplicates ignoreCase seen (items ++ [item]) = duplicates ignoreCase seen items ++
      if (item.extent? ignoreCase).any fun extent =>
          (seen ++ items.filterMap (extent? ignoreCase)).any (·.overlaps extent)
      then [item.span] else [] := by
  induction items generalizing seen with
  | nil =>
    cases hextent : item.extent? ignoreCase with
    | none => simp [duplicates, hextent]
    | some extent => simp [duplicates, hextent]
  | cons first items ih =>
    rw [List.cons_append, duplicates, duplicates]
    cases hextent : first.extent? ignoreCase with
    | none => simp [ih, hextent]
    | some extent =>
      simp only [ih, List.filterMap_cons, hextent]
      split
      · simp [Bool.or_left_comm]
      · simp [Bool.or_left_comm]

theorem repeated_append_singleton (items : List ClassItem) (item : ClassItem) :
    repeated ignoreCase (items ++ [item]) = repeated ignoreCase items ++
      if items.any (overlaps ignoreCase · item) then [items.length] else [] := by
  unfold repeated
  rw [List.length_append, List.length_singleton, List.range_succ, List.filter_append]
  congr 1
  · refine List.filter_congr fun i hi => ?_
    have hlt := List.mem_range.1 hi
    rw [List.getElem?_append_left hlt, List.take_append_of_le_length (Nat.le_of_lt hlt)]
  · rw [List.filter_cons, List.filter_nil, List.getElem?_concat_length, List.take_left,
      Option.any_some]

theorem any_overlaps (items : List ClassItem) (item : ClassItem) :
    ((item.extent? ignoreCase).any fun extent =>
        (items.filterMap (extent? ignoreCase)).any (·.overlaps extent)) =
      items.any (overlaps ignoreCase · item) := by
  unfold overlaps
  cases hextent : item.extent? ignoreCase with
  | none => simp
  | some extent =>
    rw [Option.any_some, List.any_filterMap]
    apply List.any_congr rfl
    intro earlier
    cases earlier.extent? ignoreCase <;> rfl

/-- The spans reported are those of the items at the positions reported. -/
theorem duplicates_eq_repeated (items : List ClassItem) :
    duplicates ignoreCase [] items =
      (repeated ignoreCase items).filterMap fun i => items[i]?.map span := by
  induction items using List.reverseRecOn with
  | nil => rfl
  | append_singleton items item ih =>
    rw [duplicates_append_singleton, repeated_append_singleton, List.filterMap_append, ih]
    congr 1
    · refine List.filterMap_congr fun i hi => ?_
      obtain ⟨j, a, b, -, -, hb, -⟩ := mem_repeated_iff.1 hi
      rw [List.getElem?_append_left (List.getElem?_eq_some_iff.1 hb).1]
    · rw [List.nil_append, any_overlaps]
      split
      · simp
      · rfl

end

section Positions

variable {items : List ClassItem} {i j : Nat}

/-- Where case counts, an item is reported if it shares a character with an earlier one. -/
theorem mem_repeated_iff_meetAt (hitems : ∀ item ∈ items, item.IsForward) :
    i ∈ repeated false items ↔ ∃ j < i, MeetAt false items j i := by
  rw [mem_repeated_iff]
  constructor
  · rintro ⟨j, a, b, hlt, ha, hb, hover⟩
    have hmeets := (overlaps_iff_meets (hitems a (List.mem_of_getElem? ha))
      (hitems b (List.mem_of_getElem? hb))).1 hover
    exact ⟨j, hlt, a, b, ha, hb, hmeets⟩
  · rintro ⟨j, hlt, a, b, ha, hb, hmeets⟩
    have hover := (overlaps_iff_meets (hitems a (List.mem_of_getElem? ha))
      (hitems b (List.mem_of_getElem? hb))).2 hmeets
    exact ⟨j, a, b, hlt, ha, hb, hover⟩

/-- Where case is ignored, an item that is reported shares a character with an earlier one. -/
theorem exists_meetAt_of_mem_repeated (hitems : ∀ item ∈ items, item.IsForward)
    (h : i ∈ repeated true items) : ∃ j < i, MeetAt true items j i := by
  obtain ⟨j, a, b, hlt, ha, hb, hover⟩ := mem_repeated_iff.1 h
  refine ⟨j, hlt, a, b, ha, hb, ?_⟩
  exact meets_of_overlaps (hitems a (List.mem_of_getElem? ha)) (hitems b (List.mem_of_getElem? hb))
    hover

/-- Where case is ignored, an item is reported if it shares a character with an earlier one and both
keep to one case. -/
theorem mem_repeated_of_meetAt (hitems : ∀ item ∈ items, item.IsForward) (hlt : j < i)
    (h : MeetAt true items j i) (hj : OneCaseAt items j) (hi : OneCaseAt items i) :
    i ∈ repeated true items := by
  obtain ⟨a, b, ha, hb, hmeets⟩ := h
  refine mem_repeated_iff.2 ⟨j, a, b, hlt, ha, hb, ?_⟩
  exact overlaps_of_meets (hitems a (List.mem_of_getElem? ha)) (hitems b (List.mem_of_getElem? hb))
    (hj a ha) (hi b hb) hmeets

theorem MeetAt.ignoringCase (h : MeetAt false items j i) : MeetAt true items j i := by
  obtain ⟨a, b, ha, hb, hmeets⟩ := h
  exact ⟨a, b, ha, hb, hmeets.ignoringCase⟩

end Positions

end ClassItem

end Regex

namespace Check

open Regex Regex.ClassItem

/-- The finding for a class of which the items at some positions are duplicates. -/
def findingAt? (cls : Span × ClassSet) (positions : List Nat) : Option Finding :=
  if positions.isEmpty then none
  else
    some {
      span := cls.1
      message := "Remove duplicates in this character class."
      notes := positions.filterMap fun i =>
        cls.2.items[i]?.map fun item => ⟨item.span, some "Additional duplicate"⟩
      gap := none }

theorem duplicateFinding?_eq_findingAt? (ignoreCase : Bool) (cls : Span × ClassSet) :
    duplicateFinding? ignoreCase cls = findingAt? cls (repeated ignoreCase cls.2.items) := by
  rw [duplicateFinding?, duplicates_eq_repeated, findingAt?]
  cases hpositions : repeated ignoreCase cls.2.items with
  | nil => rfl
  | cons i positions =>
    have hi : i ∈ repeated ignoreCase cls.2.items := by simp [hpositions]
    obtain ⟨j, a, b, -, -, hb, -⟩ := mem_repeated_iff.1 hi
    simp only [List.filterMap_cons, hb, Option.map_some, List.isEmpty_cons, Bool.false_eq_true,
      if_false, List.map_cons, List.map_filterMap, Option.map_map]
    rfl

variable {ws : Bool} {pattern : List Char} {flags : Flags} {tree : Tree}

/-- There is a finding for each class in which an item is reported. -/
theorem run_ofPattern (hparse : Regex.parse ws pattern = .ok tree)
    (hflags : flags.contains .comments = ws) :
    duplicateClassChars.run (.ofPattern pattern flags) = tree.classes.filterMap fun cls =>
      findingAt? cls (repeated (flags.contains .caseInsensitive) cls.2.items) := by
  simp only [← duplicateFinding?_eq_findingAt?]
  subst hflags
  exact run_onTree hparse

/-- In a pattern that is parsed, an item that is reported where case is ignored shares a character
up to case with an earlier one. Conversely such an item is reported if both keep to one case. What
is reported where case counts is then also reported where case is ignored. -/
theorem duplicates_ignoreCase (hparse : Regex.parse ws pattern = .ok tree) :
    (∀ flags : Flags, flags.contains .comments = ws →
      duplicateClassChars.run (.ofPattern pattern flags) = tree.classes.filterMap fun cls =>
        findingAt? cls (repeated (flags.contains .caseInsensitive) cls.2.items)) ∧
    ∀ cls ∈ tree.classes, ∀ i,
      (i ∈ repeated true cls.2.items → ∃ j < i, MeetAt true cls.2.items j i) ∧
      (∀ j < i, MeetAt true cls.2.items j i → OneCaseAt cls.2.items j → OneCaseAt cls.2.items i →
        i ∈ repeated true cls.2.items) ∧
      (i ∈ repeated false cls.2.items → (∀ k ≤ i, OneCaseAt cls.2.items k) →
        i ∈ repeated true cls.2.items) := by
  refine ⟨fun flags hflags => run_ofPattern hparse hflags, fun cls hcls i => ?_⟩
  have hitems := isForward_of_parse hparse cls hcls
  refine ⟨exists_meetAt_of_mem_repeated hitems, ?_, ?_⟩
  · intro j hlt hmeet hj hi
    exact mem_repeated_of_meetAt hitems hlt hmeet hj hi
  · intro hmem hcase
    obtain ⟨j, hlt, hmeet⟩ := (mem_repeated_iff_meetAt hitems).1 hmem
    exact mem_repeated_of_meetAt hitems hlt hmeet.ignoringCase (hcase j (Nat.le_of_lt hlt))
      (hcase i (Nat.le_refl i))

/-- A class of a range and a further character, as the whole of a pattern. -/
def rangeAndLetter (first last letter : Char) : ClassSet :=
  .item (.union ⟨1, 5⟩ [.range ⟨1, 4⟩ first last, .literal ⟨4, 5⟩ letter])

theorem classes_rangeAndLetter (first last letter : Char) :
    (Tree.bracketed ⟨0, 6⟩ false (rangeAndLetter first last letter)).classes =
      [(⟨0, 6⟩, rangeAndLetter first last letter)] := by
  simp [Tree.classes, Tree.preorder, rangeAndLetter, ClassSet.classes, ClassItem.classes,
    classesAll_eq_flatMap]

/-- In `[a-zQ]` the second item is reported where case is ignored, though not where it counts. -/
theorem duplicates_ignoreCase_capital :
    ∃ tree cls, Regex.parse false ['[', 'a', '-', 'z', 'Q', ']'] = .ok tree ∧ cls ∈ tree.classes ∧
      MeetAt true cls.2.items 0 1 ∧ OneCaseAt cls.2.items 0 ∧ OneCaseAt cls.2.items 1 ∧
      1 ∈ repeated true cls.2.items ∧ 1 ∉ repeated false cls.2.items := by
  have hparse : Regex.parse false ['[', 'a', '-', 'z', 'Q', ']'] =
      .ok (.bracketed ⟨0, 6⟩ false (rangeAndLetter 'a' 'z' 'Q')) := by
    with_unfolding_all rfl
  have hcls : (⟨0, 6⟩, rangeAndLetter 'a' 'z' 'Q') ∈
      (Tree.bracketed ⟨0, 6⟩ false (rangeAndLetter 'a' 'z' 'Q')).classes := by
    rw [classes_rangeAndLetter]
    exact List.mem_singleton.2 rfl
  have hmeet : MeetAt true (rangeAndLetter 'a' 'z' 'Q').items 0 1 :=
    ⟨_, _, rfl, rfl, 'q', 'Q', ⟨by decide, by decide⟩, rfl, rfl⟩
  have hrange : OneCaseAt (rangeAndLetter 'a' 'z' 'Q').items 0 := by
    rintro _ ⟨⟩
    refine .inr fun c hc hupper => ?_
    have hleast : 97 ≤ c.toNat := char_le_iff.1 hc.1
    have hmost := (isUpper_iff.1 hupper).2
    omega
  have hletter : OneCaseAt (rangeAndLetter 'a' 'z' 'Q').items 1 := by
    rintro _ ⟨⟩
    refine .inl fun c hc => ?_
    rw [show c = 'Q' from hc]
    rfl
  refine ⟨_, _, hparse, hcls, hmeet, hrange, hletter, ?_, by decide⟩
  exact ((duplicates_ignoreCase hparse).2 _ hcls 1).2.1 0 (by decide) hmeet hrange hletter

/-- In `[0-ZA]` the second item is one of the characters of the first. It is reported where case
counts, and missed where it is ignored. -/
theorem duplicates_miss_capital :
    ∃ tree cls, Regex.parse false ['[', '0', '-', 'Z', 'A', ']'] = .ok tree ∧
      tree.classes = [cls] ∧ MeetAt true cls.2.items 0 1 ∧
      duplicateClassChars.run (.ofPattern ['[', '0', '-', 'Z', 'A', ']'] .caseInsensitive) = [] ∧
      duplicateClassChars.run (.ofPattern ['[', '0', '-', 'Z', 'A', ']'] .none) =
        [⟨⟨0, 6⟩, "Remove duplicates in this character class.",
          [⟨⟨4, 5⟩, some "Additional duplicate"⟩], none⟩] := by
  have hparse : Regex.parse false ['[', '0', '-', 'Z', 'A', ']'] =
      .ok (.bracketed ⟨0, 6⟩ false (rangeAndLetter '0' 'Z' 'A')) := by
    with_unfolding_all rfl
  have hclasses := classes_rangeAndLetter '0' 'Z' 'A'
  have hmeet : MeetAt true (rangeAndLetter '0' 'Z' 'A').items 0 1 :=
    ⟨_, _, rfl, rfl, 'A', 'A', ⟨by decide, by decide⟩, rfl, rfl⟩
  refine ⟨_, _, hparse, hclasses, hmeet, ?_, ?_⟩
  · rw [run_ofPattern hparse rfl, hclasses]
    rfl
  · rw [run_ofPattern hparse rfl, hclasses]
    rfl

end Check

end RegexAudit
