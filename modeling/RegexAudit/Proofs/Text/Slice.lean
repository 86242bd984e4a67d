import Mathlib.Data.Option.Basic
import RegexAudit.Text.Cursor

/-!
# Slices of a text

The part of a text that a span covers, in terms of what stands before and behind it.

## Main definitions

* `Cursor.Reads`: a text stands between two places.

## Main statements

* `Text.slice?_eq_some_iff`, `Text.slice?_eq_some_iff_drop?`: a span covers a part whose ends have
  the offsets of the span.
* `Text.exists_between_of_isBoundary`: two character boundaries split a text in three.
* `Cursor.Reads.slice?`: the span between two places covers the text between them.
-/

namespace RegexAudit

/-- A span covers a part of a text when the part begins and ends at the offsets of the span. -/
theorem Text.slice?_eq_some_iff {s part : List Char} {span : Span} :
    slice? s span = some part ↔
      ∃ before after, before ++ part ++ after = s ∧ width before = span.start ∧
        width (before ++ part) = span.stop := by
  rw [slice?]
  constructor
  · intro h
    obtain ⟨u, hle, h⟩ := Option.bind_eq_some_iff.1 h
    obtain ⟨tail, htail, h⟩ := Option.bind_eq_some_iff.1 h
    obtain ⟨⟨part', after⟩, hsplit, hpart⟩ := Option.bind_eq_some_iff.1 h
    obtain rfl := Option.some.inj hpart
    have hordered := (Option.guard_eq_some' u).1 hle
    rw [drop?_eq] at htail
    obtain ⟨⟨before, tail'⟩, hcut, rfl⟩ := Option.map_eq_some_iff.1 htail
    obtain ⟨rfl, hbefore⟩ := splitAt?_eq_some_iff.1 hcut
    obtain ⟨rfl, hlength⟩ := splitAt?_eq_some_iff.1 hsplit
    refine ⟨before, after, List.append_assoc .., hbefore, ?_⟩
    rw [width_append, hbefore, hlength, Span.length]
    omega
  · rintro ⟨before, after, rfl, hstart, hstop⟩
    rw [width_append] at hstop
    have hlength : span.length = width part := by
      rw [Span.length]
      omega
    have htail : drop? span.start (before ++ part ++ after) = some (part ++ after) := by
      rw [drop?_eq, ← hstart, List.append_assoc, splitAt?_width_append]
      rfl
    have hsplit : splitAt? span.length (part ++ after) = some (part, after) := by
      rw [hlength, splitAt?_width_append]
    refine Option.bind_eq_some_iff.2 ⟨(), (Option.guard_eq_some' ()).2 (by omega), ?_⟩
    refine Option.bind_eq_some_iff.2 ⟨part ++ after, htail, ?_⟩
    exact Option.bind_eq_some_iff.2 ⟨(part, after), hsplit, rfl⟩

/-- What is left from an offset on has that width before it. -/
theorem Text.drop?_eq_some_iff {s rest : List Char} {n : Nat} :
    drop? n s = some rest ↔ ∃ before, before ++ rest = s ∧ width before = n := by
  rw [drop?_eq]
  constructor
  · intro h
    obtain ⟨⟨before, rest⟩, hsplit, rfl⟩ := Option.map_eq_some_iff.1 h
    exact ⟨before, splitAt?_eq_some_iff.1 hsplit⟩
  · rintro ⟨before, rfl, rfl⟩
    rw [splitAt?_width_append]
    rfl

/-- What is left behind a part that stands at an offset. -/
theorem Text.drop?_append {s part rest : List Char} {n : Nat}
    (h : drop? n s = some (part ++ rest)) : drop? (n + width part) s = some rest := by
  obtain ⟨before, rfl, rfl⟩ := drop?_eq_some_iff.1 h
  exact drop?_eq_some_iff.2 ⟨before ++ part, by simp, by simp⟩

/-- A span covers a part of a text when what is left from its start on begins with that part. -/
theorem Text.slice?_eq_some_iff_drop? {s part : List Char} {lo hi : Nat} :
    slice? s ⟨lo, hi⟩ = some part ↔
      ∃ rest, drop? lo s = some (part ++ rest) ∧ hi = lo + width part := by
  rw [slice?_eq_some_iff]
  constructor
  · rintro ⟨before, after, rfl, hstart, hstop⟩
    rw [width_append, hstart] at hstop
    exact ⟨after, drop?_eq_some_iff.2 ⟨before, by simp, hstart⟩, hstop.symm⟩
  · rintro ⟨after, hdrop, hstop⟩
    obtain ⟨before, rfl, hstart⟩ := drop?_eq_some_iff.1 hdrop
    exact ⟨before, after, by simp, hstart, by rw [width_append, hstart, hstop]⟩

/-- The parts that two spans cover follow one another if the second begins where the first ends. -/
theorem Text.slice?_append {s part part' : List Char} {lo mid hi : Nat}
    (h : slice? s ⟨lo, mid⟩ = some part) (h' : slice? s ⟨mid, hi⟩ = some part') :
    slice? s ⟨lo, hi⟩ = some (part ++ part') := by
  obtain ⟨rest, hdrop, rfl⟩ := slice?_eq_some_iff_drop?.1 h
  obtain ⟨rest', hdrop', rfl⟩ := slice?_eq_some_iff_drop?.1 h'
  obtain rfl := Option.some.inj ((drop?_append hdrop).symm.trans hdrop')
  refine slice?_eq_some_iff_drop?.2 ⟨rest', ?_, ?_⟩
  · rw [hdrop, List.append_assoc]
  · rw [width_append, Nat.add_assoc]

/-- Behind a leading part of a text is a character boundary. -/
theorem Text.isBoundary_width_append (l r : List Char) : IsBoundary (l ++ r) (width l) := by
  rw [IsBoundary, splitAt?_width_append]
  rfl

section Characters

variable {ι : Type} {value : ι → Char} {l : List ι}

/-- A character boundary splits what the characters come from. -/
theorem Text.exists_append_of_isBoundary {n : Nat} (h : IsBoundary (l.map value) n) :
    ∃ before after, l = before ++ after ∧ n = width (before.map value) := by
  obtain ⟨⟨left, right⟩, hsplit⟩ := Option.isSome_iff_exists.1 h
  obtain ⟨happend, hwidth⟩ := splitAt?_eq_some_iff.1 hsplit
  obtain ⟨before, after, rfl, rfl, rfl⟩ := List.map_eq_append_iff.1 happend.symm
  exact ⟨before, after, rfl, hwidth.symm⟩

/-- Two character boundaries split what the characters come from in three. -/
theorem Text.exists_between_of_isBoundary {lo hi : Nat} (hle : lo ≤ hi)
    (hlo : IsBoundary (l.map value) lo) (hhi : IsBoundary (l.map value) hi) :
    ∃ before within after, l = before ++ within ++ after ∧
      lo = width (before.map value) ∧ hi = width ((before ++ within).map value) := by
  obtain ⟨upTo, after, rfl, rfl⟩ := exists_append_of_isBoundary hhi
  obtain ⟨before, more, hmore, rfl⟩ := exists_append_of_isBoundary hlo
  rcases List.append_eq_append_iff.1 hmore with ⟨within, rfl, -⟩ | ⟨within, rfl, -⟩
  · -- The later boundary comes first in the text, so nothing lies between the two.
    have hwithin : width (within.map value) = 0 := by
      rw [List.map_append, width_append] at hle
      omega
    obtain rfl : within = [] := by simpa using width_eq_zero_iff.1 hwithin
    exact ⟨upTo, [], after, by simp, by simp, by simp⟩
  · exact ⟨before, within, after, rfl, rfl, rfl⟩

end Characters

/-- The text `text` stands between the places `c` and `d`. -/
structure Cursor.Reads (c : Cursor) (text : List Char) (d : Cursor) : Prop where
  rest : c.rest = text ++ d.rest
  offset : d.offset = c.offset + Text.width text

namespace Cursor

theorem reads_past {c : Cursor} {read rest : List Char} (h : c.rest = read ++ rest) :
    c.Reads read (c.past read rest) := ⟨h, rfl⟩

/-- Moving over a text that stands in a source stays in the source. -/
theorem Reads.in_source {s text : List Char} {c d : Cursor} (h : c.Reads text d) (hc : c.In s) :
    d.In s := by
  have hd : d = c.past text d.rest := by
    cases d
    simp only [Cursor.past, Cursor.mk.injEq, and_true]
    exact h.offset
  rw [hd]
  exact hc.past h.rest

theorem Reads.append {c d e : Cursor} {s t : List Char} (h : c.Reads s d) (h' : d.Reads t e) :
    c.Reads (s ++ t) e := by
  constructor
  · rw [h.rest, h'.rest, List.append_assoc]
  · rw [h'.offset, h.offset, Text.width_append]
    omega

/-- What has been read from the beginning on is a leading part of the text. -/
theorem Reads.ofText {s lead : List Char} {d : Cursor} (h : (Cursor.ofText s).Reads lead d) :
    s = lead ++ d.rest ∧ Text.width lead = d.offset :=
  ⟨h.rest, by simpa [Cursor.ofText] using h.offset.symm⟩

/-- The source has at the span between two places the text that stands between them. -/
theorem Reads.slice? {s text : List Char} {c d : Cursor} (h : c.Reads text d) (hc : c.In s) :
    Text.slice? s (c.spanTo d) = some text := by
  obtain ⟨before, rfl, hbefore⟩ := hc
  refine Text.slice?_eq_some_iff.2 ⟨before, d.rest, ?_, hbefore, ?_⟩
  · rw [h.rest, List.append_assoc]
  · rw [Text.width_append, hbefore]
    exact h.offset.symm

end Cursor

end RegexAudit
