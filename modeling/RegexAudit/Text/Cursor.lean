import RegexAudit.Text.Basic

/-!
# Reading positions

A `Cursor` is a place in a text: the byte offset reached and the text still to
be read.

## Main definitions

* `Cursor.ofText`: the cursor at the beginning.
* `Cursor.past`: the cursor after a piece that has been read.
* `Cursor.In`: the cursor stands in a given text.
-/

namespace RegexAudit

/-- A place in a text: the byte offset reached and what is still to be read. -/
structure Cursor where
  offset : Nat
  rest : List Char
deriving DecidableEq, Repr, Inhabited

namespace Cursor

/-- The beginning of a text. -/
def ofText (s : List Char) : Cursor := ⟨0, s⟩

/-- The place after the characters `read`, with `rest` to follow. -/
def past (c : Cursor) (read rest : List Char) : Cursor := ⟨c.offset + Text.width read, rest⟩

/-- The span from one place to a later one. -/
def spanTo (c d : Cursor) : Span := ⟨c.offset, d.offset⟩

/-- The cursor stands in the text `s`: what is before it has its offset as width. -/
def In (s : List Char) (c : Cursor) : Prop :=
  ∃ before, before ++ c.rest = s ∧ Text.width before = c.offset

theorem ofText_in (s : List Char) : (ofText s).In s := ⟨[], by simp [ofText]⟩

/-- Reading a piece of the text keeps the cursor in it. -/
theorem In.past {s : List Char} {c : Cursor} (h : c.In s) {read rest : List Char}
    (hrest : c.rest = read ++ rest) : (c.past read rest).In s := by
  obtain ⟨before, hs, hw⟩ := h
  exact ⟨before ++ read, by simp [Cursor.past, ← hs, hrest], by simp [Cursor.past, hw]⟩

/-- A cursor in a text stands on a character boundary of it. -/
theorem In.isBoundary {s : List Char} {c : Cursor} (h : c.In s) : Text.IsBoundary s c.offset := by
  obtain ⟨before, rfl, hw⟩ := h
  simp [Text.IsBoundary, ← hw, Text.splitAt?_width_append]

end Cursor

end RegexAudit
