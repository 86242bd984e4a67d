import RegexAudit.Text.Position

/-!
# Positions by counting

The lines of a text are looked up for a byte offset, and the answer is what counting through the
text in front of the offset comes to: one line more than there are newlines, and one column more
than there are characters behind the last of them.

## Main definitions

* `Position.counted`: the line and the column behind a leading part of a text.

## Main statements

* `Position.after_eq_counted`: going through a leading part step by step counts it.
* `LineMap.locate_split`: looking up an offset in the lines goes through what is in front of it.
* `Text.position_eq_counted`: the position of a character boundary.
-/

namespace RegexAudit

/-- The line and the column behind a leading part of a text, by counting its newlines and the
characters behind the last of them. -/
def Position.counted (before : List Char) : Position :=
  ⟨before.count '\n' + 1, (before.reverse.takeWhile (· ≠ '\n')).length + 1⟩

/-- Going through a leading part step by step counts it. -/
theorem Position.after_eq_counted (before : List Char) : after before = counted before := by
  -- The characters behind the last newline are counted from the end, so the induction is there.
  have hreverse : ∀ r : List Char, after r.reverse = counted r.reverse := by
    intro r
    induction r with
    | nil => rfl
    | cons c r ih =>
      rw [List.reverse_cons, after, List.foldl_append, ← after, ih]
      by_cases hc : c = '\n'
      · simp [step, counted, hc]
      · simp [step, counted, hc]
  simpa using hreverse before.reverse

theorem Text.width_reverse (s : List Char) : Text.width s.reverse = Text.width s := by
  induction s with
  | nil => rfl
  | cons c cs ih => simp [ih, Nat.add_comm]

namespace Line

theorem charsWithin_append (read more : List Char) :
    charsWithin (Text.width read) (read ++ more) = read.length := by
  induction read with
  | nil => simp [charsWithin]
  | cons c cs ih =>
    have hpos := c.utf8Size_pos
    obtain ⟨n, hn⟩ : ∃ n, Text.width (c :: cs) = n + 1 :=
      ⟨c.utf8Size + Text.width cs - 1, by rw [Text.width_cons]; omega⟩
    have hrest : n + 1 - c.utf8Size = Text.width cs := by
      rw [Text.width_cons] at hn
      omega
    rw [hn, List.cons_append, charsWithin, hrest, ih, List.length_cons]

theorem column_append (start : Nat) (read more : List Char) :
    column ⟨start, read ++ more⟩ (start + Text.width read) = read.length + 1 := by
  rw [column, Nat.add_sub_cancel_left, charsWithin_append]

end Line

namespace LineMap

/-- The lines that are finished stand in front. -/
theorem split_eq_append (done : List Line) (start : Nat) (read s : List Char) :
    split done start read s = done.reverse ++ split [] start read s := by
  induction s generalizing done start read with
  | nil => simp [split]
  | cons c cs ih =>
    rw [split, split]
    split
    · rw [ih, ih [_], List.reverse_cons, List.reverse_cons, List.reverse_nil, List.nil_append,
        List.append_assoc]
    · exact ih done start (c :: read)

/-- A newline ends the line being read. -/
theorem split_newline (start : Nat) (read cs : List Char) :
    split [] start read ('\n' :: cs) =
      ⟨start, read.reverse⟩ :: split [] (start + Text.width read + 1) [] cs := by
  rw [split, if_pos rfl, split_eq_append]
  rfl

/-- The line being read comes first, and the next one starts behind what has been read of it. -/
theorem exists_split_eq_cons (start : Nat) (read s : List Char) :
    ∃ more lines, split [] start read s = ⟨start, read.reverse ++ more⟩ :: lines ∧
      ∀ next ∈ lines.head?, start + Text.width read < next.start := by
  induction s generalizing start read with
  | nil => exact ⟨[], [], by simp [split], by simp⟩
  | cons c cs ih =>
    by_cases hc : c = '\n'
    · subst hc
      obtain ⟨more, lines, hlines, -⟩ := ih (start + Text.width read + 1) []
      refine ⟨[], _, by rw [split_newline, List.append_nil], ?_⟩
      rw [hlines]
      intro next hnext
      rw [← Option.some.inj hnext]
      exact Nat.lt_succ_self _
    · obtain ⟨more, lines, hlines, hnext⟩ := ih start (c :: read)
      rw [split, if_neg hc, hlines]
      refine ⟨c :: more, lines, by simp, ?_⟩
      intro next hhead
      have := hnext next hhead
      rw [Text.width_cons] at this
      omega

/-- Looking up the end of a leading part goes through this part, from the position behind what has
been read of the line. -/
theorem locate_split {start number offset : Nat} {read before rest : List Char} {current : Line}
    {more : List Line} (h : split [] start read (before ++ rest) = current :: more)
    (hoffset : offset = start + Text.width read + Text.width before) :
    locate offset number current more = before.foldl Position.step ⟨number, read.length + 1⟩ := by
  -- A newline leads to the next line; any other character belongs to the line being read.
  induction before generalizing start number read current more with
  | nil =>
    obtain ⟨tail, lines, hlines, hnext⟩ := exists_split_eq_cons start read ([] ++ rest)
    obtain ⟨rfl, rfl⟩ := List.cons.inj (h.symm.trans hlines)
    rw [Text.width_nil, Nat.add_zero, ← Text.width_reverse] at hoffset
    have hcolumn : Line.column ⟨start, read.reverse ++ tail⟩ offset = read.length + 1 := by
      rw [hoffset, Line.column_append, List.length_reverse]
    cases more with
    | nil => exact congrArg (Position.mk number) hcolumn
    | cons next more =>
      have hpast := hnext next rfl
      rw [← Text.width_reverse, ← hoffset] at hpast
      rw [locate, if_neg (Nat.not_le.2 hpast), hcolumn]
      rfl
  | cons c before ih =>
    rw [List.cons_append] at h
    rw [Text.width_cons] at hoffset
    by_cases hc : c = '\n'
    · subst hc
      rw [split_newline] at h
      obtain ⟨rfl, rfl⟩ := List.cons.inj h
      obtain ⟨tail, lines, hlines, -⟩ :=
        exists_split_eq_cons (start + Text.width read + 1) [] (before ++ rest)
      have hwidth : offset = start + Text.width read + 1 + Text.width [] + Text.width before := by
        rw [hoffset, Text.width_nil, show '\n'.utf8Size = 1 from rfl]
        omega
      rw [hlines, locate, if_pos (by dsimp only; omega)]
      exact ih hlines hwidth
    · rw [split, if_neg hc] at h
      have hstep : Position.step ⟨number, read.length + 1⟩ c =
          ⟨number, (c :: read).length + 1⟩ := if_neg hc
      rw [List.foldl_cons, hstep]
      exact ih h (by rw [hoffset, Text.width_cons]; omega)

end LineMap

/-- The position of a character boundary, by counting. -/
theorem Text.position_eq_counted (before rest : List Char) :
    Text.position (before ++ rest) (Text.width before) = .counted before := by
  obtain ⟨more, lines, hlines, -⟩ := LineMap.exists_split_eq_cons 0 [] (before ++ rest)
  rw [Text.position, LineMap.position, LineMap.ofText, hlines, ← Position.after_eq_counted]
  exact LineMap.locate_split hlines (by simp)

end RegexAudit
