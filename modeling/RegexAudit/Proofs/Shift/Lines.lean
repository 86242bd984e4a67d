import RegexAudit.Proofs.Shift.Lexer
import RegexAudit.Proofs.Text.Position

/-!
# Lines of a moved source

Behind leading lines an offset has the same column and comes so many lines later.

## Main definitions

* `Position.shift`: the position, moved by some lines.
* `Line.shift`: a line, moved by some bytes.

## Main statements

* `LineMap.split_shift`: the lines of a moved text.
* `LineMap.split_leadingLines`: leading lines come first among the lines of a text.
* `Text.position_leadingLines`: positions behind leading lines.
-/

namespace RegexAudit

/-- The position, moved by some lines. -/
def Position.shift (k : Nat) (position : Position) : Position :=
  ⟨position.line + k, position.column⟩

/-- The line, moved by some bytes. -/
def Line.shift (w : Nat) (line : Line) : Line := ⟨line.start + w, line.text⟩

theorem Line.column_shift (w : Nat) (line : Line) (offset : Nat) :
    (line.shift w).column (offset + w) = line.column offset := by
  rw [column, column, shift, Nat.add_sub_add_right]

namespace LineMap

variable {w k start offset number : Nat}

/-- The lines of a moved text are the moved lines. -/
theorem split_shift (w start : Nat) (read s : List Char) :
    split [] (start + w) read s = (split [] start read s).map (Line.shift w) := by
  induction s generalizing start read with
  | nil => rfl
  | cons c cs ih =>
    by_cases hc : c = '\n'
    · subst hc
      have hstart : start + w + Text.width read + 1 = start + Text.width read + 1 + w := by omega
      rw [split_newline, split_newline, List.map_cons, hstart, ih]
      rfl
    · rw [split, split, if_neg hc, if_neg hc, ih]

/-- A text without a newline in it is read as part of the line. -/
theorem split_text {text : List Char} (h : '\n' ∉ text) (start : Nat) (read more : List Char) :
    split [] start read (text ++ more) = split [] start (text.reverse ++ read) more := by
  induction text generalizing read with
  | nil => rfl
  | cons c text ih =>
    have hc : c ≠ '\n' := by
      rintro rfl
      exact h List.mem_cons_self
    rw [List.cons_append, split, if_neg hc, ih (fun hmem => h (List.mem_cons_of_mem c hmem)),
      List.reverse_cons, List.append_assoc, List.singleton_append]

/-- A text without a newline in it and a newline make up a line. -/
theorem split_line {text : List Char} (h : '\n' ∉ text) (start : Nat) (more : List Char) :
    split [] start [] (text ++ '\n' :: more) =
      ⟨start, text⟩ :: split [] (start + Text.width text + 1) [] more := by
  rw [split_text h, List.append_nil, split_newline, List.reverse_reverse, Text.width_reverse]

/-- Looking up an offset passes over all lines that start no later. -/
theorem locate_append {current next : Line} {lines more : List Line}
    (hlines : ∀ line ∈ lines, line.start ≤ offset) (hnext : next.start ≤ offset) :
    locate offset number current (lines ++ next :: more) =
      locate offset (number + lines.length + 1) next more := by
  induction lines generalizing number current with
  | nil => exact if_pos hnext
  | cons line lines ih =>
    obtain ⟨hline, hlines⟩ := List.forall_mem_cons.1 hlines
    have hnumber : number + 1 + lines.length + 1 = number + (lines.length + 1) + 1 := by omega
    rw [List.cons_append, locate, if_pos hline, ih hlines, List.length_cons, hnumber]

/-- A moved offset is looked up in moved lines like the offset, from another number on. -/
theorem locate_shift (w k offset number : Nat) (current : Line) (more : List Line) :
    locate (offset + w) (number + k) (current.shift w) (more.map (Line.shift w)) =
      (locate offset number current more).shift k := by
  induction more generalizing number current with
  | nil => rw [List.map_nil, locate, locate, Line.column_shift, Position.shift]
  | cons next more ih =>
    have hstart : (next.shift w).start ≤ offset + w ↔ next.start ≤ offset :=
      Nat.add_le_add_iff_right
    rw [List.map_cons, locate, locate]
    by_cases hnext : next.start ≤ offset
    · rw [if_pos hnext, if_pos (hstart.2 hnext), Nat.add_right_comm, ih]
    · rw [if_neg hnext, if_neg (mt hstart.1 hnext), Line.column_shift, Position.shift]

end LineMap

namespace Script

/-- Leading lines come first among the lines of a text, and start in front of what follows them. -/
theorem LeadingLines.split {k : Nat} {p : List Char} (h : LeadingLines k p) (s : List Char)
    (start : Nat) :
    ∃ lines : List Line, lines.length = k ∧ (∀ line ∈ lines, line.start ≤ start + Text.width p) ∧
      LineMap.split [] start [] (p ++ s) =
        lines ++ LineMap.split [] (start + Text.width p) [] s := by
  induction h generalizing start with
  | nil => exact ⟨[], rfl, by simp, rfl⟩
  | @line k blank comment rest hblank hcomment hrest ih =>
    have hline : '\n' ∉ blank ++ comment := by
      rw [List.mem_append, not_or]
      refine ⟨fun hmem => (hblank _ hmem).2 rfl, ?_⟩
      rcases hcomment with rfl | ⟨body, rfl, hbody⟩
      · simp
      · simpa using hbody
    have hnewline : '\n'.utf8Size = 1 := rfl
    have hwidth : start + Text.width (blank ++ comment ++ '\n' :: rest) =
        start + Text.width (blank ++ comment) + 1 + Text.width rest := by
      rw [Text.width_append, Text.width_cons, hnewline]
      omega
    obtain ⟨lines, hlength, hstarts, hsplit⟩ := ih (start + Text.width (blank ++ comment) + 1)
    refine ⟨⟨start, blank ++ comment⟩ :: lines, ?_, ?_, ?_⟩
    · rw [List.length_cons, hlength]
    · rw [hwidth]
      refine List.forall_mem_cons.2 ⟨?_, hstarts⟩
      dsimp only
      omega
    · rw [List.append_assoc, List.cons_append, LineMap.split_line hline, hsplit, hwidth]
      rfl

end Script

/-- Behind leading lines an offset has the same column, so many lines later. -/
theorem Text.position_leadingLines {k : Nat} {p : List Char} (h : Script.LeadingLines k p)
    (s : List Char) (offset : Nat) :
    Text.position (p ++ s) (offset + Text.width p) = (Text.position s offset).shift k := by
  obtain ⟨lines, hlength, hstarts, hsplit⟩ := h.split s 0
  obtain ⟨first, more, hfirst⟩ : ∃ first more, LineMap.split [] 0 [] s = first :: more := by
    obtain ⟨tail, more, hlines, -⟩ := LineMap.exists_split_eq_cons 0 [] s
    exact ⟨_, more, hlines⟩
  have hzero : first.start = 0 := by
    obtain ⟨tail, more', hlines, -⟩ := LineMap.exists_split_eq_cons 0 [] s
    rw [← (List.cons.inj (hlines.symm.trans hfirst)).1]
  rw [LineMap.split_shift, hfirst, List.map_cons] at hsplit
  rw [Text.position, Text.position, LineMap.ofText, LineMap.ofText, hsplit, hfirst,
    LineMap.position, LineMap.position, ← LineMap.locate_shift (Text.width p)]
  cases lines with
  | nil =>
    rw [← hlength]
    rfl
  | cons line lines =>
    obtain ⟨-, hstarts⟩ := List.forall_mem_cons.1 hstarts
    have hnumber : 1 + lines.length + 1 = 1 + k := by
      rw [← hlength, List.length_cons]
      omega
    refine (LineMap.locate_append (fun line hline => ?_) ?_).trans ?_
    · have hstart := hstarts line hline
      omega
    · have hstart : (first.shift (Text.width p)).start = Text.width p := by
        rw [Line.shift, hzero, Nat.zero_add]
      omega
    · rw [hnumber]

end RegexAudit
