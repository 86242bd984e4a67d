import RegexAudit.Proofs.Text.Position
import RegexAudit.Proofs.Text.Slice

/-!
# Positions in the order of a text

Every character leads to a later position: to the next column, or to the next line. So the
positions of a text are in the order of its character boundaries, and no two boundaries share one.
Behind the end there are no further positions.

## Main definitions

* `Position.Precedes`: the order of positions, by line and then by column.

## Main statements

* `Position.precedes_foldl_step`: going on through a text leads to a later position.
* `LineMap.locate_split_past`: looking up an offset past the end goes through the whole text.
* `Text.position_exact`: the position of every boundary, their order, and the position of the end.
-/

namespace RegexAudit

namespace Position

variable {p q r : Position}

/-- A position comes before another one if it is in an earlier line, or further left in the same
line. -/
def Precedes (p q : Position) : Prop := p.line < q.line ∨ p.line = q.line ∧ p.column < q.column

theorem Precedes.trans (h : p.Precedes q) (h' : q.Precedes r) : p.Precedes r := by
  unfold Precedes at *
  omega

theorem Precedes.ne (h : p.Precedes q) : p ≠ q := by
  rintro rfl
  unfold Precedes at h
  omega

theorem precedes_step (p : Position) (c : Char) : p.Precedes (p.step c) := by
  unfold step
  split
  · exact .inl (Nat.lt_succ_self p.line)
  · exact .inr ⟨rfl, Nat.lt_succ_self p.column⟩

/-- Going on through a text leads to a later position. -/
theorem precedes_foldl_step {text : List Char} (h : text ≠ []) (p : Position) :
    p.Precedes (text.foldl step p) := by
  induction text generalizing p with
  | nil => exact absurd rfl h
  | cons c text ih =>
    rw [List.foldl_cons]
    by_cases htext : text = []
    · subst htext
      exact precedes_step p c
    · exact (precedes_step p c).trans (ih htext (p.step c))

theorem counted_append (before more : List Char) :
    counted (before ++ more) = more.foldl step (counted before) := by
  rw [← after_eq_counted, ← after_eq_counted, after, List.foldl_append, ← after]

end Position

/-- All characters of a text start within its width. -/
theorem Line.charsWithin_of_width_le {text : List Char} {bytes : Nat}
    (h : Text.width text ≤ bytes) : charsWithin bytes text = text.length := by
  induction text generalizing bytes with
  | nil => cases bytes <;> rfl
  | cons c text ih =>
    rw [Text.width_cons] at h
    have hpos := c.utf8Size_pos
    obtain ⟨n, rfl⟩ : ∃ n, bytes = n + 1 := ⟨bytes - 1, by omega⟩
    rw [charsWithin, ih (by omega), List.length_cons]

/-- Looking up an offset past the end goes through the whole text, from the position behind what
has been read of the line. -/
theorem LineMap.locate_split_past {start number offset : Nat} {read s : List Char} {current : Line}
    {more : List Line} (h : split [] start read s = current :: more)
    (hoffset : start + Text.width read + Text.width s ≤ offset) :
    locate offset number current more = s.foldl Position.step ⟨number, read.length + 1⟩ := by
  -- Every line starts before the end, so the last one is found, with all of its characters.
  induction s generalizing start number read current more with
  | nil =>
    obtain ⟨rfl, rfl⟩ := List.cons.inj h.symm
    have hcolumn : Line.column ⟨start, read.reverse⟩ offset = read.length + 1 := by
      rw [Line.column, Line.charsWithin_of_width_le, List.length_reverse]
      rw [Text.width_reverse]
      dsimp only
      rw [Text.width_nil] at hoffset
      omega
    rw [locate, hcolumn]
    rfl
  | cons c s ih =>
    rw [Text.width_cons] at hoffset
    by_cases hc : c = '\n'
    · subst hc
      rw [split_newline] at h
      obtain ⟨rfl, rfl⟩ := List.cons.inj h
      obtain ⟨tail, lines, hlines, -⟩ := exists_split_eq_cons (start + Text.width read + 1) [] s
      have hwidth : start + Text.width read + 1 + Text.width [] + Text.width s ≤ offset := by
        rw [Text.width_nil]
        rw [show '\n'.utf8Size = 1 from rfl] at hoffset
        omega
      rw [hlines, locate, if_pos (by dsimp only; omega)]
      exact ih hlines hwidth
    · rw [split, if_neg hc] at h
      have hstep : Position.step ⟨number, read.length + 1⟩ c =
          ⟨number, (c :: read).length + 1⟩ := if_neg hc
      rw [List.foldl_cons, hstep]
      exact ih h (by rw [Text.width_cons]; omega)

namespace Text

/-- An offset past the end has the position of the end. -/
theorem position_of_width_le {s : List Char} {offset : Nat} (h : width s ≤ offset) :
    position s offset = .counted s := by
  obtain ⟨more, lines, hlines, -⟩ := LineMap.exists_split_eq_cons 0 [] s
  rw [position, LineMap.position, LineMap.ofText, hlines, ← Position.after_eq_counted]
  exact LineMap.locate_split_past hlines (by simpa using h)

/-- The positions of two character boundaries are in the order of the boundaries. -/
theorem position_precedes {s : List Char} {o₁ o₂ : Nat} (h₁ : IsBoundary s o₁)
    (h₂ : IsBoundary s o₂) (hlt : o₁ < o₂) : (position s o₁).Precedes (position s o₂) := by
  rw [← List.map_id s] at h₁ h₂
  obtain ⟨before, within, after, rfl, rfl, rfl⟩ :=
    exists_between_of_isBoundary (Nat.le_of_lt hlt) h₁ h₂
  simp only [List.map_id] at hlt ⊢
  have hwithin : within ≠ [] := by
    rintro rfl
    simp at hlt
  rw [position_eq_counted, List.append_assoc, position_eq_counted, Position.counted_append]
  exact Position.precedes_foldl_step hwithin _

/-- Where a text can be cut, the line is one more than there are newlines before the cut, and the
column one more than there are characters behind the last of these. Later boundaries have later
positions, so no two of them have the same one. Past the end every offset has the position of the
end. -/
theorem position_exact (s : List Char) :
    (∀ offset before rest, splitAt? offset s = some (before, rest) →
      position s offset =
        ⟨before.count '\n' + 1, (before.reverse.takeWhile (· ≠ '\n')).length + 1⟩) ∧
    (∀ o₁ o₂, IsBoundary s o₁ → IsBoundary s o₂ → o₁ < o₂ →
      (position s o₁).Precedes (position s o₂)) ∧
    (∀ o₁ o₂, IsBoundary s o₁ → IsBoundary s o₂ → position s o₁ = position s o₂ → o₁ = o₂) ∧
    ∀ offset, width s < offset → position s offset = position s (width s) := by
  refine ⟨?_, fun o₁ o₂ => position_precedes, ?_, ?_⟩
  · intro offset before rest hsplit
    obtain ⟨rfl, rfl⟩ := splitAt?_eq_some_iff.1 hsplit
    exact position_eq_counted before rest
  · intro o₁ o₂ h₁ h₂ heq
    rcases Nat.lt_trichotomy o₁ o₂ with hlt | rfl | hlt
    · exact absurd heq (position_precedes h₁ h₂ hlt).ne
    · rfl
    · exact absurd heq.symm (position_precedes h₂ h₁ hlt).ne
  · intro offset h
    rw [position_of_width_le (Nat.le_of_lt h), position_of_width_le (Nat.le_refl _)]

namespace Sample

/-- An accented letter, an empty line and another letter. -/
def accented : List Char := ['é', '\n', '\n', 'b']

end Sample

/-- Behind the letter, on the empty line, on the last line, and past the end. -/
theorem position_exact_accented :
    position Sample.accented 2 = ⟨1, 2⟩ ∧ position Sample.accented 4 = ⟨3, 1⟩ ∧
    (position Sample.accented 2).Precedes (position Sample.accented 3) ∧
    position Sample.accented 3 ≠ position Sample.accented 4 ∧
    position Sample.accented 9 = position Sample.accented 5 := by
  obtain ⟨hcounted, hordered, hdistinct, hpast⟩ := position_exact Sample.accented
  refine ⟨hcounted 2 ['é'] _ rfl, hcounted 4 ['é', '\n', '\n'] _ rfl,
    hordered 2 3 rfl rfl (by decide), ?_, hpast 9 (by decide)⟩
  intro heq
  exact absurd (hdistinct 3 4 rfl rfl heq) (by decide)

end Text

end RegexAudit
