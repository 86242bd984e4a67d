import Mathlib.Data.Nat.Find
import Mathlib.Order.Monotone.Basic
import RegexAudit.Proofs.Pattern.Glyph

/-!
# Slices of a joined text

Decoding a part of a text yields the part of the pattern that was decoded from it, when the part
begins and ends with characters of the pattern. A text that is cut there has the pieces it had
before: an escape ends where its spelling ends, so the cut destroys none, and what is no escape in
front of a longer text is none in front of a shorter one, so the cut creates none.

## Main definitions

* `Decoded.origin?`: the part of the text that a character of the pattern was decoded from.

## Main statements

* `Decoded.exists_escape?_iff`: the escapes are those of literals.
* `Decoded.pieces_slice`: the pieces of a slice are those of the text.
* `Decoded.existsUnique_piece`: every byte of a text belongs to exactly one piece.
* `Decoded.ofText_slice`: decoding commutes with slicing.
-/

namespace RegexAudit

open Script

namespace Decoded

/-- A text begins with an escape when it begins with one that a literal may have. -/
theorem exists_escape?_iff {s rest : List Char} {c : Char} :
    (∃ n, escape? s = some (c, n, rest)) ↔
      ∃ spelling, Quote.Spells .regular (.escape c) spelling ∧ s = spelling ++ rest := by
  constructor
  · rintro ⟨n, h⟩
    unfold escape? at h
    split at h
    · next letter cs =>
      split at h
      · next value hletter =>
        obtain ⟨rfl, -, rfl⟩ : value = c ∧ 2 = n ∧ cs = rest := by simpa using h
        exact ⟨['\\', letter], .letter hletter, rfl⟩
      · split at h
        · next hu =>
          subst hu
          unfold unicode? at h
          split at h
          · simp at h
          · next digits rest' hsplit =>
            obtain ⟨rfl, hwidth⟩ := Text.splitAt?_eq_some_iff.1 hsplit
            split at h
            · simp at h
            · next value hvalue =>
              obtain ⟨rfl, -, rfl⟩ : value = c ∧ 6 = n ∧ rest' = rest := by simpa using h
              exact ⟨'\\' :: 'u' :: digits, .unicode hwidth hvalue, rfl⟩
        · simp at h
    · simp at h
  · rintro ⟨spelling, hspells, rfl⟩
    exact hspells.escape? rest

/-- Cutting off the end of a text creates no escape at its beginning. -/
theorem escape?_of_append {s t : List Char} (h : escape? (s ++ t) = none) : escape? s = none := by
  cases hs : escape? s with
  | none => rfl
  | some found =>
    obtain ⟨c, n, rest⟩ := found
    obtain ⟨spelling, hspells, rfl⟩ := exists_escape?_iff.1 ⟨n, hs⟩
    obtain ⟨m, hm⟩ := hspells.escape? (rest ++ t)
    rw [List.append_assoc, hm] at h
    simp at h

/-- The first piece of a text is an escape of a literal, or a character that is written where it
stands since no escape begins there. -/
theorem pieces_eq_cons {s : List Char} {p : Piece} {ps : List Piece} (h : pieces s = p :: ps) :
    ∃ rest, s = p.spelling ++ rest ∧ pieces rest = ps ∧
      (Quote.Spells .regular (.escape p.value) p.spelling ∨
        p.spelling = [p.value] ∧ escape? s = none) := by
  cases hs : escape? s with
  | some found =>
    obtain ⟨c, n, rest⟩ := found
    obtain ⟨spelling, hspells, rfl⟩ := exists_escape?_iff.1 ⟨n, hs⟩
    rw [pieces_append rest hs] at h
    obtain ⟨rfl, hrest⟩ := List.cons.inj h
    exact ⟨rest, rfl, hrest, .inl hspells⟩
  | none =>
    cases s with
    | nil => simp at h
    | cons c cs =>
      rw [pieces_of_plain hs] at h
      obtain ⟨rfl, hrest⟩ := List.cons.inj h
      exact ⟨cs, rfl, hrest, .inr ⟨rfl, rfl⟩⟩

theorem spelling_ne_nil_of_mem {s : List Char} {p : Piece} (h : p ∈ pieces s) :
    p.spelling ≠ [] := by
  generalize hps : pieces s = ps at h
  induction ps generalizing s with
  | nil => simp at h
  | cons q qs ih =>
    obtain ⟨rest, -, hrest, hspelled⟩ := pieces_eq_cons hps
    rcases List.mem_cons.1 h with rfl | h
    · rcases hspelled with hspells | ⟨hspelling, -⟩
      · exact hspells.ne_nil
      · simp [hspelling]
    · exact ih hrest h

/-- Cutting off the end of a text behind a piece keeps the pieces in front of the cut. -/
theorem pieces_spellings_left {s : List Char} {ps qs : List Piece} (h : pieces s = ps ++ qs) :
    pieces (spellings ps) = ps := by
  induction ps generalizing s with
  | nil => simp
  | cons p ps ih =>
    obtain ⟨rest, rfl, hrest, hspelled⟩ := pieces_eq_cons h
    have hps := ih hrest
    have hp : (⟨p.value, p.spelling⟩ : Piece) :: pieces (spellings ps) = p :: ps := by rw [hps]
    rcases hspelled with hspells | ⟨hspelling, hplain⟩
    · obtain ⟨n, hn⟩ := hspells.escape? (spellings ps)
      rw [spellings_cons, pieces_append _ hn, hp]
    · have hsplit : rest = spellings ps ++ spellings qs := by
        rw [← spellings_pieces rest, hrest]
        exact spellings_append ps qs
      rw [hsplit, ← List.append_assoc] at hplain
      have hcut := escape?_of_append hplain
      rw [hspelling] at hcut hp
      rw [spellings_cons, hspelling, ← hp]
      exact pieces_of_plain hcut

/-- Cutting off the beginning of a text in front of a piece keeps the pieces behind the cut. -/
theorem pieces_spellings_right {s : List Char} {ps qs : List Piece} (h : pieces s = ps ++ qs) :
    pieces (spellings qs) = qs := by
  induction ps generalizing s with
  | nil =>
    rw [List.nil_append] at h
    rw [← h, spellings_pieces]
  | cons p ps ih =>
    obtain ⟨rest, -, hrest, -⟩ := pieces_eq_cons h
    exact ih hrest

/-- A slice that begins and ends with pieces of a text has these pieces. -/
theorem pieces_slice {s : List Char} {before within after : List Piece}
    (h : pieces s = before ++ within ++ after) : pieces (spellings within) = within :=
  pieces_spellings_right (pieces_spellings_left h)

/-- The offsets at which the pieces of a text begin never decrease. -/
theorem width_spellings_take_mono (ps : List Piece) :
    Monotone fun i => Text.width (spellings (ps.take i)) := by
  apply monotone_nat_of_le_succ
  intro i
  rw [List.take_add_one, spellings_append, Text.width_append]
  exact Nat.le_add_right ..

/-- Every byte of some pieces lies in exactly one of them. -/
theorem existsUnique_piece {ps : List Piece} {byte : Nat} (h : byte < Text.width (spellings ps)) :
    ∃! i, i < ps.length ∧ Text.width (spellings (ps.take i)) ≤ byte ∧
      byte < Text.width (spellings (ps.take (i + 1))) := by
  have hmono := width_spellings_take_mono ps
  -- The last piece that begins at the byte or before it is found as the first that begins behind.
  have hreached : ∃ i, byte < Text.width (spellings (ps.take i)) :=
    ⟨ps.length, by rwa [List.take_length]⟩
  have hfirst := Nat.find_spec hreached
  have hle : Nat.find hreached ≤ ps.length :=
    Nat.find_min' hreached (by rwa [List.take_length])
  obtain ⟨i, hi⟩ : ∃ i, Nat.find hreached = i + 1 := by
    refine Nat.exists_eq_succ_of_ne_zero ?_
    intro hzero
    rw [hzero] at hfirst
    simp at hfirst
  rw [hi] at hfirst hle
  have hbefore : ¬ byte < Text.width (spellings (ps.take i)) :=
    Nat.find_min hreached (by omega)
  refine ⟨i, ⟨by omega, by omega, hfirst⟩, ?_⟩
  rintro j ⟨-, hj, hj'⟩
  rcases Nat.lt_trichotomy j i with hlt | heq | hlt
  · have : Text.width (spellings (ps.take (j + 1))) ≤ Text.width (spellings (ps.take i)) :=
      hmono (show j + 1 ≤ i by omega)
    omega
  · exact heq
  · have : Text.width (spellings (ps.take (i + 1))) ≤ Text.width (spellings (ps.take j)) :=
      hmono (show i + 1 ≤ j by omega)
    omega

/-- The part of the text that the character with a number was decoded from. -/
def origin? (decoded : Decoded) (i : Nat) : Option Span := do
  let start ← decoded.offsets[Text.width (decoded.pattern.take i)]?
  let stop ← decoded.offsets[Text.width (decoded.pattern.take (i + 1))]?
  pure ⟨start, stop⟩

theorem origin?_ofText (s : List Char) (i : Nat) :
    (ofText s).origin? i = some ⟨Text.width (spellings ((pieces s).take i)),
      Text.width (spellings ((pieces s).take (i + 1)))⟩ := by
  have hoffset : ∀ k, (ofText s).offsets[Text.width ((ofText s).pattern.take k)]? =
      some (Text.width (spellings ((pieces s).take k))) := by
    intro k
    have hpattern : (ofText s).pattern.take k = values ((pieces s).take k) := by
      rw [ofText_eq]
      exact List.map_take.symm
    rw [hpattern]
    exact getElem?_offsets (List.take_append_drop k (pieces s)).symm
  rw [origin?, hoffset i, hoffset (i + 1)]
  rfl

/-- A text is sliced where its pattern is. -/
theorem slice?_of_isBoundary {s : List Char} {a b : Nat} (hle : a ≤ b)
    (ha : Text.IsBoundary (ofText s).pattern a) (hb : Text.IsBoundary (ofText s).pattern b) :
    ∃ lo hi part, (ofText s).offsets[a]? = some lo ∧ (ofText s).offsets[b]? = some hi ∧
      Text.IsBoundary s lo ∧ Text.IsBoundary s hi ∧
      Text.slice? s ⟨lo, hi⟩ = some part ∧
      Text.slice? (ofText s).pattern ⟨a, b⟩ = some (ofText part).pattern := by
  have hpattern : (ofText s).pattern = values (pieces s) := by rw [ofText_eq]
  rw [hpattern] at ha hb
  obtain ⟨before, within, after, hsplit, rfl, rfl⟩ :=
    Text.exists_between_of_isBoundary hle ha hb
  have hs : s = spellings before ++ spellings within ++ spellings after := by
    rw [← spellings_append, ← spellings_append, ← hsplit, spellings_pieces]
  have hlo := getElem?_offsets (hsplit.trans (List.append_assoc ..))
  have hhi := getElem?_offsets hsplit
  rw [spellings_append] at hhi
  refine ⟨_, _, spellings within, hlo, hhi, ?_, ?_, ?_, ?_⟩
  · rw [hs, List.append_assoc]
    exact Text.isBoundary_width_append _ _
  · rw [hs]
    exact Text.isBoundary_width_append _ _
  · exact Text.slice?_eq_some_iff.2 ⟨spellings before, spellings after, hs.symm, rfl, rfl⟩
  · have hpart : (ofText (spellings within)).pattern = values within := by
      rw [ofText_eq, pieces_slice hsplit]
    rw [hpart, hpattern, hsplit]
    refine Text.slice?_eq_some_iff.2 ⟨values before, values after, ?_, rfl, ?_⟩
    · rw [values_append, values_append]
    · rw [← values_append]
      rfl

/-- There is one offset for each byte of a pattern and one for its end. They begin with 0, end with
the width of the text and never decrease. Between two character boundaries of the pattern, the text
can be sliced at their offsets, and the slice decodes to what lies between them. The parts of the
text that the characters were decoded from are not empty, and each byte of the text lies in exactly
one of them. -/
theorem ofText_slice (text : List Char) :
    let decoded := ofText text
    decoded.offsets.length = Text.width decoded.pattern + 1 ∧
      decoded.offsets.head? = some 0 ∧
      decoded.offsets.getLast? = some (Text.width text) ∧
      decoded.offsets.Pairwise (· ≤ ·) ∧
      (∀ a b, a ≤ b → Text.IsBoundary decoded.pattern a → Text.IsBoundary decoded.pattern b →
        ∃ lo hi part, decoded.offsets[a]? = some lo ∧ decoded.offsets[b]? = some hi ∧
          Text.IsBoundary text lo ∧ Text.IsBoundary text hi ∧
          Text.slice? text ⟨lo, hi⟩ = some part ∧
          Text.slice? decoded.pattern ⟨a, b⟩ = some (ofText part).pattern) ∧
      (∀ i < decoded.pattern.length, ∃ span, decoded.origin? i = some span ∧
        span.start < span.stop) ∧
      ∀ byte < Text.width text, ∃! i, i < decoded.pattern.length ∧
        ∃ span, decoded.origin? i = some span ∧ span.start ≤ byte ∧ byte < span.stop := by
  intro decoded
  have hlength : decoded.pattern.length = (pieces text).length := by
    show (ofText text).pattern.length = _
    rw [ofText_eq, values, List.length_map]
  have hend := spellings_pieces text
  refine ⟨offsets_length text, ?_, ?_, offsets_ordered text, ?_, ?_, ?_⟩
  · have hfirst := head?_table 0 (pieces text)
    rw [Nat.zero_add, hend] at hfirst
    show (ofText text).offsets.head? = _
    rw [ofText_eq, hfirst]
  · show (ofText text).offsets.getLast? = _
    rw [ofText_eq, List.getLast?_concat]
  · intro a b hle ha hb
    exact slice?_of_isBoundary hle ha hb
  · intro i hi
    rw [hlength] at hi
    refine ⟨_, origin?_ofText text i, ?_⟩
    have hpiece := spelling_ne_nil_of_mem (List.getElem_mem hi)
    have hpos : 0 < Text.width (pieces text)[i].spelling :=
      Nat.pos_of_ne_zero fun hzero => hpiece (Text.width_eq_zero_iff.1 hzero)
    rw [List.take_succ_eq_append_getElem hi, spellings_append, Text.width_append]
    simp only [spellings_cons, spellings_nil, List.append_nil]
    omega
  · intro byte hbyte
    rw [← hend] at hbyte
    obtain ⟨i, ⟨hi, hle, hlt⟩, hunique⟩ := existsUnique_piece hbyte
    refine ⟨i, ⟨by omega, _, origin?_ofText text i, hle, hlt⟩, ?_⟩
    rintro j ⟨hj, span, hspan, hle', hlt'⟩
    obtain rfl := Option.some.inj ((origin?_ofText text j).symm.trans hspan)
    exact hunique j ⟨by omega, hle', hlt'⟩

/-- An escape, a backslash that begins none and a character of two bytes: the middle of the pattern
is decoded from the middle of the text. -/
theorem ofText_slice_mixed :
    ∃ part, Text.slice? ['\\', 'u', '0', '0', '4', '1', '\\', 'q', 'é'] ⟨6, 8⟩ = some part ∧
      (ofText part).pattern = ['\\', 'q'] := by
  have hdecoded : ofText ['\\', 'u', '0', '0', '4', '1', '\\', 'q', 'é'] =
      ⟨['A', '\\', 'q', 'é'], [0, 6, 7, 8, 9, 10]⟩ := by
    with_unfolding_all rfl
  have hslice := (ofText_slice ['\\', 'u', '0', '0', '4', '1', '\\', 'q', 'é']).2.2.2.2.1 1 3
    (by decide)
  rw [hdecoded] at hslice
  obtain ⟨lo, hi, part, hlo, hhi, -, -, hpart, hpattern⟩ := hslice (by decide) (by decide)
  obtain rfl : 6 = lo := Option.some.inj hlo
  obtain rfl : 8 = hi := Option.some.inj hhi
  exact ⟨part, hpart, (Option.some.inj hpattern).symm⟩

end Decoded

end RegexAudit
