import RegexAudit.Pattern.Source

/-!
# Decoding piece by piece

A joined text is a sequence of pieces: escapes, and characters that are written where they stand.
Decoding keeps the value of each piece, and gives each byte of the pattern the offset of its piece.

## Main definitions

* `Decoded.Piece`: the spelling of one pattern character in a joined text.
* `Decoded.pieces`: the pieces of a text.
* `Decoded.table`: the offset of each byte of the pattern.

## Main statements

* `Decoded.ofText_eq`: decoding in terms of pieces.
* `Decoded.pieces_append`: an escape at the front of a text is a piece of its own, whatever follows.
* `Decoded.getElem?_offsets`: at a character boundary of the pattern, the offset is the width of the
  pieces before it.
-/

namespace RegexAudit

namespace Decoded

/-- One character of a pattern with its spelling in the joined text. -/
structure Piece where
  value : Char
  spelling : List Char
deriving DecidableEq, Repr

/-- The pieces of a text from left to right. -/
def pieces (s : List Char) : List Piece :=
  match _h : escape? s with
  | some (c, _, rest) => ⟨c, s.take (s.length - rest.length)⟩ :: pieces rest
  | none =>
    match s with
    | [] => []
    | c :: cs => ⟨c, [c]⟩ :: pieces cs
termination_by s.length
decreasing_by
  · exact escape?_length_lt ‹_›
  · simp

/-- The pattern that some pieces spell. -/
def values (ps : List Piece) : List Char := ps.map (·.value)

/-- The text that some pieces make up. -/
def spellings (ps : List Piece) : List Char := ps.flatMap (·.spelling)

/-- The offsets of the bytes of a piece that starts at an offset. All bytes of a character that was
escaped have the offset of its escape. -/
def Piece.offsets (offset : Nat) (p : Piece) : List Nat :=
  if p.spelling = [p.value] then plainOffsets offset p.value
  else List.replicate p.value.utf8Size offset

/-- The offsets of the bytes of some pieces, of which the first starts at an offset. -/
def table (offset : Nat) : List Piece → List Nat
  | [] => []
  | p :: ps => p.offsets offset ++ table (offset + Text.width p.spelling) ps

@[simp] theorem values_nil : values [] = [] := rfl

@[simp] theorem values_cons (p : Piece) (ps : List Piece) :
    values (p :: ps) = p.value :: values ps := rfl

@[simp] theorem values_append (ps qs : List Piece) : values (ps ++ qs) = values ps ++ values qs :=
  List.map_append

@[simp] theorem spellings_nil : spellings [] = [] := rfl

@[simp] theorem spellings_cons (p : Piece) (ps : List Piece) :
    spellings (p :: ps) = p.spelling ++ spellings ps := rfl

@[simp] theorem spellings_append (ps qs : List Piece) :
    spellings (ps ++ qs) = spellings ps ++ spellings qs :=
  List.flatMap_append

@[simp] theorem Piece.offsets_length (offset : Nat) (p : Piece) :
    (p.offsets offset).length = p.value.utf8Size := by
  unfold Piece.offsets
  split <;> simp [plainOffsets]

/-- The first byte of a piece has the offset of the piece. -/
theorem Piece.head?_offsets (offset : Nat) (p : Piece) :
    (p.offsets offset).head? = some offset := by
  have hpos := p.value.utf8Size_pos
  obtain ⟨n, hn⟩ : ∃ n, p.value.utf8Size = n + 1 := ⟨p.value.utf8Size - 1, by omega⟩
  unfold Piece.offsets
  split
  · simp [plainOffsets, hn, List.range'_succ]
  · simp [hn, List.replicate_succ]

@[simp] theorem table_length (offset : Nat) (ps : List Piece) :
    (table offset ps).length = Text.width (values ps) := by
  induction ps generalizing offset with
  | nil => rfl
  | cons p ps ih => simp [table, ih]

/-- The offsets of the bytes of a piece lie in its spelling, in order. -/
theorem Piece.offsets_ordered (offset : Nat) (p : Piece) :
    (∀ n ∈ p.offsets offset, offset ≤ n ∧ n ≤ offset + Text.width p.spelling) ∧
      (p.offsets offset).Pairwise (· ≤ ·) := by
  unfold Piece.offsets
  split
  · next hspelling =>
    rw [hspelling, Text.width_cons, Text.width_nil, Nat.add_zero]
    refine ⟨?_, List.pairwise_le_range' 1⟩
    intro n hn
    obtain ⟨hle, hlt⟩ := List.mem_range'_1.1 hn
    exact ⟨hle, Nat.le_of_lt hlt⟩
  · refine ⟨?_, List.pairwise_replicate.2 (.inr (Nat.le_refl _))⟩
    intro n hn
    rw [List.eq_of_mem_replicate hn]
    exact ⟨Nat.le_refl _, Nat.le_add_right ..⟩

/-- The offsets of the bytes of some pieces lie in their spellings, in order. -/
theorem table_ordered (offset : Nat) (ps : List Piece) :
    (∀ n ∈ table offset ps, offset ≤ n ∧ n ≤ offset + Text.width (spellings ps)) ∧
      (table offset ps).Pairwise (· ≤ ·) := by
  induction ps generalizing offset with
  | nil => simp [table]
  | cons p ps ih =>
    obtain ⟨hin, hfirst⟩ := p.offsets_ordered offset
    obtain ⟨hrest, hmore⟩ := ih (offset + Text.width p.spelling)
    rw [table, spellings_cons, Text.width_append]
    constructor
    · intro n hn
      rcases List.mem_append.1 hn with hn | hn
      · have := hin n hn
        omega
      · have := hrest n hn
        omega
    · refine List.pairwise_append.2 ⟨hfirst, hmore, ?_⟩
      intro m hm n hn
      exact Nat.le_trans (hin m hm).2 (hrest n hn).1

theorem table_append (offset : Nat) (ps qs : List Piece) :
    table offset (ps ++ qs) = table offset ps ++ table (offset + Text.width (spellings ps)) qs := by
  induction ps generalizing offset with
  | nil => rfl
  | cons p ps ih => simp [table, ih, Nat.add_assoc]

/-- The table with the offset of the end begins with the offset of the beginning. -/
theorem head?_table (offset : Nat) (ps : List Piece) :
    (table offset ps ++ [offset + Text.width (spellings ps)]).head? = some offset := by
  cases ps with
  | nil => rfl
  | cons p ps => simp [table, List.append_assoc, List.head?_append, p.head?_offsets]

/-- An escape is spelled with more than one character, and its width is that of its spelling. -/
theorem escape?_spelling {s rest : List Char} {c : Char} {n : Nat}
    (h : escape? s = some (c, n, rest)) :
    ∃ letter more, s = '\\' :: letter :: more ++ rest ∧
      n = Text.width ('\\' :: letter :: more) := by
  unfold escape? at h
  split at h
  · next letter cs =>
    split at h
    · next value hletter =>
      simp only [Option.some.injEq, Prod.mk.injEq] at h
      obtain ⟨-, rfl, rfl⟩ := h
      refine ⟨letter, [], rfl, ?_⟩
      have hsize : letter.utf8Size = 1 := by
        unfold Escape.ofLetter? at hletter
        split at hletter <;> first | rfl | simp at hletter
      simp [hsize]
      rfl
    · split at h
      · next hu =>
        unfold unicode? at h
        split at h
        · simp at h
        · next digits rest' hsplit =>
          obtain ⟨hcs, hwidth⟩ := Text.splitAt?_eq_some_iff.1 hsplit
          split at h
          · simp at h
          · simp only [Option.some.injEq, Prod.mk.injEq] at h
            obtain ⟨-, rfl, rfl⟩ := h
            refine ⟨letter, digits, by simp [hcs], ?_⟩
            simp [hu, hwidth]
            rfl
      · simp at h
  · simp at h

theorem pieces_of_escape {s rest : List Char} {c : Char} {n : Nat}
    (h : escape? s = some (c, n, rest)) :
    pieces s = ⟨c, s.take (s.length - rest.length)⟩ :: pieces rest := by
  rw [pieces]
  split
  · next h' =>
    rw [h] at h'
    simp only [Option.some.injEq, Prod.mk.injEq] at h'
    obtain ⟨rfl, -, rfl⟩ := h'
    rfl
  · next h' => simp [h] at h'

theorem pieces_of_plain {c : Char} {cs : List Char} (h : escape? (c :: cs) = none) :
    pieces (c :: cs) = ⟨c, [c]⟩ :: pieces cs := by
  rw [pieces]
  split
  · next h' => simp [h] at h'
  · rfl

@[simp] theorem pieces_nil : pieces [] = [] := by
  rw [pieces]
  rfl

/-- An escape in front of any text is a piece of its own. -/
theorem pieces_append {spelling : List Char} {c : Char} {n : Nat} (rest : List Char)
    (h : escape? (spelling ++ rest) = some (c, n, rest)) :
    pieces (spelling ++ rest) = ⟨c, spelling⟩ :: pieces rest := by
  rw [pieces_of_escape h]
  simp

/-- A character other than a backslash is a piece of its own. -/
theorem pieces_cons {c : Char} (hc : c ≠ '\\') (cs : List Char) :
    pieces (c :: cs) = ⟨c, [c]⟩ :: pieces cs := by
  refine pieces_of_plain ?_
  unfold escape?
  split
  · next heq => exact absurd (List.cons.inj heq).1 hc
  · rfl

/-- Decoding from an offset on, in terms of pieces. -/
theorem decodeFrom_eq (pattern : List Char) (offsets : List Nat) (offset : Nat) (s : List Char) :
    decodeFrom pattern offsets offset s =
      ⟨pattern.reverse ++ values (pieces s),
        offsets.reverse ++ (table offset (pieces s) ++ [offset + Text.width s])⟩ := by
  fun_induction decodeFrom pattern offsets offset s with
  | case1 pattern offsets offset s c width rest h ih =>
    obtain ⟨letter, more, rfl, rfl⟩ := escape?_spelling h
    rw [ih, pieces_append rest h, Nat.add_assoc, ← Text.width_append]
    -- The spelling has a second character, so the bytes share one offset.
    simp [table, Piece.offsets, List.append_assoc]
  | case2 pattern offsets offset h =>
    simp [table]
  | case3 pattern offsets offset c cs h ih =>
    rw [ih, pieces_of_plain h]
    simp [table, Piece.offsets, Nat.add_assoc]

/-- Decoding a text keeps the values of its pieces, and records where each of them starts. -/
theorem ofText_eq (s : List Char) :
    ofText s = ⟨values (pieces s), table 0 (pieces s) ++ [Text.width s]⟩ := by
  rw [ofText, decodeFrom_eq]
  simp

/-- The pieces of a text make it up. -/
theorem spellings_pieces (s : List Char) : spellings (pieces s) = s := by
  fun_induction pieces s with
  | case1 s c n rest h ih =>
    obtain ⟨letter, more, hs, -⟩ := escape?_spelling h
    obtain ⟨spelling, rfl⟩ : ∃ spelling, s = spelling ++ rest := ⟨_, hs⟩
    simp [ih]
  | case2 => rfl
  | case3 c cs h ih => simp [ih]

@[simp] theorem offsets_length (s : List Char) :
    (ofText s).offsets.length = Text.width (ofText s).pattern + 1 := by
  simp [ofText_eq]

/-- A later byte has no smaller offset. -/
theorem offsets_ordered (s : List Char) : (ofText s).offsets.Pairwise (· ≤ ·) := by
  obtain ⟨hin, htable⟩ := table_ordered 0 (pieces s)
  rw [ofText_eq]
  refine List.pairwise_append.2 ⟨htable, List.pairwise_singleton .., ?_⟩
  intro m hm n hn
  have hle := (hin m hm).2
  rw [spellings_pieces, Nat.zero_add] at hle
  rwa [List.mem_singleton.1 hn]

/-- At a character boundary of the pattern, the offset is the width of the pieces before it. -/
theorem getElem?_offsets {s : List Char} {ps qs : List Piece} (h : pieces s = ps ++ qs) :
    (ofText s).offsets[Text.width (values ps)]? = some (Text.width (spellings ps)) := by
  have hspellings := spellings_pieces s
  rw [h, spellings_append] at hspellings
  have hoffsets : (ofText s).offsets = table 0 ps ++ (table (Text.width (spellings ps)) qs ++
      [Text.width (spellings ps) + Text.width (spellings qs)]) := by
    rw [ofText_eq, h, table_append, Nat.zero_add, ← hspellings, Text.width_append]
    exact List.append_assoc ..
  rw [hoffsets, ← table_length 0 ps, List.getElem?_append_right (Nat.le_refl _), Nat.sub_self,
    ← List.head?_eq_getElem?, head?_table]

end Decoded

namespace PatternSource

open Decoded

theorem pattern_ofFragments (fragments : List Fragment) :
    (ofFragments fragments).pattern = values (pieces (Fragment.join fragments)) := by
  simp [ofFragments, pattern, ofText_eq]

/-- At a character boundary of the pattern, the offset in the joined text is the width of the
pieces before it. -/
theorem offset_of_pieces {fragments : List Fragment} {ps qs : List Piece}
    (h : pieces (Fragment.join fragments) = ps ++ qs) :
    (ofFragments fragments).offset (Text.width (values ps)) = Text.width (spellings ps) := by
  have hentry := getElem?_offsets h
  obtain ⟨hlt, -⟩ := List.getElem?_eq_some_iff.1 hentry
  show (ofText (Fragment.join fragments)).offsets.getD
    (min (Text.width (values ps)) ((ofText (Fragment.join fragments)).offsets.length - 1)) 0 = _
  rw [List.getD_eq_getElem?_getD, Nat.min_eq_left (by omega), hentry]
  rfl

/-- A later byte has no smaller offset. -/
theorem offset_mono (fragments : List Fragment) {i j : Nat} (h : i ≤ j) :
    (ofFragments fragments).offset i ≤ (ofFragments fragments).offset j := by
  have hordered := offsets_ordered (Fragment.join fragments)
  have hlength := offsets_length (Fragment.join fragments)
  show (ofText (Fragment.join fragments)).offsets.getD
      (min i ((ofText (Fragment.join fragments)).offsets.length - 1)) 0 ≤
    (ofText (Fragment.join fragments)).offsets.getD
      (min j ((ofText (Fragment.join fragments)).offsets.length - 1)) 0
  generalize (ofText (Fragment.join fragments)).offsets = offsets at hordered hlength ⊢
  rw [List.getD_eq_getElem?_getD, List.getD_eq_getElem?_getD,
    List.getElem?_eq_getElem (by omega), List.getElem?_eq_getElem (by omega)]
  rcases Nat.lt_or_ge (min i (offsets.length - 1)) (min j (offsets.length - 1)) with hlt | hge
  · exact List.pairwise_iff_getElem.1 hordered _ _ (by omega) (by omega) hlt
  · have hsame : min i (offsets.length - 1) = min j (offsets.length - 1) := by omega
    simp only [hsame, Nat.le_refl]

/-- Every byte past the pattern has the offset of its end. -/
theorem offset_past (fragments : List Fragment) {i : Nat}
    (h : Text.width (ofFragments fragments).pattern ≤ i) :
    (ofFragments fragments).offset i =
      (ofFragments fragments).offset (Text.width (ofFragments fragments).pattern) := by
  have hlength : (ofFragments fragments).decoded.offsets.length - 1 =
      Text.width (ofFragments fragments).pattern := by
    simp [ofFragments, pattern, ofText_eq]
  unfold offset
  rw [hlength, Nat.min_eq_right h, Nat.min_self]

end PatternSource

end RegexAudit
