import RegexAudit.Proofs.Text.Slice
import RegexAudit.Regex.Parser

/-!
# Where readers of patterns end

Every reader of a pattern moves over a part of it, and the spans that it yields end where it stops.

## Main definitions

* `Cursor.Reaches`: one place is reached from another by moving over a text.
* `Reader.Moves`: where a reader ends, and how its value fits that place.

## Main statements

* `Reader.escape_moves`: an escape ends where its span does.
* `Reader.counted_moves`, `Reader.uncounted_moves`: so does a repetition operator.
* `Reader.movesOn_opening`: the beginning of a group moves over a text.
* `parse_eq_ok_iff`: a pattern is parsed if it is read to its end and not nested too deep.
-/

namespace RegexAudit

/-- The text consists of space and of comments, each with the newline that ends it. -/
inductive Text.IsTrivia : List Char → Prop
  | nil : IsTrivia []
  | blank (c : Char) (s : List Char) : isBlank c = true → IsTrivia s → IsTrivia (c :: s)
  | comment (body s : List Char) : '\n' ∉ body → IsTrivia s →
      IsTrivia ('#' :: (body ++ '\n' :: s))

/-- One more character at the beginning of a comment. -/
theorem Text.IsTrivia.cons_comment {c : Char} {s : List Char} (h : IsTrivia ('#' :: s))
    (hc : c ≠ '\n') : IsTrivia ('#' :: c :: s) := by
  cases h with
  | blank _ _ hblank => cases hblank
  | comment body rest hbody hrest =>
    exact .comment (c :: body) rest (by simp [hbody, Ne.symm hc]) hrest

namespace Cursor

/-- The place `d` is reached from `c` by moving over a text. -/
def Reaches (c d : Cursor) : Prop := ∃ text, c.Reads text d

variable {c d e : Cursor}

theorem Reaches.refl (c : Cursor) : c.Reaches c := ⟨[], rfl, rfl⟩

theorem Reaches.trans (h : c.Reaches d) (h' : d.Reaches e) : c.Reaches e := by
  obtain ⟨s, hs⟩ := h
  obtain ⟨t, ht⟩ := h'
  exact ⟨s ++ t, hs.append ht⟩

theorem Reaches.in_source {s : List Char} (h : c.Reaches d) (hc : c.In s) : d.In s := by
  obtain ⟨text, htext⟩ := h
  exact htext.in_source hc

theorem Reaches.offset_le (h : c.Reaches d) : c.offset ≤ d.offset := by
  obtain ⟨text, htext⟩ := h
  rw [htext.offset]
  exact Nat.le_add_right _ _

theorem reaches_past {read rest : List Char} (h : c.rest = read ++ rest) :
    c.Reaches (c.past read rest) := ⟨read, reads_past h⟩

theorem reaches_advance (n : Nat) (c : Cursor) : c.Reaches (c.advance n) := by
  fun_induction advance n c with
  | case1 c => exact .refl c
  | case2 n offset => exact .refl _
  | case3 n offset ch cs ih => exact .trans ⟨[ch], rfl, rfl⟩ ih

theorem reaches_dropWhile (p : Char → Bool) (c : Cursor) : c.Reaches (c.dropWhile p) :=
  reaches_past List.takeWhile_append_dropWhile.symm

/-- Passing over space and comments, from the inside of a comment or from outside of one. What is
passed over ends with its last comment, unless the text does. -/
theorem skipTriviaFrom_reads (inComment : Bool) (offset : Nat) (s : List Char) :
    ∃ text, (⟨offset, s⟩ : Cursor).Reads text (skipTriviaFrom inComment offset s) ∧
      ((skipTriviaFrom inComment offset s).rest ≠ [] →
        Text.IsTrivia (if inComment then '#' :: text else text)) := by
  fun_induction skipTriviaFrom inComment offset s with
  | case1 inComment offset => exact ⟨[], ⟨rfl, rfl⟩, fun h => absurd rfl h⟩
  | case2 offset ch cs ih =>
    -- inside a comment, which a newline ends
    obtain ⟨text, htext, htrivia⟩ := ih
    refine ⟨ch :: text, .append (s := [ch]) ⟨rfl, rfl⟩ htext, fun hrest => ?_⟩
    have htrivia := htrivia hrest
    by_cases hnewline : ch = '\n'
    · subst hnewline
      exact .comment [] text (by simp) (by simpa using htrivia)
    · exact Text.IsTrivia.cons_comment (by simpa [hnewline] using htrivia) hnewline
  | case3 inComment offset ch cs hout hblank ih =>
    obtain ⟨text, htext, htrivia⟩ := ih
    refine ⟨ch :: text, .append (s := [ch]) ⟨rfl, rfl⟩ htext, fun hrest => ?_⟩
    simpa [hout] using Text.IsTrivia.blank ch text hblank (htrivia hrest)
  | case4 inComment offset cs hout hblank ih =>
    -- the hash of a comment, of which `ih` tells the rest
    obtain ⟨text, htext, htrivia⟩ := ih
    refine ⟨'#' :: text, .append (s := ['#']) ⟨rfl, rfl⟩ htext, fun hrest => ?_⟩
    simpa [hout] using htrivia hrest
  | case5 inComment offset ch cs hout hblank hmark =>
    exact ⟨[], ⟨rfl, rfl⟩, fun _ => by simpa [hout] using Text.IsTrivia.nil⟩

/-- The rest of a comment is passed over up to its newline. -/
theorem skipTriviaFrom_comment (offset : Nat) {body : List Char} (hbody : '\n' ∉ body)
    (rest : List Char) :
    skipTriviaFrom true offset (body ++ '\n' :: rest) =
      skipTriviaFrom false (offset + Text.width (body ++ ['\n'])) rest := by
  induction body generalizing offset with
  | nil => simp [skipTriviaFrom]
  | cons c cs ih =>
    have hc : c ≠ '\n' := Ne.symm (List.ne_of_not_mem_cons hbody)
    rw [List.cons_append, skipTriviaFrom, if_pos rfl, bne_iff_ne.2 hc,
      ih _ (List.not_mem_of_not_mem_cons hbody)]
    simp [Nat.add_assoc]

/-- All the space and all the comments are passed over that stand before anything else. -/
theorem skipTriviaFrom_append {text : List Char} (h : Text.IsTrivia text) (offset : Nat) {ch : Char}
    {rest : List Char} (hblank : Text.isBlank ch = false) (hmark : ch ≠ '#') :
    skipTriviaFrom false offset (text ++ ch :: rest) = ⟨offset + Text.width text, ch :: rest⟩ := by
  induction h generalizing offset with
  | nil => simp [skipTriviaFrom, hblank, hmark]
  | blank c s hc _ ih =>
    rw [List.cons_append, skipTriviaFrom, if_neg Bool.false_ne_true, if_pos hc, ih]
    simp [Nat.add_assoc]
  | comment body s hbody _ ih =>
    have hhash : Text.isBlank '#' = false := rfl
    rw [List.cons_append, List.append_assoc, List.cons_append, skipTriviaFrom,
      if_neg Bool.false_ne_true, hhash, if_neg Bool.false_ne_true, if_pos rfl,
      skipTriviaFrom_comment _ hbody, ih]
    simp [Nat.add_assoc]

/-- Where space and comments are not ignored, nothing is passed over. -/
theorem skipTrivia_reads (ws : Bool) (c : Cursor) :
    ∃ text, c.Reads text (c.skipTrivia ws) ∧
      ((c.skipTrivia ws).rest ≠ [] → Text.IsTrivia text) := by
  unfold skipTrivia
  split
  · exact skipTriviaFrom_reads false c.offset c.rest
  · exact ⟨[], ⟨rfl, rfl⟩, fun _ => .nil⟩

theorem reaches_skipTrivia (ws : Bool) (c : Cursor) : c.Reaches (c.skipTrivia ws) := by
  obtain ⟨text, htext, -⟩ := skipTrivia_reads ws c
  exact ⟨text, htext⟩

end Cursor

namespace Reader

variable {ε α β : Type}

/-- Run at the offset `start`, the reader moves over a text, and its value fits the offset that it
ends at. -/
structure Moves (r : Reader ε α) (start : Nat) (fits : α → Nat → Prop) : Prop where
  of_run : ∀ {c a d}, r.run c = .ok (a, d) → c.offset = start → c.Reaches d ∧ fits a d.offset

/-- Wherever it is run, the reader moves over a text. -/
def MovesOn (r : Reader ε α) : Prop := ∀ start, r.Moves start fun _ _ => True

variable {start : Nat} {fits : α → Nat → Prop} {fits' : β → Nat → Prop}

theorem moves_pure {a : α} (h : fits a start) : (pure a : Reader ε α).Moves start fits := by
  constructor
  rintro c _ d ⟨⟩ rfl
  exact ⟨.refl _, h⟩

theorem moves_fail {e : ε} : (fail e : Reader ε α).Moves start fits := by
  constructor
  intro c a d h
  cases h

theorem movesOn_fail {e : ε} : (fail e : Reader ε α).MovesOn :=
  fun _ => moves_fail

theorem Moves.bind {r : Reader ε α} {f : α → Reader ε β} (hr : r.Moves start fits)
    (hf : ∀ a stop, fits a stop → (f a).Moves stop fits') : (r >>= f).Moves start fits' := by
  constructor
  intro c b d h hstart
  simp only [Bind.bind, Reader.bind] at h
  split at h
  · cases h
  · next a c' hrun =>
    obtain ⟨hreach, ha⟩ := hr.of_run hrun hstart
    obtain ⟨hreach', hb⟩ := (hf a _ ha).of_run h rfl
    exact ⟨hreach.trans hreach', hb⟩

theorem Moves.mono {r : Reader ε α} {weaker : α → Nat → Prop} (hr : r.Moves start fits)
    (h : ∀ a stop, fits a stop → weaker a stop) : r.Moves start weaker :=
  ⟨fun hrun hstart => (hr.of_run hrun hstart).imp_right (h _ _)⟩

/-- A reader never ends before the place where it began. -/
theorem Moves.onwards {r : Reader ε α} (hr : r.Moves start fits) :
    r.Moves start fun a stop => start ≤ stop ∧ fits a stop := by
  constructor
  rintro c a d hrun rfl
  obtain ⟨hreach, ha⟩ := hr.of_run hrun rfl
  exact ⟨hreach, hreach.offset_le, ha⟩

section Steps

variable {f : Nat → Reader ε β} {g : Cursor → Reader ε β}

/-- A step of which neither the value nor the end matters. -/
theorem MovesOn.then {r : Reader ε α} {f : α → Reader ε β} (hr : r.MovesOn)
    (hf : ∀ a stop, (f a).Moves stop fits') : (r >>= f).Moves start fits' :=
  (hr start).bind fun a stop _ => hf a stop

/-- Asking for the offset. -/
theorem moves_offset_then (hf : (f start).Moves start fits') :
    (offset >>= f : Reader ε β).Moves start fits' := by
  constructor
  rintro c b d h rfl
  exact hf.of_run h rfl

/-- Asking for the place. -/
theorem moves_place_then (hg : ∀ c, c.offset = start → (g c).Moves start fits') :
    (place >>= g : Reader ε β).Moves start fits' := by
  constructor
  intro c b d h hstart
  exact (hg c hstart).of_run h hstart

/-- Asking for the next character. -/
theorem moves_peek?_then {f : Option Char → Reader ε β} (hf : ∀ ch, (f ch).Moves start fits') :
    (peek? >>= f : Reader ε β).Moves start fits' := by
  constructor
  intro c b d h hstart
  exact (hf c.rest.head?).of_run h hstart

theorem moves_ofExcept_then {x : Except ε α} {f : α → Reader ε β}
    (hf : ∀ a, (f a).Moves start fits') : (ofExcept x >>= f).Moves start fits' := by
  cases x with
  | ok a =>
    constructor
    intro c b d h hstart
    exact (hf a).of_run h hstart
  | error e =>
    constructor
    intro c b d h
    cases h

end Steps

theorem movesOn_move {f : Cursor → Cursor} {hf : ∀ c, (f c).rest.length ≤ c.rest.length}
    (h : ∀ c : Cursor, c.Reaches (f c)) : (move f hf : Reader ε Unit).MovesOn := by
  intro start
  constructor
  rintro c _ d ⟨⟩ -
  exact ⟨h c, trivial⟩

theorem movesOn_advance (n : Nat) : (advance n : Reader ε Unit).MovesOn :=
  movesOn_move (Cursor.reaches_advance n)

theorem movesOn_dropWhile (p : Char → Bool) : (dropWhile p : Reader ε Unit).MovesOn :=
  movesOn_move (Cursor.reaches_dropWhile p)

end Reader

namespace Regex

namespace Reader

open RegexAudit.Reader

variable {α β : Type} {start : Nat} {fits' : β → Nat → Prop}

/-- Asking for the next character where there has to be one. -/
theorem moves_peekOr_then {cause : Cause} {span : Nat → Span} {f : Char → Reader β}
    (hf : ∀ ch, (f ch).Moves start fits') : (peekOr cause span >>= f).Moves start fits' := by
  have hpeek : (peekOr cause span).Moves start fun _ stop => stop = start := by
    unfold peekOr
    refine moves_place_then fun c _ => ?_
    split
    · exact moves_fail
    · exact moves_pure rfl
  refine hpeek.bind ?_
  rintro ch _ rfl
  exact hf ch

theorem movesOn_skip (ws : Bool) : (skip ws).MovesOn :=
  movesOn_move (Cursor.reaches_skipTrivia ws)

theorem movesOn_next (ws : Bool) : (next ws).MovesOn :=
  fun _ => (movesOn_advance 1).then fun _ stop => movesOn_skip ws stop

variable {ws : Bool}

theorem reaches_collectFrom (p : Char → Bool) (read : List Char) (c : Cursor) :
    c.Reaches (collectFrom ws p read c).2 := by
  fun_induction collectFrom ws p read c with
  | case1 => exact .refl _
  | case2 read c ch cs hrest _ ih =>
    exact .trans (Cursor.reaches_past hrest) (.trans (Cursor.reaches_skipTrivia ws _) ih)
  | case3 => exact .refl _

theorem movesOn_collect (p : Char → Bool) : (collect ws p).MovesOn := by
  intro start
  constructor
  intro c a d h _
  simp only [collect, Except.ok.injEq] at h
  have hreach := @reaches_collectFrom ws p [] c
  rw [h] at hreach
  exact ⟨hreach, trivial⟩

section Escapes

variable {here : Nat}

/-- The primitive stands from an offset to the end of what has been read. -/
def Primitive.EndsAt (start : Nat) (p : Primitive) (stop : Nat) : Prop := p.span = ⟨start, stop⟩

theorem movesOn_hexDigits (n : Nat) : (hexDigits ws n).MovesOn := by
  induction n with
  | zero => exact fun _ => moves_pure trivial
  | succ n ih =>
    intro here
    rw [hexDigits]
    refine moves_peekOr_then fun ch => ?_
    split
    · exact (movesOn_next ws).then fun _ _ => ih.then fun _ _ => moves_pure trivial
    · exact moves_offset_then moves_fail

theorem hexFixed_moves {digits : Nat} :
    (hexFixed ws start digits).Moves here (Primitive.EndsAt start) := by
  refine moves_offset_then ((movesOn_hexDigits digits).then fun spelled stop => ?_)
  refine moves_offset_then ?_
  split
  · exact moves_pure rfl
  · exact moves_fail

theorem hexBraced_moves : (hexBraced ws start).Moves here (Primitive.EndsAt start) := by
  refine moves_offset_then ((movesOn_next ws).then fun _ _ => ?_)
  refine (movesOn_collect _).then fun spelled last => moves_offset_then ?_
  refine moves_peekOr_then fun ch => ?_
  split
  · refine (movesOn_next ws).then fun _ stop => moves_offset_then ?_
    split
    · exact moves_fail
    split
    · exact moves_pure rfl
    · exact moves_fail
  · exact moves_fail

theorem hex_moves {digits : Nat} : (hex ws start digits).Moves here (Primitive.EndsAt start) := by
  refine (movesOn_next ws).then fun _ _ => moves_peekOr_then fun ch => ?_
  split
  · exact hexBraced_moves
  · exact hexFixed_moves

theorem unicodeClass_moves : (unicodeClass ws start).Moves here (Primitive.EndsAt start) := by
  have hlast : ∀ here, (do return .predefined ⟨start, ← offset⟩ : Reader Primitive).Moves here
      (Primitive.EndsAt start) := fun here => moves_offset_then (moves_pure rfl)
  refine (movesOn_next ws).then fun _ _ => moves_peekOr_then fun ch => ?_
  split
  · refine (movesOn_next ws).then fun _ _ => (movesOn_collect _).then fun _ _ => ?_
    exact moves_peekOr_then fun _ => (movesOn_advance 1).then fun _ _ => hlast _
  split
  · exact moves_offset_then moves_fail
  · exact (movesOn_next ws).then fun _ _ => hlast _

theorem wordBoundary_moves : (wordBoundary ws start).Moves here (Primitive.EndsAt start) := by
  refine moves_place_then fun c hc => ?_
  have hplain : (pure (.assertion ⟨start, c.offset⟩ .wordBoundary) : Reader Primitive).Moves here
      (Primitive.EndsAt start) := moves_pure (by rw [hc]; rfl)
  dsimp only
  split
  · split
    · exact moves_fail
    · split
      · refine (movesOn_next ws).then fun _ _ => (movesOn_collect _).then fun name last => ?_
        refine moves_offset_then (moves_peek?_then fun ch => ?_)
        split
        · refine (movesOn_advance 1).then fun _ _ => ?_
          split
          · exact moves_offset_then (moves_pure rfl)
          · exact moves_fail
        · exact moves_fail
      · exact hplain
  · exact hplain

theorem simpleEscape_moves {ch : Char} :
    (simpleEscape ws start ch).Moves here (Primitive.EndsAt start) := by
  refine (movesOn_advance 1).then fun _ stop => moves_offset_then ?_
  dsimp only
  split
  · exact moves_pure rfl
  split
  · exact moves_pure rfl
  split
  · exact wordBoundary_moves
  split
  · exact moves_pure rfl
  · exact moves_pure rfl
  · exact moves_fail

/-- An escape ends where its span does. -/
theorem escape_moves : (escape ws start).Moves here (Primitive.EndsAt start) := by
  refine moves_peekOr_then fun ch => ?_
  split
  · exact moves_fail
  split
  · exact unicodeClass_moves
  split
  · exact hex_moves
  · exact simpleEscape_moves

end Escapes

section Operators

variable {here : Nat}

theorem movesOn_skipBlank : (skipBlank ws).MovesOn := by
  refine fun _ => moves_peek?_then fun ch => ?_
  split
  · exact (movesOn_dropWhile _).then fun _ stop => movesOn_skip ws stop
  · exact moves_pure trivial

theorem movesOn_decimal : (decimal ws).MovesOn := by
  refine fun _ => (movesOn_dropWhile _).then fun _ _ => moves_offset_then ?_
  refine (movesOn_collect _).then fun digits _ => moves_offset_then ?_
  refine movesOn_skipBlank.then fun _ _ => ?_
  split
  · exact moves_pure trivial
  · exact moves_pure trivial

theorem movesOn_bounds : (bounds ws start).MovesOn := by
  refine fun _ => movesOn_decimal.then fun least _ => moves_peekOr_then fun ch => ?_
  split
  · refine (movesOn_next ws).then fun _ _ => moves_peekOr_then fun ch => ?_
    split
    · exact moves_ofExcept_then fun _ => moves_pure trivial
    · refine moves_ofExcept_then fun _ => movesOn_decimal.then fun most _ => ?_
      exact moves_ofExcept_then fun _ => moves_pure trivial
  · exact moves_ofExcept_then fun _ => moves_pure trivial

theorem movesOn_lazyMark : lazyMark.MovesOn := by
  refine fun _ => moves_peek?_then fun ch => ?_
  split
  · exact movesOn_advance 1 _
  · exact moves_pure trivial

/-- A counted repetition ends where the span of its operator does. -/
theorem counted_moves :
    (counted ws start).Moves here fun span stop => span = ⟨start, stop⟩ := by
  refine (movesOn_skip ws).then fun _ _ => moves_peekOr_then fun _ => ?_
  refine movesOn_bounds.then fun bounds _ => moves_peekOr_then fun ch => ?_
  split
  · refine (movesOn_next ws).then fun _ _ => movesOn_lazyMark.then fun _ stop => ?_
    refine moves_offset_then ?_
    dsimp only
    split
    · exact moves_pure rfl
    · exact moves_fail
  · exact moves_offset_then moves_fail

/-- So does any other repetition. -/
theorem uncounted_moves :
    (uncounted start).Moves here fun span stop => span = ⟨start, stop⟩ :=
  movesOn_lazyMark.then fun _ _ => moves_offset_then (moves_pure rfl)

end Operators

section Groups

variable {here : Nat}

theorem movesOn_mk {run : Cursor → Except Fault (α × Cursor)} {le}
    (h : ∀ {c a d}, run c = .ok (a, d) → c.Reaches d) : (Reader.mk run le).MovesOn :=
  fun _ => ⟨fun hrun _ => ⟨h hrun, trivial⟩⟩

theorem reaches_groupName {read name : List Char} {c d : Cursor}
    (h : groupName read c = .ok (name, d)) : c.Reaches d := by
  fun_induction groupName read c with
  | case1 | case2 =>
    cases h
    exact .refl _
  | case3 read c ch cs hrest _ _ ih => exact .trans (Cursor.reaches_past hrest) (ih h)
  | case4 => cases h

theorem reaches_flagList {read items : List FlagItem} {c d : Cursor}
    (h : flagList read c = .ok (items, d)) : c.Reaches d := by
  fun_induction flagList read c with
  | case1 => cases h
  | case2 =>
    cases h
    exact .refl _
  | case3 => cases h
  | case4 read c ch cs hrest _ item _ ih => exact .trans (Cursor.reaches_past hrest) (ih h)

theorem movesOn_named {names : List (List Char)} : (named names).MovesOn := by
  refine fun _ => moves_offset_then (moves_peekOr_then fun _ => ?_)
  refine (movesOn_mk reaches_groupName).then fun name _ => moves_offset_then ?_
  refine moves_peekOr_then fun _ => (movesOn_advance 1).then fun _ _ => ?_
  split
  · exact moves_fail
  split
  · exact moves_fail
  · exact moves_pure trivial

theorem movesOn_flagged {mark : Nat} : (flagged start mark).MovesOn := by
  refine fun _ => moves_peekOr_then fun _ => moves_offset_then ?_
  refine (movesOn_mk reaches_flagList).then fun items _ => moves_offset_then ?_
  extract_lets rest
  have hrest : ∀ u, (rest u).MovesOn := by
    refine fun _ _ => moves_peek?_then fun terminator => (movesOn_advance 1).then fun _ _ => ?_
    split
    · split
      · exact moves_fail
      · exact moves_pure trivial
    · exact moves_pure trivial
  split
  · exact movesOn_fail.then fun u stop => hrest u stop
  · exact hrest () _

theorem movesOn_opening {names : List (List Char)} : (opening ws names start).MovesOn := by
  refine fun _ => (movesOn_skip ws).then fun _ _ => moves_place_then fun c _ => ?_
  split
  · exact moves_fail
  · exact moves_fail
  · exact moves_fail
  · exact moves_fail
  · exact (movesOn_advance 3).then fun _ stop => movesOn_named stop
  · exact (movesOn_advance 2).then fun _ stop => movesOn_named stop
  · exact (movesOn_advance 1).then fun _ stop => movesOn_flagged stop
  · exact moves_pure trivial

end Groups

end Reader

/-- A pattern is parsed if it is read to its end and not nested too deep. -/
theorem parse_eq_ok_iff {ws : Bool} {pattern : List Char} {tree : Tree} :
    parse ws pattern = .ok tree ↔
      State.read ⟨.fresh ws 0, [], []⟩ (.ofText pattern) = .ok tree ∧
        tree.overNested? 0 = none := by
  unfold parse Tree.admit
  constructor
  · intro h
    split at h
    · cases h
    · next read hread =>
      split at h
      · cases h
      · next hadmitted =>
        cases h
        exact ⟨hread, hadmitted⟩
  · rintro ⟨hread, hadmitted⟩
    rw [hread]
    dsimp only
    rw [hadmitted]

end Regex

end RegexAudit
