import RegexAudit.Regex.Fault
import RegexAudit.Text.Reader
import RegexAudit.Text.Unicode

/-!
# Readers of patterns

Readers that fail with a fault of the pattern, and that can pass over space and
comments.

## Main definitions

* `Regex.Reader`: a reader of patterns.
* `Cursor.skipTrivia`: drops space and comments, where they are ignored.
* `Reader.next`: moves over one character and what may be skipped after it.

## Design notes

Whether space and comments are ignored is an argument `ws` of each reader that
depends on it. It only changes at groups, which are handled by the caller.
-/

namespace RegexAudit

namespace Cursor

/-- Drops a comment up to and including its newline, and then space and further comments. -/
def skipTriviaFrom (inComment : Bool) (offset : Nat) : List Char → Cursor
  | [] => ⟨offset, []⟩
  | c :: cs =>
    if inComment then skipTriviaFrom (c != '\n') (offset + c.utf8Size) cs
    else if Text.isBlank c then skipTriviaFrom false (offset + c.utf8Size) cs
    else if c = '#' then skipTriviaFrom true (offset + c.utf8Size) cs
    else ⟨offset, c :: cs⟩

/-- Drops space and comments where they are ignored. -/
def skipTrivia (ws : Bool) (c : Cursor) : Cursor :=
  if ws then skipTriviaFrom false c.offset c.rest else c

theorem skipTriviaFrom_length_le (inComment : Bool) (offset : Nat) (s : List Char) :
    (skipTriviaFrom inComment offset s).rest.length ≤ s.length := by
  fun_induction skipTriviaFrom inComment offset s <;> simp_all <;> omega

theorem skipTrivia_length_le (ws : Bool) (c : Cursor) :
    (c.skipTrivia ws).rest.length ≤ c.rest.length := by
  unfold skipTrivia
  split
  · exact skipTriviaFrom_length_le ..
  · exact Nat.le_refl _

end Cursor

namespace Regex

/-- A reader of patterns. -/
abbrev Reader (α : Type) : Type := RegexAudit.Reader Fault α

namespace Reader

open RegexAudit.Reader

/-- Fails with a fault at a span. -/
def fail {α : Type} (cause : Cause) (span : Span) : Reader α := RegexAudit.Reader.fail ⟨cause, span⟩

/-- Moves over space and comments where they are ignored. -/
def skip (ws : Bool) : Reader Unit :=
  move (Cursor.skipTrivia ws) (Cursor.skipTrivia_length_le ws)

/-- Moves over one character and what may be skipped after it. -/
def next (ws : Bool) : Reader Unit := do
  advance 1
  skip ws

/-- The next character; at the end of the pattern, a fault. -/
def peekOr (cause : Cause) (span : Nat → Span) : Reader Char := do
  let c ← place
  match c.rest with
  | [] => fail cause (span c.offset)
  | ch :: _ => return ch

/-- The characters in front that satisfy a test, each skipped after. The characters already read are
given last first. -/
def collectFrom (ws : Bool) (p : Char → Bool) (read : List Char) (c : Cursor) :
    List Char × Cursor :=
  match _h : c.rest with
  | [] => (read.reverse, c)
  | ch :: cs =>
    if p ch then collectFrom ws p (ch :: read) ((c.past [ch] cs).skipTrivia ws)
    else (read.reverse, c)
termination_by c.rest.length
decreasing_by
  have := Cursor.skipTrivia_length_le ws (c.past [ch] cs)
  simp only [Cursor.past, _h, List.length_cons] at *
  omega

theorem collectFrom_length_le (ws : Bool) (p : Char → Bool) (read : List Char) (c : Cursor) :
    (collectFrom ws p read c).2.rest.length ≤ c.rest.length := by
  fun_induction collectFrom ws p read c with
  | case1 => simp
  | case2 read c ch cs hrest hp ih =>
    have := Cursor.skipTrivia_length_le ws (c.past [ch] cs)
    simp only [Cursor.past, hrest, List.length_cons] at *
    omega
  | case3 => simp

/-- Reads the characters in front that satisfy a test, with what may be skipped after each. -/
def collect (ws : Bool) (p : Char → Bool) : Reader (List Char) where
  run c := .ok (collectFrom ws p [] c)
  le {c a d} h := by
    have := collectFrom_length_le ws p [] c
    simp only [Except.ok.injEq] at h
    rwa [h] at this

end Reader

end Regex

end RegexAudit
