import RegexAudit.Pattern.Index
import RegexAudit.Text.Escape
import RegexAudit.Text.Numeral

/-!
# The pattern behind a joined text

The joined text of fragments still spells escapes: two backslashes for one, a
backslash and `n` for a newline. Decoding yields the pattern that the running
program sees, and records where each byte of it came from.

## Main definitions

* `Decoded.escape?`: the escape at the beginning of a text.
* `Decoded.ofText`: the pattern and the offset of each of its bytes.
* `PatternSource`: fragments joined, indexed and decoded.
* `PatternSource.interval`: from pattern bytes to the joined text.
* `PatternSource.ranges`: from pattern bytes to source spans.

## Design notes

All bytes of a character that was escaped have the offset of its backslash. A
backslash that begins no escape stands for itself.
-/

namespace RegexAudit

/-- A pattern, with the offset in the joined text of each of its bytes and of its end. -/
structure Decoded where
  pattern : List Char
  offsets : List Nat
deriving DecidableEq, Repr

namespace Decoded

/-- The character of a Unicode escape whose letter is followed by `cs`, the width of the escape,
and what follows it. -/
def unicode? (cs : List Char) : Option (Char × Nat × List Char) :=
  match Text.splitAt? 4 cs with
  | none => none
  | some (digits, rest) =>
    match Numeral.scalar? digits with
    | none => none
    | some value => some (value, 6, rest)

/-- The character of an escape at the beginning of a text, the width of the escape, and what
follows it. -/
def escape? : List Char → Option (Char × Nat × List Char)
  | '\\' :: letter :: cs =>
    match Escape.ofLetter? letter with
    | some value => some (value, 2, cs)
    | none => if letter = 'u' then unicode? cs else none
  | _ => none

theorem unicode?_length_le {s rest : List Char} {c : Char} {n : Nat}
    (h : unicode? s = some (c, n, rest)) : rest.length ≤ s.length := by
  unfold unicode? at h
  split at h
  · simp at h
  · rename_i hsplit
    have := (Text.splitAt?_eq_some_iff.1 hsplit).1
    split at h
    · simp at h
    · simp only [Option.some.injEq, Prod.mk.injEq] at h
      simp [← h.2.2, ← this]

theorem escape?_length_lt {s rest : List Char} {c : Char} {n : Nat}
    (h : escape? s = some (c, n, rest)) : rest.length < s.length := by
  unfold escape? at h
  split at h
  · split at h
    · simp only [Option.some.injEq, Prod.mk.injEq] at h
      simp only [← h.2.2, List.length_cons]
      omega
    · split at h
      · have := unicode?_length_le h
        simp only [List.length_cons]
        omega
      · simp at h
  · simp at h

/-- The offsets of the bytes of a character that is written where it stands. -/
def plainOffsets (offset : Nat) (c : Char) : List Nat := List.range' offset c.utf8Size

/-- Decodes a text that starts at an offset. The pattern and the offsets already found are given
last first. -/
def decodeFrom (pattern : List Char) (offsets : List Nat) (offset : Nat) (s : List Char) :
    Decoded :=
  match _h : escape? s with
  | some (c, width, rest) =>
    decodeFrom (c :: pattern) (List.replicate c.utf8Size offset ++ offsets) (offset + width) rest
  | none =>
    match s with
    | [] => ⟨pattern.reverse, (offset :: offsets).reverse⟩
    | c :: cs =>
      decodeFrom (c :: pattern) ((plainOffsets offset c).reverse ++ offsets)
        (offset + c.utf8Size) cs
termination_by s.length
decreasing_by
  · exact escape?_length_lt ‹_›
  · simp

/-- Decodes a joined text. -/
def ofText (s : List Char) : Decoded := decodeFrom [] [] 0 s

end Decoded

/-- Fragments joined, indexed and decoded. -/
structure PatternSource where
  /-- The joined text, which still spells escapes. -/
  joined : List Char
  index : InverseIndex
  decoded : Decoded
deriving DecidableEq, Repr

namespace PatternSource

/-- The source of some fragments. -/
def ofFragments (fragments : List Fragment) : PatternSource :=
  let joined := Fragment.join fragments
  ⟨joined, .ofFragments fragments, .ofText joined⟩

/-- The pattern that the running program sees. -/
def pattern (source : PatternSource) : List Char := source.decoded.pattern

/-- The offset in the joined text of a pattern byte. Every byte past the end has the offset of the
end. -/
def offset (source : PatternSource) (byte : Nat) : Nat :=
  source.decoded.offsets.getD (min byte (source.decoded.offsets.length - 1)) 0

/-- The interval of the joined text that a span of pattern bytes was decoded from. -/
def interval (source : PatternSource) (span : Span) : Span :=
  ⟨source.offset span.start, source.offset span.stop⟩

/-- The source spans that a span of pattern bytes was decoded from. -/
def ranges (source : PatternSource) (span : Span) : List Span :=
  let interval := source.interval span
  source.index.ranges interval.start interval.stop

end PatternSource

end RegexAudit
