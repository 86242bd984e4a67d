import RegexAudit.Pattern.Fragment

/-!
# From joined text back to the source

Joining fragments loses where each one came from. The index keeps, for every
fragment, the offset where it starts in the joined text and the source span it
was taken from, and translates intervals of the joined text into source spans.

## Main definitions

* `Boundary`: the start of one fragment in the joined text.
* `InverseIndex.ofFragments`: the index of some fragments.
* `InverseIndex.boundaryAt?`, `InverseIndex.boundaryBefore?`: the last boundary
  that starts no later than, or before, an offset.
* `InverseIndex.ranges`: the source spans of an interval, with neighbours merged.

## Design notes

A fragment whose normalized text has the length of its spelling is cut byte
for byte. Any other fragment cannot be cut: every part of it stands for all of
it.
-/

namespace RegexAudit

/-- The start of one fragment in the joined text. -/
structure Boundary where
  /-- The offset in the joined text. -/
  start : Nat
  /-- The source span of the fragment. -/
  range : Span
  /-- The normalized text is as long as the spelling. -/
  verbatim : Bool
deriving DecidableEq, Repr

/-- The boundaries of a joined text in order, and its length. -/
structure InverseIndex where
  boundaries : List Boundary
  length : Nat
deriving DecidableEq, Repr

namespace Boundary

/-- The source span of the part from `lo` to `hi` of a fragment, counted from its start. -/
def clip (b : Boundary) (lo hi : Nat) : Span :=
  if b.verbatim then ⟨b.range.start + lo, b.range.start + hi⟩ else b.range

/-- The boundary of a fragment that starts at an offset. -/
def ofFragment (start : Nat) (f : Fragment) : Boundary := ⟨start, f.range, f.size == f.range.length⟩

/-- The boundaries of some fragments of which the first starts at an offset. -/
def ofFragments (start : Nat) : List Fragment → List Boundary
  | [] => []
  | f :: fs => ofFragment start f :: ofFragments (start + f.size) fs

end Boundary

/-- Joins spans that touch. -/
def Span.merge : List Span → List Span
  | [] => []
  | [s] => [s]
  | s :: t :: rest =>
    if s.stop = t.start then merge (s.cover t :: rest) else s :: merge (t :: rest)
termination_by spans => spans.length

namespace InverseIndex

/-- The index of some fragments. -/
def ofFragments (fragments : List Fragment) : InverseIndex :=
  ⟨Boundary.ofFragments 0 fragments, Text.width (Fragment.join fragments)⟩

/-- The number of the last boundary that starts no later than an offset. -/
def slotAt? (index : InverseIndex) (offset : Nat) : Option Nat :=
  match (index.boundaries.takeWhile (·.start ≤ offset)).length with
  | 0 => none
  | n + 1 => some n

/-- The number of the last boundary that starts before an offset. -/
def slotBefore? (index : InverseIndex) (offset : Nat) : Option Nat :=
  match (index.boundaries.takeWhile (·.start < offset)).length with
  | 0 => none
  | n + 1 => some n

/-- The last boundary that starts no later than an offset. -/
def boundaryAt? (index : InverseIndex) (offset : Nat) : Option Boundary :=
  (index.slotAt? offset).bind (index.boundaries[·]?)

/-- The last boundary that starts before an offset. -/
def boundaryBefore? (index : InverseIndex) (offset : Nat) : Option Boundary :=
  (index.slotBefore? offset).bind (index.boundaries[·]?)

/-- The source spans from the offset `cursor` in the first of the given boundaries to the offset
`stop` in the one that `more` further boundaries follow. -/
def walk (cursor stop : Nat) : (more : Nat) → List Boundary → List Span
  | _, [] => []
  | 0, b :: _ => [b.clip (cursor - b.start) (stop - b.start)]
  | _ + 1, [b] => [b.clip (cursor - b.start) (stop - b.start)]
  | more + 1, b :: next :: rest =>
    b.clip (cursor - b.start) (next.start - b.start) :: walk next.start stop more (next :: rest)

/-- The source spans of the interval from `start` to `stop`, in order and with neighbours merged.
An end past the joined text is moved to its end, and an empty interval has no spans. -/
def ranges (index : InverseIndex) (start stop : Nat) : List Span :=
  let stop := min stop index.length
  if stop ≤ start then []
  else
    match index.slotAt? start, index.slotBefore? stop with
    | some first, some last =>
      Span.merge (walk start stop (last - first) (index.boundaries.drop first))
    | _, _ => []

end InverseIndex

end RegexAudit
