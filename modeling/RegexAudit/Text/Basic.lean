/-!
# Texts, byte offsets and spans

A text is a list of characters. Places in it are byte offsets into its UTF-8
form, so an offset is the width of what stands before it.

## Main definitions

* `Text.width`: the number of bytes of a text.
* `Text.splitAt?`: the two halves of a text at a byte offset, where there are two.
* `Span`: a half-open interval of byte offsets.
* `Text.slice?`: the part of a text that a span covers.

## Design notes

A cut inside a character does not exist: `splitAt?` answers only at offsets
that are the width of a leading part, so whatever it returns can be put back
together (`Text.splitAt?_eq_some_iff`).
-/

namespace RegexAudit

/-- A half-open interval of byte offsets. It holds nothing when `stop ≤ start`. -/
structure Span where
  start : Nat
  stop : Nat
deriving DecidableEq, Repr, Inhabited

namespace Span

/-- The number of bytes in a span. -/
def length (s : Span) : Nat := s.stop - s.start

/-- The least span that contains both. -/
def cover (s t : Span) : Span := ⟨min s.start t.start, max s.stop t.stop⟩

/-- The empty span at an offset. -/
def empty (offset : Nat) : Span := ⟨offset, offset⟩

end Span

namespace Text

/-- The number of bytes that a text takes in UTF-8. -/
def width : List Char → Nat
  | [] => 0
  | c :: cs => c.utf8Size + width cs

@[simp] theorem width_nil : width [] = 0 := rfl

@[simp] theorem width_cons (c : Char) (cs : List Char) :
    width (c :: cs) = c.utf8Size + width cs := rfl

@[simp] theorem width_append (s t : List Char) : width (s ++ t) = width s + width t := by
  induction s with
  | nil => simp
  | cons c cs ih => simp [ih, Nat.add_assoc]

/-- Only the empty text takes no bytes. -/
theorem width_eq_zero_iff {s : List Char} : width s = 0 ↔ s = [] := by
  cases s with
  | nil => simp
  | cons c cs => have := c.utf8Size_pos; simp; omega

/-- The two halves of a text at a byte offset. There are none past the end or
inside a character. -/
def splitAt? : Nat → List Char → Option (List Char × List Char)
  | 0, s => some ([], s)
  | _ + 1, [] => none
  | n + 1, c :: cs =>
    if c.utf8Size ≤ n + 1 then
      (splitAt? (n + 1 - c.utf8Size) cs).map fun (l, r) => (c :: l, r)
    else none

@[simp] theorem splitAt?_zero (s : List Char) : splitAt? 0 s = some ([], s) := by
  cases s <;> rfl

/-- A text can be cut after each of its leading parts. -/
theorem splitAt?_width_append (l r : List Char) : splitAt? (width l) (l ++ r) = some (l, r) := by
  induction l with
  | nil => simp
  | cons c cs ih =>
    have hpos := c.utf8Size_pos
    obtain ⟨n, hn⟩ : ∃ n, width (c :: cs) = n + 1 := ⟨c.utf8Size + width cs - 1, by simp; omega⟩
    have hrest : n + 1 - c.utf8Size = width cs := by simp at hn; omega
    have hle : c.utf8Size ≤ n + 1 := by simp at hn; omega
    rw [hn, List.cons_append]
    simp [splitAt?, hle, hrest, ih]

/-- The halves at an offset are the leading part of that width and the rest. -/
theorem splitAt?_eq_some_iff {n : Nat} {s l r : List Char} :
    splitAt? n s = some (l, r) ↔ l ++ r = s ∧ width l = n := by
  constructor
  · intro h
    fun_induction splitAt? n s generalizing l r with
    | case1 s =>
      simp at h
      simp [h.1, h.2]
    | case2 n => simp at h
    | case3 n c cs hle ih =>
      obtain ⟨⟨l', r'⟩, h', heq⟩ := Option.map_eq_some_iff.1 h
      simp only [Prod.mk.injEq] at heq
      obtain ⟨rfl, rfl⟩ := heq
      have := ih h'
      simp [this.1, this.2]
      omega
    | case4 n c cs hle => simp at h
  · rintro ⟨rfl, rfl⟩
    exact splitAt?_width_append l r

/-- What is left of a text from a byte offset on. Nothing is left past the end or inside a
character. -/
def drop? : Nat → List Char → Option (List Char)
  | 0, s => some s
  | _ + 1, [] => none
  | n + 1, c :: cs => if c.utf8Size ≤ n + 1 then drop? (n + 1 - c.utf8Size) cs else none

/-- What is left from an offset on is the second half at that offset. -/
theorem drop?_eq (n : Nat) (s : List Char) : drop? n s = (splitAt? n s).map (·.2) := by
  fun_induction drop? n s with
  | case1 s => simp
  | case2 n => simp [splitAt?]
  | case3 n c cs hle ih => simp [splitAt?, hle, ih, Function.comp_def]
  | case4 n c cs hle => simp [splitAt?, hle]

/-- An offset is a character boundary when the text can be cut there. -/
def IsBoundary (s : List Char) (n : Nat) : Prop := (splitAt? n s).isSome

instance (s : List Char) (n : Nat) : Decidable (IsBoundary s n) :=
  inferInstanceAs (Decidable (_ = true))

/-- The part of a text that a span covers, when both ends are boundaries in order. -/
def slice? (s : List Char) (span : Span) : Option (List Char) := do
  guard (span.start ≤ span.stop)
  let tail ← drop? span.start s
  let (part, _) ← splitAt? span.length tail
  pure part

/-- The part of a text that a span covers, empty where there is none. -/
def slice (s : List Char) (span : Span) : List Char := (slice? s span).getD []

/-- The character that starts at a byte offset. -/
def charAt? (s : List Char) (offset : Nat) : Option Char := do
  let tail ← drop? offset s
  tail.head?

end Text

end RegexAudit
