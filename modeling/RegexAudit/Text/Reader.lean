import RegexAudit.Text.Cursor

/-!
# Readers of texts

A reader takes some characters off the front of a text and yields a value, or
fails. It never hands back more than it was given, and carries the proof, so
loops over readers end.

## Main definitions

* `Reader`: a reader that yields a value, as a monad.
* `Reader.place`, `Reader.fail`, `Reader.advance`: the basic readers.
* `Reader.repeated`: runs a reader over and over until it is done.
-/

namespace RegexAudit

namespace Cursor

/-- Drops some characters. -/
def advance : Nat → Cursor → Cursor
  | 0, c => c
  | _ + 1, ⟨offset, []⟩ => ⟨offset, []⟩
  | n + 1, ⟨offset, c :: cs⟩ => advance n ⟨offset + c.utf8Size, cs⟩

/-- Drops the characters in front that satisfy a test. -/
def dropWhile (p : Char → Bool) (c : Cursor) : Cursor :=
  c.past (c.rest.takeWhile p) (c.rest.dropWhile p)

theorem advance_length_le (n : Nat) (c : Cursor) : (c.advance n).rest.length ≤ c.rest.length := by
  fun_induction advance n c <;> simp_all
  omega

theorem dropWhile_length_le (p : Char → Bool) (c : Cursor) :
    (c.dropWhile p).rest.length ≤ c.rest.length :=
  (List.dropWhile_sublist _).length_le

end Cursor

/-- A reader that yields a value or fails with an error, and never hands back more than it was
given. -/
structure Reader (ε α : Type) where
  run : Cursor → Except ε (α × Cursor)
  le : ∀ {c a d}, run c = .ok (a, d) → d.rest.length ≤ c.rest.length

namespace Reader

variable {ε α β σ : Type}

/-- Reads nothing. -/
protected def pure (a : α) : Reader ε α where
  run c := .ok (a, c)
  le h := by
    simp only [Except.ok.injEq, Prod.mk.injEq] at h
    simp [h.2]

/-- Reads with one reader and then with another that depends on its value. -/
protected def bind (r : Reader ε α) (f : α → Reader ε β) : Reader ε β where
  run c :=
    match r.run c with
    | .error e => .error e
    | .ok (a, d) => (f a).run d
  le {c b e} h := by
    split at h
    · simp at h
    · rename_i hr
      exact Nat.le_trans ((f _).le h) (r.le hr)

instance : Monad (Reader ε) where
  pure := Reader.pure
  bind := Reader.bind

/-- Fails. -/
def fail (e : ε) : Reader ε α where
  run _ := .error e
  le h := by simp at h

/-- The value of a result, or its error. -/
def ofExcept : Except ε α → Reader ε α
  | .ok a => return a
  | .error e => fail e

/-- The value that there is, or an error. -/
def orFail (e : ε) : Option α → Reader ε α
  | some a => return a
  | none => fail e

/-- The place reached. -/
def place : Reader ε Cursor where
  run c := .ok (c, c)
  le h := by
    simp only [Except.ok.injEq, Prod.mk.injEq] at h
    simp [h.2]

/-- The offset reached. -/
def offset : Reader ε Nat := do return (← place).offset

/-- The next character. -/
def peek? : Reader ε (Option Char) := do return (← place).rest.head?

/-- Whether the text is read to its end. -/
def atEnd : Reader ε Bool := do return (← place).rest.isEmpty

/-- Moves on by a function on cursors that only drops characters. -/
def move (f : Cursor → Cursor) (hf : ∀ c, (f c).rest.length ≤ c.rest.length) : Reader ε Unit where
  run c := .ok ((), f c)
  le {c a d} h := by
    simp only [Except.ok.injEq, Prod.mk.injEq] at h
    rw [← h.2]
    exact hf c

/-- Moves over some characters. -/
def advance (n : Nat) : Reader ε Unit := move (Cursor.advance n) (Cursor.advance_length_le n)

/-- Moves over the characters that satisfy a test. -/
def dropWhile (p : Char → Bool) : Reader ε Unit :=
  move (Cursor.dropWhile p) (Cursor.dropWhile_length_le p)

/-- Reads the characters in front that satisfy a test. -/
def takeWhile (p : Char → Bool) : Reader ε (List Char) := do
  let read := (← place).rest.takeWhile p
  dropWhile p
  return read

/-- Moves over a piece of text if it comes next, and tells whether it did. -/
def accept (piece : List Char) : Reader ε Bool := do
  let found := piece.isPrefixOf (← place).rest
  if found then advance piece.length
  return found

/-- Moves over the next character if it satisfies a test, and tells whether it did. -/
def acceptIf (p : Char → Bool) : Reader ε Bool := do
  let found := (← place).rest.head?.any p
  if found then advance 1
  return found

/-- Moves over a piece of text that has to come next. -/
def expect (e : ε) (piece : List Char) : Reader ε Unit := do
  unless ← accept piece do fail e

/-- Runs a step at most `rounds` times on a state, until it yields a result. It is an error if there
is still none then. -/
def repeated (e : ε) (step : σ → Reader ε (σ ⊕ α)) : (rounds : Nat) → σ → Reader ε α
  | 0, _ => fail e
  | rounds + 1, state => do
    match ← step state with
    | .inl state => repeated e step rounds state
    | .inr a => return a

end Reader

end RegexAudit
