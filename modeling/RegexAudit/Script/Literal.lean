import RegexAudit.Script.Fault
import RegexAudit.Text.Cursor
import RegexAudit.Text.Escape
import RegexAudit.Text.Numeral
import RegexAudit.Text.Unicode

/-!
# Reading string literals

Splits the inside of a string literal into entries: runs of plain characters,
escapes and templates. Each entry keeps its own span, and nothing between the
quotes is lost.

## Main definitions

* `Quote`: the two ways to quote, each with its closing mark.
* `Quote.run`: the plain characters up to the next interruption.
* `Entry.escape`, `Entry.template`: one escape, one template.
* `StringLiteral.read`: the entries up to the closing mark.

## Design notes

Every reader here consumes at least one character, which is what ends
`StringLiteral.read`. The lemmas `*_shrinks` state it, each beside its reader.
-/

namespace RegexAudit

namespace Script

/-- A character that may begin a name. -/
def isNameStart (c : Char) : Bool := Text.isAlphabetic c || c == '_'

/-- A character that may continue a name. -/
def isNameContinue (c : Char) : Bool := Text.isAlphanumeric c || c == '_'

/-- The two ways to quote a string literal. -/
inductive Quote where
  /-- One quote on each side; escapes are read, and a newline is not allowed. -/
  | regular
  /-- Three quotes on each side; a backslash stands for itself, and newlines are allowed. -/
  | raw
deriving DecidableEq, Repr

namespace Quote

/-- The mark that opens and closes a literal. -/
def mark : Quote → List Char
  | regular => ['"']
  | raw => ['"', '"', '"']

/-- What follows the closing mark, if the text begins with it. -/
def close? : Quote → List Char → Option (List Char)
  | regular, '"' :: rest => some rest
  | raw, '"' :: '"' :: '"' :: rest => some rest
  | _, _ => none

/-- The reason to give when the text ends inside the literal. -/
def unterminated : Quote → Cause
  | regular => .unterminatedString
  | raw => .unterminatedRawString

end Quote

/-- Whether a dollar sign followed by this text begins a template. -/
def templateFollows : List Char → Bool
  | [] => false
  | c :: _ => c == '{' || isNameStart c

/-- Whether the plain characters of a literal end before the character `c`, which the text `cs`
follows. -/
def Quote.interrupts (q : Quote) (c : Char) (cs : List Char) : Bool :=
  c == '\\' || (c == '$' && templateFollows cs) || (q.close? (c :: cs)).isSome ||
    (q == .regular && c == '\n')

/-- Splits off the plain characters before the next interruption. The characters already read come
first in the result; they are given last first. -/
def Quote.run (q : Quote) (read : List Char) : List Char → List Char × List Char
  | [] => (read.reverse, [])
  | c :: cs =>
    if q.interrupts c cs then (read.reverse, c :: cs)
    else q.run (c :: read) cs

theorem Quote.run_append (q : Quote) (read s : List Char) :
    (q.run read s).1 ++ (q.run read s).2 = read.reverse ++ s := by
  fun_induction Quote.run q read s <;> simp_all

theorem Quote.run_length_le (q : Quote) (read s : List Char) :
    (q.run read s).2.length ≤ s.length := by
  fun_induction Quote.run q read s <;> simp_all
  omega

/-- Reads up to the brace that closes a template, with `depth` further braces open. The characters
already read come first in the result; they are given last first. -/
def closeBrace? (depth : Nat) (read : List Char) : List Char → Option (List Char × List Char)
  | [] => none
  | c :: cs =>
    if c = '}' then
      match depth with
      | 0 => some ((c :: read).reverse, cs)
      | d + 1 => closeBrace? d (c :: read) cs
    else closeBrace? (if c = '{' then depth + 1 else depth) (c :: read) cs

theorem closeBrace?_append {depth : Nat} {read s l r : List Char}
    (h : closeBrace? depth read s = some (l, r)) : l ++ r = read.reverse ++ s := by
  fun_induction closeBrace? depth read s <;> simp_all
  simp [← h.1]

theorem closeBrace?_length_le {depth : Nat} {read s l r : List Char}
    (h : closeBrace? depth read s = some (l, r)) : r.length ≤ s.length := by
  fun_induction closeBrace? depth read s <;> simp_all <;> omega

namespace Entry

/-- The entry with the spelling `text` at a cursor, and the cursor behind it. -/
def spell (c : Cursor) (kind : EntryKind) (text rest : List Char) : Entry × Cursor :=
  (⟨kind, text, c.spanTo (c.past text rest)⟩, c.past text rest)

@[simp] theorem spell_rest (c : Cursor) (kind : EntryKind) (text rest : List Char) :
    (Entry.spell c kind text rest).2.rest = rest := rfl

/-- Reads a Unicode escape whose letter is followed by `cs`: the next four bytes are hexadecimal
digits of a scalar value. -/
def unicodeEscape (c : Cursor) (cs : List Char) : Except Fault (Entry × Cursor) :=
  match Text.splitAt? 4 cs with
  | none => .error ⟨.invalidUnicodeEscape [], c.offset⟩
  | some (digits, rest) =>
    match Numeral.scalar? digits with
    | none => .error ⟨.invalidUnicodeEscape digits, c.offset⟩
    | some value => .ok (Entry.spell c (.escape value) ('\\' :: 'u' :: digits) rest)

/-- Reads an escape whose backslash is followed by `cs`. -/
def escape (c : Cursor) : List Char → Except Fault (Entry × Cursor)
  | [] => .error ⟨.unterminatedString, c.offset⟩
  | letter :: cs =>
    match Escape.ofLetter? letter with
    | some value => .ok (Entry.spell c (.escape value) ['\\', letter] cs)
    | none =>
      if letter = 'u' then unicodeEscape c cs
      else .error ⟨.illegalEscape letter, c.offset⟩

/-- Reads a template whose dollar sign is followed by `cs`: a name, or anything in balanced
braces. -/
def template (c : Cursor) : List Char → Except Fault (Entry × Cursor)
  | '{' :: cs =>
    match closeBrace? 0 ['{', '$'] cs with
    | none => .error ⟨.unterminatedTemplate, c.offset⟩
    | some (text, rest) => .ok (Entry.spell c .interpolation text rest)
  | cs =>
    .ok (Entry.spell c .interpolation ('$' :: cs.takeWhile isNameContinue)
      (cs.dropWhile isNameContinue))

/-- Reads the next entry of a literal that was opened at the offset `opened`. -/
def next (q : Quote) (opened : Nat) (c : Cursor) : Except Fault (Entry × Cursor) :=
  match c.rest with
  | [] => .error ⟨q.unterminated, opened⟩
  | ch :: cs =>
    if ch = '\\' then
      match q with
      | .regular => escape c cs
      | .raw => .ok (Entry.spell c (.escape '\\') ['\\'] cs)
    else if ch = '$' ∧ templateFollows cs then template c cs
    else if q = .regular ∧ ch = '\n' then .error ⟨.unterminatedString, opened⟩
    else
      let (text, rest) := q.run [ch] cs
      .ok (Entry.spell c .literal text rest)

theorem unicodeEscape_shrinks {c : Cursor} {cs : List Char} {e : Entry} {d : Cursor}
    (h : unicodeEscape c cs = .ok (e, d)) : d.rest.length ≤ cs.length := by
  unfold unicodeEscape at h
  split at h
  · simp at h
  · rename_i digits rest hsplit
    have := (Text.splitAt?_eq_some_iff.1 hsplit).1
    split at h
    · simp at h
    · simp only [Except.ok.injEq, Entry.spell, Prod.mk.injEq] at h
      simp [← h.2, Cursor.past, ← this]

theorem escape_shrinks {c : Cursor} {cs : List Char} {e : Entry} {d : Cursor}
    (h : escape c cs = .ok (e, d)) : d.rest.length ≤ cs.length := by
  unfold escape at h
  split at h
  · simp at h
  · split at h
    · simp only [Except.ok.injEq, Entry.spell, Prod.mk.injEq] at h
      simp [← h.2, Cursor.past]
    · split at h
      · have := unicodeEscape_shrinks h
        simp; omega
      · simp at h

theorem template_shrinks {c : Cursor} {cs : List Char} {e : Entry} {d : Cursor}
    (h : template c cs = .ok (e, d)) : d.rest.length ≤ cs.length := by
  unfold template at h
  split at h
  · split at h
    · simp at h
    · rename_i hclose
      have := closeBrace?_length_le hclose
      simp only [Except.ok.injEq, Entry.spell, Prod.mk.injEq] at h
      simp [← h.2, Cursor.past]
      omega
  · simp only [Except.ok.injEq, Entry.spell, Prod.mk.injEq] at h
    have := (List.dropWhile_sublist (l := cs) isNameContinue).length_le
    simpa [← h.2, Cursor.past] using this

/-- An entry takes at least one character. -/
theorem next_shrinks {q : Quote} {opened : Nat} {c : Cursor} {e : Entry} {d : Cursor}
    (h : next q opened c = .ok (e, d)) : d.rest.length < c.rest.length := by
  unfold next at h
  split at h
  · simp at h
  · rename_i ch cs hrest
    rw [hrest, List.length_cons, Nat.lt_succ_iff]
    split at h
    · split at h
      · exact escape_shrinks h
      · simp only [Except.ok.injEq, Entry.spell, Prod.mk.injEq] at h
        simp [← h.2, Cursor.past]
    · split at h
      · exact template_shrinks h
      · split at h
        · simp at h
        · simp only [Except.ok.injEq, Entry.spell, Prod.mk.injEq] at h
          simpa [← h.2, Cursor.past] using Quote.run_length_le q [ch] cs

end Entry

/-- Reads entries up to the closing mark of a literal that was opened at the offset `opened`. The
entries already read are given last first. -/
def StringLiteral.read (q : Quote) (opened : Nat) (entries : List Entry) (c : Cursor) :
    Except Fault (StringLiteral × Cursor) :=
  match q.close? c.rest with
  | some rest => .ok (⟨q == .raw, entries.reverse⟩, c.past q.mark rest)
  | none =>
    match _h : Entry.next q opened c with
    | .error fault => .error fault
    | .ok (e, d) => StringLiteral.read q opened (e :: entries) d
termination_by c.rest.length
decreasing_by exact Entry.next_shrinks ‹_›

theorem Quote.close?_length_lt {q : Quote} {s rest : List Char} (h : q.close? s = some rest) :
    rest.length < s.length := by
  unfold Quote.close? at h
  split at h <;> simp at h <;> subst h <;> simp only [List.length_cons] <;> omega

theorem StringLiteral.read_shrinks {q : Quote} {opened : Nat} {entries : List Entry} {c : Cursor}
    {l : StringLiteral} {d : Cursor} (h : StringLiteral.read q opened entries c = .ok (l, d)) :
    d.rest.length ≤ c.rest.length := by
  fun_induction StringLiteral.read q opened entries c with
  | case1 entries c rest hclose =>
    simp only [Except.ok.injEq, Prod.mk.injEq] at h
    have := Quote.close?_length_lt hclose
    simp [← h.2, Cursor.past]
    omega
  | case2 => simp at h
  | case3 entries c hclose e d' hnext ih =>
    have := Entry.next_shrinks hnext
    have := ih h
    omega

end Script

end RegexAudit
