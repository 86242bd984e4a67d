import RegexAudit.Script.Literal

/-!
# Splitting a source into tokens

Reads a source text from left to right. Blank space and comments leave no
token, and neither do newlines inside parentheses.

## Main definitions

* `Lexeme`: what one reading step finds.
* `Lexeme.read`: reads one lexeme.
* `Tokens.ofSource`: all tokens of a source.

## Design notes

Every lexeme takes at least one character (`Lexeme.read_shrinks`), which ends
the loop `Token.scan`. Tokens are collected last first.
-/

namespace RegexAudit

namespace Script

/-- What one reading step finds: a token, or space or a comment. -/
inductive Lexeme where
  | skipped
  | token (kind : TokenKind)
deriving DecidableEq, Repr

/-- The tokens of one fixed character. -/
def punctuation? : Char → Option TokenKind
  | '(' => some .openParen
  | ')' => some .closeParen
  | ',' => some .comma
  | '.' => some .dot
  | '=' => some .equals
  | '+' => some .plus
  | ';' => some .semicolon
  | '\n' => some .newline
  | _ => none

/-- Reads up to the end of a block comment. The characters already read come first in the result;
they are given last first. -/
def closeComment? (read : List Char) : List Char → Option (List Char × List Char)
  | '*' :: '/' :: rest => some (read.reverse ++ ['*', '/'], rest)
  | c :: cs => closeComment? (c :: read) cs
  | [] => none

theorem closeComment?_length_le {read s l r : List Char} (h : closeComment? read s = some (l, r)) :
    r.length ≤ s.length := by
  fun_induction closeComment? read s <;> simp_all <;> omega

/-- The largest integer that a script may spell. -/
def maxInteger : Nat := 9223372036854775807

/-- The value of an integer literal, given its digits and underscores. -/
def integerOf (radix : Nat) (spelling : List Char) : Except Cause Nat :=
  match Numeral.ofDigits? radix (spelling.filter (· != '_')) with
  | none => .error .integerWithoutDigits
  | some value => if value ≤ maxInteger then .ok value else .error .integerTooLarge

/-- Whether a character may stand among the digits of an integer. -/
def isIntegerPart (radix : Nat) (c : Char) : Bool := Numeral.isDigit radix c || c == '_'

/-- The radix of an integer literal with the mark that announces it, and what follows the mark. -/
def radixMark : List Char → Nat × List Char × List Char
  | '0' :: 'x' :: cs => (16, ['0', 'x'], cs)
  | '0' :: 'X' :: cs => (16, ['0', 'X'], cs)
  | cs => (10, [], cs)

/-- The kind of quoting that the first quote of a literal begins, given what follows that quote, and
the text behind the whole opening mark. -/
def Quote.opening : List Char → Quote × List Char
  | '"' :: '"' :: rest => (raw, rest)
  | cs => (regular, cs)

theorem Quote.opening_length_le (cs : List Char) : (opening cs).2.length ≤ cs.length := by
  unfold opening
  split <;> simp only [List.length_cons] <;> omega

namespace Lexeme

/-- Reads an integer literal, which begins at the cursor. -/
def integer (c : Cursor) : Except Fault (Lexeme × Cursor) :=
  let (radix, mark, body) := radixMark c.rest
  let digits := body.takeWhile (isIntegerPart radix)
  match integerOf radix digits with
  | .error cause => .error ⟨cause, c.offset⟩
  | .ok value =>
    .ok (.token (.integer value), c.past (mark ++ digits) (body.dropWhile (isIntegerPart radix)))

/-- Reads a name, which begins at the cursor. -/
def name (c : Cursor) : Lexeme × Cursor :=
  let text := c.rest.takeWhile isNameContinue
  (.token (.name (String.ofList text)), c.past text (c.rest.dropWhile isNameContinue))

/-- Reads a string literal whose first quote is followed by `cs`. -/
def string (c : Cursor) (cs : List Char) : Except Fault (Lexeme × Cursor) :=
  let (quote, rest) := Quote.opening cs
  match StringLiteral.read quote c.offset [] (c.past quote.mark rest) with
  | .error fault => .error fault
  | .ok (literal, d) => .ok (.token (.string literal), d)

/-- Reads a comment whose first slash is followed by `cs`. -/
def comment (c : Cursor) : List Char → Except Fault (Lexeme × Cursor)
  | '/' :: cs =>
    .ok (.skipped, c.past ('/' :: '/' :: cs.takeWhile (· != '\n')) (cs.dropWhile (· != '\n')))
  | '*' :: cs =>
    match closeComment? ['*', '/'] cs with
    | none => .error ⟨.unterminatedComment, c.offset⟩
    | some (text, rest) => .ok (.skipped, c.past text rest)
  | _ => .error ⟨.unexpectedCharacter '/', c.offset⟩

/-- Reads one lexeme. The text at the cursor is `ch` followed by `cs`. -/
def read (c : Cursor) (ch : Char) (cs : List Char) : Except Fault (Lexeme × Cursor) :=
  match punctuation? ch with
  | some kind => .ok (.token kind, c.past [ch] cs)
  | none =>
    if Text.isBlank ch then .ok (.skipped, c.past [ch] cs)
    else if ch = '/' then comment c cs
    else if ch = '"' then string c cs
    else if ch.isDigit then integer c
    else if isNameStart ch then .ok (name c)
    else .error ⟨.unexpectedCharacter ch, c.offset⟩

end Lexeme

theorem isNameContinue_of_isNameStart {c : Char} (h : isNameStart c = true) :
    isNameContinue c = true := by
  simp only [isNameStart, isNameContinue, Text.isAlphanumeric, Bool.or_eq_true] at h ⊢
  rcases h with h | h
  · exact .inl (.inl h)
  · exact .inr h

namespace Lexeme

theorem comment_shrinks {c : Cursor} {cs : List Char} {l : Lexeme} {d : Cursor}
    (h : comment c cs = .ok (l, d)) : d.rest.length ≤ cs.length := by
  unfold comment at h
  split at h
  · rename_i cs
    simp only [Except.ok.injEq, Prod.mk.injEq] at h
    have := (List.dropWhile_sublist (l := cs) (· != '\n')).length_le
    simp only [← h.2, Cursor.past, List.length_cons]
    omega
  · split at h
    · simp at h
    · rename_i hclose
      have := closeComment?_length_le hclose
      simp only [Except.ok.injEq, Prod.mk.injEq] at h
      simp only [← h.2, Cursor.past, List.length_cons]
      omega
  · simp at h

theorem string_shrinks {c : Cursor} {cs : List Char} {l : Lexeme} {d : Cursor}
    (h : string c cs = .ok (l, d)) : d.rest.length ≤ cs.length := by
  unfold string at h
  simp only at h
  split at h
  · simp at h
  · rename_i hread
    have := StringLiteral.read_shrinks hread
    have := Quote.opening_length_le cs
    simp only [Except.ok.injEq, Prod.mk.injEq] at h
    simp only [Cursor.past, h.2] at *
    omega

theorem radixMark_append (s : List Char) : (radixMark s).2.1 ++ (radixMark s).2.2 = s := by
  unfold radixMark
  split <;> simp

theorem isIntegerPart_of_isDigit {c : Char} (h : c.isDigit = true) : isIntegerPart 10 c = true := by
  have hrange : '0' ≤ c ∧ c ≤ '9' := by
    simpa [Char.isDigit, Char.le_def, UInt32.le_iff_toNat_le] using h
  have h0 : 48 ≤ c.toNat := by simpa [Char.le_def, UInt32.le_iff_toNat_le] using hrange.1
  have h9 : c.toNat ≤ 57 := by simpa [Char.le_def, UInt32.le_iff_toNat_le] using hrange.2
  simp [isIntegerPart, Numeral.isDigit, Numeral.digit?, hrange, Option.filter]
  omega

theorem integer_shrinks {c : Cursor} {ch : Char} {cs : List Char} {l : Lexeme} {d : Cursor}
    (hrest : c.rest = ch :: cs) (hdigit : ch.isDigit = true) (h : integer c = .ok (l, d)) :
    d.rest.length ≤ cs.length := by
  unfold integer at h
  simp only at h
  split at h
  · simp at h
  · simp only [Except.ok.injEq, Prod.mk.injEq] at h
    simp only [← h.2, Cursor.past, hrest]
    unfold radixMark
    split
    · rename_i heq
      simp only [List.cons.injEq] at heq
      have := (List.dropWhile_sublist (l := cs.tail) (isIntegerPart 16)).length_le
      simp_all
      omega
    · rename_i heq
      simp only [List.cons.injEq] at heq
      have := (List.dropWhile_sublist (l := cs.tail) (isIntegerPart 16)).length_le
      simp_all
      omega
    · have := (List.dropWhile_sublist (l := cs) (isIntegerPart 10)).length_le
      simpa [List.dropWhile_cons, isIntegerPart_of_isDigit hdigit] using this

/-- A lexeme takes at least one character. -/
theorem read_shrinks {c : Cursor} {ch : Char} {cs : List Char} {l : Lexeme} {d : Cursor}
    (hrest : c.rest = ch :: cs) (h : read c ch cs = .ok (l, d)) :
    d.rest.length < c.rest.length := by
  rw [hrest, List.length_cons, Nat.lt_succ_iff]
  unfold read at h
  split at h
  · simp only [Except.ok.injEq, Prod.mk.injEq] at h
    simp [← h.2, Cursor.past]
  · split at h
    · simp only [Except.ok.injEq, Prod.mk.injEq] at h
      simp [← h.2, Cursor.past]
    · split at h
      · exact comment_shrinks h
      · split at h
        · exact string_shrinks h
        · split at h
          · rename_i hdigit
            exact integer_shrinks hrest hdigit h
          · split at h
            · rename_i hname
              simp only [name, Except.ok.injEq, Prod.mk.injEq] at h
              have := (List.dropWhile_sublist (l := cs) isNameContinue).length_le
              simpa [← h.2, Cursor.past, hrest, List.dropWhile_cons,
                isNameContinue_of_isNameStart hname] using this
            · simp at h

end Lexeme

/-- The number of open parentheses after a token. A closing one too many is ignored. -/
def TokenKind.depthAfter (depth : Nat) : TokenKind → Nat
  | .openParen => depth + 1
  | .closeParen => depth - 1
  | _ => depth

/-- Whether a token is kept where `depth` parentheses are open: newlines count only outside. -/
def TokenKind.isKept (depth : Nat) (kind : TokenKind) : Bool := depth == 0 || kind != .newline

/-- Reads all tokens from a cursor on, with `depth` parentheses open. The tokens already read are
given last first. -/
def Token.scan (depth : Nat) (tokens : List Token) (c : Cursor) : Except Fault Tokens :=
  match _hrest : c.rest with
  | [] => .ok ⟨tokens.reverse, c.offset⟩
  | ch :: cs =>
    match _h : Lexeme.read c ch cs with
    | .error fault => .error fault
    | .ok (.skipped, d) => Token.scan depth tokens d
    | .ok (.token kind, d) =>
      Token.scan (kind.depthAfter depth)
        (if kind.isKept depth then ⟨kind, c.spanTo d⟩ :: tokens else tokens) d
termination_by c.rest.length
decreasing_by all_goals exact Lexeme.read_shrinks ‹_› ‹_›

/-- The tokens of a source. -/
def Tokens.ofSource (source : List Char) : Except Fault Tokens :=
  if maxSourceBytes < Text.width source then .error ⟨.oversized (Text.width source), 0⟩
  else Token.scan 0 [] (.ofText source)

end Script

end RegexAudit
