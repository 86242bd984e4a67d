import RegexAudit.Script.Lexer

/-!
# A lexer that keeps an offset

The lexer keeps what is left of a source. The one here keeps nothing but a byte offset between two
looks at the source: for each of them it cuts the source at an offset that it has computed. A cut
past the end of the source or inside of a character has no result, and neither has a span whose ends
are out of order. The loops have a number of rounds, and no result when they run out of them.

## Main definitions

* `Cutting`: a computation that may be refused, and that has no result where a cut has none.
* `OffsetLexer.literal`: the entries of a string literal, character by character.
* `OffsetLexer.lexeme`: what one step finds at an offset.
* `Tokens.cut?`: the tokens of a source.

## Design notes

`\u` is the one place where the text between two offsets is asked for that need not be there:
`OffsetLexer.escapeValue` takes it to be empty then. All other texts are cut out by
`OffsetLexer.rest` and `OffsetLexer.text`.
-/

namespace RegexAudit

/-- The offset at which a piece of text first occurs in a text. -/
def Text.find? (piece : List Char) : List Char → Option Nat
  | [] => if piece.isEmpty then some 0 else none
  | c :: cs =>
    if piece.isPrefixOf (c :: cs) then some 0 else (find? piece cs).map (c.utf8Size + ·)

namespace Script

/-- A computation on a source that may be refused with a fault. There is no result at all where a
cut has none. -/
abbrev Cutting (α : Type) : Type := ExceptT Fault Option α

namespace Cutting

/-- A part of the source, if there is one. -/
def cut {α : Type} (part : Option α) : Cutting α := ExceptT.mk (part.map .ok)

/-- Refuses the source. -/
def refuse {α : Type} (fault : Fault) : Cutting α := ExceptT.mk (some (.error fault))

/-- A result for which no cut is left to be made. -/
def ofExcept {α : Type} (result : Except Fault α) : Cutting α := ExceptT.mk (some result)

end Cutting

namespace OffsetLexer

section Looks

variable (s : List Char)

/-- What is left of the source from an offset on. -/
def rest (pos : Nat) : Cutting (List Char) := .cut (Text.drop? pos s)

/-- The text between two offsets. -/
def text (start stop : Nat) : Cutting (List Char) := .cut (Text.slice? s ⟨start, stop⟩)

/-- The character at an offset. -/
def current (pos : Nat) : Cutting (Option Char) := return (← rest s pos).head?

/-- The character that comes some characters behind an offset. -/
def peek (pos skip : Nat) : Cutting (Option Char) := return (← rest s pos)[skip]?

/-- Whether a piece of text stands at an offset. -/
def startsWith (pos : Nat) (piece : List Char) : Cutting Bool :=
  return piece.isPrefixOf (← rest s pos)

/-- The number that a span holds for an offset: the greatest one, if the offset is greater. -/
def textSize (offset : Nat) : Nat := min offset maxSourceBytes

/-- The span between two offsets, if they are in order. -/
def span (start stop : Nat) : Cutting Span :=
  .cut (if textSize start ≤ textSize stop then some ⟨textSize start, textSize stop⟩ else none)

/-- The entry that is spelled between two offsets. -/
def entry (kind : EntryKind) (start stop : Nat) : Cutting Entry := do
  return ⟨kind, ← text s start stop, ← span start stop⟩

/-- The end of the name that begins at an offset. -/
def nameEnd (pos : Nat) : Cutting Nat :=
  return pos + Text.width ((← rest s pos).takeWhile isNameContinue)

/-- Whether a template begins at the dollar sign at an offset. -/
def templateFollows (pos : Nat) : Cutting Bool :=
  return (← peek s pos 1).any fun ch => ch == '{' || isNameStart ch

end Looks

section Literals

variable (s : List Char)

/-- The character that the escape at an offset stands for, and the number of bytes of the escape. -/
def escapeValue (pos : Nat) : Cutting (Char × Nat) := do
  match ← peek s pos 1 with
  | none => .refuse ⟨.unterminatedString, pos⟩
  | some letter =>
    match Escape.ofLetter? letter with
    | some value => return (value, 2)
    | none =>
      if letter = 'u' then
        let digits := Text.slice s ⟨pos + 2, pos + 6⟩
        match (Numeral.scalar? digits).filter fun _ => Text.width digits == 4 with
        | some value => return (value, 6)
        | none => .refuse ⟨.invalidUnicodeEscape digits, pos⟩
      else .refuse ⟨.illegalEscape letter, pos⟩

/-- The escape at an offset, and the offset behind it. -/
def escape (pos : Nat) : Cutting (Entry × Nat) := do
  let (value, length) ← escapeValue s pos
  return (← entry s (.escape value) pos (pos + length), pos + length)

/-- The offset behind the brace that closes the last one of some open braces. The first of them was
opened by the template at the offset `opened`. -/
def closeBraces (opened : Nat) : (rounds depth pos : Nat) → Cutting Nat
  | _, 0, pos => return pos
  | 0, _ + 1, _ => .cut none
  | rounds + 1, depth + 1, pos => do
    match ← current s pos with
    | none => .refuse ⟨.unterminatedTemplate, opened⟩
    | some ch =>
      let depth := if ch = '{' then depth + 2 else if ch = '}' then depth else depth + 1
      closeBraces opened rounds depth (pos + ch.utf8Size)

/-- The template at an offset, and the offset behind it. -/
def template (pos : Nat) : Cutting (Entry × Nat) := do
  let stop ←
    if (← peek s pos 1) = some '{' then closeBraces s pos (s.length + 1) 1 (pos + 2)
    else nameEnd s (pos + 1)
  return (← entry s .interpolation pos stop, stop)

/-- What a character inside of a literal does. -/
inductive Effect where
  | newline
  | close
  | backslash
  | template
  | plain
deriving DecidableEq, Repr

/-- What the character at an offset inside of a literal does. -/
def effect (q : Quote) (pos : Nat) (ch : Char) : Cutting Effect := do
  if ch = '"' then
    match q with
    | .regular => return .close
    | .raw => return if ← startsWith s pos q.mark then .close else .plain
  else if ch = '\\' then return .backslash
  else if ch = '$' then return if ← templateFollows s pos then .template else .plain
  else if ch = '\n' ∧ q = .regular then return .newline
  else return .plain

/-- Adds the plain characters up to an offset to the entries, if there are any. -/
def flush (runStart : Option Nat) (pos : Nat) (entries : List Entry) : Cutting (List Entry) :=
  match runStart with
  | none => return entries
  | some start => return (← entry s .literal start pos) :: entries

/-- The entry of the backslash at an offset, and the offset behind it. -/
def backslash (q : Quote) (pos : Nat) : Cutting (Entry × Nat) :=
  match q with
  | .regular => escape s pos
  | .raw => return (⟨.escape '\\', ['\\'], ← span pos (pos + 1)⟩, pos + 1)

/-- The literal that was opened at an offset, read on from another one, and the offset behind it.
The entries so far are given last first, and also where the plain characters after them began. -/
def literal (q : Quote) (opened : Nat) :
    (rounds : Nat) → (runStart : Option Nat) → List Entry → (pos : Nat) →
      Cutting (StringLiteral × Nat)
  | 0, _, _, _ => .cut none
  | rounds + 1, runStart, entries, pos => do
    match ← current s pos with
    | none => .refuse ⟨q.unterminated, opened⟩
    | some ch =>
      match ← effect s q pos ch with
      | .newline => .refuse ⟨.unterminatedString, opened⟩
      | .close =>
        let entries ← flush s runStart pos entries
        return (⟨q == .raw, entries.reverse⟩, pos + Text.width q.mark)
      | .backslash =>
        let entries ← flush s runStart pos entries
        let (e, next) ← backslash s q pos
        literal q opened rounds none (e :: entries) next
      | .template =>
        let entries ← flush s runStart pos entries
        let (e, next) ← template s pos
        literal q opened rounds none (e :: entries) next
      | .plain => literal q opened rounds (runStart.or (some pos)) entries (pos + ch.utf8Size)

end Literals

section Lexemes

variable (s : List Char)

/-- The offset behind the line comment at an offset. -/
def lineComment (pos : Nat) : Cutting Nat := do
  match Text.find? ['\n'] (← rest s pos) with
  | some index => return pos + index
  | none => return Text.width s

/-- The offset behind the block comment at an offset. -/
def blockComment (pos : Nat) : Cutting Nat := do
  match Text.find? ['*', '/'] (← rest s (pos + 2)) with
  | some index => return pos + index + 4
  | none => .refuse ⟨.unterminatedComment, pos⟩

/-- The integer at an offset, and the offset behind it. Each digit counts as one byte. -/
def integer (pos : Nat) : Cutting (Lexeme × Nat) := do
  let number ← rest s pos
  let (start, radix) :=
    if ['0', 'x'].isPrefixOf number || ['0', 'X'].isPrefixOf number then (pos + 2, 16)
    else (pos, 10)
  let stop := start + ((← rest s start).takeWhile (isIntegerPart radix)).length
  match integerOf radix (← text s start stop) with
  | .error cause => .refuse ⟨cause, pos⟩
  | .ok value => return (.token (.integer value), stop)

/-- The name at an offset, and the offset behind it. -/
def name (pos : Nat) : Cutting (Lexeme × Nat) := do
  let stop ← nameEnd s pos
  return (.token (.name (String.ofList (← text s pos stop))), stop)

/-- The comment at the offset of a slash, and the offset behind it. -/
def comment (pos : Nat) : Cutting (Lexeme × Nat) := do
  if ← startsWith s pos ['/', '/'] then return (.skipped, ← lineComment s pos)
  else if ← startsWith s pos ['/', '*'] then return (.skipped, ← blockComment s pos)
  else .refuse ⟨.unexpectedCharacter '/', pos⟩

/-- The string literal at an offset, and the offset behind it. -/
def string (pos : Nat) : Cutting (Lexeme × Nat) := do
  let q := if ← startsWith s pos Quote.raw.mark then Quote.raw else .regular
  let (l, next) ← literal s q pos (s.length + 1) none [] (pos + Text.width q.mark)
  return (.token (.string l), next)

/-- What stands at the offset of a character, and the offset behind it. -/
def lexeme (pos : Nat) (ch : Char) : Cutting (Lexeme × Nat) := do
  match punctuation? ch with
  | some kind => return (.token kind, pos + 1)
  | none =>
    if Text.isBlank ch then return (.skipped, pos + ch.utf8Size)
    else if ch = '/' then comment s pos
    else if ch = '"' then string s pos
    else if ch.isDigit then integer s pos
    else if isNameStart ch then name s pos
    else .refuse ⟨.unexpectedCharacter ch, pos⟩

/-- Adds a token to the others, which are given last first, if it is kept at a depth. -/
def push (depth : Nat) (kind : TokenKind) (start stop : Nat) (tokens : List Token) :
    Cutting (List Token) := do
  if kind.isKept depth then return ⟨kind, ← span start stop⟩ :: tokens else return tokens

/-- The tokens from an offset on, added to those before, which are given last first. -/
def tokens : (rounds depth : Nat) → List Token → (pos : Nat) → Cutting Tokens
  | 0, _, _, _ => .cut none
  | rounds + 1, depth, read, pos => do
    match ← current s pos with
    | none => return ⟨read.reverse, (← span pos pos).stop⟩
    | some ch =>
      match ← lexeme s pos ch with
      | (.skipped, next) => tokens rounds depth read next
      | (.token kind, next) =>
        tokens rounds (kind.depthAfter depth) (← push depth kind pos next read) next

end Lexemes

end OffsetLexer

/-- The tokens of a source, with a round for each of its characters and one more. -/
def Tokens.cut? (source : List Char) : Option (Except Fault Tokens) :=
  (OffsetLexer.tokens source (source.length + 1) 0 [] 0).run

end Script

end RegexAudit
