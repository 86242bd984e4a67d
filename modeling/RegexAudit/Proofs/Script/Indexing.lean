import RegexAudit.Proofs.Script.Cutting
import RegexAudit.Script.Parser

/-!
# A parser that keeps an index

The parser keeps the tokens that are left. The one here keeps nothing but an index into all tokens
of a source, to which the end of the source is added as a last one. It looks tokens up by their
indices, and a look-up past the end has no result. The loops have a number of rounds, and no result
when they run out of them.

## Main definitions

* `Slot`: a token, or the end of the source.
* `IndexParser.within`: an expression nested no deeper than a limit.
* `IndexParser.statements`: the statements of a script.

## Design notes

The names are those of the readers that work on the remaining tokens. `IndexParser.nthIs` asks for a
token that need not be there, as the parser does.
-/

namespace RegexAudit

namespace Script

/-- A token in a row that the end of the source closes. The end has no kind. -/
structure Slot where
  kind : Option TokenKind
  range : Span
deriving DecidableEq, Repr

/-- Some tokens with the end of the source behind them. -/
def Slot.row (stop : Nat) (ts : List Token) : List Slot :=
  ts.map (fun t => ⟨some t.kind, t.range⟩) ++ [⟨none, .empty stop⟩]

/-- The tokens of a source with its end. -/
def Tokens.row (tokens : Tokens) : List Slot := Slot.row tokens.stop tokens.items

namespace IndexParser

section Looks

variable (source : List Char) (row : List Slot)

/-- The token at an index, or the last one if the index is past the end. -/
def current (pos : Nat) : Cutting Slot := .cut row[min pos (row.length - 1)]?

/-- Whether a token of a kind stands at an index. -/
def at? (pos : Nat) (kind : TokenKind) : Cutting Bool :=
  return (← current row pos).kind == some kind

/-- Whether a token of a kind stands some tokens behind an index. -/
def nthIs (pos skip : Nat) (kind : TokenKind) : Bool :=
  row[pos + skip]?.any (·.kind == some kind)

/-- Whether the first token from an index on that is no newline is a dot. -/
def dotFollows (pos : Nat) : Cutting Bool := do
  let ahead ← .cut (if pos ≤ row.length then some (row.drop pos) else none)
  return (ahead.find? (·.kind != some .newline)).any (·.kind == some .dot)

/-- The index behind a token. The end is never left. -/
def bump (pos : Nat) : Nat := if pos < row.length - 1 then pos + 1 else pos

/-- The index behind the tokens of some kinds. -/
def skip (skipped : TokenKind → Bool) : (rounds pos : Nat) → Cutting Nat
  | 0, _ => .cut none
  | rounds + 1, pos => do
    if (← current row pos).kind.any skipped then skip skipped rounds (bump row pos)
    else return pos

/-- The index behind newlines. -/
def skipNewlines (pos : Nat) : Cutting Nat := skip row (· == .newline) row.length pos

/-- Refuses the source because something else was asked for at an index. -/
def unexpected {α : Type} (what : Expectation) (pos : Nat) : Cutting α := do
  let slot ← current row pos
  match slot.kind with
  | none => .refuse ⟨.expected what .endOfInput, slot.range.start⟩
  | some .newline => .refuse ⟨.expected what .newline, slot.range.start⟩
  | some _ =>
    let text ← OffsetLexer.text source slot.range.start slot.range.stop
    .refuse ⟨.expected what (.spelling text), slot.range.start⟩

/-- Refuses the source because an expression is nested too deep. -/
def tooDeep {α : Type} (pos : Nat) : Cutting α := do
  .refuse ⟨.nestedTooDeep, (← current row pos).range.start⟩

/-- Admits a tree that is not higher than the limit. -/
def checked (e : Expr) (pos : Nat) : Cutting Expr :=
  if e.height ≤ maxNesting then return e else tooDeep row pos

/-- Reads a token of a kind. -/
def expect (kind : TokenKind) (what : Expectation) (pos : Nat) : Cutting (Span × Nat) := do
  let slot ← current row pos
  if slot.kind = some kind then return (slot.range, bump row pos)
  else unexpected source row what pos

/-- Reads a name. -/
def ident (pos : Nat) : Cutting (Ident × Nat) := do
  let slot ← current row pos
  match slot.kind with
  | some (.name text) => return (⟨text, slot.range⟩, bump row pos)
  | _ => unexpected source row .identifier pos

end Looks

section Levels

variable (source : List Char) (row : List Slot) (inner : Nat → Cutting (Expr × Nat))

/-- Reads a literal, a name or an expression in parentheses. -/
def primary (pos : Nat) : Cutting (Expr × Nat) := do
  let slot ← current row pos
  match slot.kind with
  | some (.string l) => return (.string slot.range l, bump row pos)
  | some (.integer value) => return (.integer slot.range value, bump row pos)
  | some (.name text) => return (.name slot.range text, bump row pos)
  | some .openParen =>
    let (e, pos) ← inner (bump row pos)
    let (close, pos) ← expect source row .closeParen .closeParen pos
    return (← checked row (.paren (slot.range.cover close) e) pos, pos)
  | _ => unexpected source row .expression pos

/-- Reads the arguments of a call up to the closing parenthesis, at least one. The arguments already
read are given last first. -/
def arguments : (rounds : Nat) → List Expr → (pos : Nat) → Cutting (List Expr × Nat)
  | 0, _, _ => .cut none
  | rounds + 1, args, pos => do
    let (e, pos) ← inner pos
    if ← at? row pos .comma then
      if ← at? row (bump row pos) .closeParen then return ((e :: args).reverse, bump row pos)
      else arguments rounds (e :: args) (bump row pos)
    else return ((e :: args).reverse, pos)

/-- Reads what stands between the parentheses of a call. -/
def argumentList (pos : Nat) : Cutting (List Expr × Nat) := do
  if ← at? row pos .closeParen then return ([], pos) else arguments row inner row.length [] pos

/-- Reads all member accesses and calls on an expression. -/
def suffixes : (rounds : Nat) → Expr → (pos : Nat) → Cutting (Expr × Nat)
  | 0, _, _ => .cut none
  | rounds + 1, e, pos => do
    if ← dotFollows row pos then
      let dot ← skipNewlines row pos
      let (member, pos) ← ident source row (bump row dot)
      let e ← checked row (.dot (e.range.cover member.range) e member) pos
      suffixes rounds e pos
    else if ← at? row pos .openParen then
      let (args, pos) ← argumentList row inner (bump row pos)
      let (close, pos) ← expect source row .closeParen .closeParen pos
      let e ← checked row (.call (e.range.cover close) e args) pos
      suffixes rounds e pos
    else return (e, pos)

/-- Reads a primary expression with its member accesses and calls. -/
def operand (pos : Nat) : Cutting (Expr × Nat) := do
  let (e, pos) ← primary source row inner pos
  suffixes source row inner row.length e pos

/-- Reads further operands that are added to `lhs`. -/
def addends : (rounds : Nat) → (lhs : Expr) → (pos : Nat) → Cutting (Expr × Nat)
  | 0, _, _ => .cut none
  | rounds + 1, lhs, pos => do
    if ← at? row pos .plus then
      let (rhs, pos) ← operand source row inner (← skipNewlines row (bump row pos))
      let e ← checked row (.binary (lhs.range.cover rhs.range) .plus lhs rhs) pos
      addends rounds e pos
    else return (lhs, pos)

/-- Reads a sum of operands. -/
def sum (pos : Nat) : Cutting (Expr × Nat) := do
  let (e, pos) ← operand source row inner pos
  addends source row inner row.length e pos

/-- Reads further sums that are united with `lhs`. -/
def alternatives : (rounds : Nat) → (lhs : Expr) → (pos : Nat) → Cutting (Expr × Nat)
  | 0, _, _ => .cut none
  | rounds + 1, lhs, pos => do
    if ← at? row pos (.name "or") then
      let (rhs, pos) ← sum source row inner (← skipNewlines row (bump row pos))
      let e ← checked row (.binary (lhs.range.cover rhs.range) .or lhs rhs) pos
      alternatives rounds e pos
    else return (lhs, pos)

/-- Reads an expression whose nested expressions are read by `inner`. -/
def expr (pos : Nat) : Cutting (Expr × Nat) := do
  let (e, pos) ← sum source row inner pos
  alternatives source row inner row.length e pos

end Levels

section Statements

variable (source : List Char) (row : List Slot)

/-- Reads an expression with `levels` levels of nesting left, its own among them. -/
def within : (levels : Nat) → (pos : Nat) → Cutting (Expr × Nat)
  | 0, pos => tooDeep row pos
  | levels + 1, pos => expr source row (within levels) pos

/-- Reads an expression and makes a statement of it. -/
def exprAs (make : Expr → Statement) (pos : Nat) : Cutting (Statement × Nat) := do
  let (e, pos) ← within source row maxNesting pos
  return (make e, pos)

/-- Reads the rest of a declaration, after its first word. -/
def declaration (isMutable : Bool) (pos : Nat) : Cutting (Statement × Nat) := do
  let (name, pos) ← ident source row pos
  let (_, pos) ← expect source row .equals .equals pos
  exprAs source row (.declaration isMutable name) pos

/-- Reads a statement. -/
def statement (pos : Nat) : Cutting (Statement × Nat) := do
  match (← current row pos).kind with
  | some (.name text) =>
    match declares? text with
    | some isMutable => declaration source row isMutable (bump row pos)
    | none =>
      if nthIs row pos 1 .equals then
        let (name, pos) ← ident source row pos
        exprAs source row (.assignment name) (bump row pos)
      else exprAs source row .expression pos
  | _ => exprAs source row .expression pos

/-- Whether a statement may end in front of a token. -/
def endsStatement (slot : Slot) : Bool :=
  slot.kind.all fun kind => kind == .newline || kind == .semicolon

/-- Reads the statements of a script. Those already read are given last first. -/
def statements : (rounds : Nat) → List Statement → (pos : Nat) → Cutting (List Statement)
  | 0, _, _ => .cut none
  | rounds + 1, read, pos => do
    let pos ← skip row (fun kind => kind == .newline || kind == .semicolon) row.length pos
    if (← current row pos).kind = none then return read.reverse
    else
      let (next, pos) ← statement source row pos
      if endsStatement (← current row pos) then statements rounds (next :: read) pos
      else unexpected source row .endOfStatement pos

end Statements

end IndexParser

end Script

/-- The script of a source, with all cuts and look-ups that are made on the way to it. -/
def Script.cutting (source : List Char) : Script.Cutting Script := do
  let tokens ← ExceptT.mk (Script.Tokens.cut? source)
  return ⟨← Script.IndexParser.statements source tokens.row tokens.row.length [] 0⟩

end RegexAudit
