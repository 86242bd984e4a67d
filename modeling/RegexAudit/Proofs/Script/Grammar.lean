import RegexAudit.Script.Parser

/-!
# The grammar of scripts

A derivation shows how some tokens are built up by the productions of the grammar. It records every
token, those without a counterpart in the tree among them, so different derivations of the same
tokens would be different ways to read them.

## Main definitions

* `Symbol`: the symbols of the grammar of expressions.
* `Derivation`: the derivations of a symbol, one constructor a production.
* `Derivation.tokens`, `Derivation.value`: the tokens that are derived, and what they stand for.
* `StatementDerivation`, `ScriptDerivation`: the same for statements and scripts.
* `Expr.enclosure`: how many parentheses and argument lists enclose a part of an expression.

## Design notes

Chains of operands are derived from left to right, as an operand and further links. Their value is
the tree that associates to the left: the value of the links is a function of what stands to their
left, and so is the value of the suffixes of an operand.
-/

namespace RegexAudit

namespace Script

/-- The symbols of the grammar of expressions. -/
inductive Symbol where
  /-- A literal, a name or an expression in parentheses. -/
  | primary
  /-- Member accesses and calls behind a primary expression. -/
  | suffixes
  /-- A primary expression with its member accesses and calls. -/
  | operand
  /-- Further operands, each behind an operator. -/
  | links (op : Operator)
  /-- Operands that are joined by an operator. The chains of `or` are the expressions. -/
  | chain (op : Operator)
  /-- What stands between the parentheses of a call. -/
  | arguments
  /-- At least one argument, and then possibly one comma too many. -/
  | items
deriving DecidableEq, Repr

/-- What an operator joins. -/
@[reducible] def Operator.operand : Operator → Symbol
  | plus => .operand
  | or => .chain .plus

/-- The token of an operator. -/
def Operator.token : Operator → TokenKind
  | plus => .plus
  | or => .name "or"

/-- What the tokens of a symbol stand for. -/
@[reducible] def Symbol.Meaning : Symbol → Type
  | primary | operand | chain _ => Expr
  | suffixes | links _ => Expr → Expr
  | arguments | items => List Expr

/-- The expression that an operator joins. -/
def Operator.tree : (op : Operator) → op.operand.Meaning → Expr
  | plus, e => e
  | or, e => e

/-- The derivations of a symbol. -/
inductive Derivation : Symbol → Type
  | string (range : Span) (literal : StringLiteral) : Derivation .primary
  | integer (range : Span) (value : Nat) : Derivation .primary
  | name (range : Span) (text : String) : Derivation .primary
  | paren (opening : Span) (inner : Derivation (.chain .or)) (closing : Span) : Derivation .primary
  | bare : Derivation .suffixes
  | member (newlines : List Span) (dot : Span) (name : Ident) (more : Derivation .suffixes) :
      Derivation .suffixes
  | call (opening : Span) (args : Derivation .arguments) (closing : Span)
      (more : Derivation .suffixes) : Derivation .suffixes
  | operand (first : Derivation .primary) (more : Derivation .suffixes) : Derivation .operand
  | last (op : Operator) : Derivation (.links op)
  | link (op : Operator) (sign : Span) (newlines : List Span) (next : Derivation op.operand)
      (more : Derivation (.links op)) : Derivation (.links op)
  | chain (op : Operator) (first : Derivation op.operand) (more : Derivation (.links op)) :
      Derivation (.chain op)
  | nothing : Derivation .arguments
  | something (items : Derivation .items) : Derivation .arguments
  | single (arg : Derivation (.chain .or)) : Derivation .items
  | trailing (arg : Derivation (.chain .or)) (comma : Span) : Derivation .items
  | further (arg : Derivation (.chain .or)) (comma : Span) (more : Derivation .items) :
      Derivation .items

/-- The derivations of an expression. -/
abbrev ExprDerivation : Type := Derivation (.chain .or)

/-- A primary expression as a sum of one operand. -/
def Derivation.asSum (d : Derivation .primary) : Derivation (.chain .plus) :=
  .chain .plus (.operand d .bare) (.last .plus)

/-- A primary expression as an expression. -/
def Derivation.asExpr (d : Derivation .primary) : ExprDerivation := .chain .or d.asSum (.last .or)

/-- Newline tokens with the given spans. -/
def newlineTokens (spans : List Span) : List Token := spans.map (⟨.newline, ·⟩)

namespace Derivation

/-- The tokens that are derived. -/
def tokens : {s : Symbol} → Derivation s → List Token
  | _, string range literal => [⟨.string literal, range⟩]
  | _, integer range value => [⟨.integer value, range⟩]
  | _, name range text => [⟨.name text, range⟩]
  | _, paren opening inner closing =>
    ⟨.openParen, opening⟩ :: (inner.tokens ++ [⟨.closeParen, closing⟩])
  | _, bare => []
  | _, member newlines dot ident more =>
    newlineTokens newlines ++ ⟨.dot, dot⟩ :: ⟨.name ident.text, ident.range⟩ :: more.tokens
  | _, call opening args closing more =>
    ⟨.openParen, opening⟩ :: (args.tokens ++ ⟨.closeParen, closing⟩ :: more.tokens)
  | _, operand first more => first.tokens ++ more.tokens
  | _, last _ => []
  | _, link op sign newlines next more =>
    ⟨op.token, sign⟩ :: (newlineTokens newlines ++ (next.tokens ++ more.tokens))
  | _, chain _ first more => first.tokens ++ more.tokens
  | _, nothing => []
  | _, something items => items.tokens
  | _, single arg => arg.tokens
  | _, trailing arg comma => arg.tokens ++ [⟨.comma, comma⟩]
  | _, further arg comma more => arg.tokens ++ ⟨.comma, comma⟩ :: more.tokens

/-- What the derived tokens stand for. -/
def value : {s : Symbol} → Derivation s → s.Meaning
  | _, string range literal => Expr.string range literal
  | _, integer range value => Expr.integer range value
  | _, name range text => Expr.name range text
  | _, paren opening inner closing => Expr.paren (opening.cover closing) inner.value
  | _, bare => id
  | _, member _ _ ident more => fun e => more.value (.dot (e.range.cover ident.range) e ident)
  | _, call _ args closing more => fun e => more.value (.call (e.range.cover closing) e args.value)
  | _, operand first more => more.value first.value
  | _, last _ => id
  | _, link op _ _ next more => fun e =>
    more.value (.binary (e.range.cover (op.tree next.value).range) op e (op.tree next.value))
  | _, chain op first more => more.value (op.tree first.value)
  | _, nothing => []
  | _, something items => items.value
  | _, single arg => [arg.value]
  | _, trailing arg _ => [arg.value]
  | _, further arg _ more => arg.value :: more.value

end Derivation

/-- The first word of a declaration. -/
def keyword (isMutable : Bool) : String := if isMutable then "var" else "val"

/-- A token that may separate statements. -/
abbrev Separator : Type := { t : Token // t.kind = .newline ∨ t.kind = .semicolon }

/-- The tokens of some separators. -/
def separatorTokens (separators : List Separator) : List Token := separators.map (·.1)

/-- The derivations of a statement. Nothing but a declaration begins with the first word of one. -/
inductive StatementDerivation where
  | declaration (first : Span) (isMutable : Bool) (name : Ident) (equals : Span)
      (init : ExprDerivation)
  | assignment (name : Ident) (equals : Span) (value : ExprDerivation)
      (plain : declares? name.text = none)
  | expression (expr : ExprDerivation)
      (plain : ∀ text range, ⟨.name text, range⟩ ∈ expr.tokens.head? → declares? text = none)

namespace StatementDerivation

/-- The tokens that are derived. -/
def tokens : StatementDerivation → List Token
  | declaration first isMutable name equals init =>
    ⟨.name (keyword isMutable), first⟩ :: ⟨.name name.text, name.range⟩ :: ⟨.equals, equals⟩ ::
      init.tokens
  | assignment name equals value _ =>
    ⟨.name name.text, name.range⟩ :: ⟨.equals, equals⟩ :: value.tokens
  | expression expr _ => expr.tokens

/-- The statement that is derived. -/
def statement : StatementDerivation → Statement
  | declaration _ isMutable name _ init => .declaration isMutable name init.value
  | assignment name _ value _ => .assignment name value.value
  | expression expr _ => .expression expr.value

/-- The derivation of the expression of a statement. -/
def expr : StatementDerivation → ExprDerivation
  | declaration _ _ _ _ init => init
  | assignment _ _ value _ => value
  | expression expr _ => expr

theorem statement_expr (s : StatementDerivation) : s.statement.expr = s.expr.value := by
  cases s <;> rfl

theorem infix_expr (s : StatementDerivation) : s.expr.tokens <:+: s.tokens := by
  cases s with
  | declaration => exact (List.suffix_append [_, _, _] _).isInfix
  | assignment => exact (List.suffix_append [_, _] _).isInfix
  | expression => exact List.infix_rfl

end StatementDerivation

/-- The derivations of a script: statements with the separators in front of them, and separators
behind the last statement. There is at least one separator between two statements. -/
structure ScriptDerivation where
  lines : List (List Separator × StatementDerivation)
  trailing : List Separator
  separated : ∀ line ∈ lines.tail, line.1 ≠ []

namespace ScriptDerivation

/-- The tokens of some lines with trailing separators. -/
def tokensOf (trailing : List Separator) : List (List Separator × StatementDerivation) → List Token
  | [] => separatorTokens trailing
  | (separators, s) :: lines => separatorTokens separators ++ (s.tokens ++ tokensOf trailing lines)

theorem tokensOf_append (trailing : List Separator)
    (lead lines : List (List Separator × StatementDerivation)) :
    tokensOf trailing (lead ++ lines) = tokensOf [] lead ++ tokensOf trailing lines := by
  induction lead with
  | nil => rfl
  | cons line lead ih => simp [tokensOf, ih]

/-- The tokens of a line are a piece of all. -/
theorem infix_tokensOf {trailing : List Separator}
    {lines : List (List Separator × StatementDerivation)}
    {line : List Separator × StatementDerivation} (h : line ∈ lines) :
    line.2.tokens <:+: tokensOf trailing lines := by
  obtain ⟨lead, more, rfl⟩ := List.append_of_mem h
  rw [tokensOf_append, tokensOf]
  exact List.infix_append_of_infix_right (List.infix_append' _ _ _)

/-- The tokens that are derived. -/
def tokens (d : ScriptDerivation) : List Token := tokensOf d.trailing d.lines

/-- The script that is derived. -/
def script (d : ScriptDerivation) : Script := ⟨d.lines.map (·.2.statement)⟩

end ScriptDerivation

namespace Expr

mutual

/-- The greatest number of parentheses and argument lists that enclose a part of an expression. -/
def enclosure : Expr → Nat
  | string .. | integer .. | name .. => 0
  | binary _ _ lhs rhs => max lhs.enclosure rhs.enclosure
  | dot _ receiver _ => receiver.enclosure
  | call _ callee args => max callee.enclosure (enclosureAll args)
  | paren _ inner => inner.enclosure + 1

/-- The same for the parts of an argument list, which it encloses itself. -/
def enclosureAll : List Expr → Nat
  | [] => 0
  | e :: es => max (e.enclosure + 1) (enclosureAll es)

end

end Expr

end Script

/-- No expression of the script is higher than the limit, and nowhere do so many parentheses and
argument lists enclose a part of one. -/
def Script.IsShallow (script : Script) : Prop :=
  ∀ s ∈ script.statements, s.expr.height ≤ Script.maxNesting ∧ s.expr.enclosure < Script.maxNesting

end RegexAudit
