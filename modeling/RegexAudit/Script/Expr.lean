import RegexAudit.Script.Token

/-!
# Expressions and statements

The tree of a parsed script. Every node carries the span of its spelling, so
calls and literals can be traced back to the source.

## Main definitions

* `Expr`, `Statement`, `Script`: the tree.
* `Expr.height`: the height of a tree; leaves have none.
* `Call`: a call on its own, with the name and the receiver of its callee.
* `Script.calls`: all calls of a script in source order, outer before inner.
* `StringLiteral.values?`: what a literal without templates stands for.
-/

namespace RegexAudit

namespace Script

/-- An occurrence of a name. -/
structure Ident where
  text : String
  range : Span
deriving DecidableEq, Repr

/-- The infix operators. -/
inductive Operator where
  /-- Written `+`: concatenation or addition. -/
  | plus
  /-- Written `or`: union of bits. -/
  | or
deriving DecidableEq, Repr

/-- Expressions, each with the span it covers. -/
inductive Expr where
  | string (range : Span) (literal : StringLiteral)
  | integer (range : Span) (value : Nat)
  | name (range : Span) (text : String)
  | binary (range : Span) (op : Operator) (lhs rhs : Expr)
  | dot (range : Span) (receiver : Expr) (member : Ident)
  | call (range : Span) (callee : Expr) (args : List Expr)
  | paren (range : Span) (inner : Expr)
deriving Repr

/-- A call: what is called, and with which arguments. -/
structure Call where
  callee : Expr
  args : List Expr
deriving Repr

/-- Statements. A declaration is mutable when it may be followed by assignments. -/
inductive Statement where
  | declaration (isMutable : Bool) (name : Ident) (init : Expr)
  | assignment (name : Ident) (value : Expr)
  | expression (expr : Expr)
deriving Repr

/-- The expression that a statement evaluates. -/
def Statement.expr : Statement → Expr
  | declaration _ _ init => init
  | assignment _ value => value
  | expression expr => expr

namespace Expr

/-- The span of an expression. -/
def range : Expr → Span
  | string range _ | integer range _ | name range _ | binary range _ _ _
  | dot range _ _ | call range _ _ | paren range _ => range

mutual

/-- The height of an expression tree. Leaves have height zero. -/
def height : Expr → Nat
  | string .. | integer .. | name .. => 0
  | binary _ _ lhs rhs => max lhs.height rhs.height + 1
  | dot _ receiver _ => receiver.height + 1
  | call _ callee args => max callee.height (heightAll args) + 1
  | paren _ inner => inner.height + 1

/-- The greatest height among some expressions. -/
def heightAll : List Expr → Nat
  | [] => 0
  | e :: es => max e.height (heightAll es)

end

/-- The names of a member chain such as `RegexOption.MULTILINE`, from the outermost on. -/
def path? : Expr → Option (List String)
  | name _ text => some [text]
  | dot _ receiver member => receiver.path?.map (· ++ [member.text])
  | _ => none

/-- The simple name that a name or a member access refers to. -/
def referencedName? : Expr → Option String
  | name _ text => some text
  | dot _ _ member => some member.text
  | _ => none

/-- The call that an expression is. -/
def asCall? : Expr → Option Call
  | call _ callee args => some ⟨callee, args⟩
  | _ => none

mutual

/-- All calls in an expression, outer before inner, callee before arguments. -/
def calls : Expr → List Call
  | string .. | integer .. | name .. => []
  | binary _ _ lhs rhs => lhs.calls ++ rhs.calls
  | dot _ receiver _ => receiver.calls
  | call _ callee args => ⟨callee, args⟩ :: (callee.calls ++ callsAll args)
  | paren _ inner => inner.calls

/-- All calls in some expressions, in order. -/
def callsAll : List Expr → List Call
  | [] => []
  | e :: es => e.calls ++ callsAll es

end

mutual

/-- All nodes of an expression in preorder, each with its level; the root has the given one. -/
def nodes (level : Nat) : Expr → List (Nat × Expr)
  | e@(string ..) | e@(integer ..) | e@(name ..) => [(level, e)]
  | e@(binary _ _ lhs rhs) => (level, e) :: (lhs.nodes (level + 1) ++ rhs.nodes (level + 1))
  | e@(dot _ receiver _) => (level, e) :: receiver.nodes (level + 1)
  | e@(call _ callee args) => (level, e) :: (callee.nodes (level + 1) ++ nodesAll (level + 1) args)
  | e@(paren _ inner) => (level, e) :: inner.nodes (level + 1)

/-- All nodes of some expressions in preorder, with the roots at the given level. -/
def nodesAll (level : Nat) : List Expr → List (Nat × Expr)
  | [] => []
  | e :: es => e.nodes level ++ nodesAll level es

end

end Expr

namespace Call

/-- The name of the called function, if the callee is a name or a member access. -/
def name? (call : Call) : Option String := call.callee.referencedName?

/-- What a member call is made on. -/
def receiver? (call : Call) : Option Expr :=
  match call.callee with
  | .dot _ receiver _ => some receiver
  | _ => none

/-- The span of the token that names the called function. -/
def nameRange (call : Call) : Span :=
  match call.callee with
  | .dot _ _ member => member.range
  | callee => callee.range

end Call

/-- What the pieces of a literal stand for, in order. There is no answer when one is a template. -/
def StringLiteral.values? (literal : StringLiteral) : Option (List Char) :=
  (literal.entries.mapM fun (entry : Entry) => match entry.kind with
    | .literal => some entry.text
    | .escape value => some [value]
    | .interpolation => none).map List.flatten

end Script

/-- A script: its statements in order. -/
structure Script where
  statements : List Script.Statement
deriving Repr

/-- All calls of a script in source order, outer calls before inner ones. -/
def Script.calls (script : Script) : List Script.Call :=
  script.statements.flatMap fun statement => statement.expr.calls

end RegexAudit
