import RegexAudit.Script.Expr
import RegexAudit.Script.Lexer

/-!
# Parsing a script

Recursive descent over the tokens of a source:

```text
script    := separators (statement separators)*
statement := ('val' | 'var') NAME '=' expr | NAME '=' expr | expr
expr      := sum ('or' newlines sum)*
sum       := operand ('+' newlines operand)*
operand   := primary (newlines '.' NAME | '(' arguments ')')*
arguments := nothing | expr (',' expr)* ','?
primary   := STRING | INTEGER | NAME | '(' expr ')'
```

## Main definitions

* `Rejection`: what was asked for, and the tokens that stand there instead.
* `ExprReader`: a reader of expressions that consumes at least one token.
* `ExprReader.within`: the reader of expressions nested no deeper than a limit.
* `Script.ofSource`: the script that a source text spells.

## Design notes

Expressions nest through parentheses and arguments only, and that nesting is
limited. So a reader of expressions is built from the reader one level
further in, by recursion on the levels that are left. The loops inside a level
end because each round consumes a token; a reader carries the proof.
-/

namespace RegexAudit

namespace Script

/-- What the grammar asks for, or that the nesting is too deep, with the tokens that remain. -/
inductive Rejection where
  | expected (what : Expectation) (remaining : List Token)
  | nestedTooDeep (remaining : List Token)
deriving Repr

/-- The result of reading: a value and the remaining tokens. -/
abbrev Reading (α : Type) := Except Rejection (α × List Token)

/-- A reader of expressions that consumes at least one token. -/
structure ExprReader where
  run : List Token → Reading Expr
  shrinks : ∀ {ts e rest}, run ts = .ok (e, rest) → rest.length < ts.length

/-- Drops newlines in front. -/
def skipNewlines (ts : List Token) : List Token := ts.dropWhile (·.kind == .newline)

/-- Drops newlines and semicolons in front. -/
def skipSeparators (ts : List Token) : List Token :=
  ts.dropWhile fun t => t.kind == .newline || t.kind == .semicolon

theorem skipNewlines_length_le (ts : List Token) : (skipNewlines ts).length ≤ ts.length :=
  (List.dropWhile_sublist _).length_le

theorem skipSeparators_length_le (ts : List Token) : (skipSeparators ts).length ≤ ts.length :=
  (List.dropWhile_sublist _).length_le

/-- What follows a dot that stands here or at the start of a following line. -/
def afterDot? (ts : List Token) : Option (List Token) :=
  match skipNewlines ts with
  | ⟨.dot, _⟩ :: rest => some rest
  | _ => none

theorem afterDot?_length_lt {ts rest : List Token} (h : afterDot? ts = some rest) :
    rest.length < ts.length := by
  have hskip := skipNewlines_length_le ts
  unfold afterDot? at h
  split at h
  · rename_i heq
    simp only [Option.some.injEq] at h
    rw [heq, h, List.length_cons] at hskip
    omega
  · simp at h

/-- Reads a name. -/
def readIdent : List Token → Reading Ident
  | ⟨.name text, range⟩ :: rest => .ok (⟨text, range⟩, rest)
  | ts => .error (.expected .identifier ts)

theorem readIdent_shrinks {ts rest : List Token} {i : Ident}
    (h : readIdent ts = .ok (i, rest)) : rest.length < ts.length := by
  unfold readIdent at h
  split at h
  · simp only [Except.ok.injEq, Prod.mk.injEq] at h
    simp [h.2]
  · simp at h

/-- Reads a closing parenthesis. -/
def readClose : List Token → Reading Span
  | ⟨.closeParen, range⟩ :: rest => .ok (range, rest)
  | ts => .error (.expected .closeParen ts)

theorem readClose_shrinks {ts rest : List Token} {r : Span}
    (h : readClose ts = .ok (r, rest)) : rest.length < ts.length := by
  unfold readClose at h
  split at h
  · simp only [Except.ok.injEq, Prod.mk.injEq] at h
    simp [h.2]
  · simp at h

/-- Admits a tree that is not higher than the limit. -/
def admit? (e : Expr) (rest : List Token) : Reading Expr :=
  if e.height ≤ maxNesting then .ok (e, rest) else .error (.nestedTooDeep rest)

theorem admit?_eq_ok {e e' : Expr} {rest rest' : List Token}
    (h : admit? e rest = .ok (e', rest')) : e' = e ∧ rest' = rest := by
  unfold admit? at h
  split at h
  · simp only [Except.ok.injEq, Prod.mk.injEq] at h
    exact ⟨h.1.symm, h.2.symm⟩
  · simp at h

namespace ExprReader

/-- Reads a literal, a name or an expression in parentheses. -/
def primary (inner : ExprReader) : List Token → Reading Expr
  | ⟨.string literal, range⟩ :: rest => .ok (.string range literal, rest)
  | ⟨.integer value, range⟩ :: rest => .ok (.integer range value, rest)
  | ⟨.name text, range⟩ :: rest => .ok (.name range text, rest)
  | ⟨.openParen, range⟩ :: rest =>
    match inner.run rest with
    | .error r => .error r
    | .ok (e, rest) =>
      match readClose rest with
      | .error r => .error r
      | .ok (close, rest) => admit? (.paren (range.cover close) e) rest
  | ts => .error (.expected .expression ts)

/-- What follows a comma. -/
def afterComma? : List Token → Option (List Token)
  | ⟨.comma, _⟩ :: rest => some rest
  | _ => none

theorem afterComma?_length_lt {ts rest : List Token} (h : afterComma? ts = some rest) :
    rest.length < ts.length := by
  unfold afterComma? at h
  split at h <;> simp_all

/-- Whether a closing parenthesis comes next. -/
def closes : List Token → Bool
  | ⟨.closeParen, _⟩ :: _ => true
  | _ => false

/-- Reads the arguments of a call up to the closing parenthesis, at least one. The arguments already
read are given last first. -/
def arguments (inner : ExprReader) (args : List Expr) (ts : List Token) : Reading (List Expr) :=
  match _h : inner.run ts with
  | .error r => .error r
  | .ok (e, rest) =>
    match _h' : afterComma? rest with
    | none => .ok ((e :: args).reverse, rest)
    | some rest' =>
      if closes rest' then .ok ((e :: args).reverse, rest')
      else inner.arguments (e :: args) rest'
termination_by ts.length
decreasing_by
  have := inner.shrinks ‹_›
  have := afterComma?_length_lt ‹_›
  omega

/-- Reads what stands between the parentheses of a call. -/
def argumentList (inner : ExprReader) (ts : List Token) : Reading (List Expr) :=
  if closes ts then .ok ([], ts) else inner.arguments [] ts

theorem arguments_shrinks {inner : ExprReader} {args args' : List Expr} {ts rest : List Token}
    (h : inner.arguments args ts = .ok (args', rest)) : rest.length < ts.length := by
  fun_induction arguments inner args ts with
  | case1 => simp at h
  | case2 args ts e rest₀ hrun hcomma =>
    have := inner.shrinks hrun
    simp only [Except.ok.injEq, Prod.mk.injEq] at h
    rwa [← h.2]
  | case3 args ts e rest₀ hrun rest' hcomma hcloses =>
    have := inner.shrinks hrun
    have := afterComma?_length_lt hcomma
    simp only [Except.ok.injEq, Prod.mk.injEq] at h
    rw [← h.2]
    omega
  | case4 args ts e rest₀ hrun rest' hcomma hcloses ih =>
    have := inner.shrinks hrun
    have := afterComma?_length_lt hcomma
    have := ih h
    omega

theorem argumentList_length_le {inner : ExprReader} {args : List Expr} {ts rest : List Token}
    (h : inner.argumentList ts = .ok (args, rest)) : rest.length ≤ ts.length := by
  unfold argumentList at h
  split at h
  · simp only [Except.ok.injEq, Prod.mk.injEq] at h
    simp [h.2]
  · exact Nat.le_of_lt (arguments_shrinks h)

/-- Reads one member access or one call on `e`, if there is one. -/
def suffix? (inner : ExprReader) (e : Expr) (ts : List Token) : Option (Reading Expr) :=
  match afterDot? ts with
  | some rest =>
    match readIdent rest with
    | .error r => some (.error r)
    | .ok (member, rest) => some (admit? (.dot (e.range.cover member.range) e member) rest)
  | none =>
    match ts with
    | ⟨.openParen, _⟩ :: rest =>
      match inner.argumentList rest with
      | .error r => some (.error r)
      | .ok (args, rest) =>
        match readClose rest with
        | .error r => some (.error r)
        | .ok (close, rest) => some (admit? (.call (e.range.cover close) e args) rest)
    | _ => none

theorem suffix?_shrinks {inner : ExprReader} {e e' : Expr} {ts rest : List Token}
    (h : inner.suffix? e ts = some (.ok (e', rest))) : rest.length < ts.length := by
  unfold suffix? at h
  split at h
  · rename_i hdot
    have := afterDot?_length_lt hdot
    split at h
    · simp at h
    · rename_i hident
      have := readIdent_shrinks hident
      have := (admit?_eq_ok (Option.some.inj h)).2
      subst this
      omega
  · split at h
    · split at h
      · simp at h
      · rename_i hargs
        have := argumentList_length_le hargs
        split at h
        · simp at h
        · rename_i hclose
          have := readClose_shrinks hclose
          have := (admit?_eq_ok (Option.some.inj h)).2
          subst this
          simp only [List.length_cons]
          omega
    · simp at h

/-- Reads all member accesses and calls on `e`. -/
def suffixes (inner : ExprReader) (e : Expr) (ts : List Token) : Reading Expr :=
  match _h : inner.suffix? e ts with
  | none => .ok (e, ts)
  | some (.error r) => .error r
  | some (.ok (e, rest)) => inner.suffixes e rest
termination_by ts.length
decreasing_by exact suffix?_shrinks ‹_›

theorem suffixes_length_le {inner : ExprReader} {e e' : Expr} {ts rest : List Token}
    (h : inner.suffixes e ts = .ok (e', rest)) : rest.length ≤ ts.length := by
  fun_induction suffixes inner e ts with
  | case1 =>
    simp only [Except.ok.injEq, Prod.mk.injEq] at h
    simp [h.2]
  | case2 => simp at h
  | case3 e ts e₁ rest₁ hsuffix ih =>
    have := suffix?_shrinks hsuffix
    have := ih h
    omega

/-- Reads a primary expression with its member accesses and calls. -/
def operand (inner : ExprReader) (ts : List Token) : Reading Expr :=
  match inner.primary ts with
  | .error r => .error r
  | .ok (e, rest) => inner.suffixes e rest

theorem primary_shrinks {inner : ExprReader} {e : Expr} {ts rest : List Token}
    (h : inner.primary ts = .ok (e, rest)) : rest.length < ts.length := by
  unfold primary at h
  split at h
  any_goals
    simp only [Except.ok.injEq, Prod.mk.injEq] at h
    simp [h.2]
  · split at h
    · simp at h
    · rename_i hinner
      have := inner.shrinks hinner
      split at h
      · simp at h
      · rename_i hclose
        have := readClose_shrinks hclose
        have := (admit?_eq_ok h).2
        subst this
        simp only [List.length_cons]
        omega
  · simp at h

theorem operand_shrinks {inner : ExprReader} {e : Expr} {ts rest : List Token}
    (h : inner.operand ts = .ok (e, rest)) : rest.length < ts.length := by
  unfold operand at h
  split at h
  · simp at h
  · rename_i hprimary
    have := primary_shrinks hprimary
    have := suffixes_length_le h
    omega

/-- Reads further operands that are added to `lhs`. -/
def addends (inner : ExprReader) (lhs : Expr) (ts : List Token) : Reading Expr :=
  match ts with
  | ⟨.plus, _⟩ :: rest =>
    match _h : inner.operand (skipNewlines rest) with
    | .error r => .error r
    | .ok (rhs, rest') =>
      match admit? (.binary (lhs.range.cover rhs.range) .plus lhs rhs) rest' with
      | .error r => .error r
      | .ok (e, _) => inner.addends e rest'
  | _ => .ok (lhs, ts)
termination_by ts.length
decreasing_by
  have := operand_shrinks ‹_›
  have := skipNewlines_length_le rest
  simp only [List.length_cons]
  omega

/-- Reads a sum of operands. -/
def sum (inner : ExprReader) (ts : List Token) : Reading Expr :=
  match inner.operand ts with
  | .error r => .error r
  | .ok (e, rest) => inner.addends e rest

theorem addends_length_le {inner : ExprReader} {lhs e : Expr} {ts rest : List Token}
    (h : inner.addends lhs ts = .ok (e, rest)) : rest.length ≤ ts.length := by
  fun_induction addends inner lhs ts with
  | case1 => simp at h
  | case2 => simp at h
  | case3 lhs range rest₀ rhs rest' hoperand e₁ rest₁ hstart ih =>
    have := operand_shrinks hoperand
    have := skipNewlines_length_le rest₀
    have := ih h
    simp only [List.length_cons]
    omega
  | case4 =>
    simp only [Except.ok.injEq, Prod.mk.injEq] at h
    simp [h.2]

theorem sum_shrinks {inner : ExprReader} {e : Expr} {ts rest : List Token}
    (h : inner.sum ts = .ok (e, rest)) : rest.length < ts.length := by
  unfold sum at h
  split at h
  · simp at h
  · rename_i hoperand
    have := operand_shrinks hoperand
    have := addends_length_le h
    omega

/-- What follows the operator `or`. -/
def afterOr? : List Token → Option (List Token)
  | ⟨.name text, _⟩ :: rest => if text = "or" then some rest else none
  | _ => none

theorem afterOr?_length_lt {ts rest : List Token} (h : afterOr? ts = some rest) :
    rest.length < ts.length := by
  unfold afterOr? at h
  split at h
  · split at h <;> simp_all
  · simp at h

/-- Reads further sums that are united with `lhs`. -/
def alternatives (inner : ExprReader) (lhs : Expr) (ts : List Token) : Reading Expr :=
  match _h : afterOr? ts with
  | none => .ok (lhs, ts)
  | some rest =>
    match _h' : inner.sum (skipNewlines rest) with
    | .error r => .error r
    | .ok (rhs, rest') =>
      match admit? (.binary (lhs.range.cover rhs.range) .or lhs rhs) rest' with
      | .error r => .error r
      | .ok (e, _) => inner.alternatives e rest'
termination_by ts.length
decreasing_by
  have := afterOr?_length_lt ‹_›
  have := sum_shrinks ‹_›
  have := skipNewlines_length_le rest
  omega

/-- Reads an expression whose nested expressions are read by `inner`. -/
def expr (inner : ExprReader) (ts : List Token) : Reading Expr :=
  match inner.sum ts with
  | .error r => .error r
  | .ok (e, rest) => inner.alternatives e rest

theorem alternatives_length_le {inner : ExprReader} {lhs e : Expr} {ts rest : List Token}
    (h : inner.alternatives lhs ts = .ok (e, rest)) : rest.length ≤ ts.length := by
  fun_induction alternatives inner lhs ts with
  | case1 =>
    simp only [Except.ok.injEq, Prod.mk.injEq] at h
    simp [h.2]
  | case2 => simp at h
  | case3 => simp at h
  | case4 lhs ts rest₀ hor rhs rest' hsum e₁ rest₁ hstart ih =>
    have := afterOr?_length_lt hor
    have := sum_shrinks hsum
    have := skipNewlines_length_le rest₀
    have := ih h
    omega

theorem expr_shrinks {inner : ExprReader} {e : Expr} {ts rest : List Token}
    (h : inner.expr ts = .ok (e, rest)) : rest.length < ts.length := by
  unfold expr at h
  split at h
  · simp at h
  · rename_i hsum
    have := sum_shrinks hsum
    have := alternatives_length_le h
    omega

/-- The reader of expressions with `levels` levels of nesting left, its own among them. -/
def within : Nat → ExprReader
  | 0 => ⟨fun ts => .error (.nestedTooDeep ts), by simp⟩
  | levels + 1 => ⟨(within levels).expr, expr_shrinks⟩

end ExprReader

/-- Reads an expression that stands on its own. -/
def readExpr (ts : List Token) : Reading Expr := (ExprReader.within maxNesting).run ts

theorem readExpr_shrinks {ts rest : List Token} {e : Expr} (h : readExpr ts = .ok (e, rest)) :
    rest.length < ts.length :=
  (ExprReader.within maxNesting).shrinks h

/-- Reads an equals sign. -/
def readEquals : List Token → Reading Unit
  | ⟨.equals, _⟩ :: rest => .ok ((), rest)
  | ts => .error (.expected .equals ts)

theorem readEquals_shrinks {ts rest : List Token} {u : Unit}
    (h : readEquals ts = .ok (u, rest)) : rest.length < ts.length := by
  unfold readEquals at h
  split at h
  · simp only [Except.ok.injEq, Prod.mk.injEq] at h
    simp [h.2]
  · simp at h

/-- Whether a name in front of a statement makes it a declaration, and then a mutable one. -/
def declares? (text : String) : Option Bool :=
  if text = "val" then some false
  else if text = "var" then some true
  else none

/-- Reads the rest of a declaration, after its first word. -/
def readDeclaration (isMutable : Bool) (ts : List Token) :
    Except Rejection (Statement × List Token) := do
  let (name, ts) ← readIdent ts
  let (_, ts) ← readEquals ts
  let (init, ts) ← readExpr ts
  pure (.declaration isMutable name init, ts)

/-- Reads an expression and makes a statement of it. -/
def readExprAs (statement : Expr → Statement) (ts : List Token) : Reading Statement :=
  match readExpr ts with
  | .error r => .error r
  | .ok (e, rest) => .ok (statement e, rest)

/-- Reads a statement. -/
def readStatement (ts : List Token) : Reading Statement :=
  match ts with
  | ⟨.name text, range⟩ :: rest =>
    match declares? text with
    | some isMutable => readDeclaration isMutable rest
    | none =>
      match rest with
      | ⟨.equals, _⟩ :: rest =>
        readExprAs (.assignment ⟨text, range⟩) rest
      | _ => readExprAs .expression ts
  | _ => readExprAs .expression ts

theorem readExprAs_shrinks {statement : Expr → Statement} {ts rest : List Token} {s : Statement}
    (h : readExprAs statement ts = .ok (s, rest)) : rest.length < ts.length := by
  unfold readExprAs at h
  split at h
  · simp at h
  · rename_i hread
    have := readExpr_shrinks hread
    simp only [Except.ok.injEq, Prod.mk.injEq] at h
    rwa [← h.2]

theorem readDeclaration_shrinks {isMutable : Bool} {ts rest : List Token} {s : Statement}
    (h : readDeclaration isMutable ts = .ok (s, rest)) : rest.length < ts.length := by
  unfold readDeclaration at h
  simp only [bind, Except.bind, pure, Except.pure] at h
  split at h
  · simp at h
  · rename_i hident
    split at h
    · simp at h
    · rename_i hequals
      split at h
      · simp at h
      · rename_i hexpr
        simp only [Except.ok.injEq, Prod.mk.injEq] at h
        rw [← h.2]
        have := readIdent_shrinks hident
        have := readEquals_shrinks hequals
        have := readExpr_shrinks hexpr
        omega

/-- A statement takes at least one token. -/
theorem readStatement_shrinks {ts rest : List Token} {s : Statement}
    (h : readStatement ts = .ok (s, rest)) : rest.length < ts.length := by
  unfold readStatement at h
  split at h
  · split at h
    · have := readDeclaration_shrinks h
      simp only [List.length_cons]
      omega
    · split at h
      · have := readExprAs_shrinks h
        simp only [List.length_cons]
        omega
      · exact readExprAs_shrinks h
  · exact readExprAs_shrinks h

/-- Whether a statement may end in front of these tokens. -/
def endsStatement : List Token → Bool
  | [] => true
  | t :: _ => t.kind == .newline || t.kind == .semicolon

/-- Reads the statements of a script. Those already read are given last first. -/
def readStatements (statements : List Statement) (ts : List Token) :
    Except Rejection (List Statement) :=
  match _hskip : skipSeparators ts with
  | [] => .ok statements.reverse
  | t :: ts' =>
    match _h : readStatement (t :: ts') with
    | .error r => .error r
    | .ok (s, rest) =>
      if endsStatement rest then readStatements (s :: statements) rest
      else .error (.expected .endOfStatement rest)
termination_by ts.length
decreasing_by
  have := readStatement_shrinks ‹_›
  have := skipSeparators_length_le ts
  rw [_hskip] at this
  omega

/-- What stands in front of the remaining tokens. -/
def Found.of (source : List Char) : List Token → Found
  | [] => .endOfInput
  | t :: _ => if t.kind = .newline then .newline else .spelling (Text.slice source t.range)

/-- The fault of a rejection, which is reported at the next token or at the end of the source. -/
def Rejection.fault (source : List Char) (stop : Nat) (rejection : Rejection) : Fault :=
  let offset (ts : List Token) := (ts.head?.map (·.range.start)).getD stop
  match rejection with
  | expected what ts => ⟨.expected what (.of source ts), offset ts⟩
  | nestedTooDeep ts => ⟨.nestedTooDeep, offset ts⟩

end Script

/-- The script that a source text spells. -/
def Script.ofSource (source : List Char) : Except Script.Fault Script :=
  match Script.Tokens.ofSource source with
  | .error fault => .error fault
  | .ok tokens =>
    match Script.readStatements [] tokens.items with
    | .error rejection => .error (rejection.fault source tokens.stop)
    | .ok statements => .ok ⟨statements⟩

end RegexAudit
