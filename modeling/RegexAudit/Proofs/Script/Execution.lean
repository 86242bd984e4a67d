import RegexAudit.Proofs.Script.Expansion

/-!
# Patterns are never guessed

Executing a script gives its names values, statement by statement. Flattening looks at no order of
statements: it follows a name to its only initialiser. This is sound at every place of the script,
because a name that is declared once and never assigned to keeps its first value.

## Main definitions

* `Value`, `Environment`: what expressions and names stand for while a script is executed.
* `Expr.eval?`, `Statement.exec`: the execution.
* `Environment.Settled`: the names that can be followed have the value of their initialisers.

## Main statements

* `Environment.Settled.eval`: an expression evaluates to the text of the literals it expands to.
* `Environment.Settled.exec`: one statement keeps an environment settled.
* `Environment.settled_after`: every environment that execution reaches is settled.
* `Scope.eval_eq_pattern`: a flattened expression has no other value than its pattern.
-/

namespace RegexAudit

namespace Script

/-- What an expression evaluates to. -/
inductive Value where
  | text (chars : List Char)
  /-- Anything that is not a string, or not known to be one. -/
  | other
deriving DecidableEq, Repr

/-- The sum of two values: texts are concatenated. -/
def Value.add : Value → Value → Value
  | .text s, .text t => .text (s ++ t)
  | _, _ => .other

/-- The values of the names that are defined. -/
def Environment : Type := String → Option Value

namespace Environment

/-- The environment before the first statement. -/
def empty : Environment := fun _ => none

/-- Binds a name anew. An undefined right side leaves the name undefined. -/
def set (env : Environment) (name : String) (value : Option Value) : Environment :=
  fun other => if other = name then value else env other

end Environment

/-- The value of an expression, if it is defined. -/
def Expr.eval? (env : Environment) : Expr → Option Value
  | .string _ l => some ((l.values?.map Value.text).getD .other)
  | .name _ text => env text
  | .paren _ inner => inner.eval? env
  | .binary _ .plus lhs rhs => do
    let left ← lhs.eval? env
    let right ← rhs.eval? env
    pure (left.add right)
  | _ => some .other

/-- The environment after a statement. -/
def Statement.exec (env : Environment) : Statement → Environment
  | .declaration _ name init => env.set name.text (init.eval? env)
  | .assignment name value => env.set name.text (value.eval? env)
  | .expression _ => env

/-- The environment after some statements in order. -/
def Environment.after (statements : List Statement) : Environment :=
  statements.foldl Statement.exec .empty

/-- Whatever value a name that can be followed has, it is the text that its initialiser expands
to. -/
def Environment.Settled (scope : Scope) (env : Environment) : Prop :=
  ∀ name init literals value, scope.binding? name = some init → scope.Expands init literals →
    env name = some value → value = .text (textOf literals)

namespace Environment

variable {scope : Scope} {env : Environment}

theorem settled_empty (scope : Scope) : Settled scope empty := by
  intro name init literals value _ _ hvalue
  simp [empty] at hvalue

/-- An expression evaluates to the text of the literals that it expands to. -/
theorem Settled.eval (h : Settled scope env) {e : Expr} {literals : List StringLiteral}
    {value : Value} (he : scope.Expands e literals) (hvalue : e.eval? env = some value) :
    value = .text (textOf literals) := by
  induction he generalizing value with
  | string hfree =>
    rw [Expr.eval?, hfree.values?] at hvalue
    rw [← Option.some.inj hvalue]
    simp [textOf]
  | paren _ ih =>
    rw [Expr.eval?] at hvalue
    exact ih hvalue
  | name hbinding hinit _ =>
    -- The name has its value from an earlier environment, so the invariant is needed here.
    rw [Expr.eval?] at hvalue
    exact h _ _ _ _ hbinding hinit hvalue
  | plus _ _ ihl ihr =>
    rw [Expr.eval?] at hvalue
    obtain ⟨left, hleft, hvalue⟩ := Option.bind_eq_some_iff.1 hvalue
    obtain ⟨right, hright, hvalue⟩ := Option.bind_eq_some_iff.1 hvalue
    rw [← Option.some.inj hvalue, ihl hleft, ihr hright, textOf_append]
    rfl

/-- One statement of the script keeps the environment settled. -/
theorem Settled.exec {statements : List Statement} {s : Statement}
    (h : Settled (.ofStatements statements) env) (hs : s ∈ statements) :
    Settled (.ofStatements statements) (s.exec env) := by
  intro name init literals value hbinding hinit hvalue
  have hsettles := Scope.settles_of_binding? hbinding
  cases s with
  | declaration isMutable ident init' =>
    by_cases hname : name = ident.text
    · -- This is the only declaration of the name, so the name gets the value of its initialiser.
      subst hname
      obtain rfl := hsettles.once _ hs init' rfl
      have heval : init'.eval? env = some value := by
        simpa [Statement.exec, Environment.set] using hvalue
      exact h.eval hinit heval
    · refine h name init literals value hbinding hinit ?_
      simpa [Statement.exec, Environment.set, hname] using hvalue
  | assignment ident e =>
    have hname : name ≠ ident.text := by
      rintro rfl
      exact hsettles.unassigned _ hs rfl
    refine h name init literals value hbinding hinit ?_
    simpa [Statement.exec, Environment.set, hname] using hvalue
  | expression e => exact h name init literals value hbinding hinit hvalue

/-- Every environment that execution reaches is settled. -/
theorem settled_after {statements before : List Statement}
    (hbefore : ∀ s ∈ before, s ∈ statements) :
    Settled (.ofStatements statements) (after before) := by
  -- The invariant is carried from one environment to the next, so the start is left open.
  have hrun : ∀ env, Settled (.ofStatements statements) env →
      Settled (.ofStatements statements) (before.foldl Statement.exec env) := by
    induction before with
    | nil => exact fun env henv => henv
    | cons s rest ih =>
      obtain ⟨hs, hrest⟩ := List.forall_mem_cons.1 hbefore
      intro env henv
      exact ih hrest (s.exec env) (henv.exec hs)
  exact hrun empty (settled_empty _)

end Environment

/-- At every statement of a script, an expression in it that is flattened has the pattern of its
fragments as value, if it has a value at all. -/
theorem Scope.eval_eq_pattern {source : List Char} {script : Script}
    (hscript : Script.ofSource source = .ok script) {before after : List Statement} {s : Statement}
    (hstatements : script.statements = before ++ s :: after) {e : Expr} (he : e.Occurs s.expr)
    {fragments : List Fragment} (hflatten : (Scope.ofScript script).flatten? e = some fragments)
    {value : Value} (hvalue : e.eval? (Environment.after before) = some value) :
    value = .text (PatternSource.ofFragments fragments).pattern := by
  obtain ⟨tokens, htokens, hread⟩ := readFrom_of_mem hscript
  obtain ⟨literals, hexpands, rfl⟩ := Scope.expands_of_flatten? hflatten
  have hliterals := hexpands.hasLiteral (fun name init h => Scope.readFrom_of_binding? hread h)
    ((hread s (by simp [hstatements])).of_occurs he)
  have hsettled : Environment.Settled (.ofScript script) (.after before) :=
    Environment.settled_after (by simp +contextual [hstatements])
  rw [PatternSource.pattern_fragmentsOf htokens hliterals]
  exact hsettled.eval hexpands hvalue

namespace Chain

/-- Two declarations, `val p="a"` and `val q=(p)`, and a call `f(q+"b")`. -/
def source : List Char :=
  ['v', 'a', 'l', ' ', 'p', '=', '"', 'a', '"', '\n', 'v', 'a', 'l', ' ', 'q', '=', '(', 'p', ')',
    '\n', 'f', '(', 'q', '+', '"', 'b', '"', ')']

/-- The statements before the call. -/
def declarations : List Statement :=
  [.declaration false ⟨"p", ⟨4, 5⟩⟩ (.string ⟨6, 9⟩ ⟨false, [⟨.literal, ['a'], ⟨7, 8⟩⟩]⟩),
    .declaration false ⟨"q", ⟨14, 15⟩⟩ (.paren ⟨16, 19⟩ (.name ⟨17, 18⟩ "p"))]

/-- The argument of the call. -/
def argument : Expr :=
  .binary ⟨22, 27⟩ .plus (.name ⟨22, 23⟩ "q")
    (.string ⟨24, 27⟩ ⟨false, [⟨.literal, ['b'], ⟨25, 26⟩⟩]⟩)

/-- The statement with the call. -/
def call : Statement := .expression (.call ⟨20, 28⟩ (.name ⟨20, 21⟩ "f") [argument])

/-- Both names can be followed. -/
def scope : Scope := .ofScript ⟨declarations ++ [call]⟩

theorem ofSource_source : Script.ofSource source = .ok ⟨declarations ++ [call]⟩ := by
  with_unfolding_all rfl

theorem predict_q : scope.predict (.name ⟨22, 23⟩ "q") =
    .string ⟨6, 9⟩ ⟨false, [⟨.literal, ['a'], ⟨7, 8⟩⟩]⟩ := by
  rw [Scope.predict, Scope.predictFrom_name _ rfl, Scope.predictFrom, Scope.predictFrom_name _ rfl,
    Scope.predictFrom]
  all_goals simp

theorem flatten?_argument : scope.flatten? argument =
    some [⟨['a'], ⟨7, 8⟩, false⟩, ⟨['b'], ⟨25, 26⟩, false⟩] := by
  rw [Scope.flatten?, maxConcatNodes, argument,
    Scope.flattenFrom_plus (by decide) (Scope.predict_binary ..),
    Scope.flattenFrom_string (by decide) predict_q rfl,
    Scope.flattenFrom_string (by decide) (Scope.predict_string ..) rfl]
  rfl

end Chain

/-- The argument of the call is flattened through both names, and its value is the pattern. -/
theorem Scope.eval_eq_pattern_chain :
    ∃ fragments, Chain.scope.flatten? Chain.argument = some fragments ∧
      Value.text ['a', 'b'] = .text (PatternSource.ofFragments fragments).pattern := by
  refine ⟨_, Chain.flatten?_argument, ?_⟩
  refine Scope.eval_eq_pattern Chain.ofSource_source rfl ?_ Chain.flatten?_argument rfl
  exact .arg (List.mem_singleton.2 rfl) (.refl _)

end Script

end RegexAudit
