import RegexAudit.Script.Expr

/-!
# Following names to their values

A name can be followed to an expression when the script declares it exactly
once and never assigns to it.

## Main definitions

* `Scope.ofScript`: the names that can be followed, with their initialisers.
* `Scope.predict`: follows parentheses and names as far as they lead.

## Design notes

A name is followed at most once on one way. `predictFrom` therefore drops a
binding when it follows it, which also bounds the recursion: either a binding
is used up or the expression gets smaller.
-/

namespace RegexAudit

namespace Script

/-- The names that can be followed, each with its initialiser. -/
structure Scope where
  bindings : List (String × Expr)

namespace Statement

/-- The name that a statement declares, with its initialiser. -/
def declared? : Statement → Option (String × Expr)
  | declaration _ name init => some (name.text, init)
  | _ => none

/-- The name that a statement assigns to. -/
def assigned? : Statement → Option String
  | assignment name _ => some name.text
  | _ => none

end Statement

namespace Scope

/-- The scope of some statements: the names declared once and never assigned to. -/
def ofStatements (statements : List Statement) : Scope :=
  let declarations := statements.filterMap Statement.declared?
  let assigned := statements.filterMap Statement.assigned?
  ⟨declarations.filter fun (name, _) =>
    (declarations.countP fun (other, _) => other == name) == 1 && !assigned.contains name⟩

/-- The scope of a script. -/
def ofScript (script : Script) : Scope := ofStatements script.statements

/-- The initialiser that a name can be followed to. -/
def binding? (scope : Scope) (name : String) : Option Expr := scope.bindings.lookup name

/-- A look-up that succeeds finds a pair of the list. -/
theorem mem_of_lookup {bindings : List (String × Expr)} {name : String} {init : Expr}
    (h : bindings.lookup name = some init) : (name, init) ∈ bindings := by
  induction bindings with
  | nil => simp at h
  | cons b bs ih =>
    obtain ⟨n, e⟩ := b
    rw [List.lookup_cons] at h
    split at h
    · simp_all
    · exact List.mem_cons_of_mem _ (ih h)

/-- Drops the bindings of a name. -/
def without (bindings : List (String × Expr)) (name : String) : List (String × Expr) :=
  bindings.filter fun (other, _) => other != name

theorem without_length_lt {bindings : List (String × Expr)} {name : String} {init : Expr}
    (h : bindings.lookup name = some init) :
    (without bindings name).length < bindings.length := by
  have hmem := mem_of_lookup h
  apply Nat.lt_of_le_of_ne (List.length_filter_le _ _)
  intro heq
  have := List.length_filter_eq_length_iff.1 heq _ hmem
  simp at this

/-- Follows an expression with the bindings that are left, each name at most once. -/
def predictFrom (bindings : List (String × Expr)) : Expr → Expr
  | .paren _ inner => predictFrom bindings inner
  | .name range text =>
    match _h : bindings.lookup text with
    | some init => predictFrom (without bindings text) init
    | none => .name range text
  | e => e
termination_by e => (bindings.length, sizeOf e)
decreasing_by
  · apply Prod.Lex.right
    simp only [Expr.paren.sizeOf_spec]
    omega
  · exact Prod.Lex.left _ _ (without_length_lt ‹_›)

/-- The expression that an expression leads to, through parentheses and names. -/
def predict (scope : Scope) (e : Expr) : Expr := predictFrom scope.bindings e

end Scope

end Script

end RegexAudit
