import Mathlib.Data.List.Basic
import RegexAudit.Proofs.Script.Provenance

/-!
# The nodes of an expression

An expression is made up of itself and the nodes of its direct children. What is said of all nodes
is proved by going from an expression to its children, whatever kind of node it is.

## Main definitions

* `Expr.children`: the direct children of an expression.
* `Expr.preorder`, `Script.preorder`: all nodes, each in front of its children.

## Main statements

* `Expr.children_induction`: induction from the children of an expression to the expression.
* `Expr.occurs_iff`: the nodes of an expression are itself and those of its children.
* `Expr.mem_preorder_iff`: all of them are listed.
* `Expr.calls_eq_filterMap`: the calls of an expression are the calls among its nodes.
-/

namespace RegexAudit

namespace Script

namespace Expr

/-- The direct children of an expression, from left to right. -/
def children : Expr → List Expr
  | string .. | integer .. | name .. => []
  | binary _ _ lhs rhs => [lhs, rhs]
  | dot _ receiver _ => [receiver]
  | call _ callee args => callee :: args
  | paren _ inner => [inner]

/-- The nodes of an expression, each in front of those of its children. -/
def preorder (e : Expr) : List Expr := (e.nodes 0).map (·.2)

variable {c e f : Expr}

theorem sizeOf_lt_of_mem_children (h : c ∈ e.children) : sizeOf c < sizeOf e := by
  cases e with
  | string | integer | name => simp [children] at h
  | binary _ _ lhs rhs =>
    rcases (by simpa [children] using h : c = lhs ∨ c = rhs) with rfl | rfl
    · simp only [binary.sizeOf_spec]
      omega
    · simp only [binary.sizeOf_spec]
      omega
  | dot _ receiver _ =>
    obtain rfl := List.mem_singleton.1 h
    simp only [dot.sizeOf_spec]
    omega
  | call _ callee args =>
    rcases List.mem_cons.1 h with rfl | h
    · simp only [call.sizeOf_spec]
      omega
    · have := List.sizeOf_lt_of_mem h
      simp only [call.sizeOf_spec]
      omega
  | paren _ inner =>
    obtain rfl := List.mem_singleton.1 h
    simp only [paren.sizeOf_spec]
    omega

/-- What holds of an expression if it holds of its children holds of every expression. -/
theorem children_induction {motive : Expr → Prop}
    (step : ∀ e : Expr, (∀ c ∈ e.children, motive c) → motive e) (e : Expr) : motive e :=
  step e fun c _ => children_induction step c
termination_by sizeOf e
decreasing_by exact sizeOf_lt_of_mem_children ‹_›

/-- The nodes of an expression are itself and the nodes of its children. -/
theorem occurs_iff : f.Occurs e ↔ f = e ∨ ∃ c ∈ e.children, f.Occurs c := by
  constructor
  · intro h
    cases h with
    | refl => exact .inl rfl
    | lhs h | receiver h | callee h | inner h => exact .inr ⟨_, List.mem_cons_self, h⟩
    | rhs h => exact .inr ⟨_, List.mem_cons_of_mem _ List.mem_cons_self, h⟩
    | arg hmem h => exact .inr ⟨_, List.mem_cons_of_mem _ hmem, h⟩
  · rintro (rfl | ⟨c, hc, h⟩)
    · exact .refl _
    · cases e with
      | string | integer | name => simp [children] at hc
      | binary _ _ lhs rhs =>
        rcases (by simpa [children] using hc : c = lhs ∨ c = rhs) with rfl | rfl
        · exact .lhs h
        · exact .rhs h
      | dot =>
        obtain rfl := List.mem_singleton.1 hc
        exact .receiver h
      | call =>
        rcases List.mem_cons.1 hc with rfl | hc
        · exact .callee h
        · exact .arg hc h
      | paren =>
        obtain rfl := List.mem_singleton.1 hc
        exact .inner h

section Traversals

theorem nodesAll_eq (level : Nat) (es : List Expr) :
    nodesAll level es = es.flatMap (nodes level) := by
  induction es with
  | nil => rfl
  | cons e es ih => rw [nodesAll, ih, List.flatMap_cons]

theorem nodes_eq (level : Nat) (e : Expr) :
    e.nodes level = (level, e) :: e.children.flatMap (nodes (level + 1)) := by
  cases e <;> simp [nodes, nodesAll_eq, children]

theorem callsAll_eq (es : List Expr) : callsAll es = es.flatMap calls := by
  induction es with
  | nil => rfl
  | cons e es ih => rw [callsAll, ih, List.flatMap_cons]

theorem calls_eq (e : Expr) : e.calls = e.asCall?.toList ++ e.children.flatMap calls := by
  cases e <;> simp [calls, callsAll_eq, children, asCall?]

/-- The level of the root makes no difference to which nodes there are. -/
theorem map_nodes (level : Nat) (e : Expr) : (e.nodes level).map (·.2) = e.preorder := by
  rw [preorder]
  induction e using children_induction generalizing level with
  | step e ih =>
    rw [nodes_eq, nodes_eq 0, List.map_cons, List.map_cons, List.map_flatMap, List.map_flatMap]
    congr 1
    refine List.flatMap_congr fun c hc => ?_
    rw [ih c hc, ih c hc 1]

theorem preorder_eq (e : Expr) : e.preorder = e :: e.children.flatMap preorder := by
  rw [preorder, nodes_eq, List.map_cons, List.map_flatMap]
  congr 1
  exact List.flatMap_congr fun c _ => map_nodes 1 c

/-- All nodes of an expression are listed. -/
theorem mem_preorder_iff : f ∈ e.preorder ↔ f.Occurs e := by
  induction e using children_induction with
  | step e ih =>
    rw [preorder_eq, List.mem_cons, List.mem_flatMap, occurs_iff]
    exact or_congr_right (exists_congr fun c => and_congr_right fun hc => ih c hc)

/-- The calls of an expression are the calls among its nodes, in the same order. -/
theorem calls_eq_filterMap (e : Expr) : e.calls = e.preorder.filterMap asCall? := by
  induction e using children_induction with
  | step e ih =>
    have hself : [e].filterMap asCall? = e.asCall?.toList := by cases e <;> rfl
    rw [calls_eq, preorder_eq, ← List.singleton_append, List.filterMap_append, hself,
      List.filterMap_flatMap, List.flatMap_congr ih]

end Traversals

end Expr

end Script

/-- The nodes of a script, statement by statement. -/
def Script.preorder (script : Script) : List Script.Expr :=
  script.statements.flatMap fun statement => statement.expr.preorder

theorem Script.mem_preorder_iff {script : Script} {e : Script.Expr} :
    e ∈ script.preorder ↔ ∃ s ∈ script.statements, e.Occurs s.expr := by
  simp only [preorder, List.mem_flatMap, Script.Expr.mem_preorder_iff]

theorem Script.calls_eq_filterMap (script : Script) :
    script.calls = script.preorder.filterMap Script.Expr.asCall? := by
  rw [calls, preorder, List.filterMap_flatMap]
  exact List.flatMap_congr fun s _ => Script.Expr.calls_eq_filterMap s.expr

end RegexAudit
