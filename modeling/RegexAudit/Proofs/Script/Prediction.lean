import Mathlib.Logic.Relation
import RegexAudit.Proofs.Script.Expansion

/-!
# Where following a name ends

Following an expression leads through parentheses and from names to their initialisers, and never
twice to the same one. It ends at an expression that leads no further, or on a cycle of names at
the one that would be followed again. From there it leads once around the cycle and back.

## Main definitions

* `Scope.Walk`, `Scope.Walk.next?`: the way from an expression, with the names followed so far.
* `Scope.Refers`: a name leads to another one through the parentheses of its initialiser.

## Main statements

* `Scope.exists_leads_predictFrom`: the way ends, and at the expression that is predicted.
* `Scope.reaches_of_predictFrom_eq_name`: the name at which the way ends can be reached.
* `Scope.predictFrom_eq_name_of_le`: from a place on the way it ends at the same name.
* `Scope.predict_stops`: what following an expression ends at, and that it stays there.
-/

namespace RegexAudit

namespace Script

/-- What stands inside the parentheses around an expression. -/
def Expr.stripped : Expr → Expr
  | paren _ inner => inner.stripped
  | e => e

namespace Scope

/-- The expression to which some rounds of following have led, and the names that were followed. -/
structure Walk where
  followed : List String
  reached : Expr

/-- One more round: through a pair of parentheses, or from a name to its initialiser. There is none
at a name that has no initialiser or was followed before, nor at any other expression. -/
def Walk.next? (scope : Scope) (walk : Walk) : Option Walk :=
  match walk.reached with
  | .paren _ inner => some ⟨walk.followed, inner⟩
  | .name _ text =>
    if text ∈ walk.followed then none
    else (scope.binding? text).map fun init => ⟨text :: walk.followed, init⟩
  | _ => none

/-- Some rounds lead from one walk to another. -/
def Walk.Leads (scope : Scope) : Walk → Walk → Prop :=
  Relation.ReflTransGen fun walk further => walk.next? scope = some further

/-- The initialiser of the first name is the second one, in parentheses or not. -/
def Refers (scope : Scope) (name other : String) : Prop :=
  ∃ init range, scope.binding? name = some init ∧ init.stripped = .name range other

variable {scope : Scope} {bindings : List (String × Expr)} {e init : Expr} {range : Span}
  {name text : String}

section Bindings

theorem lookup_without_self (bindings : List (String × Expr)) (name : String) :
    (without bindings name).lookup name = none := by
  by_contra hsome
  obtain ⟨init, hinit⟩ := Option.ne_none_iff_exists'.1 hsome
  have hmem := mem_of_lookup hinit
  simp [without] at hmem

theorem lookup_without_of_ne {dropped : String} (h : name ≠ dropped) :
    (without bindings dropped).lookup name = bindings.lookup name := by
  induction bindings with
  | nil => rfl
  | cons b bs ih =>
    obtain ⟨other, init⟩ := b
    by_cases hother : other = dropped
    · subst hother
      have hwithout : without ((other, init) :: bs) other = without bs other := by simp [without]
      rw [hwithout, ih, List.lookup_cons, beq_false_of_ne h]
    · have hwithout : without ((other, init) :: bs) dropped = (other, init) :: without bs dropped :=
        by simp [without, hother]
      rw [hwithout, List.lookup_cons, List.lookup_cons, ih]

/-- Dropping a binding keeps which of two lists has more of them. -/
theorem lookup_without_of_le {few many : List (String × Expr)} {dropped : String}
    (hle : ∀ name init, few.lookup name = some init → many.lookup name = some init) :
    ∀ name init, (without few dropped).lookup name = some init →
      (without many dropped).lookup name = some init := by
  intro name init hinit
  by_cases hname : name = dropped
  · subst hname
    simp [lookup_without_self] at hinit
  · rw [lookup_without_of_ne hname] at hinit ⊢
    exact hle name init hinit

end Bindings

theorem predictFrom_paren (bindings : List (String × Expr)) (range : Span) (inner : Expr) :
    predictFrom bindings (.paren range inner) = predictFrom bindings inner := by
  rw [predictFrom]

theorem predictFrom_name_of_none (range : Span) (h : bindings.lookup text = none) :
    predictFrom bindings (.name range text) = .name range text := by
  rw [predictFrom]
  split <;> simp_all

/-- The bindings are those of the names that a walk has not followed. -/
def Unfollowed (scope : Scope) (followed : List String) (bindings : List (String × Expr)) : Prop :=
  ∀ name, bindings.lookup name = if name ∈ followed then none else scope.binding? name

theorem unfollowed_bindings (scope : Scope) : scope.Unfollowed [] scope.bindings := by
  intro name
  simp [binding?]

/-- Following a name drops its binding. -/
theorem Unfollowed.follow {followed : List String} (h : scope.Unfollowed followed bindings)
    (name : String) : scope.Unfollowed (name :: followed) (without bindings name) := by
  intro other
  by_cases hother : other = name
  · subst hother
    simp [lookup_without_self]
  · rw [lookup_without_of_ne hother, h other]
    simp [hother]

/-- A walk goes on at a name whose binding is left. -/
theorem Unfollowed.next?_name {followed : List String} (h : scope.Unfollowed followed bindings)
    (range : Span) (text : String) :
    Walk.next? scope ⟨followed, .name range text⟩ =
      (bindings.lookup text).map fun init => ⟨text :: followed, init⟩ := by
  rw [h text, Walk.next?]
  dsimp only
  split <;> simp_all

/-- A walk ends, and it ends at the expression that is predicted with the bindings left to it. -/
theorem exists_leads_predictFrom {followed : List String}
    (h : scope.Unfollowed followed bindings) :
    ∃ followed', Walk.Leads scope ⟨followed, e⟩ ⟨followed', predictFrom bindings e⟩ ∧
      Walk.next? scope ⟨followed', predictFrom bindings e⟩ = none := by
  -- Each round leaves a smaller expression or fewer bindings, and `predictFrom` does the same.
  fun_induction predictFrom bindings e generalizing followed with
  | case1 bindings range inner ih =>
    obtain ⟨followed', hleads, hend⟩ := ih h
    exact ⟨followed', .head rfl hleads, hend⟩
  | case2 bindings range text init hlookup ih =>
    obtain ⟨followed', hleads, hend⟩ := ih (h.follow text)
    refine ⟨followed', .head ?_ hleads, hend⟩
    rw [h.next?_name, hlookup]
    rfl
  | case3 bindings range text hlookup =>
    refine ⟨followed, .refl, ?_⟩
    rw [h.next?_name, hlookup]
    rfl
  | case4 bindings e hparen hname =>
    refine ⟨followed, .refl, ?_⟩
    cases e with
    | paren range inner => exact absurd rfl (hparen range inner)
    | name range text => exact absurd rfl (hname range text)
    | string | integer | binary | dot | call => rfl

theorem predictFrom_ne_paren (bindings : List (String × Expr)) (e : Expr) (range : Span)
    (inner : Expr) : predictFrom bindings e ≠ .paren range inner := by
  fun_induction predictFrom bindings e with
  | case1 _ _ _ ih => exact ih
  | case2 _ _ _ _ _ ih => exact ih
  | case3 => simp
  | case4 _ e hparen _ => exact fun heq => hparen range inner heq

/-- The name at which a walk ends can be reached from the one at which it begins. -/
theorem reaches_of_predictFrom_eq_name
    (hsub : ∀ name init, bindings.lookup name = some init → scope.binding? name = some init)
    (h : predictFrom bindings e = .name range text) :
    ∃ range' first, e.stripped = .name range' first ∧
      Relation.ReflTransGen scope.Refers first text := by
  fun_induction predictFrom bindings e with
  | case1 bindings range' inner ih => exact ih hsub h
  | case2 bindings range' first init hlookup ih =>
    obtain ⟨range'', second, hstripped, hreaches⟩ :=
      ih (fun name init hinit => hsub name init (lookup_without hinit)) h
    exact ⟨range', first, rfl, .head ⟨init, range'', hsub _ _ hlookup, hstripped⟩ hreaches⟩
  | case3 bindings range' first =>
    cases h
    exact ⟨range, text, rfl, .refl⟩
  | case4 bindings e _ hname => exact absurd h (hname range text)

/-- A walk that ends at a name without a binding ends there also when more names can be followed,
as long as that name cannot. -/
theorem predictFrom_eq_name_of_le {few many : List (String × Expr)}
    (hle : ∀ name init, few.lookup name = some init → many.lookup name = some init)
    (hnone : many.lookup text = none) (h : predictFrom few e = .name range text) :
    predictFrom many e = .name range text := by
  fun_induction predictFrom few e generalizing many with
  | case1 few range' inner ih =>
    rw [predictFrom_paren]
    exact ih hle hnone h
  | case2 few range' first init hlookup ih =>
    rw [predictFrom_name range' (hle first init hlookup)]
    refine ih (lookup_without_of_le hle) ?_ h
    by_cases htext : text = first
    · subst htext
      exact lookup_without_self many text
    · rwa [lookup_without_of_ne htext]
  | case3 few range' first =>
    cases h
    exact predictFrom_name_of_none range hnone
  | case4 few e _ hname => exact absurd h (hname range text)

/-- A walk that ends at a name with a binding has come there from the initialiser of this name, with
fewer bindings. -/
theorem exists_predictFrom_init (h : predictFrom bindings e = .name range text)
    (hinit : bindings.lookup text = some init) :
    ∃ left, (∀ name init', left.lookup name = some init' →
        (without bindings text).lookup name = some init') ∧
      predictFrom left init = .name range text := by
  fun_induction predictFrom bindings e with
  | case1 bindings range' inner ih => exact ih h hinit
  | case2 bindings range' first init' hlookup ih =>
    by_cases htext : text = first
    · subst htext
      obtain rfl := Option.some.inj (hinit.symm.trans hlookup)
      exact ⟨_, fun _ _ h' => h', h⟩
    · obtain ⟨left, hleft, hends⟩ := ih h (by rwa [lookup_without_of_ne htext])
      refine ⟨left, fun name init'' h' => ?_, hends⟩
      exact lookup_without_of_le (fun _ _ => lookup_without) name init'' (hleft name init'' h')
  | case3 bindings range' first hlookup =>
    cases h
    simp [hinit] at hlookup
  | case4 bindings e _ hname => exact absurd h (hname range text)

/-- A name with a binding at which a walk ends is on a cycle. -/
theorem refers_cycle_of_predict_eq_name (h : scope.predict e = .name range text)
    (hinit : scope.binding? text = some init) : Relation.TransGen scope.Refers text text := by
  obtain ⟨left, hleft, hends⟩ := exists_predictFrom_init h hinit
  obtain ⟨range', first, hstripped, hreaches⟩ :=
    reaches_of_predictFrom_eq_name (fun name init' h' => lookup_without (hleft name init' h')) hends
  exact .head' ⟨init, range', hinit, hstripped⟩ hreaches

/-- Following the name at which a walk ends leads back to it. -/
theorem predict_name_of_predict_eq_name (h : scope.predict e = .name range text) :
    scope.predict (.name range text) = .name range text := by
  cases hinit : scope.binding? text with
  | none => exact predict_name range hinit
  | some init =>
    obtain ⟨left, hleft, hends⟩ := exists_predictFrom_init h hinit
    rw [predict, predictFrom_name range hinit]
    exact predictFrom_eq_name_of_le hleft (lookup_without_self _ _) hends

/-- Following an expression ends, and at no expression in parentheses. Where it ends at a name, this
name has no initialiser to follow or is on a cycle of names. Following the expression at which it
ends leads to that expression itself. -/
theorem predict_stops (scope : Scope) (e : Expr) :
    (∃ followed, Walk.Leads scope ⟨[], e⟩ ⟨followed, scope.predict e⟩ ∧
      Walk.next? scope ⟨followed, scope.predict e⟩ = none) ∧
    (∀ range inner, scope.predict e ≠ .paren range inner) ∧
    (∀ range text, scope.predict e = .name range text →
      scope.binding? text = none ∨ Relation.TransGen scope.Refers text text) ∧
    scope.predict (scope.predict e) = scope.predict e := by
  refine ⟨exists_leads_predictFrom scope.unfollowed_bindings,
    predictFrom_ne_paren scope.bindings e, ?_, ?_⟩
  · intro range text h
    cases hinit : scope.binding? text with
    | none => exact .inl rfl
    | some init => exact .inr (refers_cycle_of_predict_eq_name h hinit)
  · cases h : scope.predict e with
    | paren range inner => exact absurd h (predictFrom_ne_paren scope.bindings e range inner)
    | name range text => exact predict_name_of_predict_eq_name h
    | string | integer | binary | dot | call => simp

end Scope

namespace Circle

/-- Two names that lead to each other, `val a=(b)` and `val b=a`, behind a name that leads to them,
`val t=(a)`, and a use `t` of that name. -/
def source : List Char :=
  ['v', 'a', 'l', ' ', 't', '=', '(', 'a', ')', '\n', 'v', 'a', 'l', ' ', 'a', '=', '(', 'b', ')',
    '\n', 'v', 'a', 'l', ' ', 'b', '=', 'a', '\n', 't']

/-- The script of the source. -/
def script : Script :=
  ⟨[.declaration false ⟨"t", ⟨4, 5⟩⟩ (.paren ⟨6, 9⟩ (.name ⟨7, 8⟩ "a")),
    .declaration false ⟨"a", ⟨14, 15⟩⟩ (.paren ⟨16, 19⟩ (.name ⟨17, 18⟩ "b")),
    .declaration false ⟨"b", ⟨24, 25⟩⟩ (.name ⟨26, 27⟩ "a"),
    .expression (.name ⟨28, 29⟩ "t")]⟩

theorem ofSource_source : Script.ofSource source = .ok script := by
  with_unfolding_all rfl

/-- The name is left where it would be followed a second time, in the initialiser of the other. -/
theorem predict_t : (Scope.ofScript script).predict (.name ⟨28, 29⟩ "t") = .name ⟨26, 27⟩ "a" := by
  rw [Scope.predict, Scope.predictFrom_name _ rfl, Scope.predictFrom_paren,
    Scope.predictFrom_name _ rfl, Scope.predictFrom_paren, Scope.predictFrom_name _ rfl,
    Scope.predictFrom_name_of_none _ rfl]

end Circle

/-- Following the use ends on the cycle behind it, and following the name found there ends at the
same place. -/
theorem Scope.predict_stops_circle :
    Script.ofSource Circle.source = .ok Circle.script ∧
    (Scope.ofScript Circle.script).predict (.name ⟨28, 29⟩ "t") = .name ⟨26, 27⟩ "a" ∧
    Relation.TransGen (Scope.ofScript Circle.script).Refers "a" "a" ∧
    (Scope.ofScript Circle.script).predict (.name ⟨26, 27⟩ "a") = .name ⟨26, 27⟩ "a" := by
  obtain ⟨-, -, hname, hagain⟩ :=
    Scope.predict_stops (.ofScript Circle.script) (.name ⟨28, 29⟩ "t")
  rw [Circle.predict_t] at hagain
  have hcycle := (hname _ _ Circle.predict_t).resolve_left nofun
  exact ⟨Circle.ofSource_source, Circle.predict_t, hcycle, hagain⟩

end Script

end RegexAudit
