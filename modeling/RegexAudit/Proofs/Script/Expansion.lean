import RegexAudit.Dispatch
import RegexAudit.Proofs.Pattern.Origin
import RegexAudit.Proofs.Script.Provenance

/-!
# What a pattern expression expands to

An expression expands to literals when following names and parentheses and taking apart sums leads
to literals without templates. Whatever fragments an expression is flattened to are those of the
literals that it expands to, and these are literals of the source.

## Main definitions

* `Scope.Expands`: an expression expands to some literals.
* `Scope.ExpandsAll`: so do some expressions, one after the other.
* `Scope.Settles`: a name has one declaration and no assignment.

## Main statements

* `Scope.Expands.of_predict`: following an expression keeps what it expands to.
* `Scope.expands_of_flatten?`: flattening an expression yields the fragments of its literals.
* `Scope.settles_of_binding?`: a name that can be followed is declared once and never assigned to.
* `Scope.Expands.hasLiteral`: the literals are those of the source.
-/

namespace RegexAudit

namespace Script

namespace Scope

variable {scope : Scope}

/-- The expression leads through names, parentheses and sums to the literals, from left to
right. -/
inductive Expands (scope : Scope) : Expr → List StringLiteral → Prop
  | string {range : Span} {l : StringLiteral} :
      l.IsTemplateFree → Expands scope (.string range l) [l]
  | paren {range : Span} {inner : Expr} {literals : List StringLiteral} :
      Expands scope inner literals → Expands scope (.paren range inner) literals
  | name {range : Span} {text : String} {init : Expr} {literals : List StringLiteral} :
      scope.binding? text = some init → Expands scope init literals →
        Expands scope (.name range text) literals
  | plus {range : Span} {lhs rhs : Expr} {left right : List StringLiteral} :
      Expands scope lhs left → Expands scope rhs right →
        Expands scope (.binary range .plus lhs rhs) (left ++ right)

/-- The expressions lead one after the other to the literals. -/
inductive ExpandsAll (scope : Scope) : List Expr → List StringLiteral → Prop
  | nil : ExpandsAll scope [] []
  | cons {e : Expr} {es : List Expr} {literals more : List StringLiteral} :
      Expands scope e literals → ExpandsAll scope es more →
        ExpandsAll scope (e :: es) (literals ++ more)

theorem lookup_without {bindings : List (String × Expr)} {dropped name : String} {init : Expr}
    (h : (without bindings dropped).lookup name = some init) :
    bindings.lookup name = some init := by
  induction bindings with
  | nil => simp [without] at h
  | cons b bs ih =>
    obtain ⟨other, e⟩ := b
    by_cases hdropped : other = dropped
    · -- A dropped name cannot be found any more, so the name is another one.
      subst hdropped
      have hwithout : without ((other, e) :: bs) other = without bs other := by simp [without]
      have hne : name ≠ other := by
        rintro rfl
        have hmem := mem_of_lookup h
        simp [without] at hmem
      rw [hwithout] at h
      rw [List.lookup_cons, beq_false_of_ne hne]
      exact ih h
    · have hwithout : without ((other, e) :: bs) dropped = (other, e) :: without bs dropped := by
        simp [without, hdropped]
      rw [hwithout, List.lookup_cons] at h
      rw [List.lookup_cons]
      split
      · next heq => rwa [heq] at h
      · next hne =>
        rw [hne] at h
        exact ih h

@[simp] theorem predict_string (scope : Scope) (range : Span) (l : StringLiteral) :
    scope.predict (.string range l) = .string range l := by
  rw [predict, predictFrom]
  all_goals simp

@[simp] theorem predict_binary (scope : Scope) (range : Span) (op : Operator) (lhs rhs : Expr) :
    scope.predict (.binary range op lhs rhs) = .binary range op lhs rhs := by
  rw [predict, predictFrom]
  all_goals simp

@[simp] theorem predict_integer (scope : Scope) (range : Span) (value : Nat) :
    scope.predict (.integer range value) = .integer range value := by
  rw [predict, predictFrom]
  all_goals simp

@[simp] theorem predict_dot (scope : Scope) (range : Span) (receiver : Expr) (member : Ident) :
    scope.predict (.dot range receiver member) = .dot range receiver member := by
  rw [predict, predictFrom]
  all_goals simp

@[simp] theorem predict_call (scope : Scope) (range : Span) (callee : Expr) (args : List Expr) :
    scope.predict (.call range callee args) = .call range callee args := by
  rw [predict, predictFrom]
  all_goals simp

/-- A name without a binding is not followed. -/
theorem predict_name {scope : Scope} {text : String} (range : Span)
    (h : scope.binding? text = none) : scope.predict (.name range text) = .name range text := by
  have hlookup : scope.bindings.lookup text = none := h
  rw [predict, predictFrom]
  split <;> simp_all

/-- A name that has a binding is followed to its initialiser, and not a second time. -/
theorem predictFrom_name {bindings : List (String × Expr)} {text : String} {init : Expr}
    (range : Span) (h : bindings.lookup text = some init) :
    predictFrom bindings (.name range text) = predictFrom (without bindings text) init := by
  rw [predictFrom]
  split
  · next init' h' =>
    rw [h] at h'
    rw [Option.some.inj h']
  · next h' => simp [h] at h'

/-- Following an expression with some of the bindings keeps what it expands to. -/
theorem Expands.of_predictFrom {bindings : List (String × Expr)} {e : Expr}
    {literals : List StringLiteral}
    (hsub : ∀ name init, bindings.lookup name = some init → scope.binding? name = some init)
    (h : scope.Expands (predictFrom bindings e) literals) : scope.Expands e literals := by
  fun_induction predictFrom bindings e with
  | case1 bindings range inner ih => exact .paren (ih hsub h)
  | case2 bindings range text init hlookup ih =>
    -- The bindings that are left still agree with those of the scope.
    have hless : ∀ name init', (without bindings text).lookup name = some init' →
        scope.binding? name = some init' := fun name init' h' => hsub name init' (lookup_without h')
    exact .name (hsub text init hlookup) (ih hless h)
  | case3 => exact h
  | case4 => exact h

/-- Following an expression keeps what it expands to. -/
theorem Expands.of_predict {e : Expr} {literals : List StringLiteral}
    (h : scope.Expands (scope.predict e) literals) : scope.Expands e literals :=
  of_predictFrom (fun _ _ h => h) h

section Steps

variable {found : List (List Fragment)} {budget depth : Nat} {e : Expr} {stack : List (Expr × Nat)}
  {range : Span}

/-- An expression that leads to a literal yields its fragments. -/
theorem flattenFrom_string {l : StringLiteral} {fragments : List Fragment}
    (hdepth : depth ≤ maxConcatDepth) (he : scope.predict e = .string range l)
    (hl : l.fragments? = some fragments) :
    scope.flattenFrom found (budget + 1) ((e, depth) :: stack) =
      scope.flattenFrom (fragments :: found) budget stack := by
  rw [flattenFrom, if_neg (Nat.not_lt.2 hdepth), he]
  simp only [hl]

/-- An expression that leads to a sum is taken apart. -/
theorem flattenFrom_plus {lhs rhs : Expr} (hdepth : depth ≤ maxConcatDepth)
    (he : scope.predict e = .binary range .plus lhs rhs) :
    scope.flattenFrom found (budget + 1) ((e, depth) :: stack) =
      scope.flattenFrom found budget ((lhs, depth + 1) :: (rhs, depth + 1) :: stack) := by
  rw [flattenFrom, if_neg (Nat.not_lt.2 hdepth), he]

end Steps

/-- Flattening the expressions on a stack yields the fragments found and then those of the literals
to which the expressions lead. -/
theorem expands_of_flattenFrom {found : List (List Fragment)} {budget : Nat}
    {stack : List (Expr × Nat)} {fragments : List Fragment}
    (h : scope.flattenFrom found budget stack = some fragments) :
    ∃ literals, scope.ExpandsAll (stack.map (·.1)) literals ∧
      fragments = found.reverse.flatten ++ fragmentsOf literals := by
  fun_induction Scope.flattenFrom scope found budget stack with
  | case1 found budget =>
    rw [← Option.some.inj h]
    exact ⟨[], .nil, by simp⟩
  | case2 => simp at h
  | case3 => simp at h
  | case4 => simp at h
  | case5 found budget e depth stack hdepth range l hpredict fs hfs ih =>
    obtain ⟨more, hmore, rfl⟩ := ih h
    obtain ⟨hfree, rfl⟩ := StringLiteral.fragments?_eq_some.1 hfs
    have he : scope.Expands e [l] := by
      refine Expands.of_predict ?_
      rw [hpredict]
      exact .string hfree
    refine ⟨_, .cons he hmore, ?_⟩
    rw [fragmentsOf_append, List.reverse_cons, List.flatten_append, List.append_assoc]
    simp [fragmentsOf]
  | case6 found budget e depth stack hdepth range lhs rhs hpredict ih =>
    -- The operands were put on the stack, where they expanded one after the other.
    obtain ⟨all, hall, rfl⟩ := ih h
    obtain _ | ⟨hlhs, hrest⟩ := hall
    obtain _ | ⟨hrhs, hmore⟩ := hrest
    refine ⟨_, .cons (Expands.of_predict ?_) hmore, by rw [List.append_assoc]⟩
    rw [hpredict]
    exact .plus hlhs hrhs
  | case7 => simp at h

/-- Flattening an expression yields the fragments of the literals that it expands to. -/
theorem expands_of_flatten? {e : Expr} {fragments : List Fragment}
    (h : scope.flatten? e = some fragments) :
    ∃ literals, scope.Expands e literals ∧ fragments = fragmentsOf literals := by
  obtain ⟨literals, hall, rfl⟩ := expands_of_flattenFrom h
  obtain _ | ⟨he, hnil⟩ := hall
  cases hnil
  exact ⟨_, he, by simp⟩

/-- The statements of a scope declare a name that can be followed exactly once, and never assign to
it. -/
structure Settles (statements : List Statement) (name : String) (init : Expr) : Prop where
  declared : ∃ s ∈ statements, s.declared? = some (name, init)
  once : ∀ s ∈ statements, ∀ init', s.declared? = some (name, init') → init' = init
  unassigned : ∀ s ∈ statements, s.assigned? ≠ some name

/-- A name can only be followed if the statements settle it. -/
theorem settles_of_binding? {statements : List Statement} {name : String} {init : Expr}
    (h : (ofStatements statements).binding? name = some init) : Settles statements name init := by
  have hmem := mem_of_lookup h
  simp only [ofStatements, List.mem_filter, Bool.and_eq_true, beq_iff_eq, Bool.not_eq_true',
    List.contains_eq_mem, decide_eq_false_iff_not] at hmem
  obtain ⟨hdeclared, hcount, hassigned⟩ := hmem
  rw [List.countP_eq_length_filter, List.length_eq_one_iff] at hcount
  obtain ⟨only, honly⟩ := hcount
  have hunique : ∀ b ∈ statements.filterMap Statement.declared?, b.1 = name → b = only := by
    intro b hb hname
    have hfilter : b ∈ (statements.filterMap Statement.declared?).filter fun b => b.1 == name :=
      List.mem_filter.2 ⟨hb, by simpa using hname⟩
    rw [honly] at hfilter
    exact List.mem_singleton.1 hfilter
  refine ⟨List.mem_filterMap.1 hdeclared, ?_, ?_⟩
  · intro s hs init' hs'
    have hother := hunique (name, init') (List.mem_filterMap.2 ⟨s, hs, hs'⟩) rfl
    have hself := hunique (name, init) hdeclared rfl
    exact congrArg Prod.snd (hother.trans hself.symm)
  · intro s hs hname
    exact hassigned (List.mem_filterMap.2 ⟨s, hs, hname⟩)

variable {tokens : Tokens}

/-- The literals that an expression expands to are literals of the source when the expression and
all initialisers were read from it. -/
theorem Expands.hasLiteral {e : Expr} {literals : List StringLiteral}
    (hbindings : ∀ name init, scope.binding? name = some init → init.ReadFrom tokens.items)
    (h : scope.Expands e literals) (he : e.ReadFrom tokens.items) :
    ∀ l ∈ literals, tokens.HasLiteral l ∧ l.IsTemplateFree := by
  induction h with
  | @string range l hfree =>
    intro l' hl'
    rw [List.mem_singleton.1 hl']
    exact ⟨⟨range, he range l (.refl _)⟩, hfree⟩
  | paren _ ih => exact ih (he.of_occurs (.inner (.refl _)))
  | name hbinding _ ih => exact ih (hbindings _ _ hbinding)
  | plus _ _ ihl ihr =>
    intro l hl
    rcases List.mem_append.1 hl with hl | hl
    · exact ihl (he.of_occurs (.lhs (.refl _))) l hl
    · exact ihr (he.of_occurs (.rhs (.refl _))) l hl

/-- The initialisers that names of a script can be followed to are read from its source. -/
theorem readFrom_of_binding? {script : Script}
    (hscript : ∀ s ∈ script.statements, s.expr.ReadFrom tokens.items) {name : String} {init : Expr}
    (h : (ofScript script).binding? name = some init) : init.ReadFrom tokens.items := by
  obtain ⟨s, hs, hdeclared⟩ := (settles_of_binding? h).declared
  have hread := hscript s hs
  cases s with
  | declaration isMutable ident init' =>
    obtain ⟨-, rfl⟩ := Prod.mk.inj (Option.some.inj hdeclared)
    exact hread
  | assignment => simp [Statement.declared?] at hdeclared
  | expression => simp [Statement.declared?] at hdeclared

end Scope

end Script

end RegexAudit
