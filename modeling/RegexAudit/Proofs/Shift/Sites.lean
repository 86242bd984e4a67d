import RegexAudit.Proofs.Audit.Sites
import RegexAudit.Proofs.Shift.Basic

/-!
# Sites of a moved script

Names, patterns and flags of a script are told by texts alone. The calls of a moved script can
therefore be analysed when the calls can, with the moved fragments and the same flags.

## Main definitions

* `Scope.shift`, `Fragment.shift`, `Site.shift`: what is known of a script, moved.

## Main statements

* `Scope.predict_shift`: moved names lead to moved values.
* `Scope.flatten?_shift`: moved patterns expand to moved fragments.
* `Flags.resolve_shift`: moved flags are the same flags.
* `Auditor.site?_shift`: the site of a moved call.
-/

namespace RegexAudit

open Script

/-- The fragment, moved by some bytes. -/
def Fragment.shift (w : Nat) (f : Fragment) : Fragment := { f with range := f.range.shift w }

/-- The site, moved by some bytes. -/
def Site.shift (w : Nat) (site : Site) : Site :=
  { site with
    call := site.call.shift w
    fragments := site.fragments.map (Fragment.shift w) }

namespace Fragment

@[simp] theorem size_shift (w : Nat) (f : Fragment) : (f.shift w).size = f.size := rfl

/-- Moved fragments join to the same text. -/
@[simp] theorem join_shift (w : Nat) (fs : List Fragment) :
    join (fs.map (Fragment.shift w)) = join fs := by
  rw [join, join, List.flatMap_map]
  rfl

end Fragment

namespace Script

variable {w : Nat}

theorem Entry.fragment?_shift (e : Entry) :
    (e.shift w).fragment? = e.fragment?.map (Fragment.shift w) := by
  obtain ⟨kind, text, range⟩ := e
  cases kind <;> rfl

theorem StringLiteral.fragments?_shift (l : StringLiteral) :
    (l.shift w).fragments? = l.fragments?.map (List.map (Fragment.shift w)) := by
  obtain ⟨isRaw, entries⟩ := l
  show (entries.map (Entry.shift w)).mapM Entry.fragment? =
    (entries.mapM Entry.fragment?).map (List.map (Fragment.shift w))
  induction entries with
  | nil => rfl
  | cons e es ih =>
    rw [List.map_cons, List.mapM_cons, List.mapM_cons, ih, Entry.fragment?_shift]
    cases e.fragment? with
    | none => rfl
    | some f => cases es.mapM Entry.fragment? <;> rfl

/-- The scope, moved by some bytes. -/
def Scope.shift (w : Nat) (scope : Scope) : Scope :=
  ⟨scope.bindings.map (Prod.map id (Expr.shift w))⟩

theorem Statement.declared?_shift (s : Statement) :
    (s.shift w).declared? = s.declared?.map (Prod.map id (Expr.shift w)) := by
  cases s <;> rfl

theorem Statement.assigned?_shift (s : Statement) : (s.shift w).assigned? = s.assigned? := by
  cases s <;> rfl

namespace Scope

/-- The scope of a moved script is the moved scope. -/
theorem ofScript_shift (w : Nat) (script : Script) :
    ofScript (script.shift w) = (ofScript script).shift w := by
  have hdeclared : (script.statements.map (Statement.shift w)).filterMap Statement.declared? =
      (script.statements.filterMap Statement.declared?).map (Prod.map id (Expr.shift w)) := by
    rw [List.filterMap_map, List.map_filterMap]
    exact congrArg (List.filterMap · _) (funext Statement.declared?_shift)
  have hassigned : (script.statements.map (Statement.shift w)).filterMap Statement.assigned? =
      script.statements.filterMap Statement.assigned? := by
    rw [List.filterMap_map]
    exact congrArg (List.filterMap · _) (funext Statement.assigned?_shift)
  rw [ofScript, ofScript, ofStatements, ofStatements, shift, Script.shift]
  dsimp only
  rw [hdeclared, hassigned, List.filter_map]
  simp only [List.countP_map]
  rfl

section Predictions

variable (bindings : List (String × Expr))

theorem lookup_shift (name : String) :
    (bindings.map (Prod.map id (Expr.shift w))).lookup name =
      (bindings.lookup name).map (Expr.shift w) := by
  induction bindings with
  | nil => rfl
  | cons b bs ih =>
    obtain ⟨other, init⟩ := b
    rw [List.map_cons, Prod.map_apply, id_eq, List.lookup_cons, List.lookup_cons, ih]
    cases name == other <;> rfl

theorem without_shift (name : String) :
    without (bindings.map (Prod.map id (Expr.shift w))) name =
      (without bindings name).map (Prod.map id (Expr.shift w)) :=
  List.filter_map

theorem predictFrom_shift (e : Expr) :
    predictFrom (bindings.map (Prod.map id (Expr.shift w))) (e.shift w) =
      (predictFrom bindings e).shift w := by
  fun_induction predictFrom bindings e with
  | case1 bindings range inner ih =>
    rw [Expr.shift, predictFrom]
    exact ih
  | case2 bindings range text init hlookup ih =>
    -- The name is followed on both sides, and its binding is dropped on both.
    have hmoved := lookup_shift (w := w) bindings text
    rw [hlookup] at hmoved
    rw [Expr.shift, predictFrom_name _ hmoved, without_shift]
    exact ih
  | case3 bindings range text hlookup =>
    have hmoved : binding? ⟨bindings.map (Prod.map id (Expr.shift w))⟩ text = none := by
      rw [binding?, lookup_shift, hlookup, Option.map_none]
    exact predict_name _ hmoved
  | case4 bindings e hparen hname =>
    cases e with
    | paren range inner => exact absurd rfl (hparen range inner)
    | name range text => exact absurd rfl (hname range text)
    | string | integer | binary | dot | call =>
      rw [Expr.shift, predictFrom]
      all_goals simp

/-- Moved names lead to moved values. -/
@[simp] theorem predict_shift (scope : Scope) (e : Expr) :
    (scope.shift w).predict (e.shift w) = (scope.predict e).shift w :=
  predictFrom_shift scope.bindings e

end Predictions

theorem flattenFrom_shift (scope : Scope) (found : List (List Fragment)) (budget : Nat)
    (stack : List (Expr × Nat)) :
    (scope.shift w).flattenFrom (found.map (List.map (Fragment.shift w))) budget
        (stack.map (Prod.map (Expr.shift w) id)) =
      (scope.flattenFrom found budget stack).map (List.map (Fragment.shift w)) := by
  fun_induction Scope.flattenFrom scope found budget stack with
  | case1 found budget =>
    cases budget <;> simp [flattenFrom, List.map_flatten, List.map_reverse]
  | case2 found head stack => rfl
  | case3 found budget e depth stack hdepth =>
    rw [List.map_cons, Prod.map_apply, id_eq, flattenFrom, if_pos hdepth]
    rfl
  | case4 found budget e depth stack hdepth range l hpredict hfragments =>
    rw [List.map_cons, Prod.map_apply, id_eq, flattenFrom, if_neg hdepth, predict_shift, hpredict]
    simp only [Expr.shift, StringLiteral.fragments?_shift, hfragments, Option.map_none]
  | case5 found budget e depth stack hdepth range l hpredict fs hfragments ih =>
    have hmoved : (scope.shift w).predict (e.shift w) = .string (range.shift w) (l.shift w) := by
      rw [predict_shift, hpredict, Expr.shift]
    have hmovedFragments : (l.shift w).fragments? = some (fs.map (Fragment.shift w)) := by
      rw [StringLiteral.fragments?_shift, hfragments, Option.map_some]
    exact (flattenFrom_string (Nat.not_lt.1 hdepth) hmoved hmovedFragments).trans ih
  | case6 found budget e depth stack hdepth range lhs rhs hpredict ih =>
    have hmoved : (scope.shift w).predict (e.shift w) =
        .binary (range.shift w) .plus (lhs.shift w) (rhs.shift w) := by
      rw [predict_shift, hpredict, Expr.shift]
    exact (flattenFrom_plus (Nat.not_lt.1 hdepth) hmoved).trans ih
  | case7 found budget e depth stack hdepth hstring hplus =>
    rw [List.map_cons, Prod.map_apply, id_eq, flattenFrom, if_neg hdepth, predict_shift]
    generalize scope.predict e = value at hstring hplus
    cases value with
    | string range l => exact absurd rfl (hstring range l)
    | binary range op lhs rhs =>
      cases op with
      | plus => exact absurd rfl (hplus range lhs rhs)
      | or => rfl
    | integer | name | dot | call | paren => rfl

/-- A moved pattern expands to the moved fragments. -/
theorem flatten?_shift (scope : Scope) (e : Expr) :
    (scope.shift w).flatten? (e.shift w) =
      (scope.flatten? e).map (List.map (Fragment.shift w)) :=
  flattenFrom_shift scope [] maxConcatNodes [(e, 0)]

end Scope

namespace Call

variable (call : Call)

@[simp] theorem name?_shift : (call.shift w).name? = call.name? :=
  Expr.referencedName?_shift w call.callee

theorem receiver?_shift : (call.shift w).receiver? = call.receiver?.map (Expr.shift w) := by
  obtain ⟨callee, args⟩ := call
  cases callee <;> rfl

@[simp] theorem nameRange_shift : (call.shift w).nameRange = call.nameRange.shift w := by
  obtain ⟨callee, args⟩ := call
  cases callee <;> rfl

end Call

end Script

namespace Flags

variable {w : Nat}

theorem callOperands_shift (call : Call) :
    callOperands (call.shift w) = (callOperands call).map (Expr.shift w) := by
  rw [callOperands, callOperands, Call.name?_shift, Call.receiver?_shift, Call.shift]
  split
  · cases call.receiver? with
    | none => rfl
    | some receiver =>
      match call.args with
      | [] | [_] | _ :: _ :: _ => rfl
  · split <;> rfl

theorem operands?_shift (e : Expr) :
    operands? (e.shift w) = (operands? e).map (List.map (Expr.shift w)) := by
  cases e with
  | binary range op lhs rhs => cases op <;> rfl
  | call range callee args =>
    rw [Expr.shift, Expr.shiftAll_eq_map]
    exact congrArg some (callOperands_shift ⟨callee, args⟩)
  | _ => rfl

theorem ofLeaf_shift (e : Expr) : ofLeaf (e.shift w) = ofLeaf e := by
  cases e <;> rfl

theorem resolveWithin_shift (scope : Scope) (levels : Nat) (e : Expr) :
    resolveWithin (scope.shift w) levels (e.shift w) = resolveWithin scope levels e := by
  induction levels generalizing e with
  | zero => rfl
  | succ levels ih =>
    rw [resolveWithin, resolveWithin, Scope.predict_shift, operands?_shift]
    cases operands? (scope.predict e) with
    | none => exact ofLeaf_shift _
    | some operands =>
      have hoperands : resolveWithin (scope.shift w) levels ∘ Expr.shift w =
          resolveWithin scope levels := funext ih
      dsimp only [Option.map_some]
      rw [List.map_map, hoperands]

/-- A moved expression stands for the same flags. -/
theorem resolve_shift (scope : Scope) (e : Option Expr) :
    resolve (scope.shift w) (e.map (Expr.shift w)) = resolve scope e := by
  cases e with
  | none => rfl
  | some e => exact resolveWithin_shift scope (maxDepth + 1) e

end Flags

section Signatures

variable {w : Nat}

@[simp] theorem Script.Expr.lastName?_shift (e : Expr) : (e.shift w).lastName? = e.lastName? := by
  rw [lastName?, lastName?, path?_shift]

@[simp] theorem Script.Expr.isTypeReference_shift (e : Expr) :
    (e.shift w).isTypeReference = e.isTypeReference := by
  rw [isTypeReference, isTypeReference, lastName?_shift]

theorem Receiver.accepts_shift (receiver : Receiver) (e : Option Expr) :
    receiver.accepts (e.map (Expr.shift w)) = receiver.accepts e := by
  cases receiver <;> cases e <;> simp [accepts]

namespace Signature

variable (s : Signature) (call : Call)

theorem accepts_shift : s.accepts (call.shift w) = s.accepts call := by
  rw [accepts, accepts, Call.name?_shift, Call.receiver?_shift, Receiver.accepts_shift, Call.shift,
    List.length_map]

theorem patternOf?_shift :
    s.patternOf? (call.shift w) = (s.patternOf? call).map (Expr.shift w) := by
  unfold patternOf?
  cases s.pattern with
  | receiver => exact Call.receiver?_shift call
  | argument index => exact List.getElem?_map

theorem flagsOf?_shift : s.flagsOf? (call.shift w) = (s.flagsOf? call).map (Expr.shift w) := by
  unfold flagsOf?
  cases s.flags with
  | none => rfl
  | some index => exact List.getElem?_map

end Signature

/-- A moved call has the same signature. -/
theorem Registry.find?_shift (registry : Registry) (call : Call) :
    registry.find? (call.shift w) = registry.find? call := by
  rw [find?, find?]
  exact congrArg (List.find? · registry.signatures) (funext fun s => s.accepts_shift call)

end Signatures

/-- A moved call can be analysed when the call can, at the moved site. -/
theorem Auditor.site?_shift {w : Nat} {auditor moved : Auditor}
    (hscope : moved.scope = auditor.scope.shift w) (hregistry : moved.registry = auditor.registry)
    (call : Call) : moved.site? (call.shift w) = (auditor.site? call).map (Site.shift w) := by
  simp only [site?, bind]
  rw [hscope, hregistry, Registry.find?_shift]
  cases auditor.registry.find? call with
  | none => rfl
  | some signature =>
    dsimp only [Option.bind_some]
    rw [signature.patternOf?_shift, signature.flagsOf?_shift, Flags.resolve_shift]
    cases signature.patternOf? call with
    | none => rfl
    | some pattern =>
      dsimp only [Option.map_some, Option.bind_some]
      rw [Scope.flatten?_shift]
      cases auditor.scope.flatten? pattern with
      | none => rfl
      | some fragments =>
        dsimp only [Option.map_some, Option.bind_some]
        rw [List.isEmpty_map]
        cases fragments.isEmpty with
        | true => rfl
        | false =>
          cases (Flags.resolve auditor.scope (signature.flagsOf? call)).contains .literal <;> rfl

end RegexAudit
