import RegexAudit.Flags
import RegexAudit.Proofs.Script.Acceptance
import RegexAudit.Proofs.Script.Expansion

/-!
# Folding flags

An expression in which `or` joins plain operands stands for the union of their flags, as long as the
operands are few. The tree of such a chain leans to the left, so an operand stands the deeper the
further to the left it is, and in a long chain the first operands stand too deep to count. A
collection has all its operands at one depth and loses none of them.

## Main definitions

* `Flags.unionAll`: the union of some sets of flags.
* `Flags.joined`: the operands that `or` joins in an expression.
* `Flags.IsPlain`: an operand is not made of operands itself.
* `Flags.counted`: the operands of a chain that do not stand too deep.

## Main statements

* `Flags.resolve_chain`: a chain stands for the union of the operands that are counted.
* `Flags.resolve_collection`: a collection stands for the union of all its arguments.
* `Flags.joined_value`: what is parsed as a chain of `or` joins the operands of the chain.
* `Flags.resolve_parsed_chain`: in a chain of no more operands than levels all operands are counted,
  and neither their order nor the form of the union matters.
* `Flags.resolve_chain_loses_operand`: a chain of one operand more loses one.
-/

namespace RegexAudit

/-- The operands of a chain, or those of the links behind the first one. -/
def Script.Derivation.operands : {s : Script.Symbol} → Script.Derivation s → List Script.Expr
  | _, .last _ => []
  | _, .link op _ _ next more => op.tree next.value :: more.operands
  | _, .chain op first more => op.tree first.value :: more.operands
  | _, _ => []

namespace Flags

open Script

/-- The union of some sets of flags. -/
def unionAll (sets : List Flags) : Flags := sets.foldl (· ||| ·) none

/-- The operands that `or` joins in an expression, from left to right. -/
def joined : Expr → List Expr
  | .binary _ .or lhs rhs => joined lhs ++ [rhs]
  | e => [e]

/-- The operand does not lead to further operands. -/
def IsPlain (scope : Scope) (e : Expr) : Prop := operands? (scope.predict e) = Option.none

/-- The operands of a chain that do not stand too deep for some levels: all of them when there are
no more of them than levels, and otherwise as many of the last ones as there are levels further
in. -/
def countedWithin (levels : Nat) (operands : List Expr) : List Expr :=
  if operands.length ≤ levels then operands else operands.drop (operands.length - (levels - 1))

/-- The operands of a chain that do not stand too deep. -/
def counted (operands : List Expr) : List Expr := countedWithin (maxDepth + 1) operands

section Union

variable {a b c : Flags} {sets sets' : List Flags}

theorem or_assoc : (a ||| b) ||| c = a ||| (b ||| c) :=
  congrArg Flags.mk (UInt32.or_assoc a.bits b.bits c.bits)

theorem or_comm : a ||| b = b ||| a := congrArg Flags.mk (UInt32.or_comm a.bits b.bits)

@[simp] theorem none_or : none ||| a = a := congrArg Flags.mk UInt32.zero_or

theorem unionAll_append_singleton : unionAll (sets ++ [a]) = unionAll sets ||| a :=
  List.foldl_append

/-- The order of the sets does not matter for their union. -/
theorem unionAll_perm (h : sets.Perm sets') : unionAll sets = unionAll sets' := by
  refine h.foldl_eq' ?_ none
  intro a _ b _ c
  rw [or_assoc, or_comm (a := a), ← or_assoc]

end Union

section Plain

variable {scope : Scope} {e : Expr}

theorem isPlain_integer (range : Span) (value : Nat) : IsPlain scope (.integer range value) := by
  rw [IsPlain, Scope.predict_integer]
  rfl

/-- A name is plain when nothing is known of it, as the names of the flags mostly are. -/
theorem isPlain_name {text : String} (range : Span) (h : scope.binding? text = Option.none) :
    IsPlain scope (.name range text) := by
  rw [IsPlain, Scope.predict_name range h]
  rfl

theorem resolveWithin_plain (h : IsPlain scope e) (levels : Nat) :
    resolveWithin scope (levels + 1) e = ofLeaf (scope.predict e) := by
  unfold IsPlain at h
  rw [resolveWithin, h]

theorem resolve_plain (h : IsPlain scope e) :
    resolve scope (some e) = ofLeaf (scope.predict e) :=
  resolveWithin_plain h maxDepth

end Plain

section Chain

variable {scope : Scope} {e : Expr}

theorem joined_ne_nil (e : Expr) : joined e ≠ [] := by
  unfold joined
  split <;> simp

theorem resolveWithin_or (levels : Nat) (range : Span) (lhs rhs : Expr) :
    resolveWithin scope (levels + 1) (.binary range .or lhs rhs) =
      resolveWithin scope levels lhs ||| resolveWithin scope levels rhs := by
  simp [resolveWithin, operands?]

/-- The operands that are counted when one is added at the end, with a level more. -/
theorem countedWithin_append_singleton (levels : Nat) {operands : List Expr} (hne : operands ≠ [])
    (rhs : Expr) : countedWithin (levels + 1) (operands ++ [rhs]) =
      if levels = 0 then [] else countedWithin levels operands ++ [rhs] := by
  have hpos := List.length_pos_iff.2 hne
  -- With the last level gone nothing is counted, not even the operand at the end.
  unfold countedWithin
  rw [List.length_append, List.length_singleton]
  by_cases hlevels : levels = 0
  · subst hlevels
    rw [if_pos rfl, if_neg (by omega), List.drop_of_length_le (by simp)]
  · rw [if_neg hlevels]
    by_cases hlen : operands.length ≤ levels
    · rw [if_pos (by omega), if_pos hlen]
    · rw [if_neg (by omega), if_neg hlen, List.drop_append_of_le_length (by omega)]
      congr 2
      omega

/-- With some levels left, a chain of plain operands stands for the union of those counted. -/
theorem resolveWithin_chain (h : ∀ o ∈ joined e, IsPlain scope o) (levels : Nat) :
    resolveWithin scope levels e =
      unionAll ((countedWithin levels (joined e)).map fun o => resolve scope (some o)) := by
  -- The left operand of a chain is a shorter chain, which is resolved with a level less.
  fun_induction joined e generalizing levels with
  | case1 range lhs rhs ih =>
    have hlhs : ∀ o ∈ joined lhs, IsPlain scope o := fun o ho => h o (List.mem_append_left _ ho)
    have hrhs : IsPlain scope rhs := h rhs (by simp)
    cases levels with
    | zero => simp [resolveWithin, countedWithin, unionAll]
    | succ levels =>
      rw [resolveWithin_or, countedWithin_append_singleton levels (joined_ne_nil lhs)]
      cases levels with
      | zero => exact none_or
      | succ levels =>
        rw [if_neg (by omega), List.map_append, List.map_singleton, unionAll_append_singleton,
          resolveWithin_plain hrhs, resolve_plain hrhs, ih hlhs]
  | case2 e hother =>
    cases levels with
    | zero => rfl
    | succ levels =>
      rw [resolveWithin_plain (h e (by simp))]
      simp [countedWithin, unionAll, resolve_plain (h e (by simp))]

/-- A chain of plain operands stands for the union of those that do not stand too deep. -/
theorem resolve_chain (h : ∀ o ∈ joined e, IsPlain scope o) :
    resolve scope (some e) =
      unionAll ((counted (joined e)).map fun o => resolve scope (some o)) :=
  resolveWithin_chain h (maxDepth + 1)

theorem counted_of_length_le {operands : List Expr} (h : operands.length ≤ maxDepth + 1) :
    counted operands = operands :=
  if_pos h

/-- The order of the operands does not matter in a short chain. -/
theorem resolve_chain_perm {e' : Expr} (h : ∀ o ∈ joined e, IsPlain scope o)
    (hlen : (joined e).length ≤ maxDepth + 1) (hperm : (joined e).Perm (joined e')) :
    resolve scope (some e) = resolve scope (some e') := by
  have h' : ∀ o ∈ joined e', IsPlain scope o := fun o ho => h o (hperm.mem_iff.2 ho)
  rw [resolve_chain h, resolve_chain h', counted_of_length_le hlen,
    counted_of_length_le (hperm.length_eq ▸ hlen)]
  exact unionAll_perm (hperm.map _)

end Chain

section Collection

variable {scope : Scope} {callee : Expr} {args : List Expr}

/-- A collection stands for the union of all its plain arguments, however many there are. -/
theorem resolve_collection (range : Span) (hname : callee.referencedName?.any collections.contains)
    (h : ∀ a ∈ args, IsPlain scope a) :
    resolve scope (some (.call range callee args)) =
      unionAll (args.map fun a => resolve scope (some a)) := by
  have hor : callee.referencedName? ≠ some "or" := by
    intro hor
    rw [hor] at hname
    exact absurd hname (by decide)
  have hoperands : callOperands ⟨callee, args⟩ = args := by
    rw [callOperands, Call.name?, if_neg hor, if_pos hname]
  rw [resolve, resolveWithin, Scope.predict_call, operands?, hoperands]
  refine congrArg unionAll (List.map_congr_left ?_)
  intro a ha
  exact (resolveWithin_plain (h a ha) 31).trans (resolve_plain (h a ha)).symm

/-- A short chain stands for the same flags as a collection of its operands. -/
theorem resolve_chain_eq_collection {e : Expr} (range : Span)
    (h : ∀ o ∈ joined e, IsPlain scope o) (hlen : (joined e).length ≤ maxDepth + 1)
    (hname : callee.referencedName?.any collections.contains) :
    resolve scope (some e) = resolve scope (some (.call range callee (joined e))) := by
  rw [resolve_chain h, counted_of_length_le hlen, resolve_collection range hname h]

end Collection

end Flags

namespace Script.Derivation

open Flags

/-- An operand with suffixes is no union. -/
theorem joined_suffixes {e : Expr} (d : Derivation .suffixes) (h : joined e = [e]) :
    joined (d.value e) = [d.value e] := by
  match d with
  | .bare => exact h
  | .member _ _ _ more => exact more.joined_suffixes rfl
  | .call _ _ _ more => exact more.joined_suffixes rfl

theorem joined_addends {e : Expr} (d : Derivation (.links .plus)) (h : joined e = [e]) :
    joined (d.value e) = [d.value e] := by
  match d with
  | .last _ => exact h
  | .link _ _ _ _ more => exact more.joined_addends rfl

theorem joined_sum (d : Derivation (.chain .plus)) : joined d.value = [d.value] := by
  match d with
  | .chain _ (.operand first suffixes) more =>
    refine more.joined_addends (suffixes.joined_suffixes ?_)
    match first with
    | .string .. | .integer .. | .name .. | .paren .. => rfl

theorem joined_links {e : Expr} (d : Derivation (.links .or)) :
    joined (d.value e) = joined e ++ d.operands := by
  match d with
  | .last _ => exact (List.append_nil _).symm
  | .link _ _ _ next more =>
    rw [value, more.joined_links, joined, operands, List.append_assoc]
    rfl

end Script.Derivation

namespace Flags

open Script

section Parsed

/-- What is parsed as a chain of `or` joins the operands of the chain. -/
theorem joined_value (d : ExprDerivation) : joined d.value = d.operands := by
  match d with
  | .chain _ first more =>
    have hfirst : joined (Operator.or.tree first.value) = [first.value] :=
      Derivation.joined_sum first
    rw [Derivation.value, Derivation.joined_links, hfirst]
    rfl

/-- A chain of plain operands stands for the union of those that do not stand too deep. If it is
short, no operand is lost, and neither the order of the operands matters nor whether they are
collected instead. -/
theorem resolve_parsed_chain {scope : Scope} (d : ExprDerivation)
    (h : ∀ o ∈ d.operands, IsPlain scope o) :
    resolve scope (some d.value) =
      unionAll ((counted d.operands).map fun o => resolve scope (some o)) ∧
    (d.operands.length ≤ maxDepth + 1 →
      resolve scope (some d.value) = unionAll (d.operands.map fun o => resolve scope (some o)) ∧
      (∀ d' : ExprDerivation, d.operands.Perm d'.operands →
        resolve scope (some d.value) = resolve scope (some d'.value)) ∧
      ∀ (range : Span) (callee : Expr), callee.referencedName?.any collections.contains →
        resolve scope (some d.value) = resolve scope (some (.call range callee d.operands))) := by
  rw [← joined_value d] at h ⊢
  refine ⟨resolve_chain h, fun hlen => ⟨?_, ?_, ?_⟩⟩
  · rw [resolve_chain h, counted_of_length_le hlen]
  · intro d' hperm
    rw [← joined_value d'] at hperm
    exact resolve_chain_perm h hlen hperm
  · intro range callee hname
    exact resolve_chain_eq_collection range h hlen hname

end Parsed

namespace Sample

/-- The derivation of `DOTALL or 2`. -/
def shortChain : ExprDerivation :=
  .chain .or (Derivation.name ⟨0, 6⟩ "DOTALL").asSum
    (.link .or ⟨7, 9⟩ [] (Derivation.integer ⟨10, 11⟩ 2).asSum (.last .or))

theorem isPlain_shortChain : ∀ o ∈ shortChain.operands, IsPlain ⟨[]⟩ o :=
  List.forall_mem_cons.2 ⟨isPlain_name _ rfl, List.forall_mem_singleton.2 (isPlain_integer _ _)⟩

end Sample

/-- A name and an integer are united as they are in a collection. -/
theorem resolve_parsed_chain_short :
    resolve ⟨[]⟩ (some Sample.shortChain.value) =
      unionAll (Sample.shortChain.operands.map fun o => resolve ⟨[]⟩ (some o)) ∧
    resolve ⟨[]⟩ (some Sample.shortChain.value) =
      resolve ⟨[]⟩ (some (.call ⟨0, 0⟩ (.name ⟨0, 0⟩ "setOf") Sample.shortChain.operands)) := by
  have hshort := (resolve_parsed_chain Sample.shortChain Sample.isPlain_shortChain).2 (by decide)
  exact ⟨hshort.1, hshort.2.2 _ _ (by decide)⟩

namespace Sample

/-- A flag and the integer zero thirty-three times, joined by `or`. -/
def longChain : List Char := "MULTILINE".toList ++ (List.replicate 33 " or 0".toList).flatten

/-- What it is parsed as. -/
def longChainExpr : Expr :=
  (List.range 33).foldl
    (fun e i => .binary ⟨0, 14 + 5 * i⟩ .or e (.integer ⟨13 + 5 * i, 14 + 5 * i⟩ 0))
    (.name ⟨0, 9⟩ "MULTILINE")

set_option maxRecDepth 20000 in
theorem ofSource_longChain : Script.ofSource longChain = .ok ⟨[.expression longChainExpr]⟩ := by
  with_unfolding_all rfl

theorem joined_longChainExpr : joined longChainExpr = .name ⟨0, 9⟩ "MULTILINE" ::
    (List.range 33).map fun i => .integer ⟨13 + 5 * i, 14 + 5 * i⟩ 0 := rfl

theorem isPlain_longChainExpr : ∀ o ∈ joined longChainExpr, IsPlain ⟨[]⟩ o := by
  rw [joined_longChainExpr]
  refine List.forall_mem_cons.2 ⟨isPlain_name _ rfl, ?_⟩
  intro o ho
  obtain ⟨i, -, rfl⟩ := List.mem_map.1 ho
  exact isPlain_integer _ _

/-- On its own, every operand but the first stands for no flags. -/
theorem resolve_operands_longChainExpr :
    (joined longChainExpr).map (fun o => resolve ⟨[]⟩ (some o)) =
      multiline :: List.replicate 33 none := by
  have hname : resolve ⟨[]⟩ (some (.name ⟨0, 9⟩ "MULTILINE")) = multiline := by
    rw [resolve_plain (isPlain_name _ rfl), Scope.predict_name _ rfl]
    decide
  have hzero : ∀ range, resolve ⟨[]⟩ (some (.integer range 0)) = none := by
    intro range
    rw [resolve_plain (isPlain_integer _ _), Scope.predict_integer]
    rfl
  simp only [joined_longChainExpr, List.map_cons, List.map_map, hname, Function.comp_def, hzero,
    List.map_const', List.length_range]

end Sample

/-- With thirty-four operands the first one is lost, and with it all flags of the union. -/
theorem resolve_chain_loses_operand :
    Script.ofSource Sample.longChain = .ok ⟨[.expression Sample.longChainExpr]⟩ ∧
    (∀ o ∈ joined Sample.longChainExpr, IsPlain ⟨[]⟩ o) ∧
    resolve ⟨[]⟩ (some Sample.longChainExpr) = none ∧
    unionAll ((joined Sample.longChainExpr).map fun o => resolve ⟨[]⟩ (some o)) = multiline := by
  refine ⟨Sample.ofSource_longChain, Sample.isPlain_longChainExpr, ?_, ?_⟩
  · rw [resolve_chain Sample.isPlain_longChainExpr, counted, countedWithin, if_neg (by decide),
      List.map_drop, Sample.resolve_operands_longChainExpr]
    decide
  · rw [Sample.resolve_operands_longChainExpr]
    decide

end Flags

end RegexAudit
