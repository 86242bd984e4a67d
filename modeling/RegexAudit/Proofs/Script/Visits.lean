import RegexAudit.Proofs.Script.Ranges

/-!
# The order of calls

The calls of a script are listed from left to right, and an outer call in front of the calls in it.
This is the order of the nodes of a script, each of which comes in front of its children, so it
follows from where the spans of the nodes lie.

## Main definitions

* `Span.VisitedBefore`: the order in which nodes with these spans are visited.
* `Expr.Nested`: the spans of all nodes in an expression hold those of their children.
* `Script.callNodes`: the calls among the nodes of a script.

## Main statements

* `Expr.Nested.preorder_ordered`: the nodes of an expression are visited in order.
* `Script.calls_inOrder`: the calls of a script are listed in order, and each of them once.
-/

namespace RegexAudit

/-- What begins earlier is visited earlier. Of two parts with one start, the longer one is. -/
def Span.VisitedBefore (s t : Span) : Prop :=
  s.start < t.start ∨ s.start = t.start ∧ t.stop < s.stop

/-- Some of the parts are held if all of them are. -/
theorem Span.Holds.sublist {whole : Span} {parts parts' : List Span} (h : whole.Holds parts)
    (hsublist : parts'.Sublist parts) : whole.Holds parts' :=
  ⟨fun part hpart => h.within part (hsublist.subset hpart),
    fun part hpart => h.proper part (hsublist.subset hpart), h.ordered.sublist hsublist⟩

theorem Span.VisitedBefore.ne {s t : Span} (h : s.VisitedBefore t) : s ≠ t := by
  rintro rfl
  unfold VisitedBefore at h
  omega

namespace Script

namespace Expr

/-- No node is empty, and its span holds those of its children. -/
def Nested (e : Expr) : Prop :=
  ∀ f : Expr, f.Occurs e → f.range.start < f.range.stop ∧ f.range.Holds (f.children.map range)

variable {c e f : Expr}

theorem children_sublist (e : Expr) : (e.children.map range).Sublist e.childRanges := by
  cases e with
  | dot => exact List.sublist_append_left [_] [_]
  | string | integer | name | binary | call | paren => exact .refl _

theorem Spans.nested {ts : List Token} (h : e.Spans ts) (hts : Token.Consecutive ts) :
    e.Nested := by
  intro f hf
  obtain ⟨⟨d, -, hpiece, hhull⟩, hchildren⟩ := h.nodes f hf
  exact ⟨hhull.nonempty (hts.of_infix hpiece), hchildren.sublist f.children_sublist⟩

namespace Nested

theorem child (h : e.Nested) (hc : c ∈ e.children) : c.Nested :=
  fun f hf => h f (occurs_iff.2 (.inr ⟨c, hc, hf⟩))

/-- All nodes lie in the span of the whole. -/
theorem within (h : e.Nested) (hf : f.Occurs e) :
    e.range.start ≤ f.range.start ∧ f.range.stop ≤ e.range.stop := by
  induction e using children_induction with
  | step e ih =>
    rcases occurs_iff.1 hf with rfl | ⟨c, hc, hf⟩
    · exact ⟨Nat.le_refl _, Nat.le_refl _⟩
    · have hchild := (h e (.refl e)).2.within c.range (List.mem_map_of_mem hc)
      have hnode := ih c hc (h.child hc) hf
      omega

/-- A node is visited before what is in one of its children. -/
theorem visitedBefore (h : e.Nested) (hc : c ∈ e.children) (hf : f.Occurs c) :
    e.range.VisitedBefore f.range := by
  obtain ⟨hstart, hstop⟩ := (h e (.refl e)).2.within c.range (List.mem_map_of_mem hc)
  have hproper := (h e (.refl e)).2.proper c.range (List.mem_map_of_mem hc)
  have hwithin := (h.child hc).within hf
  unfold Span.VisitedBefore
  by_cases heq : c.range.start = e.range.start
  · have hne : c.range.stop ≠ e.range.stop := fun h' =>
      hproper (congrArg₂ Span.mk heq h')
    omega
  · omega

/-- What is in an expression is visited before what is in one behind it. -/
theorem visitedBefore_of_le {e' f' : Expr} (h : e.Nested) (h' : e'.Nested) (hf : f.Occurs e)
    (hf' : f'.Occurs e') (hle : e.range.stop ≤ e'.range.start) :
    f.range.VisitedBefore f'.range := by
  have hpos := (h f hf).1
  have hwithin := h.within hf
  have hwithin' := h'.within hf'
  exact .inl (by omega)

/-- The nodes of an expression are listed as they are visited. -/
theorem preorder_ordered (h : e.Nested) :
    e.preorder.Pairwise fun f g => f.range.VisitedBefore g.range := by
  induction e using children_induction with
  | step e ih =>
    rw [preorder_eq, List.pairwise_cons, List.pairwise_flatMap]
    refine ⟨?_, fun c hc => ih c hc (h.child hc), ?_⟩
    · intro f hf
      obtain ⟨c, hc, hf⟩ := List.mem_flatMap.1 hf
      exact h.visitedBefore hc (mem_preorder_iff.1 hf)
    · refine (List.pairwise_map.1 (h e (.refl e)).2.ordered).imp_of_mem ?_
      intro c c' hc hc' hle f hf f' hf'
      exact visitedBefore_of_le (h.child hc) (h.child hc') (mem_preorder_iff.1 hf)
        (mem_preorder_iff.1 hf') hle

end Nested

end Expr

namespace ScriptDerivation

variable {trailing : List Separator} {lines : List (List Separator × StatementDerivation)}

/-- The expressions of the statements follow one another. -/
theorem exprs_ordered (h : Token.Consecutive (tokensOf trailing lines)) :
    lines.Pairwise fun line line' =>
      line.2.statement.expr.range.stop ≤ line'.2.statement.expr.range.start := by
  induction lines with
  | nil => exact .nil
  | cons line lines ih =>
    have hmore : tokensOf trailing lines <:+: tokensOf trailing (line :: lines) :=
      infix_last _ line.2.tokens _
    refine .cons ?_ (ih (h.of_infix hmore))
    intro line' hline'
    have hhull := (spans_of_mem List.mem_cons_self h).hull
    have hhull' := (spans_of_mem (List.mem_cons_of_mem line hline') h).hull
    refine hhull.stop_le hhull' h (List.sublist_append_of_sublist_right ?_)
    exact line.2.infix_expr.sublist.append
      (line'.2.infix_expr.trans (infix_tokensOf hline')).sublist

/-- The nodes of a script are listed as they are visited. -/
theorem preorder_ordered {d : ScriptDerivation} (h : Token.Consecutive d.tokens) :
    d.script.preorder.Pairwise fun e f => e.range.VisitedBefore f.range := by
  have hnested : ∀ line ∈ d.lines, line.2.statement.expr.Nested := fun line hline =>
    (spans_of_mem hline h).nested (h.of_infix (line.2.infix_expr.trans (infix_tokensOf hline)))
  rw [Script.preorder, script, List.flatMap_map, List.pairwise_flatMap]
  refine ⟨fun line hline => (hnested line hline).preorder_ordered, ?_⟩
  refine (exprs_ordered h).imp_of_mem ?_
  intro line line' hline hline' hle e he f hf
  exact (hnested line hline).visitedBefore_of_le (hnested line' hline')
    (Expr.mem_preorder_iff.1 he) (Expr.mem_preorder_iff.1 hf) hle

end ScriptDerivation

/-- The nodes of a script that are calls, in preorder. -/
def callNodes (script : Script) : List Expr := script.preorder.filter fun e => e.asCall?.isSome

/-- The calls of a parsed script are the calls among its nodes, no two of which are alike, and they
are listed as they are visited: what begins earlier comes first, and of two calls with one start the
outer one. -/
theorem calls_inOrder {source : List Char} {script : Script}
    (h : Script.ofSource source = .ok script) :
    script.callNodes.map Expr.asCall? = script.calls.map some ∧
    (∀ e : Expr, e ∈ script.callNodes ↔
      e.asCall?.isSome = true ∧ ∃ s ∈ script.statements, e.Occurs s.expr) ∧
    script.preorder.Nodup ∧
    script.callNodes.Pairwise fun e f => e.range.VisitedBefore f.range := by
  obtain ⟨tokens, htokens, d, hd, rfl⟩ := exists_derivation h
  have hordered := d.preorder_ordered (hd ▸ Tokens.consecutive htokens)
  refine ⟨?_, ?_, ?_, hordered.filter _⟩
  · rw [calls_eq_filterMap, callNodes, List.map_filterMap_some_eq_filter_map_isSome,
      List.filter_map]
    rfl
  · intro e
    rw [callNodes, List.mem_filter, mem_preorder_iff, and_comm]
  · refine hordered.imp ?_
    rintro e f hbefore rfl
    exact hbefore.ne rfl

namespace Sample

/-- A call of what a call returns, with calls as receiver, as argument and in parentheses. -/
def curried : List Char :=
  ['a', '(', 'b', '(', ')', ')', '.', 'c', '(', ')', '(', '(', 'd', '(', ')', ')', ')']

/-- The call. -/
def curriedCall : Expr :=
  .call ⟨0, 17⟩
    (.call ⟨0, 10⟩
      (.dot ⟨0, 8⟩ (.call ⟨0, 6⟩ (.name ⟨0, 1⟩ "a") [.call ⟨2, 5⟩ (.name ⟨2, 3⟩ "b") []])
        ⟨"c", ⟨7, 8⟩⟩) [])
    [.paren ⟨11, 16⟩ (.call ⟨12, 15⟩ (.name ⟨12, 13⟩ "d") [])]

theorem ofSource_curried : Script.ofSource curried = .ok ⟨[.expression curriedCall]⟩ := by
  with_unfolding_all rfl

end Sample

/-- Three of the five calls begin where the source does. -/
theorem calls_inOrder_curried :
    (Script.mk [.expression Sample.curriedCall]).callNodes.map Expr.range =
      [⟨0, 17⟩, ⟨0, 10⟩, ⟨0, 6⟩, ⟨2, 5⟩, ⟨12, 15⟩] ∧
    (Script.mk [.expression Sample.curriedCall]).callNodes.Pairwise fun e f =>
      e.range.VisitedBefore f.range :=
  ⟨rfl, (calls_inOrder Sample.ofSource_curried).2.2.2⟩

end Script

end RegexAudit
