import RegexAudit.Proofs.Script.Derivable

/-!
# The names of called functions

A call is recognised by the name of its callee, which is a name or a member access. That name is a
token of the source, at the span that the call gives for it.

## Main definitions

* `Expr.IsNamed`: the name that an expression refers by is a token.
* `Symbol.Named`: so are the names of all callees in what is derived.

## Main statements

* `Derivation.named`: the names of the callees are among the tokens that are derived.
* `Script.isNamed_of_mem_calls`: the names of the callees of a script are tokens of its source.
-/

namespace RegexAudit

namespace Script

namespace Expr

/-- If the expression refers to something by a name, this name is a token. -/
def IsNamed (tokens : List Token) (e : Expr) : Prop :=
  ∀ name, e.referencedName? = some name → ⟨.name name, Call.nameRange ⟨e, []⟩⟩ ∈ tokens

/-- The names by which the expression and all callees in it refer to something are tokens. -/
structure Named (tokens : List Token) (e : Expr) : Prop where
  self : e.IsNamed tokens
  callees : ∀ call ∈ e.calls, call.callee.IsNamed tokens

theorem mem_callsAll {es : List Expr} {call : Call} (h : call ∈ callsAll es) :
    ∃ e ∈ es, call ∈ e.calls := by
  induction es with
  | nil => simp [callsAll] at h
  | cons e es ih =>
    rw [callsAll] at h
    rcases List.mem_append.1 h with h | h
    · exact ⟨e, List.mem_cons_self, h⟩
    · obtain ⟨e', he', h⟩ := ih h
      exact ⟨e', List.mem_cons_of_mem e he', h⟩

namespace Named

variable {tokens : List Token} {range : Span}

theorem of_unnamed {e : Expr} (hself : e.referencedName? = none)
    (hcallees : ∀ call ∈ e.calls, call.callee.IsNamed tokens) : e.Named tokens := by
  refine ⟨?_, hcallees⟩
  intro name hname
  rw [hself] at hname
  simp at hname

theorem name {text : String} (h : ⟨.name text, range⟩ ∈ tokens) :
    (Expr.name range text).Named tokens := by
  refine ⟨?_, by simp [calls]⟩
  intro name hname
  rwa [← Option.some.inj hname]

theorem dot {receiver : Expr} {member : Ident} (h : receiver.Named tokens)
    (hmember : ⟨.name member.text, member.range⟩ ∈ tokens) :
    (Expr.dot range receiver member).Named tokens := by
  refine ⟨?_, by simpa [calls] using h.callees⟩
  intro name hname
  rwa [← Option.some.inj hname]

theorem call {callee : Expr} {args : List Expr} (h : callee.Named tokens)
    (hargs : ∀ a ∈ args, a.Named tokens) : (Expr.call range callee args).Named tokens := by
  refine of_unnamed rfl ?_
  rw [calls]
  refine List.forall_mem_cons.2 ⟨h.self, ?_⟩
  intro call hcall
  rcases List.mem_append.1 hcall with hcall | hcall
  · exact h.callees call hcall
  · obtain ⟨a, ha, hcall⟩ := mem_callsAll hcall
    exact (hargs a ha).callees call hcall

theorem binary {op : Operator} {lhs rhs : Expr} (hl : lhs.Named tokens) (hr : rhs.Named tokens) :
    (Expr.binary range op lhs rhs).Named tokens := by
  refine of_unnamed rfl ?_
  rw [calls]
  intro call hcall
  rcases List.mem_append.1 hcall with hcall | hcall
  · exact hl.callees call hcall
  · exact hr.callees call hcall

end Named

end Expr

/-- The names of the expressions and callees in what is derived are tokens. Suffixes and links keep
this property of an operand. -/
def Symbol.Named (tokens : List Token) : (s : Symbol) → s.Meaning → Prop
  | primary, e | operand, e | chain _, e => e.Named tokens
  | suffixes, f | links _, f => ∀ e : Expr, e.Named tokens → (f e).Named tokens
  | arguments, es | items, es => ∀ e ∈ es, e.Named tokens

theorem Operator.named_operand {tokens : List Token} {op : Operator} {e : op.operand.Meaning} :
    op.operand.Named tokens e ↔ (op.tree e).Named tokens := by
  cases op <;> rfl

/-- The names of what is derived are among the tokens. -/
theorem Derivation.named {s : Symbol} {all : List Token} (d : Derivation s)
    (h : d.tokens ⊆ all) : s.Named all d.value := by
  induction d with
  | string | integer => exact .of_unnamed rfl (by simp [value, Expr.calls])
  | name => exact .name (h (by simp [tokens]))
  | paren opening inner closing ih =>
    have hinner := ih fun t ht => h (by simp [tokens, ht])
    exact .of_unnamed rfl hinner.callees
  | bare => exact fun e he => he
  | member newlines dot ident more ih =>
    intro e he
    exact ih (fun t ht => h (by simp [tokens, ht])) _ (.dot he (h (by simp [tokens])))
  | call opening args closing more ihArgs ih =>
    intro e he
    exact ih (fun t ht => h (by simp [tokens, ht])) _
      (.call he (ihArgs fun t ht => h (by simp [tokens, ht])))
  | operand first more ihFirst ih =>
    exact ih (fun t ht => h (by simp [tokens, ht])) _
      (ihFirst fun t ht => h (by simp [tokens, ht]))
  | last => exact fun e he => he
  | link op sign newlines next more ihNext ih =>
    intro e he
    have hnext := Operator.named_operand.1 (ihNext fun t ht => h (by simp [tokens, ht]))
    exact ih (fun t ht => h (by simp [tokens, ht])) _ (.binary he hnext)
  | chain op first more ihFirst ih =>
    have hfirst := Operator.named_operand.1 (ihFirst fun t ht => h (by simp [tokens, ht]))
    exact ih (fun t ht => h (by simp [tokens, ht])) _ hfirst
  | nothing => simp [Symbol.Named, value]
  | something items ih => exact ih h
  | single arg ih => exact List.forall_mem_singleton.2 (ih h)
  | trailing arg comma ih =>
    exact List.forall_mem_singleton.2 (ih fun t ht => h (by simp [tokens, ht]))
  | further arg comma more ihArg ih =>
    exact List.forall_mem_cons.2 ⟨ihArg fun t ht => h (by simp [tokens, ht]),
      ih fun t ht => h (by simp [tokens, ht])⟩

theorem StatementDerivation.named {all : List Token} (d : StatementDerivation)
    (h : d.tokens ⊆ all) : d.statement.expr.Named all := by
  rw [d.statement_expr]
  exact d.expr.named fun t ht => h (d.infix_expr.subset ht)

/-- The names of the callees of a script are tokens of its source. -/
theorem isNamed_of_mem_calls {source : List Char} {script : Script} {tokens : Tokens}
    (hscript : Script.ofSource source = .ok script)
    (htokens : Tokens.ofSource source = .ok tokens) {call : Call} (hcall : call ∈ script.calls) :
    call.callee.IsNamed tokens.items := by
  obtain ⟨tokens', htokens', d, hd, rfl⟩ := exists_derivation hscript
  obtain rfl := Except.ok.inj (htokens'.symm.trans htokens)
  obtain ⟨s, hs, hcall⟩ := List.mem_flatMap.1 hcall
  obtain ⟨line, hline, rfl⟩ := List.mem_map.1 hs
  rw [← hd]
  exact (line.2.named (ScriptDerivation.infix_tokensOf hline).subset).callees call hcall

end Script

end RegexAudit
