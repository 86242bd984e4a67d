import RegexAudit.Script.Parser

/-!
# Where the literals of a script come from

Parsing takes string literals from the tokens as they are. Every literal that occurs in a parsed
script is therefore a literal of the source, at its own span.

## Main definitions

* `Expr.Occurs`: an expression is part of another.
* `Expr.ReadFrom`: all literals in an expression are tokens.
* `ExprReader.Faithful`: a reader makes up no literals.

## Main statements

* `ExprReader.within_faithful`: the readers of expressions make up no literals.
* `Script.readFrom_of_mem`: the literals of a script are those of its source.
* `Script.readFrom_of_mem_calls`: so are those in the callee and the arguments of its calls.
-/

namespace RegexAudit

namespace Script

/-- The first expression is the second one or a part of it. -/
inductive Expr.Occurs : Expr → Expr → Prop
  | refl (e : Expr) : Occurs e e
  | lhs {e lhs rhs : Expr} {range : Span} {op : Operator} :
      Occurs e lhs → Occurs e (.binary range op lhs rhs)
  | rhs {e lhs rhs : Expr} {range : Span} {op : Operator} :
      Occurs e rhs → Occurs e (.binary range op lhs rhs)
  | receiver {e receiver : Expr} {range : Span} {member : Ident} :
      Occurs e receiver → Occurs e (.dot range receiver member)
  | callee {e callee : Expr} {range : Span} {args : List Expr} :
      Occurs e callee → Occurs e (.call range callee args)
  | arg {e callee arg : Expr} {range : Span} {args : List Expr} :
      arg ∈ args → Occurs e arg → Occurs e (.call range callee args)
  | inner {e inner : Expr} {range : Span} : Occurs e inner → Occurs e (.paren range inner)

/-- A part of a part is a part. -/
theorem Expr.Occurs.trans {d e f : Expr} (h : d.Occurs e) (h' : e.Occurs f) : d.Occurs f := by
  induction h' with
  | refl => exact h
  | lhs _ ih => exact .lhs ih
  | rhs _ ih => exact .rhs ih
  | receiver _ ih => exact .receiver ih
  | callee _ ih => exact .callee ih
  | arg hmem _ ih => exact .arg hmem ih
  | inner _ ih => exact .inner ih

namespace Expr

mutual

/-- Every call of an expression occurs in it. -/
theorem occurs_of_mem_calls {e : Expr} {call : Call} (h : call ∈ e.calls) :
    ∃ range, Occurs (.call range call.callee call.args) e := by
  match e with
  | .string .. | .integer .. | .name .. => simp [calls] at h
  | .binary _ _ lhs rhs =>
    rw [calls] at h
    rcases List.mem_append.1 h with h | h
    · obtain ⟨range, hocc⟩ := occurs_of_mem_calls h
      exact ⟨range, .lhs hocc⟩
    · obtain ⟨range, hocc⟩ := occurs_of_mem_calls h
      exact ⟨range, .rhs hocc⟩
  | .dot _ receiver _ =>
    rw [calls] at h
    obtain ⟨range, hocc⟩ := occurs_of_mem_calls h
    exact ⟨range, .receiver hocc⟩
  | .call range callee args =>
    rw [calls] at h
    rcases List.mem_cons.1 h with rfl | h
    · exact ⟨range, .refl _⟩
    · rcases List.mem_append.1 h with h | h
      · obtain ⟨range, hocc⟩ := occurs_of_mem_calls h
        exact ⟨range, .callee hocc⟩
      · obtain ⟨arg, harg, range, hocc⟩ := occurs_of_mem_callsAll h
        exact ⟨range, .arg harg hocc⟩
  | .paren _ inner =>
    rw [calls] at h
    obtain ⟨range, hocc⟩ := occurs_of_mem_calls h
    exact ⟨range, .inner hocc⟩

theorem occurs_of_mem_callsAll {es : List Expr} {call : Call} (h : call ∈ callsAll es) :
    ∃ e ∈ es, ∃ range, Occurs (.call range call.callee call.args) e := by
  match es with
  | [] => simp [callsAll] at h
  | e :: es =>
    rw [callsAll] at h
    rcases List.mem_append.1 h with h | h
    · exact ⟨e, by simp, occurs_of_mem_calls h⟩
    · obtain ⟨e', he', hocc⟩ := occurs_of_mem_callsAll h
      exact ⟨e', List.mem_cons_of_mem e he', hocc⟩

end

end Expr

/-- All literals in an expression are among the tokens, each at its own span. -/
def Expr.ReadFrom (tokens : List Token) (e : Expr) : Prop :=
  ∀ range l, Occurs (.string range l) e → ⟨.string l, range⟩ ∈ tokens

namespace Expr.ReadFrom

variable {tokens : List Token} {range : Span}

/-- The literals of a part are literals of the whole. -/
theorem of_occurs {e f : Expr} (h : f.ReadFrom tokens) (hocc : e.Occurs f) : e.ReadFrom tokens :=
  fun range l hl => h range l (hl.trans hocc)

theorem string {l : StringLiteral} (h : ⟨.string l, range⟩ ∈ tokens) :
    (Expr.string range l).ReadFrom tokens := by
  intro r l' hocc
  cases hocc
  exact h

theorem integer (value : Nat) : (Expr.integer range value).ReadFrom tokens := by
  intro r l hocc
  cases hocc

theorem name (text : String) : (Expr.name range text).ReadFrom tokens := by
  intro r l hocc
  cases hocc

theorem binary {op : Operator} {lhs rhs : Expr} (hl : lhs.ReadFrom tokens)
    (hr : rhs.ReadFrom tokens) : (Expr.binary range op lhs rhs).ReadFrom tokens := by
  intro r l hocc
  cases hocc with
  | lhs hocc => exact hl r l hocc
  | rhs hocc => exact hr r l hocc

theorem dot {receiver : Expr} (member : Ident) (h : receiver.ReadFrom tokens) :
    (Expr.dot range receiver member).ReadFrom tokens := by
  intro r l hocc
  cases hocc with
  | receiver hocc => exact h r l hocc

theorem call {callee : Expr} {args : List Expr} (hcallee : callee.ReadFrom tokens)
    (hargs : ∀ a ∈ args, a.ReadFrom tokens) : (Expr.call range callee args).ReadFrom tokens := by
  intro r l hocc
  cases hocc with
  | callee hocc => exact hcallee r l hocc
  | arg hmem hocc => exact hargs _ hmem r l hocc

theorem paren {inner : Expr} (h : inner.ReadFrom tokens) :
    (Expr.paren range inner).ReadFrom tokens := by
  intro r l hocc
  cases hocc with
  | inner hocc => exact h r l hocc

end Expr.ReadFrom

section Suffixes

variable {tokens ts rest : List Token}

theorem suffix_of_cons {t : Token} (h : t :: rest <:+ tokens) : rest <:+ tokens :=
  (List.suffix_cons t rest).trans h

theorem skipNewlines_suffix (h : ts <:+ tokens) : skipNewlines ts <:+ tokens :=
  (List.dropWhile_suffix _).trans h

theorem skipSeparators_suffix (h : ts <:+ tokens) : skipSeparators ts <:+ tokens :=
  (List.dropWhile_suffix _).trans h

theorem afterDot?_suffix (h : ts <:+ tokens) (hdot : afterDot? ts = some rest) :
    rest <:+ tokens := by
  have hskip := skipNewlines_suffix h
  unfold afterDot? at hdot
  split at hdot
  · next heq =>
    rw [heq] at hskip
    rw [← Option.some.inj hdot]
    exact suffix_of_cons hskip
  · simp at hdot

theorem readIdent_suffix {i : Ident} (h : ts <:+ tokens) (hread : readIdent ts = .ok (i, rest)) :
    rest <:+ tokens := by
  unfold readIdent at hread
  split at hread
  · obtain ⟨-, rfl⟩ := Prod.mk.inj (Except.ok.inj hread)
    exact suffix_of_cons h
  · simp at hread

theorem readClose_suffix {range : Span} (h : ts <:+ tokens)
    (hread : readClose ts = .ok (range, rest)) : rest <:+ tokens := by
  unfold readClose at hread
  split at hread
  · obtain ⟨-, rfl⟩ := Prod.mk.inj (Except.ok.inj hread)
    exact suffix_of_cons h
  · simp at hread

theorem readEquals_suffix {u : Unit} (h : ts <:+ tokens) (hread : readEquals ts = .ok (u, rest)) :
    rest <:+ tokens := by
  unfold readEquals at hread
  split at hread
  · obtain ⟨-, rfl⟩ := Prod.mk.inj (Except.ok.inj hread)
    exact suffix_of_cons h
  · simp at hread

theorem afterComma?_suffix (h : ts <:+ tokens) (hcomma : ExprReader.afterComma? ts = some rest) :
    rest <:+ tokens := by
  unfold ExprReader.afterComma? at hcomma
  split at hcomma
  · rw [← Option.some.inj hcomma]
    exact suffix_of_cons h
  · simp at hcomma

theorem afterOr?_suffix (h : ts <:+ tokens) (hor : ExprReader.afterOr? ts = some rest) :
    rest <:+ tokens := by
  unfold ExprReader.afterOr? at hor
  split at hor
  · split at hor
    · rw [← Option.some.inj hor]
      exact suffix_of_cons h
    · simp at hor
  · simp at hor

end Suffixes

namespace ExprReader

/-- Reading some of the tokens leaves some of them, and all literals read are among them. -/
def Faithful (tokens : List Token) (inner : ExprReader) : Prop :=
  ∀ {ts e rest}, ts <:+ tokens → inner.run ts = .ok (e, rest) →
    rest <:+ tokens ∧ e.ReadFrom tokens

variable {tokens ts rest : List Token} {inner : ExprReader}

theorem primary_faithful (hinner : inner.Faithful tokens) {e : Expr} (hts : ts <:+ tokens)
    (h : inner.primary ts = .ok (e, rest)) : rest <:+ tokens ∧ e.ReadFrom tokens := by
  unfold primary at h
  split at h
  · obtain ⟨rfl, rfl⟩ := Prod.mk.inj (Except.ok.inj h)
    exact ⟨suffix_of_cons hts, .string (hts.subset (by simp))⟩
  · obtain ⟨rfl, rfl⟩ := Prod.mk.inj (Except.ok.inj h)
    exact ⟨suffix_of_cons hts, .integer _⟩
  · obtain ⟨rfl, rfl⟩ := Prod.mk.inj (Except.ok.inj h)
    exact ⟨suffix_of_cons hts, .name _⟩
  · split at h
    · simp at h
    · next hrun =>
      obtain ⟨hrest, he⟩ := hinner (suffix_of_cons hts) hrun
      split at h
      · simp at h
      · next hclose =>
        obtain ⟨rfl, rfl⟩ := admit?_eq_ok h
        exact ⟨readClose_suffix hrest hclose, .paren he⟩
  · simp at h

theorem arguments_faithful (hinner : inner.Faithful tokens) {args args' : List Expr}
    (hts : ts <:+ tokens) (hargs : ∀ a ∈ args, a.ReadFrom tokens)
    (h : inner.arguments args ts = .ok (args', rest)) :
    rest <:+ tokens ∧ ∀ a ∈ args', a.ReadFrom tokens := by
  fun_induction arguments inner args ts with
  | case1 => simp at h
  | case2 args ts e rest₀ hrun hcomma =>
    obtain ⟨hrest, he⟩ := hinner hts hrun
    obtain ⟨rfl, rfl⟩ := Prod.mk.inj (Except.ok.inj h)
    have hall := List.forall_mem_cons.2 ⟨he, hargs⟩
    exact ⟨hrest, fun a ha => hall a (List.mem_reverse.1 ha)⟩
  | case3 args ts e rest₀ hrun rest' hcomma hcloses =>
    obtain ⟨hrest, he⟩ := hinner hts hrun
    obtain ⟨rfl, rfl⟩ := Prod.mk.inj (Except.ok.inj h)
    have hall := List.forall_mem_cons.2 ⟨he, hargs⟩
    exact ⟨afterComma?_suffix hrest hcomma, fun a ha => hall a (List.mem_reverse.1 ha)⟩
  | case4 args ts e rest₀ hrun rest' hcomma hcloses ih =>
    obtain ⟨hrest, he⟩ := hinner hts hrun
    exact ih (afterComma?_suffix hrest hcomma) (List.forall_mem_cons.2 ⟨he, hargs⟩) h

theorem argumentList_faithful (hinner : inner.Faithful tokens) {args : List Expr}
    (hts : ts <:+ tokens) (h : inner.argumentList ts = .ok (args, rest)) :
    rest <:+ tokens ∧ ∀ a ∈ args, a.ReadFrom tokens := by
  unfold argumentList at h
  split at h
  · obtain ⟨rfl, rfl⟩ := Prod.mk.inj (Except.ok.inj h)
    exact ⟨hts, by simp⟩
  · exact arguments_faithful hinner hts (by simp) h

theorem suffix?_faithful (hinner : inner.Faithful tokens) {e e' : Expr} (hts : ts <:+ tokens)
    (he : e.ReadFrom tokens) (h : inner.suffix? e ts = some (.ok (e', rest))) :
    rest <:+ tokens ∧ e'.ReadFrom tokens := by
  unfold suffix? at h
  split at h
  · next hdot =>
    have hrest := afterDot?_suffix hts hdot
    split at h
    · simp at h
    · next hident =>
      obtain ⟨rfl, rfl⟩ := admit?_eq_ok (Option.some.inj h)
      exact ⟨readIdent_suffix hrest hident, .dot _ he⟩
  · split at h
    · split at h
      · simp at h
      · next hlist =>
        obtain ⟨hrest, hargs⟩ := argumentList_faithful hinner (suffix_of_cons hts) hlist
        split at h
        · simp at h
        · next hclose =>
          obtain ⟨rfl, rfl⟩ := admit?_eq_ok (Option.some.inj h)
          exact ⟨readClose_suffix hrest hclose, .call he hargs⟩
    · simp at h

theorem suffixes_faithful (hinner : inner.Faithful tokens) {e e' : Expr} (hts : ts <:+ tokens)
    (he : e.ReadFrom tokens) (h : inner.suffixes e ts = .ok (e', rest)) :
    rest <:+ tokens ∧ e'.ReadFrom tokens := by
  fun_induction suffixes inner e ts with
  | case1 =>
    obtain ⟨rfl, rfl⟩ := Prod.mk.inj (Except.ok.inj h)
    exact ⟨hts, he⟩
  | case2 => simp at h
  | case3 e ts e₁ rest₁ hsuffix ih =>
    obtain ⟨hrest, he₁⟩ := suffix?_faithful hinner hts he hsuffix
    exact ih hrest he₁ h

theorem operand_faithful (hinner : inner.Faithful tokens) {e : Expr} (hts : ts <:+ tokens)
    (h : inner.operand ts = .ok (e, rest)) : rest <:+ tokens ∧ e.ReadFrom tokens := by
  unfold operand at h
  split at h
  · simp at h
  · next hprimary =>
    obtain ⟨hrest, he⟩ := primary_faithful hinner hts hprimary
    exact suffixes_faithful hinner hrest he h

theorem addends_faithful (hinner : inner.Faithful tokens) {lhs e : Expr} (hts : ts <:+ tokens)
    (hlhs : lhs.ReadFrom tokens) (h : inner.addends lhs ts = .ok (e, rest)) :
    rest <:+ tokens ∧ e.ReadFrom tokens := by
  fun_induction addends inner lhs ts with
  | case1 => simp at h
  | case2 => simp at h
  | case3 lhs range rest₀ rhs rest' hoperand e₁ rest₁ hstart ih =>
    obtain ⟨hrest, hrhs⟩ :=
      operand_faithful hinner (skipNewlines_suffix (suffix_of_cons hts)) hoperand
    obtain ⟨rfl, rfl⟩ := admit?_eq_ok hstart
    exact ih hrest (.binary hlhs hrhs) h
  | case4 =>
    obtain ⟨rfl, rfl⟩ := Prod.mk.inj (Except.ok.inj h)
    exact ⟨hts, hlhs⟩

theorem sum_faithful (hinner : inner.Faithful tokens) {e : Expr} (hts : ts <:+ tokens)
    (h : inner.sum ts = .ok (e, rest)) : rest <:+ tokens ∧ e.ReadFrom tokens := by
  unfold sum at h
  split at h
  · simp at h
  · next hoperand =>
    obtain ⟨hrest, he⟩ := operand_faithful hinner hts hoperand
    exact addends_faithful hinner hrest he h

theorem alternatives_faithful (hinner : inner.Faithful tokens) {lhs e : Expr}
    (hts : ts <:+ tokens) (hlhs : lhs.ReadFrom tokens)
    (h : inner.alternatives lhs ts = .ok (e, rest)) : rest <:+ tokens ∧ e.ReadFrom tokens := by
  fun_induction alternatives inner lhs ts with
  | case1 =>
    obtain ⟨rfl, rfl⟩ := Prod.mk.inj (Except.ok.inj h)
    exact ⟨hts, hlhs⟩
  | case2 => simp at h
  | case3 => simp at h
  | case4 lhs ts rest₀ hor rhs rest' hsum e₁ rest₁ hstart ih =>
    obtain ⟨hrest, hrhs⟩ :=
      sum_faithful hinner (skipNewlines_suffix (afterOr?_suffix hts hor)) hsum
    obtain ⟨rfl, rfl⟩ := admit?_eq_ok hstart
    exact ih hrest (.binary hlhs hrhs) h

theorem expr_faithful (hinner : inner.Faithful tokens) {e : Expr} (hts : ts <:+ tokens)
    (h : inner.expr ts = .ok (e, rest)) : rest <:+ tokens ∧ e.ReadFrom tokens := by
  unfold expr at h
  split at h
  · simp at h
  · next hsum =>
    obtain ⟨hrest, he⟩ := sum_faithful hinner hts hsum
    exact alternatives_faithful hinner hrest he h

/-- The readers of expressions make up no literals, however deep they read. -/
theorem within_faithful (tokens : List Token) (levels : Nat) :
    (within levels).Faithful tokens := by
  -- A reader is built from the one a level further in, and the innermost reads nothing.
  induction levels with
  | zero =>
    intro ts e rest _ h
    simp [within] at h
  | succ levels ih =>
    intro ts e rest hts h
    exact expr_faithful ih hts h

end ExprReader

section Statements

variable {tokens ts rest : List Token}

theorem readExpr_faithful {e : Expr} (hts : ts <:+ tokens) (h : readExpr ts = .ok (e, rest)) :
    rest <:+ tokens ∧ e.ReadFrom tokens :=
  ExprReader.within_faithful tokens maxNesting hts h

theorem readExprAs_faithful {statement : Expr → Statement} {s : Statement}
    (hstatement : ∀ e, (statement e).expr = e) (hts : ts <:+ tokens)
    (h : readExprAs statement ts = .ok (s, rest)) : rest <:+ tokens ∧ s.expr.ReadFrom tokens := by
  unfold readExprAs at h
  split at h
  · simp at h
  · next hread =>
    obtain ⟨rfl, rfl⟩ := Prod.mk.inj (Except.ok.inj h)
    rw [hstatement]
    exact readExpr_faithful hts hread

theorem readDeclaration_faithful {isMutable : Bool} {s : Statement} (hts : ts <:+ tokens)
    (h : readDeclaration isMutable ts = .ok (s, rest)) :
    rest <:+ tokens ∧ s.expr.ReadFrom tokens := by
  unfold readDeclaration at h
  simp only [bind, Except.bind, pure, Except.pure] at h
  split at h
  · simp at h
  · next hident =>
    split at h
    · simp at h
    · next hequals =>
      split at h
      · simp at h
      · next hexpr =>
        obtain ⟨rfl, rfl⟩ := Prod.mk.inj (Except.ok.inj h)
        exact readExpr_faithful (readEquals_suffix (readIdent_suffix hts hident) hequals) hexpr

/-- Reading a statement makes up no literals. -/
theorem readStatement_faithful {s : Statement} (hts : ts <:+ tokens)
    (h : readStatement ts = .ok (s, rest)) : rest <:+ tokens ∧ s.expr.ReadFrom tokens := by
  unfold readStatement at h
  split at h
  · split at h
    · exact readDeclaration_faithful (suffix_of_cons hts) h
    · split at h
      · exact readExprAs_faithful (fun _ => rfl) (suffix_of_cons (suffix_of_cons hts)) h
      · exact readExprAs_faithful (fun _ => rfl) hts h
  · exact readExprAs_faithful (fun _ => rfl) hts h

theorem readStatements_faithful {before statements : List Statement} (hts : ts <:+ tokens)
    (hbefore : ∀ s ∈ before, s.expr.ReadFrom tokens)
    (h : readStatements before ts = .ok statements) :
    ∀ s ∈ statements, s.expr.ReadFrom tokens := by
  fun_induction readStatements before ts with
  | case1 before ts hskip =>
    simp only [Except.ok.injEq] at h
    subst h
    intro s hs
    exact hbefore s (List.mem_reverse.1 hs)
  | case2 => simp at h
  | case3 before ts t ts' hskip s rest hread hends ih =>
    have hskipped := skipSeparators_suffix hts
    rw [hskip] at hskipped
    obtain ⟨hrest, hs⟩ := readStatement_faithful hskipped hread
    exact ih hrest (List.forall_mem_cons.2 ⟨hs, hbefore⟩) h
  | case4 => simp at h

end Statements

/-- The literals that occur in a script are those of its source. -/
theorem readFrom_of_mem {source : List Char} {script : Script}
    (h : Script.ofSource source = .ok script) :
    ∃ tokens, Tokens.ofSource source = .ok tokens ∧
      ∀ s ∈ script.statements, s.expr.ReadFrom tokens.items := by
  unfold Script.ofSource at h
  split at h
  · simp at h
  · next tokens htokens =>
    refine ⟨tokens, htokens, ?_⟩
    split at h
    · simp at h
    · next statements hread =>
      simp only [Except.ok.injEq] at h
      subst h
      exact readStatements_faithful List.suffix_rfl (by simp) hread

/-- The literals in the parts of the calls of a script are those of its source. -/
theorem readFrom_of_mem_calls {script : Script} {tokens : List Token}
    (h : ∀ s ∈ script.statements, s.expr.ReadFrom tokens) {call : Call}
    (hcall : call ∈ script.calls) :
    call.callee.ReadFrom tokens ∧ ∀ a ∈ call.args, a.ReadFrom tokens := by
  obtain ⟨s, hs, hcall⟩ := List.mem_flatMap.1 hcall
  obtain ⟨range, hocc⟩ := Expr.occurs_of_mem_calls hcall
  have hread := (h s hs).of_occurs hocc
  refine ⟨hread.of_occurs (.callee (.refl _)), ?_⟩
  intro a ha
  exact hread.of_occurs (.arg ha (.refl a))

end Script

end RegexAudit
