import RegexAudit.Proofs.Script.Provenance

/-!
# Where the parser gives up

A script is read from its tokens. Every reader is given the last ones of them, and whether it
succeeds or not, the tokens that it leaves are again the last ones.

## Main definitions

* `Rejection.remaining`: the tokens in front of which the parser gives up.
* `ExprReader.RejectsIn`: a reader gives up in front of some of the tokens.

## Main statements

* `ExprReader.within_rejectsIn`: the readers of expressions.
* `readStatements_rejects`: the whole parser.
-/

namespace RegexAudit

namespace Script

/-- The tokens in front of which the parser gives up. -/
def Rejection.remaining : Rejection → List Token
  | expected _ remaining | nestedTooDeep remaining => remaining

section Rejections

variable {tokens ts rest : List Token} {r : Rejection}

theorem readIdent_rejects (hts : ts <:+ tokens) (h : readIdent ts = .error r) :
    r.remaining <:+ tokens := by
  unfold readIdent at h
  split at h
  · simp at h
  · rwa [← Except.error.inj h]

theorem readClose_rejects (hts : ts <:+ tokens) (h : readClose ts = .error r) :
    r.remaining <:+ tokens := by
  unfold readClose at h
  split at h
  · simp at h
  · rwa [← Except.error.inj h]

theorem readEquals_rejects (hts : ts <:+ tokens) (h : readEquals ts = .error r) :
    r.remaining <:+ tokens := by
  unfold readEquals at h
  split at h
  · simp at h
  · rwa [← Except.error.inj h]

theorem admit?_rejects {e : Expr} (hts : ts <:+ tokens) (h : admit? e ts = .error r) :
    r.remaining <:+ tokens := by
  unfold admit? at h
  split at h
  · simp at h
  · rwa [← Except.error.inj h]

namespace ExprReader

/-- Reading some of the tokens is given up in front of some of them. -/
def RejectsIn (tokens : List Token) (inner : ExprReader) : Prop :=
  ∀ {ts r}, ts <:+ tokens → inner.run ts = .error r → r.remaining <:+ tokens

variable {inner : ExprReader} (hinner : inner.Faithful tokens) (hrejects : inner.RejectsIn tokens)

include hinner hrejects

theorem primary_rejects (hts : ts <:+ tokens) (h : inner.primary ts = .error r) :
    r.remaining <:+ tokens := by
  unfold primary at h
  split at h
  · simp at h
  · simp at h
  · simp at h
  · split at h
    · next hrun =>
      rw [Except.error.inj h] at hrun
      exact hrejects (suffix_of_cons hts) hrun
    · next hrun =>
      obtain ⟨hrest, -⟩ := hinner (suffix_of_cons hts) hrun
      split at h
      · next hclose =>
        rw [Except.error.inj h] at hclose
        exact readClose_rejects hrest hclose
      · next hclose => exact admit?_rejects (readClose_suffix hrest hclose) h
  · rwa [← Except.error.inj h]

theorem arguments_rejects {args : List Expr} (hts : ts <:+ tokens)
    (h : inner.arguments args ts = .error r) : r.remaining <:+ tokens := by
  fun_induction arguments inner args ts with
  | case1 args ts r' hrun =>
    rw [Except.error.inj h] at hrun
    exact hrejects hts hrun
  | case2 => simp at h
  | case3 => simp at h
  | case4 args ts e rest₀ hrun rest' hcomma hcloses ih =>
    obtain ⟨hrest, -⟩ := hinner hts hrun
    exact ih (afterComma?_suffix hrest hcomma) h

theorem argumentList_rejects (hts : ts <:+ tokens) (h : inner.argumentList ts = .error r) :
    r.remaining <:+ tokens := by
  unfold argumentList at h
  split at h
  · simp at h
  · exact arguments_rejects hinner hrejects hts h

theorem suffix?_rejects {e : Expr} (hts : ts <:+ tokens)
    (h : inner.suffix? e ts = some (.error r)) : r.remaining <:+ tokens := by
  unfold suffix? at h
  split at h
  · next hdot =>
    have hrest := afterDot?_suffix hts hdot
    split at h
    · next hident =>
      rw [Except.error.inj (Option.some.inj h)] at hident
      exact readIdent_rejects hrest hident
    · next hident => exact admit?_rejects (readIdent_suffix hrest hident) (Option.some.inj h)
  · split at h
    · split at h
      · next hlist =>
        rw [Except.error.inj (Option.some.inj h)] at hlist
        exact argumentList_rejects hinner hrejects (suffix_of_cons hts) hlist
      · next hlist =>
        obtain ⟨hrest, -⟩ := argumentList_faithful hinner (suffix_of_cons hts) hlist
        split at h
        · next hclose =>
          rw [Except.error.inj (Option.some.inj h)] at hclose
          exact readClose_rejects hrest hclose
        · next hclose => exact admit?_rejects (readClose_suffix hrest hclose) (Option.some.inj h)
    · simp at h

theorem suffixes_rejects {e : Expr} (hts : ts <:+ tokens) (he : e.ReadFrom tokens)
    (h : inner.suffixes e ts = .error r) : r.remaining <:+ tokens := by
  fun_induction suffixes inner e ts with
  | case1 => simp at h
  | case2 e ts r' hsuffix =>
    rw [Except.error.inj h] at hsuffix
    exact suffix?_rejects hinner hrejects hts hsuffix
  | case3 e ts e₁ rest₁ hsuffix ih =>
    obtain ⟨hrest, he₁⟩ := suffix?_faithful hinner hts he hsuffix
    exact ih hrest he₁ h

theorem operand_rejects (hts : ts <:+ tokens) (h : inner.operand ts = .error r) :
    r.remaining <:+ tokens := by
  unfold operand at h
  split at h
  · next hprimary =>
    rw [Except.error.inj h] at hprimary
    exact primary_rejects hinner hrejects hts hprimary
  · next hprimary =>
    obtain ⟨hrest, he⟩ := primary_faithful hinner hts hprimary
    exact suffixes_rejects hinner hrejects hrest he h

theorem addends_rejects {lhs : Expr} (hts : ts <:+ tokens) (hlhs : lhs.ReadFrom tokens)
    (h : inner.addends lhs ts = .error r) : r.remaining <:+ tokens := by
  fun_induction addends inner lhs ts with
  | case1 lhs range rest₀ r' hoperand =>
    rw [Except.error.inj h] at hoperand
    exact operand_rejects hinner hrejects (skipNewlines_suffix (suffix_of_cons hts)) hoperand
  | case2 lhs range rest₀ rhs rest' hoperand r' hstart =>
    obtain ⟨hrest, -⟩ :=
      operand_faithful hinner (skipNewlines_suffix (suffix_of_cons hts)) hoperand
    rw [Except.error.inj h] at hstart
    exact admit?_rejects hrest hstart
  | case3 lhs range rest₀ rhs rest' hoperand e₁ rest₁ hstart ih =>
    obtain ⟨hrest, hrhs⟩ :=
      operand_faithful hinner (skipNewlines_suffix (suffix_of_cons hts)) hoperand
    obtain ⟨rfl, rfl⟩ := admit?_eq_ok hstart
    exact ih hrest (.binary hlhs hrhs) h
  | case4 => simp at h

theorem sum_rejects (hts : ts <:+ tokens) (h : inner.sum ts = .error r) :
    r.remaining <:+ tokens := by
  unfold sum at h
  split at h
  · next hoperand =>
    rw [Except.error.inj h] at hoperand
    exact operand_rejects hinner hrejects hts hoperand
  · next hoperand =>
    obtain ⟨hrest, he⟩ := operand_faithful hinner hts hoperand
    exact addends_rejects hinner hrejects hrest he h

theorem alternatives_rejects {lhs : Expr} (hts : ts <:+ tokens) (hlhs : lhs.ReadFrom tokens)
    (h : inner.alternatives lhs ts = .error r) : r.remaining <:+ tokens := by
  fun_induction alternatives inner lhs ts with
  | case1 => simp at h
  | case2 lhs ts rest₀ hor r' hsum =>
    rw [Except.error.inj h] at hsum
    exact sum_rejects hinner hrejects (skipNewlines_suffix (afterOr?_suffix hts hor)) hsum
  | case3 lhs ts rest₀ hor rhs rest' hsum r' hstart =>
    obtain ⟨hrest, -⟩ := sum_faithful hinner (skipNewlines_suffix (afterOr?_suffix hts hor)) hsum
    rw [Except.error.inj h] at hstart
    exact admit?_rejects hrest hstart
  | case4 lhs ts rest₀ hor rhs rest' hsum e₁ rest₁ hstart ih =>
    obtain ⟨hrest, hrhs⟩ :=
      sum_faithful hinner (skipNewlines_suffix (afterOr?_suffix hts hor)) hsum
    obtain ⟨rfl, rfl⟩ := admit?_eq_ok hstart
    exact ih hrest (.binary hlhs hrhs) h

theorem expr_rejects (hts : ts <:+ tokens) (h : inner.expr ts = .error r) :
    r.remaining <:+ tokens := by
  unfold expr at h
  split at h
  · next hsum =>
    rw [Except.error.inj h] at hsum
    exact sum_rejects hinner hrejects hts hsum
  · next hsum =>
    obtain ⟨hrest, he⟩ := sum_faithful hinner hts hsum
    exact alternatives_rejects hinner hrejects hrest he h

omit hinner hrejects

/-- The readers of expressions give up in front of some of the tokens, however deep they read. -/
theorem within_rejectsIn (tokens : List Token) (levels : Nat) :
    (within levels).RejectsIn tokens := by
  -- The innermost reader gives up at once, and any other one where a part of it does.
  induction levels with
  | zero =>
    intro ts r hts h
    rwa [← Except.error.inj h]
  | succ levels ih =>
    intro ts r hts h
    exact expr_rejects (within_faithful tokens levels) ih hts h

end ExprReader

theorem readExpr_rejects (hts : ts <:+ tokens) (h : readExpr ts = .error r) :
    r.remaining <:+ tokens :=
  ExprReader.within_rejectsIn tokens maxNesting hts h

theorem readExprAs_rejects {statement : Expr → Statement} (hts : ts <:+ tokens)
    (h : readExprAs statement ts = .error r) : r.remaining <:+ tokens := by
  unfold readExprAs at h
  split at h
  · next hread =>
    rw [Except.error.inj h] at hread
    exact readExpr_rejects hts hread
  · simp at h

theorem readDeclaration_rejects {isMutable : Bool} (hts : ts <:+ tokens)
    (h : readDeclaration isMutable ts = .error r) : r.remaining <:+ tokens := by
  unfold readDeclaration at h
  simp only [bind, Except.bind, pure, Except.pure] at h
  split at h
  · next hident =>
    rw [Except.error.inj h] at hident
    exact readIdent_rejects hts hident
  · next hident =>
    have hrest := readIdent_suffix hts hident
    split at h
    · next hequals =>
      rw [Except.error.inj h] at hequals
      exact readEquals_rejects hrest hequals
    · next hequals =>
      split at h
      · next hexpr =>
        rw [Except.error.inj h] at hexpr
        exact readExpr_rejects (readEquals_suffix hrest hequals) hexpr
      · simp at h

theorem readStatement_rejects (hts : ts <:+ tokens) (h : readStatement ts = .error r) :
    r.remaining <:+ tokens := by
  unfold readStatement at h
  split at h
  · split at h
    · exact readDeclaration_rejects (suffix_of_cons hts) h
    · split at h
      · exact readExprAs_rejects (suffix_of_cons (suffix_of_cons hts)) h
      · exact readExprAs_rejects hts h
  · exact readExprAs_rejects hts h

/-- The statements of a script are given up in front of some of its tokens. -/
theorem readStatements_rejects {statements : List Statement} (hts : ts <:+ tokens)
    (h : readStatements statements ts = .error r) : r.remaining <:+ tokens := by
  fun_induction readStatements statements ts with
  | case1 => simp at h
  | case2 statements ts t ts' hskip r' hread =>
    have hskipped := skipSeparators_suffix hts
    rw [hskip] at hskipped
    rw [Except.error.inj h] at hread
    exact readStatement_rejects hskipped hread
  | case3 statements ts t ts' hskip s rest hread hends ih =>
    have hskipped := skipSeparators_suffix hts
    rw [hskip] at hskipped
    exact ih (readStatement_faithful hskipped hread).1 h
  | case4 statements ts t ts' hskip s rest hread hends =>
    have hskipped := skipSeparators_suffix hts
    rw [hskip] at hskipped
    rw [← Except.error.inj h]
    exact (readStatement_faithful hskipped hread).1

end Rejections

end Script

end RegexAudit
