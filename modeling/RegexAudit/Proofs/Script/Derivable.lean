import RegexAudit.Proofs.Script.Unambiguity

/-!
# What is read has a derivation

Whenever a reader accepts some tokens, there is a derivation of them, and the tree it returns is the
value of that derivation and keeps to the limits.

## Main definitions

* `Expr.Fits`: an expression keeps to the limit of height, and to some levels of nesting.
* `ExprReader.joined`, `ExprReader.links`, `ExprReader.chained`: the readers of operands, of further
  operands and of chains, for either operator.
* `ExprReader.Sound`: what a reader accepts has a derivation and fits.

## Main statements

* `ExprReader.within_sound`: the readers of expressions are sound.
* `readStatements_sound`: what is read as a script has the derivation of a script.
* `exists_derivation`: so every parsed script is derived from the tokens of its source.
-/

namespace RegexAudit

namespace Script

namespace Expr

/-- The expression keeps to the limit of height, and fits in some levels of nesting, its own among
them. -/
def Fits (levels : Nat) (e : Expr) : Prop := e.height ≤ maxNesting ∧ e.enclosure < levels

variable {range : Span} {levels : Nat}

theorem heightAll_le_iff {es : List Expr} {n : Nat} :
    heightAll es ≤ n ↔ ∀ e ∈ es, e.height ≤ n := by
  induction es with
  | nil => simp [heightAll]
  | cons e es ih => rw [heightAll, Nat.max_le, ih, List.forall_mem_cons]

theorem enclosureAll_le_iff {es : List Expr} {n : Nat} :
    enclosureAll es ≤ n ↔ ∀ e ∈ es, e.enclosure < n := by
  induction es with
  | nil => simp [enclosureAll]
  | cons e es ih => rw [enclosureAll, Nat.max_le, Nat.succ_le_iff, ih, List.forall_mem_cons]

theorem fits_binary {op : Operator} {lhs rhs : Expr} :
    (binary range op lhs rhs).Fits levels ↔
      (binary range op lhs rhs).height ≤ maxNesting ∧ lhs.Fits levels ∧ rhs.Fits levels := by
  simp only [Fits, height, enclosure]
  omega

theorem fits_dot {receiver : Expr} {member : Ident} :
    (dot range receiver member).Fits levels ↔
      (dot range receiver member).height ≤ maxNesting ∧ receiver.Fits levels := by
  simp only [Fits, height, enclosure]
  omega

/-- The arguments of a call are a level further in than the call. -/
theorem fits_call {callee : Expr} {args : List Expr} :
    (call range callee args).Fits (levels + 1) ↔
      (call range callee args).height ≤ maxNesting ∧ callee.Fits (levels + 1) ∧
        ∀ a ∈ args, a.Fits levels := by
  simp only [Fits, height, enclosure, forall_and, ← heightAll_le_iff, ← enclosureAll_le_iff]
  omega

/-- What stands in parentheses is a level further in than they are. -/
theorem fits_paren {inner : Expr} :
    (paren range inner).Fits (levels + 1) ↔
      (paren range inner).height ≤ maxNesting ∧ inner.Fits levels := by
  simp only [Fits, height, enclosure]
  omega

end Expr

section Readers

variable {ts rest : List Token}

theorem admit?_eq_ok_iff {e e' : Expr} {rest' : List Token} :
    admit? e rest = .ok (e', rest') ↔ e.height ≤ maxNesting ∧ e = e' ∧ rest = rest' := by
  unfold admit?
  split
  · next hheight => simp [hheight]
  · next hheight => simp [hheight]

theorem exists_newlineTokens (ts : List Token) :
    ∃ newlines, newlineTokens newlines ++ skipNewlines ts = ts := by
  induction ts with
  | nil => exact ⟨[], rfl⟩
  | cons t ts ih =>
    by_cases ht : t.kind = .newline
    · obtain ⟨newlines, hts⟩ := ih
      refine ⟨t.range :: newlines, ?_⟩
      rw [skipNewlines, List.dropWhile_cons_of_pos (by simp [ht])]
      obtain ⟨kind, range⟩ := t
      obtain rfl : kind = .newline := ht
      exact congrArg (_ :: ·) hts
    · refine ⟨[], ?_⟩
      rw [skipNewlines, List.dropWhile_cons_of_neg (by simp [ht])]
      rfl

theorem exists_dot_of_afterDot? (h : afterDot? ts = some rest) :
    ∃ newlines dot, newlineTokens newlines ++ ⟨.dot, dot⟩ :: rest = ts := by
  obtain ⟨newlines, hts⟩ := exists_newlineTokens ts
  unfold afterDot? at h
  split at h
  · next dot rest' heq =>
    obtain rfl := Option.some.inj h
    exact ⟨newlines, dot, by rw [← heq, hts]⟩
  · simp at h

theorem readIdent_eq_ok {i : Ident} (h : readIdent ts = .ok (i, rest)) :
    ⟨.name i.text, i.range⟩ :: rest = ts := by
  unfold readIdent at h
  split at h
  · obtain ⟨rfl, rfl⟩ := Prod.mk.inj (Except.ok.inj h)
    rfl
  · simp at h

theorem readClose_eq_ok {range : Span} (h : readClose ts = .ok (range, rest)) :
    ⟨.closeParen, range⟩ :: rest = ts := by
  unfold readClose at h
  split at h
  · obtain ⟨rfl, rfl⟩ := Prod.mk.inj (Except.ok.inj h)
    rfl
  · simp at h

theorem exists_equals_of_readEquals {u : Unit} (h : readEquals ts = .ok (u, rest)) :
    ∃ range, ⟨.equals, range⟩ :: rest = ts := by
  unfold readEquals at h
  split at h
  · next range _ =>
    obtain ⟨-, rfl⟩ := Prod.mk.inj (Except.ok.inj h)
    exact ⟨range, rfl⟩
  · simp at h

theorem exists_comma_of_afterComma? (h : ExprReader.afterComma? ts = some rest) :
    ∃ range, ⟨.comma, range⟩ :: rest = ts := by
  unfold ExprReader.afterComma? at h
  split at h
  · next range _ =>
    obtain rfl := Option.some.inj h
    exact ⟨range, rfl⟩
  · simp at h

end Readers

namespace ExprReader

/-- The reader of what an operator joins. -/
def joined (inner : ExprReader) : Operator → List Token → Reading Expr
  | .plus => inner.operand
  | .or => inner.sum

/-- The reader of further operands of an operator. -/
def links (inner : ExprReader) : Operator → Expr → List Token → Reading Expr
  | .plus => inner.addends
  | .or => inner.alternatives

/-- The reader of the chains of an operator. -/
def chained (inner : ExprReader) : Operator → List Token → Reading Expr
  | .plus => inner.sum
  | .or => inner.expr

/-- What the reader accepts has a derivation and fits in some levels of nesting. -/
def Sound (levels : Nat) (inner : ExprReader) : Prop :=
  ∀ {ts e rest}, inner.run ts = .ok (e, rest) →
    (∃ d : ExprDerivation, d.tokens ++ rest = ts ∧ d.value = e) ∧ e.Fits levels

/-- The same for the reader of what an operator joins, a level further out. -/
def JoinedSound (levels : Nat) (op : Operator) (inner : ExprReader) : Prop :=
  ∀ {ts e rest}, inner.joined op ts = .ok (e, rest) →
    (∃ d : Derivation op.operand, d.tokens ++ rest = ts ∧ op.tree d.value = e) ∧
      e.Fits (levels + 1)

variable {ts rest : List Token} {levels : Nat} {inner : ExprReader} {op : Operator}

theorem primary_sound (hinner : inner.Sound levels) {e : Expr}
    (h : inner.primary ts = .ok (e, rest)) :
    (∃ d : Derivation .primary, d.tokens ++ rest = ts ∧ d.value = e) ∧ e.Fits (levels + 1) := by
  have hleaf : ∀ {e : Expr}, e.height = 0 → e.enclosure = 0 → e.Fits (levels + 1) := by
    intro e hheight henclosure
    exact ⟨by omega, by omega⟩
  unfold primary at h
  split at h
  · next literal range _ =>
    obtain ⟨rfl, rfl⟩ := Prod.mk.inj (Except.ok.inj h)
    exact ⟨⟨.string range literal, rfl, rfl⟩, hleaf rfl rfl⟩
  · next value range _ =>
    obtain ⟨rfl, rfl⟩ := Prod.mk.inj (Except.ok.inj h)
    exact ⟨⟨.integer range value, rfl, rfl⟩, hleaf rfl rfl⟩
  · next text range _ =>
    obtain ⟨rfl, rfl⟩ := Prod.mk.inj (Except.ok.inj h)
    exact ⟨⟨.name range text, rfl, rfl⟩, hleaf rfl rfl⟩
  · next opening _ =>
    split at h
    · simp at h
    · next hrun =>
      obtain ⟨⟨d, htokens, rfl⟩, hfits⟩ := hinner hrun
      split at h
      · simp at h
      · next closing _ hclose =>
        obtain ⟨hheight, rfl, rfl⟩ := admit?_eq_ok_iff.1 h
        have hts := readClose_eq_ok hclose
        exact ⟨⟨.paren opening d closing, by simp [Derivation.tokens, hts, htokens], rfl⟩,
          Expr.fits_paren.2 ⟨hheight, hfits⟩⟩
  · simp at h

theorem arguments_sound (hinner : inner.Sound levels) {args args' : List Expr}
    (h : inner.arguments args ts = .ok (args', rest)) :
    ∃ d : Derivation .items, d.tokens ++ rest = ts ∧ args' = args.reverse ++ d.value ∧
      ∀ a ∈ d.value, a.Fits levels := by
  fun_induction arguments inner args ts with
  | case1 => simp at h
  | case2 args ts e rest₀ hrun hcomma =>
    obtain ⟨⟨d, htokens, rfl⟩, hfits⟩ := hinner hrun
    obtain ⟨rfl, rfl⟩ := Prod.mk.inj (Except.ok.inj h)
    exact ⟨.single d, htokens, by simp [Derivation.value], by simpa [Derivation.value] using hfits⟩
  | case3 args ts e rest₀ hrun rest' hcomma hcloses =>
    obtain ⟨⟨d, htokens, rfl⟩, hfits⟩ := hinner hrun
    obtain ⟨rfl, rfl⟩ := Prod.mk.inj (Except.ok.inj h)
    obtain ⟨comma, hts⟩ := exists_comma_of_afterComma? hcomma
    exact ⟨.trailing d comma, by simp [Derivation.tokens, hts, htokens], by simp [Derivation.value],
      by simpa [Derivation.value] using hfits⟩
  | case4 args ts e rest₀ hrun rest' hcomma hcloses ih =>
    obtain ⟨⟨d, htokens, rfl⟩, hfits⟩ := hinner hrun
    obtain ⟨comma, hts⟩ := exists_comma_of_afterComma? hcomma
    obtain ⟨more, hmore, hargs, hall⟩ := ih h
    exact ⟨.further d comma more, by simp [Derivation.tokens, hmore, hts, htokens],
      by simp [Derivation.value, hargs], List.forall_mem_cons.2 ⟨hfits, hall⟩⟩

theorem argumentList_sound (hinner : inner.Sound levels) {args : List Expr}
    (h : inner.argumentList ts = .ok (args, rest)) :
    (∃ d : Derivation .arguments, d.tokens ++ rest = ts ∧ d.value = args) ∧
      ∀ a ∈ args, a.Fits levels := by
  unfold argumentList at h
  split at h
  · obtain ⟨rfl, rfl⟩ := Prod.mk.inj (Except.ok.inj h)
    exact ⟨⟨.nothing, rfl, rfl⟩, by simp⟩
  · obtain ⟨d, htokens, hargs, hall⟩ := arguments_sound hinner h
    rw [List.reverse_nil, List.nil_append] at hargs
    exact ⟨⟨.something d, htokens, hargs.symm⟩, hargs ▸ hall⟩

/-- What is read as a suffix extends the derivation of the suffixes behind it. -/
theorem suffix?_sound (hinner : inner.Sound levels) {e e' : Expr} (he : e.Fits (levels + 1))
    (h : inner.suffix? e ts = some (.ok (e', rest))) :
    (∀ (more : Derivation .suffixes) (rest' : List Token), more.tokens ++ rest' = rest →
      ∃ d : Derivation .suffixes, d.tokens ++ rest' = ts ∧ d.value e = more.value e') ∧
      e'.Fits (levels + 1) := by
  unfold suffix? at h
  split at h
  · next hdot =>
    split at h
    · simp at h
    · next member _ hident =>
      obtain ⟨hheight, rfl, rfl⟩ := admit?_eq_ok_iff.1 (Option.some.inj h)
      obtain ⟨newlines, dot, hts⟩ := exists_dot_of_afterDot? hdot
      have hname := readIdent_eq_ok hident
      refine ⟨?_, Expr.fits_dot.2 ⟨hheight, he⟩⟩
      intro more rest' hmore
      exact ⟨.member newlines dot member more, by simp [Derivation.tokens, hmore, hname, hts], rfl⟩
  · split at h
    · next opening _ _ =>
      split at h
      · simp at h
      · next args _ hlist =>
        obtain ⟨⟨d, htokens, rfl⟩, hall⟩ := argumentList_sound hinner hlist
        split at h
        · simp at h
        · next closing _ hclose =>
          obtain ⟨hheight, rfl, rfl⟩ := admit?_eq_ok_iff.1 (Option.some.inj h)
          have hts := readClose_eq_ok hclose
          refine ⟨?_, Expr.fits_call.2 ⟨hheight, he, hall⟩⟩
          intro more rest' hmore
          refine ⟨.call opening d closing more, ?_, rfl⟩
          simp [Derivation.tokens, hmore, hts, htokens]
    · simp at h

theorem suffixes_sound (hinner : inner.Sound levels) {e e' : Expr} (he : e.Fits (levels + 1))
    (h : inner.suffixes e ts = .ok (e', rest)) :
    (∃ d : Derivation .suffixes, d.tokens ++ rest = ts ∧ d.value e = e') ∧
      e'.Fits (levels + 1) := by
  fun_induction suffixes inner e ts with
  | case1 =>
    obtain ⟨rfl, rfl⟩ := Prod.mk.inj (Except.ok.inj h)
    exact ⟨⟨.bare, rfl, rfl⟩, he⟩
  | case2 => simp at h
  | case3 e ts e₁ rest₁ hsuffix ih =>
    obtain ⟨hextend, he₁⟩ := suffix?_sound hinner he hsuffix
    obtain ⟨⟨more, hmore, rfl⟩, hfits⟩ := ih he₁ h
    exact ⟨hextend more rest hmore, hfits⟩

theorem operand_sound (hinner : inner.Sound levels) {e : Expr}
    (h : inner.operand ts = .ok (e, rest)) :
    (∃ d : Derivation .operand, d.tokens ++ rest = ts ∧ d.value = e) ∧ e.Fits (levels + 1) := by
  unfold operand at h
  split at h
  · simp at h
  · next hprimary =>
    obtain ⟨⟨first, hfirst, rfl⟩, he⟩ := primary_sound hinner hprimary
    obtain ⟨⟨more, hmore, rfl⟩, hfits⟩ := suffixes_sound hinner he h
    exact ⟨⟨.operand first more, by simp [Derivation.tokens, hmore, hfirst], rfl⟩, hfits⟩

theorem links_of_not_leads {lhs : Expr} (h : ¬ Leads op.token ts) :
    inner.links op lhs ts = .ok (lhs, ts) := by
  cases op with
  | plus =>
    rw [links, addends]
    intro range rest heq
    exact h ⟨range, rest, heq⟩
  | or =>
    have hor : afterOr? ts = none := by
      unfold afterOr?
      split
      · split
        · next htext => exact absurd ⟨_, _, by rw [htext]; rfl⟩ h
        · rfl
      · rfl
    rw [links, alternatives]
    split <;> simp_all

/-- An operator joins the operand behind it to what stands in front. -/
theorem links_cons {lhs : Expr} {sign : Span} :
    inner.links op lhs (⟨op.token, sign⟩ :: ts) =
      match inner.joined op (skipNewlines ts) with
      | .error r => .error r
      | .ok (rhs, rest) =>
        match admit? (.binary (lhs.range.cover rhs.range) op lhs rhs) rest with
        | .error r => .error r
        | .ok (e, _) => inner.links op e rest := by
  cases op with
  | plus =>
    rw [links, Operator.token, addends, joined]
    split
    · next hread => rw [hread]
    · next hread => exact hread ▸ rfl
  | or =>
    have hor : afterOr? (⟨.name "or", sign⟩ :: ts) = some ts := rfl
    rw [links, Operator.token, alternatives, joined]
    split
    · next hnone => exact absurd (hor.symm.trans hnone) (by simp)
    · next hsome =>
      obtain rfl := Option.some.inj (hor.symm.trans hsome)
      split
      · next hread => rw [hread]
      · next hread => exact hread ▸ rfl

theorem joined_shrinks {e : Expr} (h : inner.joined op ts = .ok (e, rest)) :
    rest.length < ts.length := by
  cases op with
  | plus => exact operand_shrinks h
  | or => exact sum_shrinks h

/-- What is read as further operands is nothing, or an operator and an operand with others behind
it. -/
theorem links_cases {lhs e : Expr} (h : inner.links op lhs ts = .ok (e, rest)) :
    (e = lhs ∧ rest = ts) ∨
      ∃ sign newlines ts' rhs rest', ts = ⟨op.token, sign⟩ :: (newlineTokens newlines ++ ts') ∧
        inner.joined op ts' = .ok (rhs, rest') ∧ rest'.length < ts.length ∧
        (Expr.binary (lhs.range.cover rhs.range) op lhs rhs).height ≤ maxNesting ∧
        inner.links op (.binary (lhs.range.cover rhs.range) op lhs rhs) rest' = .ok (e, rest) := by
  by_cases hlead : Leads op.token ts
  · obtain ⟨sign, ts', rfl⟩ := hlead
    obtain ⟨newlines, hnewlines⟩ := exists_newlineTokens ts'
    rw [links_cons] at h
    split at h
    · simp at h
    · next rhs rest' hread =>
      split at h
      · simp at h
      · next hstart =>
        obtain ⟨hheight, rfl, -⟩ := admit?_eq_ok_iff.1 hstart
        have hshorter := joined_shrinks hread
        have hskipped := skipNewlines_length_le ts'
        refine .inr ⟨sign, newlines, _, rhs, rest', by rw [hnewlines], hread, ?_, hheight, h⟩
        rw [List.length_cons]
        omega
  · rw [links_of_not_leads hlead] at h
    obtain ⟨rfl, rfl⟩ := Prod.mk.inj (Except.ok.inj h)
    exact .inl ⟨rfl, rfl⟩

/-- The links of an operator are sound when what it joins is. -/
theorem links_sound (hjoined : inner.JoinedSound levels op) {lhs e : Expr}
    (hlhs : lhs.Fits (levels + 1)) (h : inner.links op lhs ts = .ok (e, rest)) :
    (∃ d : Derivation (.links op), d.tokens ++ rest = ts ∧ d.value lhs = e) ∧
      e.Fits (levels + 1) := by
  -- Every link takes tokens, so the induction is on how many there are.
  induction hlength : ts.length using Nat.strongRecOn generalizing lhs ts with
  | ind n ih =>
    rcases links_cases h with
      ⟨rfl, rfl⟩ | ⟨sign, newlines, ts', rhs, rest', rfl, hread, hshorter, hheight, hmore⟩
    · exact ⟨⟨.last op, rfl, rfl⟩, hlhs⟩
    · obtain ⟨⟨next, rfl, rfl⟩, hrhs⟩ := hjoined hread
      have hbinary := Expr.fits_binary.2 ⟨hheight, hlhs, hrhs⟩
      obtain ⟨⟨more, rfl, rfl⟩, hfits⟩ := ih _ (hlength ▸ hshorter) hbinary hmore rfl
      exact ⟨⟨.link op sign newlines next more, by simp [Derivation.tokens], rfl⟩, hfits⟩

theorem chained_sound (hjoined : inner.JoinedSound levels op) {e : Expr}
    (h : inner.chained op ts = .ok (e, rest)) :
    (∃ d : Derivation (.chain op), d.tokens ++ rest = ts ∧ d.value = e) ∧ e.Fits (levels + 1) := by
  obtain ⟨first, rest', hread, hmore⟩ : ∃ first rest', inner.joined op ts = .ok (first, rest') ∧
      inner.links op first rest' = .ok (e, rest) := by
    cases op with
    | plus =>
      rw [chained, sum] at h
      split at h
      · simp at h
      · next hread => exact ⟨_, _, hread, h⟩
    | or =>
      rw [chained, expr] at h
      split at h
      · simp at h
      · next hread => exact ⟨_, _, hread, h⟩
  obtain ⟨⟨d, rfl, rfl⟩, hfirst⟩ := hjoined hread
  obtain ⟨⟨more, rfl, rfl⟩, hfits⟩ := links_sound hjoined hfirst hmore
  exact ⟨⟨.chain op d more, by simp [Derivation.tokens], rfl⟩, hfits⟩

theorem expr_sound (hinner : inner.Sound levels) {e : Expr} (h : inner.expr ts = .ok (e, rest)) :
    (∃ d : ExprDerivation, d.tokens ++ rest = ts ∧ d.value = e) ∧ e.Fits (levels + 1) := by
  have hsum : inner.JoinedSound levels .plus := operand_sound hinner
  have halternatives : inner.JoinedSound levels .or := chained_sound hsum
  exact chained_sound halternatives h

/-- What a reader of expressions accepts has a derivation and fits in its levels of nesting. -/
theorem within_sound (levels : Nat) : (within levels).Sound levels := by
  induction levels with
  | zero =>
    intro ts e rest h
    simp [within] at h
  | succ levels ih =>
    intro ts e rest h
    exact expr_sound ih h

end ExprReader

section Statements

variable {ts rest : List Token}

theorem exists_separatorTokens (ts : List Token) :
    ∃ separators, separatorTokens separators ++ skipSeparators ts = ts := by
  induction ts with
  | nil => exact ⟨[], rfl⟩
  | cons t ts ih =>
    by_cases ht : t.kind = .newline ∨ t.kind = .semicolon
    · obtain ⟨separators, hts⟩ := ih
      refine ⟨⟨t, ht⟩ :: separators, ?_⟩
      rw [skipSeparators, List.dropWhile_cons_of_pos (by simpa using ht)]
      exact congrArg (t :: ·) hts
    · refine ⟨[], ?_⟩
      rw [skipSeparators, List.dropWhile_cons_of_neg (by simpa using ht)]
      rfl

/-- What is read as an expression for a statement has the derivation of an expression. -/
theorem readExprAs_sound {statement : Expr → Statement} {s : Statement}
    (h : readExprAs statement ts = .ok (s, rest)) :
    ∃ d : ExprDerivation, d.tokens ++ rest = ts ∧ statement d.value = s ∧
      d.value.Fits maxNesting := by
  unfold readExprAs at h
  split at h
  · simp at h
  · next hread =>
    obtain ⟨rfl, rfl⟩ := Prod.mk.inj (Except.ok.inj h)
    obtain ⟨⟨d, htokens, rfl⟩, hfits⟩ := ExprReader.within_sound maxNesting hread
    exact ⟨d, htokens, rfl, hfits⟩

theorem readDeclaration_sound {isMutable : Bool} {s : Statement}
    (h : readDeclaration isMutable ts = .ok (s, rest)) :
    ∃ (name : Ident) (equals : Span) (init : ExprDerivation),
      ⟨.name name.text, name.range⟩ :: ⟨.equals, equals⟩ :: (init.tokens ++ rest) = ts ∧
        .declaration isMutable name init.value = s ∧ init.value.Fits maxNesting := by
  unfold readDeclaration at h
  simp only [bind, Except.bind, pure, Except.pure] at h
  split at h
  · simp at h
  · next hident =>
    split at h
    · simp at h
    · next hequals =>
      split at h
      · simp at h
      · next hexpr =>
        obtain ⟨rfl, rfl⟩ := Prod.mk.inj (Except.ok.inj h)
        obtain ⟨⟨init, htokens, hvalue⟩, hfits⟩ := ExprReader.within_sound maxNesting hexpr
        obtain ⟨equals, hrest⟩ := exists_equals_of_readEquals hequals
        have hts := readIdent_eq_ok hident
        exact ⟨_, equals, init, by rw [htokens, hrest, hts], by rw [hvalue], hvalue ▸ hfits⟩

theorem readStatement_sound {s : Statement} (h : readStatement ts = .ok (s, rest)) :
    ∃ d : StatementDerivation, d.tokens ++ rest = ts ∧ d.statement = s ∧
      s.expr.Fits maxNesting := by
  -- Where the tokens do not begin with the first word of a declaration, a plain expression is read.
  have hplain : (∀ text range, ⟨.name text, range⟩ ∈ ts.head? → declares? text = none) →
      readExprAs .expression ts = .ok (s, rest) → ∃ d : StatementDerivation,
        d.tokens ++ rest = ts ∧ d.statement = s ∧ s.expr.Fits maxNesting := by
    intro hwords h
    obtain ⟨d, rfl, rfl, hfits⟩ := readExprAs_sound h
    refine ⟨.expression d ?_, rfl, rfl, hfits⟩
    intro text range hhead
    exact hwords text range (by rw [List.head?_append, Option.mem_def.1 hhead]; rfl)
  unfold readStatement at h
  split at h
  · next text range ts' =>
    split at h
    · next isMutable hword =>
      obtain ⟨name, equals, init, rfl, rfl, hfits⟩ := readDeclaration_sound h
      refine ⟨.declaration range isMutable name equals init, ?_, rfl, hfits⟩
      -- Only the first word of a declaration is taken for one.
      obtain rfl : text = keyword isMutable := by
        unfold declares? at hword
        unfold keyword
        grind
      rfl
    · next hword =>
      split at h
      · next equals _ =>
        obtain ⟨d, rfl, rfl, hfits⟩ := readExprAs_sound h
        exact ⟨.assignment ⟨text, range⟩ equals d hword, rfl, rfl, hfits⟩
      · refine hplain ?_ h
        intro text' range' hhead
        simp only [List.head?_cons, Option.mem_some_iff, Token.mk.injEq,
          TokenKind.name.injEq] at hhead
        rwa [← hhead.1]
  · next hname =>
    refine hplain ?_ h
    intro text range hhead
    obtain ⟨rest', hts⟩ := List.head?_eq_some_iff.1 hhead
    exact absurd hts (hname text range rest')

/-- Where a statement may end, separators stand in front of the next one. -/
theorem separators_ne_nil {trailing : List Separator}
    {lines : List (List Separator × StatementDerivation)}
    (h : endsStatement (ScriptDerivation.tokensOf trailing lines) = true)
    (hlines : ∀ line ∈ lines.tail, line.1 ≠ []) : ∀ line ∈ lines, line.1 ≠ [] := by
  intro line hline
  cases lines with
  | nil => simp at hline
  | cons first lines =>
    rcases List.mem_cons.1 hline with rfl | hline
    · intro hnil
      obtain ⟨t, rest, htokens, ht⟩ := line.2.exists_head
      rw [ScriptDerivation.tokensOf, hnil, separatorTokens_nil, List.nil_append, htokens] at h
      obtain ⟨kind, range⟩ := t
      cases kind <;> first | exact absurd ht id | simp [endsStatement] at h
    · exact hlines line hline

/-- What is read as the statements of a script has the derivation of a script. -/
theorem readStatements_sound {before statements : List Statement}
    (h : readStatements before ts = .ok statements) :
    ∃ d : ScriptDerivation, d.tokens = ts ∧ statements = before.reverse ++ d.script.statements ∧
      d.script.IsShallow := by
  -- Each round reads the separators in front of a statement and the statement.
  fun_induction readStatements before ts with
  | case1 before ts hskip =>
    obtain rfl := Except.ok.inj h
    obtain ⟨trailing, hts⟩ := exists_separatorTokens ts
    rw [hskip, List.append_nil] at hts
    exact ⟨⟨[], trailing, by simp⟩, hts, by simp [ScriptDerivation.script],
      by simp [ScriptDerivation.script, Script.IsShallow]⟩
  | case2 => simp at h
  | case3 before ts t ts' hskip s rest hread hends ih =>
    obtain ⟨d, htokens, rfl, hfits⟩ := readStatement_sound hread
    obtain ⟨⟨lines, trailing, separated⟩, rfl, rfl, hshallow⟩ := ih h
    obtain ⟨separators, hts⟩ := exists_separatorTokens ts
    rw [hskip, ← htokens] at hts
    refine ⟨⟨(separators, d) :: lines, trailing, separators_ne_nil hends separated⟩, ?_, ?_, ?_⟩
    · exact hts
    · simp [ScriptDerivation.script]
    · exact List.forall_mem_cons.2 ⟨hfits, hshallow⟩
  | case4 => simp at h

end Statements

/-- A parsed script is derived from the tokens of its source. -/
theorem exists_derivation {source : List Char} {script : Script}
    (h : Script.ofSource source = .ok script) : ∃ tokens, Tokens.ofSource source = .ok tokens ∧
      ∃ d : ScriptDerivation, d.tokens = tokens.items ∧ d.script = script := by
  cases htokens : Tokens.ofSource source with
  | error => simp [Script.ofSource, htokens] at h
  | ok tokens =>
    simp only [Script.ofSource, htokens] at h
    split at h
    · simp at h
    · next statements hread =>
      obtain rfl := Except.ok.inj h
      obtain ⟨d, hd, rfl, -⟩ := readStatements_sound hread
      exact ⟨tokens, rfl, d, hd, rfl⟩

end Script

end RegexAudit
