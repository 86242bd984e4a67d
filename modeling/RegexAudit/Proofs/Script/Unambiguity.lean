import RegexAudit.Proofs.Script.Grammar

/-!
# The grammar is unambiguous

Different derivations have different tokens. A derivation is determined by its tokens even when
others follow, as long as what follows does not continue it.

## Main definitions

* `TokenKind.BeginsExpr`: the tokens that an expression can begin with.
* `Symbol.Stops`: some tokens do not continue what stands in front of them.

## Main statements

* `Derivation.exists_head`: what stands for an expression begins with one of these tokens.
* `Derivation.eq_of_tokens`: the tokens determine the derivation of a symbol.
* `ScriptDerivation.eq_of_tokens_eq`: and so they do for a script.
-/

namespace RegexAudit

namespace Script

attribute [ext] Ident

/-- The tokens that an expression can begin with. -/
def TokenKind.BeginsExpr : TokenKind → Prop
  | string _ | integer _ | name _ | openParen => True
  | _ => False

theorem TokenKind.BeginsExpr.ne {kind kind' : TokenKind} (h : kind.BeginsExpr)
    (h' : ¬ kind'.BeginsExpr) : kind ≠ kind' :=
  fun heq => h' (heq ▸ h)

/-- The tokens that may come next in an expression that is complete so far. -/
def TokenKind.ContinuesExpr : TokenKind → Prop
  | openParen | dot | plus | name _ | newline => True
  | _ => False

/-- The first of the tokens is of the given kind. -/
def Leads (kind : TokenKind) (ts : List Token) : Prop := ∃ range rest, ts = ⟨kind, range⟩ :: rest

/-- The symbols that derive at least one expression. -/
def Symbol.IsSolid : Symbol → Prop
  | primary | operand | chain _ | items => True
  | suffixes | links _ | arguments => False

/-- The tokens do not continue what stands in front of them. Arguments are followed by a closing
parenthesis. -/
def Symbol.Stops : Symbol → List Token → Prop
  | primary, _ => True
  | suffixes, ts | operand, ts => afterDot? ts = none ∧ ¬ Leads .openParen ts
  | links .plus, ts | chain .plus, ts =>
    (afterDot? ts = none ∧ ¬ Leads .openParen ts) ∧ ¬ Leads .plus ts
  | links .or, ts | chain .or, ts =>
    ((afterDot? ts = none ∧ ¬ Leads .openParen ts) ∧ ¬ Leads .plus ts) ∧ ¬ Leads (.name "or") ts
  | arguments, ts | items, ts => Leads .closeParen ts

section Newlines

variable {ts : List Token} {t : Token}

@[simp] theorem newlineTokens_nil : newlineTokens [] = [] := rfl

@[simp] theorem newlineTokens_cons (span : Span) (spans : List Span) :
    newlineTokens (span :: spans) = ⟨.newline, span⟩ :: newlineTokens spans := rfl

theorem skipNewlines_newlineTokens (spans : List Span) (h : t.kind ≠ .newline) :
    skipNewlines (newlineTokens spans ++ t :: ts) = t :: ts := by
  induction spans with
  | nil => simp [skipNewlines, h]
  | cons span spans ih => simpa [skipNewlines] using ih

theorem afterDot?_newlineTokens (spans : List Span) (dot : Span) :
    afterDot? (newlineTokens spans ++ ⟨.dot, dot⟩ :: ts) = some ts := by
  rw [afterDot?, skipNewlines_newlineTokens spans (by simp)]

theorem afterDot?_cons_eq_none (h : t.kind ≠ .newline) (hdot : t.kind ≠ .dot) :
    afterDot? (t :: ts) = none := by
  have hskip : skipNewlines (t :: ts) = t :: ts := skipNewlines_newlineTokens [] h
  rw [afterDot?, hskip]
  split
  · next heq => exact absurd (congrArg Token.kind (List.cons.inj heq).1) hdot
  · rfl

/-- Newlines are separated from what follows them in one way only. -/
theorem newlineTokens_append_inj {spans spans' : List Span} {t' : Token} {ts' : List Token}
    (h : newlineTokens spans ++ t :: ts = newlineTokens spans' ++ t' :: ts')
    (ht : t.kind ≠ .newline) (ht' : t'.kind ≠ .newline) :
    spans = spans' ∧ t = t' ∧ ts = ts' := by
  induction spans generalizing spans' with
  | nil =>
    cases spans' with
    | nil => exact ⟨rfl, List.cons.inj h⟩
    | cons span' spans' => exact absurd (congrArg Token.kind (List.cons.inj h).1) ht
  | cons span spans ih =>
    cases spans' with
    | nil => exact absurd (congrArg Token.kind (List.cons.inj h).1.symm) ht'
    | cons span' spans' =>
      obtain ⟨hspan, hmore⟩ := List.cons.inj h
      obtain ⟨rfl, rest⟩ := ih hmore
      obtain rfl : span = span' := congrArg Token.range hspan
      exact ⟨rfl, rest⟩

end Newlines

section Stopping

variable {ts : List Token} {op : Operator} {range : Span}

/-- Links stop where their operands stop and no further operator follows. -/
theorem Symbol.stops_links :
    (links op).Stops ts ↔ op.operand.Stops ts ∧ ¬ Leads op.token ts := by
  cases op <;> rfl

theorem Symbol.stops_chain : (chain op).Stops ts ↔ (links op).Stops ts := by
  cases op <;> rfl

theorem Operator.operand_isSolid (op : Operator) : op.operand.IsSolid := by
  cases op <;> trivial

/-- An operator stops its left operand. -/
theorem Operator.operand_stops_token : op.operand.Stops (⟨op.token, range⟩ :: ts) := by
  cases op with
  | plus =>
    refine ⟨afterDot?_cons_eq_none (by simp [Operator.token]) (by simp [Operator.token]), ?_⟩
    rintro ⟨r, rest, h⟩
    simp [Operator.token] at h
  | or =>
    refine ⟨⟨afterDot?_cons_eq_none (by simp [Operator.token]) (by simp [Operator.token]), ?_⟩, ?_⟩
    all_goals
      rintro ⟨r, rest, h⟩
      simp [Operator.token] at h

/-- Other tokens than those that continue an expression stop it. -/
theorem Symbol.expr_stops_cons {kind : TokenKind} (h : ¬ kind.ContinuesExpr) :
    (chain .or).Stops (⟨kind, range⟩ :: ts) := by
  have hne : ∀ {k : TokenKind}, k.ContinuesExpr → kind ≠ k := fun hk heq => h (heq ▸ hk)
  have hnot : ∀ {k : TokenKind}, k.ContinuesExpr → ¬ Leads k (⟨kind, range⟩ :: ts) := by
    rintro k hk ⟨r, rest, heq⟩
    exact hne hk (congrArg Token.kind (List.cons.inj heq).1)
  exact ⟨⟨⟨afterDot?_cons_eq_none (hne trivial) (hne trivial), hnot trivial⟩, hnot trivial⟩,
    hnot trivial⟩

end Stopping

namespace Derivation

variable {s : Symbol} {op : Operator}

/-- What stands for an expression begins with a token that an expression can begin with. -/
theorem exists_head (d : Derivation s) (hs : s.IsSolid) :
    ∃ t rest, d.tokens = t :: rest ∧ t.kind.BeginsExpr := by
  induction d with
  | string | integer | name => exact ⟨_, [], rfl, trivial⟩
  | paren => exact ⟨_, _, rfl, trivial⟩
  | operand first more ih _ =>
    obtain ⟨t, rest, htokens, ht⟩ := ih trivial
    exact ⟨t, _, by rw [tokens, htokens]; rfl, ht⟩
  | chain op first more ih _ =>
    obtain ⟨t, rest, htokens, ht⟩ := ih (Operator.operand_isSolid op)
    exact ⟨t, _, by rw [tokens, htokens]; rfl, ht⟩
  | single arg ih => exact ih trivial
  | trailing arg comma ih =>
    obtain ⟨t, rest, htokens, ht⟩ := ih trivial
    exact ⟨t, _, by rw [tokens, htokens]; rfl, ht⟩
  | further arg comma more ih _ =>
    obtain ⟨t, rest, htokens, ht⟩ := ih trivial
    exact ⟨t, _, by rw [tokens, htokens]; rfl, ht⟩
  | bare | member | call | last | link | nothing | something => exact absurd hs id

/-- Behind the first operand of a chain, the links or what follows them stop it. -/
theorem links_stops (d : Derivation (.links op)) {r : List Token} (h : (Symbol.links op).Stops r) :
    op.operand.Stops (d.tokens ++ r) := by
  cases d with
  | last => exact (Symbol.stops_links.1 h).1
  | link => exact Operator.operand_stops_token

theorem eq_bare_of_stops {d : Derivation .suffixes} {r r' : List Token} (h : d.tokens ++ r' = r)
    (hr : Symbol.suffixes.Stops r) : d = .bare := by
  subst h
  cases d with
  | bare => rfl
  | member newlines dot ident more =>
    simp [Symbol.Stops, tokens, List.append_assoc, afterDot?_newlineTokens] at hr
  | call opening args closing more => exact absurd ⟨_, _, rfl⟩ hr.2

/-- What does not continue a chain has no link at its front. -/
theorem eq_last_of_stops {d : Derivation (.links op)} {r r' : List Token}
    (h : d.tokens ++ r' = r) (hr : (Symbol.links op).Stops r) : d = .last op := by
  subst h
  cases d with
  | last => rfl
  | link => exact absurd ⟨_, _, rfl⟩ (Symbol.stops_links.1 hr).2

theorem not_leads_close (d : Derivation .items) (r : List Token) :
    ¬ Leads .closeParen (d.tokens ++ r) := by
  obtain ⟨t, rest, htokens, ht⟩ := d.exists_head trivial
  rintro ⟨range, rest', h⟩
  rw [htokens, List.cons_append] at h
  exact ht.ne id (congrArg Token.kind (List.cons.inj h).1)

theorem member_ne_call {newlines : List Span} {dot opening : Span} {ts ts' : List Token} :
    newlineTokens newlines ++ ⟨.dot, dot⟩ :: ts ≠ ⟨.openParen, opening⟩ :: ts' := by
  intro h
  rw [← List.nil_append (_ :: ts'), ← newlineTokens_nil] at h
  have hdot := (newlineTokens_append_inj h (by simp) (by simp)).2.1
  simp at hdot

theorem newlineTokens_operand_inj {newlines newlines' : List Span}
    {next next' : Derivation op.operand} {ts ts' : List Token}
    (h : newlineTokens newlines ++ (next.tokens ++ ts) =
      newlineTokens newlines' ++ (next'.tokens ++ ts')) :
    newlines = newlines' ∧ next.tokens ++ ts = next'.tokens ++ ts' := by
  obtain ⟨t, rest, htokens, ht⟩ := next.exists_head (Operator.operand_isSolid op)
  obtain ⟨t', rest', htokens', ht'⟩ := next'.exists_head (Operator.operand_isSolid op)
  rw [htokens, htokens'] at h ⊢
  obtain ⟨rfl, rfl, hrest⟩ := newlineTokens_append_inj h (ht.ne id) (ht'.ne id)
  exact ⟨rfl, congrArg (t :: ·) hrest⟩

/-- The tokens of a derivation, and others that do not continue it, determine the derivation. -/
theorem eq_of_tokens {d d' : Derivation s} {r r' : List Token}
    (h : d.tokens ++ r = d'.tokens ++ r') (hr : s.Stops r) (hr' : s.Stops r') :
    d = d' ∧ r = r' := by
  -- What follows a part of a derivation stops that part, so the induction goes through the parts
  -- from left to right and carries along what is left of the tokens.
  induction d generalizing r r' with
  | string range literal =>
    cases d' <;> simp [tokens] at h ⊢
    exact ⟨⟨h.1.2, h.1.1⟩, h.2⟩
  | integer range value =>
    cases d' <;> simp [tokens] at h ⊢
    exact ⟨⟨h.1.2, h.1.1⟩, h.2⟩
  | name range text =>
    cases d' <;> simp [tokens] at h ⊢
    exact ⟨⟨h.1.2, h.1.1⟩, h.2⟩
  | paren opening inner closing ih =>
    cases d' with
    | paren opening' inner' closing' =>
      simp only [tokens, List.cons_append, List.append_assoc, List.nil_append, List.cons.injEq,
        Token.mk.injEq, true_and] at h
      obtain ⟨rfl, hrest⟩ := ih h.2 (Symbol.expr_stops_cons id) (Symbol.expr_stops_cons id)
      simp only [List.cons.injEq, Token.mk.injEq, true_and] at hrest
      obtain ⟨rfl, rfl⟩ := hrest
      exact ⟨by rw [h.1], rfl⟩
    | _ => simp [tokens] at h
  | bare =>
    obtain rfl := eq_bare_of_stops h.symm hr
    exact ⟨rfl, h⟩
  | member newlines dot ident more ih =>
    cases d' with
    | bare => exact absurd (eq_bare_of_stops h hr') (by simp)
    | member newlines' dot' ident' more' =>
      simp only [tokens, List.cons_append, List.append_assoc] at h
      obtain ⟨rfl, hdot, hmore⟩ := newlineTokens_append_inj h (by simp) (by simp)
      simp only [List.cons.injEq, Token.mk.injEq, TokenKind.name.injEq, true_and] at hdot hmore
      obtain ⟨⟨htext, hrange⟩, hmore⟩ := hmore
      obtain rfl := Ident.ext htext hrange
      obtain ⟨rfl, rfl⟩ := ih hmore hr hr'
      exact ⟨by rw [hdot], rfl⟩
    | call =>
      -- Newlines may stand in front of a dot, but not in front of the parenthesis of a call.
      simp only [tokens, List.cons_append, List.append_assoc] at h
      exact absurd h member_ne_call
  | call opening args closing more ihArgs ih =>
    cases d' with
    | bare => exact absurd (eq_bare_of_stops h hr') (by simp)
    | member =>
      simp only [tokens, List.cons_append, List.append_assoc] at h
      exact absurd h.symm member_ne_call
    | call opening' args' closing' more' =>
      simp only [tokens, List.cons_append, List.append_assoc, List.cons.injEq, Token.mk.injEq,
        true_and] at h
      obtain ⟨rfl, hargs⟩ := ihArgs h.2 ⟨_, _, rfl⟩ ⟨_, _, rfl⟩
      simp only [List.cons.injEq, Token.mk.injEq, true_and] at hargs
      obtain ⟨rfl, rfl⟩ := ih hargs.2 hr hr'
      exact ⟨by rw [h.1, hargs.1], rfl⟩
  | operand first more ihFirst ih =>
    cases d' with
    | operand first' more' =>
      simp only [tokens, List.append_assoc] at h
      obtain ⟨rfl, hmore⟩ := ihFirst h trivial trivial
      obtain ⟨rfl, rfl⟩ := ih hmore hr hr'
      exact ⟨rfl, rfl⟩
  | last op =>
    obtain rfl := eq_last_of_stops h.symm hr
    exact ⟨rfl, h⟩
  | link op sign newlines next more ihNext ih =>
    cases d' with
    | last => exact absurd (eq_last_of_stops h hr') (by simp)
    | link _ sign' newlines' next' more' =>
      -- An operand does not begin with a newline, so the newlines in front of it are determined.
      simp only [tokens, List.cons_append, List.append_assoc, List.cons.injEq, Token.mk.injEq,
        true_and] at h
      obtain ⟨rfl, hnext⟩ := newlineTokens_operand_inj h.2
      obtain ⟨rfl, hmore⟩ := ihNext hnext (more.links_stops hr) (more'.links_stops hr')
      obtain ⟨rfl, rfl⟩ := ih hmore hr hr'
      exact ⟨by rw [h.1], rfl⟩
  | chain op first more ihFirst ih =>
    cases d' with
    | chain _ first' more' =>
      simp only [tokens, List.append_assoc] at h
      rw [Symbol.stops_chain] at hr hr'
      obtain ⟨rfl, hmore⟩ := ihFirst h (more.links_stops hr) (more'.links_stops hr')
      obtain ⟨rfl, rfl⟩ := ih hmore hr hr'
      exact ⟨rfl, rfl⟩
  | nothing =>
    cases d' with
    | nothing => exact ⟨rfl, h⟩
    | something items =>
      rw [show r = items.tokens ++ r' from h] at hr
      exact absurd hr (items.not_leads_close r')
  | something items ih =>
    cases d' with
    | nothing =>
      rw [show r' = items.tokens ++ r from h.symm] at hr'
      exact absurd hr' (items.not_leads_close r)
    | something items' =>
      obtain ⟨rfl, rfl⟩ := ih h hr hr'
      exact ⟨rfl, rfl⟩
  | single arg ih =>
    -- The closing parenthesis behind the arguments tells the three forms of items apart.
    obtain ⟨range, rest, rfl⟩ := hr
    obtain ⟨range', rest', rfl⟩ := hr'
    cases d' with
    | single arg' =>
      obtain ⟨rfl, hrest⟩ := ih h (Symbol.expr_stops_cons id) (Symbol.expr_stops_cons id)
      exact ⟨rfl, hrest⟩
    | trailing arg' comma' =>
      simp only [tokens, List.append_assoc, List.cons_append] at h
      obtain ⟨-, hrest⟩ := ih h (Symbol.expr_stops_cons id) (Symbol.expr_stops_cons id)
      simp at hrest
    | further arg' comma' more' =>
      simp only [tokens, List.append_assoc, List.cons_append] at h
      obtain ⟨-, hrest⟩ := ih h (Symbol.expr_stops_cons id) (Symbol.expr_stops_cons id)
      simp at hrest
  | trailing arg comma ih =>
    cases d' with
    | single arg' =>
      obtain ⟨range', rest', rfl⟩ := hr'
      simp only [tokens, List.append_assoc, List.cons_append] at h
      obtain ⟨-, hrest⟩ := ih h (Symbol.expr_stops_cons id) (Symbol.expr_stops_cons id)
      simp at hrest
    | trailing arg' comma' =>
      simp only [tokens, List.append_assoc, List.cons_append, List.nil_append] at h
      obtain ⟨rfl, hrest⟩ := ih h (Symbol.expr_stops_cons id) (Symbol.expr_stops_cons id)
      simp only [List.cons.injEq, Token.mk.injEq, true_and] at hrest
      exact ⟨by rw [hrest.1], hrest.2⟩
    | further arg' comma' more' =>
      simp only [tokens, List.append_assoc, List.cons_append, List.nil_append] at h
      obtain ⟨-, hrest⟩ := ih h (Symbol.expr_stops_cons id) (Symbol.expr_stops_cons id)
      rw [(List.cons.inj hrest).2] at hr
      exact absurd hr (more'.not_leads_close r')
  | further arg comma more ihArg ih =>
    cases d' with
    | single arg' =>
      obtain ⟨range', rest', rfl⟩ := hr'
      simp only [tokens, List.append_assoc, List.cons_append] at h
      obtain ⟨-, hrest⟩ := ihArg h (Symbol.expr_stops_cons id) (Symbol.expr_stops_cons id)
      simp at hrest
    | trailing arg' comma' =>
      simp only [tokens, List.append_assoc, List.cons_append, List.nil_append] at h
      obtain ⟨-, hrest⟩ := ihArg h (Symbol.expr_stops_cons id) (Symbol.expr_stops_cons id)
      rw [← (List.cons.inj hrest).2] at hr'
      exact absurd hr' (more.not_leads_close r)
    | further arg' comma' more' =>
      simp only [tokens, List.append_assoc, List.cons_append] at h
      obtain ⟨rfl, hrest⟩ := ihArg h (Symbol.expr_stops_cons id) (Symbol.expr_stops_cons id)
      simp only [List.cons.injEq, Token.mk.injEq, true_and] at hrest
      obtain ⟨rfl, rfl⟩ := ih hrest.2 hr hr'
      exact ⟨by rw [hrest.1], rfl⟩

end Derivation

section Separators

variable {ts : List Token} {t : Token}

/-- A statement may end in front of the tokens, and they do not continue it on a following line. -/
def StopsStatement (ts : List Token) : Prop := endsStatement ts = true ∧ afterDot? ts = none

@[simp] theorem separatorTokens_nil : separatorTokens [] = [] := rfl

@[simp] theorem separatorTokens_cons (separator : Separator) (separators : List Separator) :
    separatorTokens (separator :: separators) = separator.1 :: separatorTokens separators := rfl

theorem separatorTokens_inj {separators separators' : List Separator}
    (h : separatorTokens separators = separatorTokens separators') : separators = separators' :=
  (List.map_inj_right fun _ _ => Subtype.ext).1 h

/-- Separators in front of anything else are skipped. -/
theorem skipSeparators_append (separators : List Separator) (h : skipSeparators ts = ts) :
    skipSeparators (separatorTokens separators ++ ts) = ts := by
  induction separators with
  | nil => exact h
  | cons separator separators ih =>
    obtain ⟨⟨kind, range⟩, hkind⟩ := separator
    rcases hkind with hkind | hkind <;> cases hkind <;> exact ih

theorem skipSeparators_cons (h : t.kind.BeginsExpr) : skipSeparators (t :: ts) = t :: ts := by
  obtain ⟨kind, range⟩ := t
  cases kind <;> first | rfl | exact absurd h id

theorem separators_append_inj {separators separators' : List Separator} {ts' : List Token}
    (h : separatorTokens separators ++ ts = separatorTokens separators' ++ ts')
    (hts : skipSeparators ts = ts) (hts' : skipSeparators ts' = ts') :
    separators = separators' ∧ ts = ts' := by
  have hskip := congrArg skipSeparators h
  rw [skipSeparators_append separators hts, skipSeparators_append separators' hts'] at hskip
  subst hskip
  exact ⟨separatorTokens_inj (List.append_cancel_right h), rfl⟩

theorem afterDot?_separators (separators : List Separator) (h : afterDot? ts = none) :
    afterDot? (separatorTokens separators ++ ts) = none := by
  induction separators with
  | nil => exact h
  | cons separator separators ih =>
    obtain ⟨⟨kind, range⟩, hkind⟩ := separator
    rcases hkind with hkind | hkind <;> cases hkind
    · exact ih
    · rfl

/-- Where a statement may end, the expression at its end stops. -/
theorem StopsStatement.expr_stops (h : StopsStatement ts) : (Symbol.chain .or).Stops ts := by
  obtain ⟨hends, hdot⟩ := h
  have hnot : ∀ {kind : TokenKind}, kind ≠ .newline → kind ≠ .semicolon → ¬ Leads kind ts := by
    rintro kind hnewline hsemicolon ⟨range, rest, rfl⟩
    simp [endsStatement, hnewline, hsemicolon] at hends
  exact ⟨⟨⟨hdot, hnot (by simp) (by simp)⟩, hnot (by simp) (by simp)⟩, hnot (by simp) (by simp)⟩

end Separators

namespace StatementDerivation

theorem declares?_keyword (isMutable : Bool) : declares? (keyword isMutable) = some isMutable := by
  cases isMutable <;> rfl

/-- A statement begins with a token that an expression can begin with. -/
theorem exists_head (s : StatementDerivation) :
    ∃ t rest, s.tokens = t :: rest ∧ t.kind.BeginsExpr := by
  cases s with
  | declaration | assignment => exact ⟨_, _, rfl, trivial⟩
  | expression expr => exact expr.exists_head trivial

/-- A plain expression does not begin with the first word of a declaration. -/
theorem expression_ne_declaration {expr : ExprDerivation} {isMutable : Bool} {range : Span}
    {ts r : List Token}
    (plain : ∀ text range, ⟨.name text, range⟩ ∈ expr.tokens.head? → declares? text = none) :
    expr.tokens ++ r ≠ ⟨.name (keyword isMutable), range⟩ :: ts := by
  intro h
  obtain ⟨t, rest, htokens, -⟩ := expr.exists_head trivial
  rw [htokens, List.cons_append] at h
  have hplain := plain (keyword isMutable) range (by rw [htokens, (List.cons.inj h).1]; rfl)
  rw [declares?_keyword] at hplain
  exact absurd hplain (by simp)

theorem expression_ne_assignment {expr : ExprDerivation} {text : String} {range equals : Span}
    {ts r : List Token} (hr : StopsStatement r) :
    expr.tokens ++ r ≠ ⟨.name text, range⟩ :: ⟨.equals, equals⟩ :: ts := by
  intro h
  -- The name alone would be an expression, and an equals sign does not end the statement.
  have htokens : expr.tokens ++ r =
    (Derivation.name range text).asExpr.tokens ++ ⟨.equals, equals⟩ :: ts := h
  obtain ⟨-, rfl⟩ := Derivation.eq_of_tokens htokens hr.expr_stops (Symbol.expr_stops_cons id)
  simp [StopsStatement, endsStatement] at hr

/-- The tokens of a statement determine its derivation where a statement may end behind them. -/
theorem eq_of_tokens {s s' : StatementDerivation} {r r' : List Token}
    (h : s.tokens ++ r = s'.tokens ++ r') (hr : StopsStatement r) (hr' : StopsStatement r') :
    s = s' ∧ r = r' := by
  cases s with
  | declaration first isMutable name equals init =>
    cases s' with
    | declaration first' isMutable' name' equals' init' =>
      simp only [tokens, List.cons_append, List.cons.injEq, Token.mk.injEq,
        TokenKind.name.injEq, true_and] at h
      obtain ⟨⟨hword, rfl⟩, ⟨htext, hrange⟩, rfl, hinit⟩ := h
      obtain rfl : isMutable = isMutable' := by
        have := congrArg declares? hword
        rwa [declares?_keyword, declares?_keyword, Option.some.injEq] at this
      obtain rfl := Ident.ext htext hrange
      obtain ⟨rfl, rfl⟩ := Derivation.eq_of_tokens hinit hr.expr_stops hr'.expr_stops
      exact ⟨rfl, rfl⟩
    | assignment name' equals' value' plain' =>
      simp only [tokens, List.cons_append, List.cons.injEq, Token.mk.injEq,
        TokenKind.name.injEq] at h
      rw [← h.1.1, declares?_keyword] at plain'
      exact absurd plain' (by simp)
    | expression expr' plain' => exact absurd h.symm (expression_ne_declaration plain')
  | assignment name equals value plain =>
    cases s' with
    | declaration first' isMutable' name' equals' init' =>
      simp only [tokens, List.cons_append, List.cons.injEq, Token.mk.injEq,
        TokenKind.name.injEq] at h
      rw [h.1.1, declares?_keyword] at plain
      exact absurd plain (by simp)
    | assignment name' equals' value' plain' =>
      simp only [tokens, List.cons_append, List.cons.injEq, Token.mk.injEq,
        TokenKind.name.injEq, true_and] at h
      obtain ⟨⟨htext, hrange⟩, rfl, hvalue⟩ := h
      obtain rfl := Ident.ext htext hrange
      obtain ⟨rfl, rfl⟩ := Derivation.eq_of_tokens hvalue hr.expr_stops hr'.expr_stops
      exact ⟨rfl, rfl⟩
    | expression expr' plain' => exact absurd h.symm (expression_ne_assignment hr')
  | expression expr plain =>
    cases s' with
    | declaration => exact absurd h (expression_ne_declaration plain)
    | assignment => exact absurd h (expression_ne_assignment hr)
    | expression expr' plain' =>
      obtain ⟨rfl, rfl⟩ := Derivation.eq_of_tokens h hr.expr_stops hr'.expr_stops
      exact ⟨rfl, rfl⟩

end StatementDerivation

namespace ScriptDerivation

variable {trailing trailing' : List Separator}
  {lines lines' : List (List Separator × StatementDerivation)}

theorem skipSeparators_statement (s : StatementDerivation) (ts : List Token) :
    skipSeparators (s.tokens ++ ts) = s.tokens ++ ts := by
  obtain ⟨t, rest, htokens, ht⟩ := s.exists_head
  rw [htokens, List.cons_append]
  exact skipSeparators_cons ht

/-- A statement may end in front of lines that begin with separators. -/
theorem tokensOf_stops (h : ∀ line ∈ lines, line.1 ≠ []) :
    StopsStatement (tokensOf trailing lines) := by
  have hends : ∀ (separators : List Separator) (ts : List Token), separators ≠ [] →
      endsStatement (separatorTokens separators ++ ts) = true := by
    rintro (- | ⟨separator, separators⟩) ts hne
    · exact absurd rfl hne
    · simpa [endsStatement] using separator.2
  cases lines with
  | nil =>
    constructor
    · cases trailing with
      | nil => rfl
      | cons separator separators =>
        simpa [tokensOf] using hends (separator :: separators) [] (by simp)
    · have hdot : afterDot? (separatorTokens trailing ++ []) = none := afterDot?_separators _ rfl
      rwa [List.append_nil] at hdot
  | cons line lines =>
    obtain ⟨separators, s⟩ := line
    obtain ⟨t, rest, htokens, ht⟩ := s.exists_head
    refine ⟨hends separators _ (h _ List.mem_cons_self), afterDot?_separators separators ?_⟩
    rw [htokens]
    exact afterDot?_cons_eq_none (ht.ne id) (ht.ne id)

/-- The tokens of some lines determine them. -/
theorem eq_of_tokensOf (hlines : ∀ line ∈ lines.tail, line.1 ≠ [])
    (hlines' : ∀ line ∈ lines'.tail, line.1 ≠ [])
    (h : tokensOf trailing lines = tokensOf trailing' lines') :
    trailing = trailing' ∧ lines = lines' := by
  have hcons : ∀ (separators trailing : List Separator) (s : StatementDerivation)
      (ts : List Token), separatorTokens separators ++ (s.tokens ++ ts) ≠
        separatorTokens trailing := by
    intro separators trailing s ts heq
    obtain ⟨t, rest, htokens, -⟩ := s.exists_head
    rw [← List.append_nil (separatorTokens trailing)] at heq
    have := (separators_append_inj heq (skipSeparators_statement s ts) rfl).2
    simp [htokens] at this
  -- No statement begins with a separator, so the separators of a line are all that stand in front.
  induction lines generalizing lines' with
  | nil =>
    cases lines' with
    | nil => exact ⟨separatorTokens_inj h, rfl⟩
    | cons line' lines' => exact absurd h.symm (hcons line'.1 trailing line'.2 _)
  | cons line lines ih =>
    obtain ⟨separators, s⟩ := line
    cases lines' with
    | nil => exact absurd h (hcons separators trailing' s _)
    | cons line' lines' =>
      obtain ⟨separators', s'⟩ := line'
      obtain ⟨rfl, hstatement⟩ := separators_append_inj h (skipSeparators_statement _ _)
        (skipSeparators_statement _ _)
      obtain ⟨rfl, hmore⟩ := StatementDerivation.eq_of_tokens hstatement
        (tokensOf_stops hlines) (tokensOf_stops hlines')
      obtain ⟨rfl, rfl⟩ := ih (fun line hline => hlines line (List.mem_of_mem_tail hline))
        (fun line hline => hlines' line (List.mem_of_mem_tail hline)) hmore
      exact ⟨rfl, rfl⟩

/-- The tokens of a script determine its derivation. -/
theorem eq_of_tokens_eq {d d' : ScriptDerivation} (h : d.tokens = d'.tokens) : d = d' := by
  obtain ⟨lines, trailing, separated⟩ := d
  obtain ⟨lines', trailing', separated'⟩ := d'
  obtain ⟨rfl, rfl⟩ := eq_of_tokensOf separated separated' h
  rfl

end ScriptDerivation

end Script

end RegexAudit
