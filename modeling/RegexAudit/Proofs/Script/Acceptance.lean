import RegexAudit.Proofs.Script.Derivable

/-!
# The parser accepts exactly its grammar

What has a derivation that keeps to the limits is read, and as the value of that derivation. With
the derivations of everything that is read, and with the grammar unambiguous, a source is parsed
exactly when its tokens have such a derivation.

## Main definitions

* `Symbol.Fits`: what is derived keeps to the limits.
* `Symbol.Reads`: the reader of a symbol reads some tokens and leaves others.

## Main statements

* `Derivation.reads`: whatever is derived within the limits is read.
* `Script.accepts_grammar`: a source is parsed exactly when its tokens have a derivation within the
  limits, there is only one, and its script is the result.
-/

namespace RegexAudit

namespace Script

namespace ExprReader

variable {inner : ExprReader} {e e' lhs rhs : Expr} {ts rest : List Token} {op : Operator}

theorem closes_eq_true_iff : closes ts = true ↔ Leads .closeParen ts := by
  constructor
  · intro h
    unfold closes at h
    split at h
    · exact ⟨_, _, rfl⟩
    · simp at h
  · rintro ⟨range, rest, rfl⟩
    rfl

section Arguments

variable {args : List Expr} {comma : Span}

/-- What follows an argument decides whether it is the last one. -/
theorem arguments_of_run (hrun : inner.run ts = .ok (e, rest)) :
    inner.arguments args ts =
      match afterComma? rest with
      | none => .ok (args.reverse ++ [e], rest)
      | some rest' =>
        if closes rest' then .ok (args.reverse ++ [e], rest')
        else inner.arguments (e :: args) rest' := by
  rw [arguments]
  split
  · next hfault => exact absurd (hrun.symm.trans hfault) (by simp)
  · next hread =>
    obtain ⟨rfl, rfl⟩ := Prod.mk.inj (Except.ok.inj (hrun.symm.trans hread))
    rw [List.reverse_cons]
    split
    · next hcomma => rw [hcomma]
    · next hcomma => rw [hcomma]

theorem arguments_last (hrun : inner.run ts = .ok (e, rest)) (h : Leads .closeParen rest) :
    inner.arguments args ts = .ok (args.reverse ++ [e], rest) := by
  obtain ⟨range, rest, rfl⟩ := h
  exact arguments_of_run hrun

theorem arguments_trailing (hrun : inner.run ts = .ok (e, ⟨.comma, comma⟩ :: rest))
    (h : Leads .closeParen rest) : inner.arguments args ts = .ok (args.reverse ++ [e], rest) :=
  (arguments_of_run hrun).trans (if_pos (closes_eq_true_iff.2 h))

theorem arguments_further (hrun : inner.run ts = .ok (e, ⟨.comma, comma⟩ :: rest))
    (h : ¬ Leads .closeParen rest) : inner.arguments args ts = inner.arguments (e :: args) rest :=
  (arguments_of_run hrun).trans (if_neg (mt closes_eq_true_iff.1 h))

end Arguments

theorem suffix?_eq_none (h : Symbol.suffixes.Stops ts) : inner.suffix? e ts = none := by
  obtain ⟨hdot, hopen⟩ := h
  unfold suffix?
  rw [hdot]
  dsimp only
  split
  · exact absurd ⟨_, _, rfl⟩ hopen
  · rfl

theorem suffix?_member {newlines : List Span} {dot : Span} {member : Ident}
    (hheight : (Expr.dot (e.range.cover member.range) e member).height ≤ maxNesting) :
    inner.suffix? e (newlineTokens newlines ++ ⟨.dot, dot⟩ :: ⟨.name member.text, member.range⟩ ::
      rest) = some (.ok (.dot (e.range.cover member.range) e member, rest)) := by
  simp [suffix?, afterDot?_newlineTokens, readIdent, admit?, hheight]

theorem suffix?_call {args : List Expr} {opening closing : Span}
    (hargs : inner.argumentList ts = .ok (args, ⟨.closeParen, closing⟩ :: rest))
    (hheight : (Expr.call (e.range.cover closing) e args).height ≤ maxNesting) :
    inner.suffix? e (⟨.openParen, opening⟩ :: ts) =
      some (.ok (.call (e.range.cover closing) e args, rest)) := by
  have hdot : afterDot? (⟨.openParen, opening⟩ :: ts) = none :=
    afterDot?_cons_eq_none (by simp) (by simp)
  simp [suffix?, hdot, hargs, readClose, admit?, hheight]

theorem suffixes_of_none (h : inner.suffix? e ts = none) : inner.suffixes e ts = .ok (e, ts) := by
  rw [suffixes]
  split <;> simp_all

theorem suffixes_of_some (h : inner.suffix? e ts = some (.ok (e', rest))) :
    inner.suffixes e ts = inner.suffixes e' rest := by
  rw [suffixes]
  split <;> simp_all

theorem links_of_joined {sign : Span} (h : inner.joined op (skipNewlines ts) = .ok (rhs, rest))
    (hheight : (Expr.binary (lhs.range.cover rhs.range) op lhs rhs).height ≤ maxNesting) :
    inner.links op lhs (⟨op.token, sign⟩ :: ts) =
      inner.links op (.binary (lhs.range.cover rhs.range) op lhs rhs) rest := by
  rw [links_cons, h]
  simp [admit?, hheight]

theorem chained_of_joined (h : inner.joined op ts = .ok (e, rest)) :
    inner.chained op ts = inner.links op e rest := by
  cases op with
  | plus =>
    rw [joined] at h
    simp only [chained, sum, links, h]
  | or =>
    rw [joined] at h
    simp only [chained, expr, links, h]

/-- What fits is read with levels left, as the readers that are built from one another do it. -/
theorem within_run {levels : Nat} (he : e.Fits levels)
    (h : ∀ further, e.Fits (further + 1) → (within further).expr ts = .ok (e, rest)) :
    (within levels).run ts = .ok (e, rest) := by
  cases levels with
  | zero => exact absurd he.2 (Nat.not_lt_zero _)
  | succ further => exact h further he

end ExprReader

/-- What is derived keeps to the limits, with some levels left further in. Suffixes and links are
judged by what they make of an operand. -/
def Symbol.Fits (levels : Nat) : (s : Symbol) → s.Meaning → Prop
  | primary, e | operand, e | chain _, e => e.Fits (levels + 1)
  | suffixes, _ | links _, _ => True
  | arguments, es | items, es => ∀ e ∈ es, e.Fits levels

/-- The reader of a symbol, with some levels left further in, reads some tokens as their meaning and
leaves the rest. -/
def Symbol.Reads (levels : Nat) : (s : Symbol) → s.Meaning → (ts rest : List Token) → Prop
  | primary, e, ts, rest => (ExprReader.within levels).primary ts = .ok (e, rest)
  | suffixes, f, ts, rest => ∀ e, (f e).Fits (levels + 1) →
    (ExprReader.within levels).suffixes e ts = .ok (f e, rest)
  | operand, e, ts, rest => (ExprReader.within levels).operand ts = .ok (e, rest)
  | links op, f, ts, rest => ∀ e, (f e).Fits (levels + 1) →
    (ExprReader.within levels).links op e ts = .ok (f e, rest)
  | chain op, e, ts, rest => (ExprReader.within levels).chained op ts = .ok (e, rest)
  | arguments, es, ts, rest => (ExprReader.within levels).argumentList ts = .ok (es, rest)
  | items, es, ts, rest => ∀ args,
    (ExprReader.within levels).arguments args ts = .ok (args.reverse ++ es, rest)

section Operators

variable {op : Operator} {levels : Nat} {e : op.operand.Meaning} {ts rest : List Token}

theorem Operator.fits_operand : op.operand.Fits levels e ↔ (op.tree e).Fits (levels + 1) := by
  cases op <;> rfl

theorem Operator.reads_operand :
    op.operand.Reads levels e ts rest ↔
      (ExprReader.within levels).joined op ts = .ok (op.tree e, rest) := by
  cases op <;> rfl

end Operators

namespace Derivation

variable {s : Symbol} {rest : List Token} {op : Operator}

/-- Suffixes make an operand no lower, and enclose no less of it. -/
theorem fits_of_suffixes {levels : Nat} {e : Expr} (d : Derivation .suffixes)
    (h : (d.value e).Fits levels) : e.Fits levels := by
  match d with
  | .bare => exact h
  | .member _ _ _ more => exact (Expr.fits_dot.1 (more.fits_of_suffixes h)).2
  | .call _ _ _ more =>
    have hcall := more.fits_of_suffixes h
    cases levels with
    | zero => exact absurd hcall.2 (Nat.not_lt_zero _)
    | succ levels => exact (Expr.fits_call.1 hcall).2.1

/-- Neither do links. -/
theorem fits_of_links {levels : Nat} {e : Expr} (d : Derivation (.links op))
    (h : (d.value e).Fits levels) : e.Fits levels := by
  match d with
  | .last _ => exact h
  | .link _ _ _ _ more => exact (Expr.fits_binary.1 (more.fits_of_links h)).2.1

theorem skipNewlines_operand (newlines : List Span) (next : Derivation op.operand)
    (ts : List Token) :
    skipNewlines (newlineTokens newlines ++ (next.tokens ++ ts)) = next.tokens ++ ts := by
  obtain ⟨t, more, htokens, ht⟩ := next.exists_head (Operator.operand_isSolid op)
  rw [htokens, List.cons_append]
  exact skipNewlines_newlineTokens newlines (ht.ne id)

/-- Whatever is derived within the limits is read, up to tokens that do not continue it. -/
theorem reads {levels : Nat} (d : Derivation s) (hfits : s.Fits levels d.value)
    (hrest : s.Stops rest) : s.Reads levels d.value (d.tokens ++ rest) rest := by
  -- Parentheses and arguments take one of the levels, so the induction is for all of them.
  induction d generalizing levels rest with
  | string | integer | name => rfl
  | paren opening inner closing ih =>
    obtain ⟨hheight, hinner⟩ := Expr.fits_paren.1 hfits
    have hrun : (ExprReader.within levels).run (inner.tokens ++ ⟨.closeParen, closing⟩ :: rest) =
        .ok (inner.value, ⟨.closeParen, closing⟩ :: rest) :=
      ExprReader.within_run hinner fun further hfurther =>
        ih hfurther (Symbol.expr_stops_cons id)
    simp [Symbol.Reads, tokens, value, ExprReader.primary, hrun, readClose, admit?, hheight]
  | bare =>
    intro e _
    exact ExprReader.suffixes_of_none (ExprReader.suffix?_eq_none hrest)
  | member newlines dot ident more ih =>
    intro e he
    have hheight := (fits_of_suffixes more he).1
    simp only [tokens, List.append_assoc, List.cons_append]
    rw [ExprReader.suffixes_of_some (ExprReader.suffix?_member hheight)]
    exact ih trivial hrest _ he
  | call opening args closing more ihArgs ih =>
    intro e he
    -- The whole fits, and so does the call before further suffixes are read.
    obtain ⟨hheight, -, hargs⟩ := Expr.fits_call.1 (fits_of_suffixes more he)
    have hlist := ihArgs hargs ⟨closing, more.tokens ++ rest, rfl⟩
    simp only [tokens, List.append_assoc, List.cons_append]
    rw [ExprReader.suffixes_of_some (ExprReader.suffix?_call hlist hheight)]
    exact ih trivial hrest _ he
  | operand first more ihFirst ih =>
    have hfirst : (ExprReader.within levels).primary (first.tokens ++ (more.tokens ++ rest)) =
        .ok (first.value, more.tokens ++ rest) :=
      ihFirst (fits_of_suffixes more hfits) trivial
    simp only [Symbol.Reads, tokens, List.append_assoc, ExprReader.operand, hfirst]
    exact ih trivial hrest _ hfits
  | last op =>
    intro e _
    exact ExprReader.links_of_not_leads (Symbol.stops_links.1 hrest).2
  | link op sign newlines next more ihNext ih =>
    intro e he
    obtain ⟨hheight, -, hnext⟩ := Expr.fits_binary.1 (fits_of_links more he)
    have hjoined := Operator.reads_operand.1
      (ihNext (Operator.fits_operand.2 hnext) (more.links_stops hrest))
    simp only [tokens, List.append_assoc, List.cons_append]
    rw [← skipNewlines_operand newlines] at hjoined
    rw [ExprReader.links_of_joined hjoined hheight]
    exact ih trivial hrest _ he
  | chain op first more ihFirst ih =>
    rw [Symbol.stops_chain] at hrest
    have hjoined := Operator.reads_operand.1
      (ihFirst (Operator.fits_operand.2 (fits_of_links more hfits)) (more.links_stops hrest))
    simp only [Symbol.Reads, tokens, List.append_assoc, ExprReader.chained_of_joined hjoined]
    exact ih trivial hrest _ hfits
  | nothing =>
    have hcloses := ExprReader.closes_eq_true_iff.2 hrest
    simp [Symbol.Reads, tokens, value, ExprReader.argumentList, hcloses]
  | something items ih =>
    have hcloses : ExprReader.closes (items.tokens ++ rest) = false := by
      rw [← Bool.not_eq_true, ExprReader.closes_eq_true_iff]
      exact items.not_leads_close rest
    have hread := ih hfits hrest []
    simpa [Symbol.Reads, tokens, value, ExprReader.argumentList, hcloses] using hread
  | single arg ih =>
    intro args
    -- A closing parenthesis ends the expression that is the last argument.
    have hstops : (Symbol.chain .or).Stops rest := by
      obtain ⟨range, rest, rfl⟩ := hrest
      exact Symbol.expr_stops_cons id
    have hrun := ExprReader.within_run (hfits _ (by simp [value])) fun _ hlevels =>
      ih hlevels hstops
    exact ExprReader.arguments_last hrun hrest
  | trailing arg comma ih =>
    intro args
    have hrun : (ExprReader.within levels).run (arg.tokens ++ ⟨.comma, comma⟩ :: rest) =
        .ok (arg.value, ⟨.comma, comma⟩ :: rest) :=
      ExprReader.within_run (hfits _ (by simp [value])) fun _ hlevels =>
        ih hlevels (Symbol.expr_stops_cons id)
    simp only [tokens, List.append_assoc, List.cons_append, List.nil_append]
    exact ExprReader.arguments_trailing hrun hrest
  | further arg comma more ihArg ih =>
    intro args
    have hrun : (ExprReader.within levels).run
        (arg.tokens ++ ⟨.comma, comma⟩ :: (more.tokens ++ rest)) =
          .ok (arg.value, ⟨.comma, comma⟩ :: (more.tokens ++ rest)) :=
      ExprReader.within_run (hfits _ (by simp [value])) fun _ hlevels =>
        ihArg hlevels (Symbol.expr_stops_cons id)
    have hmore := ih (fun a ha => hfits a (by simp [value, ha])) hrest (arg.value :: args)
    simp only [tokens, List.append_assoc, List.cons_append]
    rw [ExprReader.arguments_further hrun (more.not_leads_close rest)]
    simpa [value] using hmore

end Derivation

section Statements

variable {rest : List Token}

/-- An expression within the limits is read where a statement may end behind it. -/
theorem readExprAs_derived (statement : Expr → Statement) (d : ExprDerivation)
    (hfits : d.value.Fits maxNesting) (hrest : StopsStatement rest) :
    readExprAs statement (d.tokens ++ rest) = .ok (statement d.value, rest) := by
  have hread : readExpr (d.tokens ++ rest) = .ok (d.value, rest) :=
    ExprReader.within_run hfits fun _ hlevels => d.reads hlevels hrest.expr_stops
  rw [readExprAs, hread]

/-- A statement within the limits is read where it may end. -/
theorem readStatement_derived (d : StatementDerivation) (hfits : d.statement.expr.Fits maxNesting)
    (hrest : StopsStatement rest) :
    readStatement (d.tokens ++ rest) = .ok (d.statement, rest) := by
  cases d with
  | declaration first isMutable name equals init =>
    have hinit : readExpr (init.tokens ++ rest) = .ok (init.value, rest) :=
      ExprReader.within_run hfits fun _ hlevels => init.reads hlevels hrest.expr_stops
    simp [StatementDerivation.tokens, StatementDerivation.statement, readStatement,
      StatementDerivation.declares?_keyword, readDeclaration, readIdent, readEquals, hinit, bind,
      Except.bind, pure, Except.pure]
  | assignment name equals value plain =>
    have hvalue := readExprAs_derived (.assignment name) value hfits hrest
    simp [StatementDerivation.tokens, StatementDerivation.statement, readStatement, plain, hvalue]
  | expression expr plain =>
    have hexpr := readExprAs_derived .expression expr hfits hrest
    obtain ⟨t, more, htokens, -⟩ := expr.exists_head trivial
    rw [StatementDerivation.tokens, StatementDerivation.statement]
    unfold readStatement
    split
    · next text range _ heq =>
      have hhead : t = ⟨.name text, range⟩ := by
        rw [htokens] at heq
        exact (List.cons.inj heq).1
      rw [plain text range (by rw [htokens, hhead]; rfl)]
      dsimp only
      split
      · next heq _ => exact absurd heq (StatementDerivation.expression_ne_assignment hrest)
      · exact hexpr
    · exact hexpr

/-- A statement behind separators is read, and then what is left behind it. -/
theorem readStatements_of_read {before : List Statement} {s : Statement} {t : Token}
    {ts ts' : List Token} (hskip : skipSeparators ts = t :: ts')
    (hread : readStatement (t :: ts') = .ok (s, rest)) (hends : endsStatement rest = true) :
    readStatements before ts = readStatements (s :: before) rest := by
  rw [readStatements]
  split
  · next hnil => exact absurd (hskip.symm.trans hnil) (by simp)
  · next hcons =>
    obtain ⟨rfl, rfl⟩ := List.cons.inj (hskip.symm.trans hcons)
    split <;> simp_all

/-- The lines of a script within the limits are read. -/
theorem readStatements_derived (trailing : List Separator) (before : List Statement)
    {lines : List (List Separator × StatementDerivation)}
    (hseparated : ∀ line ∈ lines.tail, line.1 ≠ [])
    (hfits : ∀ line ∈ lines, line.2.statement.expr.Fits maxNesting) :
    readStatements before (ScriptDerivation.tokensOf trailing lines) =
      .ok (before.reverse ++ lines.map (·.2.statement)) := by
  induction lines generalizing before with
  | nil =>
    have hskip : skipSeparators (separatorTokens trailing ++ []) = [] :=
      skipSeparators_append trailing rfl
    rw [List.append_nil] at hskip
    rw [ScriptDerivation.tokensOf, readStatements]
    split <;> simp_all
  | cons line lines ih =>
    obtain ⟨separators, d⟩ := line
    obtain ⟨t, ts, htokens, -⟩ := d.exists_head
    have hstops : StopsStatement (ScriptDerivation.tokensOf trailing lines) :=
      ScriptDerivation.tokensOf_stops hseparated
    have hskip := skipSeparators_append separators
      (ScriptDerivation.skipSeparators_statement d (ScriptDerivation.tokensOf trailing lines))
    have hread := readStatement_derived d (hfits (separators, d) List.mem_cons_self) hstops
    have hmore := ih (d.statement :: before)
      (fun line hline => hseparated line (List.mem_of_mem_tail hline))
      (fun line hline => hfits line (List.mem_cons_of_mem _ hline))
    rw [htokens, List.cons_append] at hskip hread
    rw [ScriptDerivation.tokensOf, htokens, List.cons_append,
      readStatements_of_read hskip hread hstops.1, hmore]
    simp

end Statements

end Script

/-- A source that has tokens is parsed exactly when these have a derivation within the limits. The
tokens have one derivation at most, and its script is what the source is parsed as. -/
theorem Script.accepts_grammar {source : List Char} {tokens : Script.Tokens}
    (h : Script.Tokens.ofSource source = .ok tokens) :
    ((∃ script, Script.ofSource source = .ok script) ↔
      ∃ d : ScriptDerivation, d.tokens = tokens.items ∧ d.script.IsShallow) ∧
    ∀ d : ScriptDerivation, d.tokens = tokens.items →
      (∀ d' : ScriptDerivation, d'.tokens = tokens.items → d' = d) ∧
      (d.script.IsShallow → Script.ofSource source = .ok d.script) := by
  have hcomplete : ∀ d : ScriptDerivation, d.tokens = tokens.items → d.script.IsShallow →
      Script.ofSource source = .ok d.script := by
    intro d htokens hshallow
    have hfits : ∀ line ∈ d.lines, line.2.statement.expr.Fits maxNesting :=
      fun line hline => hshallow _ (List.mem_map_of_mem hline)
    have hread := readStatements_derived d.trailing [] d.separated hfits
    rw [← ScriptDerivation.tokens, htokens, List.reverse_nil, List.nil_append] at hread
    simp only [Script.ofSource, h, hread]
    rfl
  refine ⟨⟨?_, ?_⟩, ?_⟩
  · rintro ⟨script, hscript⟩
    simp only [Script.ofSource, h] at hscript
    split at hscript
    · simp at hscript
    · next statements hread =>
      obtain ⟨d, htokens, -, hshallow⟩ := readStatements_sound hread
      exact ⟨d, htokens, hshallow⟩
  · rintro ⟨d, htokens, hshallow⟩
    exact ⟨d.script, hcomplete d htokens hshallow⟩
  · intro d htokens
    exact ⟨fun d' htokens' => ScriptDerivation.eq_of_tokens_eq (htokens'.trans htokens.symm),
      hcomplete d htokens⟩

namespace Script

namespace Sample

/-- A declaration of a name that is an operator elsewhere, of a chain that goes on in a second line,
with one comma too many. -/
def contextual : List Char :=
  ['v', 'a', 'l', ' ', 'o', 'r', ' ', '=', ' ', 'a', '\n',
    '.', 'b', '(', '1', ' ', 'o', 'r', ' ', 'o', 'r', ',', ')', ';']

/-- The tokens of the declaration. -/
def contextualTokens : Tokens :=
  ⟨[⟨.name "val", ⟨0, 3⟩⟩, ⟨.name "or", ⟨4, 6⟩⟩, ⟨.equals, ⟨7, 8⟩⟩, ⟨.name "a", ⟨9, 10⟩⟩,
    ⟨.newline, ⟨10, 11⟩⟩, ⟨.dot, ⟨11, 12⟩⟩, ⟨.name "b", ⟨12, 13⟩⟩, ⟨.openParen, ⟨13, 14⟩⟩,
    ⟨.integer 1, ⟨14, 15⟩⟩, ⟨.name "or", ⟨16, 18⟩⟩, ⟨.name "or", ⟨19, 21⟩⟩, ⟨.comma, ⟨21, 22⟩⟩,
    ⟨.closeParen, ⟨22, 23⟩⟩, ⟨.semicolon, ⟨23, 24⟩⟩], 24⟩

/-- The derivation of its argument. -/
def contextualArgument : ExprDerivation :=
  .chain .or (Derivation.integer ⟨14, 15⟩ 1).asSum
    (.link .or ⟨16, 18⟩ [] (Derivation.name ⟨19, 21⟩ "or").asSum (.last .or))

/-- The derivation of what is declared. -/
def contextualChain : ExprDerivation :=
  .chain .or (.chain .plus
    (.operand (.name ⟨9, 10⟩ "a")
      (.member [⟨10, 11⟩] ⟨11, 12⟩ ⟨"b", ⟨12, 13⟩⟩
        (.call ⟨13, 14⟩ (.something (.trailing contextualArgument ⟨21, 22⟩)) ⟨22, 23⟩ .bare)))
    (.last .plus)) (.last .or)

/-- The derivation of the declaration. -/
def contextualDerivation : ScriptDerivation :=
  ⟨[([], .declaration ⟨0, 3⟩ false ⟨"or", ⟨4, 6⟩⟩ ⟨7, 8⟩ contextualChain)],
    [⟨⟨.semicolon, ⟨23, 24⟩⟩, .inr rfl⟩], by simp⟩

theorem ofSource_contextual : Tokens.ofSource contextual = .ok contextualTokens := by
  with_unfolding_all rfl

end Sample

/-- The declaration is parsed as its derivation, which is the only one. -/
theorem accepts_grammar_contextual :
    (∀ d : ScriptDerivation, d.tokens = Sample.contextualTokens.items →
      d = Sample.contextualDerivation) ∧
    Script.ofSource Sample.contextual = .ok Sample.contextualDerivation.script := by
  obtain ⟨-, hderived⟩ := Script.accepts_grammar Sample.ofSource_contextual
  obtain ⟨hunique, hparsed⟩ := hderived Sample.contextualDerivation rfl
  refine ⟨hunique, hparsed ?_⟩
  simp [Script.IsShallow, ScriptDerivation.script, Sample.contextualDerivation,
    StatementDerivation.statement, Sample.contextualChain, Sample.contextualArgument,
    Statement.expr, Derivation.asSum, Derivation.value, Operator.tree, Expr.height, Expr.heightAll,
    Expr.enclosure, Expr.enclosureAll, maxNesting]

end Script

end RegexAudit
