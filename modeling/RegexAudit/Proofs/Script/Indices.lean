import RegexAudit.Proofs.Script.Lookups

/-!
# No look-up of a parser fails

The parser that keeps an index finds what the parser that keeps the remaining tokens finds. A loop
that takes a token in every round has enough rounds.

## Main definitions

* `IndexParser.Follows`: a reader that keeps an index finds what another one finds.

## Main statements

* `IndexParser.suffixes_succ`, `IndexParser.addends_plus`, `IndexParser.alternatives_or`: one round
  of each loop inside of an expression.
* `IndexParser.within_follows`: the readers of expressions.
* `IndexParser.statements_eq`: the whole parser.
* `Script.cutting_eq`: no cut and no look-up fails on the way to a script.
-/

namespace RegexAudit

namespace Script

namespace IndexParser

variable {source : List Char} {tokens : Tokens} {ts rest : List Token}

section Levels

/-- A reader that keeps an index finds what a reader of the remaining tokens finds. -/
def Follows (source : List Char) (tokens : Tokens) (inner : Nat → Cutting (Expr × Nat))
    (reader : ExprReader) : Prop :=
  ∀ {ts}, ts <:+ tokens.items → inner (tokens.place ts) = answer source tokens (reader.run ts)

variable (h : Tokens.ofSource source = .ok tokens) {inner : Nat → Cutting (Expr × Nat)}
  {reader : ExprReader} (hinner : Follows source tokens inner reader)
  (hreader : reader.Faithful tokens.items)

include hinner hreader

include h in
theorem primary_eq (hts : ts <:+ tokens.items) :
    primary source tokens.row inner (tokens.place ts) =
      answer source tokens (reader.primary ts) := by
  rw [primary, current_eq hts, pure_bind, unexpected_eq h .expression hts]
  cases ts with
  | nil => rfl
  | cons t rest =>
    obtain ⟨kind, range⟩ := t
    have hrest := suffix_of_cons hts
    rw [bump_cons hts]
    cases kind with
    | openParen =>
      dsimp only [Tokens.slot]
      rw [hinner hrest, ExprReader.primary]
      cases hrun : reader.run rest with
      | error rejection => rfl
      | ok result =>
        obtain ⟨e, rest'⟩ := result
        obtain ⟨hrest', -⟩ := hreader hrest hrun
        rw [answer_ok_bind]
        dsimp only
        rw [close_eq h hrest']
        cases hclose : readClose rest' with
        | error rejection => rfl
        | ok result =>
          obtain ⟨close, rest''⟩ := result
          rw [answer_ok_bind]
          dsimp only
          have hrest'' := readClose_suffix hrest' hclose
          exact (checked_bind_eq source _ hrest'' pure).trans (bind_pure _)
    | _ => rfl

theorem arguments_eq {args : List Expr} {rounds : Nat} (hts : ts <:+ tokens.items)
    (hrounds : ts.length < rounds) :
    arguments tokens.row inner rounds args (tokens.place ts) =
      answer source tokens (reader.arguments args ts) := by
  obtain ⟨rounds, rfl⟩ := Nat.exists_eq_succ_of_ne_zero (Nat.ne_zero_of_lt hrounds)
  -- Every argument takes a token, and so does the comma behind it.
  fun_induction ExprReader.arguments reader args ts generalizing rounds with
  | case1 args ts rejection hrun =>
    rw [arguments, hinner hts, hrun]
    rfl
  | case2 args ts e rest hrun hcomma =>
    obtain ⟨hrest, -⟩ := hreader hts hrun
    rw [arguments, hinner hts, hrun]
    rw [answer_ok_bind]
    dsimp only
    rw [comma_eq hrest, hcomma, pure_bind]
    rfl
  | case3 args ts e rest hrun rest' hcomma hcloses =>
    obtain ⟨hrest, -⟩ := hreader hts hrun
    rw [arguments, hinner hts, hrun]
    rw [answer_ok_bind]
    dsimp only
    rw [comma_eq hrest, hcomma, pure_bind, bump_comma hrest hcomma,
      closes_eq (afterComma?_suffix hrest hcomma), pure_bind, hcloses]
    rfl
  | case4 args ts e rest hrun rest' hcomma hcloses ih =>
    obtain ⟨hrest, -⟩ := hreader hts hrun
    have hrest' := afterComma?_suffix hrest hcomma
    have hlt := reader.shrinks hrun
    have hlt' := ExprReader.afterComma?_length_lt hcomma
    obtain ⟨rounds, rfl⟩ := Nat.exists_eq_succ_of_ne_zero (show rounds ≠ 0 by omega)
    rw [arguments, hinner hts, hrun]
    rw [answer_ok_bind]
    dsimp only
    rw [comma_eq hrest, hcomma, pure_bind, bump_comma hrest hcomma, closes_eq hrest', pure_bind,
      if_neg hcloses]
    exact ih hrest' rounds (by omega)

theorem argumentList_eq (hts : ts <:+ tokens.items) :
    argumentList tokens.row inner (tokens.place ts) =
      answer source tokens (reader.argumentList ts) := by
  rw [argumentList, closes_eq hts, pure_bind, ExprReader.argumentList]
  split
  · rfl
  · exact arguments_eq hinner hreader hts (length_lt_row hts)

section Rounds

variable (e : Expr) (rounds : Nat)

omit hinner hreader in
include h in
/-- A round that comes to a member access. -/
theorem suffixes_member (reader : ExprReader) (hts : ts <:+ tokens.items)
    (hdot : (tokens.slot (Script.skipNewlines ts)).kind = some .dot) :
    ∃ reading, reader.suffix? e ts = some reading ∧
      suffixes source tokens.row inner (rounds + 1) e (tokens.place ts) =
        (answer source tokens reading >>= fun found =>
          suffixes source tokens.row inner rounds found.1 found.2) := by
  obtain ⟨range, rest, hcons⟩ := Tokens.kind_slot_eq_some_iff.1 hdot
  have hafter : afterDot? ts = some rest := by rw [afterDot?, hcons]
  have hskipped := skipNewlines_suffix hts
  rw [hcons] at hskipped
  have hrest := suffix_of_cons hskipped
  rw [suffixes, dotFollows_eq hts, pure_bind, if_pos (beq_iff_eq.2 hdot), skipNewlines_eq hts,
    pure_bind, hcons, bump_cons hskipped, ident_eq h hrest, ExprReader.suffix?.eq_def, hafter]
  dsimp only
  cases hident : readIdent rest with
  | error rejection => exact ⟨_, rfl, rfl⟩
  | ok result =>
    obtain ⟨member, rest'⟩ := result
    refine ⟨_, rfl, ?_⟩
    rw [answer_ok_bind]
    exact checked_bind_eq source _ (readIdent_suffix hrest hident) fun found =>
      suffixes source tokens.row inner rounds found.1 found.2

include h in
/-- A round that comes to a call. -/
theorem suffixes_call (hts : ts <:+ tokens.items)
    (hdot : (tokens.slot (Script.skipNewlines ts)).kind ≠ some .dot)
    (hopen : (tokens.slot ts).kind = some .openParen) :
    ∃ reading, reader.suffix? e ts = some reading ∧
      suffixes source tokens.row inner (rounds + 1) e (tokens.place ts) =
        (answer source tokens reading >>= fun found =>
          suffixes source tokens.row inner rounds found.1 found.2) := by
  obtain ⟨range, rest, rfl⟩ := Tokens.kind_slot_eq_some_iff.1 hopen
  have hrest := suffix_of_cons hts
  rw [suffixes, dotFollows_eq hts, pure_bind, if_neg (fun heq => hdot (beq_iff_eq.1 heq)),
    at?_eq hts, pure_bind, if_pos (beq_iff_eq.2 hopen), bump_cons hts,
    argumentList_eq hinner hreader hrest, ExprReader.suffix?.eq_def, afterDot?_eq_none hdot]
  dsimp only
  cases hargs : reader.argumentList rest with
  | error rejection => exact ⟨_, rfl, rfl⟩
  | ok result =>
    obtain ⟨args, rest'⟩ := result
    obtain ⟨hrest', -⟩ := ExprReader.argumentList_faithful hreader hrest hargs
    rw [answer_ok_bind]
    dsimp only
    rw [close_eq h hrest']
    cases hclose : readClose rest' with
    | error rejection => exact ⟨_, rfl, rfl⟩
    | ok result =>
      obtain ⟨close, rest''⟩ := result
      refine ⟨_, rfl, ?_⟩
      rw [answer_ok_bind]
      exact checked_bind_eq source _ (readClose_suffix hrest' hclose) fun found =>
        suffixes source tokens.row inner rounds found.1 found.2

omit hinner hreader in
/-- A round that comes to neither is the last one. -/
theorem suffixes_end (reader : ExprReader) (hts : ts <:+ tokens.items)
    (hdot : (tokens.slot (Script.skipNewlines ts)).kind ≠ some .dot)
    (hopen : (tokens.slot ts).kind ≠ some .openParen) :
    reader.suffix? e ts = none ∧
      suffixes source tokens.row inner (rounds + 1) e (tokens.place ts) =
        pure (e, tokens.place ts) := by
  constructor
  · rw [ExprReader.suffix?.eq_def, afterDot?_eq_none hdot]
    dsimp only
    split
    · next range rest => exact absurd rfl hopen
    · rfl
  · rw [suffixes, dotFollows_eq hts, pure_bind, if_neg (fun heq => hdot (beq_iff_eq.1 heq)),
      at?_eq hts, pure_bind, if_neg (fun heq => hopen (beq_iff_eq.1 heq))]

include h in
/-- One round of member accesses and calls. -/
theorem suffixes_succ (hts : ts <:+ tokens.items) :
    suffixes source tokens.row inner (rounds + 1) e (tokens.place ts) =
      match reader.suffix? e ts with
      | none => pure (e, tokens.place ts)
      | some (.error rejection) => .refuse (rejection.fault source tokens.stop)
      | some (.ok (e, rest)) =>
        suffixes source tokens.row inner rounds e (tokens.place rest) := by
  by_cases hdot : (tokens.slot (Script.skipNewlines ts)).kind = some .dot
  · obtain ⟨reading, hsome, hround⟩ := suffixes_member h e rounds reader hts hdot
    rw [hround, hsome]
    cases reading with
    | error rejection => rfl
    | ok result => rfl
  · by_cases hopen : (tokens.slot ts).kind = some .openParen
    · obtain ⟨reading, hsome, hround⟩ := suffixes_call h hinner hreader e rounds hts hdot hopen
      rw [hround, hsome]
      cases reading with
      | error rejection => rfl
      | ok result => rfl
    · obtain ⟨hnone, hround⟩ := suffixes_end e rounds reader hts hdot hopen
      rw [hround, hnone]

end Rounds

include h

theorem suffixes_eq {e : Expr} {rounds : Nat} (hts : ts <:+ tokens.items)
    (he : e.ReadFrom tokens.items) (hrounds : ts.length < rounds) :
    suffixes source tokens.row inner rounds e (tokens.place ts) =
      answer source tokens (reader.suffixes e ts) := by
  obtain ⟨rounds, rfl⟩ := Nat.exists_eq_succ_of_ne_zero (Nat.ne_zero_of_lt hrounds)
  fun_induction ExprReader.suffixes reader e ts generalizing rounds with
  | case1 e ts hsuffix =>
    rw [suffixes_succ h hinner hreader e rounds hts, hsuffix]
    rfl
  | case2 e ts rejection hsuffix =>
    rw [suffixes_succ h hinner hreader e rounds hts, hsuffix]
    rfl
  | case3 e ts e' rest hsuffix ih =>
    obtain ⟨hrest, he'⟩ := ExprReader.suffix?_faithful hreader hts he hsuffix
    have hlt := ExprReader.suffix?_shrinks hsuffix
    obtain ⟨rounds, rfl⟩ := Nat.exists_eq_succ_of_ne_zero (show rounds ≠ 0 by omega)
    rw [suffixes_succ h hinner hreader e (rounds + 1) hts, hsuffix]
    exact ih hrest he' rounds (by omega)

theorem operand_eq (hts : ts <:+ tokens.items) :
    operand source tokens.row inner (tokens.place ts) =
      answer source tokens (reader.operand ts) := by
  rw [operand, primary_eq h hinner hreader hts, ExprReader.operand]
  cases hprimary : reader.primary ts with
  | error rejection => rfl
  | ok result =>
    obtain ⟨e, rest⟩ := result
    obtain ⟨hrest, he⟩ := ExprReader.primary_faithful hreader hts hprimary
    rw [answer_ok_bind]
    exact suffixes_eq h hinner hreader hrest he (length_lt_row hrest)

/-- One round of a sum: an operand behind a plus sign. -/
theorem addends_plus (lhs : Expr) (rounds : Nat) {range : Span}
    (hts : ⟨.plus, range⟩ :: rest <:+ tokens.items) :
    addends source tokens.row inner (rounds + 1) lhs (tokens.place (⟨.plus, range⟩ :: rest)) =
      match reader.operand (Script.skipNewlines rest) with
      | .error rejection => .refuse (rejection.fault source tokens.stop)
      | .ok (rhs, rest') =>
        match admit? (.binary (lhs.range.cover rhs.range) .plus lhs rhs) rest' with
        | .error rejection => .refuse (rejection.fault source tokens.stop)
        | .ok (e, _) => addends source tokens.row inner rounds e (tokens.place rest') := by
  have hrest := suffix_of_cons hts
  have hskipped := skipNewlines_suffix hrest
  rw [addends, at?_cons hts, pure_bind, if_pos rfl, bump_cons hts, skipNewlines_eq hrest,
    pure_bind, operand_eq h hinner hreader hskipped]
  cases hoperand : reader.operand (Script.skipNewlines rest) with
  | error rejection => rfl
  | ok result =>
    obtain ⟨rhs, rest'⟩ := result
    obtain ⟨hrest', -⟩ := ExprReader.operand_faithful hreader hskipped hoperand
    rw [answer_ok_bind]
    dsimp only
    rw [checked_eq source _ hrest']
    cases admit? (.binary (lhs.range.cover rhs.range) .plus lhs rhs) rest' with
    | error rejection => rfl
    | ok result => rfl

theorem addends_eq {lhs : Expr} {rounds : Nat} (hts : ts <:+ tokens.items)
    (hrounds : ts.length < rounds) :
    addends source tokens.row inner rounds lhs (tokens.place ts) =
      answer source tokens (reader.addends lhs ts) := by
  obtain ⟨rounds, rfl⟩ := Nat.exists_eq_succ_of_ne_zero (Nat.ne_zero_of_lt hrounds)
  fun_induction ExprReader.addends reader lhs ts generalizing rounds with
  | case1 lhs range rest rejection hoperand =>
    rw [addends_plus h hinner hreader lhs rounds hts, hoperand]
    rfl
  | case2 lhs range rest rhs rest' hoperand rejection hadmission =>
    rw [addends_plus h hinner hreader lhs rounds hts, hoperand]
    dsimp only
    rw [hadmission]
    rfl
  | case3 lhs range rest rhs rest' hoperand e rest'' hadmission ih =>
    obtain ⟨hrest', -⟩ :=
      ExprReader.operand_faithful hreader (skipNewlines_suffix (suffix_of_cons hts)) hoperand
    have hlt := ExprReader.operand_shrinks hoperand
    have hle := skipNewlines_length_le rest
    rw [List.length_cons] at hrounds
    obtain ⟨rounds, rfl⟩ := Nat.exists_eq_succ_of_ne_zero (show rounds ≠ 0 by omega)
    rw [addends_plus h hinner hreader lhs (rounds + 1) hts, hoperand]
    dsimp only
    rw [hadmission]
    exact ih hrest' rounds (by omega)
  | case4 lhs ts hother =>
    have hplus : (tokens.slot ts).kind ≠ some .plus := by
      intro hkind
      obtain ⟨range, rest, hcons⟩ := Tokens.kind_slot_eq_some_iff.1 hkind
      exact hother range rest hcons
    rw [addends, at?_eq hts, pure_bind, if_neg (fun heq => hplus (beq_iff_eq.1 heq))]
    rfl

theorem sum_eq (hts : ts <:+ tokens.items) :
    sum source tokens.row inner (tokens.place ts) = answer source tokens (reader.sum ts) := by
  rw [sum, operand_eq h hinner hreader hts, ExprReader.sum]
  cases hoperand : reader.operand ts with
  | error rejection => rfl
  | ok result =>
    obtain ⟨e, rest⟩ := result
    obtain ⟨hrest, -⟩ := ExprReader.operand_faithful hreader hts hoperand
    rw [answer_ok_bind]
    exact addends_eq h hinner hreader hrest (length_lt_row hrest)

/-- One round of a union: a sum behind the word of it. -/
theorem alternatives_or (lhs : Expr) (rounds : Nat) (hts : ts <:+ tokens.items)
    (hor : ExprReader.afterOr? ts = some rest) :
    alternatives source tokens.row inner (rounds + 1) lhs (tokens.place ts) =
      match reader.sum (Script.skipNewlines rest) with
      | .error rejection => .refuse (rejection.fault source tokens.stop)
      | .ok (rhs, rest') =>
        match admit? (.binary (lhs.range.cover rhs.range) .or lhs rhs) rest' with
        | .error rejection => .refuse (rejection.fault source tokens.stop)
        | .ok (e, _) => alternatives source tokens.row inner rounds e (tokens.place rest') := by
  have hrest := afterOr?_suffix hts hor
  have hskipped := skipNewlines_suffix hrest
  rw [alternatives, or_eq hts, hor, pure_bind, Option.isSome_some, if_pos rfl, bump_or hts hor,
    skipNewlines_eq hrest, pure_bind, sum_eq h hinner hreader hskipped]
  cases hsum : reader.sum (Script.skipNewlines rest) with
  | error rejection => rfl
  | ok result =>
    obtain ⟨rhs, rest'⟩ := result
    obtain ⟨hrest', -⟩ := ExprReader.sum_faithful hreader hskipped hsum
    rw [answer_ok_bind]
    dsimp only
    rw [checked_eq source _ hrest']
    cases admit? (.binary (lhs.range.cover rhs.range) .or lhs rhs) rest' with
    | error rejection => rfl
    | ok result => rfl

theorem alternatives_eq {lhs : Expr} {rounds : Nat} (hts : ts <:+ tokens.items)
    (hrounds : ts.length < rounds) :
    alternatives source tokens.row inner rounds lhs (tokens.place ts) =
      answer source tokens (reader.alternatives lhs ts) := by
  obtain ⟨rounds, rfl⟩ := Nat.exists_eq_succ_of_ne_zero (Nat.ne_zero_of_lt hrounds)
  fun_induction ExprReader.alternatives reader lhs ts generalizing rounds with
  | case1 lhs ts hor =>
    rw [alternatives, or_eq hts, hor, pure_bind]
    rfl
  | case2 lhs ts rest hor rejection hsum =>
    rw [alternatives_or h hinner hreader lhs rounds hts hor, hsum]
    rfl
  | case3 lhs ts rest hor rhs rest' hsum rejection hadmission =>
    rw [alternatives_or h hinner hreader lhs rounds hts hor, hsum]
    dsimp only
    rw [hadmission]
    rfl
  | case4 lhs ts rest hor rhs rest' hsum e rest'' hadmission ih =>
    obtain ⟨hrest', -⟩ :=
      ExprReader.sum_faithful hreader (skipNewlines_suffix (afterOr?_suffix hts hor)) hsum
    have hlt := ExprReader.sum_shrinks hsum
    have hlt' := ExprReader.afterOr?_length_lt hor
    have hle := skipNewlines_length_le rest
    obtain ⟨rounds, rfl⟩ := Nat.exists_eq_succ_of_ne_zero (show rounds ≠ 0 by omega)
    rw [alternatives_or h hinner hreader lhs (rounds + 1) hts hor, hsum]
    dsimp only
    rw [hadmission]
    exact ih hrest' rounds (by omega)

theorem expr_eq (hts : ts <:+ tokens.items) :
    expr source tokens.row inner (tokens.place ts) = answer source tokens (reader.expr ts) := by
  rw [expr, sum_eq h hinner hreader hts, ExprReader.expr]
  cases hsum : reader.sum ts with
  | error rejection => rfl
  | ok result =>
    obtain ⟨e, rest⟩ := result
    obtain ⟨hrest, -⟩ := ExprReader.sum_faithful hreader hts hsum
    rw [answer_ok_bind]
    exact alternatives_eq h hinner hreader hrest (length_lt_row hrest)

end Levels

section Statements

variable (h : Tokens.ofSource source = .ok tokens)

include h

/-- The readers of expressions find the same, however deep they read. -/
theorem within_follows (levels : Nat) :
    Follows source tokens (within source tokens.row levels) (ExprReader.within levels) := by
  induction levels with
  | zero =>
    intro ts hts
    exact tooDeep_eq hts
  | succ levels ih =>
    intro ts hts
    exact expr_eq h ih (ExprReader.within_faithful tokens.items levels) hts

theorem exprAs_eq (make : Expr → Statement) (hts : ts <:+ tokens.items) :
    exprAs source tokens.row make (tokens.place ts) =
      answer source tokens (readExprAs make ts) := by
  rw [exprAs, within_follows h maxNesting hts, readExprAs, readExpr]
  cases (ExprReader.within maxNesting).run ts with
  | error rejection => rfl
  | ok result => rfl

theorem declaration_eq (isMutable : Bool) (hts : ts <:+ tokens.items) :
    declaration source tokens.row isMutable (tokens.place ts) =
      answer source tokens (readDeclaration isMutable ts) := by
  rw [declaration, ident_eq h hts, readDeclaration]
  cases hident : readIdent ts with
  | error rejection => rfl
  | ok result =>
    obtain ⟨name, rest⟩ := result
    have hrest := readIdent_suffix hts hident
    rw [answer_ok_bind]
    show (expect source tokens.row .equals .equals (tokens.place rest) >>= fun found =>
      exprAs source tokens.row (.declaration isMutable name) found.2) = _
    rw [equals_eq h hrest]
    cases hequals : readEquals rest with
    | error rejection =>
      show _ = answer source tokens (readEquals rest >>= _)
      rw [hequals]
      rfl
    | ok result =>
      obtain ⟨_, rest'⟩ := result
      dsimp only
      rw [pure_bind, exprAs_eq h _ (readEquals_suffix hrest hequals), readExprAs]
      show _ = answer source tokens (readEquals rest >>= _)
      rw [hequals]
      show _ = answer source tokens (readExpr rest' >>= _)
      cases readExpr rest' with
      | error rejection => rfl
      | ok result => rfl

theorem statement_eq (hts : ts <:+ tokens.items) :
    statement source tokens.row (tokens.place ts) = answer source tokens (readStatement ts) := by
  rw [statement, current_eq hts, pure_bind]
  fun_cases readStatement ts with
  | case1 text range rest isMutable hdeclares =>
    dsimp only [Tokens.slot]
    rw [hdeclares, bump_cons hts]
    exact declaration_eq h isMutable (suffix_of_cons hts)
  | case2 text range hdeclares range' rest =>
    have hequals := suffix_of_cons hts
    have hkind : ((tokens.slot (⟨.equals, range'⟩ :: rest)).kind == some .equals) = true :=
      beq_self_eq_true _
    dsimp only [Tokens.slot]
    rw [hdeclares, nthIs_eq hts]
    dsimp only
    rw [if_pos hkind, ident_eq h hts]
    show exprAs source tokens.row (.assignment ⟨text, range⟩)
      (bump tokens.row (tokens.place (⟨.equals, range'⟩ :: rest))) = _
    rw [bump_cons hequals]
    exact exprAs_eq h _ (suffix_of_cons hequals)
  | case3 text range hdeclares rest hother =>
    have hkind : (tokens.slot rest).kind ≠ some .equals := by
      intro heq
      obtain ⟨range', rest', hcons⟩ := Tokens.kind_slot_eq_some_iff.1 heq
      exact hother range' rest' hcons
    dsimp only [Tokens.slot]
    rw [hdeclares, nthIs_eq hts]
    dsimp only
    rw [if_neg (fun heq => hkind (beq_iff_eq.1 heq))]
    exact exprAs_eq h _ hts
  | case4 ts hother =>
    split
    · next text hkind =>
      obtain ⟨range, rest, hcons⟩ := Tokens.kind_slot_eq_some_iff.1 hkind
      exact absurd hcons (hother text range rest)
    · exact exprAs_eq h _ hts

omit h in
theorem endsStatement_eq (tokens : Tokens) (ts : List Token) :
    endsStatement (tokens.slot ts) = Script.endsStatement ts := by
  cases ts with
  | nil => rfl
  | cons t rest => rfl

/-- The parser that keeps an index finds the statements that the parser finds. -/
theorem statements_eq {read : List Statement} {rounds : Nat} (hts : ts <:+ tokens.items)
    (hrounds : ts.length < rounds) :
    statements source tokens.row rounds read (tokens.place ts) =
      match readStatements read ts with
      | .ok found => pure found
      | .error rejection => .refuse (rejection.fault source tokens.stop) := by
  obtain ⟨rounds, rfl⟩ := Nat.exists_eq_succ_of_ne_zero (Nat.ne_zero_of_lt hrounds)
  have hskip : ∀ {ts : List Token}, ts <:+ tokens.items →
      skip tokens.row (fun kind => kind == .newline || kind == .semicolon) tokens.row.length
        (tokens.place ts) = pure (tokens.place (skipSeparators ts)) :=
    fun hts => skip_eq hts (length_lt_row hts)
  have hmore : ∀ (t : Token) (ts : List Token), ¬(tokens.slot (t :: ts)).kind = none :=
    fun t ts => Option.some_ne_none t.kind
  fun_induction readStatements read ts generalizing rounds with
  | case1 read ts hskipped =>
    rw [statements, hskip hts, pure_bind, current_eq (skipSeparators_suffix hts), pure_bind,
      hskipped]
    rfl
  | case2 read ts t ts' hskipped rejection hread =>
    have hrest := skipSeparators_suffix hts
    rw [hskipped] at hrest
    rw [statements, hskip hts, pure_bind, hskipped, current_eq hrest, pure_bind,
      if_neg (hmore t ts'), statement_eq h hrest, hread]
    rfl
  | case3 read ts t ts' hskipped s rest hread hends ih =>
    have hlt := readStatement_shrinks hread
    have hle := skipSeparators_length_le ts
    have hsome := skipSeparators_suffix hts
    rw [hskipped] at hle hsome
    obtain ⟨hrest, -⟩ := readStatement_faithful hsome hread
    obtain ⟨rounds, rfl⟩ := Nat.exists_eq_succ_of_ne_zero (show rounds ≠ 0 by omega)
    rw [statements, hskip hts, pure_bind, hskipped, current_eq hsome, pure_bind,
      if_neg (hmore t ts'), statement_eq h hsome, hread, answer_ok_bind]
    dsimp only
    rw [current_eq hrest, pure_bind, endsStatement_eq, if_pos hends]
    exact ih hrest rounds (by omega)
  | case4 read ts t ts' hskipped s rest hread hends =>
    have hsome := skipSeparators_suffix hts
    rw [hskipped] at hsome
    obtain ⟨hrest, -⟩ := readStatement_faithful hsome hread
    rw [statements, hskip hts, pure_bind, hskipped, current_eq hsome, pure_bind,
      if_neg (hmore t ts'), statement_eq h hsome, hread, answer_ok_bind]
    dsimp only
    rw [current_eq hrest, pure_bind, endsStatement_eq, if_neg hends]
    exact unexpected_eq h .endOfStatement hrest

end Statements

end IndexParser

end Script

open Script in
/-- No cut and no look-up fails on the way to a script. -/
theorem Script.cutting_eq {source : List Char} (hsize : Text.width source ≤ maxSourceBytes) :
    Script.cutting source = .ofExcept (Script.ofSource source) := by
  have hcut : ExceptT.mk (Tokens.cut? source) = Cutting.ofExcept (Tokens.ofSource source) :=
    congrArg ExceptT.mk (Tokens.cut?_eq hsize)
  rw [Script.cutting, hcut, Script.ofSource]
  cases htokens : Tokens.ofSource source with
  | error fault => rfl
  | ok tokens =>
    have hplace : tokens.place tokens.items = 0 := Nat.sub_self _
    have hstatements : IndexParser.statements source tokens.row tokens.row.length []
        (tokens.place tokens.items) = _ :=
      IndexParser.statements_eq htokens List.suffix_rfl (IndexParser.length_lt_row List.suffix_rfl)
    rw [hplace] at hstatements
    rw [Cutting.ofExcept_ok, pure_bind, hstatements]
    dsimp only
    cases readStatements [] tokens.items with
    | error rejection => rfl
    | ok found => rfl

end RegexAudit
