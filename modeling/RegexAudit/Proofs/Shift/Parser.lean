import RegexAudit.Proofs.Script.Acceptance
import RegexAudit.Proofs.Shift.Lexer

/-!
# Parsing a moved source

The parser does not look at spans, so from moved tokens it reads the moved tree or gives up in front
of the same tokens. Newlines in front of a script are passed over. Behind leading lines a source
therefore spells the moved script, or has the moved fault.

## Main definitions

* `Rejection.shift`, `Reading.shift`: the outcome of a reader, moved.
* `ExprReader.Movable`: a reader reads moved tokens like the tokens.

## Main statements

* `ExprReader.within_movable`: the readers of expressions.
* `readStatements_shift`: the whole parser.
* `Script.ofSource_leadingLines`: the script of a source behind leading lines.
-/

namespace RegexAudit

namespace Script

/-- The rejection, moved by some bytes. -/
def Rejection.shift (w : Nat) : Rejection → Rejection
  | .expected what remaining => .expected what (remaining.map (Token.shift w))
  | .nestedTooDeep remaining => .nestedTooDeep (remaining.map (Token.shift w))

/-- What is read, moved by some bytes, or the rejection, moved likewise. -/
def Reading.shift {α : Type} (w : Nat) (f : α → α) : Reading α → Reading α
  | .ok (a, rest) => .ok (f a, rest.map (Token.shift w))
  | .error r => .error (r.shift w)

variable {w : Nat}

theorem skipNewlines_shift (ts : List Token) :
    skipNewlines (ts.map (Token.shift w)) = (skipNewlines ts).map (Token.shift w) := by
  have hkind : ((fun t : Token => t.kind == .newline) ∘ Token.shift w) =
      fun t => t.kind == .newline := by
    funext t
    simp [Token.shift]
  rw [skipNewlines, skipNewlines, List.dropWhile_map, hkind]

theorem skipSeparators_shift (ts : List Token) :
    skipSeparators (ts.map (Token.shift w)) = (skipSeparators ts).map (Token.shift w) := by
  have hkind : ((fun t : Token => t.kind == .newline || t.kind == .semicolon) ∘ Token.shift w) =
      fun t => t.kind == .newline || t.kind == .semicolon := by
    funext t
    simp [Token.shift]
  rw [skipSeparators, skipSeparators, List.dropWhile_map, hkind]

theorem afterDot?_shift (ts : List Token) :
    afterDot? (ts.map (Token.shift w)) = (afterDot? ts).map (List.map (Token.shift w)) := by
  rw [afterDot?, afterDot?, skipNewlines_shift]
  cases skipNewlines ts with
  | nil => rfl
  | cons t rest =>
    obtain ⟨kind, range⟩ := t
    cases kind <;> rfl

theorem leads_shift {kind : TokenKind} (h : ∀ l, kind ≠ .string l) {ts : List Token} :
    Leads kind (ts.map (Token.shift w)) ↔ Leads kind ts := by
  cases ts with
  | nil => simp [Leads]
  | cons t rest =>
    constructor
    · rintro ⟨range, rest', heq⟩
      have hkind := congrArg Token.kind (List.cons.inj heq).1
      exact ⟨t.range, rest, by rw [← (TokenKind.shift_eq_iff h).1 hkind]⟩
    · rintro ⟨range, rest', heq⟩
      obtain ⟨rfl, rfl⟩ := List.cons.inj heq
      exact ⟨range.shift w, _, by rw [List.map_cons, Token.shift, (TokenKind.shift_eq_iff h).2 rfl]⟩

theorem readIdent_shift (ts : List Token) :
    readIdent (ts.map (Token.shift w)) = (readIdent ts).shift w (Ident.shift w) := by
  cases ts with
  | nil => rfl
  | cons t rest =>
    obtain ⟨kind, range⟩ := t
    cases kind <;> rfl

theorem readClose_shift (ts : List Token) :
    readClose (ts.map (Token.shift w)) = (readClose ts).shift w (Span.shift w) := by
  cases ts with
  | nil => rfl
  | cons t rest =>
    obtain ⟨kind, range⟩ := t
    cases kind <;> rfl

theorem readEquals_shift (ts : List Token) :
    readEquals (ts.map (Token.shift w)) = (readEquals ts).shift w id := by
  cases ts with
  | nil => rfl
  | cons t rest =>
    obtain ⟨kind, range⟩ := t
    cases kind <;> rfl

theorem admit?_shift (e : Expr) (rest : List Token) :
    admit? (e.shift w) (rest.map (Token.shift w)) = (admit? e rest).shift w (Expr.shift w) := by
  rw [admit?, admit?, Expr.height_shift]
  split <;> rfl

namespace ExprReader

/-- The reader reads from moved tokens the moved expression. -/
def Movable (w : Nat) (inner : ExprReader) : Prop :=
  ∀ ts, inner.run (ts.map (Token.shift w)) = (inner.run ts).shift w (Expr.shift w)

theorem afterComma?_shift (ts : List Token) :
    afterComma? (ts.map (Token.shift w)) = (afterComma? ts).map (List.map (Token.shift w)) := by
  cases ts with
  | nil => rfl
  | cons t rest =>
    obtain ⟨kind, range⟩ := t
    cases kind <;> rfl

theorem closes_shift (ts : List Token) : closes (ts.map (Token.shift w)) = closes ts := by
  cases ts with
  | nil => rfl
  | cons t rest =>
    obtain ⟨kind, range⟩ := t
    cases kind <;> rfl

variable {inner : ExprReader} {ts : List Token}

theorem arguments_of_error {args : List Expr} {r : Rejection} (h : inner.run ts = .error r) :
    inner.arguments args ts = .error r := by
  rw [arguments]
  split <;> simp_all

theorem suffixes_eq (e : Expr) :
    inner.suffixes e ts =
      match inner.suffix? e ts with
      | none => .ok (e, ts)
      | some (.error r) => .error r
      | some (.ok (e, rest)) => inner.suffixes e rest := by
  rw [suffixes]
  split <;> simp_all

variable (hinner : inner.Movable w)

include hinner

theorem Movable.run_ok {e : Expr} {rest : List Token} (h : inner.run ts = .ok (e, rest)) :
    inner.run (ts.map (Token.shift w)) = .ok (e.shift w, rest.map (Token.shift w)) := by
  rw [hinner, h]
  rfl

theorem primary_shift (ts : List Token) :
    inner.primary (ts.map (Token.shift w)) = (inner.primary ts).shift w (Expr.shift w) := by
  cases ts with
  | nil => rfl
  | cons t rest =>
    obtain ⟨kind, range⟩ := t
    cases kind with
    | openParen =>
      simp only [List.map_cons, Token.shift, TokenKind.shift, primary]
      rw [hinner rest]
      cases inner.run rest with
      | error r => rfl
      | ok result =>
        obtain ⟨e, rest⟩ := result
        dsimp only [Reading.shift]
        rw [readClose_shift]
        cases readClose rest with
        | error r => rfl
        | ok result =>
          obtain ⟨close, rest⟩ := result
          dsimp only [Reading.shift]
          rw [Span.cover_shift]
          exact admit?_shift (.paren (range.cover close) e) rest
    | _ => rfl

theorem arguments_shift (args : List Expr) (ts : List Token) :
    inner.arguments (args.map (Expr.shift w)) (ts.map (Token.shift w)) =
      (inner.arguments args ts).shift w (List.map (Expr.shift w)) := by
  fun_induction arguments inner args ts with
  | case1 args ts r hrun =>
    exact arguments_of_error (by rw [hinner, hrun]; rfl)
  | case2 args ts e rest hrun hcomma =>
    rw [arguments_of_run (hinner.run_ok hrun), afterComma?_shift, hcomma]
    simp [Reading.shift]
  | case3 args ts e rest hrun rest' hcomma hcloses =>
    rw [arguments_of_run (hinner.run_ok hrun), afterComma?_shift, hcomma]
    simp [Reading.shift, closes_shift, hcloses]
  | case4 args ts e rest hrun rest' hcomma hcloses ih =>
    rw [arguments_of_run (hinner.run_ok hrun), afterComma?_shift, hcomma, Option.map_some]
    dsimp only
    rw [closes_shift, if_neg hcloses]
    exact ih

theorem argumentList_shift (ts : List Token) :
    inner.argumentList (ts.map (Token.shift w)) =
      (inner.argumentList ts).shift w (List.map (Expr.shift w)) := by
  rw [argumentList, argumentList, closes_shift]
  split
  · rfl
  · exact arguments_shift hinner [] ts

theorem suffix?_shift (e : Expr) (ts : List Token) :
    inner.suffix? (e.shift w) (ts.map (Token.shift w)) =
      (inner.suffix? e ts).map (Reading.shift w (Expr.shift w)) := by
  unfold suffix?
  rw [afterDot?_shift, Expr.range_shift]
  cases afterDot? ts with
  | some rest =>
    dsimp only [Option.map_some]
    rw [readIdent_shift]
    cases readIdent rest with
    | error r => rfl
    | ok result =>
      obtain ⟨member, rest⟩ := result
      have hnode := admit?_shift (w := w) (.dot (e.range.cover member.range) e member) rest
      rw [Expr.shift, ← Span.cover_shift] at hnode
      exact congrArg some hnode
  | none =>
    dsimp only [Option.map_none]
    cases ts with
    | nil => rfl
    | cons t rest =>
      obtain ⟨kind, range⟩ := t
      cases kind with
      | openParen =>
        simp only [List.map_cons, Token.shift, TokenKind.shift]
        rw [argumentList_shift hinner]
        cases inner.argumentList rest with
        | error r => rfl
        | ok result =>
          obtain ⟨args, rest⟩ := result
          dsimp only [Reading.shift]
          rw [readClose_shift]
          cases readClose rest with
          | error r => rfl
          | ok result =>
            obtain ⟨close, rest⟩ := result
            have hnode := admit?_shift (w := w) (.call (e.range.cover close) e args) rest
            rw [Expr.shift, Expr.shiftAll_eq_map, ← Span.cover_shift] at hnode
            exact congrArg some hnode
      | _ => rfl

theorem suffixes_shift (e : Expr) (ts : List Token) :
    inner.suffixes (e.shift w) (ts.map (Token.shift w)) =
      (inner.suffixes e ts).shift w (Expr.shift w) := by
  fun_induction suffixes inner e ts with
  | case1 e ts hsuffix =>
    rw [suffixes_eq, suffix?_shift hinner, hsuffix]
    rfl
  | case2 e ts r hsuffix =>
    rw [suffixes_eq, suffix?_shift hinner, hsuffix]
    rfl
  | case3 e ts e' rest hsuffix ih =>
    rw [suffixes_eq, suffix?_shift hinner, hsuffix]
    exact ih

theorem operand_shift (ts : List Token) :
    inner.operand (ts.map (Token.shift w)) = (inner.operand ts).shift w (Expr.shift w) := by
  rw [operand, operand, primary_shift hinner]
  cases inner.primary ts with
  | error r => rfl
  | ok result => exact suffixes_shift hinner result.1 result.2

omit hinner in
/-- The further operands of an operator are read from moved tokens when what it joins is. -/
theorem links_shift (op : Operator)
    (hjoined : ∀ ts, inner.joined op (ts.map (Token.shift w)) =
      (inner.joined op ts).shift w (Expr.shift w)) (lhs : Expr) (ts : List Token) :
    inner.links op (lhs.shift w) (ts.map (Token.shift w)) =
      (inner.links op lhs ts).shift w (Expr.shift w) := by
  have htoken : op.token.shift w = op.token := by cases op <;> rfl
  -- Every link takes tokens, so the induction is on how many there are.
  induction hlength : ts.length using Nat.strongRecOn generalizing lhs ts with
  | ind n ih =>
    by_cases hlead : Leads op.token ts
    · obtain ⟨sign, rest, rfl⟩ := hlead
      rw [List.map_cons, Token.shift, htoken, links_cons, links_cons, skipNewlines_shift, hjoined]
      cases hread : inner.joined op (skipNewlines rest) with
      | error r => rfl
      | ok result =>
        obtain ⟨rhs, rest'⟩ := result
        have hnode := admit?_shift (w := w) (.binary (lhs.range.cover rhs.range) op lhs rhs) rest'
        rw [Expr.shift, ← Span.cover_shift, ← Expr.range_shift, ← Expr.range_shift] at hnode
        dsimp only [Reading.shift]
        rw [hnode]
        cases admit? (.binary (lhs.range.cover rhs.range) op lhs rhs) rest' with
        | error r => rfl
        | ok result =>
          have hshorter := joined_shrinks hread
          have hskipped := skipNewlines_length_le rest
          refine ih rest'.length ?_ result.1 rest' rfl
          rw [List.length_cons] at hlength
          omega
    · have hsign : ∀ l, op.token ≠ .string l := fun l => by cases op <;> simp [Operator.token]
      have hmoved := mt (leads_shift (w := w) hsign).1 hlead
      rw [links_of_not_leads hlead, links_of_not_leads hmoved]
      rfl

theorem sum_shift (ts : List Token) :
    inner.sum (ts.map (Token.shift w)) = (inner.sum ts).shift w (Expr.shift w) := by
  rw [sum, sum, operand_shift hinner]
  cases inner.operand ts with
  | error r => rfl
  | ok result => exact links_shift .plus (operand_shift hinner) result.1 result.2

theorem expr_shift (ts : List Token) :
    inner.expr (ts.map (Token.shift w)) = (inner.expr ts).shift w (Expr.shift w) := by
  rw [expr, expr, sum_shift hinner]
  cases inner.sum ts with
  | error r => rfl
  | ok result => exact links_shift .or (sum_shift hinner) result.1 result.2

omit hinner

/-- The readers of expressions read moved tokens, however deep they read. -/
theorem within_movable (w levels : Nat) : (within levels).Movable w := by
  induction levels with
  | zero => exact fun ts => rfl
  | succ levels ih => exact expr_shift ih

end ExprReader

theorem readExpr_shift (ts : List Token) :
    readExpr (ts.map (Token.shift w)) = (readExpr ts).shift w (Expr.shift w) :=
  ExprReader.within_movable w maxNesting ts

theorem readExprAs_shift {statement moved : Expr → Statement}
    (hstatement : ∀ e : Expr, moved (e.shift w) = (statement e).shift w) (ts : List Token) :
    readExprAs moved (ts.map (Token.shift w)) =
      (readExprAs statement ts).shift w (Statement.shift w) := by
  rw [readExprAs, readExprAs, readExpr_shift]
  cases readExpr ts with
  | error r => rfl
  | ok result => simp [Reading.shift, hstatement]

theorem readDeclaration_shift (isMutable : Bool) (ts : List Token) :
    readDeclaration isMutable (ts.map (Token.shift w)) =
      Reading.shift w (Statement.shift w) (readDeclaration isMutable ts) := by
  simp only [readDeclaration, bind, Except.bind, pure, Except.pure]
  rw [readIdent_shift]
  cases readIdent ts with
  | error r => rfl
  | ok result =>
    obtain ⟨name, rest⟩ := result
    dsimp only [Reading.shift]
    rw [readEquals_shift]
    cases readEquals rest with
    | error r => rfl
    | ok result =>
      obtain ⟨u, rest⟩ := result
      dsimp only [Reading.shift]
      rw [readExpr_shift]
      cases readExpr rest <;> rfl

/-- A statement that does not begin with a name is an expression. -/
theorem readStatement_of_kind {t : Token} (h : ∀ text, t.kind ≠ .name text) (rest : List Token) :
    readStatement (t :: rest) = readExprAs .expression (t :: rest) := by
  obtain ⟨kind, range⟩ := t
  cases kind with
  | name text => exact absurd rfl (h text)
  | _ => rfl

theorem readStatement_shift (ts : List Token) :
    readStatement (ts.map (Token.shift w)) = (readStatement ts).shift w (Statement.shift w) := by
  have hexpr : ∀ ts : List Token, readExprAs .expression (ts.map (Token.shift w)) =
      (readExprAs .expression ts).shift w (Statement.shift w) := readExprAs_shift fun _ => rfl
  cases ts with
  | nil => exact hexpr []
  | cons t rest =>
    obtain ⟨kind, range⟩ := t
    cases kind with
    | name text =>
      simp only [readStatement, List.map_cons, Token.shift, TokenKind.shift]
      cases declares? text with
      | some isMutable => exact readDeclaration_shift isMutable rest
      | none =>
        cases rest with
        | nil => exact hexpr [⟨.name text, range⟩]
        | cons next rest =>
          obtain ⟨kind', range'⟩ := next
          cases kind' with
          | equals => exact readExprAs_shift (fun _ => rfl) rest
          | _ => exact hexpr (⟨.name text, range⟩ :: ⟨_, range'⟩ :: rest)
    | _ =>
      rw [readStatement_of_kind (by simp), List.map_cons,
        readStatement_of_kind (by simp [Token.shift, TokenKind.shift]), ← List.map_cons]
      exact hexpr _

theorem endsStatement_shift (ts : List Token) :
    endsStatement (ts.map (Token.shift w)) = endsStatement ts := by
  cases ts with
  | nil => rfl
  | cons t rest => simp [endsStatement, Token.shift]

theorem readStatements_eq (statements : List Statement) (ts : List Token) :
    readStatements statements ts =
      match skipSeparators ts with
      | [] => .ok statements.reverse
      | t :: ts' =>
        match readStatement (t :: ts') with
        | .error r => .error r
        | .ok (s, rest) =>
          if endsStatement rest then readStatements (s :: statements) rest
          else .error (.expected .endOfStatement rest) := by
  rw [readStatements]
  split
  · simp_all
  · split <;> simp_all

/-- From moved tokens the moved statements are read, or the moved rejection is made. -/
theorem readStatements_shift (statements : List Statement) (ts : List Token) :
    readStatements (statements.map (Statement.shift w)) (ts.map (Token.shift w)) =
      match readStatements statements ts with
      | .ok result => .ok (result.map (Statement.shift w))
      | .error r => .error (r.shift w) := by
  fun_induction readStatements statements ts with
  | case1 statements ts hskip =>
    rw [readStatements_eq, skipSeparators_shift, hskip]
    simp
  | case2 statements ts t ts' hskip r hread =>
    rw [readStatements_eq, skipSeparators_shift, hskip, List.map_cons]
    dsimp only
    rw [← List.map_cons, readStatement_shift, hread]
    rfl
  | case3 statements ts t ts' hskip s rest hread hends ih =>
    rw [readStatements_eq, skipSeparators_shift, hskip, List.map_cons]
    dsimp only
    rw [← List.map_cons, readStatement_shift, hread]
    dsimp only [Reading.shift]
    rw [endsStatement_shift, if_pos hends]
    exact ih
  | case4 statements ts t ts' hskip s rest hread hends =>
    rw [readStatements_eq, skipSeparators_shift, hskip, List.map_cons]
    dsimp only
    rw [← List.map_cons, readStatement_shift, hread]
    dsimp only [Reading.shift]
    rw [endsStatement_shift, if_neg hends]
    rfl

/-- Newlines in front of a script are passed over. -/
theorem readStatements_newlines {newlines : List Token} (h : ∀ t ∈ newlines, t.kind = .newline)
    (statements : List Statement) (ts : List Token) :
    readStatements statements (newlines ++ ts) = readStatements statements ts := by
  have hskip : skipSeparators (newlines ++ ts) = skipSeparators ts :=
    List.dropWhile_append_of_pos fun t ht => by simp [h t ht]
  rw [readStatements_eq, readStatements_eq, hskip]

theorem Rejection.fault_shift (p s : List Char) (stop : Nat) (r : Rejection) :
    (r.shift (Text.width p)).fault (p ++ s) (stop + Text.width p) =
      (r.fault s stop).shift (Text.width p) := by
  have hoffset : ∀ ts : List Token,
      ((ts.map (Token.shift (Text.width p))).head?.map (·.range.start)).getD
          (stop + Text.width p) =
        (ts.head?.map (·.range.start)).getD stop + Text.width p := by
    intro ts
    cases ts <;> rfl
  have hfound : ∀ ts : List Token,
      Found.of (p ++ s) (ts.map (Token.shift (Text.width p))) = Found.of s ts := by
    intro ts
    cases ts with
    | nil => rfl
    | cons t ts =>
      simp only [List.map_cons, Found.of, Token.shift, Text.slice_shift,
        TokenKind.shift_eq_iff (show ∀ l, TokenKind.newline ≠ .string l by simp)]
  cases r with
  | expected what ts => simp only [shift, fault, hoffset, hfound, Fault.shift]
  | nestedTooDeep ts => simp only [shift, fault, hoffset, Fault.shift]

end Script

/-- Behind leading lines a source spells the moved script, or has the moved fault. -/
theorem Script.ofSource_leadingLines {k : Nat} {p s : List Char} (h : LeadingLines k p)
    (hsize : Text.width (p ++ s) ≤ maxSourceBytes) :
    Script.ofSource (p ++ s) =
      match Script.ofSource s with
      | .ok script => .ok (script.shift (Text.width p))
      | .error fault => .error (fault.shift (Text.width p)) := by
  obtain ⟨newlines, hnewlines, htokens⟩ := Tokens.ofSource_leadingLines h hsize
  rw [Script.ofSource, Script.ofSource, htokens]
  cases Tokens.ofSource s with
  | error fault => rfl
  | ok tokens =>
    dsimp only
    rw [readStatements_newlines hnewlines]
    have hshift := readStatements_shift (w := Text.width p) [] tokens.items
    rw [List.map_nil] at hshift
    rw [show (fun t : Token => t.shift (Text.width p)) = Token.shift (Text.width p) from rfl,
      hshift]
    cases readStatements [] tokens.items with
    | error r => exact congrArg Except.error (r.fault_shift p s tokens.stop)
    | ok statements => rfl

end RegexAudit
