import RegexAudit.Proofs.Script.Cuts
import RegexAudit.Proofs.Script.Indexing
import RegexAudit.Proofs.Script.Rejections

/-!
# Looking tokens up by their indices

The remaining tokens of a parser are always the last ones of the source, so that their number gives
the index of the first of them. What the parser looks up at that index is what the remaining tokens
begin with.

## Main definitions

* `Tokens.place`: the index of the first one of the remaining tokens.
* `Tokens.slot`: what stands there.
* `IndexParser.answer`: what a reader of the remaining tokens finds, with an index.

## Main statements

* `IndexParser.current_eq`, `IndexParser.skip_eq`, `IndexParser.dotFollows_eq`: the look-ups.
* `IndexParser.unexpected_eq`: the token at which the parser gives up can be cut out.
* `IndexParser.ident_eq`, `IndexParser.close_eq`, `IndexParser.equals_eq`: single tokens.
* `IndexParser.checked_eq`: the limit on the height of a tree.
-/

namespace RegexAudit

namespace Script

namespace Tokens

variable {tokens : Tokens} {ts rest : List Token} {t : Token}

/-- The index of the first one of some tokens that are the last ones of a source. -/
def place (tokens : Tokens) (ts : List Token) : Nat := tokens.items.length - ts.length

/-- What stands at the index of some tokens that are the last ones of a source. -/
def slot (tokens : Tokens) : List Token → Slot
  | [] => ⟨none, .empty tokens.stop⟩
  | t :: _ => ⟨some t.kind, t.range⟩

/-- A token of a kind stands at the index of the tokens that it begins. -/
theorem kind_slot_eq_some_iff {kind : TokenKind} :
    (tokens.slot ts).kind = some kind ↔ ∃ range rest, ts = ⟨kind, range⟩ :: rest := by
  cases ts with
  | nil => exact ⟨nofun, nofun⟩
  | cons t rest =>
    constructor
    · intro hkind
      obtain rfl : t.kind = kind := Option.some.inj hkind
      exact ⟨t.range, rest, rfl⟩
    · rintro ⟨range, rest, hcons⟩
      obtain ⟨rfl, rfl⟩ := List.cons.inj hcons
      rfl

theorem length_row (tokens : Tokens) : tokens.row.length = tokens.items.length + 1 := by
  rw [row, Slot.row, List.length_append, List.length_map, List.length_singleton]

/-- From the index of some tokens on, the row has these tokens and the end. -/
theorem drop_row (hts : ts <:+ tokens.items) :
    tokens.row.drop (tokens.place ts) = Slot.row tokens.stop ts := by
  obtain ⟨before, hbefore⟩ := hts
  have hplace : tokens.place ts = before.length := by
    rw [place, ← hbefore, List.length_append, Nat.add_sub_cancel_right]
  rw [hplace, row, Slot.row, ← hbefore, List.map_append, List.append_assoc]
  exact List.drop_left' (List.length_map _)

theorem getElem?_row (hts : ts <:+ tokens.items) (skip : Nat) :
    tokens.row[tokens.place ts + skip]? = (Slot.row tokens.stop ts)[skip]? := by
  rw [← drop_row hts, List.getElem?_drop]

theorem place_le (tokens : Tokens) (ts : List Token) : tokens.place ts ≤ tokens.items.length :=
  Nat.sub_le _ _

theorem place_cons (hts : t :: rest <:+ tokens.items) :
    tokens.place rest = tokens.place (t :: rest) + 1 := by
  have hle := hts.length_le
  rw [place, place, List.length_cons] at *
  omega

end Tokens

namespace IndexParser

variable {source : List Char} {tokens : Tokens} {ts rest : List Token} {t : Token}

/-- What a reader of the remaining tokens finds, with an index in place of the tokens that it
leaves. -/
def answer {α : Type} (source : List Char) (tokens : Tokens) :
    Except Rejection (α × List Token) → Cutting (α × Nat)
  | .ok (a, rest) => pure (a, tokens.place rest)
  | .error rejection => .refuse (rejection.fault source tokens.stop)

theorem answer_ok_bind {α β : Type} (a : α) (rest : List Token) (f : α × Nat → Cutting β) :
    (answer source tokens (.ok (a, rest)) >>= f) = f (a, tokens.place rest) := rfl

section Looks

theorem current_eq (hts : ts <:+ tokens.items) :
    current tokens.row (tokens.place ts) = pure (tokens.slot ts) := by
  have hle := tokens.place_le ts
  rw [current, tokens.length_row, Nat.add_sub_cancel, Nat.min_eq_left hle]
  have hget := Tokens.getElem?_row hts 0
  rw [Nat.add_zero] at hget
  rw [hget]
  cases ts with
  | nil => rfl
  | cons t rest => rfl

theorem at?_eq (hts : ts <:+ tokens.items) (kind : TokenKind) :
    at? tokens.row (tokens.place ts) kind = pure ((tokens.slot ts).kind == some kind) := by
  rw [at?, current_eq hts, pure_bind]

theorem at?_cons {kind : TokenKind} {range : Span} (hts : ⟨kind, range⟩ :: rest <:+ tokens.items) :
    at? tokens.row (tokens.place (⟨kind, range⟩ :: rest)) kind = pure true := by
  rw [at?_eq hts]
  exact congrArg pure (beq_self_eq_true _)

/-- A token that is read leads to the next one. -/
theorem bump_cons (hts : t :: rest <:+ tokens.items) :
    bump tokens.row (tokens.place (t :: rest)) = tokens.place rest := by
  have hlt : tokens.place (t :: rest) < tokens.row.length - 1 := by
    have hnext := Tokens.place_cons hts
    have hle := tokens.place_le rest
    rw [tokens.length_row]
    omega
  rw [bump, if_pos hlt, Tokens.place_cons hts]

theorem skip_eq {skipped : TokenKind → Bool} {rounds : Nat} (hts : ts <:+ tokens.items)
    (hrounds : ts.length < rounds) : skip tokens.row skipped rounds (tokens.place ts) =
      pure (tokens.place (ts.dropWhile fun t => skipped t.kind)) := by
  induction ts generalizing rounds with
  | nil =>
    obtain ⟨rounds, rfl⟩ := Nat.exists_eq_succ_of_ne_zero (Nat.ne_zero_of_lt hrounds)
    rw [skip, current_eq hts, pure_bind]
    rfl
  | cons t rest ih =>
    obtain ⟨rounds, rfl⟩ := Nat.exists_eq_succ_of_ne_zero (Nat.ne_zero_of_lt hrounds)
    rw [skip, current_eq hts, pure_bind]
    by_cases hskip : skipped t.kind = true
    · have hdrop : (t :: rest).dropWhile (fun t => skipped t.kind) =
          rest.dropWhile fun t => skipped t.kind := List.dropWhile_cons_of_pos hskip
      have hany : (tokens.slot (t :: rest)).kind.any skipped = true := hskip
      rw [if_pos hany, hdrop, bump_cons hts]
      exact ih (suffix_of_cons hts) (Nat.lt_of_succ_lt_succ hrounds)
    · have hdrop : (t :: rest).dropWhile (fun t => skipped t.kind) = t :: rest :=
        List.dropWhile_cons_of_neg hskip
      have hany : ¬(tokens.slot (t :: rest)).kind.any skipped = true := hskip
      rw [if_neg hany, hdrop]

/-- There are enough rounds to skip all tokens. -/
theorem length_lt_row (hts : ts <:+ tokens.items) : ts.length < tokens.row.length := by
  rw [tokens.length_row]
  exact Nat.lt_succ_of_le hts.length_le

theorem skipNewlines_eq (hts : ts <:+ tokens.items) :
    skipNewlines tokens.row (tokens.place ts) = pure (tokens.place (Script.skipNewlines ts)) :=
  skip_eq hts (length_lt_row hts)

/-- The first token that is no newline stands behind the newlines. -/
theorem find?_ne_newline (tokens : Tokens) (ts : List Token) :
    (Slot.row tokens.stop ts).find? (·.kind != some .newline) =
      some (tokens.slot (Script.skipNewlines ts)) := by
  induction ts with
  | nil => rfl
  | cons t rest ih =>
    by_cases hnewline : t.kind = .newline
    · have hskip : Script.skipNewlines (t :: rest) = Script.skipNewlines rest :=
        List.dropWhile_cons_of_pos (beq_iff_eq.2 hnewline)
      rw [hskip, ← ih]
      exact List.find?_cons_of_neg (by simp [hnewline])
    · have hskip : Script.skipNewlines (t :: rest) = t :: rest :=
        List.dropWhile_cons_of_neg fun h => hnewline (beq_iff_eq.1 h)
      rw [hskip]
      exact List.find?_cons_of_pos (by simp [hnewline])

theorem dotFollows_eq (hts : ts <:+ tokens.items) : dotFollows tokens.row (tokens.place ts) =
    pure ((tokens.slot (Script.skipNewlines ts)).kind == some .dot) := by
  have hle : tokens.place ts ≤ tokens.row.length := by
    rw [tokens.length_row]
    exact Nat.le_succ_of_le (tokens.place_le ts)
  rw [dotFollows, if_pos hle, Cutting.cut_some, pure_bind, Tokens.drop_row hts, find?_ne_newline]
  rfl

/-- A dot follows where the reader of the remaining tokens finds one. -/
theorem afterDot?_eq_none (hdot : (tokens.slot (Script.skipNewlines ts)).kind ≠ some .dot) :
    afterDot? ts = none := by
  unfold afterDot?
  split
  · next range rest hcons =>
    rw [hcons] at hdot
    exact absurd rfl hdot
  · rfl

theorem nthIs_eq (hts : t :: rest <:+ tokens.items) (kind : TokenKind) :
    nthIs tokens.row (tokens.place (t :: rest)) 1 kind =
      ((tokens.slot rest).kind == some kind) := by
  rw [nthIs, Tokens.getElem?_row hts]
  cases rest with
  | nil => rfl
  | cons u rest => rfl

theorem closes_eq (hts : ts <:+ tokens.items) :
    at? tokens.row (tokens.place ts) .closeParen = pure (ExprReader.closes ts) := by
  rw [at?_eq hts]
  fun_cases ExprReader.closes ts with
  | case1 range rest => rfl
  | case2 _ hother =>
    refine congrArg pure (beq_false_of_ne fun hkind => ?_)
    obtain ⟨range, rest, hcons⟩ := Tokens.kind_slot_eq_some_iff.1 hkind
    exact hother range rest hcons

/-- A comma stands where the reader of the remaining tokens finds one. -/
theorem comma_eq (hts : ts <:+ tokens.items) :
    at? tokens.row (tokens.place ts) .comma = pure (ExprReader.afterComma? ts).isSome := by
  rw [at?_eq hts]
  fun_cases ExprReader.afterComma? ts with
  | case1 range rest => rfl
  | case2 _ hother =>
    refine congrArg pure (beq_false_of_ne fun hkind => ?_)
    obtain ⟨range, rest, hcons⟩ := Tokens.kind_slot_eq_some_iff.1 hkind
    exact hother range rest hcons

theorem bump_comma (hts : ts <:+ tokens.items) (hcomma : ExprReader.afterComma? ts = some rest) :
    bump tokens.row (tokens.place ts) = tokens.place rest := by
  unfold ExprReader.afterComma? at hcomma
  split at hcomma
  · rw [← Option.some.inj hcomma]
    exact bump_cons hts
  · nomatch hcomma

/-- The word of a union stands where the reader of the remaining tokens finds it. -/
theorem or_eq (hts : ts <:+ tokens.items) :
    at? tokens.row (tokens.place ts) (.name "or") = pure (ExprReader.afterOr? ts).isSome := by
  rw [at?_eq hts]
  fun_cases ExprReader.afterOr? ts with
  | case1 range rest => rfl
  | case2 text range rest htext =>
    refine congrArg pure (beq_false_of_ne fun hkind => ?_)
    cases hkind
    exact htext rfl
  | case3 _ hother =>
    refine congrArg pure (beq_false_of_ne fun hkind => ?_)
    obtain ⟨range, rest, hcons⟩ := Tokens.kind_slot_eq_some_iff.1 hkind
    exact hother _ range rest hcons

theorem bump_or (hts : ts <:+ tokens.items) (hor : ExprReader.afterOr? ts = some rest) :
    bump tokens.row (tokens.place ts) = tokens.place rest := by
  unfold ExprReader.afterOr? at hor
  split at hor
  · split at hor
    · rw [← Option.some.inj hor]
      exact bump_cons hts
    · nomatch hor
  · nomatch hor

end Looks

section Pieces

variable (h : Tokens.ofSource source = .ok tokens)

include h

/-- The parser gives up with the spelling of a token, which can be cut out. -/
theorem unexpected_eq {α : Type} (what : Expectation) (hts : ts <:+ tokens.items) :
    (unexpected source tokens.row what (tokens.place ts) : Cutting α) =
      .refuse ((Rejection.expected what ts).fault source tokens.stop) := by
  rw [unexpected, current_eq hts, pure_bind]
  cases ts with
  | nil => rfl
  | cons t rest =>
    obtain ⟨c, d, hc, hstands, hrange⟩ := Tokens.standsIn_of_mem h (hts.subset List.mem_cons_self)
    obtain ⟨text, hreads⟩ := hstands.reads
    have hslice : Text.slice? source t.range = some text := hrange ▸ hreads.slice? hc
    have htext : OffsetLexer.text source t.range.start t.range.stop = pure text :=
      congrArg Cutting.cut hslice
    by_cases hnewline : t.kind = .newline
    · simp only [Tokens.slot, hnewline, Rejection.fault, Found.of, if_pos]
      rfl
    · have hfault : (Rejection.expected what (t :: rest)).fault source tokens.stop =
          ⟨.expected what (.spelling text), t.range.start⟩ := by
        rw [Rejection.fault, Found.of, if_neg hnewline, Text.slice, hslice]
        rfl
      rw [hfault, Tokens.slot]
      dsimp only
      rw [htext]
      split
      · next hkind => nomatch hkind
      · next hkind => exact absurd (Option.some.inj hkind) hnewline
      · rfl

theorem expect_eq (kind : TokenKind) (what : Expectation) (hts : ts <:+ tokens.items) :
    expect source tokens.row kind what (tokens.place ts) =
      if (tokens.slot ts).kind = some kind then
        pure ((tokens.slot ts).range, bump tokens.row (tokens.place ts))
      else .refuse ((Rejection.expected what ts).fault source tokens.stop) := by
  rw [expect, current_eq hts, pure_bind, unexpected_eq h what hts]

theorem close_eq (hts : ts <:+ tokens.items) :
    expect source tokens.row .closeParen .closeParen (tokens.place ts) =
      answer source tokens (readClose ts) := by
  rw [expect_eq h .closeParen .closeParen hts]
  fun_cases readClose ts with
  | case1 range rest =>
    rw [bump_cons hts]
    rfl
  | case2 _ hother =>
    have hkind : (tokens.slot ts).kind ≠ some .closeParen := by
      intro heq
      obtain ⟨range, rest, hcons⟩ := Tokens.kind_slot_eq_some_iff.1 heq
      exact hother range rest hcons
    rw [if_neg hkind]
    rfl

theorem equals_eq (hts : ts <:+ tokens.items) :
    expect source tokens.row .equals .equals (tokens.place ts) =
      match readEquals ts with
      | .ok (_, rest) => pure ((tokens.slot ts).range, tokens.place rest)
      | .error rejection => .refuse (rejection.fault source tokens.stop) := by
  rw [expect_eq h .equals .equals hts]
  fun_cases readEquals ts with
  | case1 range rest =>
    rw [bump_cons hts]
    rfl
  | case2 _ hother =>
    have hkind : (tokens.slot ts).kind ≠ some .equals := by
      intro heq
      obtain ⟨range, rest, hcons⟩ := Tokens.kind_slot_eq_some_iff.1 heq
      exact hother range rest hcons
    rw [if_neg hkind]

theorem ident_eq (hts : ts <:+ tokens.items) :
    ident source tokens.row (tokens.place ts) = answer source tokens (readIdent ts) := by
  rw [ident, current_eq hts, pure_bind, unexpected_eq h .identifier hts]
  fun_cases readIdent ts with
  | case1 text range rest =>
    rw [bump_cons hts]
    rfl
  | case2 _ hother =>
    split
    · next text hkind =>
      obtain ⟨range, rest, hcons⟩ := Tokens.kind_slot_eq_some_iff.1 hkind
      exact absurd hcons (hother text range rest)
    · rfl

omit h

theorem tooDeep_eq {α : Type} (hts : ts <:+ tokens.items) :
    (tooDeep tokens.row (tokens.place ts) : Cutting α) =
      .refuse ((Rejection.nestedTooDeep ts).fault source tokens.stop) := by
  rw [tooDeep, current_eq hts, pure_bind]
  cases ts with
  | nil => rfl
  | cons t rest => rfl

theorem checked_eq (source : List Char) (e : Expr) (hts : ts <:+ tokens.items) :
    checked tokens.row e (tokens.place ts) =
      match admit? e ts with
      | .error rejection => .refuse (rejection.fault source tokens.stop)
      | .ok (e, _) => pure e := by
  rw [checked, admit?, tooDeep_eq hts]
  by_cases hheight : e.height ≤ maxNesting
  · rw [if_pos hheight, if_pos hheight]
  · rw [if_neg hheight, if_neg hheight]

/-- What is done with a tree that is admitted is done with the tree that was read. -/
theorem checked_bind_eq {α : Type} (source : List Char) (e : Expr) (hts : ts <:+ tokens.items)
    (f : Expr × Nat → Cutting α) :
    (checked tokens.row e (tokens.place ts) >>= fun e => f (e, tokens.place ts)) =
      (answer source tokens (admit? e ts) >>= f) := by
  rw [checked_eq source e hts]
  cases hadmission : admit? e ts with
  | error rejection => rfl
  | ok result =>
    obtain ⟨e', rest⟩ := result
    obtain ⟨rfl, rfl⟩ := admit?_eq_ok hadmission
    rfl

end Pieces

end IndexParser

end Script

end RegexAudit
