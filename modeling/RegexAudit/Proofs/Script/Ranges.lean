import RegexAudit.Proofs.Script.Derivable
import RegexAudit.Proofs.Script.Layout
import RegexAudit.Proofs.Script.Nodes

/-!
# The spans of expressions

Every node of a parsed script is derived from a piece of the tokens, and its span reaches from the
first of these tokens to the last. The spans of its children are parts of it in their order, and
the whole lies between the separators around its statement.

## Main definitions

* `Span.IsHullOf`: a span reaches from the first to the last of some tokens.
* `Span.Holds`: spans are proper parts of another span and follow one another.
* `Expr.IsExact`: what is known of the span of a node.
* `Expr.Spans`: the same for all nodes of an expression that is read from given tokens.

## Main statements

* `Derivation.spans`: what is derived spans its tokens.
* `ScriptDerivation.exists_split`: a statement stands between separators.
* `Script.spans_exact`: the spans of the nodes of a parsed script.
-/

namespace RegexAudit

/-- The tokens follow one another, and none of them is empty. -/
structure Script.Token.Consecutive (ts : List Token) : Prop where
  ordered : ts.Pairwise fun s t => s.range.stop ≤ t.range.start
  nonempty : ∀ t ∈ ts, t.range.start < t.range.stop

/-- The span reaches from the first of the tokens to the last one. -/
structure Span.IsHullOf (range : Span) (ts : List Script.Token) : Prop where
  first : ∃ t ∈ ts.head?, t.range.start = range.start
  last : ∃ t ∈ ts.getLast?, t.range.stop = range.stop

/-- The parts lie in the whole, none of them is all of it, and they follow one another. -/
structure Span.Holds (whole : Span) (parts : List Span) : Prop where
  within : ∀ part ∈ parts, whole.start ≤ part.start ∧ part.stop ≤ whole.stop
  proper : ∀ part ∈ parts, part ≠ whole
  ordered : parts.Pairwise fun s t => s.stop ≤ t.start

namespace Script

namespace Token.Consecutive

variable {ts us : List Token}

theorem of_infix (h : Consecutive ts) (hpiece : us <:+: ts) : Consecutive us :=
  ⟨h.ordered.sublist hpiece.sublist, fun t ht => h.nonempty t (hpiece.subset ht)⟩

theorem stop_le (h : Consecutive (ts ++ us)) {s t : Token} (hs : s ∈ ts) (ht : t ∈ us) :
    s.range.stop ≤ t.range.start :=
  (List.pairwise_append.1 h.ordered).2.2 s hs t ht

/-- A token ends before a later one does. -/
theorem start_lt (h : Consecutive (ts ++ us)) {s t : Token} (hs : s ∈ ts) (ht : t ∈ us) :
    s.range.start < t.range.start :=
  Nat.lt_of_lt_of_le (h.nonempty s (List.mem_append_left us hs)) (h.stop_le hs ht)

theorem stop_lt (h : Consecutive (ts ++ us)) {s t : Token} (hs : s ∈ ts) (ht : t ∈ us) :
    s.range.stop < t.range.stop :=
  Nat.lt_of_le_of_lt (h.stop_le hs ht) (h.nonempty t (List.mem_append_right ts ht))

end Token.Consecutive

end Script

namespace Span.IsHullOf

open Script

variable {range range' : Span} {ts us vs : List Token}

theorem singleton (t : Token) : t.range.IsHullOf [t] := ⟨⟨t, rfl, rfl⟩, ⟨t, rfl, rfl⟩⟩

/-- All of the tokens lie in their hull. -/
theorem mem (h : range.IsHullOf ts) (hts : Token.Consecutive ts) {t : Token} (ht : t ∈ ts) :
    range.start ≤ t.range.start ∧ t.range.stop ≤ range.stop := by
  obtain ⟨⟨first, hfirst, hstart⟩, ⟨last, hlast, hstop⟩⟩ := h
  rw [← hstart, ← hstop]
  constructor
  · obtain ⟨rest, rfl⟩ := List.head?_eq_some_iff.1 hfirst
    rcases List.mem_cons.1 ht with rfl | ht
    · exact Nat.le_refl _
    · have hsplit : Token.Consecutive ([first] ++ rest) := hts
      exact Nat.le_of_lt (hsplit.start_lt (by simp) ht)
  · obtain ⟨front, rfl⟩ := List.getLast?_eq_some_iff.1 hlast
    rcases List.mem_append.1 ht with ht | ht
    · exact Nat.le_of_lt (hts.stop_lt ht (by simp))
    · rw [List.mem_singleton.1 ht]

theorem nonempty (h : range.IsHullOf ts) (hts : Token.Consecutive ts) :
    range.start < range.stop := by
  obtain ⟨first, hfirst, hstart⟩ := h.first
  have hmem := List.mem_of_mem_head? hfirst
  have hstop := (h.mem hts hmem).2
  have hpos := hts.nonempty first hmem
  omega

/-- The hull of a piece lies in the hull of the whole. -/
theorem within (h : range.IsHullOf ts) (hts : Token.Consecutive ts) (h' : range'.IsHullOf us)
    (hpiece : us <:+: ts) : range.start ≤ range'.start ∧ range'.stop ≤ range.stop := by
  obtain ⟨⟨first, hfirst, hstart⟩, ⟨last, hlast, hstop⟩⟩ := h'
  rw [← hstart, ← hstop]
  exact ⟨(h.mem hts (hpiece.subset (List.mem_of_mem_head? hfirst))).1,
    (h.mem hts (hpiece.subset (List.mem_of_mem_getLast? hlast))).2⟩

/-- The hulls of two pieces are in the order of the pieces. -/
theorem stop_le (h : range.IsHullOf us) (h' : range'.IsHullOf vs) (hts : Token.Consecutive ts)
    (hsublist : (us ++ vs).Sublist ts) : range.stop ≤ range'.start := by
  obtain ⟨last, hlast, hstop⟩ := h.last
  obtain ⟨first, hfirst, hstart⟩ := h'.first
  have hpieces := List.pairwise_append.1 (hts.ordered.sublist hsublist)
  rw [← hstop, ← hstart]
  exact hpieces.2.2 last (List.mem_of_mem_getLast? hlast) first (List.mem_of_mem_head? hfirst)

/-- A piece that is not all of the tokens has another hull. -/
theorem ne (h : range.IsHullOf ts) (hts : Token.Consecutive ts) (h' : range'.IsHullOf us)
    (hpiece : us <:+: ts) (hlength : us.length < ts.length) : range' ≠ range := by
  rintro rfl
  obtain ⟨⟨first, hfirst, hstart⟩, ⟨last, hlast, hstop⟩⟩ := h'
  obtain ⟨front, rear, rfl⟩ := hpiece
  have hfirst := List.mem_of_mem_head? hfirst
  have hlast := List.mem_of_mem_getLast? hlast
  -- There are tokens in front of the piece or behind it.
  cases front with
  | cons t front =>
    have hbefore := (h.mem hts (t := t) (by simp)).1
    rw [List.append_assoc] at hts
    have := hts.start_lt (s := t) (by simp) (List.mem_append_left rear hfirst)
    omega
  | nil =>
    cases rear with
    | nil => simp at hlength
    | cons t rear =>
      have hbehind := (h.mem hts (t := t) (by simp)).2
      have := hts.stop_lt (t := t) (List.mem_append_right [] hlast) (by simp)
      omega

/-- The span that covers the first and the last piece is the hull of all. -/
theorem cover (h : range.IsHullOf us) (h' : range'.IsHullOf vs) {mid : List Token}
    (hts : Token.Consecutive (us ++ (mid ++ vs))) :
    (range.cover range').IsHullOf (us ++ (mid ++ vs)) := by
  obtain ⟨⟨first, hfirst, hstart⟩, ⟨last, hlast, hstop⟩⟩ := h
  obtain ⟨⟨first', hfirst', hstart'⟩, ⟨last', hlast', hstop'⟩⟩ := h'
  have hmem := List.mem_append_right mid (List.mem_of_mem_head? hfirst')
  have hmem' := List.mem_append_right mid (List.mem_of_mem_getLast? hlast')
  have hlt := hts.start_lt (List.mem_of_mem_head? hfirst) hmem
  have hlt' := hts.stop_lt (List.mem_of_mem_getLast? hlast) hmem'
  refine ⟨⟨first, ?_, ?_⟩, ⟨last', ?_, ?_⟩⟩
  · rw [List.head?_append, Option.mem_def.1 hfirst]
    rfl
  · rw [Span.cover, ← hstart, ← hstart']
    dsimp only
    omega
  · rw [← List.append_assoc, List.getLast?_append, Option.mem_def.1 hlast']
    rfl
  · rw [Span.cover, ← hstop, ← hstop']
    dsimp only
    omega

/-- The hull of some tokens holds the hulls of smaller pieces that follow one another. -/
theorem holds (h : range.IsHullOf ts) (hts : Token.Consecutive ts) {parts : List Span}
    (hparts : ∀ part ∈ parts, ∃ us, us <:+: ts ∧ us.length < ts.length ∧ part.IsHullOf us)
    (hordered : parts.Pairwise fun s t => s.stop ≤ t.start) : range.Holds parts := by
  refine ⟨fun part hpart => ?_, fun part hpart => ?_, hordered⟩
  · obtain ⟨us, hpiece, -, hus⟩ := hparts part hpart
    exact h.within hts hus hpiece
  · obtain ⟨us, hpiece, hlength, hus⟩ := hparts part hpart
    exact h.ne hts hus hpiece hlength

end Span.IsHullOf

namespace Script

namespace Expr

/-- The spans of the direct children. A member access has the name of the member for one. -/
def childRanges : Expr → List Span
  | dot _ receiver member => [receiver.range, member.range]
  | e => e.children.map range

/-- The node is derived from a piece of the tokens, from the first to the last of which its span
reaches, and it holds the spans of its children. -/
structure IsExact (e : Expr) (ts : List Token) : Prop where
  derived : ∃ d : ExprDerivation, d.value = e ∧ d.tokens <:+: ts ∧ e.range.IsHullOf d.tokens
  children : e.range.Holds e.childRanges

/-- The expression reaches from the first of the tokens to the last one, and all of its nodes are
exact. -/
structure Spans (e : Expr) (ts : List Token) : Prop where
  hull : e.range.IsHullOf ts
  nodes : ∀ f : Expr, f.Occurs e → f.IsExact ts

/-- Whatever suffixes follow the tokens, they are derived with the expression in front of them. -/
def BeginsOperand (e : Expr) (us : List Token) : Prop :=
  ∀ more : Derivation .suffixes, ∃ d : Derivation .operand,
    d.value = more.value e ∧ d.tokens = us ++ more.tokens

/-- Whatever links follow the tokens, they are derived with the expression in front of them. -/
def BeginsChain (op : Operator) (e : Expr) (us : List Token) : Prop :=
  ∀ more : Derivation (.links op), ∃ d : Derivation (.chain op),
    d.value = more.value e ∧ d.tokens = us ++ more.tokens

variable {e : Expr} {op : Operator} {ts us : List Token}

theorem IsExact.mono (h : e.IsExact us) (hpiece : us <:+: ts) : e.IsExact ts := by
  obtain ⟨⟨d, hvalue, htokens, hhull⟩, hchildren⟩ := h
  exact ⟨⟨d, hvalue, htokens.trans hpiece, hhull⟩, hchildren⟩

namespace BeginsOperand

theorem of_primary (first : Derivation .primary) : BeginsOperand first.value first.tokens :=
  fun more => ⟨.operand first more, rfl, rfl⟩

theorem member (h : e.BeginsOperand us) (newlines : List Span) (dot : Span) (name : Ident) :
    (Expr.dot (e.range.cover name.range) e name).BeginsOperand
      (us ++ (newlineTokens newlines ++ [⟨.dot, dot⟩] ++ [⟨.name name.text, name.range⟩])) := by
  intro more
  obtain ⟨d, hvalue, htokens⟩ := h (.member newlines dot name more)
  exact ⟨d, hvalue, by simpa [Derivation.tokens] using htokens⟩

theorem call (h : e.BeginsOperand us) (opening : Span) (args : Derivation .arguments)
    (closing : Span) :
    (Expr.call (e.range.cover closing) e args.value).BeginsOperand
      (us ++ (⟨.openParen, opening⟩ :: args.tokens ++ [⟨.closeParen, closing⟩])) := by
  intro more
  obtain ⟨d, hvalue, htokens⟩ := h (.call opening args closing more)
  exact ⟨d, hvalue, by simpa [Derivation.tokens] using htokens⟩

end BeginsOperand

namespace BeginsChain

theorem of_operand (op : Operator) (first : Derivation op.operand) :
    BeginsChain op (op.tree first.value) first.tokens :=
  fun more => ⟨.chain op first more, rfl, rfl⟩

theorem link (h : e.BeginsChain op us) (sign : Span) (newlines : List Span)
    (next : Derivation op.operand) :
    (Expr.binary (e.range.cover (op.tree next.value).range) op e (op.tree next.value)).BeginsChain
      op (us ++ (⟨op.token, sign⟩ :: newlineTokens newlines ++ next.tokens)) := by
  intro more
  obtain ⟨d, hvalue, htokens⟩ := h (.link op sign newlines next more)
  exact ⟨d, hvalue, by simpa [Derivation.tokens] using htokens⟩

/-- An expression with which a chain begins is derived from the tokens on its own. -/
theorem exists_derivation (h : e.BeginsChain op us) :
    ∃ d : ExprDerivation, d.value = e ∧ d.tokens = us := by
  obtain ⟨d, hvalue, htokens⟩ := h (.last op)
  rw [Derivation.tokens, List.append_nil] at htokens
  cases op with
  | plus => exact ⟨.chain .or d (.last .or), hvalue, by simp [Derivation.tokens, htokens]⟩
  | or => exact ⟨d, hvalue, htokens⟩

end BeginsChain

theorem BeginsOperand.exists_derivation (h : e.BeginsOperand us) :
    ∃ d : ExprDerivation, d.value = e ∧ d.tokens = us := by
  obtain ⟨d, hvalue, htokens⟩ := h .bare
  rw [Derivation.tokens, List.append_nil] at htokens
  obtain ⟨d', hvalue', htokens'⟩ := (BeginsChain.of_operand .plus d).exists_derivation
  exact ⟨d', hvalue'.trans hvalue, htokens'.trans htokens⟩

theorem Spans.length_pos (h : e.Spans ts) : 0 < ts.length := by
  obtain ⟨t, ht, -⟩ := h.hull.first
  exact List.length_pos_of_mem (List.mem_of_mem_head? ht)

/-- An expression that is derived from the tokens spans them if its children span smaller pieces, in
their order. -/
theorem spans_of_children (hderived : ∃ d : ExprDerivation, d.value = e ∧ d.tokens = ts)
    (hhull : e.range.IsHullOf ts)
    (hchildren : ∀ c ∈ e.children, ∃ us, us <:+: ts ∧ c.Spans us)
    (hranges : e.range.Holds e.childRanges) : e.Spans ts := by
  refine ⟨hhull, fun f hf => ?_⟩
  rcases occurs_iff.1 hf with rfl | ⟨c, hc, hf⟩
  · obtain ⟨d, hvalue, rfl⟩ := hderived
    exact ⟨⟨d, hvalue, List.infix_rfl, hhull⟩, hranges⟩
  · obtain ⟨us, hpiece, hspans⟩ := hchildren c hc
    exact (hspans.nodes f hf).mono hpiece

/-- The same where the children have all there is to say of the spans of the parts. -/
theorem spans_of_pieces (hparts : e.childRanges = e.children.map range)
    (hderived : ∃ d : ExprDerivation, d.value = e ∧ d.tokens = ts) (hts : Token.Consecutive ts)
    (hhull : e.range.IsHullOf ts)
    (hchildren : ∀ c ∈ e.children, ∃ us, us <:+: ts ∧ us.length < ts.length ∧ c.Spans us)
    (hordered : e.children.Pairwise fun c d => c.range.stop ≤ d.range.start) : e.Spans ts := by
  refine spans_of_children hderived hhull ?_ ?_
  · intro c hc
    obtain ⟨us, hpiece, -, hspans⟩ := hchildren c hc
    exact ⟨us, hpiece, hspans⟩
  · rw [hparts]
    refine hhull.holds hts ?_ (List.pairwise_map.2 hordered)
    intro part hpart
    obtain ⟨c, hc, rfl⟩ := List.mem_map.1 hpart
    obtain ⟨us, hpiece, hlength, hspans⟩ := hchildren c hc
    exact ⟨us, hpiece, hlength, hspans.hull⟩

/-- A literal or a name spans its token. -/
theorem spans_token {t : Token} (d : Derivation .primary) (htokens : d.tokens = [t])
    (hrange : (Expr.range d.value) = t.range) (hleaf : Expr.childRanges d.value = [])
    (hchildren : Expr.children d.value = []) : Expr.Spans d.value [t] := by
  refine spans_of_children ⟨d.asExpr, rfl, ?_⟩ (hrange ▸ .singleton t) ?_ ?_
  · simp [Derivation.asExpr, Derivation.asSum, Derivation.tokens, htokens]
  · simp [hchildren]
  · exact ⟨by simp [hleaf], by simp [hleaf], by simp [hleaf]⟩

end Expr

/-- What is derived from the tokens spans them. Suffixes and links stretch an operand in front of
them, and arguments span pieces that follow one another. -/
def Symbol.Spans : (s : Symbol) → s.Meaning → List Token → Prop
  | primary, e, ts | operand, e, ts | chain _, e, ts => e.Spans ts
  | suffixes, f, ts => ∀ (e : Expr) (us : List Token), Token.Consecutive (us ++ ts) →
      e.BeginsOperand us → e.Spans us → (f e).Spans (us ++ ts)
  | links op, f, ts => ∀ (e : Expr) (us : List Token), Token.Consecutive (us ++ ts) →
      e.BeginsChain op us → e.Spans us → (f e).Spans (us ++ ts)
  | arguments, es, ts | items, es, ts =>
      (∀ e ∈ es, ∃ us, us <:+: ts ∧ e.Spans us) ∧
        es.Pairwise fun e f => e.range.stop ≤ f.range.start

theorem Operator.spans_operand {op : Operator} {e : op.operand.Meaning} {ts : List Token} :
    op.operand.Spans e ts ↔ (op.tree e).Spans ts := by
  cases op <;> rfl

theorem infix_last (us mid vs : List Token) : vs <:+: us ++ (mid ++ vs) :=
  List.infix_append_of_infix_right List.infix_append_right

namespace Expr

variable {e : Expr} {us mid vs : List Token}

/-- A member access reaches from its receiver to the name of the member. -/
theorem Spans.dot {name : Ident} (h : e.Spans us)
    (hts : Token.Consecutive (us ++ (mid ++ [⟨.name name.text, name.range⟩])))
    (hderived : ∃ d : ExprDerivation, d.value = .dot (e.range.cover name.range) e name ∧
      d.tokens = us ++ (mid ++ [⟨.name name.text, name.range⟩])) :
    (Expr.dot (e.range.cover name.range) e name).Spans
      (us ++ (mid ++ [⟨.name name.text, name.range⟩])) := by
  have hname := Span.IsHullOf.singleton ⟨.name name.text, name.range⟩
  have hhull := h.hull.cover hname hts
  have hpos := h.length_pos
  refine spans_of_children hderived hhull ?_ (hhull.holds hts ?_ ?_)
  · intro c hc
    obtain rfl := List.mem_singleton.1 hc
    exact ⟨us, List.infix_append_left, h⟩
  · intro part hpart
    rcases (by simpa [childRanges] using hpart : part = e.range ∨ part = name.range) with rfl | rfl
    · exact ⟨us, List.infix_append_left, by simp, h.hull⟩
    · refine ⟨_, infix_last us mid _, ?_, hname⟩
      simp only [List.length_append]
      omega
  · exact List.pairwise_pair.2 (h.hull.stop_le hname hts (by simp))

/-- A binary expression reaches from its left operand to its right one. -/
theorem Spans.binary {op : Operator} {rhs : Expr} (h : e.Spans us) (h' : rhs.Spans vs)
    (hts : Token.Consecutive (us ++ (mid ++ vs)))
    (hderived : ∃ d : ExprDerivation, d.value = .binary (e.range.cover rhs.range) op e rhs ∧
      d.tokens = us ++ (mid ++ vs)) :
    (Expr.binary (e.range.cover rhs.range) op e rhs).Spans (us ++ (mid ++ vs)) := by
  have hpos := h.length_pos
  have hpos' := h'.length_pos
  refine spans_of_pieces rfl hderived hts (h.hull.cover h'.hull hts) ?_ ?_
  · intro c hc
    rcases (by simpa [children] using hc : c = e ∨ c = rhs) with rfl | rfl
    · refine ⟨us, List.infix_append_left, ?_, h⟩
      simp only [List.length_append]
      omega
    · refine ⟨vs, infix_last us mid vs, ?_, h'⟩
      simp only [List.length_append]
      omega
  · refine List.pairwise_pair.2 (h.hull.stop_le h'.hull hts ?_)
    exact (List.Sublist.refl us).append (List.sublist_append_right mid vs)

/-- A call reaches from its callee to the closing parenthesis behind its arguments. -/
theorem Spans.call {opening closing : Span} {args : List Expr} (h : e.Spans us)
    (hargs : Symbol.arguments.Spans args mid)
    (hts : Token.Consecutive (us ++ (⟨.openParen, opening⟩ :: mid ++ [⟨.closeParen, closing⟩])))
    (hderived : ∃ d : ExprDerivation, d.value = .call (e.range.cover closing) e args ∧
      d.tokens = us ++ (⟨.openParen, opening⟩ :: mid ++ [⟨.closeParen, closing⟩])) :
    (Expr.call (e.range.cover closing) e args).Spans
      (us ++ (⟨.openParen, opening⟩ :: mid ++ [⟨.closeParen, closing⟩])) := by
  have hclosing := Span.IsHullOf.singleton ⟨.closeParen, closing⟩
  refine spans_of_pieces rfl hderived hts (h.hull.cover hclosing hts) ?_ ?_
  · intro c hc
    rcases List.mem_cons.1 hc with rfl | hc
    · exact ⟨us, List.infix_append_left, by simp, h⟩
    · obtain ⟨ws, hpiece, hspans⟩ := hargs.1 c hc
      have hmid : mid <:+: us ++ (⟨.openParen, opening⟩ :: mid ++ [⟨.closeParen, closing⟩]) :=
        ⟨us ++ [⟨.openParen, opening⟩], [⟨.closeParen, closing⟩], by simp⟩
      have hle := hpiece.length_le
      refine ⟨ws, hpiece.trans hmid, ?_, hspans⟩
      simp only [List.length_append, List.length_cons]
      omega
  · refine .cons ?_ hargs.2
    intro arg harg
    obtain ⟨ws, hpiece, hspans⟩ := hargs.1 arg harg
    refine h.hull.stop_le hspans.hull hts ((List.Sublist.refl us).append ?_)
    exact (hpiece.sublist.cons _).trans (List.sublist_append_left _ _)

/-- A parenthesised expression reaches from its opening parenthesis to its closing one. -/
theorem Spans.paren {opening closing : Span} (h : e.Spans mid)
    (hts : Token.Consecutive (⟨.openParen, opening⟩ :: (mid ++ [⟨.closeParen, closing⟩])))
    (hderived : ∃ d : ExprDerivation, d.value = .paren (opening.cover closing) e ∧
      d.tokens = ⟨.openParen, opening⟩ :: (mid ++ [⟨.closeParen, closing⟩])) :
    (Expr.paren (opening.cover closing) e).Spans
      (⟨.openParen, opening⟩ :: (mid ++ [⟨.closeParen, closing⟩])) := by
  have hhull := Span.IsHullOf.cover (.singleton ⟨.openParen, opening⟩)
    (.singleton ⟨.closeParen, closing⟩) hts
  refine spans_of_pieces rfl hderived hts hhull ?_ (List.pairwise_singleton _ _)
  intro c hc
  obtain rfl := List.mem_singleton.1 hc
  refine ⟨mid, ⟨[⟨.openParen, opening⟩], [⟨.closeParen, closing⟩], rfl⟩, ?_, h⟩
  simp only [List.length_append, List.length_cons]
  omega

end Expr

/-- One more argument in front of others. -/
theorem Symbol.Spans.further {e : Expr} {es : List Expr} {us vs : List Token} {comma : Token}
    (h : e.Spans us) (hmore : Symbol.items.Spans es vs)
    (hts : Token.Consecutive (us ++ comma :: vs)) :
    Symbol.items.Spans (e :: es) (us ++ comma :: vs) := by
  refine ⟨?_, .cons ?_ hmore.2⟩
  · intro f hf
    rcases List.mem_cons.1 hf with rfl | hf
    · exact ⟨us, List.infix_append_left, h⟩
    · obtain ⟨ws, hpiece, hspans⟩ := hmore.1 f hf
      exact ⟨ws, hpiece.trans (infix_last us [comma] vs), hspans⟩
  · intro f hf
    obtain ⟨ws, hpiece, hspans⟩ := hmore.1 f hf
    refine h.hull.stop_le hspans.hull hts ((List.Sublist.refl us).append ?_)
    exact hpiece.sublist.trans (List.sublist_cons_self comma vs)

/-- What is derived spans its tokens. -/
theorem Derivation.spans {s : Symbol} (d : Derivation s) (h : Token.Consecutive d.tokens) :
    s.Spans d.value d.tokens := by
  induction d with
  | string range literal => exact Expr.spans_token (.string range literal) rfl rfl rfl rfl
  | integer range value => exact Expr.spans_token (.integer range value) rfl rfl rfl rfl
  | name range text => exact Expr.spans_token (.name range text) rfl rfl rfl rfl
  | paren opening inner closing ih =>
    have hinner := ih (h.of_infix ⟨[⟨.openParen, opening⟩], [⟨.closeParen, closing⟩], rfl⟩)
    refine Expr.Spans.paren hinner h ⟨(paren opening inner closing).asExpr, rfl, ?_⟩
    simp [asExpr, asSum, tokens]
  | bare =>
    intro e us _ _ hspans
    simpa [tokens, value] using hspans
  | member newlines dot ident more ih =>
    intro e us hts hbegins hspans
    have htokens : us ++ tokens (.member newlines dot ident more) =
        us ++ (newlineTokens newlines ++ [⟨.dot, dot⟩] ++ [⟨.name ident.text, ident.range⟩]) ++
          more.tokens := by simp [tokens]
    rw [htokens] at hts ⊢
    have hmember := hbegins.member newlines dot ident
    exact ih (hts.of_infix List.infix_append_right) _ _ hts hmember
      (hspans.dot (hts.of_infix List.infix_append_left) hmember.exists_derivation)
  | call opening args closing more ihArgs ih =>
    intro e us hts hbegins hspans
    have htokens : us ++ tokens (.call opening args closing more) =
        us ++ (⟨.openParen, opening⟩ :: args.tokens ++ [⟨.closeParen, closing⟩]) ++
          more.tokens := by simp [tokens]
    have hargs := ihArgs (h.of_infix ⟨[⟨.openParen, opening⟩], _, rfl⟩)
    rw [htokens] at hts ⊢
    have hcall := hbegins.call opening args closing
    exact ih (hts.of_infix List.infix_append_right) _ _ hts hcall
      (hspans.call hargs (hts.of_infix List.infix_append_left) hcall.exists_derivation)
  | operand first more ihFirst ih =>
    exact ih (h.of_infix List.infix_append_right) _ _ h (.of_primary first)
      (ihFirst (h.of_infix List.infix_append_left))
  | last =>
    intro e us _ _ hspans
    simpa [tokens, value] using hspans
  | link op sign newlines next more ihNext ih =>
    intro e us hts hbegins hspans
    have htokens : us ++ tokens (.link op sign newlines next more) =
        us ++ (⟨op.token, sign⟩ :: newlineTokens newlines ++ next.tokens) ++ more.tokens := by
      simp [tokens]
    have hnext : next.tokens <:+: tokens (.link op sign newlines next more) :=
      ⟨⟨op.token, sign⟩ :: newlineTokens newlines, more.tokens, by simp [tokens]⟩
    have hspans' := Operator.spans_operand.1 (ihNext (h.of_infix hnext))
    rw [htokens] at hts ⊢
    have hlink := hbegins.link sign newlines next
    exact ih (hts.of_infix List.infix_append_right) _ _ hts hlink
      (hspans.binary hspans' (hts.of_infix List.infix_append_left) hlink.exists_derivation)
  | chain op first more ihFirst ih =>
    exact ih (h.of_infix List.infix_append_right) _ _ h (.of_operand op first)
      (Operator.spans_operand.1 (ihFirst (h.of_infix List.infix_append_left)))
  | nothing => exact ⟨by simp [value], .nil⟩
  | something items ih => exact ih h
  | single arg ih => exact ⟨by simpa [value] using ⟨_, List.infix_rfl, ih h⟩, by simp [value]⟩
  | trailing arg comma ih =>
    have harg := ih (h.of_infix List.infix_append_left)
    exact ⟨by simpa [value] using ⟨_, List.infix_append_left, harg⟩, by simp [value]⟩
  | further arg comma more ihArg ih =>
    have hmore : more.tokens <:+: tokens (.further arg comma more) :=
      infix_last arg.tokens [⟨.comma, comma⟩] more.tokens
    exact .further (ihArg (h.of_infix List.infix_append_left)) (ih (h.of_infix hmore)) h

/-- The statement is derived from the tokens between two others, each of which has a separator next
to the statement, or is empty. -/
structure Statement.StandsBetween (s : Statement) (before ts after : List Token) : Prop where
  derived : ∃ d : StatementDerivation, d.statement = s ∧ d.tokens = ts
  front : endsStatement before.reverse = true
  behind : endsStatement after = true

namespace ScriptDerivation

theorem spans_of_mem {trailing : List Separator}
    {lines : List (List Separator × StatementDerivation)}
    {line : List Separator × StatementDerivation} (hline : line ∈ lines)
    (h : Token.Consecutive (tokensOf trailing lines)) :
    line.2.statement.expr.Spans line.2.expr.tokens := by
  rw [line.2.statement_expr]
  exact line.2.expr.spans (h.of_infix (line.2.infix_expr.trans (infix_tokensOf hline)))

/-- A statement of a script stands between the tokens in front of it and those behind it. -/
theorem exists_split (d : ScriptDerivation)
    {lead more : List (List Separator × StatementDerivation)} {separators : List Separator}
    {s : StatementDerivation}
    (hlines : d.lines = lead ++ (separators, s) :: more) :
    ∃ before after, d.tokens = before ++ (s.tokens ++ after) ∧
      s.statement.StandsBetween before s.tokens after := by
  have h := d.separated
  rw [hlines] at h
  refine ⟨tokensOf [] lead ++ separatorTokens separators, tokensOf d.trailing more, ?_,
    ⟨s, rfl, rfl⟩, ?_, ?_⟩
  · rw [tokens, hlines, tokensOf_append, tokensOf, List.append_assoc]
  · rcases List.eq_nil_or_concat separators with rfl | ⟨front, last, rfl⟩
    · -- Only the first statement may have no separators in front of it.
      cases lead with
      | nil => rfl
      | cons line lead => exact absurd rfl (h ([], s) (by simp))
    · simpa [separatorTokens, endsStatement] using last.2
  · refine (tokensOf_stops fun line hline => h line ?_).1
    cases lead with
    | nil => exact hline
    | cons => simp [hline]

end ScriptDerivation

theorem Tokens.consecutive {source : List Char} {tokens : Tokens}
    (h : Tokens.ofSource source = .ok tokens) : Token.Consecutive tokens.items := by
  obtain ⟨d, -, hlayout⟩ := Tokens.layout_of_ofSource h
  exact ⟨hlayout.ordered, hlayout.nonempty⟩

/-- The spans of the expressions of a script are exact. An expression is derived from tokens of its
statement and reaches from the first of them to the last, and so does whatever else is derived from
tokens of the source. It holds the spans of its children, which follow one another, and it lies
between the tokens in front of its statement and those behind it, which separators set off. -/
theorem spans_exact {source : List Char} {script : Script}
    (h : Script.ofSource source = .ok script) :
    ∃ tokens, Tokens.ofSource source = .ok tokens ∧
      (∀ d : ExprDerivation, d.tokens <:+: tokens.items → d.value.range.IsHullOf d.tokens) ∧
      ∀ earlier s later, script.statements = earlier ++ s :: later →
        ∃ before ts after, tokens.items = before ++ (ts ++ after) ∧
          s.StandsBetween before ts after ∧
          ∀ e : Expr, e.Occurs s.expr → e.IsExact ts ∧
            (∀ t ∈ before, t.range.stop ≤ e.range.start) ∧
            ∀ t ∈ after, e.range.stop ≤ t.range.start := by
  obtain ⟨tokens, htokens, d, hd, rfl⟩ := exists_derivation h
  have hts := Tokens.consecutive htokens
  refine ⟨tokens, htokens, ?_, ?_⟩
  · intro d' hpiece
    exact (d'.spans (hts.of_infix hpiece)).hull
  · intro earlier s later hsplit
    obtain ⟨lead, rest, hlines, rfl, hmore⟩ := List.map_eq_append_iff.1 hsplit
    obtain ⟨⟨separators, s'⟩, more, rfl, rfl, rfl⟩ := List.map_eq_cons_iff.1 hmore
    obtain ⟨before, after, hitems, hstands⟩ := d.exists_split hlines
    have hline : (separators, s') ∈ d.lines := hlines ▸ List.mem_append_right lead (.head more)
    have hspans := ScriptDerivation.spans_of_mem hline (hd ▸ hts)
    refine ⟨before, s'.tokens, after, hd ▸ hitems, hstands, ?_⟩
    rw [← hd, hitems] at hts
    intro e he
    have hexact := (hspans.nodes e he).mono s'.infix_expr
    obtain ⟨d', -, hpiece, hhull⟩ := hexact.derived
    obtain ⟨first, hfirst, hstart⟩ := hhull.first
    obtain ⟨last, hlast, hstop⟩ := hhull.last
    refine ⟨hexact, ?_, ?_⟩
    · intro t ht
      rw [← hstart]
      exact hts.stop_le ht (List.mem_append_left after
        (hpiece.subset (List.mem_of_mem_head? hfirst)))
    · intro t ht
      rw [← hstop]
      rw [← List.append_assoc] at hts
      exact hts.stop_le (List.mem_append_right before
        (hpiece.subset (List.mem_of_mem_getLast? hlast))) ht

namespace Sample

/-- A chain of calls with a comma too many, over two lines, and a second statement. -/
def stretched : List Char :=
  ['f', '(', '1', ',', ')', '\n', '.', 'b', '(', '(', 'g', ')', ')', ';', 'h']

/-- The chain of calls. -/
def stretchedChain : Statement :=
  .expression (.call ⟨0, 13⟩ (.dot ⟨0, 8⟩ (.call ⟨0, 5⟩ (.name ⟨0, 1⟩ "f") [.integer ⟨2, 3⟩ 1])
    ⟨"b", ⟨7, 8⟩⟩) [.paren ⟨9, 12⟩ (.name ⟨10, 11⟩ "g")])

theorem ofSource_stretched :
    Script.ofSource stretched = .ok ⟨[stretchedChain, .expression (.name ⟨14, 15⟩ "h")]⟩ := by
  with_unfolding_all rfl

end Sample

/-- All nodes of the chain are exact. -/
theorem spans_exact_stretched :
    ∃ tokens, Tokens.ofSource Sample.stretched = .ok tokens ∧
      ∃ before ts after, tokens.items = before ++ (ts ++ after) ∧
        Sample.stretchedChain.StandsBetween before ts after ∧
        ∀ e : Expr, e.Occurs Sample.stretchedChain.expr → e.IsExact ts := by
  obtain ⟨tokens, htokens, -, hexact⟩ := spans_exact Sample.ofSource_stretched
  obtain ⟨before, ts, after, hitems, hstands, hnodes⟩ := hexact [] Sample.stretchedChain _ rfl
  exact ⟨tokens, htokens, before, ts, after, hitems, hstands, fun e he => (hnodes e he).1⟩

end Script

end RegexAudit
