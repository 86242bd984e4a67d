import RegexAudit.Proofs.Script.Tokens

/-!
# The layout of a source

A source is a sequence of tokens with gaps before, between and behind them. Splitting it into
tokens drops the gaps and nothing else: they hold blank space and comments, and a newline that is
not inside a block comment is dropped only between parentheses.

## Main definitions

* `Gap`: the text of a gap, given how many parentheses are open and what follows the gap.
* `Token.Spells`: what is known of the spelling of a token.
* `Layout`: gaps and tokens alternate between two places.
* `Token.openAfter`: the number of parentheses that some tokens leave open.

## Main statements

* `Lexeme.skipped_gap`, `Lexeme.token_spells`: one reading step reads a piece of a gap, or a token.
* `Token.scan_layout`: scanning lays out what is left of the source.
* `Tokens.layout_of_ofSource`: gaps and tokens make up the whole source.
-/

namespace RegexAudit

namespace Script

/-- The text of a gap where `depth` parentheses are open, and what follows the gap. A line comment
ends in front of a newline or at the end of the source, and a block comment at the first mark that
closes it. -/
inductive Gap (depth : Nat) : List Char → List Char → Prop
  | nil (after : List Char) : Gap depth [] after
  | blank {c : Char} {text after : List Char} :
      Text.isBlank c = true → (c = '\n' → 0 < depth) → Gap depth text after →
        Gap depth (c :: text) after
  | line {body text after : List Char} :
      '\n' ∉ body → (∀ c ∈ (text ++ after).head?, c = '\n') → Gap depth text after →
        Gap depth ('/' :: '/' :: body ++ text) after
  | block {body text after : List Char} :
      ¬ ['*', '/'] <:+: body → Gap depth text after →
        Gap depth ('/' :: '*' :: body ++ '*' :: '/' :: text) after

/-- The spelling of a token where `depth` parentheses are open. A newline is a token on its own and
outside parentheses, and otherwise it occurs in string literals only. -/
structure Token.Spells (depth : Nat) (kind : TokenKind) (text : List Char) : Prop where
  ne_nil : text ≠ []
  newline : kind = .newline → text = ['\n'] ∧ depth = 0
  broken : '\n' ∈ text → kind = .newline ∨ ∃ l, kind = .string l

/-- From the place `c` to the place `d`, where the source ends, gaps alternate with the tokens. In
front of the tokens `depth` parentheses are open. -/
inductive Layout : Nat → Cursor → List Token → Cursor → Prop
  | done {depth : Nat} {c d : Cursor} {gap : List Char} :
      c.Reads gap d → Gap depth gap d.rest → d.rest = [] → Layout depth c [] d
  | token {depth : Nat} {c m n d : Cursor} {gap text : List Char} {t : Token} {ts : List Token} :
      c.Reads gap m → Gap depth gap m.rest → m.Reads text n → Token.Spells depth t.kind text →
        t.range = m.spanTo n → Layout (t.kind.depthAfter depth) n ts d → Layout depth c (t :: ts) d

/-- The number of parentheses that are open after some tokens. A closing one too many is ignored. -/
def Token.openAfter (tokens : List Token) : Nat :=
  tokens.foldl (fun depth t => t.kind.depthAfter depth) 0

/-- The empty span that stands for the end of a source. -/
def Tokens.endRange (tokens : Tokens) : Span := .empty tokens.stop

/-- The span between some leading tokens and the others. -/
def Tokens.gapRange (tokens : Tokens) (before after : List Token) : Span :=
  ⟨(before.getLast?.map (·.range.stop)).getD 0,
    (after.head?.map (·.range.start)).getD tokens.stop⟩

theorem IsComment.gap {depth : Nat} {piece text after : List Char}
    (h : IsComment piece (text ++ after)) (hgap : Gap depth text after) :
    Gap depth (piece ++ text) after := by
  cases h with
  | line hbody hhead => exact .line hbody hhead hgap
  | block hbody => simpa using Gap.block hbody hgap

namespace Lexeme

/-- What a reading step skips is a piece of a gap. -/
theorem skipped_gap {c d : Cursor} {ch : Char} {cs : List Char} (hrest : c.rest = ch :: cs)
    (h : read c ch cs = .ok (.skipped, d)) :
    ∃ piece, c.Reads piece d ∧ ∀ {depth text after}, d.rest = text ++ after →
      Gap depth text after → Gap depth (piece ++ text) after := by
  cases read_found hrest h with
  | blank hkind hblank hreads =>
    refine ⟨_, hreads, fun _ hgap => .blank hblank ?_ hgap⟩
    rintro rfl
    simp [punctuation?] at hkind
  | comment hcomment hreads =>
    exact ⟨_, hreads, fun hsplit hgap => IsComment.gap (hsplit ▸ hcomment) hgap⟩

/-- A newline occurs only in string literals and as a token of its own. -/
theorem token_breaks {c d : Cursor} {ch : Char} {cs : List Char} {kind : TokenKind}
    (hrest : c.rest = ch :: cs) (h : read c ch cs = .ok (.token kind, d)) :
    ∃ text, c.Reads text d ∧ (kind = .newline → text = ['\n']) ∧
      ('\n' ∈ text → kind = .newline ∨ ∃ l, kind = .string l) := by
  cases read_found hrest h with
  | punctuation hkind hreads =>
    refine ⟨_, hreads, ?_, ?_⟩
    · rintro rfl
      unfold punctuation? at hkind
      split at hkind <;> simp at hkind ⊢
    · intro hmem
      rw [← List.mem_singleton.1 hmem] at hkind
      exact .inl (Option.some.inj hkind).symm
  | string hstands =>
    obtain ⟨text, htext⟩ := hstands.reads
    exact ⟨text, htext, by simp, fun _ => .inr ⟨_, rfl⟩⟩
  | integer hfree hreads | name hfree hreads =>
    exact ⟨_, hreads, by simp, fun hmem => absurd hmem hfree⟩

/-- What a reading step keeps is a token with a spelling of its own. -/
theorem token_spells {c d : Cursor} {ch : Char} {cs : List Char} {kind : TokenKind} {depth : Nat}
    (hrest : c.rest = ch :: cs) (h : read c ch cs = .ok (.token kind, d))
    (hkept : kind.isKept depth = true) : ∃ text, c.Reads text d ∧ Token.Spells depth kind text := by
  have hshrinks := read_shrinks hrest h
  obtain ⟨text, htext, hnewline, hbroken⟩ := token_breaks hrest h
  refine ⟨text, htext, ?_, ?_, hbroken⟩
  · rintro rfl
    rw [htext.rest] at hshrinks
    simp at hshrinks
  · rintro rfl
    exact ⟨hnewline rfl, by simpa [TokenKind.isKept] using hkept⟩

end Lexeme

namespace Layout

variable {depth : Nat} {c d e : Cursor} {ts : List Token}

theorem skip {piece : List Char} (hpiece : c.Reads piece d)
    (hgap : ∀ {text after}, d.rest = text ++ after → Gap depth text after →
      Gap depth (piece ++ text) after)
    (h : Layout depth d ts e) : Layout depth c ts e := by
  cases h with
  | done hreads htext hend => exact .done (hpiece.append hreads) (hgap hreads.rest htext) hend
  | token hreads htext htoken hspells hrange hmore =>
    exact .token (hpiece.append hreads) (hgap hreads.rest htext) htoken hspells hrange hmore

end Layout

/-- Scanning lays out what is left of the source. -/
theorem Token.scan_layout {depth : Nat} {tokens : List Token} {c : Cursor} {result : Tokens}
    (h : Token.scan depth tokens c = .ok result) :
    ∃ ts d, result.items = tokens.reverse ++ ts ∧ result.stop = d.offset ∧ Layout depth c ts d := by
  fun_induction Token.scan depth tokens c with
  | case1 depth tokens c hrest =>
    simp only [Except.ok.injEq] at h
    subst h
    exact ⟨[], c, by simp, rfl, .done ⟨rfl, rfl⟩ (.nil _) hrest⟩
  | case2 => simp at h
  | case3 depth tokens c ch cs hrest d hread ih =>
    obtain ⟨ts, e, hitems, hstop, hlayout⟩ := ih h
    obtain ⟨piece, hpiece, hgap⟩ := Lexeme.skipped_gap hrest hread
    exact ⟨ts, e, hitems, hstop, hlayout.skip hpiece hgap⟩
  | case4 depth tokens c ch cs hrest kind d hread ih =>
    obtain ⟨ts, e, hitems, hstop, hlayout⟩ := ih h
    by_cases hkept : kind.isKept depth = true
    · obtain ⟨text, htext, hspells⟩ := Lexeme.token_spells hrest hread hkept
      rw [dif_pos hkept, List.reverse_cons, List.append_assoc] at hitems
      refine ⟨_ :: ts, e, hitems, hstop, ?_⟩
      exact .token ⟨rfl, rfl⟩ (.nil _) htext hspells rfl hlayout
    · -- Only a newline between parentheses is dropped. It changes no depth.
      rw [dif_neg hkept] at hitems
      refine ⟨ts, e, hitems, hstop, ?_⟩
      have hdropped : 0 < depth ∧ kind = .newline := by
        simpa [TokenKind.isKept, Nat.pos_iff_ne_zero] using hkept
      obtain ⟨hdepth, rfl⟩ := hdropped
      obtain ⟨text, htext, hnewline, -⟩ := Lexeme.token_breaks hrest hread
      obtain rfl := hnewline rfl
      exact hlayout.skip htext fun _ hgap => .blank (by decide) (fun _ => hdepth) hgap

namespace Layout

variable {depth : Nat} {c d : Cursor} {ts : List Token}

/-- A layout reaches from its first place to the end of the source. -/
theorem reads (h : Layout depth c ts d) : c.Reads c.rest d ∧ d.rest = [] := by
  induction h with
  | done hreads _ hend =>
    have hrest := hreads.rest
    rw [hend, List.append_nil] at hrest
    rw [hrest]
    exact ⟨hreads, hend⟩
  | token hgap _ htext _ _ _ ih =>
    have hall := (hgap.append htext).append ih.1
    have hrest := hall.rest
    rw [ih.2, List.append_nil] at hrest
    rw [hrest]
    exact ⟨hall, ih.2⟩

theorem offset_le (h : Layout depth c ts d) : ∀ t ∈ ts, c.offset ≤ t.range.start := by
  induction h with
  | done => simp
  | token hgap _ htext _ hrange _ ih =>
    have hm := hgap.offset
    have hn := htext.offset
    intro t ht
    rcases List.mem_cons.1 ht with rfl | ht
    · simp only [hrange, Cursor.spanTo]
      omega
    · have := ih t ht
      omega

theorem ordered (h : Layout depth c ts d) :
    ts.Pairwise fun s t => s.range.stop ≤ t.range.start := by
  induction h with
  | done => exact .nil
  | token _ _ _ _ hrange hmore ih =>
    refine .cons ?_ ih
    rw [hrange]
    exact hmore.offset_le

theorem nonempty (h : Layout depth c ts d) : ∀ t ∈ ts, t.range.start < t.range.stop := by
  induction h with
  | done => simp
  | token _ _ htext hspells hrange _ ih =>
    refine List.forall_mem_cons.2 ⟨?_, ih⟩
    have hpos := Nat.pos_of_ne_zero fun hzero => hspells.ne_nil (Text.width_eq_zero_iff.1 hzero)
    have hoffset := htext.offset
    simp only [hrange, Cursor.spanTo]
    omega

/-- Behind some leading tokens the others are laid out, with the parentheses open that the leading
tokens leave open. -/
theorem split {before after : List Token} (h : Layout depth c (before ++ after) d) :
    ∃ m text, c.Reads text m ∧ m.offset = (before.getLast?.map (·.range.stop)).getD c.offset ∧
      Layout (before.foldl (fun depth t => t.kind.depthAfter depth) depth) m after d := by
  -- Every leading token moves the place on and may open or close a parenthesis.
  induction before generalizing depth c with
  | nil => exact ⟨c, [], ⟨rfl, rfl⟩, rfl, h⟩
  | cons t before ih =>
    cases h with
    | token hgap _ htext _ hrange hmore =>
      obtain ⟨m, text', hreads, hoffset, hlayout⟩ := ih hmore
      refine ⟨m, _, (hgap.append htext).append hreads, ?_, hlayout⟩
      rw [hoffset, List.getLast?_cons]
      cases before.getLast? with
      | none => simp [hrange, Cursor.spanTo]
      | some last => rfl

/-- The first gap of a layout ends where its first token begins, or with the source. -/
theorem first_gap (h : Layout depth c ts d) :
    ∃ m gap, c.Reads gap m ∧ Gap depth gap m.rest ∧
      m.offset = (ts.head?.map (·.range.start)).getD d.offset := by
  cases h with
  | done hreads hgap => exact ⟨d, _, hreads, hgap, rfl⟩
  | token hreads hgap _ _ hrange _ => exact ⟨_, _, hreads, hgap, by simp [hrange, Cursor.spanTo]⟩

theorem first_token {t : Token} (h : Layout depth c (t :: ts) d) :
    ∃ lead m n text, c.Reads lead m ∧ m.Reads text n ∧ Token.Spells depth t.kind text ∧
      t.range = m.spanTo n := by
  cases h with
  | token hgap _ htext hspells hrange _ => exact ⟨_, _, _, _, hgap, htext, hspells, hrange⟩

end Layout

/-- The tokens of a source and the gaps between them make it up. -/
theorem Tokens.layout_of_ofSource {source : List Char} {tokens : Tokens}
    (h : Tokens.ofSource source = .ok tokens) :
    ∃ d, tokens.stop = d.offset ∧ Layout 0 (.ofText source) tokens.items d := by
  unfold Tokens.ofSource at h
  split at h
  · simp at h
  · obtain ⟨ts, d, hitems, hstop, hlayout⟩ := Token.scan_layout h
    obtain rfl : tokens.items = ts := by simpa using hitems
    exact ⟨d, hstop, hlayout⟩

theorem Tokens.ordered {source : List Char} {tokens : Tokens}
    (h : Tokens.ofSource source = .ok tokens) :
    tokens.items.Pairwise fun s t => s.range.stop ≤ t.range.start := by
  obtain ⟨d, -, hlayout⟩ := Tokens.layout_of_ofSource h
  exact hlayout.ordered

/-- The tokens of a source are ordered, disjoint and not empty, and they stand on character
boundaries of the source. The end of the source is marked by an empty span. What lies before,
between and behind the tokens are gaps, so a newline is dropped only in a block comment or where
the tokens before it leave parentheses open, and any other newline outside of string literals is a
token of its own. -/
theorem Tokens.tile_source {source : List Char} {tokens : Tokens}
    (h : Tokens.ofSource source = .ok tokens) :
    (tokens.items.Pairwise fun s t => s.range.stop ≤ t.range.start) ∧
    (∀ t ∈ tokens.items, t.range.start < t.range.stop ∧ t.range.stop ≤ Text.width source ∧
      Text.IsBoundary source t.range.start ∧ Text.IsBoundary source t.range.stop) ∧
    tokens.endRange = ⟨Text.width source, Text.width source⟩ ∧
    (∀ before after, tokens.items = before ++ after →
      ∃ lead gap rest, source = lead ++ gap ++ rest ∧
        Text.width lead = (tokens.gapRange before after).start ∧
        Text.width (lead ++ gap) = (tokens.gapRange before after).stop ∧
        Gap (Token.openAfter before) gap rest) ∧
    ∀ before t after, tokens.items = before ++ t :: after →
      ∃ lead text rest, source = lead ++ text ++ rest ∧ Text.width lead = t.range.start ∧
        Text.width (lead ++ text) = t.range.stop ∧
        Token.Spells (Token.openAfter before) t.kind text := by
  obtain ⟨d, hstop, hlayout⟩ := Tokens.layout_of_ofSource h
  -- A token is the first one behind those in front of it, and spelled as reading it leaves it.
  have htoken : ∀ before t after, tokens.items = before ++ t :: after →
      ∃ lead text rest, source = lead ++ text ++ rest ∧ Text.width lead = t.range.start ∧
        Text.width (lead ++ text) = t.range.stop ∧
        Token.Spells (Token.openAfter before) t.kind text := by
    intro before t after hsplit
    rw [hsplit] at hlayout
    obtain ⟨m, lead, hlead, -, hmore⟩ := hlayout.split
    obtain ⟨gap, n, o, text, hgap, htext, hspells, hrange⟩ := hmore.first_token
    have hbefore := hlead.append hgap
    obtain ⟨hsource, hend⟩ := (hbefore.append htext).ofText
    rw [hrange]
    exact ⟨lead ++ gap, text, o.rest, hsource, hbefore.ofText.2, hend, hspells⟩
  refine ⟨hlayout.ordered, ?_, ?_, ?_, htoken⟩
  · intro t ht
    obtain ⟨before, after, hsplit⟩ := List.append_of_mem ht
    obtain ⟨lead, text, rest, rfl, hstart, hend, hspells⟩ := htoken before t after hsplit
    have hpos : Text.width text ≠ 0 := fun hzero =>
      hspells.ne_nil (Text.width_eq_zero_iff.1 hzero)
    rw [← hstart, ← hend]
    refine ⟨?_, ?_, ?_, Text.isBoundary_width_append (lead ++ text) rest⟩
    · simp only [Text.width_append]
      omega
    · simp only [Text.width_append]
      omega
    · rw [List.append_assoc]
      exact Text.isBoundary_width_append lead (text ++ rest)
  · have hwhole := hlayout.reads.1.ofText.2
    rw [Tokens.endRange, hstop, ← hwhole]
    rfl
  · intro before after hsplit
    rw [hsplit] at hlayout
    obtain ⟨m, lead, hlead, hoffset, hmore⟩ := hlayout.split
    obtain ⟨n, gap, hgap, hgapText, hend⟩ := hmore.first_gap
    obtain ⟨hsource, hwidth⟩ := (hlead.append hgap).ofText
    refine ⟨lead, gap, n.rest, hsource, ?_, ?_, hgapText⟩
    · rw [hlead.ofText.2, hoffset]
      rfl
    · rw [hwidth, hend, ← hstop]
      rfl

namespace Sample

/-- A call over two lines with comments, and a second statement. -/
def spread : List Char :=
  ['f', '(', '\n', '/', '/', ' ', 'é', '\n', '1', ')', '/', '*', '\n', '*', '/', '\n', 'g']

/-- The tokens of the call and the statement. -/
def spreadTokens : Tokens :=
  ⟨[⟨.name "f", ⟨0, 1⟩⟩, ⟨.openParen, ⟨1, 2⟩⟩, ⟨.integer 1, ⟨9, 10⟩⟩, ⟨.closeParen, ⟨10, 11⟩⟩,
    ⟨.newline, ⟨16, 17⟩⟩, ⟨.name "g", ⟨17, 18⟩⟩], 18⟩

theorem ofSource_spread : Tokens.ofSource spread = .ok spreadTokens := by
  with_unfolding_all rfl

end Sample

/-- The gap behind the parenthesis holds both newlines of the call, and the newline behind the block
comment is a token. -/
theorem Tokens.tile_source_spread :
    (∃ lead gap rest, Sample.spread = lead ++ gap ++ rest ∧ Text.width lead = 2 ∧
      Text.width (lead ++ gap) = 9 ∧ Gap 1 gap rest) ∧
    ∃ lead text rest, Sample.spread = lead ++ text ++ rest ∧ Text.width lead = 16 ∧
      Text.width (lead ++ text) = 17 ∧ Token.Spells 0 .newline text := by
  obtain ⟨-, -, -, hgap, htoken⟩ := Tokens.tile_source Sample.ofSource_spread
  exact ⟨hgap (Sample.spreadTokens.items.take 2) (Sample.spreadTokens.items.drop 2) rfl,
    htoken (Sample.spreadTokens.items.take 4) ⟨.newline, ⟨16, 17⟩⟩
      (Sample.spreadTokens.items.drop 5) rfl⟩

end Script

end RegexAudit
