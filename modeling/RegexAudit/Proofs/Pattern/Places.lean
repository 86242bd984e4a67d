import RegexAudit.Proofs.Pattern.Origin
import RegexAudit.Proofs.Script.Layout

/-!
# Spans of a pattern lead into its literals

A span of a pattern is translated to spans of the source that begin and end between characters and
lie strictly inside the quotes of one of the literals. The marks around the literals keep spans of
different literals from being merged.

## Main definitions

* `StringLiteral.margin`: the width of the quotes on either side of a literal.
* `Span.InLiteral`: a span lies strictly inside the quotes of a literal.
* `Span.IsPlace`: a span covers a part of the source inside one of some literals.
* `Span.Points`: a span of a pattern has boundaries or offsets past the end as its ends, or holds
  nothing.

## Main statements

* `Tokens.cover_isPlace`: places that touch lie in one literal.
* `PatternSource.ranges_isPlace`: a span of a pattern is translated to places.
-/

namespace RegexAudit

open Script

namespace Script

/-- The width of the quotes on either side of a literal. -/
def StringLiteral.margin (l : StringLiteral) : Nat := if l.raw then 3 else 1

end Script

namespace Span

/-- The span lies strictly inside the quotes of a literal among the tokens. -/
def InLiteral (tokens : List Token) (l : StringLiteral) (span : Span) : Prop :=
  ∃ range, ⟨.string l, range⟩ ∈ tokens ∧ range.start + l.margin ≤ span.start ∧
    span.stop + l.margin ≤ range.stop

/-- The span covers a part of the source strictly inside the quotes of one of some literals. -/
structure IsPlace (source : List Char) (tokens : List Token) (literals : List StringLiteral)
    (span : Span) : Prop where
  covers : ∃ part, Text.slice? source span = some part
  inside : ∃ l ∈ literals, span.InLiteral tokens l

/-- Each end of the span of a pattern is a character boundary or lies past the end, or else the span
is empty or inverted. -/
def Points (pattern : List Char) (span : Span) : Prop :=
  span.stop ≤ span.start ∨
    ((Text.IsBoundary pattern span.start ∨ Text.width pattern ≤ span.start) ∧
      (Text.IsBoundary pattern span.stop ∨ Text.width pattern ≤ span.stop))

end Span

namespace Text

variable {s part part' : List Char} {span span' : Span}

theorem ordered_of_slice? (h : slice? s span = some part) : span.start ≤ span.stop := by
  obtain ⟨before, after, -, hstart, hstop⟩ := slice?_eq_some_iff.1 h
  rw [← hstart, ← hstop, width_append]
  exact Nat.le_add_right ..

/-- The parts that two touching spans cover follow one another. -/
theorem slice?_cover (h : slice? s span = some part) (h' : slice? s span' = some part')
    (htouch : span.stop = span'.start) : slice? s (span.cover span') = some (part ++ part') := by
  rw [Span.cover_of_touch (ordered_of_slice? h) (ordered_of_slice? h') htouch]
  exact slice?_append h (by rwa [htouch])

end Text

theorem Glyph.between_of_mem_plain {offset : Nat} {text : List Char} {g : Glyph}
    (h : g ∈ plain offset text) :
    offset ≤ g.place.start ∧ g.place.stop ≤ offset + Text.width text := by
  induction text generalizing offset with
  | nil => simp [plain] at h
  | cons c cs ih =>
    rw [Text.width_cons]
    rcases List.mem_cons.1 h with rfl | h
    · dsimp only
      omega
    · have := ih h
      omega

namespace Script

theorem StringLiteral.Stands.margin {q : Quote} {c d : Cursor} {l : StringLiteral}
    (h : StringLiteral.Stands q c l d) : Text.width q.mark = l.margin := by
  rw [StringLiteral.margin, h.raw]
  cases q <;> rfl

theorem Entry.Tile.between {q : Quote} {c d : Cursor} {es : List Entry} (h : Entry.Tile q c es d)
    {e : Entry} (he : e ∈ es) : c.offset ≤ e.range.start ∧ e.range.stop ≤ d.offset := by
  induction h with
  | nil => simp at he
  | cons hfirst hmore ih =>
    have hstep := hfirst.reads.offset
    have hrest := hmore.reads.offset
    rcases List.mem_cons.1 he with rfl | he
    · rw [hfirst.range]
      dsimp only [Cursor.spanTo]
      omega
    · have := ih he
      omega

theorem Entry.WellSpelled.between {e : Entry} (h : e.WellSpelled) {g : Glyph} (hg : g ∈ e.glyphs) :
    e.range.start ≤ g.place.start ∧ g.place.stop ≤ e.range.stop := by
  have hstop := h.stop
  obtain ⟨kind, text, range⟩ := e
  cases kind with
  | literal =>
    rw [hstop]
    exact Glyph.between_of_mem_plain hg
  | escape value =>
    obtain rfl : g = ⟨value, text, range⟩ := by simpa [Entry.glyphs] using hg
    exact ⟨Nat.le_refl _, Nat.le_refl _⟩
  | interpolation => simp [Entry.glyphs] at hg

namespace Tokens

variable {source : List Char} {tokens : Tokens} {literals : List StringLiteral}

/-- Two tokens of a source are the same or do not overlap. -/
theorem eq_or_apart (h : Tokens.ofSource source = .ok tokens) {t t' : Token}
    (ht : t ∈ tokens.items) (ht' : t' ∈ tokens.items) :
    t = t' ∨ t.range.stop ≤ t'.range.start ∨ t'.range.stop ≤ t.range.start := by
  have hordered := List.pairwise_iff_getElem.1 (Tokens.ordered h)
  obtain ⟨i, hi, rfl⟩ := List.getElem_of_mem ht
  obtain ⟨j, hj, rfl⟩ := List.getElem_of_mem ht'
  rcases Nat.lt_trichotomy i j with hlt | rfl | hlt
  · exact .inr (.inl (hordered i j hi hj hlt))
  · exact .inl rfl
  · exact .inr (.inr (hordered j i hj hi hlt))

theorem inLiteral_of_mem_glyphs (h : Tokens.ofSource source = .ok tokens) {l : StringLiteral}
    (hl : tokens.HasLiteral l) {g : Glyph} (hg : g ∈ l.glyphs) :
    g.place.InLiteral tokens.items l := by
  obtain ⟨range, hmem⟩ := hl
  obtain ⟨e, he, hg⟩ := List.mem_flatMap.1 hg
  obtain ⟨c, d, -, hstands, hrange⟩ := Tokens.standsIn_of_mem h hmem
  obtain ⟨q, hq⟩ := hstands.literal l rfl
  obtain ⟨first, last, hopen, htile, hclose⟩ := hq.body
  have hentry := htile.between he
  have hplace := (Tokens.wellSpelled h ⟨range, hmem⟩ he).between hg
  have hfirst := hopen.offset
  have hlast := hclose.offset
  rw [hq.margin] at hfirst hlast
  obtain rfl : range = c.spanTo d := hrange
  refine ⟨c.spanTo d, hmem, ?_⟩
  dsimp only [Cursor.spanTo]
  omega

theorem isPlace_of_mem_glyphs (h : Tokens.ofSource source = .ok tokens)
    (hl : ∀ l ∈ literals, tokens.HasLiteral l) {g : Glyph}
    (hg : g ∈ literals.flatMap StringLiteral.glyphs) :
    g.place.IsPlace source tokens.items literals := by
  obtain ⟨l, hmem, hg⟩ := List.mem_flatMap.1 hg
  refine ⟨?_, l, hmem, inLiteral_of_mem_glyphs h (hl l hmem) hg⟩
  obtain ⟨e, he, hg⟩ := List.mem_flatMap.1 hg
  obtain ⟨q, c, d, -, hc, hstands⟩ := Tokens.exists_entry_stands h (hl l hmem) he
  exact ⟨g.spelling, hstands.slice?_glyph hc hg⟩

/-- Places that touch lie in one literal, for there are quotes around every literal. -/
theorem cover_isPlace (h : Tokens.ofSource source = .ok tokens) {s t : Span}
    (hs : s.IsPlace source tokens.items literals) (ht : t.IsPlace source tokens.items literals)
    (htouch : s.stop = t.start) : (s.cover t).IsPlace source tokens.items literals := by
  obtain ⟨part, hpart⟩ := hs.covers
  obtain ⟨part', hpart'⟩ := ht.covers
  have hcovers := Text.slice?_cover hpart hpart' htouch
  refine ⟨⟨_, hcovers⟩, ?_⟩
  have hsle := Text.ordered_of_slice? hpart
  have htle := Text.ordered_of_slice? hpart'
  obtain ⟨l, hl, range, hmem, hlo, hhi⟩ := hs.inside
  obtain ⟨l', -, range', hmem', hlo', hhi'⟩ := ht.inside
  have hpos : 0 < l.margin := by
    unfold StringLiteral.margin
    split <;> omega
  -- Of two different literals one stops in front of the other, and a quote lies between.
  rcases eq_or_apart h hmem hmem' with hsame | happart | happart
  · simp only [Token.mk.injEq, TokenKind.string.injEq] at hsame
    obtain ⟨rfl, rfl⟩ := hsame
    refine ⟨l, hl, range, hmem, ?_⟩
    rw [Span.cover_of_touch hsle htle htouch]
    exact ⟨hlo, hhi'⟩
  · dsimp only at happart
    omega
  · dsimp only at happart
    omega

end Tokens

end Script

namespace PatternSource

variable {source : List Char} {tokens : Tokens} {literals : List StringLiteral}

theorem ranges_eq_nil (fragments : List Fragment) {span : Span} (h : span.stop ≤ span.start) :
    (ofFragments fragments).ranges span = [] := by
  have hoffset := offset_mono fragments h
  unfold ranges interval InverseIndex.ranges
  exact if_pos (by dsimp only; omega)

/-- An offset past the end of a pattern stands for the end. -/
theorem exists_boundary {fragments : List Fragment} {n : Nat}
    (h : Text.IsBoundary (ofFragments fragments).pattern n ∨
      Text.width (ofFragments fragments).pattern ≤ n) :
    ∃ m, Text.IsBoundary (ofFragments fragments).pattern m ∧
      (ofFragments fragments).offset n = (ofFragments fragments).offset m := by
  rcases h with h | h
  · exact ⟨n, h, rfl⟩
  · refine ⟨Text.width (ofFragments fragments).pattern, ?_, offset_past fragments h⟩
    simpa using Text.isBoundary_width_append (ofFragments fragments).pattern []

/-- A span of the pattern of some literals is translated to places inside these literals. -/
theorem ranges_isPlace (h : Tokens.ofSource source = .ok tokens)
    (hl : ∀ l ∈ literals, tokens.HasLiteral l ∧ l.IsTemplateFree) {span : Span}
    (hspan : span.Points (ofFragments (fragmentsOf literals)).pattern) :
    ∀ s ∈ (ofFragments (fragmentsOf literals)).ranges span,
      s.IsPlace source tokens.items literals := by
  rcases hspan with hempty | ⟨hstart, hstop⟩
  · rw [ranges_eq_nil _ hempty]
    simp
  · obtain ⟨lo, hlo, hstart⟩ := exists_boundary hstart
    obtain ⟨hi, hhi, hstop⟩ := exists_boundary hstop
    have hranges : (ofFragments (fragmentsOf literals)).ranges span =
        (ofFragments (fragmentsOf literals)).ranges ⟨lo, hi⟩ := by
      simp only [ranges, interval, hstart, hstop]
    rw [hranges]
    -- Cut down to the pattern, the span may be inverted after all.
    rcases Nat.lt_or_ge hi lo with hlt | hle
    · rw [ranges_eq_nil _ (Nat.le_of_lt hlt)]
      simp
    · rw [pattern_fragmentsOf h hl, textOf, flatMap_glyphs] at hlo hhi
      obtain ⟨before, within, after, hsplit, rfl, rfl⟩ :=
        Text.exists_between_of_isBoundary hle hlo hhi
      rw [fragmentsOf, ranges_entries (wellSpelled_of_mem h hl)
        (kind_of_mem fun l hmem => (hl l hmem).2) hsplit]
      refine Span.merge_induction (fun s t hs ht htouch => Tokens.cover_isPlace h hs ht htouch) ?_
      intro s hs
      obtain ⟨g, hg, rfl⟩ := List.mem_map.1 hs
      refine Tokens.isPlace_of_mem_glyphs h (fun l hmem => (hl l hmem).1) ?_
      rw [flatMap_glyphs, hsplit]
      simp [hg]

end PatternSource

end RegexAudit
