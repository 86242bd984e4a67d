import Mathlib.Data.List.Chain
import RegexAudit.Proofs.Pattern.Places

/-!
# The entries of a literal

The entries of a string literal make up what stands between its quotes, one behind the other and
none of them empty. Plain characters that follow one another are one entry: a run of them ends
only where an escape, a template or the closing quote begins.

## Main definitions

* `Span.Fills`: spans that are not empty and follow one another between two offsets.
* `Quote.Stops`: the text with which a run of plain characters does not go on.
* `StringLiteral.IsTiled`: a literal and its entries at their places in a source.

## Main statements

* `Entry.next_cases`: what one reading step finds.
* `StringLiteral.read_alternates`: no two runs of plain characters follow one another.
* `Tokens.isTiled_of_mem`: every literal of a source.
-/

namespace RegexAudit

/-- The spans follow one another without a gap from one offset to another, and none is empty. -/
def Span.Fills (lo hi : Nat) : List Span → Prop
  | [] => lo = hi
  | s :: spans => s.start = lo ∧ s.start < s.stop ∧ Fills s.stop hi spans

namespace Script

/-- The plain characters of a literal stop in front of the text. -/
def Quote.Stops (q : Quote) : List Char → Prop
  | [] => True
  | c :: cs => q.interrupts c cs = true

theorem Quote.run_stops (q : Quote) (read s : List Char) : q.Stops (q.run read s).2 := by
  fun_induction Quote.run q read s with
  | case1 => trivial
  | case2 read c cs hstops => exact hstops
  | case3 read c cs hgoes ih => exact ih

/-- A character at which a run stops begins an escape, a template or the closing mark, or is a
newline that may not stand there. -/
theorem Quote.isSome_close?_of_interrupts {q : Quote} {c : Char} {cs : List Char}
    (h : q.interrupts c cs = true) (hbackslash : c ≠ '\\')
    (hdollar : ¬(c = '$' ∧ templateFollows cs)) (hnewline : ¬(q = .regular ∧ c = '\n')) :
    (q.close? (c :: cs)).isSome = true := by
  simp only [Quote.interrupts, Bool.or_eq_true, Bool.and_eq_true, beq_iff_eq] at h
  rcases h with ((hstops | hstops) | hstops) | hstops
  · exact absurd hstops hbackslash
  · exact absurd hstops hdollar
  · exact hstops
  · exact absurd hstops hnewline

/-- Two entries are not both plain characters. -/
def Entry.Alternate (e e' : Entry) : Prop := ¬(e.kind = .literal ∧ e'.kind = .literal)

namespace Entry

variable {q : Quote} {opened : Nat} {c d : Cursor} {e : Entry}

theorem Stands.plain (h : Stands q c e d) (hkind : e.kind = .literal) : '\\' ∉ e.text := by
  have hspelled := h.spelled
  rw [hkind] at hspelled
  cases hspelled with
  | plain _ hfree => exact hfree

/-- Where a backslash stands, no plain characters begin. -/
theorem Stands.kind_of_backslash {cs : List Char} (h : Stands q c e d)
    (hrest : c.rest = '\\' :: cs) : e.kind ≠ .literal := by
  intro hkind
  have hfree := h.plain hkind
  have hreads := h.reads.rest
  have hne := h.spelled.ne_nil
  rw [hrest] at hreads
  cases htext : e.text with
  | nil => exact hne htext
  | cons ch more =>
    rw [htext] at hreads hfree
    rw [← (List.cons.inj hreads).1] at hfree
    exact hfree List.mem_cons_self

theorem template_kind {cs : List Char} (h : template c cs = .ok (e, d)) : e.kind ≠ .literal := by
  unfold template at h
  split at h
  · split at h
    · simp at h
    · rw [← (Prod.mk.inj (Except.ok.inj h)).1]
      simp
  · rw [← (Prod.mk.inj (Except.ok.inj h)).1]
    simp

/-- An entry is something else than plain characters, or the run of them that begins with a
character at which no run stops, unless the literal is closed there. -/
theorem next_cases (h : next q opened c = .ok (e, d)) :
    e.kind ≠ .literal ∨ ∃ ch cs, c.rest = ch :: cs ∧
      (q.interrupts ch cs = true → (q.close? c.rest).isSome = true) ∧
      d.rest = (q.run [ch] cs).2 := by
  have hstands := next_stands h
  rw [next] at h
  split at h
  · simp at h
  · next ch cs hrest =>
    split at h
    · next hbackslash =>
      rw [hbackslash] at hrest
      exact .inl (hstands.kind_of_backslash hrest)
    · next hbackslash =>
      split at h
      · exact .inl (template_kind h)
      · next hdollar =>
        split at h
        · simp at h
        · next hnewline =>
          refine .inr ⟨ch, cs, hrest, fun hstops => ?_, ?_⟩
          · rw [hrest]
            exact q.isSome_close?_of_interrupts hstops hbackslash hdollar hnewline
          · rw [← (Prod.mk.inj (Except.ok.inj h)).2]
            rfl

theorem next_stops (h : next q opened c = .ok (e, d)) (hkind : e.kind = .literal) :
    q.Stops d.rest := by
  rcases next_cases h with hother | ⟨ch, cs, -, -, hrun⟩
  · exact absurd hkind hother
  · rw [hrun]
    exact q.run_stops [ch] cs

/-- Where plain characters stop, and the literal goes on, they are not continued. -/
theorem kind_of_stops (h : next q opened c = .ok (e, d)) (hopen : q.close? c.rest = none)
    (hstops : q.Stops c.rest) : e.kind ≠ .literal := by
  rcases next_cases h with hother | ⟨ch, cs, hrest, hclose, -⟩
  · exact hother
  · rw [hrest] at hstops
    simp only [hopen, Option.isSome_none, Bool.false_eq_true, imp_false, Bool.not_eq_true] at hclose
    rw [Quote.Stops, hclose] at hstops
    cases hstops

theorem Tile.fills {es : List Entry} (h : Tile q c es d) :
    Span.Fills c.offset d.offset (es.map (·.range)) := by
  induction h with
  | nil c => rfl
  | cons he _ ih =>
    have hpos : Text.width _ ≠ 0 := fun hzero =>
      he.spelled.ne_nil (Text.width_eq_zero_iff.1 hzero)
    have hoffset := he.reads.offset
    rw [List.map_cons, Span.Fills, he.range]
    refine ⟨rfl, ?_, ih⟩
    dsimp only [Cursor.spanTo]
    omega

/-- Every entry of a tiling in a source is the text at its range, and plain characters contain no
backslash. -/
theorem Tile.slice?_entry {source : List Char} {es : List Entry} (h : Tile q c es d)
    (hc : c.In source) (he : e ∈ es) :
    Text.slice? source e.range = some e.text ∧ (e.kind = .literal → '\\' ∉ e.text) := by
  obtain ⟨c', d', hc', hstands⟩ := h.exists_stands hc he
  refine ⟨?_, hstands.plain⟩
  rw [hstands.range]
  exact hstands.reads.slice? hc'

end Entry

/-- No two runs of plain characters follow one another in what is read. -/
theorem StringLiteral.read_alternates {q : Quote} {opened : Nat} {before : List Entry}
    {c d : Cursor} {l : StringLiteral} (h : StringLiteral.read q opened before c = .ok (l, d))
    (hbefore : before.reverse.IsChain Entry.Alternate)
    (hlast : ∀ e ∈ before.head?, e.kind = .literal → q.Stops c.rest) :
    l.entries.IsChain Entry.Alternate := by
  fun_induction StringLiteral.read q opened before c with
  | case1 before c rest hclose =>
    obtain ⟨rfl, rfl⟩ := Prod.mk.inj (Except.ok.inj h)
    exact hbefore
  | case2 => simp at h
  | case3 before c hopen e m hnext ih =>
    refine ih h ?_ ?_
    · rw [List.reverse_cons]
      refine hbefore.append (List.isChain_singleton e) ?_
      -- Behind plain characters stands a text with which they do not go on.
      rintro e' he' _ ⟨rfl⟩ ⟨hkind', hkind⟩
      rw [List.getLast?_reverse] at he'
      exact Entry.kind_of_stops hnext hopen (hlast e' he' hkind') hkind
    · rintro _ ⟨rfl⟩ hkind
      exact Entry.next_stops hnext hkind

theorem Lexeme.read_string {c d : Cursor} {ch : Char} {cs : List Char} {l : StringLiteral}
    (hrest : c.rest = ch :: cs) (h : read c ch cs = .ok (.token (.string l), d)) :
    ∃ q first, StringLiteral.read q c.offset [] first = .ok (l, d) := by
  have hquote : ch = '"' := by
    obtain ⟨q, hq⟩ := (read_stands hrest h).literal l rfl
    obtain ⟨first, last, hopen, -, -⟩ := hq.body
    have hmark := hopen.rest
    rw [hrest] at hmark
    cases q <;> exact (List.cons.inj hmark).1
  subst hquote
  rw [read_quote, string] at h
  dsimp only at h
  split at h
  · simp at h
  · next hread =>
    obtain ⟨heq, rfl⟩ := Prod.mk.inj (Except.ok.inj h)
    cases heq
    exact ⟨_, _, hread⟩

theorem Tokens.alternates_of_mem {source : List Char} {tokens : Tokens}
    (h : Tokens.ofSource source = .ok tokens) {l : StringLiteral} {range : Span}
    (hmem : ⟨.string l, range⟩ ∈ tokens.items) : l.entries.IsChain Entry.Alternate := by
  have hstring : ∀ t ∈ tokens.items,
      ∀ l, t.kind = .string l → l.entries.IsChain Entry.Alternate := by
    refine Tokens.forall_mem h ?_
    rintro c ch cs kind d - hrest hread l rfl
    obtain ⟨q, first, hread⟩ := Lexeme.read_string hrest hread
    exact StringLiteral.read_alternates hread .nil (by simp)
  exact hstring _ hmem l rfl

namespace StringLiteral

/-- The kind of the quotes around a literal. -/
def quote (l : StringLiteral) : Quote := if l.raw then .raw else .regular

/-- The span between the quotes of a literal that stands at a range. -/
def inside (l : StringLiteral) (range : Span) : Span :=
  ⟨range.start + l.margin, range.stop - l.margin⟩

/-- The literal stands at the range of the source, and its entries make up what is between its
quotes. -/
structure IsTiled (source : List Char) (range : Span) (l : StringLiteral) : Prop where
  opening : Text.slice? source ⟨range.start, (l.inside range).start⟩ = some l.quote.mark
  closing : Text.slice? source ⟨(l.inside range).stop, range.stop⟩ = some l.quote.mark
  fills : Span.Fills (l.inside range).start (l.inside range).stop (l.entries.map (·.range))
  whole : Text.slice? source (l.inside range) = some (l.entries.flatMap (·.text))
  written : ∀ e ∈ l.entries, Text.slice? source e.range = some e.text
  alternates : l.entries.IsChain Entry.Alternate
  plain : ∀ e ∈ l.entries, e.kind = .literal → '\\' ∉ e.text

theorem Stands.quote_eq {q : Quote} {c d : Cursor} {l : StringLiteral} (h : l.Stands q c d) :
    l.quote = q := by
  rw [quote, h.raw]
  cases q <;> rfl

end StringLiteral

/-- The entries of every literal of a source are not empty, follow one another and make up exactly
what stands between the quotes of the literal. Each of them is the text at its range. Plain
characters contain no backslash, and no two runs of them follow one another. -/
theorem Tokens.isTiled_of_mem {source : List Char} {tokens : Tokens}
    (h : Tokens.ofSource source = .ok tokens) {l : StringLiteral} {range : Span}
    (hmem : ⟨.string l, range⟩ ∈ tokens.items) : l.IsTiled source range := by
  obtain ⟨c, d, hc, hstands, hrange⟩ := Tokens.standsIn_of_mem h hmem
  obtain ⟨q, hq⟩ := hstands.literal l rfl
  obtain ⟨first, last, hopen, htile, hclose⟩ := hq.body
  obtain rfl : range = c.spanTo d := hrange
  have hfirst := hopen.in_source hc
  have hinside : l.inside (c.spanTo d) = first.spanTo last := by
    have hstart := hopen.offset
    have hstop := hclose.offset
    rw [hq.margin] at hstart hstop
    simp only [StringLiteral.inside, Cursor.spanTo, Span.mk.injEq]
    omega
  refine ⟨?_, ?_, ?_, ?_, fun e he => (htile.slice?_entry hfirst he).1,
    Tokens.alternates_of_mem h hmem, fun e he => (htile.slice?_entry hfirst he).2⟩
  · rw [hinside, hq.quote_eq]
    exact hopen.slice? hc
  · rw [hinside, hq.quote_eq]
    exact hclose.slice? (htile.reads.in_source hfirst)
  · rw [hinside]
    exact htile.fills
  · rw [hinside]
    exact htile.reads.slice? hfirst

namespace Mixed

/-- The source `"ab\n$x!"`. -/
def source : List Char := ['"', 'a', 'b', '\\', 'n', '$', 'x', '!', '"']

/-- The literal of the source. -/
def literal : StringLiteral :=
  ⟨false, [⟨.literal, ['a', 'b'], ⟨1, 3⟩⟩, ⟨.escape '\n', ['\\', 'n'], ⟨3, 5⟩⟩,
    ⟨.interpolation, ['$', 'x'], ⟨5, 7⟩⟩, ⟨.literal, ['!'], ⟨7, 8⟩⟩]⟩

/-- The tokens of the source. -/
def tokens : Tokens := ⟨[⟨.string literal, ⟨0, 9⟩⟩], 9⟩

theorem ofSource_source : Tokens.ofSource source = .ok tokens := by
  with_unfolding_all rfl

end Mixed

/-- Two runs of plain characters with an escape and a template between them. -/
theorem Tokens.isTiled_of_mem_mixed :
    Tokens.ofSource Mixed.source = .ok Mixed.tokens ∧
      ⟨.string Mixed.literal, ⟨0, 9⟩⟩ ∈ Mixed.tokens.items ∧
      Mixed.literal.IsTiled Mixed.source ⟨0, 9⟩ := by
  have hmem : ⟨.string Mixed.literal, ⟨0, 9⟩⟩ ∈ Mixed.tokens.items := List.mem_singleton.2 rfl
  exact ⟨Mixed.ofSource_source, hmem, Tokens.isTiled_of_mem Mixed.ofSource_source hmem⟩

end Script

end RegexAudit
