import RegexAudit.Proofs.Pattern.Glyph

/-!
# From a pattern back to its literals

A pattern that is assembled from literals of a source holds what the entries of the literals stand
for, and every span of it is translated to the places of its characters.

## Main definitions

* `fragmentsOf`, `textOf`: the fragments and the characters of some literals.
* `Glyph.between`: the characters between two offsets of a pattern.

## Main statements

* `PatternSource.pattern_ofLiterals`: the pattern is what the literals stand for.
* `PatternSource.ranges_ofLiterals`: a span is translated to the places of its characters.
-/

namespace RegexAudit

open Script

/-- A function that answers for every element of a list answers for the list. -/
theorem mapM_eq_some_map {α β : Type} {f : α → Option β} {g : α → β} {l : List α}
    (h : ∀ x ∈ l, f x = some (g x)) : l.mapM f = some (l.map g) := by
  induction l with
  | nil => rfl
  | cons x l ih =>
    obtain ⟨hx, hl⟩ := List.forall_mem_cons.1 h
    rw [List.mapM_cons, hx, ih hl]
    rfl

namespace Script

/-- Every entry of a literal of a source is well spelled. -/
theorem Tokens.wellSpelled {source : List Char} {tokens : Tokens}
    (h : Tokens.ofSource source = .ok tokens) {l : StringLiteral} (hl : tokens.HasLiteral l)
    {e : Entry} (he : e ∈ l.entries) : e.WellSpelled := by
  obtain ⟨q, c, d, -, -, hstands⟩ := Tokens.exists_entry_stands h hl he
  exact hstands.wellSpelled

/-- A literal without templates stands for its characters. -/
theorem StringLiteral.IsTemplateFree.values? {l : StringLiteral} (h : l.IsTemplateFree) :
    l.values? = some (l.glyphs.map (·.value)) := by
  unfold StringLiteral.values?
  rw [mapM_eq_some_map (g := fun e => e.glyphs.map (·.value))]
  · rw [StringLiteral.glyphs, List.map_flatMap, List.flatMap_def]
    rfl
  · intro e he
    have hkind := h e he
    obtain ⟨kind, text, range⟩ := e
    cases kind with
    | literal => simp [Entry.glyphs]
    | escape value => rfl
    | interpolation => exact absurd rfl hkind

/-- The fragments of some literals, one after the other. -/
def fragmentsOf (literals : List StringLiteral) : List Fragment :=
  (literals.flatMap (·.entries)).map Entry.fragment

/-- The characters of some literals, one after the other. -/
def textOf (literals : List StringLiteral) : List Char :=
  (literals.flatMap StringLiteral.glyphs).map (·.value)

@[simp] theorem fragmentsOf_nil : fragmentsOf [] = [] := rfl

@[simp] theorem fragmentsOf_append (left right : List StringLiteral) :
    fragmentsOf (left ++ right) = fragmentsOf left ++ fragmentsOf right := by
  simp [fragmentsOf]

@[simp] theorem textOf_append (left right : List StringLiteral) :
    textOf (left ++ right) = textOf left ++ textOf right := by
  simp [textOf]

/-- The fragments of literals without templates are those of their entries. -/
theorem mapM_fragments? {literals : List StringLiteral} (h : ∀ l ∈ literals, l.IsTemplateFree) :
    ∃ fragments, literals.mapM StringLiteral.fragments? = some fragments ∧
      fragments.flatten = fragmentsOf literals := by
  refine ⟨literals.map fun l => l.entries.map Entry.fragment, ?_, ?_⟩
  · exact mapM_eq_some_map fun l hl => StringLiteral.fragments?_eq_some.2 ⟨h l hl, rfl⟩
  · rw [fragmentsOf, List.map_flatMap, List.flatMap_def]

end Script

namespace Glyph

/-- The characters that lie between the offsets `lo` and `hi` of a pattern, where the first of the
given characters starts at `start`. -/
def between (lo hi start : Nat) : List Glyph → List Glyph
  | [] => []
  | g :: gs =>
    if lo ≤ start ∧ start + g.value.utf8Size ≤ hi then
      g :: between lo hi (start + g.value.utf8Size) gs
    else between lo hi (start + g.value.utf8Size) gs

theorem between_append (lo hi start : Nat) (xs ys : List Glyph) :
    between lo hi start (xs ++ ys) =
      between lo hi start xs ++ between lo hi (start + Text.width (xs.map (·.value))) ys := by
  induction xs generalizing start with
  | nil => rfl
  | cons g gs ih =>
    rw [List.cons_append, between, between, ih]
    split <;> simp [Nat.add_assoc]

/-- Nothing lies between two offsets that the characters do not reach or have passed. -/
theorem between_eq_nil {lo hi start : Nat} {gs : List Glyph}
    (h : start + Text.width (gs.map (·.value)) ≤ lo ∨ hi ≤ start) :
    between lo hi start gs = [] := by
  induction gs generalizing start with
  | nil => rfl
  | cons g gs ih =>
    have hpos := g.value.utf8Size_pos
    simp only [List.map_cons, Text.width_cons] at h
    have hout : ¬ (lo ≤ start ∧ start + g.value.utf8Size ≤ hi) := by omega
    rw [between, if_neg hout]
    exact ih (by omega)

/-- All characters lie between two offsets that enclose them. -/
theorem between_eq_self {lo hi start : Nat} {gs : List Glyph} (hlo : lo ≤ start)
    (hhi : start + Text.width (gs.map (·.value)) ≤ hi) : between lo hi start gs = gs := by
  induction gs generalizing start with
  | nil => rfl
  | cons g gs ih =>
    simp only [List.map_cons, Text.width_cons] at hhi
    have hin : lo ≤ start ∧ start + g.value.utf8Size ≤ hi := by omega
    rw [between, if_pos hin, ih (by omega) (by omega)]

/-- Between the ends of a part of the characters lies this part. -/
theorem between_split (before within after : List Glyph) :
    between (Text.width (before.map (·.value))) (Text.width ((before ++ within).map (·.value))) 0
      (before ++ within ++ after) = within := by
  have hbefore : between (Text.width (before.map (·.value)))
      (Text.width ((before ++ within).map (·.value))) 0 before = [] :=
    between_eq_nil (.inl (Nat.le_of_eq (Nat.zero_add _)))
  have hwithin : between (Text.width (before.map (·.value)))
      (Text.width ((before ++ within).map (·.value)))
      (0 + Text.width (before.map (·.value))) within = within := by
    refine between_eq_self (Nat.le_of_eq (Nat.zero_add _).symm) ?_
    simp
  have hafter : between (Text.width (before.map (·.value)))
      (Text.width ((before ++ within).map (·.value)))
      (0 + Text.width ((before ++ within).map (·.value))) after = [] :=
    between_eq_nil (.inr (Nat.le_of_eq (Nat.zero_add _).symm))
  rw [between_append, between_append, hbefore, hwithin, hafter, List.nil_append, List.append_nil]

end Glyph

namespace Sample

/-- The literals `"é\n"`, `"""\"""` and `"n"` in this order, joined by plus signs. -/
def source : List Char :=
  ['"', 'é', '\\', 'n', '"', '+', '"', '"', '"', '\\', '"', '"', '"', '+', '"', 'n', '"']

/-- The literals of the source. -/
def literals : List StringLiteral :=
  [⟨false, [⟨.literal, ['é'], ⟨1, 3⟩⟩, ⟨.escape '\n', ['\\', 'n'], ⟨3, 5⟩⟩]⟩,
    ⟨true, [⟨.escape '\\', ['\\'], ⟨10, 11⟩⟩]⟩,
    ⟨false, [⟨.literal, ['n'], ⟨16, 17⟩⟩]⟩]

/-- The tokens of the source. -/
def tokens : Tokens :=
  ⟨[⟨.string literals[0], ⟨0, 6⟩⟩, ⟨.plus, ⟨6, 7⟩⟩, ⟨.string literals[1], ⟨7, 14⟩⟩,
    ⟨.plus, ⟨14, 15⟩⟩, ⟨.string literals[2], ⟨15, 18⟩⟩], 18⟩

theorem ofSource_source : Tokens.ofSource source = .ok tokens := by
  with_unfolding_all rfl

theorem hasLiteral_of_mem : ∀ l ∈ literals, tokens.HasLiteral l ∧ l.IsTemplateFree := by
  intro l hl
  simp only [literals, List.mem_cons, List.not_mem_nil, or_false] at hl
  rcases hl with rfl | rfl | rfl
  · exact ⟨⟨⟨0, 6⟩, by decide⟩, by decide⟩
  · exact ⟨⟨⟨7, 14⟩, by decide⟩, by decide⟩
  · exact ⟨⟨⟨15, 18⟩, by decide⟩, by decide⟩

end Sample

namespace PatternSource

section Entries

variable {es : List Entry}

theorem readable_of_mem (hes : ∀ e ∈ es, e.WellSpelled) :
    ∀ g ∈ es.flatMap Entry.glyphs, g.Readable := by
  intro g hg
  obtain ⟨e, he, hg⟩ := List.mem_flatMap.1 hg
  exact (hes e he).readable g hg

/-- The joined text of entries is that of their characters. -/
theorem join_entries (hes : ∀ e ∈ es, e.WellSpelled) (hkind : ∀ e ∈ es, e.kind ≠ .interpolation) :
    Fragment.join (es.map Entry.fragment) =
      Fragment.join ((es.flatMap Entry.glyphs).map Glyph.fragment) := by
  rw [List.map_flatMap]
  exact Fragment.join_of_refines fun e he => (hes e he).refines (hkind e he)

/-- Decoding the joined text of entries finds their characters. -/
theorem pieces_entries (hes : ∀ e ∈ es, e.WellSpelled)
    (hkind : ∀ e ∈ es, e.kind ≠ .interpolation) :
    Decoded.pieces (Fragment.join (es.map Entry.fragment)) =
      (es.flatMap Entry.glyphs).map Glyph.piece := by
  rw [join_entries hes hkind, Glyph.pieces_join (readable_of_mem hes)]

/-- The pattern of entries consists of their characters. -/
theorem pattern_entries (hes : ∀ e ∈ es, e.WellSpelled)
    (hkind : ∀ e ∈ es, e.kind ≠ .interpolation) :
    (ofFragments (es.map Entry.fragment)).pattern = (es.flatMap Entry.glyphs).map (·.value) := by
  rw [pattern_ofFragments, pieces_entries hes hkind, Decoded.values, List.map_map]
  rfl

theorem spellings_map_piece (gs : List Glyph) :
    Decoded.spellings (gs.map Glyph.piece) = Fragment.join (gs.map Glyph.fragment) := by
  simp [Decoded.spellings, Fragment.join, List.flatMap_map, Glyph.piece]

theorem values_map_piece (gs : List Glyph) :
    Decoded.values (gs.map Glyph.piece) = gs.map (·.value) := by
  simp [Decoded.values, Glyph.piece]

/-- The places of the characters of entries are ordered. -/
theorem ordered_of_mem (hes : ∀ e ∈ es, e.WellSpelled) (hkind : ∀ e ∈ es, e.kind ≠ .interpolation) :
    ∀ g ∈ es.flatMap Entry.glyphs, g.place.start ≤ g.place.stop := by
  intro g hg
  obtain ⟨e, he, hg⟩ := List.mem_flatMap.1 hg
  exact ((hes e he).refines (hkind e he)).ordered.2 g.fragment (List.mem_map_of_mem hg)

/-- The offset in the joined text of the first byte behind some leading characters. -/
theorem offset_entries (hes : ∀ e ∈ es, e.WellSpelled) (hkind : ∀ e ∈ es, e.kind ≠ .interpolation)
    {before after : List Glyph} (hsplit : es.flatMap Entry.glyphs = before ++ after) :
    (ofFragments (es.map Entry.fragment)).offset (Text.width (before.map (·.value))) =
      Text.width (Fragment.join (before.map Glyph.fragment)) := by
  have hpieces : Decoded.pieces (Fragment.join (es.map Entry.fragment)) =
      before.map Glyph.piece ++ after.map Glyph.piece := by
    rw [pieces_entries hes hkind, hsplit, List.map_append]
  have hoffset := offset_of_pieces hpieces
  rwa [values_map_piece, spellings_map_piece] at hoffset

/-- A span of the pattern is translated to the merged places of its characters. -/
theorem ranges_entries (hes : ∀ e ∈ es, e.WellSpelled)
    (hkind : ∀ e ∈ es, e.kind ≠ .interpolation) {before within after : List Glyph}
    (hsplit : es.flatMap Entry.glyphs = before ++ within ++ after) :
    (ofFragments (es.map Entry.fragment)).ranges
        ⟨Text.width (before.map (·.value)), Text.width ((before ++ within).map (·.value))⟩ =
      Span.merge (within.map (·.place)) := by
  have hlo := offset_entries hes hkind (hsplit.trans (List.append_assoc ..))
  have hhi := offset_entries hes hkind hsplit
  have hpos : ∀ f ∈ es.map Entry.fragment, 0 < f.size := by
    intro f hf
    obtain ⟨e, he, rfl⟩ := List.mem_map.1 hf
    exact (hes e he).size_pos
  have hwithin : ∀ f ∈ within.map Glyph.fragment, 0 < f.size ∧ f.range.start ≤ f.range.stop := by
    intro f hf
    obtain ⟨g, hg, rfl⟩ := List.mem_map.1 hf
    have hmem : g ∈ es.flatMap Entry.glyphs := by simp [hsplit, hg]
    exact ⟨(readable_of_mem hes g hmem).size_pos, ordered_of_mem hes hkind g hmem⟩
  have hend : Text.width (Fragment.join ((before ++ within).map Glyph.fragment)) ≤
      Text.width (Fragment.join (es.map Entry.fragment)) := by
    rw [join_entries hes hkind, hsplit]
    simp only [List.map_append, Fragment.join_append, Text.width_append]
    omega
  unfold PatternSource.ranges PatternSource.interval
  dsimp only
  rw [hlo, hhi]
  generalize hlow : Text.width (Fragment.join (before.map Glyph.fragment)) = lo
  generalize hhigh : Text.width (Fragment.join ((before ++ within).map Glyph.fragment)) = hi
    at hend ⊢
  calc (InverseIndex.ofFragments (es.map Entry.fragment)).ranges lo hi
      = Span.merge (Fragment.parts lo hi 0 (es.map Entry.fragment)) := by
        rw [InverseIndex.ranges_ofFragments hpos, Nat.min_eq_left hend]
    _ = Span.merge (Fragment.parts lo hi 0 ((before ++ within ++ after).map Glyph.fragment)) := by
        rw [← hsplit, List.map_flatMap]
        exact Fragment.merge_parts_of_refines (fun e he => (hes e he).refines (hkind e he)) lo hi 0
    _ = Span.merge ((within.map Glyph.fragment).map (·.range)) := by
        rw [← hlow, ← hhigh]
        simp only [List.map_append]
        rw [Fragment.parts_between (after.map Glyph.fragment) hwithin]
    _ = Span.merge (within.map (·.place)) := by
        rw [List.map_map]
        rfl

end Entries

section Literals

variable {source : List Char} {tokens : Tokens} {literals : List StringLiteral}

/-- The entries of literals of a source are well spelled. -/
theorem wellSpelled_of_mem (h : Tokens.ofSource source = .ok tokens)
    (hl : ∀ l ∈ literals, tokens.HasLiteral l ∧ l.IsTemplateFree) :
    ∀ e ∈ literals.flatMap (·.entries), e.WellSpelled := by
  intro e he
  obtain ⟨l, hmem, he⟩ := List.mem_flatMap.1 he
  exact Tokens.wellSpelled h (hl l hmem).1 he

theorem kind_of_mem (hl : ∀ l ∈ literals, l.IsTemplateFree) :
    ∀ e ∈ literals.flatMap (·.entries), e.kind ≠ .interpolation := by
  intro e he
  obtain ⟨l, hmem, he⟩ := List.mem_flatMap.1 he
  exact hl l hmem e he

theorem flatMap_glyphs (literals : List StringLiteral) :
    literals.flatMap StringLiteral.glyphs =
      (literals.flatMap (·.entries)).flatMap Entry.glyphs := by
  rw [List.flatMap_assoc]
  rfl

/-- The pattern of literals of a source consists of their characters. -/
theorem pattern_fragmentsOf (h : Tokens.ofSource source = .ok tokens)
    (hl : ∀ l ∈ literals, tokens.HasLiteral l ∧ l.IsTemplateFree) :
    (ofFragments (fragmentsOf literals)).pattern = textOf literals := by
  rw [fragmentsOf, textOf, flatMap_glyphs]
  exact pattern_entries (wellSpelled_of_mem h hl) (kind_of_mem fun l hmem => (hl l hmem).2)

/-- The pattern of literals without templates is what their entries stand for. -/
theorem pattern_ofLiterals (h : Tokens.ofSource source = .ok tokens)
    (hl : ∀ l ∈ literals, tokens.HasLiteral l ∧ l.IsTemplateFree) :
    ∃ fragments values,
      literals.mapM StringLiteral.fragments? = some fragments ∧
      literals.mapM StringLiteral.values? = some values ∧
      (ofFragments fragments.flatten).pattern = values.flatten := by
  have hfree : ∀ l ∈ literals, l.IsTemplateFree := fun l hmem => (hl l hmem).2
  obtain ⟨fragments, hfragments, hflatten⟩ := mapM_fragments? hfree
  refine ⟨fragments, _, hfragments, mapM_eq_some_map fun l hmem => (hfree l hmem).values?, ?_⟩
  rw [hflatten, pattern_fragmentsOf h hl, textOf, List.map_flatMap, List.flatMap_def]

/-- The backslash that ends the raw literal does not become part of an escape. -/
theorem pattern_ofLiterals_mixed :
    ∃ fragments, Sample.literals.mapM StringLiteral.fragments? = some fragments ∧
      (ofFragments fragments.flatten).pattern = ['é', '\n', '\\', 'n'] := by
  obtain ⟨fragments, values, hfragments, hvalues, hpattern⟩ :=
    pattern_ofLiterals Sample.ofSource_source Sample.hasLiteral_of_mem
  obtain rfl : [['é', '\n'], ['\\'], ['n']] = values := Option.some.inj hvalues
  exact ⟨fragments, hfragments, hpattern⟩

/-- Every span of the pattern of literals without templates is translated to the places of its
characters with neighbours merged, and the source has at each place the spelling of the
character. -/
theorem ranges_ofLiterals (h : Tokens.ofSource source = .ok tokens)
    (hl : ∀ l ∈ literals, tokens.HasLiteral l ∧ l.IsTemplateFree) :
    ∃ fragments,
      literals.mapM StringLiteral.fragments? = some fragments ∧
      (ofFragments fragments.flatten).pattern =
        (literals.flatMap StringLiteral.glyphs).map (·.value) ∧
      (∀ g ∈ literals.flatMap StringLiteral.glyphs,
        Text.slice? source g.place = some g.spelling) ∧
      ∀ lo hi, lo ≤ hi →
        Text.IsBoundary (ofFragments fragments.flatten).pattern lo →
        Text.IsBoundary (ofFragments fragments.flatten).pattern hi →
        (ofFragments fragments.flatten).ranges ⟨lo, hi⟩ =
          Span.merge ((Glyph.between lo hi 0 (literals.flatMap StringLiteral.glyphs)).map
            (·.place)) := by
  have hfree : ∀ l ∈ literals, l.IsTemplateFree := fun l hmem => (hl l hmem).2
  obtain ⟨fragments, hfragments, hflatten⟩ := mapM_fragments? hfree
  refine ⟨fragments, hfragments, ?_⟩
  rw [hflatten, pattern_fragmentsOf h hl]
  refine ⟨rfl, ?_, ?_⟩
  · intro g hg
    obtain ⟨l, hmem, hg⟩ := List.mem_flatMap.1 hg
    obtain ⟨e, he, hg⟩ := List.mem_flatMap.1 hg
    obtain ⟨q, c, d, -, hc, hstands⟩ := Tokens.exists_entry_stands h (hl l hmem).1 he
    exact hstands.slice?_glyph hc hg
  · intro lo hi hle hlo hhi
    obtain ⟨before, within, after, hsplit, rfl, rfl⟩ :=
      Text.exists_between_of_isBoundary hle hlo hhi
    rw [hsplit, Glyph.between_split]
    rw [flatMap_glyphs] at hsplit
    exact ranges_entries (wellSpelled_of_mem h hl) (kind_of_mem hfree) hsplit

/-- The places of `é` and the escape behind it touch, and those in the other literals do not. -/
theorem ranges_ofLiterals_mixed :
    ∃ fragments, Sample.literals.mapM StringLiteral.fragments? = some fragments ∧
      (ofFragments fragments.flatten).ranges ⟨0, 4⟩ = [⟨1, 5⟩, ⟨10, 11⟩] := by
  obtain ⟨fragments, hfragments, hpattern, -, hranges⟩ :=
    ranges_ofLiterals Sample.ofSource_source Sample.hasLiteral_of_mem
  refine ⟨fragments, hfragments, ?_⟩
  rw [hpattern] at hranges
  rw [hranges 0 4 (by decide) (by decide) (by decide)]
  with_unfolding_all rfl

end Literals

end PatternSource

end RegexAudit
