import RegexAudit.Proofs.Pattern.Decoding
import RegexAudit.Proofs.Pattern.Translation
import RegexAudit.Proofs.Script.Tokens

/-!
# Pattern characters and where they are spelled

A string literal without templates stands for a sequence of characters, and each of them has its
own spelling in the source. Joining the fragments of literals, decoding the joined text and
translating back keeps these characters and their places.

## Main definitions

* `Glyph`: a character with its spelling in the source and the place of the spelling.
* `StringLiteral.glyphs`: the characters of a literal.
* `StringLiteral.IsTemplateFree`: no entry of a literal is a template.
* `Glyph.Readable`: decoding finds a character in front of any text.

## Main statements

* `Entry.Stands.slice?_glyph`: the source has at the place of a character its spelling.
* `Entry.WellSpelled.readable`: decoding finds every character of an entry.
* `Entry.WellSpelled.refines`: the fragment of an entry can be replaced by those of its characters.
-/

namespace RegexAudit

/-- One character of a pattern with its spelling in the source and the place of the spelling. -/
structure Glyph where
  value : Char
  spelling : List Char
  place : Span
deriving DecidableEq, Repr

namespace Glyph

/-- The fragment that the spelling of one character is. -/
def fragment (g : Glyph) : Fragment := ⟨g.spelling, g.place, g.value == '\\'⟩

/-- The piece of a joined text that a character contributes. -/
def piece (g : Glyph) : Decoded.Piece := ⟨g.value, g.fragment.normalized⟩

/-- The characters of a plain text that starts at an offset, each at its own bytes. -/
def plain (offset : Nat) : List Char → List Glyph
  | [] => []
  | c :: cs => ⟨c, [c], ⟨offset, offset + c.utf8Size⟩⟩ :: plain (offset + c.utf8Size) cs

end Glyph

namespace Script

/-- The characters of an entry. A plain character is spelled by its own bytes and an escaped one by
the whole entry. -/
def Entry.glyphs (e : Entry) : List Glyph :=
  match e.kind with
  | .literal => Glyph.plain e.range.start e.text
  | .escape value => [⟨value, e.text, e.range⟩]
  | .interpolation => []

/-- The characters of a literal. -/
def StringLiteral.glyphs (l : StringLiteral) : List Glyph := l.entries.flatMap Entry.glyphs

/-- No entry of the literal is a template. -/
def StringLiteral.IsTemplateFree (l : StringLiteral) : Prop :=
  ∀ e ∈ l.entries, e.kind ≠ .interpolation

instance (l : StringLiteral) : Decidable l.IsTemplateFree :=
  inferInstanceAs (Decidable (∀ e ∈ l.entries, e.kind ≠ .interpolation))

/-- The fragment of an entry that is not a template. -/
def Entry.fragment (e : Entry) : Fragment :=
  ⟨e.text, e.range, match e.kind with
    | .escape value => value == '\\'
    | _ => false⟩

/-- The entry is spelled as entries are, over the whole of its range. -/
structure Entry.WellSpelled (e : Entry) : Prop where
  spelled : ∃ q, Quote.Spells q e.kind e.text
  stop : e.range.stop = e.range.start + Text.width e.text

theorem Entry.Stands.wellSpelled {q : Quote} {c d : Cursor} {e : Entry} (h : Entry.Stands q c e d) :
    e.WellSpelled := by
  refine ⟨⟨q, h.spelled⟩, ?_⟩
  rw [h.range]
  exact h.reads.offset

theorem Entry.fragment?_eq_some {e : Entry} {f : Fragment} :
    e.fragment? = some f ↔ e.kind ≠ .interpolation ∧ f = e.fragment := by
  obtain ⟨kind, text, range⟩ := e
  cases kind <;> simp [Entry.fragment?, Entry.fragment, eq_comm]

/-- Exactly the literals without templates have fragments, which are those of their entries. -/
theorem StringLiteral.fragments?_eq_some {l : StringLiteral} {fragments : List Fragment} :
    l.fragments? = some fragments ↔
      l.IsTemplateFree ∧ fragments = l.entries.map Entry.fragment := by
  obtain ⟨raw, entries⟩ := l
  unfold StringLiteral.fragments? StringLiteral.IsTemplateFree
  dsimp only
  induction entries generalizing fragments with
  | nil => simp [eq_comm]
  | cons e es ih =>
    simp only [List.mapM_cons, bind, Option.bind_eq_some_iff, Entry.fragment?_eq_some, ih, pure,
      Option.some.injEq, List.forall_mem_cons, List.map_cons]
    constructor
    · rintro ⟨_, ⟨he, rfl⟩, _, ⟨hes, rfl⟩, rfl⟩
      exact ⟨⟨he, hes⟩, rfl⟩
    · rintro ⟨⟨he, hes⟩, rfl⟩
      exact ⟨_, ⟨he, rfl⟩, _, ⟨hes, rfl⟩, rfl⟩

end Script

namespace Glyph

@[simp] theorem plain_values (offset : Nat) (text : List Char) :
    (plain offset text).map (·.value) = text := by
  induction text generalizing offset with
  | nil => rfl
  | cons c cs ih => simp [plain, ih]

/-- The characters of a text without backslashes join to the text. -/
theorem join_plain {text : List Char} (h : '\\' ∉ text) (offset : Nat) :
    Fragment.join ((plain offset text).map fragment) = text := by
  induction text generalizing offset with
  | nil => rfl
  | cons c cs ih =>
    rw [List.mem_cons, not_or] at h
    have hc : (c == '\\') = false := by simpa using Ne.symm h.1
    simp [plain, fragment, Fragment.normalized, hc, ih h.2]

/-- The first character of a plain text lies in an interval with its own bytes. -/
theorem parts_plain_cons {c : Char} (hc : c ≠ '\\') (lo hi start offset : Nat) (cs : List Char) :
    Fragment.parts lo hi start ((plain offset (c :: cs)).map fragment) =
      (if max lo start < min hi (start + c.utf8Size) then
        [⟨offset + (max lo start - start), offset + (min hi (start + c.utf8Size) - start)⟩]
      else []) ++
        Fragment.parts lo hi (start + c.utf8Size)
          ((plain (offset + c.utf8Size) cs).map fragment) := by
  let f : Fragment := ⟨[c], ⟨offset, offset + c.utf8Size⟩, c == '\\'⟩
  have hsize : f.size = c.utf8Size := by simp [f, Fragment.size, Fragment.normalized, hc]
  have hverbatim : f.size = f.range.length := by simp [hsize, f, Span.length]
  have hpart := Fragment.part_of_verbatim hverbatim lo hi start
  rw [hsize] at hpart
  rw [← hpart, plain, List.map_cons, Fragment.parts]
  exact congrArg (fun n => f.part lo hi start ++ Fragment.parts lo hi (start + n) _) hsize

/-- The part of a plain text in an interval is made up of the parts of its characters. -/
theorem parts_plain {text : List Char} (h : '\\' ∉ text) (lo hi start offset : Nat) :
    (min hi (start + Text.width text) ≤ max lo start ∧
      Fragment.parts lo hi start ((plain offset text).map fragment) = []) ∨
    (max lo start < min hi (start + Text.width text) ∧
      Span.Tiles
        ⟨offset + (max lo start - start), offset + (min hi (start + Text.width text) - start)⟩
        (Fragment.parts lo hi start ((plain offset text).map fragment))) := by
  induction text generalizing start offset with
  | nil =>
    left
    refine ⟨?_, rfl⟩
    rw [Text.width_nil]
    omega
  | cons c cs ih =>
    rw [List.mem_cons, not_or] at h
    have hpos := c.utf8Size_pos
    have hrest := ih h.2 (start + c.utf8Size) (offset + c.utf8Size)
    have hle : start + c.utf8Size ≤ start + c.utf8Size + Text.width cs := Nat.le_add_right ..
    rw [parts_plain_cons (Ne.symm h.1), Text.width_cons, ← Nat.add_assoc]
    generalize Fragment.parts lo hi (start + c.utf8Size) _ = rest at hrest ⊢
    generalize start + c.utf8Size + Text.width cs = stop at hrest hle ⊢
    generalize c.utf8Size = size at hpos hrest hle ⊢
    by_cases hmeets : max lo start < min hi (start + size)
    · rw [if_pos hmeets]
      right
      refine ⟨by omega, ?_⟩
      rcases hrest with ⟨hend, rfl⟩ | ⟨hgoes, htiles⟩
      · have hstop : min hi stop = min hi (start + size) := by omega
        rw [hstop]
        exact .single (by dsimp only; omega)
      · -- The interval goes on behind the character, so the character ends where the rest begins.
        have hstop : offset + size + (min hi stop - (start + size)) =
            offset + (min hi stop - start) := by omega
        rw [hstop] at htiles
        exact .cons (s := ⟨offset + (max lo start - start), _⟩) (by dsimp only; omega)
          (by dsimp only; omega) htiles
    · rw [if_neg hmeets, List.nil_append]
      rcases hrest with ⟨hend, rfl⟩ | ⟨hgoes, htiles⟩
      · exact .inl ⟨by omega, rfl⟩
      · -- The interval begins behind the character, so the rest is not moved.
        have hstart : offset + size + (max lo (start + size) - (start + size)) =
            offset + (max lo start - start) := by omega
        have hstop : offset + size + (min hi stop - (start + size)) =
            offset + (min hi stop - start) := by omega
        rw [hstart, hstop] at htiles
        exact .inr ⟨by omega, htiles⟩

/-- In front of any text, decoding finds the character as a piece of its own. -/
def Readable (g : Glyph) : Prop :=
  ∀ rest, Decoded.pieces (g.fragment.normalized ++ rest) = g.piece :: Decoded.pieces rest

/-- A character that decoding finds contributes some text. -/
theorem Readable.size_pos {g : Glyph} (h : g.Readable) : 0 < g.fragment.size := by
  have hne : g.fragment.normalized ≠ [] := by
    intro hnil
    have hpieces := h []
    simp [hnil] at hpieces
  exact Nat.pos_of_ne_zero (fun hzero => hne (Text.width_eq_zero_iff.1 hzero))

/-- The pieces of the joined text are those of the characters. -/
theorem pieces_join {gs : List Glyph} (h : ∀ g ∈ gs, g.Readable) :
    Decoded.pieces (Fragment.join (gs.map fragment)) = gs.map piece := by
  induction gs with
  | nil => simp
  | cons g gs ih =>
    obtain ⟨hg, hgs⟩ := List.forall_mem_cons.1 h
    rw [List.map_cons, Fragment.join_cons, hg, ih hgs]
    rfl

theorem mem_plain {g : Glyph} {offset : Nat} {text : List Char} (h : g ∈ plain offset text) :
    g.value ∈ text ∧ g.spelling = [g.value] ∧ g.place.start ≤ g.place.stop := by
  induction text generalizing offset with
  | nil => simp [plain] at h
  | cons c cs ih =>
    rcases List.mem_cons.1 h with rfl | h
    · simp
    · obtain ⟨hmem, hrest⟩ := ih h
      exact ⟨List.mem_cons_of_mem c hmem, hrest⟩

/-- The source has at the place of a plain character this character. -/
theorem slice?_plain {s text : List Char} {c d : Cursor} (h : c.Reads text d) (hc : c.In s)
    {g : Glyph} (hg : g ∈ plain c.offset text) : Text.slice? s g.place = some g.spelling := by
  induction text generalizing c with
  | nil => simp [plain] at hg
  | cons ch cs ih =>
    have hfirst : c.Reads [ch] (c.past [ch] (cs ++ d.rest)) := Cursor.reads_past h.rest
    rcases List.mem_cons.1 hg with rfl | hg
    · simpa [Cursor.spanTo, Cursor.past] using hfirst.slice? hc
    · have hrest : (c.past [ch] (cs ++ d.rest)).Reads cs d := by
        refine ⟨rfl, ?_⟩
        rw [h.offset]
        simp [Cursor.past, Nat.add_assoc]
      exact ih hrest (hfirst.in_source hc) (by simpa [Cursor.past] using hg)

/-- A plain fragment can be replaced by the fragments of its characters. -/
theorem refines_plain {text : List Char} {range : Span} (h : '\\' ∉ text)
    (hstop : range.stop = range.start + Text.width text) :
    Fragment.Refines ⟨text, range, false⟩ ((plain range.start text).map fragment) := by
  refine ⟨(join_plain h range.start).symm, ⟨by dsimp only; omega, ?_⟩, ?_⟩
  · intro f hf
    obtain ⟨g, hg, rfl⟩ := List.mem_map.1 hf
    exact (mem_plain hg).2.2
  · intro lo hi start
    have hverbatim : Fragment.size ⟨text, range, false⟩ = range.length := by
      rw [Span.length, hstop]
      exact (Nat.add_sub_cancel_left ..).symm
    rw [Fragment.part_of_verbatim hverbatim]
    rcases parts_plain h lo hi start range.start with ⟨hle, hnil⟩ | ⟨hlt, htiles⟩
    · left
      exact ⟨if_neg (Nat.not_lt.2 hle), hnil⟩
    · right
      exact ⟨_, if_pos hlt, htiles⟩

/-- A character that is not a backslash and spelled by itself is found by decoding. -/
theorem readable_of_plain {g : Glyph} (hvalue : g.value ≠ '\\')
    (hspelling : g.spelling = [g.value]) : g.Readable := by
  intro rest
  have hnormalized : g.fragment.normalized = [g.value] := by
    simp [fragment, Fragment.normalized, hvalue, hspelling]
  rw [piece, hnormalized]
  exact Decoded.pieces_cons hvalue rest

/-- A character whose spelling is an escape for it is found by decoding. All backslashes have the
same spelling in the joined text. -/
theorem readable_of_escape {g : Glyph}
    (h : ∀ rest, ∃ n, Decoded.escape? (g.spelling ++ rest) = some (g.value, n, rest)) :
    g.Readable := by
  intro rest
  by_cases hvalue : g.value = '\\'
  · have hnormalized : g.fragment.normalized = ['\\', '\\'] := by
      simp [fragment, Fragment.normalized, Fragment.escapedBackslash, hvalue]
    rw [piece, hnormalized, hvalue]
    exact Decoded.pieces_append rest rfl
  · have hnormalized : g.fragment.normalized = g.spelling := by
      simp [fragment, Fragment.normalized, hvalue]
    obtain ⟨n, hn⟩ := h rest
    rw [piece, hnormalized]
    exact Decoded.pieces_append rest hn

end Glyph

namespace Script

theorem Quote.Spells.ne_nil {q : Quote} {kind : EntryKind} {text : List Char}
    (h : q.Spells kind text) : text ≠ [] := by
  cases h <;> first | assumption | simp

/-- Between quotes with escapes, an escape is one for decoding too. -/
theorem Quote.Spells.escape? {value : Char} {text : List Char}
    (h : Quote.Spells .regular (.escape value) text) (rest : List Char) :
    ∃ n, Decoded.escape? (text ++ rest) = some (value, n, rest) := by
  cases h with
  | letter hletter =>
    refine ⟨2, ?_⟩
    simp [Decoded.escape?, hletter]
  | @unicode digits _ hwidth hvalue =>
    refine ⟨6, ?_⟩
    have hsplit : Text.splitAt? 4 (digits ++ rest) = some (digits, rest) := by
      rw [← hwidth, Text.splitAt?_width_append]
    simp [Decoded.escape?, Escape.ofLetter?, Decoded.unicode?, hsplit, hvalue]

namespace Entry

/-- Decoding finds every character of an entry. -/
theorem WellSpelled.readable {e : Entry} (h : e.WellSpelled) : ∀ g ∈ e.glyphs, g.Readable := by
  obtain ⟨q, hspelled⟩ := h.spelled
  obtain ⟨kind, text, range⟩ := e
  intro g hg
  cases kind with
  | literal =>
    cases hspelled with
    | plain _ hplain =>
      obtain ⟨hmem, hspelling, -⟩ := Glyph.mem_plain hg
      exact Glyph.readable_of_plain (fun he => hplain (he ▸ hmem)) hspelling
  | escape value =>
    obtain rfl : g = ⟨value, text, range⟩ := by simpa [Entry.glyphs] using hg
    cases q with
    | regular => exact Glyph.readable_of_escape hspelled.escape?
    | raw =>
      cases hspelled with
      | backslash => exact fun rest => Decoded.pieces_append rest rfl
  | interpolation => simp [Entry.glyphs] at hg

/-- The fragment of an entry can be replaced by those of its characters. -/
theorem WellSpelled.refines {e : Entry} (h : e.WellSpelled) (hkind : e.kind ≠ .interpolation) :
    Fragment.Refines e.fragment (e.glyphs.map Glyph.fragment) := by
  obtain ⟨q, hspelled⟩ := h.spelled
  have hstop := h.stop
  obtain ⟨kind, text, range⟩ := e
  dsimp only at hstop
  cases kind with
  | literal =>
    cases hspelled with
    | plain _ hplain =>
      exact Glyph.refines_plain hplain hstop
  | escape value =>
    refine Fragment.refines_self ?_
    dsimp only [Entry.fragment]
    omega
  | interpolation => exact absurd rfl hkind

theorem WellSpelled.size_pos {e : Entry} (h : e.WellSpelled) : 0 < e.fragment.size := by
  obtain ⟨q, hspelled⟩ := h.spelled
  have hne : e.fragment.normalized ≠ [] := by
    unfold Fragment.normalized
    split
    · simp [Fragment.escapedBackslash]
    · exact hspelled.ne_nil
  exact Nat.pos_of_ne_zero (fun hzero => hne (Text.width_eq_zero_iff.1 hzero))

/-- The source has at the place of a character of an entry the spelling of the character. -/
theorem Stands.slice?_glyph {s : List Char} {q : Quote} {c d : Cursor} {e : Entry}
    (h : Entry.Stands q c e d) (hc : c.In s) {g : Glyph} (hg : g ∈ e.glyphs) :
    Text.slice? s g.place = some g.spelling := by
  have hreads := h.reads
  have hrange := h.range
  obtain ⟨kind, text, range⟩ := e
  dsimp only at hreads hrange
  subst hrange
  cases kind with
  | literal => exact Glyph.slice?_plain hreads hc hg
  | escape value =>
    obtain rfl : g = ⟨value, text, c.spanTo d⟩ := by simpa [Entry.glyphs] using hg
    exact hreads.slice? hc
  | interpolation => simp [Entry.glyphs] at hg

end Entry

end Script

end RegexAudit
