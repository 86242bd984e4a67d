import RegexAudit.Proofs.Text.Slice
import RegexAudit.Script.Lexer

/-!
# Where string literals stand in a source

Reading a literal splits the source between its quotes into entries that follow one another
without a gap. Each entry is spelled in one of five ways, and its range is the place of its
spelling.

## Main definitions

* `Quote.Spells`: the spellings that an entry of each kind can have.
* `Entry.Stands`, `Entry.Tile`: an entry, or a sequence of entries, between two places.
* `StringLiteral.Stands`: a whole literal with its quotes between two places.

## Main statements

* `Entry.next_stands`: an entry stands where it is read.
* `StringLiteral.read_tile`: what the reader of literals returns is a tiling.
-/

namespace RegexAudit

namespace Script

/-- The spellings that an entry of each kind can have between quotes of each kind. -/
inductive Quote.Spells : Quote → EntryKind → List Char → Prop
  /-- Plain characters contain no backslash. -/
  | plain {q : Quote} {text : List Char} :
      text ≠ [] → '\\' ∉ text → Spells q .literal text
  | letter {letter value : Char} :
      Escape.ofLetter? letter = some value → Spells .regular (.escape value) ['\\', letter]
  | unicode {digits : List Char} {value : Char} :
      Text.width digits = 4 → Numeral.scalar? digits = some value →
        Spells .regular (.escape value) ('\\' :: 'u' :: digits)
  | backslash : Spells .raw (.escape '\\') ['\\']
  | template {q : Quote} {text : List Char} : Spells q .interpolation ('$' :: text)

/-- The plain characters before an interruption contain no backslash. -/
theorem Quote.run_no_backslash (q : Quote) {read : List Char} (hread : '\\' ∉ read)
    (s : List Char) : '\\' ∉ (q.run read s).1 := by
  induction s generalizing read with
  | nil => simpa [Quote.run] using hread
  | cons c cs ih =>
    rw [Quote.run]
    split
    · simpa using hread
    · next hgo =>
      -- A backslash would have interrupted the run.
      refine ih ?_
      have hc : c ≠ '\\' := by
        intro hc
        simp [Quote.interrupts, hc] at hgo
      simp [hread, Ne.symm hc]

/-- The plain characters before an interruption are at least those already read. -/
theorem Quote.run_ne_nil (q : Quote) {read : List Char} (hread : read ≠ []) (s : List Char) :
    (q.run read s).1 ≠ [] := by
  induction s generalizing read with
  | nil => simpa [Quote.run] using hread
  | cons c cs ih =>
    rw [Quote.run]
    split
    · simpa using hread
    · exact ih (by simp)

/-- A template begins with the dollar sign that was read for it. -/
theorem closeBrace?_head {depth : Nat} {read s l r : List Char}
    (h : closeBrace? depth read s = some (l, r)) : ∃ more, l = read.reverse ++ more := by
  fun_induction closeBrace? depth read s with
  | case1 => simp at h
  | case2 read cs =>
    simp only [Option.some.injEq, Prod.mk.injEq, List.reverse_cons] at h
    exact ⟨['}'], h.1.symm⟩
  | case3 read cs depth ih =>
    obtain ⟨more, rfl⟩ := ih h
    exact ⟨'}' :: more, by simp⟩
  | case4 depth read c cs hc ih =>
    obtain ⟨more, rfl⟩ := ih h
    exact ⟨c :: more, by simp⟩

/-- The entry `e` of a literal stands between the places `c` and `d`. -/
structure Entry.Stands (q : Quote) (c : Cursor) (e : Entry) (d : Cursor) : Prop where
  spelled : q.Spells e.kind e.text
  reads : c.Reads e.text d
  range : e.range = c.spanTo d

namespace Entry

theorem spell_stands {q : Quote} {c : Cursor} {kind : EntryKind} {text rest : List Char}
    (hspell : q.Spells kind text) (hrest : c.rest = text ++ rest) :
    Stands q c (spell c kind text rest).1 (spell c kind text rest).2 :=
  ⟨hspell, Cursor.reads_past hrest, rfl⟩

/-- What a reader returns stands in the source when it was made by `Entry.spell`. -/
theorem stands_of_spell_eq {q : Quote} {c d : Cursor} {kind : EntryKind} {text rest : List Char}
    {e : Entry} (hspell : q.Spells kind text) (hrest : c.rest = text ++ rest)
    (h : (.ok (spell c kind text rest) : Except Fault (Entry × Cursor)) = .ok (e, d)) :
    Stands q c e d := by
  have hed : spell c kind text rest = (e, d) := Except.ok.inj h
  have hs := spell_stands hspell hrest
  rwa [hed] at hs

theorem unicodeEscape_stands {c d : Cursor} {cs : List Char} {e : Entry}
    (hrest : c.rest = '\\' :: 'u' :: cs) (h : unicodeEscape c cs = .ok (e, d)) :
    Stands .regular c e d := by
  unfold unicodeEscape at h
  split at h
  · simp at h
  · next digits rest hsplit =>
    obtain ⟨hcs, hwidth⟩ := Text.splitAt?_eq_some_iff.1 hsplit
    split at h
    · simp at h
    · next value hvalue =>
      exact stands_of_spell_eq (.unicode hwidth hvalue) (by simp [hrest, hcs]) h

theorem escape_stands {c d : Cursor} {cs : List Char} {e : Entry}
    (hrest : c.rest = '\\' :: cs) (h : escape c cs = .ok (e, d)) : Stands .regular c e d := by
  unfold escape at h
  split at h
  · simp at h
  · next letter cs =>
    split at h
    · next value hvalue => exact stands_of_spell_eq (.letter hvalue) (by simp [hrest]) h
    · split at h
      · next hu => exact unicodeEscape_stands (by rw [hrest, hu]) h
      · simp at h

theorem template_stands {q : Quote} {c d : Cursor} {cs : List Char} {e : Entry}
    (hrest : c.rest = '$' :: cs) (h : template c cs = .ok (e, d)) : Stands q c e d := by
  unfold template at h
  split at h
  · split at h
    · simp at h
    · next text rest hclose =>
      have happend := closeBrace?_append hclose
      obtain ⟨more, rfl⟩ := closeBrace?_head hclose
      refine stands_of_spell_eq .template ?_ h
      simpa [hrest] using happend.symm
  · refine stands_of_spell_eq .template ?_ h
    simp [hrest, List.takeWhile_append_dropWhile]

/-- The next entry of a literal stands where it is read. -/
theorem next_stands {q : Quote} {opened : Nat} {c d : Cursor} {e : Entry}
    (h : next q opened c = .ok (e, d)) : Stands q c e d := by
  unfold next at h
  split at h
  · simp at h
  · next ch cs hrest =>
    split at h
    · next hch =>
      subst hch
      cases q with
      | regular => exact escape_stands hrest h
      | raw => exact stands_of_spell_eq .backslash hrest h
    · next hch =>
      split at h
      · next hdollar => exact template_stands (by rw [hrest, hdollar.1]) h
      · split at h
        · simp at h
        · -- What is left is a run of plain characters, of which one has been read.
          have hplain : q.Spells .literal (q.run [ch] cs).1 :=
            .plain (q.run_ne_nil (by simp) cs)
              (q.run_no_backslash (by simpa using fun he => hch he.symm) cs)
          refine stands_of_spell_eq hplain ?_ h
          rw [hrest, q.run_append]
          rfl

/-- Entries that follow one another without a gap from the place `c` to the place `d`. -/
inductive Tile (q : Quote) : Cursor → List Entry → Cursor → Prop
  | nil (c : Cursor) : Tile q c [] c
  | cons {c m d : Cursor} {e : Entry} {es : List Entry} :
      Stands q c e m → Tile q m es d → Tile q c (e :: es) d

/-- Between two places of a tiling stands the text of its entries. -/
theorem Tile.reads {q : Quote} {c d : Cursor} {es : List Entry} (h : Tile q c es d) :
    c.Reads (es.flatMap (·.text)) d := by
  induction h with
  | nil c => exact ⟨rfl, rfl⟩
  | cons he _ ih => exact he.reads.append ih

/-- Every entry of a tiling in a source stands somewhere in the source. -/
theorem Tile.exists_stands {s : List Char} {q : Quote} {c d : Cursor} {es : List Entry}
    (h : Tile q c es d) (hc : c.In s) {e : Entry} (he : e ∈ es) :
    ∃ c' d', c'.In s ∧ Stands q c' e d' := by
  induction h with
  | nil => simp at he
  | cons hfirst _ ih =>
    rcases List.mem_cons.1 he with rfl | he
    · exact ⟨_, _, hc, hfirst⟩
    · exact ih (hfirst.reads.in_source hc) he

end Entry

theorem Quote.close?_eq_some {q : Quote} {s rest : List Char} (h : q.close? s = some rest) :
    s = q.mark ++ rest := by
  unfold Quote.close? at h
  split at h <;> simp_all [Quote.mark]

/-- The literal `l` stands with its quotes between the places `c` and `d`. -/
structure StringLiteral.Stands (q : Quote) (c : Cursor) (l : StringLiteral) (d : Cursor) :
    Prop where
  raw : l.raw = (q == .raw)
  body : ∃ first last, c.Reads q.mark first ∧ Entry.Tile q first l.entries last ∧
    last.Reads q.mark d

/-- What is read behind an opening mark are entries without a gap and the closing mark. -/
theorem StringLiteral.read_tile {q : Quote} {opened : Nat} {before : List Entry} {c d : Cursor}
    {l : StringLiteral} (h : StringLiteral.read q opened before c = .ok (l, d)) :
    ∃ es last, l = ⟨q == .raw, before.reverse ++ es⟩ ∧ Entry.Tile q c es last ∧
      last.Reads q.mark d := by
  fun_induction StringLiteral.read q opened before c with
  | case1 before c rest hclose =>
    obtain ⟨rfl, rfl⟩ := Prod.mk.inj (Except.ok.inj h)
    exact ⟨[], c, by simp, .nil c, Cursor.reads_past (Quote.close?_eq_some hclose)⟩
  | case2 => simp at h
  | case3 before c hclose e m hnext ih =>
    -- The entry is followed by a tiling up to the closing mark.
    obtain ⟨es, last, rfl, htile, hlast⟩ := ih h
    exact ⟨e :: es, last, by simp, .cons (Entry.next_stands hnext) htile, hlast⟩

theorem Quote.opening_mark (cs : List Char) :
    (Quote.opening cs).1.mark ++ (Quote.opening cs).2 = '"' :: cs := by
  unfold Quote.opening
  split <;> rfl

namespace Lexeme

theorem string_stands {c d : Cursor} {cs : List Char} {lexeme : Lexeme}
    (hrest : c.rest = '"' :: cs) (h : string c cs = .ok (lexeme, d)) :
    ∃ q l, lexeme = .token (.string l) ∧ StringLiteral.Stands q c l d := by
  unfold string at h
  simp only at h
  split at h
  · simp at h
  · next l d' hread =>
    obtain ⟨rfl, rfl⟩ := Prod.mk.inj (Except.ok.inj h)
    obtain ⟨es, last, rfl, htile, hlast⟩ := StringLiteral.read_tile hread
    refine ⟨_, _, rfl, rfl, _, last, Cursor.reads_past ?_, by simpa using htile, hlast⟩
    rw [hrest, Quote.opening_mark]

end Lexeme

end Script

end RegexAudit
