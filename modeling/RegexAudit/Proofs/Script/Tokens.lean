import Mathlib.Data.List.TakeWhile
import RegexAudit.Proofs.Script.Literal

/-!
# Where tokens stand in a source

Splitting a source into tokens moves a cursor through it. Every step reads some text at the
cursor, and a step that finds a string literal leaves the literal between the two places.

## Main definitions

* `Lexeme.Stands`: what one reading step finds stands between two places.
* `Token.StandsIn`: a token stands in a source.
* `IsComment`: the text of a comment, given what follows it.
* `Lexeme.Found`: what one reading step may find, one constructor a kind of lexeme.

## Main statements

* `Lexeme.read_found`, `Lexeme.read_stands`: one reading step.
* `Tokens.standsIn_of_mem`: every token of a source stands in it.
* `Tokens.exists_entry_stands`: so does every entry of every literal.
-/

namespace RegexAudit

namespace Script

/-- The lexeme stands between the places `c` and `d`. -/
structure Lexeme.Stands (c : Cursor) (lexeme : Lexeme) (d : Cursor) : Prop where
  reads : ∃ text, c.Reads text d
  literal : ∀ l, lexeme = .token (.string l) → ∃ q, StringLiteral.Stands q c l d

/-- The token stands in the source `s`. -/
def Token.StandsIn (s : List Char) (t : Token) : Prop :=
  ∃ c d, c.In s ∧ Lexeme.Stands c (.token t.kind) d ∧ t.range = c.spanTo d

/-- A comment, and what follows it. A line comment ends in front of a newline or at the end of the
source, and a block comment at the first mark that closes it. -/
inductive IsComment : List Char → List Char → Prop
  | line {body after : List Char} :
      '\n' ∉ body → (∀ c ∈ after.head?, c = '\n') → IsComment ('/' :: '/' :: body) after
  | block {body after : List Char} :
      ¬ ['*', '/'] <:+: body → IsComment ('/' :: '*' :: body ++ ['*', '/']) after

/-- What one reading step may find between the places `c` and `d`. -/
inductive Lexeme.Found (c d : Cursor) : Lexeme → Prop
  | punctuation {ch : Char} {kind : TokenKind} :
      punctuation? ch = some kind → c.Reads [ch] d → Found c d (.token kind)
  | blank {ch : Char} :
      punctuation? ch = none → Text.isBlank ch = true → c.Reads [ch] d → Found c d .skipped
  | comment {text : List Char} : IsComment text d.rest → c.Reads text d → Found c d .skipped
  | string {q : Quote} {l : StringLiteral} :
      StringLiteral.Stands q c l d → Found c d (.token (.string l))
  | integer {value : Nat} {text : List Char} :
      '\n' ∉ text → c.Reads text d → Found c d (.token (.integer value))
  | name {name : String} {text : List Char} :
      '\n' ∉ text → c.Reads text d → Found c d (.token (.name name))

/-- A literal with its quotes is some text. -/
theorem StringLiteral.Stands.reads {q : Quote} {c d : Cursor} {l : StringLiteral}
    (h : StringLiteral.Stands q c l d) : ∃ text, c.Reads text d := by
  obtain ⟨first, last, hopen, htile, hclose⟩ := h.body
  exact ⟨_, (hopen.append htile.reads).append hclose⟩

namespace Lexeme

/-- What is read up to the end of a block comment is closed there for the first time. -/
theorem closeComment?_body {read s l r : List Char} (h : closeComment? read s = some (l, r)) :
    ∃ body, s = body ++ '*' :: '/' :: r ∧ l = read.reverse ++ body ++ ['*', '/'] ∧
      ¬ ['*', '/'] <:+: body := by
  fun_induction closeComment? read s with
  | case1 read rest =>
    obtain ⟨rfl, rfl⟩ := Prod.mk.inj (Option.some.inj h)
    exact ⟨[], rfl, by simp, by simp⟩
  | case2 read c cs hopen ih =>
    obtain ⟨body, rfl, rfl, hbody⟩ := ih h
    refine ⟨c :: body, rfl, by simp, ?_⟩
    rw [List.infix_cons_iff, not_or]
    refine ⟨?_, hbody⟩
    -- A closing mark at the front would have ended the comment here.
    rintro ⟨more, hmore⟩
    obtain ⟨rfl, hcons⟩ := List.cons.inj hmore
    cases body with
    | nil => simp at hcons
    | cons c' body =>
      obtain ⟨rfl, -⟩ := List.cons.inj hcons
      exact hopen _ rfl rfl
  | case3 => simp at h

theorem comment_found {c d : Cursor} {cs : List Char} {lexeme : Lexeme}
    (hrest : c.rest = '/' :: cs) (h : comment c cs = .ok (lexeme, d)) : Found c d lexeme := by
  unfold comment at h
  split at h
  · next cs =>
    obtain ⟨rfl, rfl⟩ := Prod.mk.inj (Except.ok.inj h)
    refine .comment (.line ?_ ?_) (Cursor.reads_past ?_)
    · intro hmem
      simpa using List.mem_takeWhile_imp hmem
    · intro ch hch
      have hhead := List.head?_dropWhile_not (· != '\n') cs
      change ch ∈ (cs.dropWhile (· != '\n')).head? at hch
      rw [Option.mem_def.1 hch] at hhead
      simpa using hhead
    · simp [hrest, List.takeWhile_append_dropWhile]
  · split at h
    · simp at h
    · next hclose =>
      obtain ⟨body, rfl, rfl, hbody⟩ := closeComment?_body hclose
      obtain ⟨rfl, rfl⟩ := Prod.mk.inj (Except.ok.inj h)
      exact .comment (.block hbody) (Cursor.reads_past (by simp [hrest]))
  · simp at h

theorem integer_found {c d : Cursor} {lexeme : Lexeme} (h : integer c = .ok (lexeme, d)) :
    Found c d lexeme := by
  unfold integer at h
  dsimp only at h
  split at h
  · simp at h
  · obtain ⟨rfl, rfl⟩ := Prod.mk.inj (Except.ok.inj h)
    refine .integer ?_ (Cursor.reads_past ?_)
    · rw [List.mem_append, not_or]
      refine ⟨?_, fun hmem => ?_⟩
      · unfold radixMark
        split <;> simp
      · -- A newline is a digit of no radix.
        have hpart := List.mem_takeWhile_imp hmem
        simp [isIntegerPart, Numeral.isDigit, Numeral.digit?] at hpart
    · rw [List.append_assoc, List.takeWhile_append_dropWhile, radixMark_append]

theorem name_found (c : Cursor) : Found c (name c).2 (name c).1 := by
  refine .name ?_ (Cursor.reads_past List.takeWhile_append_dropWhile.symm)
  exact fun hmem => absurd (List.mem_takeWhile_imp hmem) (by decide)

/-- What one reading step finds. -/
theorem read_found {c d : Cursor} {ch : Char} {cs : List Char} {lexeme : Lexeme}
    (hrest : c.rest = ch :: cs) (h : read c ch cs = .ok (lexeme, d)) : Found c d lexeme := by
  unfold read at h
  split at h
  · next hkind =>
    obtain ⟨rfl, rfl⟩ := Prod.mk.inj (Except.ok.inj h)
    exact .punctuation hkind (Cursor.reads_past hrest)
  · next hkind =>
    split at h
    · next hblank =>
      obtain ⟨rfl, rfl⟩ := Prod.mk.inj (Except.ok.inj h)
      exact .blank hkind hblank (Cursor.reads_past hrest)
    · split at h
      · next hslash => exact comment_found (by rw [hrest, hslash]) h
      · split at h
        · next hquote =>
          obtain ⟨q, l, rfl, hl⟩ := string_stands (by rw [hrest, hquote]) h
          exact .string hl
        · split at h
          · exact integer_found h
          · split at h
            · have hname := name_found c
              rw [Except.ok.inj h] at hname
              exact hname
            · simp at h

theorem Found.stands {c d : Cursor} {lexeme : Lexeme} (h : Found c d lexeme) :
    Stands c lexeme d := by
  cases h with
  | punctuation hkind hreads =>
    refine ⟨⟨_, hreads⟩, ?_⟩
    rintro l ⟨⟩
    unfold punctuation? at hkind
    split at hkind <;> simp at hkind
  | blank _ _ hreads | comment _ hreads => exact ⟨⟨_, hreads⟩, by simp⟩
  | string hl =>
    refine ⟨hl.reads, ?_⟩
    rintro l ⟨⟩
    exact ⟨_, hl⟩
  | integer _ hreads | name _ hreads => exact ⟨⟨_, hreads⟩, by simp⟩

theorem read_stands {c d : Cursor} {ch : Char} {cs : List Char} {lexeme : Lexeme}
    (hrest : c.rest = ch :: cs) (h : read c ch cs = .ok (lexeme, d)) : Stands c lexeme d :=
  (read_found hrest h).stands

end Lexeme

/-- Scanning from a place in a source finds tokens with every property of those that are read in
it. -/
theorem Token.scan_forall {s : List Char} {property : Token → Prop}
    (hread : ∀ c ch cs kind d, c.In s → c.rest = ch :: cs →
      Lexeme.read c ch cs = .ok (.token kind, d) → property ⟨kind, c.spanTo d⟩)
    {depth : Nat} {tokens : List Token} {c : Cursor} {result : Tokens}
    (h : Token.scan depth tokens c = .ok result) (hc : c.In s)
    (hbefore : ∀ t ∈ tokens, property t) : ∀ t ∈ result.items, property t := by
  fun_induction Token.scan depth tokens c with
  | case1 depth tokens c =>
    simp only [Except.ok.injEq] at h
    subst h
    intro t ht
    exact hbefore t (List.mem_reverse.1 ht)
  | case2 => simp at h
  | case3 depth tokens c ch cs hrest d hskip ih =>
    obtain ⟨text, htext⟩ := (Lexeme.read_stands hrest hskip).reads
    exact ih h (htext.in_source hc) hbefore
  | case4 depth tokens c ch cs hrest kind d htoken ih =>
    obtain ⟨text, htext⟩ := (Lexeme.read_stands hrest htoken).reads
    refine ih h (htext.in_source hc) ?_
    -- A newline between parentheses is dropped, any other token is kept.
    intro t ht
    split at ht
    · rcases List.mem_cons.1 ht with rfl | ht
      · exact hread c ch cs kind d hc hrest htoken
      · exact hbefore t ht
    · exact hbefore t ht

/-- The tokens of a source have every property of those that are read in it. -/
theorem Tokens.forall_mem {source : List Char} {tokens : Tokens}
    (h : Tokens.ofSource source = .ok tokens) {property : Token → Prop}
    (hread : ∀ c ch cs kind d, c.In source → c.rest = ch :: cs →
      Lexeme.read c ch cs = .ok (.token kind, d) → property ⟨kind, c.spanTo d⟩) :
    ∀ t ∈ tokens.items, property t := by
  unfold Tokens.ofSource at h
  split at h
  · simp at h
  · exact Token.scan_forall hread h (Cursor.ofText_in source) (by simp)

/-- Every token of a source stands in it. -/
theorem Tokens.standsIn_of_mem {source : List Char} {tokens : Tokens}
    (h : Tokens.ofSource source = .ok tokens) {t : Token} (ht : t ∈ tokens.items) :
    t.StandsIn source := by
  refine Tokens.forall_mem h ?_ t ht
  intro c ch cs kind d hc hrest hread
  exact ⟨c, d, hc, Lexeme.read_stands hrest hread, rfl⟩

theorem Lexeme.read_quote (c : Cursor) (cs : List Char) : read c '"' cs = string c cs := by
  have hkind : punctuation? '"' = none := rfl
  have hblank : Text.isBlank '"' = false := rfl
  rw [read, hkind, hblank]
  rfl

/-- A name is read from the text that it is. -/
theorem Lexeme.read_name {c d : Cursor} {ch : Char} {cs : List Char} {name : String}
    (hrest : c.rest = ch :: cs) (h : read c ch cs = .ok (.token (.name name), d)) :
    c.Reads name.toList d := by
  unfold read at h
  split at h
  · next hkind =>
    obtain ⟨heq, -⟩ := Prod.mk.inj (Except.ok.inj h)
    unfold punctuation? at hkind
    split at hkind <;> simp_all
  · split at h
    · simp at h
    · split at h
      · unfold comment at h
        split at h
        · simp at h
        · split at h <;> simp at h
        · simp at h
      · split at h
        · next hquote =>
          obtain ⟨q, l, heq, -⟩ := string_stands (by rw [hrest, hquote]) h
          cases heq
        · split at h
          · unfold integer at h
            dsimp only at h
            split at h <;> simp at h
          · split at h
            · obtain ⟨heq, rfl⟩ := Prod.mk.inj (Except.ok.inj h)
              cases heq
              rw [String.toList_ofList]
              exact Cursor.reads_past List.takeWhile_append_dropWhile.symm
            · simp at h

/-- A name stands in the source where its token says. -/
theorem Tokens.slice?_name {source : List Char} {tokens : Tokens}
    (h : Tokens.ofSource source = .ok tokens) {name : String} {range : Span}
    (ht : ⟨.name name, range⟩ ∈ tokens.items) : Text.slice? source range = some name.toList := by
  have hname : ∀ t ∈ tokens.items,
      t.kind = .name name → Text.slice? source t.range = some name.toList := by
    refine Tokens.forall_mem h ?_
    rintro c ch cs kind d hc hrest hread rfl
    exact (Lexeme.read_name hrest hread).slice? hc
  exact hname _ ht rfl

/-- The tokens of a source hold the literal `l`. -/
def Tokens.HasLiteral (tokens : Tokens) (l : StringLiteral) : Prop :=
  ∃ range, ⟨.string l, range⟩ ∈ tokens.items

/-- Every entry of every literal of a source stands in the source, between quotes of the kind of
its literal. -/
theorem Tokens.exists_entry_stands {source : List Char} {tokens : Tokens}
    (h : Tokens.ofSource source = .ok tokens) {l : StringLiteral} (hl : tokens.HasLiteral l)
    {e : Entry} (he : e ∈ l.entries) :
    ∃ q c d, l.raw = (q == .raw) ∧ c.In source ∧ Entry.Stands q c e d := by
  obtain ⟨range, hmem⟩ := hl
  obtain ⟨c, d, hc, hstands, -⟩ := Tokens.standsIn_of_mem h hmem
  obtain ⟨q, hq⟩ := hstands.literal l rfl
  obtain ⟨first, last, hopen, htile, -⟩ := hq.body
  obtain ⟨c', d', hc', he'⟩ := htile.exists_stands (hopen.in_source hc) he
  exact ⟨q, c', d', hq.raw, hc', he'⟩

end Script

end RegexAudit
