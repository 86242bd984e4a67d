import RegexAudit.Proofs.Script.EntryCuts

/-!
# No cut of a lexer fails

The lexer that keeps an offset splits a source as the lexer that keeps the rest of it does, and its
rounds are enough: every lexeme takes a character.

## Main statements

* `OffsetLexer.lineComment_eq`, `OffsetLexer.blockComment_eq`: the two comments.
* `OffsetLexer.integer_eq`, `OffsetLexer.name_eq`, `OffsetLexer.string_eq`: the tokens with a text.
* `OffsetLexer.lexeme_eq`: what one look at an offset finds.
* `Tokens.cut?_eq`: the tokens of a source.
-/

namespace RegexAudit

/-- A character first occurs behind those that differ from it. -/
theorem Text.find?_singleton (c : Char) (s : List Char) :
    find? [c] s = if c ∈ s then some (width (s.takeWhile (· != c))) else none := by
  induction s with
  | nil => rfl
  | cons d s ih =>
    rw [find?, ih]
    by_cases hc : d = c
    · subst hc
      simp
    · have hne : (c == d) = false := beq_false_of_ne (Ne.symm hc)
      by_cases hmem : c ∈ s
      · simp [List.isPrefixOf, hne, hmem, hc]
      · simp [List.isPrefixOf, hne, hmem, Ne.symm hc]

namespace Script

namespace OffsetLexer

section Lexemes

variable {s : List Char} {c : Cursor} {cs : List Char}

theorem lineComment_eq (hc : c.In s) (hrest : c.rest = '/' :: '/' :: cs) :
    lineComment s c.offset =
      pure (c.offset + Text.width ('/' :: '/' :: cs.takeWhile (· != '\n'))) := by
  have hline : c.rest.takeWhile (· != '\n') = '/' :: '/' :: cs.takeWhile (· != '\n') := by
    rw [hrest]
    rfl
  rw [lineComment, rest_eq hc, pure_bind, Text.find?_singleton, ← hline]
  by_cases hnewline : '\n' ∈ c.rest
  · rw [if_pos hnewline]
  · rw [if_neg hnewline]
    -- The comment is the last line of the source.
    have hall : c.rest.takeWhile (· != '\n') = c.rest := by
      rw [List.takeWhile_eq_self_iff]
      intro ch hch
      exact bne_iff_ne.2 fun h => hnewline (h ▸ hch)
    obtain ⟨before, hs, hbefore⟩ := hc
    rw [hall, ← hs, Text.width_append, hbefore]

/-- A block comment is closed where its end is found. -/
theorem closeComment?_width (read cs : List Char) :
    (closeComment? read cs).map (fun halves => Text.width halves.1) =
      (Text.find? ['*', '/'] cs).map (Text.width read + · + 2) := by
  fun_induction closeComment? read cs with
  | case1 read rest =>
    have hwidth : Text.width ['*', '/'] = 2 := rfl
    rw [Option.map_some, Text.width_append, Text.width_reverse, hwidth]
    rfl
  | case2 read ch cs hopen ih =>
    have hprefix : ['*', '/'].isPrefixOf (ch :: cs) = false := by
      rw [Bool.eq_false_iff, ne_eq, List.isPrefixOf_iff_prefix]
      rintro ⟨after, hafter⟩
      obtain ⟨rfl, rfl⟩ := List.cons.inj hafter
      exact hopen after rfl rfl
    rw [ih, Text.find?, hprefix, if_neg Bool.false_ne_true, Option.map_map]
    congr 1
    funext index
    show Text.width (ch :: read) + index + 2 = Text.width read + (ch.utf8Size + index) + 2
    rw [Text.width_cons]
    omega
  | case3 read => rfl

theorem blockComment_eq (hc : c.In s) (hrest : c.rest = '/' :: '*' :: cs) :
    blockComment s c.offset =
      match closeComment? ['*', '/'] cs with
      | none => .refuse ⟨.unterminatedComment, c.offset⟩
      | some (text, _) => pure (c.offset + Text.width text) := by
  have hbody : rest s (c.offset + 2) = pure cs :=
    rest_eq (hc.past (show c.rest = ['/', '*'] ++ cs from hrest))
  have hwidth := closeComment?_width ['*', '/'] cs
  rw [blockComment, hbody, pure_bind]
  cases hfind : Text.find? ['*', '/'] cs with
  | none =>
    rw [hfind, Option.map_none, Option.map_eq_none_iff] at hwidth
    rw [hwidth]
  | some index =>
    rw [hfind, Option.map_some] at hwidth
    obtain ⟨halves, hclose, hwidth⟩ := Option.map_eq_some_iff.1 hwidth
    rw [hclose]
    refine congrArg pure ?_
    show c.offset + index + 4 = c.offset + Text.width halves.1
    rw [hwidth]
    show c.offset + index + 4 = c.offset + (2 + index + 2)
    omega

/-- A digit takes one byte, and so does an underscore. -/
theorem utf8Size_of_isIntegerPart {radix : Nat} {ch : Char} (h : isIntegerPart radix ch = true) :
    ch.utf8Size = 1 := by
  have hle : ∀ last : Char, last.val ≤ 127 → ch ≤ last → ch.utf8Size = 1 :=
    fun last hlast hch => Char.utf8Size_eq_one_iff.2 (UInt32.le_trans hch hlast)
  rw [isIntegerPart, Bool.or_eq_true, Numeral.isDigit, Numeral.digit?] at h
  rcases h with h | h
  · by_cases hdigit : '0' ≤ ch ∧ ch ≤ '9'
    · exact hle '9' (by decide) hdigit.2
    · by_cases hlower : 'a' ≤ ch ∧ ch ≤ 'f'
      · exact hle 'f' (by decide) hlower.2
      · by_cases hupper : 'A' ≤ ch ∧ ch ≤ 'F'
        · exact hle 'F' (by decide) hupper.2
        · rw [if_neg hdigit, if_neg hlower, if_neg hupper] at h
          simp at h
  · rw [beq_iff_eq] at h
    rw [h]
    rfl

/-- The digits of an integer can be counted instead of measured. -/
theorem length_takeWhile_isIntegerPart (radix : Nat) (cs : List Char) :
    (cs.takeWhile (isIntegerPart radix)).length =
      Text.width (cs.takeWhile (isIntegerPart radix)) := by
  induction cs with
  | nil => rfl
  | cons ch cs ih =>
    by_cases hpart : isIntegerPart radix ch = true
    · rw [List.takeWhile_cons_of_pos hpart, List.length_cons, Text.width_cons, ih,
        utf8Size_of_isIntegerPart hpart, Nat.add_comm]
    · rw [List.takeWhile_cons_of_neg hpart]
      rfl

/-- Where the digits of an integer begin, and their radix. -/
theorem radixMark_eq (pos : Nat) (number : List Char) :
    (if ['0', 'x'].isPrefixOf number || ['0', 'X'].isPrefixOf number then (pos + 2, 16)
      else (pos, 10)) = (pos + Text.width (radixMark number).2.1, (radixMark number).1) := by
  fun_cases radixMark number with
  | case1 cs => rfl
  | case2 cs => rfl
  | case3 _ hlower hupper =>
    have hmark : ¬(['0', 'x'].isPrefixOf number || ['0', 'X'].isPrefixOf number) = true := by
      rw [Bool.or_eq_true, List.isPrefixOf_iff_prefix, List.isPrefixOf_iff_prefix]
      rintro (⟨cs, rfl⟩ | ⟨cs, rfl⟩)
      · exact hlower cs rfl
      · exact hupper cs rfl
    rw [if_neg hmark]
    rfl

theorem integer_eq (hc : c.In s) : integer s c.offset =
    .ofExcept ((Lexeme.integer c).map fun (l, d) => (l, d.offset)) := by
  rw [integer, rest_eq hc, pure_bind, radixMark_eq, Lexeme.integer]
  rcases hmark : radixMark c.rest with ⟨radix, mark, body⟩
  have hbody : c.rest = mark ++ body := by
    rw [← Lexeme.radixMark_append c.rest, hmark]
  have hin : (c.past mark body).In s := hc.past hbody
  have hreads : (c.past mark body).Reads (body.takeWhile (isIntegerPart radix))
      ((c.past mark body).past (body.takeWhile (isIntegerPart radix))
        (body.dropWhile (isIntegerPart radix))) :=
    Cursor.reads_past List.takeWhile_append_dropWhile.symm
  have hstart : rest s (c.offset + Text.width mark) = pure body := rest_eq hin
  have htext : text s (c.offset + Text.width mark) (c.offset + Text.width mark +
      Text.width (body.takeWhile (isIntegerPart radix))) =
        pure (body.takeWhile (isIntegerPart radix)) := text_eq hreads hin
  dsimp only
  rw [hstart, pure_bind, length_takeWhile_isIntegerPart, htext, pure_bind]
  cases integerOf radix (body.takeWhile (isIntegerPart radix)) with
  | error cause => rfl
  | ok value =>
    rw [Nat.add_assoc, ← Text.width_append]
    rfl

theorem name_eq (hc : c.In s) : name s c.offset =
    pure ((Lexeme.name c).1, (Lexeme.name c).2.offset) := by
  have hreads : c.Reads (c.rest.takeWhile isNameContinue) (Lexeme.name c).2 :=
    Cursor.reads_past List.takeWhile_append_dropWhile.symm
  have htext : text s c.offset (c.offset + Text.width (c.rest.takeWhile isNameContinue)) =
      pure (c.rest.takeWhile isNameContinue) := text_eq hreads hc
  rw [name, nameEnd_eq hc, pure_bind, htext, pure_bind]
  rfl

theorem comment_eq (hc : c.In s) (hrest : c.rest = '/' :: cs) : comment s c.offset =
    .ofExcept ((Lexeme.comment c cs).map fun (l, d) => (l, d.offset)) := by
  rw [comment, startsWith_eq hc, pure_bind, hrest]
  fun_cases Lexeme.comment c cs with
  | case1 cs =>
    show (lineComment s c.offset >>= fun stop => pure (Lexeme.skipped, stop)) = _
    rw [lineComment_eq hc hrest, pure_bind]
    rfl
  | case2 cs hclose =>
    show (startsWith s c.offset ['/', '*'] >>= _) = _
    rw [startsWith_eq hc, pure_bind, hrest]
    show (blockComment s c.offset >>= fun stop => pure (Lexeme.skipped, stop)) = _
    rw [blockComment_eq hc hrest, hclose]
    rfl
  | case3 cs text after hclose =>
    show (startsWith s c.offset ['/', '*'] >>= _) = _
    rw [startsWith_eq hc, pure_bind, hrest]
    show (blockComment s c.offset >>= fun stop => pure (Lexeme.skipped, stop)) = _
    rw [blockComment_eq hc hrest, hclose]
    rfl
  | case4 _ hline hblock =>
    have hmark : ∀ mark : Char, (∀ after, cs ≠ mark :: after) →
        ['/', mark].isPrefixOf ('/' :: cs) = false := by
      intro mark hnone
      rw [Bool.eq_false_iff, ne_eq, List.isPrefixOf_iff_prefix]
      rintro ⟨after, hafter⟩
      exact hnone after (List.cons.inj hafter).2.symm
    rw [hmark '/' hline, if_neg Bool.false_ne_true, startsWith_eq hc, pure_bind, hrest,
      hmark '*' hblock]
    rfl

/-- Three quotes open a raw literal, and any other number of them a regular one. -/
theorem isPrefixOf_mark_raw (cs : List Char) :
    (if Quote.raw.mark.isPrefixOf ('"' :: cs) then .raw else .regular) =
      (Quote.opening cs).1 := by
  fun_cases Quote.opening cs with
  | case1 after => rfl
  | case2 _ hregular =>
    rw [if_neg]
    rw [List.isPrefixOf_iff_prefix]
    rintro ⟨after, hafter⟩
    exact hregular after (List.cons.inj hafter).2.symm

theorem string_eq (hsize : Text.width s ≤ maxSourceBytes) (hc : c.In s)
    (hrest : c.rest = '"' :: cs) : string s c.offset =
      .ofExcept ((Lexeme.string c cs).map fun (l, d) => (l, d.offset)) := by
  have hreads := Quote.opening_reads hrest
  have hrounds : (Quote.opening cs).2.length < s.length + 1 := by
    have hle := Quote.opening_length_le cs
    obtain ⟨before, rfl, -⟩ := hc
    rw [hrest, List.length_append, List.length_cons]
    omega
  have hliteral : literal s (Quote.opening cs).1 c.offset (s.length + 1) none []
      (c.offset + Text.width (Quote.opening cs).1.mark) = _ :=
    literal_eq hsize (hreads.in_source hc) hrounds []
  rw [string, startsWith_eq hc, pure_bind, hrest, isPrefixOf_mark_raw]
  dsimp only
  rw [hliteral, Lexeme.string]
  dsimp only
  cases StringLiteral.read (Quote.opening cs).1 c.offset []
      (c.past (Quote.opening cs).1.mark (Quote.opening cs).2) with
  | error fault => rfl
  | ok result => rfl

/-- A character that is a token takes one byte. -/
theorem utf8Size_of_punctuation? {ch : Char} {kind : TokenKind} (h : punctuation? ch = some kind) :
    ch.utf8Size = 1 := by
  unfold punctuation? at h
  split at h
  any_goals rfl
  cases h

/-- One look at an offset finds the lexeme that stands there. -/
theorem lexeme_eq (hsize : Text.width s ≤ maxSourceBytes) (hc : c.In s) {ch : Char}
    (hrest : c.rest = ch :: cs) : lexeme s c.offset ch =
      .ofExcept ((Lexeme.read c ch cs).map fun (l, d) => (l, d.offset)) := by
  rw [lexeme, Lexeme.read]
  cases hkind : punctuation? ch with
  | some kind =>
    have hoffset : c.offset + 1 = (c.past [ch] cs).offset := by
      rw [Cursor.past, Text.width_cons, utf8Size_of_punctuation? hkind, Text.width_nil]
    rw [hoffset]
    rfl
  | none =>
    dsimp only
    by_cases hblank : Text.isBlank ch = true
    · rw [if_pos hblank, if_pos hblank]
      rfl
    · rw [if_neg hblank, if_neg hblank]
      by_cases hslash : ch = '/'
      · rw [if_pos hslash, if_pos hslash]
        exact comment_eq hc (by rw [hrest, hslash])
      · rw [if_neg hslash, if_neg hslash]
        by_cases hquote : ch = '"'
        · rw [if_pos hquote, if_pos hquote]
          exact string_eq hsize hc (by rw [hrest, hquote])
        · rw [if_neg hquote, if_neg hquote]
          by_cases hdigit : ch.isDigit = true
          · rw [if_pos hdigit, if_pos hdigit]
            exact integer_eq hc
          · rw [if_neg hdigit, if_neg hdigit]
            by_cases hname : isNameStart ch = true
            · rw [if_pos hname, if_pos hname]
              exact name_eq hc
            · rw [if_neg hname, if_neg hname]
              rfl

/-- The lexer that keeps an offset finds the tokens that the lexer finds. -/
theorem tokens_eq (hsize : Text.width s ≤ maxSourceBytes) (hc : c.In s) {rounds : Nat}
    (hrounds : c.rest.length < rounds) (depth : Nat) (read : List Token) :
    tokens s rounds depth read c.offset = .ofExcept (Token.scan depth read c) := by
  obtain ⟨rounds, rfl⟩ := Nat.exists_eq_succ_of_ne_zero (Nat.ne_zero_of_lt hrounds)
  fun_induction Token.scan depth read c generalizing rounds with
  | case1 depth read c hrest =>
    have hreads : c.Reads [] c := ⟨rfl, rfl⟩
    have hspan : span c.offset c.offset = pure (c.spanTo c) := span_eq hsize hreads hc
    rw [tokens, current_eq hc, pure_bind, hrest]
    dsimp only [List.head?_nil]
    rw [hspan, pure_bind]
    rfl
  | case2 depth read c ch cs hrest fault hread =>
    rw [tokens, current_eq hc, pure_bind, hrest]
    dsimp only [List.head?_cons]
    rw [lexeme_eq hsize hc hrest, hread]
    rfl
  | case3 depth read c ch cs hrest d hread ih =>
    obtain ⟨text, htext⟩ := (Lexeme.read_stands hrest hread).reads
    have hshrinks := Lexeme.read_shrinks hrest hread
    obtain ⟨rounds, rfl⟩ := Nat.exists_eq_succ_of_ne_zero (show rounds ≠ 0 by omega)
    rw [tokens, current_eq hc, pure_bind, hrest]
    dsimp only [List.head?_cons]
    rw [lexeme_eq hsize hc hrest, hread]
    exact ih (htext.in_source hc) rounds (by omega)
  | case4 depth read c ch cs hrest kind d hread ih =>
    obtain ⟨text, htext⟩ := (Lexeme.read_stands hrest hread).reads
    have hshrinks := Lexeme.read_shrinks hrest hread
    obtain ⟨rounds, rfl⟩ := Nat.exists_eq_succ_of_ne_zero (show rounds ≠ 0 by omega)
    have hpush : push depth kind c.offset d.offset read =
        pure (if kind.isKept depth then ⟨kind, c.spanTo d⟩ :: read else read) := by
      rw [push, span_eq hsize htext hc]
      split
      · rfl
      · rfl
    rw [tokens, current_eq hc, pure_bind, hrest]
    dsimp only [List.head?_cons]
    rw [lexeme_eq hsize hc hrest, hread]
    show (push depth kind c.offset d.offset read >>= fun read' =>
      tokens s (rounds + 1) (kind.depthAfter depth) read' d.offset) = _
    rw [hpush, pure_bind]
    exact ih (htext.in_source hc) rounds (by omega)

end Lexemes

end OffsetLexer

/-- No cut fails while a source that is not too long is split into tokens, and the rounds are
enough. -/
theorem Tokens.cut?_eq {source : List Char} (hsize : Text.width source ≤ maxSourceBytes) :
    Tokens.cut? source = some (Tokens.ofSource source) := by
  have htokens : OffsetLexer.tokens source (source.length + 1) 0 [] 0 = _ :=
    OffsetLexer.tokens_eq hsize (Cursor.ofText_in source) (Nat.lt_succ_self _) 0 []
  rw [Tokens.cut?, htokens, Tokens.ofSource, if_neg (Nat.not_lt.2 hsize)]
  rfl

end Script

end RegexAudit
