import RegexAudit.Proofs.Shift.Basic

/-!
# Splitting a moved source

The lexer does not look at offsets. From a moved place on it finds the same tokens or the same
fault, moved. Blank lines and lines with a comment alone in front of a source are split into one
newline each.

## Main definitions

* `shiftRead`: what is read at a place, moved.
* `LeadingLines`: lines of blank space, each of which may end in a line comment.

## Main statements

* `Entry.next_shift`, `StringLiteral.read_shift`, `Lexeme.read_shift`: the steps of the lexer.
* `Token.scan_shift`: a whole run of the lexer.
* `LeadingLines.scan`: the tokens of leading lines.
* `Tokens.ofSource_leadingLines`: the tokens of a source behind leading lines.
-/

namespace RegexAudit

namespace Script

variable {w : Nat}

/-- What is read at a place, moved by some bytes, or the fault, moved likewise. -/
def shiftRead {α : Type} (w : Nat) (f : α → α) :
    Except Fault (α × Cursor) → Except Fault (α × Cursor)
  | .ok (a, d) => .ok (f a, d.shift w)
  | .error fault => .error (fault.shift w)

namespace Entry

@[simp] theorem spell_shift (c : Cursor) (kind : EntryKind) (text rest : List Char) :
    spell (c.shift w) kind text rest =
      ((spell c kind text rest).1.shift w, (spell c kind text rest).2.shift w) := by
  simp [spell, Entry.shift]

theorem unicodeEscape_shift (c : Cursor) (cs : List Char) :
    unicodeEscape (c.shift w) cs = shiftRead w (Entry.shift w) (unicodeEscape c cs) := by
  unfold unicodeEscape
  cases Text.splitAt? 4 cs with
  | none => rfl
  | some halves =>
    obtain ⟨digits, rest⟩ := halves
    dsimp only
    cases Numeral.scalar? digits with
    | none => rfl
    | some value => simp [shiftRead]

theorem escape_shift (c : Cursor) (cs : List Char) :
    escape (c.shift w) cs = shiftRead w (Entry.shift w) (escape c cs) := by
  cases cs with
  | nil => rfl
  | cons letter cs =>
    simp only [escape]
    cases Escape.ofLetter? letter with
    | some value => simp [shiftRead]
    | none =>
      dsimp only
      split
      · exact unicodeEscape_shift c cs
      · rfl

theorem template_shift (c : Cursor) (cs : List Char) :
    template (c.shift w) cs = shiftRead w (Entry.shift w) (template c cs) := by
  unfold template
  split
  · next cs =>
    cases closeBrace? 0 ['{', '$'] cs with
    | none => rfl
    | some halves => simp [shiftRead]
  · simp [shiftRead]

/-- The next entry at a moved place is the moved entry. -/
theorem next_shift (q : Quote) (opened : Nat) (c : Cursor) :
    next q (opened + w) (c.shift w) = shiftRead w (Entry.shift w) (next q opened c) := by
  unfold next
  rw [Cursor.shift_rest]
  cases c.rest with
  | nil => rfl
  | cons ch cs =>
    dsimp only
    split
    · cases q with
      | regular => exact escape_shift c cs
      | raw => simp [shiftRead]
    · split
      · exact template_shift c cs
      · split
        · rfl
        · simp [shiftRead]

end Entry

namespace StringLiteral

theorem read_eq (q : Quote) (opened : Nat) (entries : List Entry) (c : Cursor) :
    read q opened entries c =
      match q.close? c.rest with
      | some rest => .ok (⟨q == .raw, entries.reverse⟩, c.past q.mark rest)
      | none =>
        match Entry.next q opened c with
        | .error fault => .error fault
        | .ok (e, d) => read q opened (e :: entries) d := by
  rw [read]
  split
  · simp_all
  · split <;> simp_all

/-- The literal at a moved place is the moved literal. -/
theorem read_shift (w : Nat) (q : Quote) (opened : Nat) (entries : List Entry) (c : Cursor) :
    read q (opened + w) (entries.map (·.shift w)) (c.shift w) =
      shiftRead w (StringLiteral.shift w) (read q opened entries c) := by
  fun_induction read q opened entries c with
  | case1 entries c rest hclose =>
    rw [read_eq, Cursor.shift_rest, hclose]
    simp [shiftRead, StringLiteral.shift]
  | case2 entries c hclose fault hnext =>
    rw [read_eq, Cursor.shift_rest, hclose, Entry.next_shift, hnext]
    rfl
  | case3 entries c hclose e d hnext ih =>
    rw [read_eq, Cursor.shift_rest, hclose, Entry.next_shift, hnext]
    exact ih

end StringLiteral

/-- What one reading step finds, moved by some bytes. -/
def Lexeme.shift (w : Nat) : Lexeme → Lexeme
  | .token kind => .token (kind.shift w)
  | .skipped => .skipped

namespace Lexeme

theorem integer_shift (c : Cursor) :
    integer (c.shift w) = shiftRead w (Lexeme.shift w) (integer c) := by
  simp only [integer, Cursor.shift_rest]
  cases integerOf (radixMark c.rest).1
    ((radixMark c.rest).2.2.takeWhile (isIntegerPart (radixMark c.rest).1)) with
  | error cause => rfl
  | ok value => simp [shiftRead, Lexeme.shift, TokenKind.shift]

theorem string_shift (c : Cursor) (cs : List Char) :
    string (c.shift w) cs = shiftRead w (Lexeme.shift w) (string c cs) := by
  have hread := StringLiteral.read_shift w (Quote.opening cs).1 c.offset []
    (c.past (Quote.opening cs).1.mark (Quote.opening cs).2)
  rw [List.map_nil, ← Cursor.past_shift] at hread
  simp only [string, Cursor.shift_offset, hread]
  cases StringLiteral.read (Quote.opening cs).1 c.offset []
    (c.past (Quote.opening cs).1.mark (Quote.opening cs).2) <;> rfl

theorem comment_shift (c : Cursor) (cs : List Char) :
    comment (c.shift w) cs = shiftRead w (Lexeme.shift w) (comment c cs) := by
  unfold comment
  split
  · simp [shiftRead, Lexeme.shift]
  · next cs =>
    cases closeComment? ['*', '/'] cs with
    | none => rfl
    | some halves => simp [shiftRead, Lexeme.shift]
  · rfl

/-- The lexeme at a moved place is the moved lexeme. -/
theorem read_shift (w : Nat) (c : Cursor) (ch : Char) (cs : List Char) :
    read (c.shift w) ch cs = shiftRead w (Lexeme.shift w) (read c ch cs) := by
  unfold read
  cases hkind : punctuation? ch with
  | some kind =>
    have hsame : kind.shift w = kind := by
      unfold punctuation? at hkind
      split at hkind <;> simp at hkind <;> subst hkind <;> rfl
    simp [shiftRead, Lexeme.shift, hsame]
  | none =>
    dsimp only
    split
    · simp [shiftRead, Lexeme.shift]
    · split
      · exact comment_shift c cs
      · split
        · exact string_shift c cs
        · split
          · exact integer_shift c
          · split
            · simp [shiftRead, Lexeme.shift, name, TokenKind.shift]
            · rfl

end Lexeme

@[simp] theorem TokenKind.depthAfter_shift (w depth : Nat) (kind : TokenKind) :
    (kind.shift w).depthAfter depth = kind.depthAfter depth := by
  cases kind <;> rfl

@[simp] theorem TokenKind.isKept_shift (w depth : Nat) (kind : TokenKind) :
    (kind.shift w).isKept depth = kind.isKept depth := by
  cases kind <;> rfl

namespace Token

variable {depth : Nat} {tokens : List Token} {c d : Cursor} {ch : Char} {cs : List Char}

theorem scan_of_nil (h : c.rest = []) : scan depth tokens c = .ok ⟨tokens.reverse, c.offset⟩ := by
  rw [scan]
  split <;> simp_all

theorem scan_of_cons (hrest : c.rest = ch :: cs) :
    scan depth tokens c =
      match Lexeme.read c ch cs with
      | .error fault => .error fault
      | .ok (.skipped, d) => scan depth tokens d
      | .ok (.token kind, d) =>
        scan (kind.depthAfter depth)
          (if kind.isKept depth then ⟨kind, c.spanTo d⟩ :: tokens else tokens) d := by
  rw [scan]
  split
  · simp_all
  · next hcons =>
    obtain ⟨rfl, rfl⟩ := List.cons.inj (hrest.symm.trans hcons)
    split <;> simp_all

theorem scan_of_skipped (hrest : c.rest = ch :: cs) (h : Lexeme.read c ch cs = .ok (.skipped, d)) :
    scan depth tokens c = scan depth tokens d := by
  rw [scan_of_cons hrest, h]

/-- Scanning from a moved place on finds the moved tokens, behind those that are there already. -/
theorem scan_shift (w depth : Nat) (tokens before : List Token) (c : Cursor) :
    scan depth (tokens.map (·.shift w) ++ before) (c.shift w) =
      match scan depth tokens c with
      | .ok result => .ok ⟨before.reverse ++ result.items.map (·.shift w), result.stop + w⟩
      | .error fault => .error (fault.shift w) := by
  fun_induction scan depth tokens c with
  | case1 depth tokens c hrest =>
    have hrest : (c.shift w).rest = [] := hrest
    rw [scan_of_nil hrest]
    simp
  | case2 depth tokens c ch cs hrest fault hread =>
    have hrest : (c.shift w).rest = ch :: cs := hrest
    rw [scan_of_cons hrest, Lexeme.read_shift, hread]
    rfl
  | case3 depth tokens c ch cs hrest d hread ih =>
    have hrest : (c.shift w).rest = ch :: cs := hrest
    rw [scan_of_cons hrest, Lexeme.read_shift, hread]
    exact ih
  | case4 depth tokens c ch cs hrest kind d hread ih =>
    have hrest : (c.shift w).rest = ch :: cs := hrest
    rw [scan_of_cons hrest, Lexeme.read_shift, hread]
    dsimp only [shiftRead, Lexeme.shift]
    rw [TokenKind.depthAfter_shift, TokenKind.isKept_shift]
    by_cases hkept : kind.isKept depth = true
    · rw [dif_pos hkept] at ih
      rw [if_pos hkept, if_pos hkept]
      exact ih
    · rw [dif_neg hkept] at ih
      rw [if_neg hkept, if_neg hkept]
      exact ih

end Token

/-- So many lines, each of blank space and possibly a line comment, and each ended by a newline. -/
inductive LeadingLines : Nat → List Char → Prop
  | nil : LeadingLines 0 []
  | line {k : Nat} {blank comment rest : List Char} :
      (∀ c ∈ blank, Text.isBlank c = true ∧ c ≠ '\n') →
        (comment = [] ∨ ∃ body, comment = '/' :: '/' :: body ∧ '\n' ∉ body) →
          LeadingLines k rest → LeadingLines (k + 1) (blank ++ comment ++ '\n' :: rest)

namespace LeadingLines

theorem punctuation?_of_isBlank {c : Char} (h : Text.isBlank c = true) (hc : c ≠ '\n') :
    punctuation? c = none := by
  unfold punctuation?
  split
  all_goals first | rfl | exact absurd h (by decide) | exact absurd rfl hc

variable {depth : Nat} {tokens : List Token}

/-- Blank space in a line is skipped. -/
theorem scan_blank {offset : Nat} {blank rest : List Char}
    (h : ∀ c ∈ blank, Text.isBlank c = true ∧ c ≠ '\n') :
    Token.scan depth tokens ⟨offset, blank ++ rest⟩ =
      Token.scan depth tokens ⟨offset + Text.width blank, rest⟩ := by
  induction blank generalizing offset with
  | nil => rfl
  | cons c blank ih =>
    obtain ⟨⟨hblank, hc⟩, hmore⟩ := List.forall_mem_cons.1 h
    have hread : Lexeme.read ⟨offset, c :: blank ++ rest⟩ c (blank ++ rest) =
        .ok (.skipped, ⟨offset + c.utf8Size, blank ++ rest⟩) := by
      rw [Lexeme.read, punctuation?_of_isBlank hblank hc]
      simp [hblank, Cursor.past]
    rw [Token.scan_of_skipped rfl hread, ih hmore, Text.width_cons, Nat.add_assoc]

/-- A line comment is skipped up to the newline. -/
theorem scan_comment {offset : Nat} {body rest : List Char} (h : '\n' ∉ body) :
    Token.scan depth tokens ⟨offset, '/' :: '/' :: body ++ '\n' :: rest⟩ =
      Token.scan depth tokens
        ⟨offset + Text.width ('/' :: '/' :: body), '\n' :: rest⟩ := by
  have hbody : ∀ c ∈ body, (c != '\n') = true := by
    intro c hc
    rw [bne_iff_ne]
    rintro rfl
    exact h hc
  have hread : Lexeme.read ⟨offset, '/' :: '/' :: body ++ '\n' :: rest⟩ '/'
      ('/' :: body ++ '\n' :: rest) =
      .ok (.skipped, ⟨offset + Text.width ('/' :: '/' :: body), '\n' :: rest⟩) := by
    have hkind : punctuation? '/' = none := rfl
    have hblank : Text.isBlank '/' = false := rfl
    rw [Lexeme.read, hkind, hblank]
    simp [Lexeme.comment, Cursor.past, List.takeWhile_append_of_pos hbody,
      List.dropWhile_append_of_pos hbody]
  exact Token.scan_of_skipped rfl hread

theorem scan_newline {offset : Nat} {rest : List Char} :
    Token.scan 0 tokens ⟨offset, '\n' :: rest⟩ =
      Token.scan 0 (⟨.newline, ⟨offset, offset + 1⟩⟩ :: tokens) ⟨offset + 1, rest⟩ := by
  have hread : Lexeme.read ⟨offset, '\n' :: rest⟩ '\n' rest =
      .ok (.token .newline, ⟨offset + 1, rest⟩) := rfl
  rw [Token.scan_of_cons rfl, hread]
  rfl

/-- Leading lines are split into newlines. -/
theorem scan {k : Nat} {p s : List Char} (h : LeadingLines k p) (offset : Nat) :
    ∃ newlines : List Token, (∀ t ∈ newlines, t.kind = .newline) ∧
      ∀ tokens, Token.scan 0 tokens ⟨offset, p ++ s⟩ =
        Token.scan 0 (newlines ++ tokens) ⟨offset + Text.width p, s⟩ := by
  induction h generalizing offset with
  | nil => exact ⟨[], by simp, fun tokens => rfl⟩
  | @line k blank comment rest hblank hcomment hrest ih =>
    have hcomment : ∀ offset tokens,
        Token.scan 0 tokens ⟨offset, comment ++ '\n' :: (rest ++ s)⟩ =
          Token.scan 0 tokens ⟨offset + Text.width comment, '\n' :: (rest ++ s)⟩ := by
      intro offset tokens
      rcases hcomment with rfl | ⟨body, rfl, hbody⟩
      · rfl
      · exact scan_comment hbody
    -- The first line leaves one newline, and the others follow behind it.
    generalize hbreak : offset + Text.width blank + Text.width comment = lineBreak
    obtain ⟨newlines, hnewlines, hscan⟩ := ih (lineBreak + 1)
    refine ⟨newlines ++ [⟨.newline, ⟨lineBreak, lineBreak + 1⟩⟩], ?_, fun tokens => ?_⟩
    · intro t ht
      rcases List.mem_append.1 ht with ht | ht
      · exact hnewlines t ht
      · rw [List.mem_singleton.1 ht]
    · have hnewline : '\n'.utf8Size = 1 := rfl
      have hwidth : offset + Text.width (blank ++ comment ++ '\n' :: rest) =
          lineBreak + 1 + Text.width rest := by
        simp only [Text.width_append, Text.width_cons, hnewline]
        omega
      rw [hwidth, List.append_assoc, List.append_assoc, List.append_assoc, List.cons_append,
        scan_blank hblank, hcomment, hbreak, scan_newline, hscan, List.singleton_append]

end LeadingLines

/-- The tokens of a source behind leading lines are a newline for each of these lines and the moved
tokens of the source, and a fault is the moved fault. -/
theorem Tokens.ofSource_leadingLines {k : Nat} {p s : List Char} (h : LeadingLines k p)
    (hsize : Text.width (p ++ s) ≤ maxSourceBytes) :
    ∃ newlines : List Token, (∀ t ∈ newlines, t.kind = .newline) ∧
      Tokens.ofSource (p ++ s) =
        match Tokens.ofSource s with
        | .ok tokens =>
          .ok ⟨newlines ++ tokens.items.map (·.shift (Text.width p)), tokens.stop + Text.width p⟩
        | .error fault => .error (fault.shift (Text.width p)) := by
  obtain ⟨newlines, hnewlines, hscan⟩ := h.scan (s := s) 0
  have hsmall : Text.width s ≤ maxSourceBytes := by
    rw [Text.width_append] at hsize
    omega
  refine ⟨newlines.reverse, fun t ht => hnewlines t (List.mem_reverse.1 ht), ?_⟩
  rw [Tokens.ofSource, Tokens.ofSource, if_neg (Nat.not_lt.2 hsize), if_neg (Nat.not_lt.2 hsmall)]
  have hshift := Token.scan_shift (Text.width p) 0 [] newlines (.ofText s)
  rw [List.map_nil, List.nil_append] at hshift
  rw [← hshift, ← List.append_nil newlines]
  exact hscan []

end Script

end RegexAudit
