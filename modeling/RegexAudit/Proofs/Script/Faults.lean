import RegexAudit.Proofs.Script.Tokens

/-!
# Where the lexer fails

A source that cannot be split into tokens is refused at one of its places: at the beginning of an
entry, of a literal or of a lexeme.

## Main definitions

* `Fault.IsAt`, `Fault.IsBehind`: a fault lies at an offset, or behind some text.

## Main statements

* `StringLiteral.read_isBehind`, `Token.scan_isBehind`: a literal and a whole source.
* `Tokens.exists_place_of_error`: the place of the fault.
-/

namespace RegexAudit

namespace Script

/-- The fault is one of the text at an offset, and not of its size. -/
structure Fault.IsAt (offset : Nat) (fault : Fault) : Prop where
  offset : fault.offset = offset
  ordinary : ∀ bytes, fault.cause ≠ .oversized bytes

/-- The fault lies behind some text that is read from a place on. -/
def Fault.IsBehind (c : Cursor) (fault : Fault) : Prop :=
  ∃ text d, c.Reads text d ∧ fault.IsAt d.offset

namespace Fault.IsBehind

variable {c d : Cursor} {fault : Fault}

theorem here (h : fault.IsAt c.offset) : fault.IsBehind c := ⟨[], c, ⟨rfl, rfl⟩, h⟩

theorem after {text : List Char} (h : c.Reads text d) (hfault : fault.IsBehind d) :
    fault.IsBehind c := by
  obtain ⟨more, e, hmore, hat⟩ := hfault
  exact ⟨text ++ more, e, h.append hmore, hat⟩

/-- A fault behind a place of a text lies in the text. -/
theorem exists_place {s : List Char} (h : fault.IsBehind c) (hc : c.In s) :
    ∃ d : Cursor, d.In s ∧ fault.IsAt d.offset := by
  obtain ⟨text, d, hreads, hat⟩ := h
  exact ⟨d, hreads.in_source hc, hat⟩

end Fault.IsBehind

namespace Entry

variable {c : Cursor} {cs : List Char} {fault : Fault}

theorem unicodeEscape_fault (h : unicodeEscape c cs = .error fault) : fault.IsAt c.offset := by
  unfold unicodeEscape at h
  split at h
  · rw [← Except.error.inj h]
    exact ⟨rfl, by simp⟩
  · split at h
    · rw [← Except.error.inj h]
      exact ⟨rfl, by simp⟩
    · simp at h

theorem escape_fault (h : escape c cs = .error fault) : fault.IsAt c.offset := by
  unfold escape at h
  split at h
  · rw [← Except.error.inj h]
    exact ⟨rfl, by simp⟩
  · split at h
    · simp at h
    · split at h
      · exact unicodeEscape_fault h
      · rw [← Except.error.inj h]
        exact ⟨rfl, by simp⟩

theorem template_fault (h : template c cs = .error fault) : fault.IsAt c.offset := by
  unfold template at h
  split at h
  · split at h
    · rw [← Except.error.inj h]
      exact ⟨rfl, by simp⟩
    · simp at h
  · simp at h

/-- An entry fails where it begins, or where the literal was opened. -/
theorem next_fault {q : Quote} {opened : Nat} (h : next q opened c = .error fault) :
    fault.IsAt c.offset ∨ fault.IsAt opened := by
  unfold next at h
  split at h
  · rw [← Except.error.inj h]
    exact .inr ⟨rfl, by cases q <;> simp [Quote.unterminated]⟩
  · split at h
    · split at h
      · exact .inl (escape_fault h)
      · simp at h
    · split at h
      · exact .inl (template_fault h)
      · split at h
        · rw [← Except.error.inj h]
          exact .inr ⟨rfl, by simp⟩
        · simp at h

end Entry

/-- A literal fails behind a part of it, or where it was opened. -/
theorem StringLiteral.read_isBehind {q : Quote} {opened : Nat} {entries : List Entry} {c : Cursor}
    {fault : Fault} (h : StringLiteral.read q opened entries c = .error fault) :
    fault.IsBehind c ∨ fault.IsAt opened := by
  fun_induction StringLiteral.read q opened entries c with
  | case1 => simp at h
  | case2 entries c hclose fault' hnext =>
    rw [Except.error.inj h] at hnext
    exact (Entry.next_fault hnext).imp_left .here
  | case3 entries c hclose e d hnext ih =>
    exact (ih h).imp_left (.after (Entry.next_stands hnext).reads)

theorem Quote.opening_reads {c : Cursor} {cs : List Char} (h : c.rest = '"' :: cs) :
    c.Reads (opening cs).1.mark (c.past (opening cs).1.mark (opening cs).2) :=
  Cursor.reads_past (by rw [h, Quote.opening_mark])

theorem integerOf_ordinary {radix : Nat} {spelling : List Char} {cause : Cause}
    (h : integerOf radix spelling = .error cause) (bytes : Nat) : cause ≠ .oversized bytes := by
  unfold integerOf at h
  split at h
  · rw [← Except.error.inj h]
    simp
  · split at h
    · simp at h
    · rw [← Except.error.inj h]
      simp

namespace Lexeme

variable {c : Cursor} {ch : Char} {cs : List Char} {fault : Fault}

theorem comment_fault (h : comment c cs = .error fault) : fault.IsAt c.offset := by
  unfold comment at h
  split at h
  · simp at h
  · split at h
    · rw [← Except.error.inj h]
      exact ⟨rfl, by simp⟩
    · simp at h
  · rw [← Except.error.inj h]
    exact ⟨rfl, by simp⟩

theorem integer_fault (h : integer c = .error fault) : fault.IsAt c.offset := by
  unfold integer at h
  dsimp only at h
  split at h
  · next hvalue =>
    rw [← Except.error.inj h]
    exact ⟨rfl, integerOf_ordinary hvalue⟩
  · simp at h

theorem string_isBehind (hrest : c.rest = '"' :: cs) (h : string c cs = .error fault) :
    fault.IsBehind c := by
  unfold string at h
  dsimp only at h
  split at h
  · next hread =>
    rw [Except.error.inj h] at hread
    -- The entries begin behind the opening mark.
    exact (StringLiteral.read_isBehind hread).elim (.after (Quote.opening_reads hrest)) .here
  · simp at h

/-- A reading step fails behind a part of what it reads. -/
theorem read_isBehind (hrest : c.rest = ch :: cs) (h : read c ch cs = .error fault) :
    fault.IsBehind c := by
  unfold read at h
  split at h
  · simp at h
  · split at h
    · simp at h
    · split at h
      · exact .here (comment_fault h)
      · split at h
        · next hquote => exact string_isBehind (by rw [hrest, hquote]) h
        · split at h
          · exact .here (integer_fault h)
          · split at h
            · simp at h
            · rw [← Except.error.inj h]
              exact .here ⟨rfl, by simp⟩

end Lexeme

/-- Scanning fails behind a part of what is scanned. -/
theorem Token.scan_isBehind {depth : Nat} {tokens : List Token} {c : Cursor} {fault : Fault}
    (h : Token.scan depth tokens c = .error fault) : fault.IsBehind c := by
  fun_induction Token.scan depth tokens c with
  | case1 => simp at h
  | case2 depth tokens c ch cs hrest fault' hread =>
    rw [Except.error.inj h] at hread
    exact Lexeme.read_isBehind hrest hread
  | case3 depth tokens c ch cs hrest d hread ih =>
    obtain ⟨text, htext⟩ := (Lexeme.read_stands hrest hread).reads
    exact .after htext (ih h)
  | case4 depth tokens c ch cs hrest kind d hread ih =>
    obtain ⟨text, htext⟩ := (Lexeme.read_stands hrest hread).reads
    exact .after htext (ih h)

/-- A source that is not too long is refused at a place of it. -/
theorem Tokens.exists_place_of_error {source : List Char} {fault : Fault}
    (hsize : Text.width source ≤ maxSourceBytes) (h : Tokens.ofSource source = .error fault) :
    ∃ d : Cursor, d.In source ∧ fault.IsAt d.offset := by
  rw [Tokens.ofSource, if_neg (Nat.not_lt.2 hsize)] at h
  exact (Token.scan_isBehind h).exists_place (Cursor.ofText_in source)

end Script

end RegexAudit
