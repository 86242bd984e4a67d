import Mathlib.Data.List.Forall2
import RegexAudit.Proofs.Script.Tokens

/-!
# How escapes are spelled

An escape between regular quotes is a backslash with one of eight letters, or a backslash, the
letter `u` and four hexadecimal digits. One further spelling is read: the four bytes behind `u` may
also be a plus sign and three digits. Each of these spellings is an entry of its own, and there are
no others.

## Main definitions

* `Numeral.HexDigit`: the hexadecimal digits and their values.
* `Escape.Spells`: the spellings of a character as an escape.
* `Escape.SpellsSigned`: the spelling with a plus sign.

## Main statements

* `Numeral.digit?_eq_some_iff`, `Numeral.scalar?_four`: what digits are read as.
* `Script.Quote.spells_escape_iff`: the spellings of the escapes between regular quotes.
* `Script.Entry.next_escape`: each of them is read as an escape, whatever follows it.
* `Script.Tokens.escape_spelled`: the escapes in the literals of a source.
-/

namespace RegexAudit

namespace Numeral

/-- The hexadecimal digits in the order of their values, with small letters. -/
def smallDigits : List Char :=
  ['0', '1', '2', '3', '4', '5', '6', '7', '8', '9', 'a', 'b', 'c', 'd', 'e', 'f']

/-- The hexadecimal digits in the order of their values, with capital letters. -/
def capitalDigits : List Char :=
  ['0', '1', '2', '3', '4', '5', '6', '7', '8', '9', 'A', 'B', 'C', 'D', 'E', 'F']

/-- The character is the hexadecimal digit with the value. -/
def HexDigit (value : Nat) (c : Char) : Prop :=
  smallDigits[value]? = some c ∨ capitalDigits[value]? = some c

instance (value : Nat) (c : Char) : Decidable (HexDigit value c) :=
  inferInstanceAs (Decidable (_ ∨ _))

theorem HexDigit.lt {n : Nat} {c : Char} (h : HexDigit n c) : n < 16 := by
  rcases h with h | h
  · exact (List.getElem?_eq_some_iff.1 h).1
  · exact (List.getElem?_eq_some_iff.1 h).1

/-- Digits are characters of ASCII, up to the small letter `f`. -/
theorem toNat_lt_of_digit? {c : Char} {n : Nat} (h : digit? 16 c = some n) : c.toNat < 103 := by
  rw [digit?, Option.filter_eq_some_iff] at h
  obtain ⟨h, -⟩ := h
  have hle : ∀ d : Char, c ≤ d → c.toNat ≤ d.toNat := fun d hd => hd
  split at h
  · next hc => exact Nat.lt_of_le_of_lt (hle _ hc.2) (by decide)
  · split at h
    · next hc => exact Nat.lt_of_le_of_lt (hle _ hc.2) (by decide)
    · split at h
      · next hc => exact Nat.lt_of_le_of_lt (hle _ hc.2) (by decide)
      · simp at h

/-- What is read as a digit of the radix sixteen are the hexadecimal digits. -/
theorem digit?_eq_some_iff {c : Char} {n : Nat} : digit? 16 c = some n ↔ HexDigit n c := by
  constructor
  · intro h
    have hall : ∀ k < 103, ∀ m ∈ digit? 16 (Char.ofNat k), HexDigit m (Char.ofNat k) := by decide
    have hc := hall c.toNat (toNat_lt_of_digit? h)
    rw [Char.ofNat_toNat] at hc
    exact hc n h
  · intro h
    have hall : ∀ k < 16, smallDigits[k]?.map (digit? 16) = some (some k) ∧
        capitalDigits[k]?.map (digit? 16) = some (some k) := by decide
    obtain ⟨hsmall, hcapital⟩ := hall n h.lt
    rcases h with h | h
    · rw [h] at hsmall
      exact Option.some.inj hsmall
    · rw [h] at hcapital
      exact Option.some.inj hcapital

theorem HexDigit.utf8Size {n : Nat} {c : Char} (h : HexDigit n c) : c.utf8Size = 1 := by
  have hall : (smallDigits ++ capitalDigits).all (·.utf8Size == 1) = true := rfl
  have hone : ∀ d ∈ smallDigits ++ capitalDigits, d.utf8Size = 1 :=
    fun d hd => beq_iff_eq.1 (List.all_eq_true.1 hall d hd)
  rcases h with h | h
  · exact hone c (List.mem_append_left _ (List.mem_of_getElem? h))
  · exact hone c (List.mem_append_right _ (List.mem_of_getElem? h))

/-- The number with these digits to the base sixteen, the most significant one first. -/
def hexNumber (digits : List Nat) : Nat := digits.foldl (fun n d => n * 16 + d) 0

/-- The text consists of hexadecimal digits that spell the scalar value of the character. -/
def SpellsScalar (value : Char) (text : List Char) : Prop :=
  ∃ digits, List.Forall₂ HexDigit digits text ∧ hexNumber digits = value.toNat

/-- A number is continued with hexadecimal digits and with nothing else. -/
theorem extend?_eq_some_iff {start n : Nat} {text : List Char} :
    extend? 16 start text = some n ↔
      ∃ digits, List.Forall₂ HexDigit digits text ∧
        digits.foldl (fun n d => n * 16 + d) start = n := by
  induction text generalizing start with
  | nil => simp [extend?]
  | cons c cs ih =>
    simp only [extend?, Option.bind_eq_bind, Option.bind_eq_some_iff, digit?_eq_some_iff, ih]
    constructor
    · rintro ⟨d, hd, digits, hdigits, rfl⟩
      exact ⟨d :: digits, .cons hd hdigits, rfl⟩
    · rintro ⟨_, _ | ⟨hd, hdigits⟩, rfl⟩
      exact ⟨_, hd, _, hdigits, rfl⟩

/-- Hexadecimal digits take one byte each. -/
theorem SpellsScalar.width {value : Char} {text : List Char} (h : SpellsScalar value text) :
    Text.width text = text.length := by
  obtain ⟨digits, hdigits, -⟩ := h
  induction hdigits with
  | nil => rfl
  | cons hd _ ih => rw [Text.width_cons, hd.utf8Size, ih, List.length_cons, Nat.add_comm]

/-- A character is found under its own scalar value and no other. -/
theorem charOfScalar?_eq_some_iff {n : Nat} {c : Char} :
    charOfScalar? n = some c ↔ n = c.toNat := by
  by_cases hn : n.isValidChar
  · rw [charOfScalar?, dif_pos hn, Option.some.injEq]
    constructor
    · rintro rfl
      rfl
    · rintro rfl
      exact (dif_pos hn).symm.trans (Char.ofNat_toNat c)
  · rw [charOfScalar?, dif_neg hn]
    simp only [reduceCtorEq, false_iff]
    rintro rfl
    exact hn c.valid

/-- A character is found for its scalar value in hexadecimal digits. -/
theorem charOfDigits_eq_some_iff {value : Char} {text : List Char} :
    (ofDigits? 16 text).bind charOfScalar? = some value ↔ text ≠ [] ∧ SpellsScalar value text := by
  cases text with
  | nil => simp [ofDigits?]
  | cons c cs =>
    simp only [ofDigits?, List.isEmpty_cons, Bool.false_eq_true, if_false, Option.bind_eq_some_iff,
      extend?_eq_some_iff, charOfScalar?_eq_some_iff, ne_eq, reduceCtorEq, not_false_eq_true,
      true_and]
    constructor
    · rintro ⟨_, ⟨digits, hdigits, rfl⟩, hvalue⟩
      exact ⟨digits, hdigits, hvalue⟩
    · rintro ⟨digits, hdigits, hvalue⟩
      exact ⟨_, ⟨digits, hdigits, rfl⟩, hvalue⟩

theorem not_hexDigit_plus (n : Nat) : ¬HexDigit n '+' := by
  intro h
  rcases h with h | h
  · exact absurd (List.mem_of_getElem? h) (by decide)
  · exact absurd (List.mem_of_getElem? h) (by decide)

/-- A character is found for its scalar value in hexadecimal digits, and also with a plus sign in
front of them. -/
theorem scalar?_eq_some_iff {value : Char} {text : List Char} :
    scalar? text = some value ↔ text ≠ [] ∧ SpellsScalar value text ∨
      ∃ digits, text = '+' :: digits ∧ digits ≠ [] ∧ SpellsScalar value digits := by
  rw [scalar?]
  by_cases hplus : ∃ digits, text = '+' :: digits
  · obtain ⟨digits, rfl⟩ := hplus
    have hsign : ¬SpellsScalar value ('+' :: digits) := by
      rintro ⟨_, _ | ⟨hd, -⟩, -⟩
      exact not_hexDigit_plus _ hd
    rw [ofSigned?, charOfDigits_eq_some_iff]
    simp [hsign]
  · have hplain : ofSigned? 16 text = ofDigits? 16 text := by
      rw [ofSigned?]
      rintro digits rfl
      exact hplus ⟨digits, rfl⟩
    rw [hplain, charOfDigits_eq_some_iff]
    simp only [not_exists] at hplus
    simp [hplus]

end Numeral

namespace Escape

/-- The letters that a backslash makes an escape, each with the character that it stands for. -/
def letters : List (Char × Char) :=
  [('\\', '\\'), ('"', '"'), ('\x27', '\x27'), ('$', '$'), ('n', '\n'), ('t', '\t'), ('r', '\r'),
    ('b', '\x08')]

/-- The text is an escape that stands for the character: a backslash and a letter, or a backslash,
the letter `u` and the scalar value in four hexadecimal digits. -/
inductive Spells : Char → List Char → Prop
  | letter {letter value : Char} : (letter, value) ∈ letters → Spells value ['\\', letter]
  | unicode {digits : List Char} {value : Char} :
      digits.length = 4 → Numeral.SpellsScalar value digits → Spells value ('\\' :: 'u' :: digits)

/-- The text is an escape in which a plus sign takes the place of the first of the four digits. -/
inductive SpellsSigned : Char → List Char → Prop
  | mk {digits : List Char} {value : Char} :
      digits.length = 3 → Numeral.SpellsScalar value digits →
        SpellsSigned value ('\\' :: 'u' :: '+' :: digits)

/-- A plus sign behind `u` is not the first of four digits. -/
theorem not_spells_plus (value : Char) (digits : List Char) :
    ¬Spells value ('\\' :: 'u' :: '+' :: digits) := by
  rintro (_ | ⟨-, _, _ | ⟨hplus, -⟩, -⟩)
  exact Numeral.not_hexDigit_plus _ hplus

theorem SpellsSigned.not_spells {value : Char} {text : List Char} (h : SpellsSigned value text) :
    ¬Spells value text := by
  cases h with
  | mk => exact not_spells_plus value _

theorem ofLetter?_eq_some_iff {letter value : Char} :
    ofLetter? letter = some value ↔ (letter, value) ∈ letters := by
  constructor
  · intro h
    unfold ofLetter? at h
    split at h <;> simp_all [letters, eq_comm]
  · intro h
    simp only [letters, List.mem_cons, Prod.mk.injEq, List.not_mem_nil, or_false] at h
    rcases h with ⟨rfl, rfl⟩ | ⟨rfl, rfl⟩ | ⟨rfl, rfl⟩ | ⟨rfl, rfl⟩ | ⟨rfl, rfl⟩ | ⟨rfl, rfl⟩ |
      ⟨rfl, rfl⟩ | ⟨rfl, rfl⟩
    all_goals rfl

/-- Four bytes behind `u` that are read as a character are digits, or a plus sign and digits. -/
theorem spells_of_scalar? {digits : List Char} {value : Char} (hwidth : Text.width digits = 4)
    (h : Numeral.scalar? digits = some value) :
    Spells value ('\\' :: 'u' :: digits) ∨ SpellsSigned value ('\\' :: 'u' :: digits) := by
  rcases Numeral.scalar?_eq_some_iff.1 h with ⟨-, hspells⟩ | ⟨digits, rfl, -, hspells⟩
  · rw [hspells.width] at hwidth
    exact .inl (.unicode hwidth hspells)
  · have hplus : '+'.utf8Size = 1 := rfl
    rw [Text.width_cons, hplus, hspells.width] at hwidth
    exact .inr (.mk (by omega) hspells)

end Escape

namespace Script

/-- The spellings of the escapes between regular quotes. -/
theorem Quote.spells_escape_iff {value : Char} {text : List Char} :
    Quote.Spells .regular (.escape value) text ↔
      Escape.Spells value text ∨ Escape.SpellsSigned value text := by
  constructor
  · intro h
    cases h with
    | letter hletter => exact .inl (.letter (Escape.ofLetter?_eq_some_iff.1 hletter))
    | unicode hwidth hvalue => exact Escape.spells_of_scalar? hwidth hvalue
  · rintro (h | h)
    · cases h with
      | letter hletter => exact .letter (Escape.ofLetter?_eq_some_iff.2 hletter)
      | unicode hlength hspells =>
        have hne := List.ne_nil_of_length_pos (Nat.lt_of_lt_of_eq (Nat.succ_pos 3) hlength.symm)
        exact .unicode (hspells.width.trans hlength)
          (Numeral.scalar?_eq_some_iff.2 (.inl ⟨hne, hspells⟩))
    · cases h with
      | mk hlength hspells =>
        have hne := List.ne_nil_of_length_pos (Nat.lt_of_lt_of_eq (Nat.succ_pos 2) hlength.symm)
        have hplus : '+'.utf8Size = 1 := rfl
        refine .unicode ?_ (Numeral.scalar?_eq_some_iff.2 (.inr ⟨_, rfl, hne, hspells⟩))
        rw [Text.width_cons, hplus, hspells.width, hlength]

/-- Between regular quotes, an escape is read as an entry with the character that it stands for,
whatever follows it. -/
theorem Entry.next_escape {opened : Nat} {c : Cursor} {value : Char} {text rest : List Char}
    (h : Quote.Spells .regular (.escape value) text) (hrest : c.rest = text ++ rest) :
    Entry.next .regular opened c = .ok (Entry.spell c (.escape value) text rest) := by
  cases h with
  | letter hletter =>
    rw [Entry.next, hrest]
    simp only [List.cons_append, List.nil_append, if_true, Entry.escape, hletter]
  | @unicode digits _ hwidth hvalue =>
    have hsplit : Text.splitAt? 4 (digits ++ rest) = some (digits, rest) := by
      rw [← hwidth, Text.splitAt?_width_append]
    have hletter : Escape.ofLetter? 'u' = none := rfl
    rw [Entry.next, hrest]
    simp only [List.cons_append, if_true, Entry.escape, hletter, Entry.unicodeEscape, hsplit,
      hvalue]

namespace Tokens

/-- Between regular quotes, every escape of a source is a backslash with a letter, or with `u` and
four hexadecimal digits, or else with `u`, a plus sign and three digits, and it stands for the
character that these tell. Between raw quotes, every escape is a single backslash and stands for
itself. Wherever such a spelling is met between regular quotes, it is read as this escape. -/
theorem escape_spelled {source : List Char} {tokens : Tokens}
    (h : Tokens.ofSource source = .ok tokens) {l : StringLiteral} (hl : tokens.HasLiteral l)
    {e : Entry} (he : e ∈ l.entries) {value : Char} (hkind : e.kind = .escape value) :
    (l.raw = false → (Escape.Spells value e.text ∨ Escape.SpellsSigned value e.text) ∧
      ¬(Escape.Spells value e.text ∧ Escape.SpellsSigned value e.text)) ∧
    (l.raw = true → e.text = ['\\'] ∧ value = '\\') ∧
    ∀ (value : Char) (text : List Char),
      Escape.Spells value text ∨ Escape.SpellsSigned value text →
        ∀ (opened : Nat) (c : Cursor) (rest : List Char), c.rest = text ++ rest →
          Entry.next .regular opened c = .ok (Entry.spell c (.escape value) text rest) := by
  obtain ⟨q, c, d, hraw, -, hstands⟩ := Tokens.exists_entry_stands h hl he
  have hspelled := hstands.spelled
  rw [hkind] at hspelled
  refine ⟨?_, ?_, fun value text hspells opened c rest hrest =>
    Entry.next_escape (Quote.spells_escape_iff.2 hspells) hrest⟩
  · intro hregular
    cases q with
    | regular =>
      exact ⟨Quote.spells_escape_iff.1 hspelled, fun hboth => hboth.2.not_spells hboth.1⟩
    | raw =>
      rw [hregular] at hraw
      cases hraw
  · intro hquotes
    cases q with
    | regular =>
      rw [hquotes] at hraw
      cases hraw
    | raw =>
      generalize e.text = text at hspelled ⊢
      cases hspelled
      exact ⟨rfl, rfl⟩

namespace Capital

/-- The source `"\n\u00E9"`. -/
def source : List Char := ['"', '\\', 'n', '\\', 'u', '0', '0', 'E', '9', '"']

/-- The entry of the second escape. -/
def entry : Entry := ⟨.escape 'é', ['\\', 'u', '0', '0', 'E', '9'], ⟨3, 9⟩⟩

/-- The literal of the source. -/
def literal : StringLiteral := ⟨false, [⟨.escape '\n', ['\\', 'n'], ⟨1, 3⟩⟩, entry]⟩

/-- The tokens of the source. -/
def tokens : Tokens := ⟨[⟨.string literal, ⟨0, 10⟩⟩], 10⟩

theorem ofSource_source : Tokens.ofSource source = .ok tokens := by
  with_unfolding_all rfl

theorem hasLiteral : tokens.HasLiteral literal := ⟨⟨0, 10⟩, List.mem_singleton.2 rfl⟩

end Capital

/-- The digits of an escape may be capital letters. -/
theorem escape_spelled_capital :
    Tokens.ofSource Capital.source = .ok Capital.tokens ∧
      Tokens.HasLiteral Capital.tokens Capital.literal ∧
      Escape.Spells 'é' ['\\', 'u', '0', '0', 'E', '9'] := by
  refine ⟨Capital.ofSource_source, Capital.hasLiteral, ?_⟩
  have hentry : Capital.entry ∈ Capital.literal.entries := by decide
  obtain ⟨hregular, -, -⟩ := escape_spelled Capital.ofSource_source Capital.hasLiteral hentry rfl
  rcases (hregular rfl).1 with hspells | hsigned
  · exact hspells
  · cases hsigned

/-- A plus sign and three digits behind `u` are read as an escape, though there are not four digits:
the source `"\u+041"` holds the character `A`. -/
theorem escape_with_sign :
    ∃ tokens l e, Tokens.ofSource ['"', '\\', 'u', '+', '0', '4', '1', '"'] = .ok tokens ∧
      Tokens.HasLiteral tokens l ∧ l.raw = false ∧ e ∈ l.entries ∧ e.kind = .escape 'A' ∧
      ¬Escape.Spells 'A' e.text := by
  let e : Entry := ⟨.escape 'A', ['\\', 'u', '+', '0', '4', '1'], ⟨1, 7⟩⟩
  refine ⟨⟨[⟨.string ⟨false, [e]⟩, ⟨0, 8⟩⟩], 8⟩, ⟨false, [e]⟩, e, ?_, ⟨⟨0, 8⟩, ?_⟩, rfl, ?_,
    rfl, ?_⟩
  · with_unfolding_all rfl
  · exact List.mem_singleton.2 rfl
  · exact List.mem_singleton.2 rfl
  · exact Escape.not_spells_plus 'A' _

end Tokens

end Script

end RegexAudit
