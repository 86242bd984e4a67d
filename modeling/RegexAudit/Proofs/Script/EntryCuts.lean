import RegexAudit.Proofs.Script.Cutting
import RegexAudit.Proofs.Script.Faults
import RegexAudit.Proofs.Text.Position

/-!
# No cut of a literal fails

The lexer that keeps an offset reads the literals of a source as the lexer that keeps the rest of it
does. Every offset that it cuts at belongs to a place of the source: plain characters are passed one
by one, and an escape or a template by the text that it has.

## Main definitions

* `OffsetLexer.Effect.of`: what a character of a literal does, given what follows it.
* `OffsetLexer.GoesOn`: the rounds of a literal read an entry and go on behind it.

## Main statements

* `OffsetLexer.rest_eq`, `OffsetLexer.text_eq`, `OffsetLexer.span_eq`: cuts at places succeed.
* `OffsetLexer.escape_eq`, `OffsetLexer.template_eq`: an escape and a template.
* `OffsetLexer.literal_run`: plain characters, up to the next interruption.
* `OffsetLexer.literal_next`, `OffsetLexer.literal_eq`: the next entry, and a whole literal.
-/

namespace RegexAudit

/-- The text that a span covers from a place of a source on. -/
theorem Cursor.In.slice?_eq {s : List Char} {c : Cursor} (hc : c.In s) (n : Nat) :
    Text.slice? s ⟨c.offset, c.offset + n⟩ = (Text.splitAt? n c.rest).map (·.1) := by
  obtain ⟨before, rfl, hbefore⟩ := hc
  rw [Text.slice?, Text.drop?_eq, ← hbefore, Text.splitAt?_width_append, guard,
    if_pos (Nat.le_add_right _ _), Span.length, Nat.add_sub_cancel_left]
  show (Text.splitAt? n c.rest).bind (fun halves => some halves.1) = _
  cases Text.splitAt? n c.rest with
  | none => rfl
  | some halves => rfl

/-- The place behind a text that has been read. -/
theorem Cursor.Reads.eq_past {c d : Cursor} {text : List Char} (h : c.Reads text d) :
    d = c.past text d.rest := by
  rw [Cursor.past, ← h.offset]

namespace Script

namespace Cutting

variable {α : Type}

@[simp]
theorem cut_some (a : α) : cut (some a) = pure a := rfl

@[simp]
theorem ofExcept_ok (a : α) : ofExcept (.ok a) = pure a := rfl

end Cutting

namespace OffsetLexer

section Looks

variable {s : List Char} {c d : Cursor} {piece : List Char}

theorem rest_eq (hc : c.In s) : rest s c.offset = pure c.rest := by
  obtain ⟨before, rfl, hbefore⟩ := hc
  rw [rest, Text.drop?_eq, ← hbefore, Text.splitAt?_width_append]
  rfl

theorem current_eq (hc : c.In s) : current s c.offset = pure c.rest.head? := by
  rw [current, rest_eq hc, pure_bind]

theorem peek_eq (hc : c.In s) (skip : Nat) : peek s c.offset skip = pure c.rest[skip]? := by
  rw [peek, rest_eq hc, pure_bind]

theorem startsWith_eq (hc : c.In s) (piece : List Char) :
    startsWith s c.offset piece = pure (piece.isPrefixOf c.rest) := by
  rw [startsWith, rest_eq hc, pure_bind]

theorem text_eq (h : c.Reads piece d) (hc : c.In s) : text s c.offset d.offset = pure piece := by
  have hslice : Text.slice? s ⟨c.offset, d.offset⟩ = some piece := h.slice? hc
  rw [text, hslice, Cutting.cut_some]

/-- No place in a source that is not too long exceeds what a span holds. -/
theorem textSize_eq (hsize : Text.width s ≤ maxSourceBytes) (hc : c.In s) :
    textSize c.offset = c.offset := by
  obtain ⟨before, rfl, hbefore⟩ := hc
  rw [Text.width_append] at hsize
  exact Nat.min_eq_left (by omega)

theorem span_eq (hsize : Text.width s ≤ maxSourceBytes) (h : c.Reads piece d) (hc : c.In s) :
    span c.offset d.offset = pure (c.spanTo d) := by
  have hle : c.offset ≤ d.offset := by
    rw [h.offset]
    exact Nat.le_add_right _ _
  rw [span, textSize_eq hsize hc, textSize_eq hsize (h.in_source hc), if_pos hle, Cutting.cut_some]
  rfl

theorem entry_eq (hsize : Text.width s ≤ maxSourceBytes) (h : c.Reads piece d) (hc : c.In s)
    (kind : EntryKind) : entry s kind c.offset d.offset = pure ⟨kind, piece, c.spanTo d⟩ := by
  rw [entry, text_eq h hc, pure_bind, span_eq hsize h hc, pure_bind]

theorem nameEnd_eq (hc : c.In s) :
    nameEnd s c.offset = pure (c.offset + Text.width (c.rest.takeWhile isNameContinue)) := by
  rw [nameEnd, rest_eq hc, pure_bind]

end Looks

section Literals

variable {s : List Char} {c : Cursor} {q : Quote} {opened : Nat}

/-- A letter that is escaped takes one byte. -/
theorem utf8Size_of_ofLetter? {letter value : Char} (h : Escape.ofLetter? letter = some value) :
    letter.utf8Size = 1 := by
  unfold Escape.ofLetter? at h
  split at h
  any_goals rfl
  cases h

theorem escapeValue_eq (hc : c.In s) {letter : Char} {cs : List Char}
    (hrest : c.rest = '\\' :: letter :: cs) : escapeValue s c.offset =
      match Escape.ofLetter? letter with
      | some value => pure (value, 2)
      | none =>
        if letter = 'u' then
          match Text.splitAt? 4 cs with
          | none => .refuse ⟨.invalidUnicodeEscape [], c.offset⟩
          | some (digits, _) =>
            match Numeral.scalar? digits with
            | none => .refuse ⟨.invalidUnicodeEscape digits, c.offset⟩
            | some value => pure (value, 6)
        else .refuse ⟨.illegalEscape letter, c.offset⟩ := by
  rw [escapeValue, peek_eq hc, pure_bind, hrest]
  cases hletter : Escape.ofLetter? letter with
  | some value => simp only [List.getElem?_cons_succ, List.getElem?_cons_zero, hletter]
  | none =>
    simp only [List.getElem?_cons_succ, List.getElem?_cons_zero, hletter]
    by_cases hu : letter = 'u'
    · subst hu
      have hdigits : Text.slice? s ⟨c.offset + 2, c.offset + 6⟩ =
          (Text.splitAt? 4 cs).map (·.1) :=
        (hc.past (show c.rest = ['\\', 'u'] ++ cs from hrest)).slice?_eq 4
      rw [if_pos rfl, if_pos rfl, Text.slice, hdigits]
      cases hsplit : Text.splitAt? 4 cs with
      | none => rfl
      | some halves =>
        obtain ⟨digits, rest⟩ := halves
        have hwidth : Text.width digits = 4 := (Text.splitAt?_eq_some_iff.1 hsplit).2
        simp only [Option.map_some, Option.getD_some, hwidth]
        cases Numeral.scalar? digits with
        | none => rfl
        | some value => rfl
    · rw [if_neg hu, if_neg hu]

theorem escape_eq (hsize : Text.width s ≤ maxSourceBytes) (hc : c.In s) {cs : List Char}
    (hrest : c.rest = '\\' :: cs) : escape s c.offset =
      .ofExcept ((Entry.escape c cs).map fun (e, d) => (e, d.offset)) := by
  cases cs with
  | nil =>
    rw [escape, escapeValue, peek_eq hc, pure_bind, hrest]
    rfl
  | cons letter cs =>
    rw [escape, escapeValue_eq hc hrest, Entry.escape]
    cases hletter : Escape.ofLetter? letter with
    | some value =>
      have hreads : c.Reads ['\\', letter] (c.past ['\\', letter] cs) := Cursor.reads_past hrest
      have hoffset : c.offset + 2 = (c.past ['\\', letter] cs).offset := by
        rw [hreads.offset, Text.width_cons, Text.width_cons, utf8Size_of_ofLetter? hletter]
        rfl
      dsimp only
      rw [pure_bind, hoffset, entry_eq hsize hreads hc, pure_bind]
      rfl
    | none =>
      by_cases hu : letter = 'u'
      · subst hu
        simp only [if_pos, Entry.unicodeEscape]
        cases hsplit : Text.splitAt? 4 cs with
        | none => rfl
        | some halves =>
          obtain ⟨digits, rest⟩ := halves
          obtain ⟨hcs, hwidth⟩ := Text.splitAt?_eq_some_iff.1 hsplit
          dsimp only
          cases Numeral.scalar? digits with
          | none => rfl
          | some value =>
            have hreads : c.Reads ('\\' :: 'u' :: digits) (c.past ('\\' :: 'u' :: digits) rest) :=
              Cursor.reads_past (by rw [hrest, ← hcs]; rfl)
            have hoffset : c.offset + 6 = (c.past ('\\' :: 'u' :: digits) rest).offset := by
              rw [hreads.offset, Text.width_cons, Text.width_cons, hwidth]
              rfl
            dsimp only
            rw [pure_bind, hoffset, entry_eq hsize hreads hc, pure_bind]
            rfl
      · simp only [if_neg hu]
        rfl

/-- The loop over the braces of a template takes one character after the other. -/
theorem closeBraces_cons (hc : c.In s) {ch : Char} {cs : List Char} (hrest : c.rest = ch :: cs)
    (rounds depth : Nat) : closeBraces s opened (rounds + 1) (depth + 1) c.offset =
      closeBraces s opened rounds
        (if ch = '{' then depth + 2 else if ch = '}' then depth else depth + 1)
        (c.past [ch] cs).offset := by
  rw [closeBraces, current_eq hc, pure_bind, hrest]
  rfl

/-- The loop over the braces of a template ends where the lexer finds their end. -/
theorem closeBraces_eq {depth rounds : Nat} {read cs : List Char} {c : Cursor} (hc : c.In s)
    (hrest : c.rest = cs) (hrounds : cs.length < rounds) :
    closeBraces s opened rounds (depth + 1) c.offset =
      match closeBrace? depth read cs with
      | none => .refuse ⟨.unterminatedTemplate, opened⟩
      | some (text, _) => pure (c.offset + Text.width text - Text.width read) := by
  obtain ⟨rounds, rfl⟩ := Nat.exists_eq_succ_of_ne_zero (Nat.ne_zero_of_lt hrounds)
  induction cs generalizing depth rounds read c with
  | nil =>
    rw [closeBraces, current_eq hc, pure_bind, hrest]
    rfl
  | cons ch cs ih =>
    have hnext : (c.past [ch] cs).In s := hc.past hrest
    -- One character less is left, and one more has been read.
    have hstep : ∀ depth' : Nat, closeBraces s opened rounds (depth' + 1) (c.past [ch] cs).offset =
        match closeBrace? depth' (ch :: read) cs with
        | none => .refuse ⟨.unterminatedTemplate, opened⟩
        | some (text, _) => pure (c.offset + Text.width text - Text.width read) := by
      intro depth'
      obtain ⟨rounds, rfl⟩ := Nat.exists_eq_succ_of_ne_zero (show rounds ≠ 0 by
        simp only [List.length_cons] at hrounds
        omega)
      rw [ih hnext rfl rounds (by simpa using hrounds)]
      cases closeBrace? depth' (ch :: read) cs with
      | none => rfl
      | some halves =>
        refine congrArg pure ?_
        simp only [Cursor.past, Text.width_cons, Text.width_nil]
        omega
    rw [closeBraces_cons hc hrest, closeBrace?.eq_def]
    dsimp only
    by_cases hclose : ch = '}'
    · subst hclose
      rw [if_neg (by decide), if_pos rfl, if_pos rfl]
      cases depth with
      | zero =>
        rw [closeBraces]
        refine congrArg pure ?_
        simp only [Cursor.past, Text.width_cons, Text.width_nil, Text.width_reverse]
        omega
      | succ depth => exact hstep depth
    · rw [if_neg hclose, if_neg hclose]
      by_cases hopen : ch = '{'
      · rw [if_pos hopen, if_pos hopen]
        exact hstep (depth + 1)
      · rw [if_neg hopen, if_neg hopen]
        exact hstep depth

theorem nameEnd_template (hc : c.In s) {cs : List Char} (hrest : c.rest = '$' :: cs) :
    nameEnd s (c.offset + 1) =
      pure (c.offset + Text.width ('$' :: cs.takeWhile isNameContinue)) := by
  have hcs : (c.past ['$'] cs).In s := hc.past hrest
  rw [Text.width_cons, ← Nat.add_assoc]
  exact nameEnd_eq hcs

theorem closeBraces_template (hc : c.In s) {cs : List Char} (hrest : c.rest = '$' :: '{' :: cs) :
    closeBraces s c.offset (s.length + 1) 1 (c.offset + 2) =
      match closeBrace? 0 ['{', '$'] cs with
      | none => .refuse ⟨.unterminatedTemplate, c.offset⟩
      | some (text, _) => pure (c.offset + Text.width text) := by
  have hcs : (c.past ['$', '{'] cs).In s := hc.past hrest
  have hrounds : cs.length < s.length + 1 := by
    obtain ⟨before, rfl, -⟩ := hc
    rw [hrest, List.length_append, List.length_cons, List.length_cons]
    omega
  have hclose : closeBraces s c.offset (s.length + 1) (0 + 1) (c.past ['$', '{'] cs).offset =
      match closeBrace? 0 ['{', '$'] cs with
      | none => .refuse ⟨.unterminatedTemplate, c.offset⟩
      | some (text, _) => pure ((c.past ['$', '{'] cs).offset + Text.width text -
          Text.width ['{', '$']) := closeBraces_eq hcs rfl hrounds
  refine hclose.trans ?_
  cases closeBrace? 0 ['{', '$'] cs with
  | none => rfl
  | some halves =>
    refine congrArg pure ?_
    show c.offset + 2 + Text.width halves.1 - 2 = c.offset + Text.width halves.1
    omega

theorem template_eq (hsize : Text.width s ≤ maxSourceBytes) (hc : c.In s) {cs : List Char}
    (hrest : c.rest = '$' :: cs) : template s c.offset =
      .ofExcept ((Entry.template c cs).map fun (e, d) => (e, d.offset)) := by
  have hentry : ∀ {text after : List Char}, c.rest = text ++ after →
      (entry s .interpolation c.offset (c.offset + Text.width text) >>= fun e =>
        pure (e, c.offset + Text.width text)) =
      pure ((Entry.spell c .interpolation text after).1, c.offset + Text.width text) := by
    intro text after h
    have hreads : c.Reads text (c.past text after) := Cursor.reads_past h
    rw [show c.offset + Text.width text = (c.past text after).offset from rfl,
      entry_eq hsize hreads hc, pure_bind]
    rfl
  rw [template, peek_eq hc, pure_bind, hrest]
  by_cases hbrace : ∃ more, cs = '{' :: more
  · obtain ⟨more, rfl⟩ := hbrace
    rw [List.getElem?_cons_succ, List.getElem?_cons_zero, if_pos rfl,
      closeBraces_template hc hrest, Entry.template]
    cases hbody : closeBrace? 0 ['{', '$'] more with
    | none => rfl
    | some halves =>
      obtain ⟨text, after⟩ := halves
      have hsplit : c.rest = text ++ after := by
        rw [hrest, closeBrace?_append hbody]
        rfl
      dsimp only
      rw [pure_bind, hentry hsplit]
      rfl
  · have hother : Entry.template c cs = .ok (Entry.spell c .interpolation
        ('$' :: cs.takeWhile isNameContinue) (cs.dropWhile isNameContinue)) := by
      rw [Entry.template]
      exact fun more hcs => hbrace ⟨more, hcs⟩
    have hsplit : c.rest =
        ('$' :: cs.takeWhile isNameContinue) ++ cs.dropWhile isNameContinue := by
      rw [hrest, List.cons_append, List.takeWhile_append_dropWhile]
    have hhead : ('$' :: cs)[1]? ≠ some '{' := by
      cases cs with
      | nil => nofun
      | cons ch cs =>
        intro h
        cases h
        exact hbrace ⟨cs, rfl⟩
    rw [if_neg hhead, nameEnd_template hc hrest, pure_bind]
    dsimp only
    rw [hentry hsplit, hother]
    rfl

/-- What a character of a literal does, given what follows it. -/
def Effect.of (q : Quote) (ch : Char) (cs : List Char) : Effect :=
  if (q.close? (ch :: cs)).isSome then .close
  else if ch = '\\' then .backslash
  else if ch = '$' ∧ Script.templateFollows cs then .template
  else if ch = '\n' ∧ q = .regular then .newline
  else .plain

/-- A literal is closed where its mark stands. -/
theorem isSome_close? (q : Quote) (s : List Char) :
    (q.close? s).isSome = q.mark.isPrefixOf s := by
  rw [Bool.eq_iff_iff, Option.isSome_iff_exists, List.isPrefixOf_iff_prefix]
  constructor
  · rintro ⟨rest, hrest⟩
    exact ⟨rest, (Quote.close?_eq_some hrest).symm⟩
  · rintro ⟨rest, rfl⟩
    cases q with
    | regular => exact ⟨rest, rfl⟩
    | raw => exact ⟨rest, rfl⟩

theorem templateFollows_eq (hc : c.In s) {ch : Char} {cs : List Char} (hrest : c.rest = ch :: cs) :
    templateFollows s c.offset = pure (Script.templateFollows cs) := by
  rw [templateFollows, peek_eq hc, pure_bind, hrest]
  cases cs with
  | nil => rfl
  | cons next cs => rfl

theorem effect_eq (hc : c.In s) {ch : Char} {cs : List Char} (hrest : c.rest = ch :: cs) :
    effect s q c.offset ch = pure (.of q ch cs) := by
  rw [effect.eq_def, Effect.of]
  by_cases hquote : ch = '"'
  · subst hquote
    rw [if_pos rfl]
    cases q with
    | regular => rfl
    | raw =>
      dsimp only
      rw [startsWith_eq hc, pure_bind, isSome_close?, hrest]
      rfl
  · have hclose : (q.close? (ch :: cs)).isSome = false := by
      rw [isSome_close?]
      cases q <;> simp [Quote.mark, List.isPrefixOf, Ne.symm hquote]
    rw [if_neg hquote, hclose, if_neg Bool.false_ne_true]
    by_cases hbackslash : ch = '\\'
    · rw [if_pos hbackslash, if_pos hbackslash]
    · rw [if_neg hbackslash, if_neg hbackslash]
      by_cases hdollar : ch = '$'
      · subst hdollar
        rw [if_pos rfl, templateFollows_eq hc hrest, pure_bind]
        cases Script.templateFollows cs with
        | true => rfl
        | false => rfl
      · have htemplate : ¬(ch = '$' ∧ Script.templateFollows cs = true) := fun h => hdollar h.1
        rw [if_neg hdollar, if_neg htemplate]
        split
        · rfl
        · rfl

/-- A plain character is one that nothing begins with. -/
theorem Effect.of_eq_plain_iff {ch : Char} {cs : List Char} :
    Effect.of q ch cs = .plain ↔ q.interrupts ch cs = false := by
  rw [Effect.of, Quote.interrupts]
  cases (q.close? (ch :: cs)).isSome with
  | true => simp
  | false =>
    by_cases hbackslash : ch = '\\'
    · simp [hbackslash]
    · by_cases htemplate : ch = '$' ∧ Script.templateFollows cs = true
      · simp [htemplate]
      · by_cases hnewline : ch = '\n' ∧ q = .regular
        · simp [hnewline]
        · have hregular : (q == .regular && ch == '\n') = false := by
            rw [Bool.and_comm]
            simpa using hnewline
          have hdollar : (ch == '$' && Script.templateFollows cs) = false := by
            simpa using htemplate
          rw [if_neg Bool.false_ne_true, if_neg hbackslash, if_neg htemplate, if_neg hnewline,
            hregular, hdollar, beq_false_of_ne hbackslash]
          exact ⟨fun _ => rfl, fun _ => rfl⟩

theorem backslash_eq (hsize : Text.width s ≤ maxSourceBytes) (hc : c.In s) {cs : List Char}
    (hrest : c.rest = '\\' :: cs) : backslash s q c.offset =
      .ofExcept ((Entry.next q opened c).map fun (e, d) => (e, d.offset)) := by
  cases q with
  | regular =>
    have hnext : Entry.next .regular opened c = Entry.escape c cs := by
      rw [Entry.next, hrest]
      rfl
    rw [hnext]
    exact escape_eq hsize hc hrest
  | raw =>
    have hnext : Entry.next .raw opened c =
        .ok (Entry.spell c (.escape '\\') ['\\'] cs) := by
      rw [Entry.next, hrest]
      rfl
    have hreads : c.Reads ['\\'] (c.past ['\\'] cs) := Cursor.reads_past hrest
    have hspan : span c.offset (c.offset + 1) = pure (c.spanTo (c.past ['\\'] cs)) :=
      span_eq hsize hreads hc
    rw [backslash, hspan, pure_bind, hnext]
    rfl

/-- One round inside of a literal. -/
theorem literal_cons (q : Quote) (opened : Nat) (hc : c.In s) {ch : Char} {cs : List Char}
    (hrest : c.rest = ch :: cs) (rounds : Nat) (runStart : Option Nat) (entries : List Entry) :
    literal s q opened (rounds + 1) runStart entries c.offset =
      match Effect.of q ch cs with
      | .newline => .refuse ⟨.unterminatedString, opened⟩
      | .close => do
        let entries ← flush s runStart c.offset entries
        return (⟨q == .raw, entries.reverse⟩, c.offset + Text.width q.mark)
      | .backslash => do
        let entries ← flush s runStart c.offset entries
        let (e, next) ← backslash s q c.offset
        literal s q opened rounds none (e :: entries) next
      | .template => do
        let entries ← flush s runStart c.offset entries
        let (e, next) ← template s c.offset
        literal s q opened rounds none (e :: entries) next
      | .plain =>
        literal s q opened rounds (runStart.or (some c.offset)) entries
          (c.past [ch] cs).offset := by
  rw [literal, current_eq hc, pure_bind, hrest]
  show (effect s q c.offset ch >>= _) = _
  rw [effect_eq hc hrest, pure_bind]
  cases Effect.of q ch cs with
  | newline => rfl
  | close => rfl
  | backslash => rfl
  | template => rfl
  | plain => rfl

/-- Where plain characters end, they are added to the entries. -/
theorem literal_flush (hsize : Text.width s ≤ maxSourceBytes) {b : Cursor} {plain : List Char}
    (hb : b.In s) (hreads : b.Reads plain c)
    (hend : ∀ ch cs, c.rest = ch :: cs → q.interrupts ch cs = true) (rounds : Nat)
    (entries : List Entry) :
    literal s q opened (rounds + 1) (some b.offset) entries c.offset =
      literal s q opened (rounds + 1) none (⟨.literal, plain, b.spanTo c⟩ :: entries) c.offset := by
  have hc := hreads.in_source hb
  have hflush : flush s (some b.offset) c.offset entries =
      flush s none c.offset (⟨.literal, plain, b.spanTo c⟩ :: entries) := by
    show (entry s .literal b.offset c.offset >>= fun e => pure (e :: entries)) = _
    rw [entry_eq hsize hreads hb, pure_bind]
    rfl
  cases hrest : c.rest with
  | nil =>
    rw [literal, literal, current_eq hc, pure_bind, pure_bind, hrest]
    rfl
  | cons ch cs =>
    have heffect : Effect.of q ch cs ≠ .plain := by
      rw [ne_eq, Effect.of_eq_plain_iff, hend ch cs hrest]
      nofun
    rw [literal_cons q opened hc hrest, literal_cons q opened hc hrest, hflush]
    cases hof : Effect.of q ch cs with
    | plain => exact absurd hof heffect
    | newline => rfl
    | close => rfl
    | backslash => rfl
    | template => rfl

/-- Plain characters are added to the entries at once, up to the next interruption. -/
theorem literal_run (opened : Nat) (hsize : Text.width s ≤ maxSourceBytes) {b : Cursor}
    (hb : b.In s) {read text rest cs : List Char} (hrun : q.run read cs = (text, rest))
    {rounds : Nat}
    (hreads : b.Reads read.reverse c) (hrest : c.rest = cs) (hrounds : cs.length < rounds)
    (entries : List Entry) :
    ∃ rounds', rest.length < rounds' ∧
      literal s q opened rounds (some b.offset) entries c.offset =
        literal s q opened rounds' none ((Entry.spell b .literal text rest).1 :: entries)
          (Entry.spell b .literal text rest).2.offset := by
  -- With every plain character one round less is left, and one character less to read.
  induction cs generalizing read rounds c with
  | nil =>
    obtain ⟨rfl, rfl⟩ := Prod.mk.inj hrun
    obtain ⟨rounds, rfl⟩ := Nat.exists_eq_succ_of_ne_zero (Nat.ne_zero_of_lt hrounds)
    have hc : c = b.past read.reverse [] := hrest ▸ hreads.eq_past
    have hend : ∀ ch cs, c.rest = ch :: cs → q.interrupts ch cs = true := by
      intro ch cs hcons
      rw [hrest] at hcons
      nomatch hcons
    refine ⟨rounds + 1, hrounds, ?_⟩
    rw [literal_flush hsize hb hreads hend, hc]
    rfl
  | cons ch cs ih =>
    obtain ⟨rounds, rfl⟩ := Nat.exists_eq_succ_of_ne_zero (Nat.ne_zero_of_lt hrounds)
    by_cases hinterrupts : q.interrupts ch cs = true
    · rw [Quote.run, if_pos hinterrupts] at hrun
      obtain ⟨rfl, rfl⟩ := Prod.mk.inj hrun
      have hc : c = b.past read.reverse (ch :: cs) := hrest ▸ hreads.eq_past
      have hend : ∀ ch cs, c.rest = ch :: cs → q.interrupts ch cs = true := by
        intro ch' cs' hcons
        obtain ⟨rfl, rfl⟩ := List.cons.inj (hrest.symm.trans hcons)
        exact hinterrupts
      refine ⟨rounds + 1, hrounds, ?_⟩
      rw [literal_flush hsize hb hreads hend, hc]
      rfl
    · rw [Quote.run, if_neg hinterrupts] at hrun
      have hplain : Effect.of q ch cs = .plain :=
        Effect.of_eq_plain_iff.2 (Bool.eq_false_iff.2 hinterrupts)
      have hnext : b.Reads (ch :: read).reverse (c.past [ch] cs) := by
        rw [List.reverse_cons]
        exact hreads.append (Cursor.reads_past hrest)
      rw [literal_cons q opened (hreads.in_source hb) hrest, hplain]
      exact ih hrun hnext rfl (Nat.lt_of_succ_lt_succ hrounds)

/-- The rounds of a literal read an entry and go on behind it with enough rounds left, or they are
refused where the entry is. -/
def GoesOn (s : List Char) (q : Quote) (opened rounds : Nat) (entries : List Entry) (c : Cursor) :
    Except Fault (Entry × Cursor) → Prop
  | .error fault => literal s q opened rounds none entries c.offset = .refuse fault
  | .ok (e, d) => ∃ rounds', d.rest.length < rounds' ∧
      literal s q opened rounds none entries c.offset =
        literal s q opened rounds' none (e :: entries) d.offset

/-- One round is enough for an entry that is read at once. -/
theorem goesOn_of_reader {rounds : Nat} {entries : List Entry} (reader : Cutting (Entry × Nat))
    (hread : reader = .ofExcept ((Entry.next q opened c).map fun (e, d) => (e, d.offset)))
    (hround : literal s q opened (rounds + 1) none entries c.offset =
      (reader >>= fun (e, next) => literal s q opened rounds none (e :: entries) next))
    (hrounds : c.rest.length < rounds + 1) :
    GoesOn s q opened (rounds + 1) entries c (Entry.next q opened c) := by
  rw [hread] at hround
  cases hnext : Entry.next q opened c with
  | error fault =>
    rw [hnext] at hround
    exact hround
  | ok result =>
    have hshrinks : result.2.rest.length < c.rest.length := Entry.next_shrinks hnext
    rw [hnext] at hround
    exact ⟨rounds, by omega, hround⟩

/-- The rounds of a literal find what comes next in it. -/
theorem literal_next (q : Quote) (opened : Nat) (hsize : Text.width s ≤ maxSourceBytes)
    (hc : c.In s) (hclose : q.close? c.rest = none) {rounds : Nat}
    (hrounds : c.rest.length < rounds) (entries : List Entry) :
    GoesOn s q opened rounds entries c (Entry.next q opened c) := by
  obtain ⟨rounds, rfl⟩ := Nat.exists_eq_succ_of_ne_zero (Nat.ne_zero_of_lt hrounds)
  cases hrest : c.rest with
  | nil =>
    have hnext : Entry.next q opened c = .error ⟨q.unterminated, opened⟩ := by
      rw [Entry.next, hrest]
    rw [hnext]
    show literal s q opened (rounds + 1) none entries c.offset = _
    rw [literal, current_eq hc, pure_bind, hrest]
    rfl
  | cons ch cs =>
    have hround := literal_cons q opened hc hrest rounds none entries
    rw [hrest] at hclose
    rw [Effect.of, hclose, if_neg (by decide)] at hround
    by_cases hbackslash : ch = '\\'
    · subst hbackslash
      rw [if_pos rfl] at hround
      exact goesOn_of_reader _ (backslash_eq hsize hc hrest) hround hrounds
    · rw [if_neg hbackslash] at hround
      by_cases htemplate : ch = '$' ∧ Script.templateFollows cs = true
      · have hnext : Entry.next q opened c = Entry.template c cs := by
          rw [Entry.next, hrest]
          dsimp only
          rw [if_neg hbackslash, if_pos htemplate]
        rw [if_pos htemplate] at hround
        refine goesOn_of_reader _ ?_ hround hrounds
        rw [hnext]
        exact template_eq hsize hc (by rw [hrest, htemplate.1])
      · rw [if_neg htemplate] at hround
        by_cases hnewline : ch = '\n' ∧ q = .regular
        · have hnext : Entry.next q opened c = .error ⟨.unterminatedString, opened⟩ := by
            rw [Entry.next, hrest]
            dsimp only
            rw [if_neg hbackslash, if_neg htemplate, if_pos hnewline.symm]
          rw [if_pos hnewline] at hround
          rw [hnext]
          exact hround
        · have hnext : Entry.next q opened c =
              .ok (Entry.spell c .literal (q.run [ch] cs).1 (q.run [ch] cs).2) := by
            rw [Entry.next, hrest]
            dsimp only
            rw [if_neg hbackslash, if_neg htemplate, if_neg (fun h => hnewline h.symm)]
          rw [if_neg hnewline] at hround
          have hfew : cs.length < rounds := by
            rw [hrest] at hrounds
            exact Nat.lt_of_succ_lt_succ hrounds
          obtain ⟨rounds', hrounds', hrun⟩ := literal_run opened hsize hc
            (show q.run [ch] cs = (_, _) from rfl) (Cursor.reads_past hrest) rfl hfew entries
          rw [hnext]
          exact ⟨rounds', hrounds', hround.trans hrun⟩

/-- The rounds of a literal find its entries. -/
theorem literal_eq (hsize : Text.width s ≤ maxSourceBytes) (hc : c.In s) {rounds : Nat}
    (hrounds : c.rest.length < rounds) (entries : List Entry) :
    literal s q opened rounds none entries c.offset =
      .ofExcept ((StringLiteral.read q opened entries c).map fun (l, d) => (l, d.offset)) := by
  fun_induction StringLiteral.read q opened entries c generalizing rounds with
  | case1 entries c rest hclose =>
    obtain ⟨ch, cs, hrest⟩ : ∃ ch cs, c.rest = ch :: cs :=
      List.exists_cons_of_length_pos (Nat.zero_lt_of_lt (Quote.close?_length_lt hclose))
    obtain ⟨rounds, rfl⟩ := Nat.exists_eq_succ_of_ne_zero (Nat.ne_zero_of_lt hrounds)
    have hof : Effect.of q ch cs = .close := by
      rw [Effect.of, if_pos]
      rw [← hrest, hclose]
      rfl
    rw [literal_cons q opened hc hrest, hof]
    rfl
  | case2 entries c hclose fault hnext =>
    have h := literal_next q opened hsize hc hclose hrounds entries
    rw [hnext] at h
    exact h
  | case3 entries c hclose e d hnext ih =>
    have h := literal_next q opened hsize hc hclose hrounds entries
    rw [hnext] at h
    obtain ⟨rounds', hrounds', hliteral⟩ := h
    rw [hliteral]
    exact ih ((Entry.next_stands hnext).reads.in_source hc) hrounds'

end Literals

end OffsetLexer

end Script

end RegexAudit
