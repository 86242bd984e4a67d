import RegexAudit.Proofs.Regex.Reading

/-!
# Where readers of patterns fail

Every reader of a pattern that fails does so with a span between two character boundaries of the
pattern.

## Main definitions

* `Span.Within`: both ends of a span are character boundaries of a text.
* `Regex.Keeps`: a result is reached at a place of the text, or refused with a span of it.

## Main statements

* `Reader.keeps_bind`: one reader after another.
* `Reader.escape_keeps`: an escape.
* `Reader.counted_keeps`, `Reader.uncounted_keeps`: the operators of repetitions.
* `Reader.opening_keeps`: the beginning of a group.
-/

namespace RegexAudit

/-- Both ends of the span are character boundaries of a text. -/
structure Span.Within (s : List Char) (span : Span) : Prop where
  start : Text.IsBoundary s span.start
  stop : Text.IsBoundary s span.stop

namespace Regex

/-- A result is reached at a place of the text, which the value fits, or refused with a span of the
text. -/
def Keeps {α : Type} (s : List Char) (fits : α → Cursor → Prop) :
    Except Fault (α × Cursor) → Prop
  | .ok (a, d) => d.In s ∧ fits a d
  | .error fault => fault.span.Within s

variable {α β : Type} {s cs : List Char} {c d : Cursor} {ch : Char} {fits : α → Cursor → Prop}
  {fits' : β → Cursor → Prop}

section Spans

variable {start : Nat}

theorem within_of_in (hc : c.In s) (hd : d.In s) : Span.Within s ⟨c.offset, d.offset⟩ :=
  ⟨hc.isBoundary, hd.isBoundary⟩

theorem within_to (hstart : Text.IsBoundary s start) (hc : c.In s) :
    Span.Within s ⟨start, c.offset⟩ := ⟨hstart, hc.isBoundary⟩

theorem within_empty (hstart : Text.IsBoundary s start) : (Span.empty start).Within s :=
  ⟨hstart, hstart⟩

/-- The place behind some characters is a boundary. -/
theorem isBoundary_past {read : List Char} (hrest : c.rest = read ++ cs) (hc : c.In s) :
    Text.IsBoundary s (c.offset + Text.width read) :=
  (hc.past hrest).isBoundary

theorem within_charSpan (hc : c.In s) (hrest : c.rest = ch :: cs) :
    (charSpan c.offset ch).Within s :=
  ⟨hc.isBoundary, isBoundary_past (show c.rest = [ch] ++ cs from hrest) hc⟩

end Spans

namespace Reader

open RegexAudit.Reader

theorem keeps_pure {a : α} (hc : c.In s) (h : fits a c) :
    Keeps s fits ((pure a : Reader α).run c) := ⟨hc, h⟩

theorem keeps_fail {cause : Cause} {span : Span} (h : span.Within s) :
    Keeps s fits ((fail cause span : Reader α).run c) := h

theorem keeps_bind {r : Reader α} {f : α → Reader β} (hr : Keeps s fits (r.run c))
    (hf : ∀ a d, d.In s → fits a d → Keeps s fits' ((f a).run d)) :
    Keeps s fits' ((r >>= f).run c) := by
  simp only [Bind.bind, RegexAudit.Reader.bind]
  cases hrun : r.run c with
  | error fault =>
    rw [hrun] at hr
    exact hr
  | ok result =>
    rw [hrun] at hr
    exact hf result.1 result.2 hr.1 hr.2

/-- A step of which neither the value nor the end matters. -/
theorem keeps_then {r : Reader α} {f : α → Reader β} (hr : Keeps s (fun _ _ => True) (r.run c))
    (hf : ∀ a d, d.In s → Keeps s fits' ((f a).run d)) : Keeps s fits' ((r >>= f).run c) :=
  keeps_bind hr fun a d hd _ => hf a d hd

theorem keeps_offset_then {f : Nat → Reader β} (hf : Keeps s fits' ((f c.offset).run c)) :
    Keeps s fits' ((offset >>= f).run c) := hf

theorem keeps_place_then {f : Cursor → Reader β} (hf : Keeps s fits' ((f c).run c)) :
    Keeps s fits' ((place >>= f).run c) := hf

theorem keeps_peek?_then {f : Option Char → Reader β}
    (hf : Keeps s fits' ((f c.rest.head?).run c)) : Keeps s fits' ((peek? >>= f).run c) := hf

/-- Asking for the next character where there has to be one. -/
theorem keeps_peekOr_then {cause : Cause} {span : Nat → Span} {f : Char → Reader β}
    (hspan : (span c.offset).Within s)
    (hf : ∀ ch cs, c.rest = ch :: cs → Keeps s fits' ((f ch).run c)) :
    Keeps s fits' ((peekOr cause span >>= f).run c) := by
  simp only [Bind.bind, RegexAudit.Reader.bind]
  cases hrest : c.rest with
  | nil =>
    have hpeek : (peekOr cause span).run c = .error ⟨cause, span c.offset⟩ := by
      simp only [peekOr, Bind.bind, RegexAudit.Reader.bind, place, hrest]
      rfl
    rw [hpeek]
    exact hspan
  | cons ch cs =>
    have hpeek : (peekOr cause span).run c = .ok (ch, c) := by
      simp only [peekOr, Bind.bind, RegexAudit.Reader.bind, place, hrest]
      rfl
    rw [hpeek]
    exact hf ch cs hrest

theorem keeps_ofExcept_then {x : Except Fault α} {f : α → Reader β}
    (hx : ∀ fault, x = .error fault → fault.span.Within s)
    (hf : ∀ a, Keeps s fits' ((f a).run c)) : Keeps s fits' ((ofExcept x >>= f).run c) := by
  cases x with
  | ok a => exact hf a
  | error fault => exact hx fault rfl

theorem keeps_move {f : Cursor → Cursor} {hf : ∀ c, (f c).rest.length ≤ c.rest.length}
    (hc : c.In s) (h : c.Reaches (f c)) :
    Keeps s (fun _ _ => True) ((move f hf : Reader Unit).run c) :=
  ⟨h.in_source hc, trivial⟩

theorem keeps_advance (n : Nat) (hc : c.In s) :
    Keeps s (fun _ _ => True) ((advance n : Reader Unit).run c) :=
  keeps_move hc (Cursor.reaches_advance n c)

theorem keeps_dropWhile (p : Char → Bool) (hc : c.In s) :
    Keeps s (fun _ _ => True) ((dropWhile p : Reader Unit).run c) :=
  keeps_move hc (Cursor.reaches_dropWhile p c)

theorem keeps_skip (ws : Bool) (hc : c.In s) :
    Keeps s (fun _ _ => True) ((skip ws).run c) :=
  keeps_move hc (Cursor.reaches_skipTrivia ws c)

theorem keeps_next (ws : Bool) (hc : c.In s) :
    Keeps s (fun _ _ => True) ((next ws).run c) :=
  keeps_then (keeps_advance 1 hc) fun _ _ hd => keeps_skip ws hd

theorem keeps_collect (ws : Bool) (p : Char → Bool) (hc : c.In s) :
    Keeps s (fun _ _ => True) ((collect ws p).run c) :=
  ⟨(reaches_collectFrom p [] c).in_source hc, trivial⟩

/-- A digit takes one byte. -/
theorem utf8Size_of_isDigit {ch : Char} (h : ch.isDigit = true) : ch.utf8Size = 1 := by
  rw [Char.isDigit, Bool.and_eq_true] at h
  have hle : ch.val ≤ 57 := of_decide_eq_true h.2
  exact Char.utf8Size_eq_one_iff.2 (UInt32.le_trans hle (by decide))

section Escapes

variable {ws : Bool} {start : Nat} (hstart : Text.IsBoundary s start)

theorem hexDigits_keeps (n : Nat) (hc : c.In s) :
    Keeps s (fun _ _ => True) ((hexDigits ws n).run c) := by
  induction n generalizing c with
  | zero => exact keeps_pure hc trivial
  | succ n ih =>
    refine keeps_peekOr_then (within_empty hc.isBoundary) fun ch cs hrest => ?_
    split
    · exact keeps_then (keeps_next ws hc) fun _ _ hd =>
        keeps_then (ih hd) fun _ _ he => keeps_pure he trivial
    · exact keeps_offset_then (keeps_fail (within_charSpan hc hrest))

include hstart

theorem hexFixed_keeps {digits : Nat} (hc : c.In s) :
    Keeps s (fun p _ => p.span.Within s) ((hexFixed ws start digits).run c) := by
  refine keeps_offset_then (keeps_then (hexDigits_keeps digits hc) fun spelled d hd => ?_)
  refine keeps_offset_then ?_
  split
  · exact keeps_pure hd (within_to hstart hd)
  · exact keeps_fail (within_of_in hc hd)

theorem hexBraced_keeps (hc : c.In s) (hrest : c.rest = '\x7b' :: cs) :
    Keeps s (fun p _ => p.span.Within s) ((hexBraced ws start).run c) := by
  refine keeps_offset_then (keeps_then (keeps_next ws hc) fun _ _ hd => ?_)
  refine keeps_then (keeps_collect ws _ hd) fun spelled last hlast => keeps_offset_then ?_
  refine keeps_peekOr_then (within_of_in hc hlast) fun ch cs' hrest' => ?_
  split
  · refine keeps_then (keeps_next ws hlast) fun _ stop hstop => keeps_offset_then ?_
    split
    · exact keeps_fail (within_of_in hc hstop)
    split
    · exact keeps_pure hstop (within_to hstart hstop)
    · have hbrace : Text.IsBoundary s (c.offset + 1) :=
        isBoundary_past (show c.rest = ['\x7b'] ++ cs from hrest) hc
      exact keeps_fail ⟨hbrace, hlast.isBoundary⟩
  · exact keeps_fail (within_charSpan hlast hrest')

theorem hex_keeps {digits : Nat} (hc : c.In s) :
    Keeps s (fun p _ => p.span.Within s) ((hex ws start digits).run c) := by
  refine keeps_then (keeps_next ws hc) fun _ d hd => ?_
  refine keeps_peekOr_then (within_empty hd.isBoundary) fun ch cs hrest => ?_
  split
  · next hbrace => exact hexBraced_keeps hstart hd (hbrace ▸ hrest)
  · exact hexFixed_keeps hstart hd

theorem unicodeClass_keeps (hc : c.In s) :
    Keeps s (fun p _ => p.span.Within s) ((unicodeClass ws start).run c) := by
  have hlast : ∀ {d : Cursor}, d.In s → Keeps s (fun p _ => p.span.Within s)
      ((do return .predefined ⟨start, ← offset⟩ : Reader Primitive).run d) :=
    fun hd => keeps_offset_then (keeps_pure hd (within_to hstart hd))
  refine keeps_then (keeps_next ws hc) fun _ d hd => ?_
  refine keeps_peekOr_then (within_empty hd.isBoundary) fun ch cs hrest => ?_
  split
  · refine keeps_then (keeps_next ws hd) fun _ _ he => ?_
    refine keeps_then (keeps_collect ws _ he) fun _ f hf => ?_
    refine keeps_peekOr_then (within_empty hf.isBoundary) fun _ _ _ => ?_
    exact keeps_then (keeps_advance 1 hf) fun _ _ hg => hlast hg
  split
  · exact keeps_offset_then (keeps_fail (within_charSpan hd hrest))
  · exact keeps_then (keeps_next ws hd) fun _ _ he => hlast he

theorem wordBoundary_keeps (hc : c.In s) :
    Keeps s (fun p _ => p.span.Within s) ((wordBoundary ws start).run c) := by
  refine keeps_place_then ?_
  have hplain : Keeps s (fun p _ => p.span.Within s)
      ((pure (.assertion ⟨start, c.offset⟩ .wordBoundary) : Reader Primitive).run c) :=
    keeps_pure hc (within_to hstart hc)
  have hinside : ((c.advance 1).skipTrivia ws).In s :=
    (Cursor.reaches_skipTrivia ws _).in_source ((Cursor.reaches_advance 1 c).in_source hc)
  dsimp only
  split
  · split
    · exact keeps_fail (within_to hstart hinside)
    · split
      · refine keeps_then (keeps_next ws hc) fun _ _ hd => ?_
        refine keeps_then (keeps_collect ws _ hd) fun name last hlast => ?_
        refine keeps_offset_then (keeps_peek?_then ?_)
        split
        · refine keeps_then (keeps_advance 1 hlast) fun _ stop hstop => ?_
          split
          · exact keeps_offset_then (keeps_pure hstop (within_to hstart hstop))
          · exact keeps_fail (within_of_in hinside hlast)
        · exact keeps_fail (within_of_in hc hlast)
      · exact hplain
  · exact hplain

theorem simpleEscape_keeps {ch : Char} (hc : c.In s) :
    Keeps s (fun p _ => p.span.Within s) ((simpleEscape ws start ch).run c) := by
  refine keeps_then (keeps_advance 1 hc) fun _ stop hstop => keeps_offset_then ?_
  have hspan := within_to hstart hstop
  dsimp only
  split
  · exact keeps_pure hstop hspan
  split
  · exact keeps_pure hstop hspan
  split
  · exact wordBoundary_keeps hstart hstop
  split
  · exact keeps_pure hstop hspan
  · exact keeps_pure hstop hspan
  · exact keeps_fail hspan

/-- An escape, whose backslash stands right in front of the place. -/
theorem escape_keeps (hc : c.In s) (hslash : c.offset = start + 1) :
    Keeps s (fun p _ => p.span.Within s) ((escape ws start).run c) := by
  refine keeps_peekOr_then (within_to hstart hc) fun ch cs hrest => ?_
  split
  · next hdigit =>
    have hbehind := (within_charSpan hc hrest).stop
    rw [charSpan, utf8Size_of_isDigit hdigit, hslash] at hbehind
    exact keeps_fail ⟨hstart, hbehind⟩
  split
  · exact unicodeClass_keeps hstart hc
  split
  · exact hex_keeps hstart hc
  · exact simpleEscape_keeps hstart hc

end Escapes

section Operators

variable {ws : Bool} {start : Nat}

theorem keeps_skipBlank (hc : c.In s) : Keeps s (fun _ _ => True) ((skipBlank ws).run c) := by
  refine keeps_peek?_then ?_
  split
  · exact keeps_then (keeps_dropWhile _ hc) fun _ _ hd => keeps_skip ws hd
  · exact keeps_pure hc trivial

/-- A number is read, or a fault with its span is yielded. -/
theorem decimal_keeps (hc : c.In s) :
    Keeps s (fun result _ => ∀ fault, result = .error fault → fault.span.Within s)
      ((decimal ws).run c) := by
  refine keeps_then (keeps_dropWhile _ hc) fun _ d hd => keeps_offset_then ?_
  refine keeps_then (keeps_collect ws _ hd) fun digits e he => keeps_offset_then ?_
  refine keeps_then (keeps_skipBlank he) fun _ f hf => ?_
  have hspan := within_of_in hd he
  split
  · refine keeps_pure hf ?_
    rintro fault ⟨⟩
    exact hspan
  · refine keeps_pure hf ?_
    intro fault hfault
    split at hfault
    · nomatch hfault
    · rw [← Except.error.inj hfault]
      exact hspan

variable (hstart : Text.IsBoundary s start)

include hstart

theorem bounds_keeps (hc : c.In s) : Keeps s (fun _ _ => True) ((bounds ws start).run c) := by
  refine keeps_bind (decimal_keeps hc) fun least d hd hleast => ?_
  refine keeps_peekOr_then (within_to hstart hd) fun ch cs hrest => ?_
  split
  · refine keeps_then (keeps_next ws hd) fun _ e he => ?_
    refine keeps_peekOr_then (within_to hstart he) fun ch cs hrest => ?_
    split
    · exact keeps_ofExcept_then hleast fun _ => keeps_pure he trivial
    · refine keeps_ofExcept_then hleast fun _ => ?_
      refine keeps_bind (decimal_keeps he) fun most f hf hmost => ?_
      exact keeps_ofExcept_then hmost fun _ => keeps_pure hf trivial
  · exact keeps_ofExcept_then hleast fun _ => keeps_pure hd trivial

omit hstart in
theorem keeps_lazyMark (hc : c.In s) : Keeps s (fun _ _ => True) (lazyMark.run c) := by
  refine keeps_peek?_then ?_
  split
  · exact keeps_advance 1 hc
  · exact keeps_pure hc trivial

theorem counted_keeps (hc : c.In s) :
    Keeps s (fun span _ => span.Within s) ((counted ws start).run c) := by
  refine keeps_then (keeps_skip ws hc) fun _ d hd => ?_
  refine keeps_peekOr_then (within_to hstart hd) fun _ _ _ => ?_
  refine keeps_then (bounds_keeps hstart hd) fun bounds e he => ?_
  refine keeps_peekOr_then (within_to hstart he) fun ch _ _ => ?_
  split
  · refine keeps_then (keeps_next ws he) fun _ _ hf => ?_
    refine keeps_then (keeps_lazyMark hf) fun _ stop hstop => keeps_offset_then ?_
    have hspan := within_to hstart hstop
    dsimp only
    split
    · exact keeps_pure hstop hspan
    · exact keeps_fail hspan
  · exact keeps_offset_then (keeps_fail (within_to hstart he))

theorem uncounted_keeps (hc : c.In s) :
    Keeps s (fun span _ => span.Within s) ((uncounted start).run c) :=
  keeps_then (keeps_lazyMark hc) fun _ _ hd =>
    keeps_offset_then (keeps_pure hd (within_to hstart hd))

end Operators

section Groups

variable {ws : Bool} {start mark : Nat}

theorem groupName_keeps {read : List Char} (hc : c.In s) :
    Keeps s (fun _ _ => True) (groupName read c) := by
  fun_induction groupName read c with
  | case1 => exact ⟨hc, trivial⟩
  | case2 => exact ⟨hc, trivial⟩
  | case3 read c ch cs hrest _ _ ih => exact ih (hc.past hrest)
  | case4 read c ch cs hrest => exact within_of_in hc (hc.past hrest)

/-- Only a hyphen is a negation. -/
theorem eq_of_admitFlag {items : List FlagItem} {ch : Char}
    (h : admitFlag items ch = .ok .negation) : ch = '-' := by
  unfold admitFlag at h
  split at h
  · assumption
  · split at h
    · split at h
      · nomatch h
      · nomatch h
    · nomatch h

/-- Flags are read. In front of the end of a dangling negation stands a hyphen. -/
theorem flagList_keeps {read : List FlagItem} (hc : c.In s)
    (hlast : read.head? = some .negation → Text.IsBoundary s (c.offset - 1)) :
    Keeps s (fun items d => items.getLast? = some .negation → Text.IsBoundary s (d.offset - 1))
      (flagList read c) := by
  fun_induction flagList read c with
  | case1 => exact within_empty hc.isBoundary
  | case2 read c ch cs hrest =>
    refine ⟨hc, fun hnegation => hlast ?_⟩
    rwa [List.getLast?_reverse] at hnegation
  | case3 read c ch cs hrest => exact within_of_in hc (hc.past hrest)
  | case4 read c ch cs hrest _ item hitem ih =>
    refine ih (hc.past hrest) fun hnegation => ?_
    obtain rfl : item = .negation := Option.some.inj hnegation
    obtain rfl := eq_of_admitFlag hitem
    exact hc.isBoundary

theorem named_keeps {names : List (List Char)} (hc : c.In s) :
    Keeps s (fun _ _ => True) ((named names).run c) := by
  refine keeps_offset_then (keeps_peekOr_then (within_empty hc.isBoundary) fun _ _ _ => ?_)
  refine keeps_then (groupName_keeps hc) fun name d hd => keeps_offset_then ?_
  refine keeps_peekOr_then (within_empty hd.isBoundary) fun _ _ _ => ?_
  refine keeps_then (keeps_advance 1 hd) fun _ e he => ?_
  split
  · exact keeps_fail (within_empty hc.isBoundary)
  split
  · exact keeps_fail (within_of_in hc hd)
  · exact keeps_pure he trivial

theorem flagged_keeps (hopener : Span.Within s ⟨start, start + 1⟩)
    (hmark : Text.IsBoundary s mark) (hc : c.In s) :
    Keeps s (fun _ _ => True) ((flagged start mark).run c) := by
  refine keeps_peekOr_then hopener fun _ _ _ => keeps_offset_then ?_
  refine keeps_bind (flagList_keeps hc nofun) fun items d hd hnegation => keeps_offset_then ?_
  extract_lets rest
  have hrest : Keeps s (fun _ _ => True) ((rest ()).run d) := by
    refine keeps_peek?_then (keeps_then (keeps_advance 1 hd) fun _ e he => ?_)
    split
    · split
      · exact keeps_fail (within_empty hmark)
      · exact keeps_pure he trivial
    · exact keeps_pure he trivial
  split
  · next hlast =>
    show Span.Within s ⟨d.offset - 1, d.offset⟩
    exact ⟨hnegation hlast, hd.isBoundary⟩
  · exact hrest

theorem opening_keeps {names : List (List Char)} (hopener : Span.Within s ⟨start, start + 1⟩)
    (hc : c.In s) : Keeps s (fun _ _ => True) ((opening ws names start).run c) := by
  refine keeps_then (keeps_skip ws hc) fun _ d hd => keeps_place_then ?_
  have hbehind : ∀ {read cs : List Char}, d.rest = read ++ cs →
      Span.Within s ⟨start, d.offset + Text.width read⟩ :=
    fun hrest => ⟨hopener.start, isBoundary_past hrest hd⟩
  split
  · next cs hrest => exact keeps_fail (hbehind (show d.rest = ['?', '='] ++ cs from hrest))
  · next cs hrest => exact keeps_fail (hbehind (show d.rest = ['?', '!'] ++ cs from hrest))
  · next cs hrest => exact keeps_fail (hbehind (show d.rest = ['?', '<', '='] ++ cs from hrest))
  · next cs hrest => exact keeps_fail (hbehind (show d.rest = ['?', '<', '!'] ++ cs from hrest))
  · exact keeps_then (keeps_advance 3 hd) fun _ _ he => named_keeps he
  · exact keeps_then (keeps_advance 2 hd) fun _ _ he => named_keeps he
  · exact keeps_then (keeps_advance 1 hd) fun _ _ he => flagged_keeps hopener hd.isBoundary he
  · exact keeps_pure hd trivial

end Groups

end Reader

end Regex

end RegexAudit
