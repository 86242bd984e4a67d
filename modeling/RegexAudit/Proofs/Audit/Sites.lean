import RegexAudit.Proofs.Script.Expansion

/-!
# Where the fragments of a site stand

The fragments of an analysed call are spellings in the source, each at its own span. What a
fragment stands for is determined by its spelling, so fragments of one source with equal spans are
equal.

## Main definitions

* `Fragment.SpellsBackslash`: a spelling of a single backslash.
* `Fragment.StandsIn`: a fragment stands in a source.

## Main statements

* `Fragment.StandsIn.eq_of_range`: the span determines the fragment.
* `Auditor.site?_regex`: a call of `Regex` on one literal can be analysed.
* `Auditor.exists_expansion_of_site?`: the fragments of an analysed call are those of literals.
* `Auditor.standsIn_of_site?`: the fragments of an analysed call stand in the source.
-/

namespace RegexAudit

open Script

namespace Fragment

/-- A text that spells a single backslash: in a raw literal, or as an escape. -/
def SpellsBackslash (text : List Char) : Prop :=
  text = ['\\'] ∨ ∃ n, Decoded.escape? text = some ('\\', n, [])

/-- The fragment is a piece of the source, and whether it stands for a backslash is told by its
spelling. -/
structure StandsIn (source : List Char) (f : Fragment) : Prop where
  slice : Text.slice? source f.range = some f.text
  backslash : f.isBackslash = true ↔ SpellsBackslash f.text

/-- Fragments of one source with the same span are the same. -/
theorem StandsIn.eq_of_range {source : List Char} {f g : Fragment} (hf : f.StandsIn source)
    (hg : g.StandsIn source) (h : f.range = g.range) : f = g := by
  have htext : f.text = g.text := by
    have hslice := hf.slice
    rw [h, hg.slice] at hslice
    exact (Option.some.inj hslice).symm
  have hbackslash : f.isBackslash = g.isBackslash := by
    rw [Bool.eq_iff_iff, hf.backslash, hg.backslash, htext]
  cases f
  cases g
  simp_all

/-- Fragments of one source with the same spans are the same. -/
theorem StandsIn.eq_of_map_range {source : List Char} {fs gs : List Fragment}
    (hfs : ∀ f ∈ fs, f.StandsIn source) (hgs : ∀ g ∈ gs, g.StandsIn source)
    (h : fs.map (·.range) = gs.map (·.range)) : fs = gs := by
  induction fs generalizing gs with
  | nil => exact (List.map_eq_nil_iff.1 h.symm).symm
  | cons f fs ih =>
    cases gs with
    | nil => simp at h
    | cons g gs =>
      obtain ⟨hf, hfs⟩ := List.forall_mem_cons.1 hfs
      obtain ⟨hg, hgs⟩ := List.forall_mem_cons.1 hgs
      obtain ⟨hrange, hranges⟩ := List.cons.inj h
      rw [hf.eq_of_range hg hrange, ih hfs hgs hranges]

end Fragment

namespace Script

/-- Only an entry that stands for a backslash is spelled like one. -/
theorem Quote.Spells.backslash_iff {q : Quote} {kind : EntryKind} {text : List Char}
    (h : q.Spells kind text) (hkind : kind ≠ .interpolation) :
    kind = .escape '\\' ↔ Fragment.SpellsBackslash text := by
  cases kind with
  | literal =>
    cases h with
    | plain hne hplain =>
      constructor
      · intro hkind
        cases hkind
      · -- Each spelling of a backslash begins with one, and plain characters contain none.
        rintro (rfl | ⟨n, hn⟩)
        · simp at hplain
        · obtain ⟨letter, more, rfl, -⟩ := Decoded.escape?_spelling hn
          simp at hplain
  | escape value =>
    cases q with
    | regular =>
      obtain ⟨n, hn⟩ := h.escape? []
      rw [List.append_nil] at hn
      constructor
      · intro hvalue
        cases hvalue
        exact .inr ⟨n, hn⟩
      · -- Decoding reads the escape in one way only.
        rintro (rfl | ⟨m, hm⟩)
        · simp [Decoded.escape?] at hn
        · rw [hn] at hm
          simp only [Option.some.injEq, Prod.mk.injEq] at hm
          rw [hm.1]
    | raw =>
      cases h
      exact ⟨fun _ => .inl rfl, fun _ => rfl⟩
  | interpolation => exact absurd rfl hkind

/-- The fragment of an entry stands where the entry stands. -/
theorem Entry.Stands.fragment_standsIn {source : List Char} {q : Quote} {c d : Cursor} {e : Entry}
    (h : Entry.Stands q c e d) (hc : c.In source) (hkind : e.kind ≠ .interpolation) :
    e.fragment.StandsIn source := by
  refine ⟨?_, ?_⟩
  · show Text.slice? source e.range = some e.text
    rw [h.range]
    exact h.reads.slice? hc
  · have hspelled := h.spelled.backslash_iff hkind
    obtain ⟨kind, text, range⟩ := e
    show (Entry.fragment _).isBackslash = true ↔ Fragment.SpellsBackslash text
    rw [← hspelled]
    cases kind with
    | literal => simp [Entry.fragment]
    | escape value => simp [Entry.fragment]
    | interpolation => exact absurd rfl hkind

/-- The fragments of literals of a source stand in the source. -/
theorem Tokens.standsIn_of_mem_fragmentsOf {source : List Char} {tokens : Tokens}
    {literals : List StringLiteral} (htokens : Tokens.ofSource source = .ok tokens)
    (hliterals : ∀ l ∈ literals, tokens.HasLiteral l ∧ l.IsTemplateFree) :
    ∀ f ∈ fragmentsOf literals, f.StandsIn source := by
  intro f hf
  obtain ⟨entry, hentry, rfl⟩ := List.mem_map.1 hf
  obtain ⟨l, hl, hentry⟩ := List.mem_flatMap.1 hentry
  obtain ⟨hhas, hfree⟩ := hliterals l hl
  obtain ⟨q, c, d, -, hc, hstands⟩ := Tokens.exists_entry_stands htokens hhas hentry
  exact hstands.fragment_standsIn hc (hfree entry hentry)

end Script

namespace Signature

/-- The pattern of a call is a part of it. -/
theorem readFrom_of_patternOf? {s : Signature} {call : Call} {pattern : Expr}
    {tokens : List Token} (hcallee : call.callee.ReadFrom tokens)
    (hargs : ∀ a ∈ call.args, a.ReadFrom tokens) (h : s.patternOf? call = some pattern) :
    pattern.ReadFrom tokens := by
  unfold patternOf? at h
  split at h
  · unfold Call.receiver? at h
    split at h
    · next range receiver member hdot =>
      rw [hdot] at hcallee
      rw [← Option.some.inj h]
      exact hcallee.of_occurs (.receiver (.refl receiver))
    · simp at h
  · exact hargs pattern (List.mem_of_getElem? h)

end Signature

namespace Auditor

/-- A call can be analysed if it has a signature, its pattern is flattened to some fragments, and
its flags do not turn the pattern into plain text. -/
theorem site?_eq_some_iff {auditor : Auditor} {call : Call} {site : Site} :
    auditor.site? call = some site ↔
      ∃ signature pattern, auditor.registry.find? call = some signature ∧
        signature.patternOf? call = some pattern ∧
        auditor.scope.flatten? pattern = some site.fragments ∧ site.fragments ≠ [] ∧
        site.flags = Flags.resolve auditor.scope (signature.flagsOf? call) ∧
        site.flags.contains .literal = false ∧ site.call = call := by
  constructor
  · intro h
    unfold site? at h
    obtain ⟨signature, hsignature, h⟩ := Option.bind_eq_some_iff.1 h
    obtain ⟨pattern, hpattern, h⟩ := Option.bind_eq_some_iff.1 h
    obtain ⟨fragments, hfragments, h⟩ := Option.bind_eq_some_iff.1 h
    obtain ⟨u, hsome, h⟩ := Option.bind_eq_some_iff.1 h
    obtain ⟨v, hflags, h⟩ := Option.bind_eq_some_iff.1 h
    obtain rfl := Option.some.inj h
    have hsome := (Option.guard_eq_some' u).1 hsome
    have hflags := (Option.guard_eq_some' v).1 hflags
    exact ⟨signature, pattern, hsignature, hpattern, hfragments, by simpa using hsome, rfl,
      by simpa using hflags, rfl⟩
  · rintro ⟨signature, pattern, hsignature, hpattern, hfragments, hsome, hresolve, hflags, hcall⟩
    obtain ⟨call', fragments, flags⟩ := site
    dsimp only at hfragments hsome hresolve hflags hcall
    subst hcall
    have hguard : guard ((!fragments.isEmpty) = true) = some () := by
      simpa [Option.guard_eq_some'] using hsome
    have hguard' : guard ((!flags.contains .literal) = true) = some () := by
      simpa [Option.guard_eq_some'] using hflags
    simp only [site?, hsignature, hpattern, hfragments, ← hresolve, hguard, hguard', bind,
      Option.bind_some, pure]

/-- A call of `Regex` on one literal can be analysed, with the fragments of the literal. -/
theorem site?_regex {auditor : Auditor} (hregistry : auditor.registry = .builtin)
    (callee range : Span) {l : StringLiteral} {fragments : List Fragment}
    (hl : l.fragments? = some fragments) (hne : fragments ≠ []) :
    auditor.site? ⟨.name callee "Regex", [.string range l]⟩ =
      some ⟨⟨.name callee "Regex", [.string range l]⟩, fragments, .none⟩ := by
  have hflatten : auditor.scope.flatten? (.string range l) = some fragments := by
    rw [Scope.flatten?, maxConcatNodes,
      Scope.flattenFrom_string (by decide) (Scope.predict_string ..) hl, Scope.flattenFrom]
    simp
  refine site?_eq_some_iff.2 ⟨⟨"Regex", .none, .argument 0, some 1, 1, 2⟩, .string range l, ?_⟩
  rw [hregistry]
  exact ⟨rfl, rfl, hflatten, hne, rfl, (by decide : Flags.none.contains .literal = false), rfl⟩

section Sites

variable {file : String} {source : List Char} {script : Script} {registry : Registry}
  {checks : List EnabledCheck} {call : Call} {site : Site}

/-- The pattern of an analysed call expands to literals of the source without templates, and its
fragments are those of the literals. -/
theorem exists_expansion_of_site? (hscript : Script.ofSource source = .ok script)
    (hcall : call ∈ script.calls)
    (hsite : (ofScript file source script registry checks).site? call = some site) :
    ∃ tokens signature pattern literals, Tokens.ofSource source = .ok tokens ∧
      registry.find? call = some signature ∧ signature.patternOf? call = some pattern ∧
      (Scope.ofScript script).Expands pattern literals ∧
      (∀ l ∈ literals, tokens.HasLiteral l ∧ l.IsTemplateFree) ∧
      site.fragments = fragmentsOf literals := by
  obtain ⟨tokens, htokens, hstatements⟩ := readFrom_of_mem hscript
  obtain ⟨signature, pattern, hsignature, hpattern, hflatten, -⟩ := site?_eq_some_iff.1 hsite
  obtain ⟨literals, hexpands, hfragments⟩ := Scope.expands_of_flatten? hflatten
  obtain ⟨hcallee, hargs⟩ := readFrom_of_mem_calls hstatements hcall
  have hread := Signature.readFrom_of_patternOf? hcallee hargs hpattern
  have hliterals := hexpands.hasLiteral
    (fun name init hb => Scope.readFrom_of_binding? hstatements hb) hread
  exact ⟨tokens, signature, pattern, literals, htokens, hsignature, hpattern, hexpands, hliterals,
    hfragments⟩

/-- The fragments of an analysed call are those of literals of the source without templates. -/
theorem exists_literals_of_site? (hscript : Script.ofSource source = .ok script)
    (hcall : call ∈ script.calls)
    (hsite : (ofScript file source script registry checks).site? call = some site) :
    ∃ tokens literals, Tokens.ofSource source = .ok tokens ∧
      (∀ l ∈ literals, tokens.HasLiteral l ∧ l.IsTemplateFree) ∧
      site.fragments = fragmentsOf literals := by
  obtain ⟨tokens, -, -, literals, htokens, -, -, -, hliterals, hfragments⟩ :=
    exists_expansion_of_site? hscript hcall hsite
  exact ⟨tokens, literals, htokens, hliterals, hfragments⟩

/-- The fragments of an analysed call of a script stand in the source of the script. -/
theorem standsIn_of_site? (hscript : Script.ofSource source = .ok script)
    (hcall : call ∈ script.calls)
    (hsite : (ofScript file source script registry checks).site? call = some site) :
    ∀ f ∈ site.fragments, f.StandsIn source := by
  obtain ⟨tokens, literals, htokens, hliterals, hfragments⟩ :=
    exists_literals_of_site? hscript hcall hsite
  rw [hfragments]
  exact Tokens.standsIn_of_mem_fragmentsOf htokens hliterals

/-- Every fragment of an analysed call contributes something. -/
theorem size_pos_of_site? (hscript : Script.ofSource source = .ok script)
    (hcall : call ∈ script.calls)
    (hsite : (ofScript file source script registry checks).site? call = some site) :
    ∀ f ∈ site.fragments, 0 < f.size := by
  obtain ⟨tokens, literals, htokens, hliterals, hfragments⟩ :=
    exists_literals_of_site? hscript hcall hsite
  rw [hfragments, fragmentsOf]
  intro f hf
  obtain ⟨e, he, rfl⟩ := List.mem_map.1 hf
  exact (PatternSource.wellSpelled_of_mem htokens hliterals e he).size_pos

end Sites

end Auditor

end RegexAudit
