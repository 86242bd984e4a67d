import RegexAudit.Proofs.Audit.Cache
import RegexAudit.Proofs.Pattern.Places
import RegexAudit.Proofs.Script.Callees
import RegexAudit.Proofs.Text.Position

/-!
# Where diagnostics point

Every location of a diagnostic is a place of the source: the name of the called function, or a span
strictly inside the quotes of a literal that the pattern of the call expands to.

## Main definitions

* `Location.IsPlaceIn`: a location is a span of a source with the positions of its ends.
* `Check.Points`: a check reports spans of the pattern.
* `Diagnostic.locations`: the location of a diagnostic and its further ones.

## Main statements

* `Auditor.exists_span_of_mem_translate`: the locations come from the spans of a finding.
* `Auditor.auditFresh_locations`: the locations of the diagnostics for one call.
* `Auditor.auditAll_locations`: the locations of all diagnostics for a script.
-/

namespace RegexAudit

open Script

/-- The location is a span of the source between two characters, and tells by counting which line
and column its ends have. -/
structure Location.IsPlaceIn (source : List Char) (location : Location) : Prop where
  ordered : location.span.start ≤ location.span.stop
  fits : location.span.start + location.span.length ≤ Text.width source
  boundaries : Text.IsBoundary source location.span.start ∧
    Text.IsBoundary source location.span.stop
  first : ∀ before rest, source = before ++ rest → Text.width before = location.span.start →
    location.first = .counted before
  last : ∀ before rest, source = before ++ rest → Text.width before = location.span.stop →
    location.last = .counted before

/-- A span that covers a part of the source is a place in it. -/
theorem Location.isPlaceIn_of_slice? (file : String) {source part : List Char} {span : Span}
    (h : Text.slice? source span = some part) :
    (Location.of file (.ofText source) span).IsPlaceIn source := by
  have hordered := Text.ordered_of_slice? h
  obtain ⟨before, after, hsource, hstart, hstop⟩ := Text.slice?_eq_some_iff.1 h
  have hposition : ∀ (before rest : List Char) (offset : Nat), source = before ++ rest →
      Text.width before = offset → (LineMap.ofText source).position offset = .counted before := by
    rintro before rest offset rfl rfl
    exact Text.position_eq_counted before rest
  refine ⟨hordered, ?_, ⟨?_, ?_⟩, fun before rest => hposition before rest _,
    fun before rest => hposition before rest _⟩
  · show span.start + (span.stop - span.start) ≤ Text.width source
    rw [← hsource, Text.width_append]
    omega
  · show Text.IsBoundary source span.start
    rw [← hsource, ← hstart, List.append_assoc]
    exact Text.isBoundary_width_append ..
  · show Text.IsBoundary source span.stop
    rw [← hsource, ← hstop]
    exact Text.isBoundary_width_append ..

/-- Whatever the pattern and the flags are, the check reports spans of the pattern, each of which
begins and ends at character boundaries or past the end, or else holds nothing. -/
def Check.Points (check : Check) : Prop :=
  ∀ (pattern : List Char) (flags : Flags),
    ∀ finding ∈ check.run ⟨pattern, flags, Regex.parse (flags.contains .comments) pattern⟩,
      ∀ span ∈ finding.span :: finding.notes.map (·.span), span.Points pattern

/-- The location of a diagnostic and its further ones. -/
def Diagnostic.locations (d : Diagnostic) : List Location :=
  d.location :: d.secondaries.map (·.location)

theorem Finding.spans_mapSpans (f : Span → Span) (finding : Finding) :
    (finding.mapSpans f).span :: (finding.mapSpans f).notes.map (·.span) =
      (finding.span :: finding.notes.map (·.span)).map f := by
  simp [mapSpans]

theorem Registry.exists_name_of_find? {registry : Registry} {call : Call} {signature : Signature}
    {tokens : List Token} (h : registry.find? call = some signature)
    (hcall : call.callee.IsNamed tokens) : ⟨.name signature.name, call.nameRange⟩ ∈ tokens := by
  have hfound : registry.signatures.find? (·.accepts call) = some signature := h
  have haccepts := List.find?_some hfound
  simp only [Signature.accepts, Bool.and_eq_true, beq_iff_eq] at haccepts
  exact hcall signature.name haccepts.1.1

namespace Auditor

section Translation

variable {auditor : Auditor} {call : Call} {finding : Finding} {index : InverseIndex}

theorem exists_span_of_mem_further {span : Span} {message : Option String}
    (h : (span, message) ∈ further index finding) :
    ∃ s ∈ finding.span :: finding.notes.map (·.span), span ∈ index.ranges s.start s.stop := by
  rw [further, List.mem_eraseDups, List.mem_append] at h
  rcases h with h | h
  · obtain ⟨note, hnote, h⟩ := List.mem_flatMap.1 h
    obtain ⟨s, hs, heq⟩ := List.mem_map.1 h
    obtain ⟨rfl, -⟩ := Prod.mk.inj heq
    exact ⟨note.span, List.mem_cons_of_mem _ (List.mem_map_of_mem hnote), hs⟩
  · obtain ⟨s, hs, heq⟩ := List.mem_map.1 h
    obtain ⟨rfl, -⟩ := Prod.mk.inj heq
    exact ⟨finding.span, List.mem_cons_self, List.mem_of_mem_tail hs⟩

/-- Every location of a diagnostic is that of the called function's name or stems from a span of the
finding. -/
theorem exists_span_of_mem_translate {enabled : EnabledCheck} {location : Location}
    (h : location ∈ (auditor.translate index call enabled finding).locations) :
    ∃ span, location = auditor.locate span ∧ (span = call.nameRange ∨
      ∃ s ∈ finding.span :: finding.notes.map (·.span), span ∈ index.ranges s.start s.stop) := by
  rcases List.mem_cons.1 h with rfl | h
  · refine ⟨_, rfl, ?_⟩
    cases hranges : index.ranges finding.span.start finding.span.stop with
    | nil => exact .inl rfl
    | cons s more => exact .inr ⟨finding.span, List.mem_cons_self, by simp [hranges]⟩
  · obtain ⟨secondary, hsecondary, rfl⟩ := List.mem_map.1 h
    rcases List.mem_append.1 hsecondary with hfurther | hcallee
    · obtain ⟨⟨span, message⟩, hmem, rfl⟩ := List.mem_map.1 hfurther
      exact ⟨span, rfl, .inr (exists_span_of_mem_further hmem)⟩
    · rw [List.mem_singleton.1 hcallee]
      exact ⟨call.nameRange, rfl, .inl rfl⟩

/-- A diagnostic of a run is one for some call, with the cache as the calls before it left it. -/
theorem exists_call_of_mem_auditAll {cache : Cache ParsedRegex} {calls : List Call} {d : Diagnostic}
    (h : d ∈ (auditor.auditAll cache calls).1) :
    ∃ before call after, calls = before ++ call :: after ∧
      d ∈ (auditor.audit (auditor.auditAll cache before).2 call).1 := by
  induction calls generalizing cache with
  | nil => simp [auditAll] at h
  | cons call calls ih =>
    rcases List.mem_append.1 (show d ∈ (auditor.audit cache call).1 ++
      (auditor.auditAll (auditor.audit cache call).2 calls).1 from h) with h | h
    · exact ⟨[], call, calls, rfl, h⟩
    · obtain ⟨before, call', after, rfl, hlater⟩ := ih h
      exact ⟨call :: before, call', after, rfl, hlater⟩

end Translation

section Script

variable {file : String} {source : List Char} {script : Script} {tokens : Tokens}
  {registry : Registry} {checks : List EnabledCheck} {call : Call}

/-- A span of a pattern that expands to literals of the source is translated to places in these
literals. -/
theorem isPlace_of_site? (hscript : Script.ofSource source = .ok script)
    (htokens : Tokens.ofSource source = .ok tokens) (hcall : call ∈ script.calls) {site : Site}
    (hsite : (ofScript file source script registry checks).site? call = some site) :
    ∃ signature pattern literals, registry.find? call = some signature ∧
      signature.patternOf? call = some pattern ∧
      (Scope.ofScript script).Expands pattern literals ∧
      ∀ span : Span, span.Points (PatternSource.ofFragments site.fragments).pattern →
        ∀ s ∈ (PatternSource.ofFragments site.fragments).ranges span,
          s.IsPlace source tokens.items literals := by
  obtain ⟨tokens', signature, pattern, literals, htokens', hsignature, hpattern, hexpands,
    hliterals, hfragments⟩ := exists_expansion_of_site? hscript hcall hsite
  obtain rfl := Except.ok.inj (htokens.symm.trans htokens')
  refine ⟨signature, pattern, literals, hsignature, hpattern, hexpands, ?_⟩
  rw [hfragments]
  exact fun span hspan => PatternSource.ranges_isPlace htokens hliterals hspan

/-- A diagnostic for a call points at the name of the called function and into the literals that the
pattern of the call expands to. -/
theorem auditFresh_locations (hscript : Script.ofSource source = .ok script)
    (htokens : Tokens.ofSource source = .ok tokens)
    (hchecks : ∀ enabled ∈ checks, enabled.check.Points) (hcall : call ∈ script.calls)
    {d : Diagnostic} (hd : d ∈ (ofScript file source script registry checks).auditFresh call) :
    ∃ signature pattern, registry.find? call = some signature ∧
      signature.patternOf? call = some pattern ∧
      ∀ location ∈ d.locations, location.IsPlaceIn source ∧
        (location.span = call.nameRange ∧ ⟨.name signature.name, location.span⟩ ∈ tokens.items ∨
          ∃ literals, (Scope.ofScript script).Expands pattern literals ∧
            ∃ l ∈ literals, location.span.InLiteral tokens.items l) := by
  unfold auditFresh at hd
  split at hd
  · simp at hd
  · next site hsite =>
    obtain ⟨-, -, -, -, -, -, -, -, hsiteCall⟩ := site?_eq_some_iff.1 hsite
    obtain ⟨signature, pattern, literals, hsignature, hpattern, hexpands, hplaces⟩ :=
      isPlace_of_site? hscript htokens hcall hsite
    obtain ⟨enabled, henabled, hd⟩ := List.mem_flatMap.1 hd
    obtain ⟨finding, hfinding, rfl⟩ := List.mem_map.1 hd
    obtain ⟨raw, hraw, rfl⟩ := List.mem_map.1 hfinding
    have hpoints := hchecks enabled henabled _ _ raw hraw
    refine ⟨signature, pattern, hsignature, hpattern, ?_⟩
    intro location hlocation
    obtain ⟨span, rfl, hspan | ⟨s, hs, hspan⟩⟩ := exists_span_of_mem_translate hlocation
    · -- The name of the called function is a token, and a token covers a part of the source.
      rw [hsiteCall] at hspan
      have hname := Registry.exists_name_of_find? hsignature
        (isNamed_of_mem_calls hscript htokens hcall)
      obtain ⟨c, e, hc, hstands, hrange⟩ := Tokens.standsIn_of_mem htokens hname
      obtain ⟨text, htext⟩ := hstands.reads
      have hslice := htext.slice? hc
      rw [← hrange] at hslice
      subst hspan
      exact ⟨Location.isPlaceIn_of_slice? file hslice, .inl ⟨rfl, hname⟩⟩
    · rw [Finding.spans_mapSpans] at hs
      obtain ⟨t, ht, rfl⟩ := List.mem_map.1 hs
      -- The check points into the pattern, so its span is translated to places in the literals.
      obtain ⟨⟨part, hpart⟩, hinside⟩ := hplaces t (hpoints t ht) span hspan
      exact ⟨Location.isPlaceIn_of_slice? file hpart, .inr ⟨literals, hexpands, hinside⟩⟩

/-- Every diagnostic for a script is one for a call of it, and each of its locations is a place of
the source with its lines and columns: the token that names the called function, or a span strictly
inside the quotes of a literal that the pattern of this call expands to. -/
theorem auditAll_locations (file : String) (hscript : Script.ofSource source = .ok script)
    (htokens : Tokens.ofSource source = .ok tokens) (registry : Registry)
    (hchecks : ∀ enabled ∈ checks, enabled.check.Points) (keying : Keying) :
    let auditor := ofScript file source script registry checks
    ∀ d ∈ (auditor.auditAll (.empty keying) script.calls).1,
      ∃ before call after, script.calls = before ++ call :: after ∧
        d ∈ (auditor.audit (auditor.auditAll (.empty keying) before).2 call).1 ∧
        ∃ signature pattern, registry.find? call = some signature ∧
          signature.patternOf? call = some pattern ∧
          ∀ location ∈ d.locations, location.IsPlaceIn source ∧
            (location.span = call.nameRange ∧
                ⟨.name signature.name, location.span⟩ ∈ tokens.items ∨
              ∃ literals, (Scope.ofScript script).Expands pattern literals ∧
                ∃ l ∈ literals, location.span.InLiteral tokens.items l) := by
  intro auditor d hd
  obtain ⟨before, call, after, hcalls, hd⟩ := exists_call_of_mem_auditAll hd
  refine ⟨before, call, after, hcalls, hd, ?_⟩
  have hcall : call ∈ script.calls := by simp [hcalls]
  have hstands : ∀ c ∈ script.calls, ∀ site, auditor.site? c = some site →
      ∀ f ∈ site.fragments, f.StandsIn source :=
    fun c hc site hsite => standsIn_of_site? hscript hc hsite
  -- The calls before this one leave a coherent cache, which changes no diagnostic.
  obtain ⟨-, -, hcoherent⟩ := auditAll_coherent (Cache.coherent_empty source keying)
    (fun c (hc : c ∈ before) => hstands c (by simp [hcalls, hc]))
  rw [(audit_coherent hcoherent (hstands call hcall)).1] at hd
  exact auditFresh_locations hscript htokens hchecks hcall hd

end Script

namespace Accent

/-- The source `Regex("é")`. -/
def source : List Char := ['R', 'e', 'g', 'e', 'x', '(', '"', 'é', '"', ')']

/-- The argument of the call. -/
def argument : Expr := .string ⟨6, 10⟩ ⟨false, [⟨.literal, ['é'], ⟨7, 9⟩⟩]⟩

/-- The call. -/
def call : Call := ⟨.name ⟨0, 5⟩ "Regex", [argument]⟩

/-- The script of the source. -/
def script : Script := ⟨[.expression (.call ⟨0, 11⟩ call.callee call.args)]⟩

/-- The tokens of the source. -/
def tokens : Tokens :=
  ⟨[⟨.name "Regex", ⟨0, 5⟩⟩, ⟨.openParen, ⟨5, 6⟩⟩,
    ⟨.string ⟨false, [⟨.literal, ['é'], ⟨7, 9⟩⟩]⟩, ⟨6, 10⟩⟩, ⟨.closeParen, ⟨10, 11⟩⟩], 11⟩

/-- Reports every pattern from its beginning to past its end, and an inverted span. -/
def check : EnabledCheck :=
  ⟨{ id := "ends"
     description := "both ends"
     defaultSeverity := .warning
     run := fun subject =>
       [.plain ⟨0, Text.width subject.pattern + 1⟩ "past the end", .plain ⟨1, 0⟩ "inverted"] },
    .warning⟩

/-- The auditor of the source. -/
def auditor : Auditor := ofScript "accent" source script .builtin [check]

theorem ofSource_source : Script.ofSource source = .ok script := by
  with_unfolding_all rfl

theorem ofSource_tokens : Tokens.ofSource source = .ok tokens := by
  with_unfolding_all rfl

theorem check_points : check.check.Points := by
  intro pattern flags finding hfinding span hspan
  have hcases : finding = .plain ⟨0, Text.width pattern + 1⟩ "past the end" ∨
      finding = .plain ⟨1, 0⟩ "inverted" := by simpa [check] using hfinding
  rcases hcases with rfl | rfl
  · rw [List.mem_singleton.1 hspan]
    exact .inr ⟨.inl (Text.isBoundary_width_append [] pattern), .inr (Nat.le_succ _)⟩
  · rw [List.mem_singleton.1 hspan]
    exact .inl (Nat.zero_le 1)

theorem site?_call : auditor.site? call = some ⟨call, [⟨['é'], ⟨7, 9⟩, false⟩], .none⟩ := by
  have hflatten : auditor.scope.flatten? argument = some [⟨['é'], ⟨7, 9⟩, false⟩] := by
    rw [Scope.flatten?, maxConcatNodes, argument,
      Scope.flattenFrom_string (by decide) (Scope.predict_string ..) rfl]
    rfl
  refine site?_eq_some_iff.2 ⟨⟨"Regex", .none, .argument 0, some 1, 1, 2⟩, argument, ?_⟩
  exact ⟨rfl, rfl, hflatten, by simp, rfl,
    (by decide : Flags.none.contains .literal = false), rfl⟩

end Accent

/-- A span that reaches past the end of the pattern leads to the character between the quotes, and
an inverted one to the name of the called function. -/
theorem auditAll_locations_accent :
    (Accent.auditor.auditAll (.empty .text) Accent.script.calls).1.map (·.location.span) =
        [⟨7, 9⟩, ⟨0, 5⟩] ∧
      ∀ d ∈ (Accent.auditor.auditAll (.empty .text) Accent.script.calls).1,
        ∀ location ∈ d.locations, location.IsPlaceIn Accent.source := by
  constructor
  · rw [show Accent.script.calls = [Accent.call] from rfl]
    simp only [auditAll, audit, Accent.site?_call]
    with_unfolding_all rfl
  · have hchecks : ∀ enabled ∈ [Accent.check], enabled.check.Points :=
      List.forall_mem_singleton.2 Accent.check_points
    intro d hd
    obtain ⟨_, _, _, _, _, _, _, _, _, hlocations⟩ := auditAll_locations "accent"
      Accent.ofSource_source Accent.ofSource_tokens .builtin hchecks .text d hd
    exact fun location hlocation => (hlocations location hlocation).1

end Auditor

end RegexAudit
