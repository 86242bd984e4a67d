import RegexAudit.Proofs.Audit.Locations
import RegexAudit.Proofs.Audit.Rules
import RegexAudit.Proofs.Regex.Bounds

/-!
# Reports of syntax errors

A pattern that cannot be parsed leads to one diagnostic. The reason is attached to the source spans
of the fault, and a fault that covers nothing of the pattern has none: its reason is not reported.

## Main definitions

* `Diagnostic.tells`: a diagnostic says something at one of its further places.

## Main statements

* `PatternSource.ranges_eq_nil_iff`: a span is translated to nothing if it covers nothing of the
  pattern.
* `Auditor.auditFresh_fault`: the diagnostic for a pattern that cannot be parsed.
* `Auditor.tells_translate_fault`: whether it tells the reason.
* `Auditor.audit_fault`: the same after any calls, and when it tells the reason.
-/

namespace RegexAudit

open Script

/-- The diagnostic says something at one of its further places. -/
def Diagnostic.tells (d : Diagnostic) (message : String) : Prop :=
  ∃ secondary ∈ d.secondaries, secondary.message = some message

/-- No reason reads like the message at the name of the called function. -/
theorem Regex.Cause.message_ne (cause : Cause) : callSiteMessage ≠ cause.message := by
  cases cause <;> decide +kernel

theorem Span.merge_eq_nil_iff {spans : List Span} : merge spans = [] ↔ spans = [] := by
  fun_induction merge spans with
  | case1 => simp
  | case2 s => simp
  | case3 s t rest htouch ih => simpa using ih
  | case4 s t rest htouch ih => simp

namespace PatternSource

variable {source : List Char} {tokens : Tokens} {literals : List StringLiteral}

theorem isBoundary_min {pattern : List Char} {n : Nat}
    (h : Text.IsBoundary pattern n ∨ Text.width pattern ≤ n) :
    Text.IsBoundary pattern (min n (Text.width pattern)) := by
  rcases h with h | h
  · have hle : n ≤ Text.width pattern := by
      obtain ⟨⟨before, after⟩, hsplit⟩ := Option.isSome_iff_exists.1 h
      obtain ⟨rfl, rfl⟩ := Text.splitAt?_eq_some_iff.1 hsplit
      rw [Text.width_append]
      exact Nat.le_add_right ..
    rwa [Nat.min_eq_left hle]
  · rw [Nat.min_eq_right h]
    simpa using Text.isBoundary_width_append pattern []

theorem offset_min (fragments : List Fragment) (n : Nat) :
    (ofFragments fragments).offset (min n (Text.width (ofFragments fragments).pattern)) =
      (ofFragments fragments).offset n := by
  rcases Nat.le_total n (Text.width (ofFragments fragments).pattern) with h | h
  · rw [Nat.min_eq_left h]
  · rw [Nat.min_eq_right h, offset_past fragments h]

/-- A span of the pattern of some literals is translated to nothing if it holds nothing or begins
past the end. -/
theorem ranges_eq_nil_iff (h : Tokens.ofSource source = .ok tokens)
    (hl : ∀ l ∈ literals, tokens.HasLiteral l ∧ l.IsTemplateFree) {span : Span}
    (hspan : span.Points (ofFragments (fragmentsOf literals)).pattern) :
    (ofFragments (fragmentsOf literals)).ranges span = [] ↔
      span.stop ≤ span.start ∨
        Text.width (ofFragments (fragmentsOf literals)).pattern ≤ span.start := by
  generalize hwidth : Text.width (ofFragments (fragmentsOf literals)).pattern = w
  have hranges : (ofFragments (fragmentsOf literals)).ranges span =
      (ofFragments (fragmentsOf literals)).ranges ⟨min span.start w, min span.stop w⟩ := by
    simp only [ranges, interval, ← hwidth, offset_min]
  rw [hranges]
  rcases Nat.lt_or_ge (min span.start w) (min span.stop w) with hlt | hle
  · rcases hspan with hempty | ⟨hstart, hstop⟩
    · omega
    · have hlo := isBoundary_min hstart
      have hhi := isBoundary_min hstop
      rw [hwidth, pattern_fragmentsOf h hl, textOf, flatMap_glyphs] at hlo hhi
      obtain ⟨before, within, after, hsplit, hbefore, hupTo⟩ :=
        Text.exists_between_of_isBoundary (Nat.le_of_lt hlt) hlo hhi
      -- There is a character between the ends, and it has a place.
      have hwithin : within ≠ [] := by
        rintro rfl
        rw [List.append_nil] at hupTo
        omega
      rw [hbefore, hupTo, fragmentsOf, ranges_entries (wellSpelled_of_mem h hl)
        (kind_of_mem fun l hmem => (hl l hmem).2) hsplit, Span.merge_eq_nil_iff]
      simp only [List.map_eq_nil_iff, hwithin, false_iff]
      omega
  · rw [ranges_eq_nil _ hle]
    simp only [true_iff]
    omega

end PatternSource

namespace Auditor

section Translation

variable {auditor : Auditor} {index : InverseIndex} {finding : Finding}

/-- What a diagnostic tells at its further places are the notes whose spans are translated to
something, and what the called function is. -/
theorem tells_translate {call : Call} {enabled : EnabledCheck} {message : String} :
    (auditor.translate index call enabled finding).tells message ↔
      (∃ note ∈ finding.notes, note.message = some message ∧
        index.ranges note.span.start note.span.stop ≠ []) ∨ callSiteMessage = message := by
  simp only [Diagnostic.tells, translate, List.mem_append, List.mem_singleton, or_and_right,
    exists_or, exists_eq_left, Option.some.injEq, List.mem_map]
  refine or_congr ⟨?_, ?_⟩ Iff.rfl
  · rintro ⟨_, ⟨⟨span, told⟩, hmem, rfl⟩, rfl⟩
    rw [further, List.mem_eraseDups, List.mem_append] at hmem
    rcases hmem with hnoted | hleft
    · obtain ⟨note, hnote, hspan⟩ := List.mem_flatMap.1 hnoted
      obtain ⟨s, hs, heq⟩ := List.mem_map.1 hspan
      obtain ⟨rfl, hmessage⟩ := Prod.mk.inj heq
      exact ⟨note, hnote, hmessage, List.ne_nil_of_mem hs⟩
    · obtain ⟨s, -, heq⟩ := List.mem_map.1 hleft
      exact absurd (Prod.mk.inj heq).2 (by simp)
  · rintro ⟨note, hnote, hmessage, hranges⟩
    obtain ⟨s, hs⟩ := List.exists_mem_of_ne_nil _ hranges
    refine ⟨⟨auditor.locate s, some message⟩, ⟨(s, some message), ?_, rfl⟩, rfl⟩
    rw [further, List.mem_eraseDups, List.mem_append]
    refine .inl (List.mem_flatMap.2 ⟨note, hnote, ?_⟩)
    rw [← hmessage]
    exact List.mem_map_of_mem hs

end Translation

section Runs

variable {source : List Char} {script : Script} {settings : Settings} {severity : Severity}
  {call : Call} {site : Site} {fault : Regex.Fault}

/-- The finding for a fault, in the joined text. -/
def faultFinding (site : Site) (fault : Regex.Fault) : Finding :=
  let span := (PatternSource.ofFragments site.fragments).interval fault.span
  ⟨span, "Fix the syntax error inside this regex.", [⟨span, some fault.cause.message⟩], none⟩

/-- A fault whose span is translated to nothing is reported at the name of the called function, and
nowhere else. -/
theorem translate_fault_of_ranges_eq_nil {auditor : Auditor} {enabled : EnabledCheck}
    (hcall : site.call = call)
    (h : (PatternSource.ofFragments site.fragments).ranges fault.span = []) :
    let d := auditor.translate (.ofFragments site.fragments) site.call enabled
      (faultFinding site fault)
    d.location = auditor.locate call.nameRange ∧
      d.secondaries = [⟨auditor.locate call.nameRange, some callSiteMessage⟩] := by
  have hranges : (InverseIndex.ofFragments site.fragments).ranges
      (faultFinding site fault).span.start (faultFinding site fault).span.stop = [] := h
  have hfurther : further (.ofFragments site.fragments) (faultFinding site fault) = [] := by
    rw [further, hranges]
    simp only [faultFinding, List.flatMap_singleton] at hranges ⊢
    rw [hranges]
    rfl
  subst hcall
  simp only [translate, hranges, hfurther]
  exact ⟨rfl, rfl⟩

/-- The reason of a fault is told if its span covers something of the pattern. -/
theorem tells_translate_fault {auditor : Auditor} {enabled : EnabledCheck} {tokens : Tokens}
    {literals : List StringLiteral} (htokens : Tokens.ofSource source = .ok tokens)
    (hliterals : ∀ l ∈ literals, tokens.HasLiteral l ∧ l.IsTemplateFree)
    (hfragments : site.fragments = fragmentsOf literals)
    (hfault : Regex.parse (site.flags.contains .comments)
      (PatternSource.ofFragments site.fragments).pattern = .error fault) :
    (auditor.translate (.ofFragments site.fragments) site.call enabled
        (faultFinding site fault)).tells fault.cause.message ↔
      fault.span.start < fault.span.stop ∧
        fault.span.start < Text.width (PatternSource.ofFragments site.fragments).pattern := by
  have hwithin := Regex.within_of_parse_error hfault
  have hpoints : fault.span.Points (PatternSource.ofFragments (fragmentsOf literals)).pattern := by
    rw [← hfragments]
    exact .inr ⟨.inl hwithin.start, .inl hwithin.stop⟩
  have hranges := PatternSource.ranges_eq_nil_iff htokens hliterals hpoints
  rw [← hfragments] at hranges
  rw [tells_translate]
  constructor
  · rintro (⟨note, hnote, -, hsome⟩ | hsame)
    · rw [List.mem_singleton.1 hnote] at hsome
      have hcovers := mt hranges.2 hsome
      simp only [not_or, Nat.not_le] at hcovers
      exact hcovers
    · exact absurd hsame fault.cause.message_ne
  · intro hcovers
    refine .inl ⟨_, List.mem_singleton.2 rfl, rfl, mt hranges.1 ?_⟩
    simp only [not_or, Nat.not_le]
    exact hcovers

/-- A pattern that cannot be parsed leads to one diagnostic. -/
theorem auditFresh_fault {auditor : Auditor} (hchecks : auditor.checks = settings.enabledChecks)
    (hon : settings.severityOf "regex/syntax-error" .error = some severity)
    (hsite : auditor.site? call = some site)
    (hfault : Regex.parse (site.flags.contains .comments)
      (PatternSource.ofFragments site.fragments).pattern = .error fault) :
    (auditor.auditFresh call).filter (fun d => d.rule == "regex/syntax-error") =
      [auditor.translate (.ofFragments site.fragments) site.call ⟨Check.syntaxErrors, severity⟩
        (faultFinding site fault)] := by
  have hfilter := auditor.auditFresh_filter settings.enabledChecks "regex/syntax-error" call
  have hmem : Check.syntaxErrors ∈ Check.builtin settings.complexityMax := by simp [Check.builtin]
  have henabled := Settings.filter_enabledChecks hmem
  rw [show Check.syntaxErrors.id = "regex/syntax-error" from rfl,
    show Check.syntaxErrors.defaultSeverity = .error from rfl, hon] at henabled
  have hsite' : (auditor.withChecks [⟨Check.syntaxErrors, severity⟩]).site? call = some site :=
    hsite
  have hfindings : (ParsedRegex.ofFragments site.fragments site.flags).findings
      Check.syntaxErrors = [faultFinding site fault] := by
    simp only [ParsedRegex.findings, ParsedRegex.subject, ParsedRegex.ofFragments, hfault,
      Check.syntaxErrors]
    rfl
  have hauditor : auditor.withChecks settings.enabledChecks = auditor := by
    rw [withChecks, ← hchecks]
  rw [hauditor, henabled] at hfilter
  rw [hfilter]
  simp only [Option.map_some, Option.toList_some, auditFresh, hsite']
  simp only [withChecks, List.flatMap_singleton, hfindings, List.map_cons, List.map_nil]
  rfl

/-- After any calls, a pattern of a script that cannot be parsed leads to one syntax error. It tells
the reason if the span of the fault covers something of the pattern. If it covers nothing, there is
no word of the reason, and the only places are the name of the called function. -/
theorem audit_fault (file : String) (hscript : Script.ofSource source = .ok script)
    (registry : Registry) (hon : settings.severityOf "regex/syntax-error" .error = some severity)
    (keying : Keying) {history : List Call} (hhistory : ∀ c ∈ history, c ∈ script.calls)
    (hcall : call ∈ script.calls)
    (hsite : (ofScript file source script registry settings.enabledChecks).site? call = some site)
    (hfault : Regex.parse (site.flags.contains .comments)
      (PatternSource.ofFragments site.fragments).pattern = .error fault) :
    let auditor := ofScript file source script registry settings.enabledChecks
    let cache := (auditor.auditAll (.empty keying) history).2
    let pattern := (PatternSource.ofFragments site.fragments).pattern
    ∃ d, (auditor.audit cache call).1.filter (fun d => d.rule == "regex/syntax-error") = [d] ∧
      d.severity = severity ∧ d.message = "Fix the syntax error inside this regex." ∧
      (d.tells fault.cause.message ↔
        fault.span.start < fault.span.stop ∧ fault.span.start < Text.width pattern) ∧
      (fault.span.stop ≤ fault.span.start →
        d.location = auditor.locate call.nameRange ∧
          d.secondaries = [⟨auditor.locate call.nameRange, some callSiteMessage⟩]) := by
  intro auditor cache pattern
  have hstands : ∀ c ∈ script.calls, ∀ site, auditor.site? c = some site →
      ∀ f ∈ site.fragments, f.StandsIn source :=
    fun c hc site hsite => standsIn_of_site? hscript hc hsite
  obtain ⟨-, -, hcoherent⟩ := auditAll_coherent (Cache.coherent_empty source keying)
    (fun c hc => hstands c (hhistory c hc))
  rw [(audit_coherent hcoherent (hstands call hcall)).1, auditFresh_fault rfl hon hsite hfault]
  refine ⟨_, rfl, rfl, rfl, ?_, fun hempty => ?_⟩
  · obtain ⟨tokens, literals, htokens, hliterals, hfragments⟩ :=
      exists_literals_of_site? hscript hcall hsite
    exact tells_translate_fault htokens hliterals hfragments hfault
  · have hnil := PatternSource.ranges_eq_nil site.fragments hempty
    obtain ⟨-, -, -, -, -, -, -, -, hsiteCall⟩ := site?_eq_some_iff.1 hsite
    exact translate_fault_of_ranges_eq_nil hsiteCall hnil

end Runs

namespace Star

/-- The source `Regex("*")`. -/
def source : List Char := ['R', 'e', 'g', 'e', 'x', '(', '"', '*', '"', ')']

/-- The argument of the call. -/
def argument : Expr := .string ⟨6, 9⟩ ⟨false, [⟨.literal, ['*'], ⟨7, 8⟩⟩]⟩

/-- The call. -/
def call : Call := ⟨.name ⟨0, 5⟩ "Regex", [argument]⟩

/-- The script of the source. -/
def script : Script := ⟨[.expression (.call ⟨0, 10⟩ call.callee call.args)]⟩

/-- The regex of the call. -/
def site : Site := ⟨call, [⟨['*'], ⟨7, 8⟩, false⟩], .none⟩

/-- The engine without any settings. -/
def engine : Engine := ⟨.builtin, Settings.empty.enabledChecks, .text, none⟩

theorem ofSource_source : Script.ofSource source = .ok script := by
  with_unfolding_all rfl

theorem site?_call (checks : List EnabledCheck) :
    (ofScript "star" source script .builtin checks).site? call = some site :=
  site?_regex rfl ⟨0, 5⟩ ⟨6, 9⟩ rfl (by simp)

/-- The fault is at the beginning of the pattern and covers nothing. -/
theorem parse_pattern : Regex.parse (site.flags.contains .comments)
    (PatternSource.ofFragments site.fragments).pattern = .error ⟨.repetitionMissing, ⟨0, 0⟩⟩ := by
  with_unfolding_all rfl

end Star

namespace Opened

/-- The source `Regex("(")`. -/
def source : List Char := ['R', 'e', 'g', 'e', 'x', '(', '"', '(', '"', ')']

/-- The call. -/
def call : Call :=
  ⟨.name ⟨0, 5⟩ "Regex", [.string ⟨6, 9⟩ ⟨false, [⟨.literal, ['('], ⟨7, 8⟩⟩]⟩]⟩

/-- The script of the source. -/
def script : Script := ⟨[.expression (.call ⟨0, 10⟩ call.callee call.args)]⟩

/-- The regex of the call. -/
def site : Site := ⟨call, [⟨['('], ⟨7, 8⟩, false⟩], .none⟩

theorem ofSource_source : Script.ofSource source = .ok script := by
  with_unfolding_all rfl

theorem site?_call (checks : List EnabledCheck) :
    (ofScript "opened" source script .builtin checks).site? call = some site :=
  site?_regex rfl ⟨0, 5⟩ ⟨6, 9⟩ rfl (by simp)

/-- The fault is the parenthesis. -/
theorem parse_pattern : Regex.parse (site.flags.contains .comments)
    (PatternSource.ofFragments site.fragments).pattern = .error ⟨.groupUnclosed, ⟨0, 1⟩⟩ := by
  with_unfolding_all rfl

end Opened

/-- A repetition of nothing is reported at the name of the called function, without a word on what
is wrong. A parenthesis that is not closed is reported with the reason. -/
theorem audit_fault_star_opened :
    (let auditor := ofScript "star" Star.source Star.script .builtin Settings.empty.enabledChecks
      let cache := (auditor.auditAll (.empty .text) []).2
      ∃ d, (auditor.audit cache Star.call).1.filter (fun d => d.rule == "regex/syntax-error") =
          [d] ∧
        d.severity = .error ∧ d.location.span = ⟨0, 5⟩ ∧
        ¬d.tells "repetition operator missing expression") ∧
    (let auditor := ofScript "opened" Opened.source Opened.script .builtin
        Settings.empty.enabledChecks
      let cache := (auditor.auditAll (.empty .text) []).2
      ∃ d, (auditor.audit cache Opened.call).1.filter
          (fun d => d.rule == "regex/syntax-error") = [d] ∧
        d.tells "unclosed group") := by
  have hon : Settings.empty.severityOf "regex/syntax-error" .error = some .error := rfl
  constructor
  · have hcall : Star.call ∈ Star.script.calls := List.mem_singleton.2 rfl
    have hhistory : ∀ c ∈ ([] : List Call), c ∈ Star.script.calls := nofun
    obtain ⟨d, hd, hseverity, -, htells, hempty⟩ := audit_fault "star" Star.ofSource_source
      .builtin hon .text hhistory hcall (Star.site?_call _) Star.parse_pattern
    refine ⟨d, hd, hseverity, ?_, ?_⟩
    · rw [(hempty (Nat.le_refl 0)).1]
      rfl
    · intro htold
      exact absurd (htells.1 htold).1 (Nat.lt_irrefl 0)
  · have hcall : Opened.call ∈ Opened.script.calls := List.mem_singleton.2 rfl
    have hhistory : ∀ c ∈ ([] : List Call), c ∈ Opened.script.calls := nofun
    obtain ⟨d, hd, -, -, htells, -⟩ := audit_fault "opened" Opened.ofSource_source
      .builtin hon .text hhistory hcall (Opened.site?_call _) Opened.parse_pattern
    have hcovered : 0 < Text.width (PatternSource.ofFragments Opened.site.fragments).pattern := by
      with_unfolding_all exact Nat.zero_lt_one
    exact ⟨d, hd, htells.2 ⟨Nat.zero_lt_one, hcovered⟩⟩

end Auditor

namespace Engine

open Auditor

/-- The reason for which `*` is no regular expression is lost: a report has a syntax error for it,
but no place of any diagnostic says what is wrong. -/
theorem analyze_loses_reason :
    ofSettings Settings.empty = .ok Star.engine ∧
    Regex.parse false ['*'] = .error ⟨.repetitionMissing, ⟨0, 0⟩⟩ ∧
    ∃ report, Star.engine.analyze "star" Star.source = .ok report ∧
      report.diagnostics.map (·.rule) = ["regex/syntax-error"] ∧
      ∀ d ∈ report.diagnostics, ¬d.tells Regex.Cause.repetitionMissing.message := by
  have hparse : Regex.parse false ['*'] = .error ⟨.repetitionMissing, ⟨0, 0⟩⟩ := by
    with_unfolding_all rfl
  have hreport := analyze_of_script Star.engine "star" Star.ofSource_source
  have hfresh : (ofScript "star" Star.source Star.script .builtin
      Settings.empty.enabledChecks).auditFresh Star.call =
      [(ofScript "star" Star.source Star.script .builtin Settings.empty.enabledChecks).translate
        (.ofFragments Star.site.fragments) Star.site.call ⟨Check.syntaxErrors, .error⟩
        (faultFinding Star.site ⟨.repetitionMissing, ⟨0, 0⟩⟩)] := by
    simp only [auditFresh, Star.site?_call]
    with_unfolding_all rfl
  refine ⟨rfl, hparse, _, hreport, ?_⟩
  show (List.flatMap (ofScript "star" Star.source Star.script .builtin
      Settings.empty.enabledChecks).auditFresh [Star.call]).map (·.rule) = _ ∧
    ∀ d ∈ List.flatMap (ofScript "star" Star.source Star.script .builtin
      Settings.empty.enabledChecks).auditFresh [Star.call], _
  rw [List.flatMap_singleton, hfresh]
  refine ⟨rfl, List.forall_mem_singleton.2 ?_⟩
  rw [tells_translate]
  rintro (⟨note, hnote, -, hsome⟩ | hsame)
  · rw [List.mem_singleton.1 hnote] at hsome
    exact hsome (PatternSource.ranges_eq_nil Star.site.fragments (Nat.le_refl 0))
  · exact Regex.Cause.message_ne _ hsame

end Engine

end RegexAudit
