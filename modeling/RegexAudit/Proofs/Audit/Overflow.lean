import RegexAudit.Engine
import RegexAudit.Proofs.Audit.Cache
import RegexAudit.Proofs.Check.Scores

/-!
# Runs that stop

A run stops if a check comes to a sum that does not fit its word, on the regex of some call. The
regexes of all calls that are analysed are in the cache at the end, each as it would be parsed for
one of these calls, so the cache tells whether a run stops. All other runs are analyses.

## Main definitions

* `Auditor.StopsOn`: a check stops on the regex of a call.

## Main statements

* `Auditor.stopsOn_iff`: the score of the pattern tells whether one of the built-in checks stops.
* `Auditor.overflows_audit_iff`, `Auditor.overflows_auditAll_iff`: one call, and any calls.
* `Engine.run_eq_overflow_iff`: the runs that stop.
* `Engine.run_eq_analyze`: all other runs.
-/

namespace RegexAudit

open Script

namespace Auditor

/-- A check stops on the regex of a call. -/
def StopsOn (auditor : Auditor) (call : Call) : Prop :=
  ∃ site, auditor.site? call = some site ∧ ∃ enabled ∈ auditor.checks,
    (ParsedRegex.ofFragments site.fragments site.flags).overflows enabled.check = true

variable {auditor : Auditor} {source : List Char} {cache : Cache ParsedRegex} {call : Call}

/-- The check for complexity stops on a pattern that is parsed and of which the points do not fit a
word. -/
theorem overflows_complexity_iff (fragments : List Fragment) (flags : Flags) (max : UInt32) :
    (ParsedRegex.ofFragments fragments flags).overflows (.complexity max) = true ↔
      ∃ tree, Regex.parse (flags.contains .comments)
          (PatternSource.ofFragments fragments).pattern = .ok tree ∧
        2 ^ 32 ≤ tree.score (PatternSource.ofFragments fragments).pattern := by
  show (Check.complexity max).overflows
    (.ofPattern (PatternSource.ofFragments fragments).pattern flags) = true ↔ _
  cases hparse : Regex.parse (flags.contains .comments)
      (PatternSource.ofFragments fragments).pattern with
  | error fault =>
    simp only [Check.complexity, Subject.tree?, Subject.ofPattern, hparse, Except.toOption,
      Option.any_none, Bool.false_eq_true, reduceCtorEq, false_and, exists_false]
  | ok tree =>
    rw [Check.overflows_complexity hparse]
    simp only [Except.ok.injEq, exists_eq_left']

/-- No other built-in check comes to a sum at all. -/
theorem eq_complexity_of_overflows {check : Check} {max : UInt32} {regex : ParsedRegex}
    (hcheck : check ∈ Check.builtin max) (h : regex.overflows check = true) :
    check = .complexity max := by
  simp only [Check.builtin, List.mem_cons, List.not_mem_nil, or_false] at hcheck
  obtain rfl | rfl | rfl | rfl | rfl | rfl := hcheck
  · cases h
  · cases h
  · cases h
  · cases h
  · cases h
  · rfl

/-- With the built-in checks it is the one for complexity that stops, if it is not turned off. -/
theorem stopsOn_iff {settings : Settings} (hchecks : auditor.checks = settings.enabledChecks) :
    auditor.StopsOn call ↔ (∃ severity, settings.severityOf "regex/complexity" .warning =
        some severity) ∧ ∃ site tree, auditor.site? call = some site ∧
      Regex.parse (site.flags.contains .comments)
        (PatternSource.ofFragments site.fragments).pattern = .ok tree ∧
      2 ^ 32 ≤ tree.score (PatternSource.ofFragments site.fragments).pattern := by
  rw [StopsOn, hchecks, Settings.enabledChecks]
  constructor
  · rintro ⟨site, hsite, enabled, henabled, hoverflows⟩
    obtain ⟨check, hcheck, hsome⟩ := List.mem_filterMap.1 henabled
    obtain ⟨severity, hseverity, rfl⟩ := Option.map_eq_some_iff.1 hsome
    obtain rfl := eq_complexity_of_overflows hcheck hoverflows
    obtain ⟨tree, hparse, hgreat⟩ := (overflows_complexity_iff ..).1 hoverflows
    exact ⟨⟨severity, hseverity⟩, site, tree, hsite, hparse, hgreat⟩
  · rintro ⟨⟨severity, hseverity⟩, site, tree, hsite, hparse, hgreat⟩
    have hmem : Check.complexity settings.complexityMax ∈
        Check.builtin settings.complexityMax := by simp [Check.builtin]
    refine ⟨site, hsite, ⟨.complexity settings.complexityMax, severity⟩, ?_, ?_⟩
    · exact List.mem_filterMap.2 ⟨_, hmem, Option.map_eq_some_iff.2 ⟨severity, hseverity, rfl⟩⟩
    · exact (overflows_complexity_iff ..).2 ⟨tree, hparse, hgreat⟩

theorem overflows_eq_true_iff : auditor.overflows cache = true ↔
    ∃ key regex, (key, regex) ∈ cache.entries ∧
      ∃ enabled ∈ auditor.checks, regex.overflows enabled.check = true := by
  simp only [overflows, List.any_eq_true, Prod.exists]

/-- The regex of a call is in the cache afterwards, in the form of one with the same text. -/
theorem overflows_audit_iff (h : cache.Coherent source)
    (hcall : ∀ site, auditor.site? call = some site → ∀ f ∈ site.fragments, f.StandsIn source) :
    auditor.overflows (auditor.audit cache call).2 = true ↔
      auditor.overflows cache = true ∨ auditor.StopsOn call := by
  cases hsite : auditor.site? call with
  | none =>
    have hgoes : ¬auditor.StopsOn call := by
      rintro ⟨site, hsome, -⟩
      cases hsite.symm.trans hsome
    rw [audit, hsite, or_iff_left hgoes]
  | some site =>
    have hstops : auditor.StopsOn call ↔ ∃ enabled ∈ auditor.checks,
        (ParsedRegex.ofFragments site.fragments site.flags).overflows enabled.check = true := by
      simp only [StopsOn, hsite, Option.some.injEq, exists_eq_left']
    rw [hstops, audit, hsite, overflows_eq_true_iff, overflows_eq_true_iff]
    dsimp only
    rw [Cache.fetch]
    cases hfind : cache.find? (.of cache.keying site.fragments site.flags) with
    | some regex =>
      -- The result that is found stays in the cache.
      have hmem := Cache.mem_of_find? hfind
      obtain ⟨gs, flags, hkey, rfl, hgs⟩ := h _ regex hmem
      obtain ⟨hjoin, rfl⟩ := CacheKey.of_eq (hcall site hsite) hgs hkey
      constructor
      · exact .inl
      · rintro (hold | ⟨enabled, henabled, hoverflows⟩)
        · exact hold
        · rw [ParsedRegex.overflows, ParsedRegex.subject_eq_of_join _ hjoin] at hoverflows
          exact ⟨_, _, hmem, enabled, henabled, hoverflows⟩
    | none =>
      constructor
      · rintro ⟨key, regex, hmem, hoverflows⟩
        obtain hnew | hold := List.mem_cons.1 hmem
        · cases hnew
          exact .inr hoverflows
        · exact .inl ⟨key, regex, hold, hoverflows⟩
      · rintro (⟨key, regex, hold, hoverflows⟩ | hoverflows)
        · exact ⟨key, regex, List.mem_cons_of_mem _ hold, hoverflows⟩
        · exact ⟨_, _, List.mem_cons_self, hoverflows⟩

theorem overflows_auditAll_iff {calls : List Call} (h : cache.Coherent source)
    (hcalls : ∀ call ∈ calls, ∀ site, auditor.site? call = some site →
      ∀ f ∈ site.fragments, f.StandsIn source) :
    auditor.overflows (auditor.auditAll cache calls).2 = true ↔
      auditor.overflows cache = true ∨ ∃ call ∈ calls, auditor.StopsOn call := by
  induction calls generalizing cache with
  | nil => simp only [auditAll, List.not_mem_nil, false_and, exists_false, or_false]
  | cons call calls ih =>
    obtain ⟨hcall, hcalls⟩ := List.forall_mem_cons.1 hcalls
    obtain ⟨-, -, hcoherent⟩ := audit_coherent h hcall
    refine (ih hcoherent hcalls).trans ?_
    rw [overflows_audit_iff h hcall, or_assoc]
    simp only [List.mem_cons, exists_eq_or_imp]

end Auditor

namespace Engine

variable {engine : Engine} {path : String} {source : List Char}

/-- A source that is no script does not stop a run. -/
theorem ofFault_ne_overflow (fault : Fault) : Error.ofFault source fault ≠ .overflow := by
  rw [Error.ofFault]
  split
  · nofun
  · nofun

/-- A run stops exactly if a check stops on the regex of some call of the script. -/
theorem run_eq_overflow_iff : engine.run path source = .error .overflow ↔
    ∃ script, Script.ofSource source = .ok script ∧ ∃ call ∈ script.calls,
      (Auditor.ofScript path source script engine.registry engine.checks).StopsOn call := by
  rw [run]
  cases hscript : Script.ofSource source with
  | error fault =>
    simp only [Except.error.injEq, ofFault_ne_overflow, reduceCtorEq, false_and, exists_false]
  | ok script =>
    have hstands : ∀ call ∈ script.calls, ∀ site,
        (Auditor.ofScript path source script engine.registry engine.checks).site? call = some site →
        ∀ f ∈ site.fragments, f.StandsIn source :=
      fun call hcall site hsite => Auditor.standsIn_of_site? hscript hcall hsite
    have hstops := Auditor.overflows_auditAll_iff (Cache.coherent_empty source engine.keying)
      hstands
    rw [or_iff_right (by simp [Auditor.overflows, Cache.empty])] at hstops
    simp only [Except.ok.injEq, exists_eq_left', ← hstops]
    split
    · next htrue => simp only [htrue]
    · next hfalse => simp only [reduceCtorEq, hfalse]

/-- A run that does not stop is an analysis. -/
theorem run_eq_analyze (h : engine.run path source ≠ .error .overflow) :
    engine.run path source = engine.analyze path source := by
  rw [run] at h ⊢
  rw [analyze]
  cases hscript : Script.ofSource source with
  | error fault => rfl
  | ok script =>
    rw [hscript] at h
    dsimp only at h ⊢
    split
    · next htrue =>
      rw [if_pos htrue] at h
      exact absurd rfl h
    · rfl

end Engine

end RegexAudit
