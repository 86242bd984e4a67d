import RegexAudit.Proofs.Audit.Rules
import RegexAudit.Proofs.Script.Totality
import RegexAudit.Proofs.Shift.Diagnostics
import RegexAudit.Proofs.Shift.Parser

/-!
# Analysing a moved source

Leading lines move everything that is reported on a source, and nothing else. The keys of the cache
that are made of spans are moved too, and remain as different as they were.

## Main definitions

* `CacheKey.shift`: the key of moved fragments.
* `Report.shift`, `Error.shift`: the outcome of an analysis, moved.

## Main statements

* `Auditor.moved_leadingLines`: the auditor of a source behind leading lines.
* `Error.ofFault_leadingLines`: the error for a source behind leading lines.
* `Engine.analyze_leadingLines`: the analysis of a source behind leading lines.
-/

namespace RegexAudit

open Script

variable {w k : Nat}

/-- The key, with its spans moved by some bytes. -/
def CacheKey.shift (w : Nat) : CacheKey → CacheKey
  | .identity ranges flags => .identity (ranges.map (Span.shift w)) flags
  | .text joined flags => .text joined flags

/-- The report, moved by some bytes and some lines. -/
def Report.shift (w k : Nat) (report : Report) : Report :=
  { report with diagnostics := report.diagnostics.map (Diagnostic.shift w k) }

/-- The error, moved by some bytes and some lines where it tells a place. -/
def Error.shift (w k : Nat) : Error → Error
  | .parse message offset position => .parse message (offset + w) (position.shift k)
  | e => e

namespace CacheKey

theorem shift_injective (w : Nat) : Function.Injective (CacheKey.shift w) := by
  intro key key' h
  cases key with
  | identity ranges flags =>
    cases key' with
    | identity ranges' flags' =>
      obtain ⟨hranges, hflags⟩ := CacheKey.identity.inj h
      rw [List.map_injective_iff.2 (Span.shift_injective w) hranges, hflags]
    | text joined' flags' => cases h
  | text joined flags =>
    cases key' with
    | identity ranges' flags' => cases h
    | text joined' flags' => exact h

/-- Moved fragments have the moved key. -/
theorem of_shift (keying : Keying) (fs : List Fragment) (flags : Flags) :
    of keying (fs.map (Fragment.shift w)) flags = (of keying fs flags).shift w := by
  cases keying with
  | identity =>
    rw [of, of, shift, List.map_map, List.map_map]
    rfl
  | text => rw [of, of, shift, Fragment.join_shift]

end CacheKey

namespace Auditor

theorem Moved.key? {auditor moved : Auditor} (h : auditor.Moved w k moved) (keying : Keying)
    (call : Call) :
    moved.key? keying (call.shift w) = (auditor.key? keying call).map (CacheKey.shift w) := by
  rw [Auditor.key?, Auditor.key?, site?_shift h.scope h.registry]
  cases auditor.site? call with
  | none => rfl
  | some site => exact congrArg some (CacheKey.of_shift keying site.fragments site.flags)

/-- Behind leading lines a source has the moved auditor. -/
theorem moved_leadingLines {p : List Char} (h : LeadingLines k p) (file : String) (s : List Char)
    (script : Script) (registry : Registry) (checks : List EnabledCheck) :
    (ofScript file s script registry checks).Moved (Text.width p) k
      (ofScript file (p ++ s) (script.shift (Text.width p)) registry checks) where
  file := rfl
  lines := Text.position_leadingLines h s
  scope := Scope.ofScript_shift (Text.width p) script
  registry := rfl
  checks := rfl

end Auditor

/-- The moved fault of a source behind leading lines is the moved error. -/
theorem Error.ofFault_leadingLines {p : List Char} (h : LeadingLines k p) {fault : Fault}
    {offset : Nat} (hfault : fault.IsAt offset) (s : List Char) :
    ofFault (p ++ s) (fault.shift (Text.width p)) = (ofFault s fault).shift (Text.width p) k := by
  have hmoved : (fault.shift (Text.width p)).IsAt (offset + Text.width p) :=
    ⟨congrArg (· + Text.width p) hfault.offset, hfault.ordinary⟩
  rw [hmoved.ofFault_eq, hfault.ofFault_eq, parseAt, parseAt, shift, Text.position_leadingLines h]
  rfl

namespace Engine

/-- Behind leading lines a source has the moved report, with the same count of the cache, or the
moved error. -/
theorem analyze_leadingLines (engine : Engine) (path : String) {p s : List Char}
    (h : LeadingLines k p) (hsize : Text.width (p ++ s) ≤ maxSourceBytes) :
    engine.analyze path (p ++ s) =
      match engine.analyze path s with
      | .ok report => .ok (report.shift (Text.width p) k)
      | .error e => .error (e.shift (Text.width p) k) := by
  have hmoved := Script.ofSource_leadingLines h hsize
  cases hscript : Script.ofSource s with
  | error fault =>
    have hsmall : Text.width s ≤ maxSourceBytes := by
      rw [Text.width_append] at hsize
      omega
    obtain ⟨d, -, hfault⟩ := Script.exists_place_of_error hsmall hscript
    rw [hscript] at hmoved
    rw [analyze, analyze, hmoved, hscript]
    exact congrArg Except.error (Error.ofFault_leadingLines h hfault s)
  | ok script =>
    rw [hscript] at hmoved
    let w := Text.width p
    let auditor := Auditor.ofScript path s script engine.registry engine.checks
    let moved := Auditor.ofScript path (p ++ s) (script.shift w) engine.registry engine.checks
    have hauditor : auditor.Moved w k moved := Auditor.moved_leadingLines h path s script _ _
    have hdiagnostics : (script.calls.map (Call.shift w)).flatMap moved.auditFresh =
        (script.calls.flatMap auditor.auditFresh).map (Diagnostic.shift w k) := by
      rw [List.flatMap_map, List.map_flatMap]
      exact congrArg (List.flatMap · _) (funext hauditor.auditFresh)
    -- Keys made of spans change, but different keys remain different, so the count does not.
    have hkeys : (script.calls.map (Call.shift w)).filterMap (moved.key? engine.keying) =
        (script.calls.filterMap (auditor.key? engine.keying)).map (CacheKey.shift w) := by
      rw [List.filterMap_map, List.map_filterMap]
      exact congrArg (List.filterMap · _) (funext (hauditor.key? engine.keying))
    rw [analyze_of_script engine path hmoved, analyze_of_script engine path hscript,
      Script.calls_shift, hdiagnostics, hkeys,
      CacheStats.ofKeys_map (CacheKey.shift_injective w)]
    rfl

namespace Preface

/-- An indented comment and a blank line. -/
def lines : List Char := [' ', '/', '/', ' ', 'é', '\n', '\n']

/-- The engine with the strict rules whose cache goes by the spans of fragments. -/
def engine : Engine := { Groups.engine with keying := .identity }

/-- A literal without an end. -/
def literal : List Char := ['"', 'é']

theorem leadingLines : LeadingLines 2 lines := by
  have hblank : LeadingLines 1 ['\n'] := @LeadingLines.line 0 [] [] [] (by simp) (.inl rfl) .nil
  have hindent : ∀ c ∈ [' '], Text.isBlank c = true ∧ c ≠ '\n' :=
    List.forall_mem_singleton.2 ⟨rfl, by decide⟩
  exact @LeadingLines.line 1 [' '] ['/', '/', ' ', 'é'] ['\n'] hindent
    (.inr ⟨[' ', 'é'], rfl, by simp⟩) hblank

theorem analyze_source :
    ∃ report, engine.analyze "groups" Groups.source = .ok report ∧
      (report.shift 8 2).diagnostics.map (fun d => (d.location.first, d.location.span)) =
        [(⟨3, 8⟩, ⟨15, 17⟩)] ∧ report.stats = ⟨0, 1⟩ := by
  have hsite : (Auditor.ofScript "groups" Groups.source Groups.script engine.registry
      engine.checks).site? Groups.call = some ⟨Groups.call, [⟨['(', ')'], ⟨7, 9⟩, false⟩], .none⟩ :=
    Groups.site?_call engine.checks
  have hcalls : Groups.script.calls = [Groups.call] := rfl
  have hreport := analyze_of_script engine "groups" Groups.ofSource_source
  simp only [hcalls, List.flatMap_singleton, List.filterMap_cons, Auditor.auditFresh, Auditor.key?,
    hsite] at hreport
  exact ⟨_, hreport, by with_unfolding_all rfl, rfl⟩

theorem analyze_literal : engine.analyze "groups" literal =
    .error (.parse "Unterminated string literal" 0 ⟨1, 1⟩) := by
  with_unfolding_all rfl

end Preface

/-- Behind a comment and a blank line the empty group is found in the third line, eight bytes later,
and a literal without an end is refused there. -/
theorem analyze_leadingLines_preface :
    (∃ report, Preface.engine.analyze "groups" (Preface.lines ++ Groups.source) = .ok report ∧
      report.diagnostics.map (fun d => (d.location.first, d.location.span)) =
        [(⟨3, 8⟩, ⟨15, 17⟩)] ∧ report.stats = ⟨0, 1⟩) ∧
    Preface.engine.analyze "groups" (Preface.lines ++ Preface.literal) =
      .error (.parse "Unterminated string literal" 8 ⟨3, 1⟩) := by
  have hmoved := analyze_leadingLines Preface.engine "groups" Preface.leadingLines
    (show Text.width (Preface.lines ++ Groups.source) ≤ maxSourceBytes by decide)
  have hrefused := analyze_leadingLines Preface.engine "groups" Preface.leadingLines
    (show Text.width (Preface.lines ++ Preface.literal) ≤ maxSourceBytes by decide)
  obtain ⟨report, hreport, hplaces, hstats⟩ := Preface.analyze_source
  rw [hreport] at hmoved
  rw [Preface.analyze_literal] at hrefused
  exact ⟨⟨_, hmoved, hplaces, hstats⟩, hrefused⟩

end Engine

end RegexAudit
