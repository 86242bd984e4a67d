import RegexAudit.Check.Builtin
import RegexAudit.Dispatch
import RegexAudit.Script.Parser

/-!
# Analysing files

An engine holds everything that is decided by the settings, and analyses one
source after the other. Nothing is shared between sources.

## Main definitions

* `Engine.ofSettings`: the engine for some settings, or why there is none.
* `Engine.analyze`: the report on a source text, given that every check comes to
  an end.
* `Engine.run`: the report on a source text, unless a check stops.
-/

namespace RegexAudit

/-- The built-in checks that are not turned off, each at its severity. -/
def Settings.enabledChecks (settings : Settings) : List EnabledCheck :=
  (Check.builtin settings.complexityMax).filterMap fun check =>
    (settings.severityOf check.id check.defaultSeverity).map (⟨check, ·⟩)

/-- The diagnostics for one file, and how its cache did. -/
structure Report where
  file : String
  diagnostics : List Diagnostic
  stats : CacheStats
deriving DecidableEq, Repr

/-- Everything that is decided by the settings. -/
structure Engine where
  registry : Registry
  checks : List EnabledCheck
  keying : Keying
  /-- How many files are analysed at a time. It makes no difference to the reports. -/
  threads : Option UInt64

namespace Engine

/-- The engine for some settings. -/
def ofSettings (settings : Settings) : Except Error Engine :=
  if settings.threads = some 0 then .error (.config "threads must be at least 1")
  else
    match Registry.ofSettings settings with
    | .error e => .error e
    | .ok registry => .ok ⟨registry, settings.enabledChecks, settings.keying, settings.threads⟩

/-- The report on a source text, given that no check stops. The path only names the file in
locations. -/
def analyze (engine : Engine) (path : String) (source : List Char) : Except Error Report :=
  match Script.ofSource source with
  | .error fault => .error (.ofFault source fault)
  | .ok script =>
    let auditor := Auditor.ofScript path source script engine.registry engine.checks
    let (diagnostics, cache) := auditor.auditAll (.empty engine.keying) script.calls
    .ok ⟨path, diagnostics, cache.stats⟩

/-- Analyses a source text. Where a check stops, the whole program does. -/
def run (engine : Engine) (path : String) (source : List Char) : Except Error Report :=
  match Script.ofSource source with
  | .error fault => .error (.ofFault source fault)
  | .ok script =>
    let auditor := Auditor.ofScript path source script engine.registry engine.checks
    let (diagnostics, cache) := auditor.auditAll (.empty engine.keying) script.calls
    if auditor.overflows cache then .error .overflow
    else .ok ⟨path, diagnostics, cache.stats⟩

end Engine

end RegexAudit
