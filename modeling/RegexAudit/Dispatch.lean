import RegexAudit.Cache
import RegexAudit.Check.Basic
import RegexAudit.Diagnostic
import RegexAudit.Script.Scope
import RegexAudit.Signature

/-!
# Analysing the calls of a script

For each call that takes a regex: assemble the pattern from its literals, find
its flags, parse it through the cache, run the checks, and translate their
findings back to the source.

## Main definitions

* `Scope.flatten?`: the fragments that a pattern expression expands to.
* `Site`: a call whose regex can be analysed.
* `Auditor`: what stays the same while one file is analysed.
* `Auditor.audit`: analyses one call.

## Design notes

A call that cannot be analysed is passed over: its pattern is not made of
literals alone, or is empty, or is not meant as a regex. Nothing is guessed.

A result from the cache may stem from another call with the same text. Its
findings hold for this call too, and they are translated with this call's own
fragments.
-/

namespace RegexAudit

open Script

/-- The message at the name of the called function. -/
def callSiteMessage : String :=
  "Function call whose argument is interpreted as a regular expression."

/-- The depth of concatenation beyond which a pattern is given up. -/
def maxConcatDepth : Nat := 64

/-- The number of expressions that a pattern may expand to. -/
def maxConcatNodes : Nat := 4096

/-- The fragments of the expressions on a stack, each with its depth, where at most `budget`
expressions are still looked at. The fragments already found are given in pieces, last first. -/
def Script.Scope.flattenFrom (scope : Scope) (found : List (List Fragment)) :
    (budget : Nat) → List (Expr × Nat) → Option (List Fragment)
  | _, [] => some found.reverse.flatten
  | 0, _ :: _ => none
  | budget + 1, (e, depth) :: stack =>
    if maxConcatDepth < depth then none
    else
      match scope.predict e with
      | .string _ literal =>
        match literal.fragments? with
        | none => none
        | some fragments => flattenFrom scope (fragments :: found) budget stack
      | .binary _ .plus lhs rhs =>
        flattenFrom scope found budget ((lhs, depth + 1) :: (rhs, depth + 1) :: stack)
      | _ => none

/-- The fragments that an expression expands to, from left to right. There are none when it expands
to anything but literals without templates, or grows too large. -/
def Script.Scope.flatten? (scope : Scope) (e : Expr) : Option (List Fragment) :=
  scope.flattenFrom [] maxConcatNodes [(e, 0)]

/-- A call whose regex can be analysed. -/
structure Site where
  call : Call
  fragments : List Fragment
  flags : Flags

/-- What stays the same while one file is analysed. -/
structure Auditor where
  file : String
  lines : LineMap
  scope : Scope
  registry : Registry
  checks : List EnabledCheck

namespace Auditor

/-- The auditor of a script. -/
def ofScript (file : String) (source : List Char) (script : Script) (registry : Registry)
    (checks : List EnabledCheck) : Auditor :=
  ⟨file, .ofText source, .ofScript script, registry, checks⟩

/-- The regex of a call, if it can be analysed. -/
def site? (auditor : Auditor) (call : Call) : Option Site := do
  let signature ← auditor.registry.find? call
  let pattern ← signature.patternOf? call
  let fragments ← auditor.scope.flatten? pattern
  guard !fragments.isEmpty
  let flags := Flags.resolve auditor.scope (signature.flagsOf? call)
  guard !flags.contains .literal
  pure ⟨call, fragments, flags⟩

/-- The location of a span. -/
def locate (auditor : Auditor) (span : Span) : Location := .of auditor.file auditor.lines span

/-- The further places of a finding: those of its notes, and then what is left of its own span. No
place is listed twice with one message. -/
def further (index : InverseIndex) (finding : Finding) : List (Span × Option String) :=
  let noted := finding.notes.flatMap fun note =>
    (index.ranges note.span.start note.span.stop).map (·, note.message)
  let left := (index.ranges finding.span.start finding.span.stop).tail.map (·, none)
  (noted ++ left).eraseDups

/-- The diagnostic for a finding of a check at a site. The first of its source spans is the
location, or else the name of the called function, which is also the last of the further places. -/
def translate (auditor : Auditor) (index : InverseIndex) (call : Call) (enabled : EnabledCheck)
    (finding : Finding) : Diagnostic :=
  let callee := call.nameRange
  let primary := (index.ranges finding.span.start finding.span.stop).headD callee
  { rule := enabled.check.id
    severity := enabled.severity
    message := finding.message
    location := auditor.locate primary
    secondaries :=
      (further index finding).map (fun (span, message) => ⟨auditor.locate span, message⟩) ++
        [⟨auditor.locate callee, some callSiteMessage⟩]
    gap := finding.gap }

/-- Whether an index was made of fragments with the same spans. -/
def sameSpans (index : InverseIndex) (fragments : List Fragment) : Bool :=
  index.boundaries.map (·.range) == fragments.map (·.range)

/-- The index that translates to the fragments of a site: the one of a parsed regex if it has the
same spans, or else the site's own. -/
def indexFor (regex : ParsedRegex) (fragments : List Fragment) : InverseIndex :=
  if sameSpans regex.source.index fragments then regex.source.index
  else .ofFragments fragments

/-- The diagnostics for a parsed regex at a site. -/
def report (auditor : Auditor) (regex : ParsedRegex) (site : Site) : List Diagnostic :=
  let index := indexFor regex site.fragments
  auditor.checks.flatMap fun enabled =>
    (regex.findings enabled.check).map (auditor.translate index site.call enabled)

/-- Analyses one call: the diagnostics for it, and the cache afterwards. -/
def audit (auditor : Auditor) (cache : Cache ParsedRegex) (call : Call) :
    List Diagnostic × Cache ParsedRegex :=
  match auditor.site? call with
  | none => ([], cache)
  | some site =>
    let (regex, cache) : ParsedRegex × Cache ParsedRegex :=
      Id.run (cache.fetch (fun fs flags => pure (.ofFragments fs flags)) site.fragments site.flags)
    (auditor.report regex site, cache)

/-- Analyses some calls in order. -/
def auditAll (auditor : Auditor) (cache : Cache ParsedRegex) :
    List Call → List Diagnostic × Cache ParsedRegex
  | [] => ([], cache)
  | call :: calls =>
    let (first, cache) := auditor.audit cache call
    let (more, cache) := auditor.auditAll cache calls
    (first ++ more, cache)

/-- Whether a check stops on one of the regexes of a cache. The regexes that were analysed with the
cache are those in it. -/
def overflows (auditor : Auditor) (cache : Cache ParsedRegex) : Bool :=
  cache.entries.any fun (_, regex) => auditor.checks.any fun enabled =>
    regex.overflows enabled.check

end Auditor

end RegexAudit
