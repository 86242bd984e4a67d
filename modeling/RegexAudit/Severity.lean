/-!
# Severities

How serious a finding is.

## Main definitions

* `Severity`: the four degrees, from the least serious on.
* `Severity.sort`: puts severities in order.
-/

namespace RegexAudit

/-- How serious a finding is. -/
inductive Severity where
  | info
  | hint
  | warning
  | error
deriving DecidableEq, Repr, Inhabited

namespace Severity

/-- The place of a severity in the order, the least serious first. -/
def rank : Severity → Nat
  | info => 0
  | hint => 1
  | warning => 2
  | error => 3

/-- The name of a severity. -/
def name : Severity → String
  | info => "info"
  | hint => "hint"
  | warning => "warning"
  | error => "error"

/-- The severity with a name. -/
def ofName? (name : String) : Option Severity :=
  [info, hint, warning, error].find? fun s => s.name == name

@[simp] theorem ofName?_name (s : Severity) : ofName? s.name = some s := by cases s <;> decide

/-- Puts severities in order, the least serious first. -/
def sort (severities : List Severity) : List Severity :=
  severities.mergeSort fun a b => a.rank ≤ b.rank

end Severity

end RegexAudit
