import RegexAudit.Cache
import RegexAudit.Severity

/-!
# Settings

What a user may configure, and the values that hold where nothing is
configured.

## Main definitions

* `Settings`: a configuration, each part of which may be absent.
* `Settings.severityOf`: the severity at which a check reports, if it does.
* `Settings.complexityMax`, `Settings.keying`, `Settings.extraSignatures`: the
  values in force.
-/

namespace RegexAudit

/-- How a rule reports. -/
inductive Level where
  | off
  | info
  | warn
  | error
deriving DecidableEq, Repr

namespace Level

/-- The name of a level. -/
def name : Level → String
  | off => "off"
  | info => "info"
  | warn => "warn"
  | error => "error"

/-- The level with a name. -/
def ofName? (name : String) : Option Level :=
  [off, info, warn, error].find? fun l => l.name == name

/-- The severity of a level; a rule that is off has none. -/
def severity? : Level → Option Severity
  | off => none
  | info => some .info
  | warn => some .warning
  | error => some .error

end Level

/-- Settings of the complexity rule. -/
structure ComplexitySettings where
  max : Option UInt32
deriving DecidableEq, Repr

/-- Settings of the rules. No rule has two levels. -/
structure RuleSettings where
  levels : Option (List (String × Level))
  complexity : Option ComplexitySettings
deriving DecidableEq, Repr

/-- A further call whose argument is a regex. -/
structure SignatureSettings where
  name : String
  /-- The type in front of the call, or `string` for a call on a string value. -/
  receiver : Option String
  patternArgument : Option UInt64
  flagsArgument : Option UInt64
  minArguments : Option UInt64
  maxArguments : Option UInt64
deriving DecidableEq, Repr

/-- Settings of the cache. -/
structure CacheSettings where
  keying : Option Keying
deriving DecidableEq, Repr

/-- A configuration. -/
structure Settings where
  schema : Option String
  rules : Option RuleSettings
  signatures : Option (List SignatureSettings)
  cache : Option CacheSettings
  threads : Option UInt64
deriving DecidableEq, Repr

namespace Settings

/-- The configuration in which everything is absent. -/
def empty : Settings := ⟨none, none, none, none, none⟩

/-- The highest complexity that is accepted where none is configured. -/
def defaultComplexityMax : UInt32 := 20

/-- The level that is configured for a rule. -/
def level? (settings : Settings) (rule : String) : Option Level := do
  let rules ← settings.rules
  let levels ← rules.levels
  levels.lookup rule

/-- The severity at which a rule reports, given the one that it has by default. There is none when
the rule is off. -/
def severityOf (settings : Settings) (rule : String) (default : Severity) : Option Severity :=
  match settings.level? rule with
  | some level => level.severity?
  | none => some default

/-- The highest complexity that is accepted. -/
def complexityMax (settings : Settings) : UInt32 :=
  (settings.rules.bind (·.complexity) |>.bind (·.max)).getD defaultComplexityMax

/-- What makes two regexes the same for the cache. -/
def keying (settings : Settings) : Keying :=
  (settings.cache.bind (·.keying)).getD .text

/-- The configured signatures. -/
def extraSignatures (settings : Settings) : List SignatureSettings := settings.signatures.getD []

end Settings

end RegexAudit
