import RegexAudit.Settings.Decode
import RegexAudit.Settings.Json
import RegexAudit.Settings.Toml

/-!
# Settings from texts

## Main definitions

* `Format`: the formats in which settings may be written.
* `Settings.ofText`: the settings that a text describes.
-/

namespace RegexAudit

/-- The formats in which settings may be written. -/
inductive Format where
  | toml
  | json
deriving DecidableEq, Repr

namespace Format

/-- The name of a format, which is also the extension of its files. -/
def name : Format → String
  | toml => "toml"
  | json => "json"

/-- The format with a name. -/
def ofName? (name : String) : Option Format := [toml, json].find? fun f => f.name == name

/-- The document that a text spells in a format. -/
def read : Format → List Char → Except Error Document
  | toml => Toml.ofText
  | json => Json.ofText

/-- What a format admits in the document of some settings. -/
def dialect : Format → Dialect
  | toml => {
      allowsSpare := true
      isUnit := fun
        | .list [] | .table [] => true
        | _ => false }
  | json => {
      allowsSpare := false
      isUnit := fun
        | .null => true
        | _ => false }

end Format

namespace Settings

/-- The settings that a text describes. -/
def ofText (format : Format) (text : List Char) : Except Error Settings := do
  match ofDocument? format.dialect (← format.read text) with
  | some settings => .ok settings
  | none => .error .malformedConfig

end Settings

end RegexAudit
