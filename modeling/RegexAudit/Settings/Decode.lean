import RegexAudit.Settings.Basic
import RegexAudit.Settings.Document

/-!
# Settings from documents

Reads a document as settings. What a document names beyond the settings is
passed over.

## Main definitions

* `Dialect`: what differs between the formats of documents.
* `Document.fields?`: the fields of a record.
* `Settings.ofDocument?`: the settings that a document describes.

## Design notes

A record is a table of its fields, in any order, or the list of all its fields
in the order of their declaration. A field that is absent and one that is null
are the same, except that a list must hold something for each. A date or time
is a record too, which has none of the fields.

Whatever else a table holds is looked at without being used, so it must be
readable. The spare elements of a list are not looked at.
-/

namespace RegexAudit

/-- What differs between the formats of documents. -/
structure Dialect where
  /-- Whether a list that stands for a record may have more elements than the record has fields. -/
  allowsSpare : Bool
  /-- Whether a document is the content of a name that has none, as in a table with one entry that
  stands for the name alone. -/
  isUnit : Document → Bool

namespace Document

/-- The value of a string. -/
def text? : Document → Option String
  | .text value => value
  | _ => none

/-- A number from zero up to a largest. -/
def natural? (largest : Nat) : Document → Option Nat
  | .integer (.ofNat n) => if n ≤ largest then some n else none
  | _ => none

/-- A number of 32 bits. -/
def word32? (d : Document) : Option UInt32 := (d.natural? (UInt32.size - 1)).map UInt32.ofNat

/-- A number of 64 bits. -/
def word64? (d : Document) : Option UInt64 := (d.natural? (UInt64.size - 1)).map UInt64.ofNat

/-- A field that may be absent. -/
def optional? {α : Type} (read : Document → Option α) : Option Document → Option (Option α)
  | none | some .null => some none
  | some d => (read d).map some

/-- A field that must be present. -/
def required? {α : Type} (read : Document → Option α) (field : Option Document) : Option α :=
  field.bind read

/-- The entries of a table, all of whose names must have a value. -/
def named? (entries : List (Option String × Document)) : Option (List (String × Document)) :=
  entries.mapM fun (name, d) => name.map (·, d)

/-- The field with a name, unless the name occurs twice. -/
def field? (entries : List (String × Document)) (name : String) : Option (Option Document) :=
  match entries.filter (·.1 == name) with
  | [] => some none
  | [entry] => some (some entry.2)
  | _ => none

/-- The fields of a record, given their names in the order of declaration. -/
def fields? (dialect : Dialect) (names : List String) : Document → Option (List (Option Document))
  | .table entries => do
    let entries ← named? entries
    guard (entries.all fun (name, d) => names.contains name || d.isReadable)
    names.mapM (field? entries)
  | .list items =>
    if items.length = names.length ∨ (names.length < items.length ∧ dialect.allowsSpare) then
      some ((items.take names.length).map some)
    else none
  | .moment => some (names.map fun _ => none)
  | _ => none

/-- A name from a closed set. It may be written as a table whose one entry has no content. -/
def enumerated? {α : Type} (dialect : Dialect) (ofName? : String → Option α) : Document → Option α
  | .text value => value.bind ofName?
  | .table [(name, content)] => if dialect.isUnit content then name.bind ofName? else none
  | _ => none

/-- A list of equal things. -/
def listOf? {α : Type} (read : Document → Option α) : Document → Option (List α)
  | .list items => items.mapM read
  | _ => none

/-- A table from any names to equal things. Of two entries with one name the last one counts. -/
def mapOf? {α : Type} (read : Document → Option α) : Document → Option (List (String × α))
  | .table entries => do
    let entries ← (← named? entries).mapM fun (name, d) => (read d).map (name, ·)
    some (entries.foldl (fun map entry => map.filter (·.1 != entry.1) ++ [entry]) [])
  | _ => none

end Document

open Document

namespace ComplexitySettings

/-- The settings of the complexity rule that a document describes. -/
def ofDocument? (dialect : Dialect) (d : Document) : Option ComplexitySettings := do
  let [max] ← d.fields? dialect ["max"] | none
  some ⟨← optional? word32? max⟩

end ComplexitySettings

namespace RuleSettings

/-- The settings of the rules that a document describes. -/
def ofDocument? (dialect : Dialect) (d : Document) : Option RuleSettings := do
  let [levels, complexity] ← d.fields? dialect ["levels", "complexity"] | none
  some {
    levels := ← optional? (mapOf? (enumerated? dialect Level.ofName?)) levels
    complexity := ← optional? (ComplexitySettings.ofDocument? dialect) complexity }

end RuleSettings

namespace SignatureSettings

/-- The names of the fields of a signature. -/
def fieldNames : List String :=
  ["name", "receiver", "patternArgument", "flagsArgument", "minArguments", "maxArguments"]

/-- The signature that a document describes. -/
def ofDocument? (dialect : Dialect) (d : Document) : Option SignatureSettings := do
  let [name, receiver, pattern, flags, least, most] ← d.fields? dialect fieldNames | none
  some {
    name := ← required? text? name
    receiver := ← optional? text? receiver
    patternArgument := ← optional? word64? pattern
    flagsArgument := ← optional? word64? flags
    minArguments := ← optional? word64? least
    maxArguments := ← optional? word64? most }

end SignatureSettings

namespace CacheSettings

/-- The settings of the cache that a document describes. -/
def ofDocument? (dialect : Dialect) (d : Document) : Option CacheSettings := do
  let [keying] ← d.fields? dialect ["keying"] | none
  some ⟨← optional? (enumerated? dialect Keying.ofName?) keying⟩

end CacheSettings

namespace Settings

/-- The names of the parts of a configuration. -/
def fieldNames : List String := ["$schema", "rules", "signatures", "cache", "threads"]

/-- The settings that a document describes. -/
def ofDocument? (dialect : Dialect) (d : Document) : Option Settings := do
  let [schema, rules, signatures, cache, threads] ← d.fields? dialect fieldNames | none
  some {
    schema := ← optional? text? schema
    rules := ← optional? (RuleSettings.ofDocument? dialect) rules
    signatures := ← optional? (listOf? (SignatureSettings.ofDocument? dialect)) signatures
    cache := ← optional? (CacheSettings.ofDocument? dialect) cache
    threads := ← optional? word64? threads }

end Settings

end RegexAudit
