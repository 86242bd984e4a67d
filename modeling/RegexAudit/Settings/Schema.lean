import RegexAudit.Settings.Document

/-!
# The schema of settings

Describes to other programs, as a document, what settings may hold.

## Main definitions

* `Schema.record`, `Schema.number`, `Schema.reference`: the pieces of a schema.
* `Schema.settings`: the schema.
-/

namespace RegexAudit

namespace Schema

/-- A string. -/
def string (s : String) : Document := .text (some s)

/-- A table with names that have values. -/
def table (entries : List (String × Document)) : Document :=
  .table (entries.map fun (name, d) => (some name, d))

/-- The description of something, where there is one. -/
def described : Option String → List (String × Document)
  | some text => [("description", string text)]
  | none => []

/-- A type that may also be null. -/
def optional (type : String) : String × Document := ("type", .list [string type, string "null"])

/-- A record with the given fields. -/
def record (description : Option String) (fields : List (String × Document)) : Document :=
  table (described description ++ [("type", string "object"), ("properties", table fields)])

/-- A string that may be absent. -/
def text (description : String) : Document :=
  table (described (some description) ++ [optional "string"])

/-- A number of a format from zero on, which may be absent. -/
def number (format : String) (description : Option String) : Document :=
  table (described description ++
    [optional "integer", ("format", string format), ("minimum", .integer 0)])

/-- The place at which something is defined. -/
def place (name : String) : Document := table [("$ref", string ("#/$defs/" ++ name))]

/-- Something that is defined elsewhere and may be absent. -/
def reference (name description : String) : Document :=
  table (described (some description) ++
    [("anyOf", .list [place name, table [("type", string "null")]])])

/-- One word of a choice. -/
def word (value description : String) : Document :=
  table [("const", string value), ("description", string description), ("type", string "string")]

/-- A choice. -/
def choice (description : String) (options : List Document) : Document :=
  table (described (some description) ++ [("oneOf", .list options)])

/-- What the settings of a signature may hold. -/
def signature : Document :=
  table [
    ("description", string
      "A call shape whose argument is a regex\n\n```toml\n[[signatures]]\nname = \"compileRegex\"\npatternArgument = 0\nflagsArgument = 1\n```"),
    ("type", string "object"),
    ("properties", table [
      ("name", table [
        ("description", string "Called function or method name"), ("type", string "string")]),
      ("receiver", text
        "Receiver qualifier (`Pattern`), or `string` for methods on a string\nvalue; absent for plain function calls"),
      ("patternArgument", number "uint" (some
        "Argument holding the pattern; absent when the receiver is the pattern")),
      ("flagsArgument", number "uint" (some "Argument holding the flags")),
      ("minArguments", number "uint" none),
      ("maxArguments", number "uint" none)]),
    ("required", .list [string "name"])]

/-- What the settings of the rules may hold. -/
def rules : Document :=
  record (some "Rules configuration") [
    ("levels", table [
      ("description", string "Severity per check id"), optional "object",
      ("additionalProperties", place "RuleSeverity")]),
    ("complexity", reference "ComplexityOptions" "Options for regex/complexity")]

/-- The levels that a rule may have. -/
def level : Document :=
  choice "Rule severity levels" [
    table [
      ("type", string "string"), ("enum", .list [string "info", string "warn", string "error"])],
    word "off" "Disable the rule"]

/-- What may make two regexes the same for the cache. -/
def keying : Document :=
  choice "What makes two regexes the same for caching" [
    word "identity" "Same fragment source ranges and flags",
    word "text" "Same reconstructed text and flags"]

/-- What settings may hold. -/
def settings : Document :=
  table [
    ("$schema", string "https://json-schema.org/draft/2020-12/schema"),
    ("title", string "RexrefConfig"),
    ("description", string "Root configuration"),
    ("type", string "object"),
    ("properties", table [
      ("$schema", text "JSON schema reference"),
      ("rules", reference "RulesConfiguration" "Check severities and options"),
      ("signatures", table [
        ("description", string "Additional call signatures that take a regex"), optional "array",
        ("items", place "SignatureConfiguration")]),
      ("cache", reference "CacheConfiguration" "Per-file regex cache settings"),
      ("threads", number "uint" (some "Number of worker threads"))]),
    ("$defs", table [
      ("RulesConfiguration", rules),
      ("RuleSeverity", level),
      ("ComplexityOptions", record none [
        ("max", number "uint32" (some "Highest score accepted without an issue"))]),
      ("SignatureConfiguration", signature),
      ("CacheConfiguration", record none [
        ("keying", reference "CacheKeying" "Cache key: `text` or `identity`")]),
      ("CacheKeying", keying)])]

end Schema

end RegexAudit
