/-!
# Escape letters

The escapes that a backslash and a single letter spell.

## Main definitions

* `Escape.ofLetter?`: the character that an escape letter stands for.
-/

namespace RegexAudit

namespace Escape

/-- The character that a backslash and a letter stand for. -/
def ofLetter? : Char → Option Char
  | '\\' => some '\\'
  | '"' => some '"'
  | '\x27' => some '\x27'
  | '$' => some '$'
  | 'n' => some '\n'
  | 't' => some '\t'
  | 'r' => some '\r'
  | 'b' => some '\x08'
  | _ => none

end Escape

end RegexAudit
