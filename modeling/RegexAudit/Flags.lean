import RegexAudit.Script.Scope

/-!
# Regex flags

A set of flags is a word of bits. In a script it is written with named
constants, joined by `or` or collected in a call such as `setOf`, or as a plain
integer.

## Main definitions

* `Flags`: the word of bits, with union and inclusion.
* `Flags.ofName?`: the flag with a name.
* `Flags.resolve`: the flags that an expression stands for.

## Design notes

Unknown names and unsuitable integers contribute nothing. Operands nested
deeper than `Flags.maxDepth` are dropped, so names that refer to themselves do
no harm.
-/

namespace RegexAudit

/-- A set of flags as a word of bits. -/
structure Flags where
  bits : UInt32
deriving DecidableEq, Repr, Inhabited

namespace Flags

open Script

/-- No flags. -/
def none : Flags := ⟨0⟩

/-- The flags of either set. -/
def union (a b : Flags) : Flags := ⟨a.bits ||| b.bits⟩

instance : OrOp Flags := ⟨union⟩

/-- Whether all flags of `b` are among those of `a`. -/
def contains (a b : Flags) : Bool := a.bits &&& b.bits == b.bits

def unixLines : Flags := ⟨0x01⟩
def caseInsensitive : Flags := ⟨0x02⟩
def comments : Flags := ⟨0x04⟩
def multiline : Flags := ⟨0x08⟩
def literal : Flags := ⟨0x10⟩
def dotAll : Flags := ⟨0x20⟩
def unicodeCase : Flags := ⟨0x40⟩
def canonicalEquivalence : Flags := ⟨0x80⟩
def unicodeCharacterClass : Flags := ⟨0x100⟩

/-- The names of the flag constants. Two flags have two names. -/
def names : List (String × Flags) := [
  ("UNIX_LINES", unixLines),
  ("CASE_INSENSITIVE", caseInsensitive),
  ("IGNORE_CASE", caseInsensitive),
  ("COMMENTS", comments),
  ("MULTILINE", multiline),
  ("LITERAL", literal),
  ("DOTALL", dotAll),
  ("DOT_MATCHES_ALL", dotAll),
  ("UNICODE_CASE", unicodeCase),
  ("CANON_EQ", canonicalEquivalence),
  ("UNICODE_CHARACTER_CLASS", unicodeCharacterClass)]

/-- The flag with a name. -/
def ofName? (name : String) : Option Flags := names.lookup name

/-- The flags with the bits of an integer. An integer that is no word of bits stands for none. -/
def ofNat (n : Nat) : Flags := if n < UInt32.size then ⟨UInt32.ofNat n⟩ else none

/-- The hexadecimal form of the bits. -/
def hex (flags : Flags) : String :=
  "0x" ++ String.ofList (Nat.toDigits 16 flags.bits.toNat)

/-- The functions whose arguments are collected into one set. -/
def collections : List String := ["setOf", "listOf", "arrayOf", "of"]

/-- The greatest depth at which an operand still counts. -/
def maxDepth : Nat := 32

/-- The operands of a call: the receiver and the argument of a method `or`, or what a collection
holds. Any other call has none. -/
def callOperands (call : Call) : List Expr :=
  if call.name? = some "or" then
    match call.receiver?, call.args with
    | some receiver, [arg] => [receiver, arg]
    | _, _ => []
  else if call.name?.any collections.contains then call.args
  else []

/-- The operands of an expression that stands for the union of its operands. -/
def operands? : Expr → Option (List Expr)
  | .binary _ .or lhs rhs => some [lhs, rhs]
  | .call _ callee args => some (callOperands ⟨callee, args⟩)
  | _ => Option.none

/-- The flags that an expression without operands stands for. -/
def ofLeaf : Expr → Flags
  | .integer _ value => ofNat value
  | e => (e.referencedName?.bind ofName?).getD none

/-- The flags that an expression stands for, with so many levels of operands still counted. -/
def resolveWithin (scope : Scope) : Nat → Expr → Flags
  | 0, _ => none
  | levels + 1, e =>
    let value := scope.predict e
    match operands? value with
    | some operands => (operands.map (resolveWithin scope levels)).foldl (· ||| ·) none
    | Option.none => ofLeaf value

/-- The flags that an expression stands for. No expression means no flags. -/
def resolve (scope : Scope) : Option Expr → Flags
  | some e => resolveWithin scope (maxDepth + 1) e
  | Option.none => none

end Flags

end RegexAudit
