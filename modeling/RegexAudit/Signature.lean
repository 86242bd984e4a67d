import RegexAudit.Error
import RegexAudit.Script.Expr
import RegexAudit.Settings.Basic
import RegexAudit.Text.Unicode

/-!
# Calls that take a regex

A signature describes a call one of whose parts is a regular expression.

## Main definitions

* `Receiver`, `PatternPlace`, `Signature`: the shape of such a call.
* `Signature.accepts`: whether a call has the shape.
* `Signature.patternOf?`, `Signature.flagsOf?`: the parts of a call that matter.
* `Signature.ofSettings`: a configured signature, checked.
* `Registry`: the signatures in force, of which the first that fits is taken.

## Design notes

Argument numbers are 64-bit words, as they are in a configuration. A sum that
does not fit a word ends the program (`Error.overflow`). The number of
arguments of a call is a plain number.
-/

namespace RegexAudit

open Script

/-- What a call is made on. -/
inductive Receiver where
  /-- Nothing, as in `Regex(...)`. -/
  | none
  /-- A type, as in `Pattern.compile(...)`. Only the last name of a path counts. -/
  | type (name : String)
  /-- A string value, as in `"a+".toRegex()`. -/
  | string
deriving DecidableEq, Repr

/-- Where the pattern of a call stands. -/
inductive PatternPlace where
  | receiver
  | argument (index : UInt64)
deriving DecidableEq, Repr

/-- The shape of a call that takes a regex. -/
structure Signature where
  name : String
  receiver : Receiver
  pattern : PatternPlace
  /-- The argument that holds the flags, if the call takes any. -/
  flags : Option UInt64
  minArgs : UInt64
  maxArgs : UInt64
deriving DecidableEq, Repr

/-- The last name of a name or a member chain. -/
def Script.Expr.lastName? (e : Expr) : Option String := e.path?.bind (·.getLast?)

/-- Whether an expression refers to a type: a path whose last name is capitalised. -/
def Script.Expr.isTypeReference (e : Expr) : Bool :=
  (e.lastName?.bind (·.toList.head?)).any Text.isUppercase

/-- Whether a call is made on what a signature asks for. -/
def Receiver.accepts : Receiver → Option Expr → Bool
  | none, Option.none => true
  | type name, some e => e.lastName? == some name
  | string, some e => !e.isTypeReference
  | _, _ => false

namespace Signature

/-- Whether a call has the shape of a signature. -/
def accepts (s : Signature) (call : Call) : Bool :=
  call.name? == some s.name &&
    (decide (s.minArgs.toNat ≤ call.args.length) && decide (call.args.length ≤ s.maxArgs.toNat)) &&
    s.receiver.accepts call.receiver?

/-- The pattern of a call. -/
def patternOf? (s : Signature) (call : Call) : Option Expr :=
  match s.pattern with
  | .receiver => call.receiver?
  | .argument index => call.args[index.toNat]?

/-- The flags of a call, where they are passed. -/
def flagsOf? (s : Signature) (call : Call) : Option Expr :=
  s.flags.bind fun index => call.args[index.toNat]?

end Signature

/-- The reasons for which a configured signature is not accepted. -/
inductive SignatureFault where
  /-- The signature tells neither an argument nor a string value as the place of its pattern. -/
  | withoutPattern (name : String)
  | badArgumentRange (name : String) (least most : UInt64)
  /-- The number of arguments that a call needs does not fit a word. -/
  | overflow
deriving DecidableEq, Repr

/-- The error for a reason. -/
def SignatureFault.error : SignatureFault → Error
  | withoutPattern name =>
    .config ("Signature '" ++ name ++ "' needs patternArgument unless its receiver is \"string\"")
  | badArgumentRange name least most =>
    .config ("Signature '" ++ name ++ "' has an invalid argument range " ++
      toString least.toNat ++ "..=" ++ toString most.toNat)
  | overflow => .overflow

namespace Signature

/-- What a configured receiver means. -/
def receiverOf : Option String → Receiver
  | Option.none => .none
  | some name => if name = "string" then .string else .type name

/-- The place of the pattern that is configured for a receiver. -/
def patternPlace? (receiver : Receiver) : Option UInt64 → Option PatternPlace
  | some index => some (.argument index)
  | Option.none => if receiver = .string then some .receiver else Option.none

/-- The number of arguments up to the one with a given number, if it fits a word. -/
def upTo? (index : UInt64) : Option UInt64 :=
  if index + 1 < index then Option.none else some (index + 1)

/-- The number of arguments that a call needs for its pattern. -/
def required? : PatternPlace → Option UInt64
  | .argument index => upTo? index
  | .receiver => some 0

/-- The number of arguments up to the one that holds the flags. -/
def flagged? : Option UInt64 → Option UInt64
  | some index => upTo? index
  | Option.none => some 0

/-- A configured signature. A call must have enough arguments for its pattern. -/
def ofSettings (s : SignatureSettings) : Except SignatureFault Signature :=
  let receiver := receiverOf s.receiver
  match patternPlace? receiver s.patternArgument with
  | Option.none => .error (.withoutPattern s.name)
  | some pattern =>
    match required? pattern, flagged? s.flagsArgument with
    | some required, some flagged =>
      let least := s.minArguments.getD required
      let most := s.maxArguments.getD (max required flagged)
      if least < required ∨ most < least then .error (.badArgumentRange s.name least most)
      else .ok ⟨s.name, receiver, pattern, s.flagsArgument, least, most⟩
    | _, _ => .error .overflow

end Signature

/-- The signatures in force, in the order in which they are tried. -/
structure Registry where
  signatures : List Signature
deriving DecidableEq, Repr

namespace Registry

/-- The calls of the standard libraries that take a regex. -/
def builtin : Registry where
  signatures := [
    ⟨"Regex", .none, .argument 0, some 1, 1, 2⟩,
    ⟨"compile", .type "Pattern", .argument 0, some 1, 1, 2⟩,
    ⟨"matches", .type "Pattern", .argument 0, none, 2, 2⟩,
    ⟨"toRegex", .string, .receiver, some 0, 0, 1⟩,
    ⟨"toPattern", .string, .receiver, some 0, 0, 1⟩,
    ⟨"matches", .string, .argument 0, none, 1, 1⟩,
    ⟨"replaceAll", .string, .argument 0, none, 2, 2⟩,
    ⟨"replaceFirst", .string, .argument 0, none, 2, 2⟩]

/-- The built-in signatures followed by the configured ones. -/
def ofSettings (settings : Settings) : Except Error Registry :=
  match settings.extraSignatures.mapM Signature.ofSettings with
  | .ok signatures => .ok ⟨builtin.signatures ++ signatures⟩
  | .error fault => .error fault.error

/-- The first signature that a call has. -/
def find? (registry : Registry) (call : Call) : Option Signature :=
  registry.signatures.find? (·.accepts call)

/-- The number of signatures. -/
def size (registry : Registry) : Nat := registry.signatures.length

end Registry

end RegexAudit
