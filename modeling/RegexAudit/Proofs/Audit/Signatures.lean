import Mathlib.Algebra.Group.Nat.Defs
import RegexAudit.Signature

/-!
# The pattern of a call with a signature

A signature is accepted only if a call of its shape has enough arguments for the pattern, or is made
on something. So a call with an accepted signature has a pattern.

The number of arguments up to one of them is one more than its number. This sum does not fit a word
for the greatest argument number: a signature with that number is neither accepted nor refused, but
ends the program.

## Main definitions

* `lastIndex`: the greatest argument number.
* `SignatureSettings.indices`, `SignatureSettings.sums`: the argument numbers of a configured
  signature, and what is formed from them when it is checked.
* `Signature.Grounded`: a call of the shape of a signature has the pattern.

## Main statements

* `Signature.Grounded.isSome_patternOf?`: a call of the shape of such a signature.
* `Signature.grounded_of_ofSettings`, `Registry.isSome_patternOf?_of_find?`: accepted signatures and
  those in force are of this kind.
* `Signature.ofSettings_eq_overflow_iff`: which signatures end the program.
* `Signature.isSome_patternOf?_of_accepted`: what is known of calls and sums.
-/

namespace RegexAudit

open Script

/-- The greatest argument number. The word after it is zero. -/
def lastIndex : UInt64 := 18446744073709551615

theorem toNat_lastIndex : lastIndex.toNat = 2 ^ 64 - 1 := rfl

theorem toNat_le_lastIndex (n : UInt64) : n.toNat ≤ lastIndex.toNat := by
  have hlt := n.toNat_lt
  rw [toNat_lastIndex]
  omega

theorem toNat_lt_lastIndex {index : UInt64} (h : index ≠ lastIndex) :
    index.toNat < lastIndex.toNat :=
  Nat.lt_of_le_of_ne (toNat_le_lastIndex index) fun heq => h (UInt64.toNat_inj.1 heq)

namespace SignatureSettings

/-- The argument numbers that one is added to when a signature is checked. -/
def indices (entry : SignatureSettings) : List UInt64 :=
  entry.patternArgument.toList ++ entry.flagsArgument.toList

/-- What is formed from the argument numbers of a signature, counted without bound. -/
def sums (entry : SignatureSettings) : List Nat := entry.indices.map fun index => index.toNat + 1

theorem sums_le_iff {entry : SignatureSettings} :
    (∀ n ∈ entry.sums, n ≤ 2 ^ 64 - 1) ↔ lastIndex ∉ entry.indices := by
  rw [sums, List.forall_mem_map, ← toNat_lastIndex]
  constructor
  · intro h hmem
    exact Nat.not_succ_le_self _ (h lastIndex hmem)
  · intro h index hindex
    have hne : index ≠ lastIndex := by
      rintro rfl
      exact h hindex
    exact toNat_lt_lastIndex hne

end SignatureSettings

namespace Signature

/-- The number of arguments up to the one with a given number, where it fits a word. -/
theorem upTo?_eq_some_iff {index count : UInt64} :
    upTo? index = some count ↔ count.toNat = index.toNat + 1 := by
  have hindex := index.toNat_lt
  have hcount := count.toNat_lt
  rw [upTo?]
  by_cases hwraps : index + 1 < index
  · rw [if_pos hwraps]
    rw [UInt64.lt_iff_toNat_lt, UInt64.toNat_add, UInt64.toNat_one] at hwraps
    simp only [reduceCtorEq, false_iff]
    omega
  · rw [if_neg hwraps, Option.some.injEq, ← UInt64.toNat_inj, UInt64.toNat_add, UInt64.toNat_one]
    rw [UInt64.lt_iff_toNat_lt, UInt64.toNat_add, UInt64.toNat_one] at hwraps
    omega

/-- There is no word for it only where the number is the greatest. -/
theorem upTo?_eq_none_iff {index : UInt64} : upTo? index = none ↔ index = lastIndex := by
  constructor
  · intro hnone
    by_cases hlast : index = lastIndex
    · exact hlast
    · have hlt := toNat_lt_lastIndex hlast
      have hcount : (UInt64.ofNat (index.toNat + 1)).toNat = index.toNat + 1 :=
        UInt64.toNat_ofNat_of_lt' (Nat.lt_of_le_of_lt hlt lastIndex.toNat_lt)
      rw [upTo?_eq_some_iff.2 hcount] at hnone
      cases hnone
  · rintro rfl
    rfl

/-- Where a call has the shape of the signature, it is made on something if this is the pattern, and
otherwise has an argument for the pattern. -/
def Grounded (s : Signature) : Prop :=
  match s.pattern with
  | .receiver => s.receiver ≠ .none
  | .argument index => index.toNat < s.minArgs.toNat

theorem accepts_eq_true_iff {s : Signature} {call : Call} :
    s.accepts call = true ↔ call.name? = some s.name ∧ s.minArgs.toNat ≤ call.args.length ∧
      call.args.length ≤ s.maxArgs.toNat ∧ s.receiver.accepts call.receiver? = true := by
  simp only [accepts, Bool.and_eq_true, beq_iff_eq, decide_eq_true_eq, and_assoc]

end Signature

/-- A call has a receiver where one is asked for. -/
theorem Receiver.isSome_of_accepts {r : Receiver} {e : Option Expr} (hr : r ≠ .none)
    (h : r.accepts e = true) : e.isSome = true := by
  cases e with
  | some e => rfl
  | none => cases r <;> simp_all [accepts]

namespace Signature

variable {s : Signature} {call : Call} {entry : SignatureSettings}

/-- A call of the shape of such a signature has the pattern. -/
theorem Grounded.isSome_patternOf? (h : s.Grounded) (hcall : s.accepts call = true) :
    (s.patternOf? call).isSome = true := by
  obtain ⟨-, hleast, -, hreceiver⟩ := accepts_eq_true_iff.1 hcall
  rw [Grounded] at h
  rw [patternOf?]
  cases hpattern : s.pattern with
  | receiver =>
    rw [hpattern] at h
    exact Receiver.isSome_of_accepts h hreceiver
  | argument index =>
    rw [hpattern] at h
    have henough : index.toNat < call.args.length := Nat.lt_of_lt_of_le h hleast
    show (call.args[index.toNat]?).isSome = true
    rw [List.getElem?_eq_getElem henough, Option.isSome_some]

/-- What an accepted signature is made of. -/
theorem exists_place_of_ofSettings (h : ofSettings entry = .ok s) :
    patternPlace? (receiverOf entry.receiver) entry.patternArgument = some s.pattern ∧
      s.receiver = receiverOf entry.receiver ∧
      (∃ required, required? s.pattern = some required ∧ required ≤ s.minArgs) ∧
      (flagged? entry.flagsArgument).isSome = true := by
  rw [ofSettings] at h
  split at h
  · cases h
  · next pattern hpattern =>
    split at h
    · next required flagged hrequired hflagged =>
      dsimp only at h
      split at h
      · cases h
      · next hrange =>
        rw [not_or, UInt64.not_lt] at hrange
        rw [← Except.ok.inj h]
        refine ⟨hpattern, rfl, ⟨required, hrequired, hrange.1⟩, ?_⟩
        rw [hflagged, Option.isSome_some]
    · cases h

/-- A signature is accepted only if its calls have the pattern. -/
theorem grounded_of_ofSettings (h : ofSettings entry = .ok s) : s.Grounded := by
  obtain ⟨hplace, hreceiver, ⟨required, hrequired, hleast⟩, -⟩ := exists_place_of_ofSettings h
  rw [Grounded]
  cases hpattern : s.pattern with
  | receiver =>
    rw [hpattern] at hplace
    intro hnone
    rw [hreceiver] at hnone
    rw [hnone] at hplace
    cases hargument : entry.patternArgument with
    | none =>
      rw [hargument] at hplace
      cases hplace
    | some index =>
      rw [hargument] at hplace
      cases hplace
  | argument index =>
    rw [hpattern] at hrequired
    -- The number of arguments that is asked for has been counted without a carry.
    have hcount : required.toNat = index.toNat + 1 := upTo?_eq_some_iff.1 hrequired
    rw [UInt64.le_iff_toNat_le, hcount] at hleast
    exact hleast

/-- One of the sums does not fit a word, if the greatest number is the pattern's or the flags'. -/
theorem lastIndex_mem_indices_iff {receiver : Receiver} {pattern : PatternPlace}
    (hplace : patternPlace? receiver entry.patternArgument = some pattern) :
    lastIndex ∈ entry.indices ↔
      required? pattern = none ∨ flagged? entry.flagsArgument = none := by
  have hpattern : entry.patternArgument = some lastIndex ↔ required? pattern = none := by
    cases hargument : entry.patternArgument with
    | none =>
      rw [hargument, patternPlace?] at hplace
      split at hplace
      · cases hplace
        simp only [reduceCtorEq, required?]
      · cases hplace
    | some index =>
      rw [hargument] at hplace
      cases hplace
      rw [Option.some.injEq]
      exact upTo?_eq_none_iff.symm
  have hflags : entry.flagsArgument = some lastIndex ↔ flagged? entry.flagsArgument = none := by
    cases entry.flagsArgument with
    | none => simp only [reduceCtorEq, flagged?]
    | some index =>
      rw [Option.some.injEq]
      exact upTo?_eq_none_iff.symm
  rw [SignatureSettings.indices, List.mem_append, Option.mem_toList, Option.mem_toList, hpattern,
    hflags]

/-- The program ends over a signature that tells the place of its pattern, if one of the sums that
are formed for it does not fit a word. -/
theorem ofSettings_eq_overflow_iff : ofSettings entry = .error .overflow ↔
    lastIndex ∈ entry.indices ∧
      (patternPlace? (receiverOf entry.receiver) entry.patternArgument).isSome = true := by
  rw [ofSettings]
  cases hplace : patternPlace? (receiverOf entry.receiver) entry.patternArgument with
  | none => simp only [reduceCtorEq, Except.error.injEq, Option.isSome_none, Bool.false_eq_true,
      and_false]
  | some pattern =>
    rw [lastIndex_mem_indices_iff hplace, Option.isSome_some, and_iff_left rfl]
    cases hrequired : required? pattern with
    | none => simp only [hrequired, true_or]
    | some required =>
      cases hflagged : flagged? entry.flagsArgument with
      | none => simp only [hrequired, or_true]
      | some flagged =>
        simp only [hrequired, reduceCtorEq, or_self, iff_false]
        split
        · nofun
        · nofun

/-- No sum wraps for a signature that is accepted. -/
theorem lastIndex_not_mem_of_ofSettings (h : ofSettings entry = .ok s) :
    lastIndex ∉ entry.indices := by
  obtain ⟨hplace, -, -, -⟩ := exists_place_of_ofSettings h
  intro hmem
  have hstops : ofSettings entry = .error .overflow :=
    ofSettings_eq_overflow_iff.2 ⟨hmem, by rw [hplace, Option.isSome_some]⟩
  rw [hstops] at h
  cases h

end Signature

/-- Every result of a list of actions is that of one of them. -/
theorem exists_mem_of_mapM {α β ε : Type} {f : α → Except ε β} {l : List α} {results : List β}
    (h : l.mapM f = .ok results) {b : β} (hb : b ∈ results) : ∃ a ∈ l, f a = .ok b := by
  induction l generalizing results with
  | nil =>
    obtain rfl : [] = results := Except.ok.inj h
    simp at hb
  | cons a l ih =>
    rw [List.mapM_cons] at h
    cases hfirst : f a with
    | error e =>
      rw [hfirst] at h
      cases h
    | ok first =>
      cases hmore : l.mapM f with
      | error e =>
        rw [hfirst, hmore] at h
        cases h
      | ok more =>
        rw [hfirst, hmore] at h
        obtain rfl : first :: more = results := Except.ok.inj h
        rcases List.mem_cons.1 hb with rfl | hb
        · exact ⟨a, List.mem_cons_self, hfirst⟩
        · obtain ⟨a', ha', hfa'⟩ := ih hmore hb
          exact ⟨a', List.mem_cons_of_mem a ha', hfa'⟩

namespace Registry

variable {settings : Settings} {registry : Registry} {s : Signature} {call : Call}

/-- The calls with a built-in signature have the pattern. -/
theorem builtin_grounded : ∀ s ∈ builtin.signatures, s.Grounded := by
  simp [builtin, Signature.Grounded]

/-- The signatures in force are built in or were configured and accepted. -/
theorem mem_of_ofSettings (h : ofSettings settings = .ok registry)
    (hs : s ∈ registry.signatures) :
    s ∈ builtin.signatures ∨
      ∃ entry ∈ settings.extraSignatures, Signature.ofSettings entry = .ok s := by
  rw [ofSettings] at h
  split at h
  · next signatures hsignatures =>
    obtain rfl := Except.ok.inj h
    rcases List.mem_append.1 hs with hs | hs
    · exact .inl hs
    · exact .inr (exists_mem_of_mapM hsignatures hs)
  · simp at h

/-- All signatures in force are such that their calls have the pattern. -/
theorem grounded_of_mem (h : ofSettings settings = .ok registry) (hs : s ∈ registry.signatures) :
    s.Grounded := by
  rcases mem_of_ofSettings h hs with hbuiltin | ⟨entry, -, hentry⟩
  · exact builtin_grounded s hbuiltin
  · exact Signature.grounded_of_ofSettings hentry

theorem of_find? (h : registry.find? call = some s) :
    s ∈ registry.signatures ∧ s.accepts call = true := by
  have hfound : registry.signatures.find? (·.accepts call) = some s := h
  have haccepts := List.find?_some hfound
  exact ⟨List.mem_of_find?_eq_some hfound, haccepts⟩

/-- A call for which a signature in force is found has a pattern. -/
theorem isSome_patternOf?_of_find? (h : ofSettings settings = .ok registry)
    (hfind : registry.find? call = some s) : (s.patternOf? call).isSome = true := by
  obtain ⟨hmem, hcall⟩ := of_find? hfind
  exact (grounded_of_mem h hmem).isSome_patternOf? hcall

end Registry

namespace Signature

/-- A call of the shape of an accepted signature has a pattern, and the sums that are formed for
such a signature are words. For a signature of any kind they are words unless one of its argument
numbers is the greatest. Then the program ends, if the signature tells the place of its pattern. A
call for which a signature in force is found has a pattern. -/
theorem isSome_patternOf?_of_accepted (entry : SignatureSettings) (settings : Settings) :
    (∀ s call, ofSettings entry = .ok s → s.accepts call = true →
      (s.patternOf? call).isSome = true) ∧
    (∀ s, ofSettings entry = .ok s → ∀ n ∈ entry.sums, n ≤ 2 ^ 64 - 1) ∧
    ((∀ n ∈ entry.sums, n ≤ 2 ^ 64 - 1) ↔ lastIndex ∉ entry.indices) ∧
    (ofSettings entry = .error .overflow ↔ lastIndex ∈ entry.indices ∧
      (patternPlace? (receiverOf entry.receiver) entry.patternArgument).isSome = true) ∧
    (∀ registry call s, Registry.ofSettings settings = .ok registry →
      registry.find? call = some s → (s.patternOf? call).isSome = true) := by
  refine ⟨?_, ?_, SignatureSettings.sums_le_iff, ofSettings_eq_overflow_iff, ?_⟩
  · intro s call hentry hcall
    exact (grounded_of_ofSettings hentry).isSome_patternOf? hcall
  · intro s hentry
    exact SignatureSettings.sums_le_iff.2 (lastIndex_not_mem_of_ofSettings hentry)
  · intro registry call s hsettings hfind
    exact Registry.isSome_patternOf?_of_find? hsettings hfind

namespace Second

/-- The signature of `compileRegex` as it is configured, the pattern being its second argument. -/
def entry : SignatureSettings := ⟨"compileRegex", none, some 1, some 2, none, none⟩

/-- The signature that is accepted. -/
def signature : Signature := ⟨"compileRegex", .none, .argument 1, some 2, 2, 3⟩

/-- The call `compileRegex(ctx, "a")`. -/
def call : Call :=
  ⟨.name ⟨0, 12⟩ "compileRegex",
    [.name ⟨13, 16⟩ "ctx", .string ⟨18, 21⟩ ⟨false, [⟨.literal, ['a'], ⟨19, 20⟩⟩]⟩]⟩

/-- The configuration of this signature alone. -/
def settings : Settings := { Settings.empty with signatures := some [entry] }

theorem ofSettings_entry : ofSettings entry = .ok signature := rfl

theorem accepts_call : signature.accepts call = true := by decide

theorem ofSettings_settings :
    Registry.ofSettings settings = .ok ⟨Registry.builtin.signatures ++ [signature]⟩ := rfl

theorem find?_call :
    (⟨Registry.builtin.signatures ++ [signature]⟩ : Registry).find? call = some signature := by
  with_unfolding_all rfl

end Second

/-- The second argument of a call with two arguments is its pattern. -/
theorem isSome_patternOf?_of_accepted_second :
    ofSettings Second.entry = .ok Second.signature ∧
      Second.signature.accepts Second.call = true ∧
      (Second.signature.patternOf? Second.call).isSome = true ∧
      (∀ n ∈ Second.entry.sums, n ≤ 2 ^ 64 - 1) ∧
      ∃ registry, Registry.ofSettings Second.settings = .ok registry ∧
        registry.find? Second.call = some Second.signature ∧
        (Second.signature.patternOf? Second.call).isSome = true := by
  obtain ⟨haccepted, hsums, -, -, hregistry⟩ :=
    isSome_patternOf?_of_accepted Second.entry Second.settings
  refine ⟨Second.ofSettings_entry, Second.accepts_call, ?_, hsums _ Second.ofSettings_entry, _,
    Second.ofSettings_settings, Second.find?_call, ?_⟩
  · exact haccepted _ _ Second.ofSettings_entry Second.accepts_call
  · exact hregistry _ _ _ Second.ofSettings_settings Second.find?_call

/-- With the greatest argument number as the place of the pattern the program ends over a signature
that is refused with the number before it. -/
theorem last_index_overflows :
    let entry (index : UInt64) : SignatureSettings := ⟨"f", none, some index, none, some 0, some 0⟩
    ofSettings (entry (lastIndex - 1)) = .error (.badArgumentRange "f" 0 0) ∧
      ofSettings (entry lastIndex) = .error .overflow ∧ 2 ^ 64 ∈ (entry lastIndex).sums ∧
      Registry.ofSettings { Settings.empty with signatures := some [entry lastIndex] } =
        .error .overflow :=
  ⟨rfl, rfl, by decide, rfl⟩

end Signature

end RegexAudit
