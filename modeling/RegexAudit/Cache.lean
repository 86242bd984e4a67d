import RegexAudit.Flags
import RegexAudit.Pattern.Fragment

/-!
# The cache of parsed regexes

Regexes that agree in their key are parsed once. The cache lives as long as the
analysis of one file.

## Main definitions

* `Keying`, `CacheKey`: what makes two regexes the same.
* `Cache`: the results so far, and the count of hits and misses.
* `Cache.fetch`: the result for a regex, parsed if need be.

## Design notes

`Cache.fetch` works in any monad, so that a parser may have effects: the
program uses none, and a theorem can count or log its invocations.
-/

namespace RegexAudit

/-- What makes two regexes the same. -/
inductive Keying where
  /-- The same fragment spans and flags. -/
  | identity
  /-- The same joined text and flags. -/
  | text
deriving DecidableEq, Repr

/-- The name of a keying. -/
def Keying.name : Keying → String
  | identity => "identity"
  | text => "text"

/-- The keying with a name. -/
def Keying.ofName? (name : String) : Option Keying :=
  [identity, text].find? fun k => k.name == name

instance : Inhabited Keying := ⟨.text⟩

/-- What a result is stored under. -/
inductive CacheKey where
  | identity (ranges : List Span) (flags : Flags)
  | text (joined : List Char) (flags : Flags)
deriving DecidableEq, Repr

/-- The key of some fragments with flags. -/
def CacheKey.of (keying : Keying) (fragments : List Fragment) (flags : Flags) : CacheKey :=
  match keying with
  | .identity => .identity (fragments.map (·.range)) flags
  | .text => .text (Fragment.join fragments) flags

/-- How often a result was found, and how often it was not. -/
structure CacheStats where
  hits : Nat
  misses : Nat
deriving DecidableEq, Repr

/-- The share of look-ups that found a result, in percent. -/
def CacheStats.hitRate (stats : CacheStats) : Float :=
  let total := stats.hits + stats.misses
  if total = 0 then 0
  else stats.hits.toFloat / total.toFloat * 100

/-- Results under their keys, the latest first. -/
structure Cache (α : Type) where
  keying : Keying
  entries : List (CacheKey × α)
  stats : CacheStats

namespace Cache

variable {α : Type}

/-- A cache without results. -/
def empty (keying : Keying) : Cache α := ⟨keying, [], ⟨0, 0⟩⟩

/-- The number of results. -/
def size (cache : Cache α) : Nat := cache.entries.length

/-- The result under a key. -/
def find? (cache : Cache α) (key : CacheKey) : Option α := cache.entries.lookup key

/-- The cache after a look-up that found a result. -/
def hit (cache : Cache α) : Cache α :=
  { cache with stats := { cache.stats with hits := cache.stats.hits + 1 } }

/-- The cache after a look-up that found nothing and led to a new result. -/
def miss (cache : Cache α) (key : CacheKey) (result : α) : Cache α :=
  { cache with
    entries := (key, result) :: cache.entries
    stats := { cache.stats with misses := cache.stats.misses + 1 } }

/-- The result for some fragments with flags: the one under their key, or else a new one. -/
def fetch {m : Type → Type} [Monad m] (parse : List Fragment → Flags → m α) (cache : Cache α)
    (fragments : List Fragment) (flags : Flags) : m (α × Cache α) :=
  let key := CacheKey.of cache.keying fragments flags
  match cache.find? key with
  | some result => pure (result, cache.hit)
  | none => do
    let result ← parse fragments flags
    pure (result, cache.miss key result)

end Cache

end RegexAudit
