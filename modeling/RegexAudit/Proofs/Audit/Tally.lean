import Mathlib.Data.Finset.Card
import RegexAudit.Proofs.Audit.Cache

/-!
# Counting look-ups

What a cache counts is determined by the keys of its look-ups: there is one miss for each distinct
key, and every further look-up is a hit.

## Main definitions

* `Cache.Tallies`: a cache has been asked for some keys, in order.
* `Auditor.key?`: the key under which a call is looked up, if it is analysed.
* `CacheStats.ofKeys`: the count of some look-ups.

## Main statements

* `Cache.Tallies.fetch`: one look-up.
* `Auditor.auditAll_tallies`: the look-ups for some calls.
* `Auditor.auditAll_stats`: the count of a run is that of the keys of its calls.
* `Engine.analyze_of_script`: the report on a source, without a cache.
-/

namespace RegexAudit

open Script

/-- The cache has been asked for the keys. It holds a result for each of them, and has missed each
of them once. -/
structure Cache.Tallies {α : Type} (cache : Cache α) (keys : List CacheKey) : Prop where
  found : ∀ key, (cache.find? key).isSome = true ↔ key ∈ keys
  misses : cache.stats.misses = keys.toFinset.card
  total : cache.stats.hits + cache.stats.misses = keys.length

namespace Cache

variable {α : Type} {cache : Cache α} {keys : List CacheKey} {key : CacheKey}

@[simp]
theorem find?_hit (cache : Cache α) (key : CacheKey) : cache.hit.find? key = cache.find? key := rfl

@[simp]
theorem find?_miss_self (cache : Cache α) (key : CacheKey) (result : α) :
    (cache.miss key result).find? key = some result :=
  List.lookup_cons_self

/-- A new result leaves what is found under other keys. -/
theorem find?_miss_of_ne {other : CacheKey} (h : other ≠ key) (cache : Cache α) (result : α) :
    (cache.miss key result).find? other = cache.find? other := by
  show List.lookup other ((key, result) :: cache.entries) = List.lookup other cache.entries
  rw [List.lookup_cons, beq_false_of_ne h]

theorem tallies_empty (keying : Keying) : (Cache.empty keying : Cache α).Tallies [] :=
  ⟨fun key => by simp [find?, empty], rfl, rfl⟩

theorem Tallies.mem_of_find? (h : cache.Tallies keys) {result : α}
    (hfound : cache.find? key = some result) : key ∈ keys := by
  rw [← h.found, hfound]
  rfl

theorem Tallies.not_mem_of_find? (h : cache.Tallies keys) (hmissing : cache.find? key = none) :
    key ∉ keys := by
  rw [← h.found, hmissing]
  exact Bool.false_ne_true

/-- A look-up under a key that has been seen is a hit. -/
theorem Tallies.hit (h : cache.Tallies keys) (hkey : key ∈ keys) :
    cache.hit.Tallies (keys ++ [key]) := by
  refine ⟨?_, ?_, ?_⟩
  · intro other
    rw [find?_hit, h.found, List.mem_append, List.mem_singleton]
    constructor
    · exact .inl
    · rintro (hmem | rfl)
      · exact hmem
      · exact hkey
  · show cache.stats.misses = (keys ++ [key]).toFinset.card
    have hsame : (keys ++ [key]).toFinset = keys.toFinset := by
      ext other
      simp only [List.mem_toFinset, List.mem_append, List.mem_singleton]
      constructor
      · rintro (hmem | rfl)
        · exact hmem
        · exact hkey
      · exact .inl
    rw [hsame, h.misses]
  · show cache.stats.hits + 1 + cache.stats.misses = (keys ++ [key]).length
    have := h.total
    simp only [List.length_append, List.length_singleton]
    omega

/-- A look-up under a new key is a miss. -/
theorem Tallies.miss (h : cache.Tallies keys) (hkey : key ∉ keys) (result : α) :
    (cache.miss key result).Tallies (keys ++ [key]) := by
  refine ⟨?_, ?_, ?_⟩
  · intro other
    rw [List.mem_append, List.mem_singleton, ← h.found]
    by_cases hother : other = key
    · simp [hother]
    · simp [hother, find?_miss_of_ne hother]
  · show cache.stats.misses + 1 = (keys ++ [key]).toFinset.card
    have hnew : (keys ++ [key]).toFinset = insert key keys.toFinset := by
      ext other
      simp
    rw [hnew, Finset.card_insert_of_notMem (by simpa using hkey), h.misses]
  · show cache.stats.hits + (cache.stats.misses + 1) = (keys ++ [key]).length
    have := h.total
    simp only [List.length_append, List.length_singleton]
    omega

/-- One look-up adds the key of what is asked for, and does not change what makes two keys the
same. -/
theorem Tallies.fetch (h : cache.Tallies keys) (parse : List Fragment → Flags → Id α)
    (fragments : List Fragment) (flags : Flags) :
    (Id.run (cache.fetch parse fragments flags)).2.keying = cache.keying ∧
      (Id.run (cache.fetch parse fragments flags)).2.Tallies
        (keys ++ [.of cache.keying fragments flags]) := by
  unfold Cache.fetch
  dsimp only
  split
  · next result hfound => exact ⟨rfl, h.hit (h.mem_of_find? hfound)⟩
  · next hmissing => exact ⟨rfl, h.miss (h.not_mem_of_find? hmissing) _⟩

end Cache

/-- The count of look-ups under some keys: one miss for each distinct key, and hits otherwise. -/
def CacheStats.ofKeys (keys : List CacheKey) : CacheStats :=
  ⟨keys.length - keys.toFinset.card, keys.toFinset.card⟩

theorem Cache.Tallies.stats {α : Type} {cache : Cache α} {keys : List CacheKey}
    (h : cache.Tallies keys) : cache.stats = .ofKeys keys := by
  have htotal := h.total
  have hmisses := h.misses
  obtain ⟨keying, entries, hits, misses⟩ := cache
  simp only [CacheStats.ofKeys, CacheStats.mk.injEq] at htotal hmisses ⊢
  omega

/-- Renaming the keys one to one does not change the count. -/
theorem CacheStats.ofKeys_map {rename : CacheKey → CacheKey} (h : Function.Injective rename)
    (keys : List CacheKey) : ofKeys (keys.map rename) = ofKeys keys := by
  have himage : (keys.map rename).toFinset = keys.toFinset.image rename := by
    ext key
    simp
  rw [ofKeys, ofKeys, himage, Finset.card_image_of_injective _ h, List.length_map]

namespace Auditor

variable (auditor : Auditor) {cache : Cache ParsedRegex} {keys : List CacheKey}

/-- The key under which the regex of a call is looked up, if the call can be analysed. -/
def key? (auditor : Auditor) (keying : Keying) (call : Call) : Option CacheKey :=
  (auditor.site? call).map fun site => .of keying site.fragments site.flags

theorem audit_tallies (h : cache.Tallies keys) (call : Call) :
    (auditor.audit cache call).2.keying = cache.keying ∧
      (auditor.audit cache call).2.Tallies (keys ++ (auditor.key? cache.keying call).toList) := by
  cases hsite : auditor.site? call with
  | none =>
    rw [audit, key?, hsite]
    refine ⟨rfl, ?_⟩
    simpa using h
  | some site =>
    rw [audit, key?, hsite]
    exact h.fetch (fun fs flags => pure (.ofFragments fs flags)) site.fragments site.flags

/-- The calls of a run are looked up under their keys, in order. -/
theorem auditAll_tallies (h : cache.Tallies keys) (calls : List Call) :
    (auditor.auditAll cache calls).2.Tallies
      (keys ++ calls.filterMap (auditor.key? cache.keying)) := by
  induction calls generalizing cache keys with
  | nil => simpa [auditAll] using h
  | cons call calls ih =>
    obtain ⟨hkeying, hfirst⟩ := auditor.audit_tallies h call
    have hmore := ih hfirst
    rw [hkeying, List.append_assoc] at hmore
    have hkeys : (call :: calls).filterMap (auditor.key? cache.keying) =
        (auditor.key? cache.keying call).toList ++
          calls.filterMap (auditor.key? cache.keying) := by
      rw [List.filterMap_cons]
      cases auditor.key? cache.keying call <;> rfl
    rw [hkeys]
    exact hmore

/-- The count of a run is that of the keys of its calls. -/
theorem auditAll_stats (auditor : Auditor) (keying : Keying) (calls : List Call) :
    (auditor.auditAll (.empty keying) calls).2.stats =
      .ofKeys (calls.filterMap (auditor.key? keying)) := by
  have h := auditor.auditAll_tallies (Cache.tallies_empty keying) calls
  rw [List.nil_append] at h
  exact h.stats

end Auditor

/-- The report on a source that is a script: the diagnostics for its calls without a cache, and the
count of the keys of its calls. -/
theorem Engine.analyze_of_script (engine : Engine) (path : String) {source : List Char}
    {script : Script} (hscript : Script.ofSource source = .ok script) :
    let auditor := Auditor.ofScript path source script engine.registry engine.checks
    engine.analyze path source = .ok ⟨path, script.calls.flatMap auditor.auditFresh,
      .ofKeys (script.calls.filterMap (auditor.key? engine.keying))⟩ := by
  intro auditor
  have hstands : ∀ call ∈ script.calls, ∀ site, auditor.site? call = some site →
      ∀ f ∈ site.fragments, f.StandsIn source :=
    fun call hcall site hsite => Auditor.standsIn_of_site? hscript hcall hsite
  obtain ⟨hfresh, -, -⟩ :=
    Auditor.auditAll_coherent (Cache.coherent_empty source engine.keying) hstands
  rw [analyze, hscript, ← hfresh, ← auditor.auditAll_stats engine.keying script.calls]

end RegexAudit
