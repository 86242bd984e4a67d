import RegexAudit.Proofs.Audit.Signatures
import RegexAudit.Proofs.Audit.Tally
import RegexAudit.Proofs.Script.Unfolding

/-!
# Calls that are passed over

A call without a signature, one whose pattern is not made of literals or holds nothing, and one
whose flags turn the pattern into plain text are passed over: they leave no trace in the diagnostics
and in the cache. Every other call asks the cache once.

## Main definitions

* `Auditor.Abandons`: the reasons for which a call is passed over.

## Main statements

* `Auditor.site?_eq_none_iff`: these are all the reasons.
* `Auditor.abandons_iff_of_ofSettings`: the reasons left where the signatures were accepted.
* `Auditor.audit_of_abandons`, `Auditor.audit_cache_cases`: one call.
* `Auditor.auditAll_frame`: one call after any others, and the count of look-ups.
-/

namespace RegexAudit

open Script

namespace Cache

variable {α : Type}

/-- A look-up finds a result or makes one, and counts as one. -/
theorem fetch_cases (cache : Cache α) (parse : List Fragment → Flags → Id α)
    (fragments : List Fragment) (flags : Flags) :
    (∃ result, cache.find? (.of cache.keying fragments flags) = some result ∧
      Id.run (cache.fetch parse fragments flags) = (result, cache.hit)) ∨
    (cache.find? (.of cache.keying fragments flags) = none ∧
      Id.run (cache.fetch parse fragments flags) =
        (Id.run (parse fragments flags), cache.miss (.of cache.keying fragments flags)
          (Id.run (parse fragments flags)))) := by
  cases hfind : cache.find? (.of cache.keying fragments flags) with
  | some result =>
    refine .inl ⟨result, rfl, ?_⟩
    rw [fetch, hfind]
    rfl
  | none =>
    refine .inr ⟨rfl, ?_⟩
    rw [fetch, hfind]
    rfl

end Cache

namespace Auditor

/-- The reasons for which a call is passed over. -/
inductive Abandons (auditor : Auditor) (call : Call) : Prop
  | unmatched (h : auditor.registry.find? call = none)
  | withoutPattern {signature : Signature}
      (hsignature : auditor.registry.find? call = some signature)
      (h : signature.patternOf? call = none)
  /-- The pattern expands to something else than literals without templates, or grows too large. -/
  | unexpandable {signature : Signature} {pattern : Expr}
      (hsignature : auditor.registry.find? call = some signature)
      (hpattern : signature.patternOf? call = some pattern)
      (h : ¬auditor.scope.Expandable pattern)
  /-- The pattern expands to literals that hold nothing. -/
  | hollow {signature : Signature} {pattern : Expr}
      (hsignature : auditor.registry.find? call = some signature)
      (hpattern : signature.patternOf? call = some pattern)
      (hexpandable : auditor.scope.Expandable pattern)
      (h : ∀ a range l, auditor.scope.LeafAt pattern a (.string range l) → l.entries = [])
  /-- The flags turn the pattern into plain text. -/
  | plainText {signature : Signature} (hsignature : auditor.registry.find? call = some signature)
      (h : (Flags.resolve auditor.scope (signature.flagsOf? call)).contains .literal = true)

end Auditor

namespace Script.Scope

/-- A pattern is flattened to nothing if its literals hold nothing. -/
theorem flatten?_eq_nil_iff {scope : Scope} {e : Expr} (h : scope.Expandable e) :
    scope.flatten? e = some [] ↔
      ∀ a range l, scope.LeafAt e a (.string range l) → l.entries = [] := by
  obtain ⟨t, ht, hsize, hdepth⟩ := expandable_iff.1 h
  have hflatten := flatten?_eq_some_iff.2 ⟨t, ht, hsize, hdepth, rfl⟩
  have hempty : fragmentsOf t.literals = [] ↔ ∀ leaf ∈ t.leaves, leaf.2.entries = [] := by
    rw [fragmentsOf, List.map_eq_nil_iff, List.flatMap_eq_nil_iff, Expansion.literals,
      List.forall_mem_map]
  rw [hflatten, Option.some.injEq, hempty]
  constructor
  · intro hnone a range l hleaf
    obtain ⟨range', l', heq, -, hmem⟩ := ht.exists_literal hleaf
    cases heq
    exact hnone _ hmem
  · rintro hnone ⟨a, l⟩ hmem
    obtain ⟨range, hleaf⟩ := ht.exists_leafAt hmem
    exact hnone a range l hleaf

end Script.Scope

namespace Auditor

section Runs

variable {auditor : Auditor} {call : Call} {cache : Cache ParsedRegex}

theorem site?_eq_none_iff : auditor.site? call = none ↔ auditor.Abandons call := by
  rw [Option.eq_none_iff_forall_ne_some]
  constructor
  · intro hnone
    by_contra hnot
    cases hsignature : auditor.registry.find? call with
    | none => exact hnot (.unmatched hsignature)
    | some signature =>
      cases hpattern : signature.patternOf? call with
      | none => exact hnot (.withoutPattern hsignature hpattern)
      | some pattern =>
        by_cases hexpandable : auditor.scope.Expandable pattern
        · obtain ⟨fragments, hflatten⟩ :=
            Option.isSome_iff_exists.1 (Scope.isSome_flatten?_iff.2 hexpandable)
          have hne : fragments ≠ [] := by
            rintro rfl
            exact hnot (.hollow hsignature hpattern hexpandable
              ((Scope.flatten?_eq_nil_iff hexpandable).1 hflatten))
          have hflags : (Flags.resolve auditor.scope (signature.flagsOf? call)).contains .literal =
              false := by
            by_contra htrue
            exact hnot (.plainText hsignature (Bool.eq_true_of_not_eq_false htrue))
          exact hnone ⟨call, fragments, _⟩ (site?_eq_some_iff.2
            ⟨signature, pattern, hsignature, hpattern, hflatten, hne, rfl, hflags, rfl⟩)
        · exact hnot (.unexpandable hsignature hpattern hexpandable)
  · intro habandons site hsite
    obtain ⟨signature, pattern, hsignature, hpattern, hflatten, hne, hresolve, hflags, -⟩ :=
      site?_eq_some_iff.1 hsite
    cases habandons with
    | unmatched h => simp [h] at hsignature
    | withoutPattern hsignature' h =>
      cases hsignature.symm.trans hsignature'
      simp [h] at hpattern
    | unexpandable hsignature' hpattern' h =>
      cases hsignature.symm.trans hsignature'
      cases hpattern.symm.trans hpattern'
      exact h (Scope.isSome_flatten?_iff.1 (Option.isSome_of_eq_some hflatten))
    | hollow hsignature' hpattern' hexpandable h =>
      cases hsignature.symm.trans hsignature'
      cases hpattern.symm.trans hpattern'
      rw [(Scope.flatten?_eq_nil_iff hexpandable).2 h] at hflatten
      exact hne (Option.some.inj hflatten).symm
    | plainText hsignature' h =>
      cases hsignature.symm.trans hsignature'
      rw [hresolve, h] at hflags
      cases hflags

/-- Where the signatures are built in or were accepted, a call that has one of them has a pattern.
It is passed over only for what this pattern and the flags are. -/
theorem abandons_iff_of_ofSettings {settings : Settings}
    (h : Registry.ofSettings settings = .ok auditor.registry) : auditor.Abandons call ↔
      auditor.registry.find? call = none ∨ ∃ signature pattern,
        auditor.registry.find? call = some signature ∧ signature.patternOf? call = some pattern ∧
        (¬auditor.scope.Expandable pattern ∨
          (auditor.scope.Expandable pattern ∧
            ∀ a range l, auditor.scope.LeafAt pattern a (.string range l) → l.entries = []) ∨
          (Flags.resolve auditor.scope (signature.flagsOf? call)).contains .literal = true) := by
  constructor
  · intro habandons
    cases habandons with
    | unmatched hnone => exact .inl hnone
    | withoutPattern hsignature hnone =>
      have hpattern := Registry.isSome_patternOf?_of_find? h hsignature
      rw [hnone] at hpattern
      cases hpattern
    | unexpandable hsignature hpattern hnot =>
      exact .inr ⟨_, _, hsignature, hpattern, .inl hnot⟩
    | hollow hsignature hpattern hexpandable hempty =>
      exact .inr ⟨_, _, hsignature, hpattern, .inr (.inl ⟨hexpandable, hempty⟩)⟩
    | plainText hsignature hliteral =>
      obtain ⟨pattern, hpattern⟩ :=
        Option.isSome_iff_exists.1 (Registry.isSome_patternOf?_of_find? h hsignature)
      exact .inr ⟨_, pattern, hsignature, hpattern, .inr (.inr hliteral)⟩
  · rintro (hnone | ⟨_, _, hsignature, hpattern, hnot | ⟨hexpandable, hempty⟩ | hliteral⟩)
    · exact .unmatched hnone
    · exact .unexpandable hsignature hpattern hnot
    · exact .hollow hsignature hpattern hexpandable hempty
    · exact .plainText hsignature hliteral

instance : Decidable (auditor.Abandons call) :=
  decidable_of_iff ((auditor.site? call).isNone = true)
    (Option.isNone_iff_eq_none.trans site?_eq_none_iff)

theorem audit_of_abandons (h : auditor.Abandons call) : auditor.audit cache call = ([], cache) := by
  rw [audit, site?_eq_none_iff.2 h]

/-- A call that is not passed over asks the cache for its regex. -/
theorem audit_cache_cases (cache : Cache ParsedRegex) {site : Site}
    (hsite : auditor.site? call = some site) :
    (∃ regex, cache.find? (.of cache.keying site.fragments site.flags) = some regex ∧
      (auditor.audit cache call).2 = cache.hit) ∨
    (cache.find? (.of cache.keying site.fragments site.flags) = none ∧
      (auditor.audit cache call).2 = cache.miss (.of cache.keying site.fragments site.flags)
        (.ofFragments site.fragments site.flags)) := by
  rw [audit, hsite]
  dsimp only
  obtain ⟨regex, hfound, hfetch⟩ | ⟨hmissing, hfetch⟩ := cache.fetch_cases
    (fun fs flags => pure (.ofFragments fs flags)) site.fragments site.flags
  · rw [hfetch]
    exact .inl ⟨regex, hfound, rfl⟩
  · rw [hfetch]
    exact .inr ⟨hmissing, rfl⟩

theorem audit_keying : (auditor.audit cache call).2.keying = cache.keying := by
  cases hsite : auditor.site? call with
  | none => rw [audit_of_abandons (site?_eq_none_iff.1 hsite)]
  | some site =>
    obtain ⟨-, -, hcache⟩ | ⟨-, hcache⟩ := audit_cache_cases cache hsite
    · rw [hcache]
      rfl
    · rw [hcache]
      rfl

theorem auditAll_keying (calls : List Call) :
    (auditor.auditAll cache calls).2.keying = cache.keying := by
  induction calls generalizing cache with
  | nil => rfl
  | cons call calls ih => exact ih.trans audit_keying

/-- One more call is analysed with the diagnostics and the cache that the others left. -/
theorem auditAll_append_singleton (calls : List Call) (call : Call) :
    auditor.auditAll cache (calls ++ [call]) =
      ((auditor.auditAll cache calls).1 ++
          (auditor.audit (auditor.auditAll cache calls).2 call).1,
        (auditor.audit (auditor.auditAll cache calls).2 call).2) := by
  induction calls generalizing cache with
  | nil => simp [auditAll]
  | cons first calls ih =>
    rw [List.cons_append, auditAll, auditAll]
    simp only [ih, List.append_assoc]

/-- There is one look-up for each call that is not passed over. -/
theorem auditAll_lookups (auditor : Auditor) (keying : Keying) (calls : List Call) :
    (auditor.auditAll (.empty keying) calls).2.stats.hits +
        (auditor.auditAll (.empty keying) calls).2.stats.misses =
      calls.countP fun call => ¬auditor.Abandons call := by
  have h := (auditor.auditAll_tallies (Cache.tallies_empty keying) calls).total
  rw [h, List.nil_append, List.length_filterMap_eq_countP]
  refine List.countP_congr fun call _ => ?_
  rw [key?, Option.isSome_map, decide_eq_true_eq, ← site?_eq_none_iff, Option.isSome_iff_ne_none]

/-- After any calls, a call that is passed over changes neither the diagnostics nor the cache. Every
other call asks the cache once for its regex: the result is found and stays, or a new one is added.
The count is that of the calls that were not passed over. -/
theorem auditAll_frame (auditor : Auditor) (keying : Keying) (history : List Call) (call : Call) :
    let before := auditor.auditAll (.empty keying) history
    let after := auditor.auditAll (.empty keying) (history ++ [call])
    (auditor.Abandons call → after = before) ∧
    (¬auditor.Abandons call → ∃ site, auditor.site? call = some site ∧
      let key := CacheKey.of keying site.fragments site.flags
      let regex := ParsedRegex.ofFragments site.fragments site.flags
      (before.2.find? key).isSome = true ∧ after.2 = ⟨keying, before.2.entries,
          ⟨before.2.stats.hits + 1, before.2.stats.misses⟩⟩ ∨
        before.2.find? key = none ∧ after.2 = ⟨keying, (key, regex) :: before.2.entries,
          ⟨before.2.stats.hits, before.2.stats.misses + 1⟩⟩) ∧
    before.2.stats.hits + before.2.stats.misses =
      history.countP fun earlier => ¬auditor.Abandons earlier := by
  intro before after
  have hafter : after = (before.1 ++ (auditor.audit before.2 call).1,
      (auditor.audit before.2 call).2) := auditAll_append_singleton history call
  refine ⟨fun h => ?_, fun h => ?_, auditor.auditAll_lookups keying history⟩
  · rw [hafter, audit_of_abandons h, List.append_nil]
  · obtain ⟨site, hsite⟩ := Option.ne_none_iff_exists'.1 (mt site?_eq_none_iff.1 h)
    have hkeying : before.2.keying = keying := auditAll_keying history
    have hcases := audit_cache_cases before.2 hsite
    rw [hkeying] at hcases
    refine ⟨site, hsite, ?_⟩
    obtain ⟨regex, hfound, hcache⟩ | ⟨hmissing, hcache⟩ := hcases
    · refine .inl ⟨Option.isSome_of_eq_some hfound, ?_⟩
      rw [hafter, hcache, ← hkeying]
      rfl
    · refine .inr ⟨hmissing, ?_⟩
      rw [hafter, hcache, ← hkeying]
      rfl

end Runs

namespace Undeclared

/-- The source of two lines, `Regex(x)` and `Regex("a")`. -/
def source : List Char :=
  ['R', 'e', 'g', 'e', 'x', '(', 'x', ')', '\n',
    'R', 'e', 'g', 'e', 'x', '(', '"', 'a', '"', ')']

/-- The first call. The name is not declared. -/
def unknown : Call := ⟨.name ⟨0, 5⟩ "Regex", [.name ⟨6, 7⟩ "x"]⟩

/-- The literal of the second call. -/
def literal : StringLiteral := ⟨false, [⟨.literal, ['a'], ⟨16, 17⟩⟩]⟩

/-- The second call. -/
def known : Call := ⟨.name ⟨9, 14⟩ "Regex", [.string ⟨15, 18⟩ literal]⟩

/-- The script of the source. -/
def script : Script :=
  ⟨[.expression (.call ⟨0, 8⟩ unknown.callee unknown.args),
    .expression (.call ⟨9, 19⟩ known.callee known.args)]⟩

/-- The auditor of the source. -/
def auditor : Auditor := ofScript "undeclared" source script .builtin []

theorem ofSource_source : Script.ofSource source = .ok script := by
  with_unfolding_all rfl

theorem abandons_unknown : auditor.Abandons unknown := by
  have hsignature : auditor.registry.find? unknown =
      some ⟨"Regex", .none, .argument 0, some 1, 1, 2⟩ := rfl
  refine .unexpandable hsignature rfl fun hexpandable => ?_
  obtain ⟨range, l, hname, -⟩ := hexpandable.leaves [] (.name ⟨6, 7⟩ "x")
    ⟨congrArg some (Scope.predict_name _ rfl), fun side => rfl⟩
  cases hname

theorem not_abandons_known : ¬auditor.Abandons known := by
  intro h
  have hsite : auditor.site? known = some ⟨known, [⟨['a'], ⟨16, 17⟩, false⟩], .none⟩ :=
    site?_regex rfl ⟨9, 14⟩ ⟨15, 18⟩ rfl (by simp)
  rw [site?_eq_none_iff.2 h] at hsite
  cases hsite

end Undeclared

/-- The call with an undeclared name changes nothing, and each of the others is one look-up. -/
theorem auditAll_frame_undeclared :
    let run := Undeclared.auditor.auditAll (.empty .text)
    let before := run [Undeclared.known, Undeclared.unknown]
    let after := run [Undeclared.known, Undeclared.unknown, Undeclared.known]
    Script.ofSource Undeclared.source = .ok Undeclared.script ∧
    run [Undeclared.known, Undeclared.unknown, Undeclared.unknown] = before ∧
    before.2.stats.hits + before.2.stats.misses = 1 ∧
    after.2.stats.hits + after.2.stats.misses = 2 := by
  intro run before after
  obtain ⟨hframe, -, hcount⟩ := auditAll_frame Undeclared.auditor .text
    [Undeclared.known, Undeclared.unknown] Undeclared.unknown
  obtain ⟨-, hlookup, -⟩ := auditAll_frame Undeclared.auditor .text
    [Undeclared.known, Undeclared.unknown] Undeclared.known
  have hone : before.2.stats.hits + before.2.stats.misses = 1 := by
    rw [hcount]
    simp [Undeclared.abandons_unknown, Undeclared.not_abandons_known]
  refine ⟨Undeclared.ofSource_source, hframe Undeclared.abandons_unknown, hone, ?_⟩
  obtain ⟨site, -, ⟨-, hafter⟩ | ⟨-, hafter⟩⟩ := hlookup Undeclared.not_abandons_known
  · have hstats : after.2.stats = ⟨before.2.stats.hits + 1, before.2.stats.misses⟩ :=
      congrArg Cache.stats hafter
    rw [hstats]
    dsimp only
    omega
  · have hstats : after.2.stats = ⟨before.2.stats.hits, before.2.stats.misses + 1⟩ :=
      congrArg Cache.stats hafter
    rw [hstats]
    dsimp only
    omega

end Auditor

end RegexAudit
