import Mathlib.Combinatorics.Enumerative.DoubleCounting
import RegexAudit.Proofs.Audit.Tally

/-!
# Two keyings of one analysis

Whether regexes are told apart by their texts or by the places of their fragments, each analysed
call is looked up once. In one source the places determine the fragments, and so the text: calls
that agree in their places agree in their texts, and there are at most as many texts as places. So
under texts the cache misses at most as often.

## Main definitions

* `Settings.withKeying`, `Engine.withKeying`: a configuration and an engine with another keying.
* `Site.key`: the key of an analysed call.

## Main statements

* `Site.key_text_of_identity`: equal places lead to equal texts.
* `Auditor.auditAll_keyings`: the counts of one run under both keyings.
* `Engine.analyze_keyings`: the reports on one source under both keyings.
-/

namespace RegexAudit

open Script

/-- The configuration with another keying of the cache. -/
def Settings.withKeying (settings : Settings) (keying : Keying) : Settings :=
  { settings with cache := some ⟨some keying⟩ }

/-- The engine with another keying of the cache. -/
def Engine.withKeying (engine : Engine) (keying : Keying) : Engine := { engine with keying }

/-- What distinguishes no more values does not yield more of them. -/
theorem card_toFinset_map_le {α β : Type} [DecidableEq β] {f g : α → β} {l : List α}
    (h : ∀ a ∈ l, ∀ b ∈ l, g a = g b → f a = f b) :
    (l.map f).toFinset.card ≤ (l.map g).toFinset.card := by
  apply Finset.card_le_card_of_forall_subsingleton fun x y => ∃ a ∈ l, f a = x ∧ g a = y
  · intro x hx
    obtain ⟨a, ha, rfl⟩ := List.mem_map.1 (List.mem_toFinset.1 hx)
    exact ⟨g a, List.mem_toFinset.2 (List.mem_map_of_mem ha), a, ha, rfl, rfl⟩
  · rintro y - x ⟨-, a, ha, rfl, hy⟩ x' ⟨-, b, hb, rfl, hy'⟩
    exact h a ha b hb (hy.trans hy'.symm)

/-- Each look-up counts once. -/
theorem CacheStats.total_ofKeys (keys : List CacheKey) :
    (ofKeys keys).hits + (ofKeys keys).misses = keys.length :=
  Nat.sub_add_cancel (List.toFinset_card_le keys)

/-- The key under which the regex of an analysed call is looked up. -/
def Site.key (keying : Keying) (site : Site) : CacheKey := .of keying site.fragments site.flags

/-- Analysed calls of one source that agree in the places of their fragments agree in their
texts. -/
theorem Site.key_text_of_identity {source : List Char} {s t : Site}
    (hs : ∀ f ∈ s.fragments, f.StandsIn source) (ht : ∀ f ∈ t.fragments, f.StandsIn source)
    (h : s.key .identity = t.key .identity) : s.key .text = t.key .text := by
  obtain ⟨hjoin, hflags⟩ := CacheKey.of_eq hs ht h
  show CacheKey.text (Fragment.join s.fragments) s.flags = .text (Fragment.join t.fragments) t.flags
  rw [hjoin, hflags]

namespace Auditor

variable {auditor : Auditor} {source : List Char} {calls : List Call}

theorem filterMap_key? (auditor : Auditor) (keying : Keying) (calls : List Call) :
    calls.filterMap (auditor.key? keying) =
      (calls.filterMap auditor.site?).map (Site.key keying) := by
  rw [List.map_filterMap]
  rfl

/-- A run makes as many look-ups under either keying, and misses no more often under texts. -/
theorem auditAll_keyings (h : ∀ call ∈ calls, ∀ site, auditor.site? call = some site →
      ∀ f ∈ site.fragments, f.StandsIn source) :
    let byText := (auditor.auditAll (.empty .text) calls).2.stats
    let byIdentity := (auditor.auditAll (.empty .identity) calls).2.stats
    byText.hits + byText.misses = byIdentity.hits + byIdentity.misses ∧
      byText.misses ≤ byIdentity.misses := by
  intro byText byIdentity
  have hstats : ∀ keying, (auditor.auditAll (.empty keying) calls).2.stats =
      .ofKeys ((calls.filterMap auditor.site?).map (Site.key keying)) := by
    intro keying
    rw [auditAll_stats, filterMap_key?]
  have htext : byText = _ := hstats .text
  have hidentity : byIdentity = _ := hstats .identity
  rw [htext, hidentity]
  constructor
  · rw [CacheStats.total_ofKeys, CacheStats.total_ofKeys, List.length_map, List.length_map]
  · apply card_toFinset_map_le
    intro s hs t ht hkey
    obtain ⟨call, hcall, hsite⟩ := List.mem_filterMap.1 hs
    obtain ⟨call', hcall', hsite'⟩ := List.mem_filterMap.1 ht
    exact Site.key_text_of_identity (h call hcall s hsite) (h call' hcall' t hsite') hkey

end Auditor

namespace Engine

/-- Another keying makes no difference to whether a configuration is accepted, and leads to an
engine that differs in the keying. -/
theorem ofSettings_withKeying (settings : Settings) (keying : Keying) :
    ofSettings (settings.withKeying keying) = (ofSettings settings).map (·.withKeying keying) := by
  have hregistry : Registry.ofSettings (settings.withKeying keying) =
      Registry.ofSettings settings := rfl
  have hthreads : (settings.withKeying keying).threads = settings.threads := rfl
  unfold ofSettings
  rw [hthreads, hregistry]
  split
  · rfl
  · cases Registry.ofSettings settings <;> rfl

/-- A source is analysed under a configuration with texts and with places as keys. Both reports
count as many look-ups, and the one with texts at most as many misses. Analysed calls whose
fragments stand at the same places have the same text. -/
theorem analyze_keyings {settings : Settings} {engine : Engine}
    (hengine : ofSettings settings = .ok engine) (path : String) {source : List Char}
    {script : Script} (hscript : Script.ofSource source = .ok script) :
    let auditor := Auditor.ofScript path source script engine.registry engine.checks
    ∃ engineText engineIdentity byText byIdentity,
      ofSettings (settings.withKeying .text) = .ok engineText ∧
      ofSettings (settings.withKeying .identity) = .ok engineIdentity ∧
      engineText.analyze path source = .ok byText ∧
      engineIdentity.analyze path source = .ok byIdentity ∧
      byText.stats.hits + byText.stats.misses =
        byIdentity.stats.hits + byIdentity.stats.misses ∧
      byText.stats.misses ≤ byIdentity.stats.misses ∧
      ∀ call ∈ script.calls, ∀ call' ∈ script.calls, ∀ site site',
        auditor.site? call = some site → auditor.site? call' = some site' →
        site.fragments.map (·.range) = site'.fragments.map (·.range) →
        Fragment.join site.fragments = Fragment.join site'.fragments := by
  intro auditor
  have hstands : ∀ call ∈ script.calls, ∀ site, auditor.site? call = some site →
      ∀ f ∈ site.fragments, f.StandsIn source :=
    fun call hcall site hsite => Auditor.standsIn_of_site? hscript hcall hsite
  have hkeyed : ∀ keying,
      ofSettings (settings.withKeying keying) = .ok (engine.withKeying keying) := by
    intro keying
    rw [ofSettings_withKeying, hengine]
    rfl
  have hreport : ∀ keying, (engine.withKeying keying).analyze path source =
      .ok ⟨path, (auditor.auditAll (.empty keying) script.calls).1,
        (auditor.auditAll (.empty keying) script.calls).2.stats⟩ := by
    intro keying
    rw [analyze, hscript]
    rfl
  obtain ⟨htotal, hmisses⟩ := Auditor.auditAll_keyings hstands
  refine ⟨_, _, _, _, hkeyed .text, hkeyed .identity, hreport .text, hreport .identity, htotal,
    hmisses, ?_⟩
  intro call hcall call' hcall' site site' hsite hsite' hranges
  rw [Fragment.StandsIn.eq_of_map_range (hstands call hcall site hsite)
    (hstands call' hcall' site' hsite') hranges]

namespace Shared

/-- The source of the lines `val a="x"`, `Regex(a)`, `Regex(a)` and `Regex("x")`. -/
def source : List Char :=
  ['v', 'a', 'l', ' ', 'a', '=', '"', 'x', '"', '\n',
    'R', 'e', 'g', 'e', 'x', '(', 'a', ')', '\n',
    'R', 'e', 'g', 'e', 'x', '(', 'a', ')', '\n',
    'R', 'e', 'g', 'e', 'x', '(', '"', 'x', '"', ')']

/-- The literal `"x"` that starts at an offset. -/
def literal (start : Nat) : Expr :=
  .string ⟨start, start + 3⟩ ⟨false, [⟨.literal, ['x'], ⟨start + 1, start + 2⟩⟩]⟩

/-- The call on the name that starts at an offset. -/
def named (start : Nat) : Call :=
  ⟨.name ⟨start, start + 5⟩ "Regex", [.name ⟨start + 6, start + 7⟩ "a"]⟩

/-- The call on a literal of its own. -/
def direct : Call := ⟨.name ⟨28, 33⟩ "Regex", [literal 34]⟩

/-- The script of the source. -/
def script : Script :=
  ⟨[.declaration false ⟨"a", ⟨4, 5⟩⟩ (literal 6),
    .expression (.call ⟨10, 18⟩ (named 10).callee (named 10).args),
    .expression (.call ⟨19, 27⟩ (named 19).callee (named 19).args),
    .expression (.call ⟨28, 38⟩ direct.callee direct.args)]⟩

/-- The engine of the empty configuration. -/
def engine : Engine := ⟨.builtin, Settings.empty.enabledChecks, .text, none⟩

/-- The auditor of the source. -/
def auditor : Auditor := .ofScript "shared" source script engine.registry engine.checks

theorem ofSource_source : Script.ofSource source = .ok script := by
  with_unfolding_all rfl

theorem predict_a (range : Span) : auditor.scope.predict (.name range "a") = literal 6 := by
  rw [Scope.predict, Scope.predictFrom_name _ rfl, literal, Scope.predictFrom]
  all_goals simp

theorem site?_named (start : Nat) :
    auditor.site? (named start) = some ⟨named start, [⟨['x'], ⟨7, 8⟩, false⟩], .none⟩ := by
  have hflatten : auditor.scope.flatten? (.name ⟨start + 6, start + 7⟩ "a") =
      some [⟨['x'], ⟨7, 8⟩, false⟩] := by
    rw [Scope.flatten?, maxConcatNodes, Scope.flattenFrom_string (by decide) (predict_a _) rfl]
    rfl
  exact Auditor.site?_eq_some_iff.2 ⟨⟨"Regex", .none, .argument 0, some 1, 1, 2⟩, _, rfl, rfl,
    hflatten, by simp, rfl, (by decide : Flags.none.contains .literal = false), rfl⟩

theorem site?_direct :
    auditor.site? direct = some ⟨direct, [⟨['x'], ⟨35, 36⟩, false⟩], .none⟩ :=
  Auditor.site?_regex rfl ⟨28, 33⟩ ⟨34, 37⟩ rfl (by simp)

theorem sites : script.calls.filterMap auditor.site? =
    [⟨named 10, [⟨['x'], ⟨7, 8⟩, false⟩], .none⟩, ⟨named 19, [⟨['x'], ⟨7, 8⟩, false⟩], .none⟩,
      ⟨direct, [⟨['x'], ⟨35, 36⟩, false⟩], .none⟩] := by
  show [named 10, named 19, direct].filterMap auditor.site? = _
  simp only [List.filterMap_cons, List.filterMap_nil, site?_named, site?_direct]

theorem stats_report {keying : Keying} {report : Report}
    (h : (engine.withKeying keying).analyze "shared" source = .ok report) :
    report.stats = .ofKeys ((script.calls.filterMap auditor.site?).map (Site.key keying)) := by
  rw [analyze_of_script _ "shared" ofSource_source] at h
  rw [← Except.ok.inj h, ← Auditor.filterMap_key?]
  rfl

end Shared

/-- Three calls share a text, and two of them the literal that a name stands for. -/
theorem analyze_keyings_shared :
    ∃ engineText engineIdentity byText byIdentity,
      ofSettings (Settings.empty.withKeying .text) = .ok engineText ∧
      ofSettings (Settings.empty.withKeying .identity) = .ok engineIdentity ∧
      engineText.analyze "shared" Shared.source = .ok byText ∧
      engineIdentity.analyze "shared" Shared.source = .ok byIdentity ∧
      byText.stats = ⟨2, 1⟩ ∧ byIdentity.stats = ⟨1, 2⟩ ∧
      byText.stats.misses ≤ byIdentity.stats.misses := by
  have hengine : ofSettings Settings.empty = .ok Shared.engine := rfl
  obtain ⟨engineText, engineIdentity, byText, byIdentity, htext, hidentity, hreport, hreport', -,
    hmisses, -⟩ := analyze_keyings hengine "shared" Shared.ofSource_source
  obtain rfl := Except.ok.inj (htext.symm.trans (ofSettings_withKeying Settings.empty .text))
  obtain rfl := Except.ok.inj
    (hidentity.symm.trans (ofSettings_withKeying Settings.empty .identity))
  refine ⟨_, _, byText, byIdentity, htext, hidentity, hreport, hreport', ?_, ?_, hmisses⟩
  · rw [Shared.stats_report hreport, Shared.sites]
    decide
  · rw [Shared.stats_report hreport', Shared.sites]
    decide

end Engine

end RegexAudit
