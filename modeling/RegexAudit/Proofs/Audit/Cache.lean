import RegexAudit.Engine
import RegexAudit.Proofs.Audit.Sites

/-!
# The cache is invisible

A call whose key is found in the cache is served with a result that may stem from another call.
Nobody can tell: the findings depend on the joined text and the flags alone, which the key
determines, and they are translated with the fragments of the call at hand.

## Main definitions

* `Auditor.auditFresh`: the diagnostics for a call without any cache.
* `Cache.Coherent`: every result in a cache is that of fragments of the source under its key.

## Main statements

* `Cache.Coherent.fetch`: what a cache returns is the result of fragments with the same text.
* `Auditor.report_eq`: such a result is reported like the one of the call's own fragments.
* `Auditor.audit_coherent`: one step of the analysis.
* `Auditor.auditAll_coherent`: a whole run of it.
* `Auditor.audit_eq_auditFresh`: after any calls and under any keying, the cache changes nothing.
-/

namespace RegexAudit

open Script

/-- Agreement in the key and in the source implies agreement in the joined text and the flags. -/
theorem CacheKey.of_eq {source : List Char} {keying : Keying} {fs gs : List Fragment}
    {flags flags' : Flags} (hfs : ∀ f ∈ fs, f.StandsIn source) (hgs : ∀ g ∈ gs, g.StandsIn source)
    (h : CacheKey.of keying fs flags = CacheKey.of keying gs flags') :
    Fragment.join fs = Fragment.join gs ∧ flags = flags' := by
  cases keying with
  | identity =>
    simp only [CacheKey.of, CacheKey.identity.injEq] at h
    exact ⟨congrArg Fragment.join (Fragment.StandsIn.eq_of_map_range hfs hgs h.1), h.2⟩
  | text =>
    simp only [CacheKey.of, CacheKey.text.injEq] at h
    exact h

/-- What checks see depends on the joined text and the flags alone. -/
theorem ParsedRegex.subject_eq_of_join {fs gs : List Fragment} (flags : Flags)
    (h : Fragment.join fs = Fragment.join gs) :
    (ParsedRegex.ofFragments fs flags).subject = (ParsedRegex.ofFragments gs flags).subject := by
  have hpattern : (PatternSource.ofFragments fs).pattern = (PatternSource.ofFragments gs).pattern :=
    congrArg (fun text => (Decoded.ofText text).pattern) h
  simp only [ParsedRegex.subject, ParsedRegex.ofFragments, hpattern]

/-- The findings depend on the joined text and the flags alone. -/
theorem ParsedRegex.findings_eq_of_join {fs gs : List Fragment} (flags : Flags) (check : Check)
    (h : Fragment.join fs = Fragment.join gs) :
    (ParsedRegex.ofFragments fs flags).findings check =
      (ParsedRegex.ofFragments gs flags).findings check := by
  have hdecoded : (PatternSource.ofFragments fs).decoded = (PatternSource.ofFragments gs).decoded :=
    congrArg Decoded.ofText h
  have hinterval :
      (PatternSource.ofFragments fs).interval = (PatternSource.ofFragments gs).interval := by
    funext span
    simp only [PatternSource.interval, PatternSource.offset, hdecoded]
  rw [ParsedRegex.findings, ParsedRegex.findings, ParsedRegex.subject_eq_of_join flags h]
  exact congrArg (fun f => List.map (Finding.mapSpans f) _) hinterval

/-- Every result is that of some fragments of the source, stored under their key. -/
def Cache.Coherent (source : List Char) (cache : Cache ParsedRegex) : Prop :=
  ∀ key regex, (key, regex) ∈ cache.entries → ∃ fragments flags,
    key = CacheKey.of cache.keying fragments flags ∧ regex = .ofFragments fragments flags ∧
      ∀ f ∈ fragments, f.StandsIn source

namespace Cache

variable {source : List Char} {cache : Cache ParsedRegex}

theorem mem_of_find? {α : Type} {cache : Cache α} {key : CacheKey} {result : α}
    (h : cache.find? key = some result) : (key, result) ∈ cache.entries := by
  obtain ⟨before, after, hentries, -⟩ := List.lookup_eq_some_iff.1 h
  simp [hentries]

theorem coherent_empty (source : List Char) (keying : Keying) :
    (Cache.empty keying : Cache ParsedRegex).Coherent source := by
  intro key regex h
  simp [Cache.empty] at h

/-- The cache returns the result of fragments of the source with the joined text and the flags asked
for, and remains coherent. -/
theorem Coherent.fetch (h : cache.Coherent source) {fragments : List Fragment} {flags : Flags}
    (hfragments : ∀ f ∈ fragments, f.StandsIn source) {regex : ParsedRegex}
    {cache' : Cache ParsedRegex}
    (hfetch : Id.run (cache.fetch (fun fs flags => pure (.ofFragments fs flags)) fragments flags) =
      (regex, cache')) :
    (∃ gs, regex = .ofFragments gs flags ∧ Fragment.join gs = Fragment.join fragments ∧
      ∀ g ∈ gs, g.StandsIn source) ∧
    cache'.keying = cache.keying ∧ cache'.Coherent source := by
  unfold Cache.fetch at hfetch
  dsimp only at hfetch
  split at hfetch
  · next result hfound =>
    obtain ⟨rfl, rfl⟩ := Prod.mk.inj hfetch
    -- The result was stored for fragments with the same key, which may be those of another call.
    obtain ⟨gs, flags', hkey, rfl, hgs⟩ := h _ result (mem_of_find? hfound)
    obtain ⟨hjoin, rfl⟩ := CacheKey.of_eq hfragments hgs hkey
    exact ⟨⟨gs, rfl, hjoin.symm, hgs⟩, rfl, h⟩
  · obtain ⟨rfl, rfl⟩ := Prod.mk.inj hfetch
    refine ⟨⟨fragments, rfl, rfl, hfragments⟩, rfl, ?_⟩
    intro key regex hmem
    rcases List.mem_cons.1 hmem with hnew | hold
    · obtain ⟨rfl, rfl⟩ := Prod.mk.inj hnew
      exact ⟨fragments, flags, rfl, rfl, hfragments⟩
    · exact h key regex hold

end Cache

namespace Auditor

/-- The diagnostics for a call without any cache: its own fragments are joined, parsed and
indexed. -/
def auditFresh (auditor : Auditor) (call : Call) : List Diagnostic :=
  match auditor.site? call with
  | none => []
  | some site =>
    auditor.checks.flatMap fun enabled =>
      ((ParsedRegex.ofFragments site.fragments site.flags).findings enabled.check).map
        (auditor.translate (.ofFragments site.fragments) site.call enabled)

theorem map_range_boundaries (start : Nat) (fs : List Fragment) :
    (Boundary.ofFragments start fs).map (·.range) = fs.map (·.range) := by
  induction fs generalizing start with
  | nil => rfl
  | cons f fs ih => simp [Boundary.ofFragments, Boundary.ofFragment, ih]

/-- A result of fragments of the same source is translated with the call's own fragments. -/
theorem indexFor_eq {source : List Char} {fs gs : List Fragment} {flags : Flags}
    (hfs : ∀ f ∈ fs, f.StandsIn source) (hgs : ∀ g ∈ gs, g.StandsIn source) :
    indexFor (.ofFragments gs flags) fs = .ofFragments fs := by
  unfold indexFor
  split
  · next hsame =>
    -- The fragments have the same spans in one source, so they are the same.
    have hranges : gs.map (·.range) = fs.map (·.range) := by
      rw [← map_range_boundaries 0 gs]
      exact beq_iff_eq.1 hsame
    rw [Fragment.StandsIn.eq_of_map_range hgs hfs hranges]
    rfl
  · rfl

section Runs

variable {auditor : Auditor} {source : List Char} {cache : Cache ParsedRegex}

/-- A result of fragments with the same text is reported like that of the site's own fragments. -/
theorem report_eq {site : Site} {gs : List Fragment}
    (hfs : ∀ f ∈ site.fragments, f.StandsIn source) (hgs : ∀ g ∈ gs, g.StandsIn source)
    (hjoin : Fragment.join gs = Fragment.join site.fragments) :
    auditor.report (.ofFragments gs site.flags) site =
      auditor.checks.flatMap fun enabled =>
        ((ParsedRegex.ofFragments site.fragments site.flags).findings enabled.check).map
          (auditor.translate (.ofFragments site.fragments) site.call enabled) := by
  rw [report, indexFor_eq hfs hgs]
  refine congrArg (List.flatMap · auditor.checks) ?_
  funext enabled
  rw [ParsedRegex.findings_eq_of_join site.flags enabled.check hjoin]

/-- One call is analysed as without a cache, and the cache remains coherent. -/
theorem audit_coherent (h : cache.Coherent source) {call : Call}
    (hcall : ∀ site, auditor.site? call = some site → ∀ f ∈ site.fragments, f.StandsIn source) :
    (auditor.audit cache call).1 = auditor.auditFresh call ∧
      (auditor.audit cache call).2.keying = cache.keying ∧
      (auditor.audit cache call).2.Coherent source := by
  cases hsite : auditor.site? call with
  | none =>
    rw [audit, auditFresh, hsite]
    exact ⟨rfl, rfl, h⟩
  | some site =>
    have hfs := hcall site hsite
    obtain ⟨⟨regex, cache'⟩, hfetch⟩ : ∃ result, Id.run (cache.fetch
        (fun fs flags => pure (.ofFragments fs flags)) site.fragments site.flags) = result :=
      ⟨_, rfl⟩
    obtain ⟨⟨gs, rfl, hjoin, hgs⟩, hkeying, hcoherent⟩ := h.fetch hfs hfetch
    rw [audit, auditFresh, hsite]
    dsimp only
    rw [hfetch]
    exact ⟨report_eq hfs hgs hjoin, hkeying, hcoherent⟩

/-- Calls in any order are analysed as without a cache, and the cache remains coherent. -/
theorem auditAll_coherent {calls : List Call} (h : cache.Coherent source)
    (hcalls : ∀ call ∈ calls, ∀ site, auditor.site? call = some site →
      ∀ f ∈ site.fragments, f.StandsIn source) :
    (auditor.auditAll cache calls).1 = calls.flatMap auditor.auditFresh ∧
      (auditor.auditAll cache calls).2.keying = cache.keying ∧
      (auditor.auditAll cache calls).2.Coherent source := by
  induction calls generalizing cache with
  | nil => exact ⟨rfl, rfl, h⟩
  | cons call calls ih =>
    obtain ⟨hcall, hcalls⟩ := List.forall_mem_cons.1 hcalls
    obtain ⟨hfirst, hkeying, hcoherent⟩ := audit_coherent h hcall
    obtain ⟨hmore, hkeying', hcoherent'⟩ := ih hcoherent hcalls
    refine ⟨?_, hkeying'.trans hkeying, hcoherent'⟩
    rw [List.flatMap_cons, ← hfirst, ← hmore]
    rfl

/-- After any calls of a script and under any keying, a call of the script gets the diagnostics that
it would get without a cache, and a result that is found for it is translated with its own
fragments. The diagnostics for the whole script do not depend on the keying. -/
theorem audit_eq_auditFresh (file : String) {script : Script}
    (hscript : Script.ofSource source = .ok script) (registry : Registry)
    (checks : List EnabledCheck) (keying : Keying) {history : List Call}
    (hhistory : ∀ c ∈ history, c ∈ script.calls) {call : Call} (hcall : call ∈ script.calls) :
    let auditor := ofScript file source script registry checks
    let cache := (auditor.auditAll (.empty keying) history).2
    (auditor.audit cache call).1 = auditor.auditFresh call ∧
      (∀ site, auditor.site? call = some site → ∀ regex,
        cache.find? (.of keying site.fragments site.flags) = some regex →
          indexFor regex site.fragments = .ofFragments site.fragments) ∧
      (auditor.auditAll (.empty .text) script.calls).1 =
        (auditor.auditAll (.empty .identity) script.calls).1 := by
  intro auditor cache
  have hstands : ∀ c ∈ script.calls, ∀ site, auditor.site? c = some site →
      ∀ f ∈ site.fragments, f.StandsIn source :=
    fun c hc site hsite => standsIn_of_site? hscript hc hsite
  have hrun : ∀ k calls, (∀ c ∈ calls, c ∈ script.calls) →
      (auditor.auditAll (.empty k) calls).1 = calls.flatMap auditor.auditFresh ∧
        (auditor.auditAll (.empty k) calls).2.Coherent source := by
    intro k calls hcalls
    obtain ⟨hfresh, -, hcoherent⟩ :=
      auditAll_coherent (Cache.coherent_empty source k) (fun c hc => hstands c (hcalls c hc))
    exact ⟨hfresh, hcoherent⟩
  have hcoherent : cache.Coherent source := (hrun keying history hhistory).2
  refine ⟨(audit_coherent hcoherent (hstands call hcall)).1, ?_, ?_⟩
  · intro site hsite regex hfound
    obtain ⟨gs, flags, -, rfl, hgs⟩ := hcoherent _ regex (Cache.mem_of_find? hfound)
    exact indexFor_eq (hstands call hcall site hsite) hgs
  · rw [(hrun .text script.calls (fun _ hc => hc)).1,
      (hrun .identity script.calls (fun _ hc => hc)).1]

end Runs

namespace Twins

/-- The source of two lines `Regex("a")`. -/
def source : List Char :=
  ['R', 'e', 'g', 'e', 'x', '(', '"', 'a', '"', ')', '\n',
    'R', 'e', 'g', 'e', 'x', '(', '"', 'a', '"', ')']

/-- The argument of the call that starts at an offset. -/
def argument (start : Nat) : Expr :=
  .string ⟨start + 6, start + 9⟩ ⟨false, [⟨.literal, ['a'], ⟨start + 7, start + 8⟩⟩]⟩

/-- The call that starts at an offset. -/
def call (start : Nat) : Call := ⟨.name ⟨start, start + 5⟩ "Regex", [argument start]⟩

/-- The statement with the call that starts at an offset. -/
def statement (start : Nat) : Statement :=
  .expression (.call ⟨start, start + 10⟩ (call start).callee (call start).args)

/-- Reports the first character of every pattern at its place. -/
def check : EnabledCheck :=
  ⟨{ id := "first"
     description := "first character"
     defaultSeverity := .warning
     run := fun _ => [.plain ⟨0, 1⟩ "first character"] }, .warning⟩

/-- The auditor of the source. -/
def auditor : Auditor := ofScript "twins" source ⟨[statement 0, statement 11]⟩ .builtin [check]

theorem ofSource_source : Script.ofSource source = .ok ⟨[statement 0, statement 11]⟩ := by
  with_unfolding_all rfl

theorem flatten?_argument (start : Nat) : auditor.scope.flatten? (argument start) =
    some [⟨['a'], ⟨start + 7, start + 8⟩, false⟩] := by
  rw [Scope.flatten?, maxConcatNodes, argument,
    Scope.flattenFrom_string (by decide) (Scope.predict_string ..) rfl]
  rfl

theorem site?_call (start : Nat) : auditor.site? (call start) =
    some ⟨call start, [⟨['a'], ⟨start + 7, start + 8⟩, false⟩], .none⟩ := by
  refine site?_eq_some_iff.2 ⟨⟨"Regex", .none, .argument 0, some 1, 1, 2⟩, argument start, ?_⟩
  exact ⟨rfl, rfl, flatten?_argument start, by simp, rfl,
    (by decide : Flags.none.contains .literal = false), rfl⟩

end Twins

/-- The second call is served with the result of the first one, and reported at its own place. -/
theorem audit_eq_auditFresh_twins :
    let cache := (Twins.auditor.auditAll (.empty .text) [Twins.call 0]).2
    (Twins.auditor.audit cache (Twins.call 11)).2.stats = ⟨1, 1⟩ ∧
      (Twins.auditor.audit cache (Twins.call 11)).1.map (·.location.span) = [⟨18, 19⟩] := by
  intro cache
  have hsecond : Twins.call 11 ∈ Script.calls ⟨[Twins.statement 0, Twins.statement 11]⟩ :=
    List.mem_cons_of_mem _ (List.mem_singleton.2 rfl)
  have hhistory : ∀ c ∈ [Twins.call 0],
      c ∈ Script.calls ⟨[Twins.statement 0, Twins.statement 11]⟩ := by
    intro c hc
    rw [List.mem_singleton.1 hc]
    exact List.mem_cons_self
  have hfresh : (Twins.auditor.audit cache (Twins.call 11)).1 =
      Twins.auditor.auditFresh (Twins.call 11) :=
    (audit_eq_auditFresh "twins" Twins.ofSource_source .builtin [Twins.check] .text hhistory
      hsecond).1
  constructor
  · simp only [cache, auditAll, audit, Twins.site?_call]
    rfl
  · rw [hfresh, auditFresh, Twins.site?_call]
    with_unfolding_all rfl

end Auditor

end RegexAudit
