import Mathlib.Data.List.Forall2
import RegexAudit.Proofs.Audit.Locations

/-!
# Nothing is lost in translation

A diagnostic is made of each finding of a check at a call. All spans of the source to which the
finding and its notes are translated are among its locations. Those that coincide are listed once,
where they come first, and the name of the called function comes last.

## Main definitions

* `FirstOccurrences`: a list without repetitions, in the order of another list.
* `Auditor.issues`: the findings of all checks.
* `Auditor.Shows`: a diagnostic shows a finding at a call.

## Main statements

* `firstOccurrences_eraseDups`: erasing repetitions keeps the first occurrences.
* `Auditor.shows_translate`: translating a finding yields a diagnostic that shows it.
* `Auditor.audit_shows`: the diagnostics for a call after any others.
-/

namespace RegexAudit

open Script

/-- The second list has each item of the first one once, and in the order in which they occur
first. -/
structure FirstOccurrences {α : Type} [BEq α] (all once : List α) : Prop where
  mem_iff : ∀ a, a ∈ once ↔ a ∈ all
  nodup : once.Nodup
  ordered : once.Pairwise fun a b => all.idxOf a < all.idxOf b

section Occurrences

variable {α : Type} [BEq α] [LawfulBEq α]

/-- Dropping other items does not change which of two items occurs first. -/
theorem idxOf_lt_of_filter {keep : α → Bool} {a b : α} {l : List α} (ha : keep a = true)
    (hb : keep b = true) (h : (l.filter keep).idxOf a < (l.filter keep).idxOf b) :
    l.idxOf a < l.idxOf b := by
  induction l with
  | nil => simp at h
  | cons first l ih =>
    rw [List.filter_cons] at h
    by_cases hsame : first = a
    · subst hsame
      rw [if_pos ha, List.idxOf_cons_self] at h
      have hne : first ≠ b := by
        rintro rfl
        simp at h
      rw [List.idxOf_cons_self, List.idxOf_cons_ne _ hne]
      exact Nat.succ_pos _
    · by_cases hother : first = b
      · subst hother
        rw [if_pos hb, List.idxOf_cons_self] at h
        exact absurd h (Nat.not_lt_zero _)
      · rw [List.idxOf_cons_ne _ hsame, List.idxOf_cons_ne _ hother]
        refine Nat.succ_lt_succ (ih ?_)
        split at h
        · rw [List.idxOf_cons_ne _ hsame, List.idxOf_cons_ne _ hother] at h
          exact Nat.lt_of_succ_lt_succ h
        · exact h

/-- Erasing the repetitions keeps the first occurrences. -/
theorem firstOccurrences_eraseDups (l : List α) : FirstOccurrences l l.eraseDups := by
  have hordered : l.eraseDups.Pairwise fun a b => l.idxOf a < l.idxOf b := by
    -- Erasing the copies of the first item leaves a list that is shorter, but no tail.
    induction hlength : l.length using Nat.strongRecOn generalizing l with
    | ind n ih =>
      cases l with
      | nil => exact .nil
      | cons a as =>
        have hshorter : (as.filter fun b => !b == a).length < n := by
          have hfilter := List.length_filter_le (fun b => !b == a) as
          rw [List.length_cons] at hlength
          omega
        have hne : ∀ b ∈ (as.filter fun b => !b == a).eraseDups, a ≠ b := by
          rintro b hb rfl
          simp at hb
        rw [List.eraseDups_cons]
        refine List.pairwise_cons.2 ⟨fun b hb => ?_, ?_⟩
        · rw [List.idxOf_cons_self, List.idxOf_cons_ne _ (hne b hb)]
          exact Nat.succ_pos _
        · refine (ih _ hshorter _ rfl).imp_of_mem fun {b c} hb hc hlt => ?_
          rw [List.idxOf_cons_ne _ (hne b hb), List.idxOf_cons_ne _ (hne c hc)]
          have hkeep : ∀ b ∈ (as.filter fun b => !b == a).eraseDups, (!b == a) = true := by
            intro b hb
            exact (List.mem_filter.1 (List.mem_eraseDups.1 hb)).2
          exact Nat.succ_lt_succ (idxOf_lt_of_filter (hkeep b hb) (hkeep c hc) hlt)
  refine ⟨fun a => List.mem_eraseDups, ?_, hordered⟩
  refine hordered.imp fun {a b} hlt => ?_
  rintro rfl
  exact Nat.lt_irrefl _ hlt

end Occurrences

namespace Auditor

/-- The findings of all checks on a regex, each with its check, in order. -/
def issues (auditor : Auditor) (regex : ParsedRegex) : List (EnabledCheck × Finding) :=
  auditor.checks.flatMap fun enabled => (regex.findings enabled.check).map (enabled, ·)

/-- The diagnostic shows a finding at a call, where `ranges` tells to which spans of the source a
span of the joined text is translated. -/
structure Shows (auditor : Auditor) (call : Call) (ranges : Span → List Span) (finding : Finding)
    (d : Diagnostic) : Prop where
  /-- Where the finding is translated to nothing, the name of the called function stands in. -/
  location : d.location = auditor.locate ((ranges finding.span).headD call.nameRange)
  complete : ∀ span ∈ ranges finding.span, auditor.locate span ∈ d.locations
  notes : ∀ note ∈ finding.notes, ∀ span ∈ ranges note.span,
    ⟨auditor.locate span, note.message⟩ ∈ d.secondaries
  /-- All places but the last are different: those of the notes, and then what is left of the
  finding itself. -/
  further : ∃ noted left : List (Span × Option String),
    d.secondaries.dropLast =
      (noted ++ left).map (fun (span, message) => ⟨auditor.locate span, message⟩) ∧
    FirstOccurrences
      ((finding.notes.flatMap fun note => (ranges note.span).map (·, note.message)) ++
        (ranges finding.span).tail.map (·, none)) (noted ++ left) ∧
    (∀ place, place ∈ noted ↔ ∃ note ∈ finding.notes, place.1 ∈ ranges note.span ∧
      place.2 = note.message) ∧
    (∀ place ∈ left, place.1 ∈ (ranges finding.span).tail ∧ place.2 = none)
  callee : d.secondaries.getLast? = some ⟨auditor.locate call.nameRange, some callSiteMessage⟩

section Translation

variable {auditor : Auditor} {call : Call}

theorem mem_noted_iff (ranges : Span → List Span) (notes : List Note)
    (place : Span × Option String) :
    place ∈ (notes.flatMap fun note => (ranges note.span).map (·, note.message)) ↔
      ∃ note ∈ notes, place.1 ∈ ranges note.span ∧ place.2 = note.message := by
  rw [List.mem_flatMap]
  refine exists_congr fun note => and_congr_right fun _ => ?_
  rw [List.mem_map]
  constructor
  · rintro ⟨span, hspan, rfl⟩
    exact ⟨hspan, rfl⟩
  · rintro ⟨hspan, hmessage⟩
    exact ⟨place.1, hspan, Prod.ext rfl hmessage.symm⟩

/-- Translating a finding yields a diagnostic that shows it. -/
theorem shows_translate (index : InverseIndex) (enabled : EnabledCheck) (finding : Finding) :
    auditor.Shows call (fun span => index.ranges span.start span.stop) finding
      (auditor.translate index call enabled finding) := by
  have hnoted := mem_noted_iff (fun span => index.ranges span.start span.stop) finding.notes
  have hmem : ∀ place ∈ further index finding,
      ⟨auditor.locate place.1, place.2⟩ ∈
        (auditor.translate index call enabled finding).secondaries := by
    intro place hplace
    exact List.mem_append_left _ (List.mem_map.2 ⟨place, hplace, rfl⟩)
  constructor
  case location => rfl
  case complete =>
    intro span hspan
    cases hranges : index.ranges finding.span.start finding.span.stop with
    | nil => simp [hranges] at hspan
    | cons first more =>
      simp only [hranges] at hspan
      rcases List.mem_cons.1 hspan with rfl | hmore
      · refine List.mem_cons.2 (.inl ?_)
        simp only [translate, hranges, List.headD_cons]
      · refine List.mem_cons_of_mem _ (List.mem_map.2 ⟨_, hmem (span, none) ?_, rfl⟩)
        rw [further, List.mem_eraseDups, hranges]
        exact List.mem_append_right _ (List.mem_map_of_mem hmore)
  case notes =>
    intro note hnote span hspan
    refine hmem (span, note.message) ?_
    rw [further, List.mem_eraseDups]
    exact List.mem_append_left _ ((hnoted _).2 ⟨note, hnote, hspan, rfl⟩)
  case further =>
    -- What is left of the finding is what no note has named.
    have hsplit : further index finding = _ ++ _ := List.eraseDups_append
    have hfirst : FirstOccurrences _ (further index finding) := firstOccurrences_eraseDups _
    rw [hsplit] at hfirst
    refine ⟨_, _, ?_, hfirst, fun place => ?_, fun place hplace => ?_⟩
    · rw [← hsplit]
      exact List.dropLast_concat
    · rw [List.mem_eraseDups]
      exact hnoted place
    · obtain ⟨span, hspan, rfl⟩ :=
        List.mem_map.1 (List.mem_of_mem_filter (List.mem_eraseDups.1 hplace))
      exact ⟨hspan, rfl⟩
  case callee => exact List.getLast?_concat

end Translation

section Runs

variable {auditor : Auditor} {call : Call} {source : List Char} {script : Script} {site : Site}

/-- The regex that a cache hands out for a site. -/
def served (cache : Cache ParsedRegex) (site : Site) : ParsedRegex :=
  (Id.run (cache.fetch (fun fs flags => pure (.ofFragments fs flags)) site.fragments site.flags)).1

/-- For a regex that the cache hands out, translation is by the fragments of the site at hand. -/
theorem indexFor_served {cache : Cache ParsedRegex} (h : cache.Coherent source)
    (hfs : ∀ f ∈ site.fragments, f.StandsIn source) :
    indexFor (served cache site) site.fragments = .ofFragments site.fragments := by
  obtain ⟨⟨regex, cache'⟩, hfetch⟩ : ∃ result, Id.run (cache.fetch
      (fun fs flags => pure (.ofFragments fs flags)) site.fragments site.flags) = result :=
    ⟨_, rfl⟩
  obtain ⟨⟨gs, hregex, -, hgs⟩, -, -⟩ := h.fetch hfs hfetch
  rw [served, hfetch, hregex]
  exact indexFor_eq hfs hgs

/-- The diagnostics for a site are the findings of the checks, each translated. -/
theorem audit_eq_map_issues {cache : Cache ParsedRegex} (hsite : auditor.site? call = some site) :
    (auditor.audit cache call).1 = (auditor.issues (served cache site)).map fun issue =>
      auditor.translate (indexFor (served cache site) site.fragments) call issue.1 issue.2 := by
  obtain ⟨-, -, -, -, -, -, -, -, rfl⟩ := site?_eq_some_iff.1 hsite
  rw [audit, hsite, issues, List.map_flatMap]
  simp only [List.map_map]
  rfl

/-- After any calls of a script, each finding of a check at a call leads to one diagnostic: the
finding as translated with the index that is at hand. Whatever intervals of the joined text a
finding and its notes have, its translation shows it by the call's own fragments, and the span at
which it names the called function reads like the name in the signature of the call. -/
theorem audit_shows (file : String) (hscript : Script.ofSource source = .ok script)
    (registry : Registry) (checks : List EnabledCheck) (keying : Keying) {history : List Call}
    (hhistory : ∀ c ∈ history, c ∈ script.calls) (hcall : call ∈ script.calls)
    (hsite : (ofScript file source script registry checks).site? call = some site) :
    let auditor := ofScript file source script registry checks
    let cache := (auditor.auditAll (.empty keying) history).2
    let translate := auditor.translate (indexFor (served cache site) site.fragments) call
    let ranges := fun span : Span =>
      (InverseIndex.ofFragments site.fragments).ranges span.start span.stop
    (∀ enabled finding, auditor.Shows call ranges finding (translate enabled finding)) ∧
    (auditor.audit cache call).1 =
      (auditor.issues (served cache site)).map (fun issue => translate issue.1 issue.2) ∧
    List.Forall₂ (fun issue d => d.rule = issue.1.check.id ∧ auditor.Shows call ranges issue.2 d)
      (auditor.issues (served cache site)) (auditor.audit cache call).1 ∧
    ∃ signature, registry.find? call = some signature ∧
      Text.slice? source call.nameRange = some signature.name.toList := by
  intro auditor cache translate ranges
  have hstands : ∀ c ∈ script.calls, ∀ site, auditor.site? c = some site →
      ∀ f ∈ site.fragments, f.StandsIn source :=
    fun c hc site hsite => standsIn_of_site? hscript hc hsite
  obtain ⟨-, -, hcoherent⟩ := auditAll_coherent (Cache.coherent_empty source keying)
    (fun c hc => hstands c (hhistory c hc))
  have hshows : ∀ enabled finding,
      auditor.Shows call ranges finding (translate enabled finding) := by
    intro enabled finding
    have hindex := indexFor_served hcoherent (hstands call hcall site hsite)
    show auditor.Shows call ranges finding (auditor.translate (indexFor _ _) call enabled finding)
    rw [hindex]
    exact shows_translate _ enabled finding
  have haudit : (auditor.audit cache call).1 =
      (auditor.issues (served cache site)).map (fun issue => translate issue.1 issue.2) :=
    audit_eq_map_issues hsite
  refine ⟨hshows, haudit, ?_, ?_⟩
  · rw [haudit, List.forall₂_map_right_iff, List.forall₂_same]
    exact fun issue _ => ⟨rfl, hshows issue.1 issue.2⟩
  · obtain ⟨tokens, htokens, -⟩ := readFrom_of_mem hscript
    obtain ⟨signature, -, hsignature, -⟩ := site?_eq_some_iff.1 hsite
    have hname := Registry.exists_name_of_find? hsignature
      (isNamed_of_mem_calls hscript htokens hcall)
    exact ⟨signature, hsignature, Tokens.slice?_name htokens hname⟩

end Runs

namespace Doubled

/-- A declaration `val a="x"` and a call `Regex(a+"y"+a)`. -/
def source : List Char :=
  ['v', 'a', 'l', ' ', 'a', '=', '"', 'x', '"', '\n',
    'R', 'e', 'g', 'e', 'x', '(', 'a', '+', '"', 'y', '"', '+', 'a', ')']

/-- The literal that the name stands for. -/
def init : Expr := .string ⟨6, 9⟩ ⟨false, [⟨.literal, ['x'], ⟨7, 8⟩⟩]⟩

/-- The argument of the call. -/
def argument : Expr :=
  .binary ⟨16, 23⟩ .plus
    (.binary ⟨16, 21⟩ .plus (.name ⟨16, 17⟩ "a")
      (.string ⟨18, 21⟩ ⟨false, [⟨.literal, ['y'], ⟨19, 20⟩⟩]⟩))
    (.name ⟨22, 23⟩ "a")

/-- The call. -/
def call : Call := ⟨.name ⟨10, 15⟩ "Regex", [argument]⟩

/-- The script of the source. -/
def script : Script :=
  ⟨[.declaration false ⟨"a", ⟨4, 5⟩⟩ init, .expression (.call ⟨10, 24⟩ call.callee call.args)]⟩

/-- Reports the whole pattern, with notes on its first half and on the character in the middle. -/
def check : EnabledCheck :=
  ⟨{ id := "whole"
     description := "whole pattern"
     defaultSeverity := .warning
     run := fun _ => [⟨⟨0, 3⟩, "whole", [⟨⟨0, 2⟩, some "half"⟩, ⟨⟨1, 2⟩, none⟩], none⟩] },
    .warning⟩

/-- The auditor of the source. -/
def auditor : Auditor := ofScript "doubled" source script .builtin [check]

/-- The regex of the call. -/
def site : Site :=
  ⟨call, [⟨['x'], ⟨7, 8⟩, false⟩, ⟨['y'], ⟨19, 20⟩, false⟩, ⟨['x'], ⟨7, 8⟩, false⟩], .none⟩

theorem ofSource_source : Script.ofSource source = .ok script := by
  with_unfolding_all rfl

theorem predict_a (range : Span) : auditor.scope.predict (.name range "a") = init := by
  rw [Scope.predict, Scope.predictFrom_name _ rfl, init, Scope.predictFrom]
  all_goals simp

theorem flatten?_argument : auditor.scope.flatten? argument = some site.fragments := by
  rw [Scope.flatten?, maxConcatNodes, argument,
    Scope.flattenFrom_plus (by decide) (Scope.predict_binary ..),
    Scope.flattenFrom_plus (by decide) (Scope.predict_binary ..),
    Scope.flattenFrom_string (by decide) (predict_a _) rfl,
    Scope.flattenFrom_string (by decide) (Scope.predict_string ..) rfl,
    Scope.flattenFrom_string (by decide) (predict_a _) rfl]
  rfl

theorem site?_call : auditor.site? call = some site := by
  refine site?_eq_some_iff.2 ⟨⟨"Regex", .none, .argument 0, some 1, 1, 2⟩, argument, ?_⟩
  exact ⟨rfl, rfl, flatten?_argument, by simp [site], rfl,
    (by decide : Flags.none.contains .literal = false), rfl⟩

/-- The pattern stands in the first literal, the second one, and the first one again. -/
theorem ranges_site :
    (InverseIndex.ofFragments site.fragments).ranges 0 3 = [⟨7, 8⟩, ⟨19, 20⟩, ⟨7, 8⟩] ∧
      (InverseIndex.ofFragments site.fragments).ranges 0 2 = [⟨7, 8⟩, ⟨19, 20⟩] ∧
      (InverseIndex.ofFragments site.fragments).ranges 1 2 = [⟨19, 20⟩] := by
  with_unfolding_all exact ⟨rfl, rfl, rfl⟩

end Doubled

/-- The literal that stands for both ends of the pattern is the location, and a further place with
the note on its first half. -/
theorem audit_shows_doubled :
    ∃ d, (Doubled.auditor.audit (.empty .text) Doubled.call).1 = [d] ∧
      d.location = Doubled.auditor.locate ⟨7, 8⟩ ∧
      ⟨Doubled.auditor.locate ⟨7, 8⟩, some "half"⟩ ∈ d.secondaries ∧
      ⟨Doubled.auditor.locate ⟨19, 20⟩, none⟩ ∈ d.secondaries ∧
      d.secondaries.getLast? =
        some ⟨Doubled.auditor.locate ⟨10, 15⟩, some callSiteMessage⟩ ∧
      Text.slice? Doubled.source ⟨10, 15⟩ = some "Regex".toList := by
  have hcall : Doubled.call ∈ Doubled.script.calls := List.mem_singleton.2 rfl
  have hhistory : ∀ c ∈ ([] : List Call), c ∈ Doubled.script.calls := by simp
  obtain ⟨-, -, hall, signature, hsignature, hname⟩ := audit_shows "doubled" Doubled.ofSource_source
    .builtin [Doubled.check] .text hhistory hcall Doubled.site?_call
  have hissues : Doubled.auditor.issues (served (.empty .text) Doubled.site) =
      [(Doubled.check, ⟨⟨0, 3⟩, "whole", [⟨⟨0, 2⟩, some "half"⟩, ⟨⟨1, 2⟩, none⟩], none⟩)] := by
    with_unfolding_all rfl
  have hbuiltin : Registry.builtin.find? Doubled.call =
      some ⟨"Regex", .none, .argument 0, some 1, 1, 2⟩ := rfl
  obtain rfl := Option.some.inj (hsignature.symm.trans hbuiltin)
  change List.Forall₂ _ (Doubled.auditor.issues (served (.empty .text) Doubled.site)) _ at hall
  rw [hissues, List.forall₂_cons_left_iff] at hall
  obtain ⟨d, ds, ⟨-, hshows⟩, hnil, heq⟩ := hall
  cases hnil
  obtain ⟨hwhole, hhalf, hmiddle⟩ := Doubled.ranges_site
  refine ⟨d, heq, ?_, ?_, ?_, hshows.callee, hname⟩
  · rw [hshows.location, hwhole]
    rfl
  · refine hshows.notes ⟨⟨0, 2⟩, some "half"⟩ (by simp) ⟨7, 8⟩ ?_
    rw [hhalf]
    exact List.mem_cons_self
  · refine hshows.notes ⟨⟨1, 2⟩, none⟩ (by simp) ⟨19, 20⟩ ?_
    rw [hmiddle]
    exact List.mem_cons_self

end Auditor

end RegexAudit
