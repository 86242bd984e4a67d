import Mathlib.Data.Prod.Basic
import RegexAudit.Proofs.Audit.Cache
import RegexAudit.Proofs.Pattern.Translation
import RegexAudit.Proofs.Shift.Lines
import RegexAudit.Proofs.Shift.Sites

/-!
# Diagnostics of a moved script

A finding is made in the joined text, which does not tell where its fragments stand. The index of
moved fragments translates it to the moved spans, touching or equal where the spans are, and so to
the moved diagnostic.

## Main definitions

* `InverseIndex.shift`: the index of moved fragments.
* `Diagnostic.shift`: the diagnostic, moved by some bytes and some lines.
* `Auditor.Moved`: an auditor of the same source behind something else.

## Main statements

* `InverseIndex.ranges_shift`: the spans of an interval of the joined text.
* `Auditor.further_shift`: the further places of a finding.
* `Auditor.auditFresh_shift`: the diagnostics for a moved call.
-/

namespace RegexAudit

open Script

variable {w k : Nat}

/-- The boundary, with its fragment moved by some bytes. -/
def Boundary.shift (w : Nat) (b : Boundary) : Boundary := { b with range := b.range.shift w }

/-- The index, with its fragments moved by some bytes. -/
def InverseIndex.shift (w : Nat) (index : InverseIndex) : InverseIndex :=
  { index with boundaries := index.boundaries.map (Boundary.shift w) }

namespace Boundary

theorem clip_shift (b : Boundary) (lo hi : Nat) :
    (b.shift w).clip lo hi = (b.clip lo hi).shift w := by
  rw [clip, clip, shift]
  cases b.verbatim with
  | true =>
    simp only [if_true, Span.shift, Span.mk.injEq]
    omega
  | false => rfl

theorem ofFragments_shift (start : Nat) (fs : List Fragment) :
    ofFragments start (fs.map (Fragment.shift w)) =
      (ofFragments start fs).map (Boundary.shift w) := by
  induction fs generalizing start with
  | nil => rfl
  | cons f fs ih =>
    have hfragment : ofFragment start (f.shift w) = (ofFragment start f).shift w := by
      rw [ofFragment, Fragment.size_shift, Fragment.shift, Span.length_shift]
      rfl
    rw [List.map_cons, ofFragments, ofFragments, hfragment, Fragment.size_shift, ih, List.map_cons]

end Boundary

/-- Moved spans touch where the spans do. -/
theorem Span.merge_shift (spans : List Span) :
    merge (spans.map (Span.shift w)) = (merge spans).map (Span.shift w) := by
  fun_induction merge spans with
  | case1 => rw [List.map_nil, merge]
  | case2 s => rw [List.map_cons, List.map_nil, merge]
  | case3 s t rest htouch ih =>
    have hmoved : (s.shift w).stop = (t.shift w).start := congrArg (· + w) htouch
    rw [List.map_cons, List.map_cons, merge_cons_of_touch hmoved, cover_shift, ← List.map_cons, ih]
  | case4 s t rest htouch ih =>
    have hmoved : (s.shift w).stop ≠ (t.shift w).start := fun h => htouch (Nat.add_right_cancel h)
    rw [List.map_cons, List.map_cons, merge_cons_of_not_touch hmoved, ← List.map_cons, ih,
      List.map_cons]

namespace InverseIndex

variable (index : InverseIndex)

/-- The index of moved fragments is the moved index. -/
theorem ofFragments_shift (w : Nat) (fs : List Fragment) :
    ofFragments (fs.map (Fragment.shift w)) = (ofFragments fs).shift w := by
  rw [ofFragments, ofFragments, Boundary.ofFragments_shift, Fragment.join_shift, shift]

theorem slotAt?_shift (offset : Nat) : (index.shift w).slotAt? offset = index.slotAt? offset := by
  have hlength : ((index.boundaries.map (Boundary.shift w)).takeWhile (·.start ≤ offset)).length =
      (index.boundaries.takeWhile (·.start ≤ offset)).length := by
    rw [List.takeWhile_map, List.length_map]
    rfl
  rw [slotAt?, slotAt?, shift, hlength]

theorem slotBefore?_shift (offset : Nat) :
    (index.shift w).slotBefore? offset = index.slotBefore? offset := by
  have hlength : ((index.boundaries.map (Boundary.shift w)).takeWhile (·.start < offset)).length =
      (index.boundaries.takeWhile (·.start < offset)).length := by
    rw [List.takeWhile_map, List.length_map]
    rfl
  rw [slotBefore?, slotBefore?, shift, hlength]

theorem walk_shift (cursor stop more : Nat) (boundaries : List Boundary) :
    walk cursor stop more (boundaries.map (Boundary.shift w)) =
      (walk cursor stop more boundaries).map (Span.shift w) := by
  fun_induction walk cursor stop more boundaries with
  | case1 => rw [List.map_nil, walk, List.map_nil]
  | case2 cursor b rest => rw [List.map_cons, walk, Boundary.clip_shift, Boundary.shift]; rfl
  | case3 cursor more b => rw [List.map_cons, List.map_nil, walk, Boundary.clip_shift]; rfl
  | case4 cursor more b next rest ih =>
    rw [List.map_cons, List.map_cons, walk, Boundary.clip_shift]
    exact congrArg (List.cons _) ih

/-- The spans of an interval of the joined text are the moved spans. -/
theorem ranges_shift (start stop : Nat) :
    (index.shift w).ranges start stop = (index.ranges start stop).map (Span.shift w) := by
  rw [ranges, ranges, slotAt?_shift, slotBefore?_shift, shift]
  dsimp only
  split
  · rfl
  · split
    · rw [← List.map_drop, walk_shift, Span.merge_shift]
    · rfl

end InverseIndex

/-- The location, moved by some bytes and some lines. -/
def Location.shift (w k : Nat) (l : Location) : Location :=
  { l with first := l.first.shift k, last := l.last.shift k, span := l.span.shift w }

/-- The further location, moved by some bytes and some lines. -/
def Secondary.shift (w k : Nat) (s : Secondary) : Secondary :=
  { s with location := s.location.shift w k }

/-- The diagnostic, with its locations moved by some bytes and some lines. -/
def Diagnostic.shift (w k : Nat) (d : Diagnostic) : Diagnostic :=
  { d with
    location := d.location.shift w k
    secondaries := d.secondaries.map (Secondary.shift w k) }

/-- Items that are told apart after a renaming are listed once after it. -/
theorem eraseDups_map {α β : Type} [BEq α] [LawfulBEq α] [BEq β] [LawfulBEq β] {f : α → β}
    (hf : Function.Injective f) (l : List α) : (l.map f).eraseDups = l.eraseDups.map f := by
  -- Erasing the copies of the first item leaves a list that is shorter, but no tail.
  induction hlength : l.length using Nat.strongRecOn generalizing l with
  | ind n ih =>
    cases l with
    | nil => rfl
    | cons a as =>
      have hsame : ((fun b => !b == f a) ∘ f) = fun b => !b == a := by
        funext b
        rw [Function.comp_apply, Bool.not_inj_iff, Bool.eq_iff_iff, beq_iff_eq, beq_iff_eq,
          hf.eq_iff]
      have hshorter : (as.filter fun b => !b == a).length < n := by
        have hfilter := List.length_filter_le (fun b => !b == a) as
        rw [List.length_cons] at hlength
        omega
      rw [List.map_cons, List.eraseDups_cons, List.eraseDups_cons, List.filter_map, hsame,
        ih _ hshorter _ rfl, List.map_cons]

namespace Auditor

/-- One auditor does for a source what another does for the source behind so many bytes and
lines. -/
structure Moved (w k : Nat) (auditor moved : Auditor) : Prop where
  file : moved.file = auditor.file
  lines : ∀ offset, moved.lines.position (offset + w) = (auditor.lines.position offset).shift k
  scope : moved.scope = auditor.scope.shift w
  registry : moved.registry = auditor.registry
  checks : moved.checks = auditor.checks

/-- The further places of a finding are moved. -/
theorem further_shift (index : InverseIndex) (finding : Finding) :
    further (index.shift w) finding = (further index finding).map (Prod.map (Span.shift w) id) := by
  have hmap : ∀ (spans : List Span) (message : Option String),
      (spans.map (Span.shift w)).map (·, message) =
        (spans.map (·, message)).map (Prod.map (Span.shift w) id) := by
    intro spans message
    rw [List.map_map, List.map_map]
    rfl
  have hinjective : Function.Injective (Prod.map (Span.shift w) (id : Option String → _)) :=
    Function.Injective.prodMap (Span.shift_injective w) Function.injective_id
  rw [further, further, ← eraseDups_map hinjective]
  simp only [InverseIndex.ranges_shift, ← List.map_tail, hmap, List.map_append, List.map_flatMap]

variable {auditor moved : Auditor} (h : auditor.Moved w k moved)

include h

theorem Moved.locate (span : Span) :
    moved.locate (span.shift w) = (auditor.locate span).shift w k := by
  rw [Auditor.locate, Auditor.locate, Location.of, Location.of, h.file, Span.shift, h.lines,
    h.lines]
  rfl

/-- A finding is translated to the moved diagnostic. -/
theorem Moved.translate (index : InverseIndex) (call : Call) (enabled : EnabledCheck)
    (finding : Finding) :
    moved.translate (index.shift w) (call.shift w) enabled finding =
      (auditor.translate index call enabled finding).shift w k := by
  have hprimary : ∀ (spans : List Span) (span : Span),
      (spans.map (Span.shift w)).headD (span.shift w) = (spans.headD span).shift w := by
    intro spans span
    cases spans <;> rfl
  simp only [Auditor.translate, Diagnostic.shift, InverseIndex.ranges_shift, Call.nameRange_shift,
    hprimary, h.locate, further_shift, List.map_append, List.map_map, List.map_cons, List.map_nil,
    Secondary.shift, Function.comp_def, Prod.map, id_eq]

/-- The diagnostics for a moved call are the moved diagnostics. -/
theorem Moved.auditFresh (call : Call) :
    moved.auditFresh (call.shift w) = (auditor.auditFresh call).map (Diagnostic.shift w k) := by
  rw [Auditor.auditFresh, Auditor.auditFresh, site?_shift h.scope h.registry]
  cases auditor.site? call with
  | none => rfl
  | some site =>
    dsimp only [Option.map_some, Site.shift]
    rw [h.checks, InverseIndex.ofFragments_shift, List.map_flatMap]
    refine congrArg (List.flatMap · auditor.checks) (funext fun enabled => ?_)
    rw [ParsedRegex.findings_eq_of_join site.flags enabled.check (Fragment.join_shift w _),
      List.map_map]
    exact congrArg (List.map · _) (funext (h.translate _ _ _))

end Auditor

end RegexAudit
