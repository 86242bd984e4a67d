import Mathlib.Algebra.Ring.Nat
import Mathlib.Data.List.SplitBy
import RegexAudit.Proofs.Pattern.Translation

/-!
# What the spans of an interval cover

Each fragment occupies an interval of the joined text, from the width of the fragments in front of
it to the width including it. The spans of an interval are the images of the fragments that it
meets, where every maximal run of images that touch is replaced by its hull. Nothing is lost and
nothing is counted twice, whatever the order of the fragments in the source.

## Main definitions

* `Fragment.Proper`: a fragment with an ordered span, and some text unless it is a backslash.
* `Placement`: a fragment with the offset at which it starts in the joined text.
* `Placement.Meets`, `Placement.image`, `Placement.covered`: a placement and an interval.
* `Span.touches`, `Span.hull`: a run of spans that touch, and the span from its start to its end.

## Main statements

* `Span.merge_eq_map_hull`: merging replaces every maximal run by its hull.
* `InverseIndex.ranges_eq_images`: the spans of an interval in these terms.
* `InverseIndex.ranges_cover`: there are such spans, they are apart, and their widths add up.
-/

namespace RegexAudit

namespace Span

/-- The second span starts where the first one stops. -/
def touches (s t : Span) : Bool := s.stop == t.start

/-- The span from the start of the first of some spans to the stop of the last. -/
def hull : List Span → Span
  | [] => empty 0
  | s :: run => ⟨s.start, (run.getLastD s).stop⟩

theorem hull_start {run : List Span} (h : run ≠ []) : (hull run).start = (run.head h).start := by
  cases run with
  | nil => exact absurd rfl h
  | cons s run => rfl

theorem hull_stop {run : List Span} (h : run ≠ []) :
    (hull run).stop = (run.getLast h).stop := by
  cases run with
  | nil => exact absurd rfl h
  | cons s run => rw [hull, List.getLast_eq_getLastD]

theorem hull_eq {run : List Span} (h : run ≠ []) :
    hull run = ⟨(run.head h).start, (run.getLast h).stop⟩ := by
  rw [← hull_start h, ← hull_stop h]

/-- The hull of a run grows by a span that touches it. -/
theorem cover_hull {run : List Span} {t : Span} (hrun : run ≠ [])
    (hordered : (hull run).start ≤ (hull run).stop) (ht : t.start ≤ t.stop)
    (htouch : (hull run).stop = t.start) : (hull run).cover t = hull (run ++ [t]) := by
  have hne : run ++ [t] ≠ [] := by simp
  rw [cover_of_touch hordered ht htouch, hull_eq hne, Span.mk.injEq]
  constructor
  · rw [hull_start hrun, List.head_append_of_ne_nil hrun]
  · rw [List.getLast_append_singleton]

/-- Whether the last span of a run touches the next one is seen at the hull. -/
theorem touches_of_mem_getLast? {run : List Span} {s : Span} (hs : s ∈ run.getLast?) (t : Span) :
    touches s t = ((hull run).stop == t.start) := by
  have hrun : run ≠ [] := by
    rintro rfl
    simp at hs
  rw [List.getLast?_eq_getLast_of_ne_nil hrun, Option.mem_def, Option.some.injEq] at hs
  rw [← hs, touches, hull_stop hrun]

/-- Merging goes on with the hull of the run that has been read. -/
theorem merge_hull_append {run rest : List Span} (hrun : run ≠ [])
    (hchain : run.IsChain fun s t => touches s t = true)
    (hordered : (hull run).start ≤ (hull run).stop) (hrest : ∀ s ∈ rest, s.start ≤ s.stop) :
    merge (hull run :: rest) = ((run ++ rest).splitBy touches).map hull := by
  induction rest generalizing run with
  | nil =>
    rw [List.append_nil, List.splitBy_of_isChain hrun hchain, merge, List.map_singleton]
  | cons t rest ih =>
    obtain ⟨ht, hrest⟩ := List.forall_mem_cons.1 hrest
    by_cases htouch : (hull run).stop = t.start
    · -- The next span belongs to the run, and the hull grows by it.
      have hgrown := cover_hull hrun hordered ht htouch
      have hchain' : (run ++ [t]).IsChain fun s t => touches s t = true := by
        refine List.isChain_append.2 ⟨hchain, List.isChain_singleton t, ?_⟩
        intro s hs u hu
        obtain rfl : t = u := by simpa using hu
        rw [touches_of_mem_getLast? hs]
        exact beq_iff_eq.2 htouch
      have hordered' : (hull (run ++ [t])).start ≤ (hull (run ++ [t])).stop :=
        hgrown ▸ cover_ordered hordered ht htouch
      rw [merge_cons_of_touch htouch, hgrown, ih (by simp) hchain' hordered' hrest]
      simp
    · -- The run ends here, and the next one begins.
      have hapart : ∀ s ∈ run.getLast?, touches s t = false := by
        intro s hs
        rw [touches_of_mem_getLast? hs]
        exact beq_eq_false_iff_ne.2 htouch
      have hnext := ih (List.cons_ne_nil t []) (List.isChain_singleton t) ht hrest
      rw [merge_cons_of_not_touch htouch, List.splitBy_append_cons rest hapart,
        List.splitBy_of_isChain hrun hchain, List.map_append, List.map_singleton]
      exact congrArg _ hnext

/-- Merging replaces every maximal run of spans that touch by its hull. -/
theorem merge_eq_map_hull {spans : List Span} (h : ∀ s ∈ spans, s.start ≤ s.stop) :
    merge spans = (spans.splitBy touches).map hull := by
  cases spans with
  | nil => rw [merge]; rfl
  | cons s rest =>
    obtain ⟨hs, hrest⟩ := List.forall_mem_cons.1 h
    exact merge_hull_append (List.cons_ne_nil s []) (List.isChain_singleton s) hs hrest

/-- No merged span ends where the next one starts. -/
theorem merge_apart {spans : List Span} (h : ∀ s ∈ spans, s.start ≤ s.stop) :
    (merge spans).IsChain fun s t => s.stop ≠ t.start := by
  rw [merge_eq_map_hull h, List.isChain_map]
  refine (List.isChain_getLast_head_splitBy touches spans).imp ?_
  intro run next hapart
  obtain ⟨hrun, hnext, hapart⟩ := hapart
  rw [hull_stop hrun, hull_start hnext]
  exact beq_eq_false_iff_ne.1 hapart

theorem merge_ordered {spans : List Span} (h : ∀ s ∈ spans, s.start ≤ s.stop) :
    ∀ s ∈ merge spans, s.start ≤ s.stop := by
  refine merge_induction ?_ h
  intro s t hs ht htouch
  exact cover_ordered hs ht htouch

/-- Merging keeps the sum of the widths. -/
theorem sum_length_merge {spans : List Span} (h : ∀ s ∈ spans, s.start ≤ s.stop) :
    ((merge spans).map length).sum = (spans.map length).sum := by
  fun_induction merge spans with
  | case1 => rfl
  | case2 s => rfl
  | case3 s t rest htouch ih =>
    obtain ⟨hs, h⟩ := List.forall_mem_cons.1 h
    obtain ⟨ht, hrest⟩ := List.forall_mem_cons.1 h
    have hlength : (s.cover t).length = s.length + t.length := by
      rw [cover_of_touch hs ht htouch]
      simp only [length]
      omega
    rw [ih (List.forall_mem_cons.2 ⟨cover_ordered hs ht htouch, hrest⟩)]
    simp only [List.map_cons, List.sum_cons, hlength, Nat.add_assoc]
  | case4 s t rest htouch ih =>
    obtain ⟨hs, hrest⟩ := List.forall_mem_cons.1 h
    rw [List.map_cons, List.sum_cons, ih hrest, List.map_cons (l := t :: rest), List.sum_cons]

end Span

/-- The span of the fragment is ordered, and the fragment has some text unless it stands for a
backslash. -/
structure Fragment.Proper (f : Fragment) : Prop where
  ordered : f.range.start ≤ f.range.stop
  text : f.isBackslash = false → f.text ≠ []

/-- A fragment contributes something if it has some text or stands for a backslash. -/
theorem Fragment.size_pos {f : Fragment} (h : f.isBackslash = false → f.text ≠ []) :
    0 < f.size := by
  apply Nat.pos_of_ne_zero
  intro hzero
  have hnil := Text.width_eq_zero_iff.1 hzero
  cases hbackslash : f.isBackslash with
  | true => simp [Fragment.normalized, hbackslash, Fragment.escapedBackslash] at hnil
  | false => exact h hbackslash (by simpa [Fragment.normalized, hbackslash] using hnil)

theorem Fragment.Proper.size_pos {f : Fragment} (h : f.Proper) : 0 < f.size :=
  Fragment.size_pos h.text

/-- A fragment with the offset at which it starts in the joined text. -/
structure Placement where
  start : Nat
  fragment : Fragment
deriving DecidableEq

/-- The fragments where they stand in the joined text, of which the first starts at `start`. -/
def Fragment.place (start : Nat) (fs : List Fragment) : List Placement :=
  fs.mapIdx fun i f => ⟨start + Text.width (join (fs.take i)), f⟩

@[simp] theorem Fragment.place_nil (start : Nat) : place start [] = [] := rfl

@[simp] theorem Fragment.place_cons (start : Nat) (f : Fragment) (fs : List Fragment) :
    place start (f :: fs) = ⟨start, f⟩ :: place (start + f.size) fs := by
  simp [place, List.mapIdx_cons, Fragment.size, Nat.add_assoc]

namespace Placement

/-- The offset behind the fragment in the joined text. -/
def stop (p : Placement) : Nat := p.start + p.fragment.size

/-- The fragment and the interval have a byte of the joined text in common. -/
def Meets (lo hi : Nat) (p : Placement) : Prop :=
  ∃ byte, (lo ≤ byte ∧ byte < hi) ∧ p.start ≤ byte ∧ byte < p.stop

theorem meets_iff {lo hi : Nat} {p : Placement} :
    p.Meets lo hi ↔ max lo p.start < min hi p.stop := by
  constructor
  · rintro ⟨byte, hin, hof⟩
    omega
  · intro h
    exact ⟨max lo p.start, by omega, by omega⟩

instance (lo hi : Nat) : DecidablePred (Meets lo hi) :=
  fun _ => decidable_of_iff _ meets_iff.symm

/-- The normalized text is as long as the spelling. -/
def IsVerbatim (p : Placement) : Prop := p.fragment.size = p.fragment.range.length

instance : DecidablePred IsVerbatim :=
  fun p => inferInstanceAs (Decidable (p.fragment.size = p.fragment.range.length))

/-- What the interval and the fragment have in common, in the source: the bytes at the same offsets
in the fragment when it is verbatim, and all of its span otherwise. -/
def image (lo hi : Nat) (p : Placement) : Span :=
  if p.IsVerbatim then
    ⟨p.fragment.range.start + (max lo p.start - p.start),
      p.fragment.range.start + (min hi p.stop - p.start)⟩
  else p.fragment.range

/-- The number of bytes of the joined text that the interval and the fragment have in common. -/
def overlap (lo hi : Nat) (p : Placement) : Nat := min hi p.stop - max lo p.start

/-- The number of source bytes that stand for what the interval and the fragment have in common. -/
def covered (lo hi : Nat) (p : Placement) : Nat :=
  if p.IsVerbatim then p.overlap lo hi else p.fragment.range.length

theorem length_image {lo hi : Nat} {p : Placement} (hp : p.Meets lo hi) :
    (p.image lo hi).length = p.covered lo hi := by
  have hmeets := meets_iff.1 hp
  unfold image covered
  split
  · simp only [Span.length, overlap]
    omega
  · rfl

end Placement

namespace Fragment

variable {lo hi start : Nat} {fs : List Fragment}

/-- The fragments that an interval meets, where they stand in the joined text. -/
def touched (lo hi start : Nat) (fs : List Fragment) : List Placement :=
  (place start fs).filter (Placement.Meets lo hi)

theorem touched_cons_of_meets {f : Fragment} (h : Placement.Meets lo hi ⟨start, f⟩) :
    touched lo hi start (f :: fs) = ⟨start, f⟩ :: touched lo hi (start + f.size) fs := by
  rw [touched, place_cons, List.filter_cons_of_pos (by simpa using h)]
  rfl

theorem touched_cons_of_not_meets {f : Fragment} (h : ¬ Placement.Meets lo hi ⟨start, f⟩) :
    touched lo hi start (f :: fs) = touched lo hi (start + f.size) fs := by
  rw [touched, place_cons, List.filter_cons_of_neg (by simpa using h)]
  rfl

/-- The parts of fragments in an interval are the images of the fragments that it meets. -/
theorem parts_eq_images (lo hi start : Nat) (fs : List Fragment) :
    parts lo hi start fs = (touched lo hi start fs).map (Placement.image lo hi) := by
  induction fs generalizing start with
  | nil => rfl
  | cons f fs ih =>
    rw [parts, ih, part]
    by_cases hmeets : Placement.Meets lo hi ⟨start, f⟩
    · rw [touched_cons_of_meets hmeets, List.map_cons]
      exact congrArg (· ++ _) (if_pos (Placement.meets_iff.1 hmeets))
    · rw [touched_cons_of_not_meets hmeets]
      exact congrArg (· ++ _) (if_neg fun hlt => hmeets (Placement.meets_iff.2 hlt))

/-- The overlaps with all fragments make up the part of the interval that lies in the joined
text. -/
theorem sum_overlap (lo hi start : Nat) (fs : List Fragment) :
    ((place start fs).map (Placement.overlap lo hi)).sum =
      min hi (start + Text.width (join fs)) - max lo start := by
  induction fs generalizing start with
  | nil =>
    simp only [place_nil, List.map_nil, List.sum_nil, join_nil, Text.width_nil]
    omega
  | cons f fs ih =>
    have hwidth := width_join_cons f fs
    rw [place_cons, List.map_cons, List.sum_cons, ih, hwidth, Placement.overlap, Placement.stop]
    dsimp only
    omega

/-- Only the fragments that the interval meets overlap it. -/
theorem sum_overlap_touched (lo hi start : Nat) (fs : List Fragment) :
    ((touched lo hi start fs).map (Placement.overlap lo hi)).sum =
      ((place start fs).map (Placement.overlap lo hi)).sum := by
  induction fs generalizing start with
  | nil => rfl
  | cons f fs ih =>
    rw [place_cons, List.map_cons, List.sum_cons]
    by_cases hmeets : Placement.Meets lo hi ⟨start, f⟩
    · rw [touched_cons_of_meets hmeets, List.map_cons, List.sum_cons, ih]
    · have hnone : Placement.overlap lo hi ⟨start, f⟩ = 0 := by
        rw [Placement.meets_iff] at hmeets
        rw [Placement.overlap]
        omega
      rw [touched_cons_of_not_meets hmeets, ih, hnone, Nat.zero_add]

/-- Of fragments that the interval encloses, all source bytes are covered. -/
theorem sum_covered_whole (h : ∀ f ∈ fs, f.Proper) (hlo : lo ≤ start)
    (hhi : start + Text.width (join fs) ≤ hi) :
    ((touched lo hi start fs).map (Placement.covered lo hi)).sum =
      (fs.map (·.range.length)).sum := by
  induction fs generalizing start with
  | nil => rfl
  | cons f fs ih =>
    obtain ⟨hf, hfs⟩ := List.forall_mem_cons.1 h
    have hpos := hf.size_pos
    have hwidth := width_join_cons f fs
    have hmeets : Placement.Meets lo hi ⟨start, f⟩ := by
      refine ⟨start, by omega, Nat.le_refl _, ?_⟩
      show start < start + f.size
      omega
    have hcovered : Placement.covered lo hi ⟨start, f⟩ = f.range.length := by
      unfold Placement.covered
      split
      · next hverbatim =>
        rw [← hverbatim]
        simp only [Placement.overlap, Placement.stop]
        omega
      · rfl
    rw [touched_cons_of_meets hmeets, List.map_cons, List.sum_cons, hcovered,
      ih hfs (by omega) (by omega), List.map_cons, List.sum_cons]

/-- An interval of the joined text that is not empty meets a fragment. -/
theorem touched_ne_nil (hlt : lo < hi) (hhi : hi ≤ Text.width (join fs)) :
    touched lo hi 0 fs ≠ [] := by
  intro hnil
  have hsum := sum_overlap_touched lo hi 0 fs
  rw [hnil, sum_overlap] at hsum
  simp only [List.map_nil, List.sum_nil] at hsum
  omega

end Fragment

namespace Split

/-- The literals `"ab"` and `"c"`, with a raw backslash behind the first. -/
def fragments : List Fragment :=
  [⟨['a', 'b'], ⟨1, 3⟩, false⟩, ⟨['\\'], ⟨3, 4⟩, true⟩, ⟨['c'], ⟨9, 10⟩, false⟩]

theorem proper_of_mem : ∀ f ∈ fragments, f.Proper := by
  intro f hf
  simp only [fragments, List.mem_cons, List.not_mem_nil, or_false] at hf
  rcases hf with rfl | rfl | rfl
  all_goals exact ⟨by decide, by decide⟩

end Split

namespace InverseIndex

variable {fs : List Fragment}

theorem images_ordered (h : ∀ f ∈ fs, f.Proper) (lo hi : Nat) :
    ∀ s ∈ (Fragment.touched lo hi 0 fs).map (Placement.image lo hi), s.start ≤ s.stop := by
  rw [← Fragment.parts_eq_images]
  exact Fragment.parts_ordered fun f hf => (h f hf).ordered

theorem ranges_eq_merge_images (h : ∀ f ∈ fs, f.Proper) (lo hi : Nat) :
    (ofFragments fs).ranges lo hi =
      Span.merge ((Fragment.touched lo (min hi (Text.width (Fragment.join fs))) 0 fs).map
        (Placement.image lo (min hi (Text.width (Fragment.join fs))))) := by
  rw [ranges_ofFragments (fun f hf => (h f hf).size_pos), Fragment.parts_eq_images]

/-- The spans of any interval are found as follows: take every fragment that meets the interval, up
to the end of the joined text; take its image in the source; and replace every maximal run of
images that touch by its hull. -/
theorem ranges_eq_images (h : ∀ f ∈ fs, f.Proper) (lo hi : Nat) :
    let stop := min hi (Text.width (Fragment.join fs))
    (ofFragments fs).ranges lo hi =
      (((Fragment.touched lo stop 0 fs).map (Placement.image lo stop)).splitBy
        Span.touches).map Span.hull := by
  intro stop
  rw [ranges_eq_merge_images h]
  exact Span.merge_eq_map_hull (images_ordered h lo stop)

/-- The second letter of a literal touches the backslash behind it, and the next literal is apart.
An interval may end in the middle of a backslash, or past the end. -/
theorem ranges_eq_images_split :
    (ofFragments Split.fragments).ranges 1 3 = [⟨2, 4⟩] ∧
      (ofFragments Split.fragments).ranges 1 100 = [⟨2, 4⟩, ⟨9, 10⟩] := by
  constructor
  · exact (ranges_eq_images Split.proper_of_mem 1 3).trans (by decide)
  · exact (ranges_eq_images Split.proper_of_mem 1 100).trans (by decide)

theorem sum_length_ranges (h : ∀ f ∈ fs, f.Proper) {lo hi : Nat}
    (hhi : hi ≤ Text.width (Fragment.join fs)) :
    (((ofFragments fs).ranges lo hi).map Span.length).sum =
      ((Fragment.touched lo hi 0 fs).map (Placement.covered lo hi)).sum := by
  rw [ranges_eq_merge_images h, Nat.min_eq_left hhi, Span.sum_length_merge (images_ordered h lo hi),
    List.map_map]
  refine congrArg List.sum (List.map_congr_left ?_)
  intro p hp
  obtain ⟨-, hmeets⟩ := List.mem_filter.1 hp
  exact Placement.length_image (by simpa using hmeets)

/-- An interval of the joined text that is not empty has spans. They are ordered, none of them ends
where the next one starts, and together they are as wide as what the touched fragments contribute:
the overlap with a verbatim fragment, and the span of any other. -/
theorem ranges_cover (h : ∀ f ∈ fs, f.Proper) {lo hi : Nat} (hlt : lo < hi)
    (hhi : hi ≤ Text.width (Fragment.join fs)) :
    let ranges := (ofFragments fs).ranges lo hi
    let touched := Fragment.touched lo hi 0 fs
    ranges ≠ [] ∧
      (∀ s ∈ ranges, s.start ≤ s.stop) ∧
      ranges.IsChain (fun s t => s.stop ≠ t.start) ∧
      (ranges.map Span.length).sum = (touched.map (Placement.covered lo hi)).sum ∧
      ((∀ p ∈ touched, p.IsVerbatim) → (ranges.map Span.length).sum = hi - lo) ∧
      (((ofFragments fs).ranges 0 (Text.width (Fragment.join fs))).map Span.length).sum =
        (fs.map (·.range.length)).sum := by
  intro ranges touched
  have hmerge : ranges = Span.merge (touched.map (Placement.image lo hi)) := by
    have hranges := ranges_eq_merge_images h lo hi
    rwa [Nat.min_eq_left hhi] at hranges
  have hordered := images_ordered h lo hi
  have hsum : (ranges.map Span.length).sum = (touched.map (Placement.covered lo hi)).sum :=
    sum_length_ranges h hhi
  refine ⟨?_, ?_, ?_, hsum, ?_, ?_⟩
  · rw [hmerge, Ne, Span.merge_eq_map_hull hordered, List.map_eq_nil_iff, List.splitBy_eq_nil,
      List.map_eq_nil_iff]
    exact Fragment.touched_ne_nil hlt hhi
  · rw [hmerge]
    exact Span.merge_ordered hordered
  · rw [hmerge]
    exact Span.merge_apart hordered
  · intro hverbatim
    have hoverlap : touched.map (Placement.covered lo hi) = touched.map (Placement.overlap lo hi) :=
      List.map_congr_left fun p hp => if_pos (hverbatim p hp)
    rw [hsum, hoverlap, Fragment.sum_overlap_touched, Fragment.sum_overlap]
    omega
  · rw [sum_length_ranges h (Nat.le_refl _)]
    exact Fragment.sum_covered_whole h (Nat.le_refl _) (by omega)

/-- The backslash counts with its one byte in the source, although it has two in the joined text. -/
theorem ranges_cover_split :
    (((ofFragments Split.fragments).ranges 1 4).map Span.length).sum = 2 ∧
      (((ofFragments Split.fragments).ranges 0 2).map Span.length).sum = 2 := by
  obtain ⟨-, -, -, hsum, -, -⟩ :=
    @ranges_cover _ Split.proper_of_mem 1 4 (by decide) (by decide)
  obtain ⟨-, -, -, -, hverbatim, -⟩ :=
    @ranges_cover _ Split.proper_of_mem 0 2 (by decide) (by decide)
  exact ⟨hsum.trans (by decide), hverbatim (by decide)⟩

end InverseIndex

end RegexAudit
