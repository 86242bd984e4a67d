import RegexAudit.Pattern.Index

/-!
# What the spans of an interval are

An interval of the joined text meets some of the fragments. Each of these contributes the part
that lies in the interval, cut byte for byte where the fragment is verbatim and whole otherwise,
and neighbouring parts are merged.

## Main definitions

* `Fragment.part`, `Fragment.parts`: the parts of fragments that lie in an interval.
* `Span.Tiles`: spans that follow one another without a gap and make up a longer one.

## Main statements

* `InverseIndex.ranges_ofFragments`: the spans of an interval are the merged parts.
* `Span.merge_induction`: what touching spans share with their cover holds of merged spans.
* `Span.merge_cons_merge`: merging in two steps comes to the same.
* `Span.merge_tiles`: spans that make up a longer one are merged to it.
-/

namespace RegexAudit

namespace Fragment

@[simp] theorem join_nil : join [] = [] := rfl

@[simp] theorem join_cons (f : Fragment) (fs : List Fragment) :
    join (f :: fs) = f.normalized ++ join fs := rfl

@[simp] theorem join_append (fs gs : List Fragment) : join (fs ++ gs) = join fs ++ join gs :=
  List.flatMap_append

theorem width_join_cons (f : Fragment) (fs : List Fragment) :
    Text.width (join (f :: fs)) = f.size + Text.width (join fs) := by
  rw [join_cons, Text.width_append, Fragment.size]

/-- The part of a fragment that lies between the offsets `lo` and `hi` of the joined text, where
the fragment starts at `start`. There is none when the fragment does not meet the interval. -/
def part (lo hi start : Nat) (f : Fragment) : List Span :=
  if max lo start < min hi (start + f.size) then
    [if f.size = f.range.length then
      ⟨f.range.start + (max lo start - start), f.range.start + (min hi (start + f.size) - start)⟩
    else f.range]
  else []

/-- A fragment as long as its spelling is cut byte for byte. -/
theorem part_of_verbatim {f : Fragment} (h : f.size = f.range.length) (lo hi start : Nat) :
    part lo hi start f =
      if max lo start < min hi (start + f.size) then
        [⟨f.range.start + (max lo start - start),
          f.range.start + (min hi (start + f.size) - start)⟩]
      else [] := by
  rw [part, if_pos h]

/-- The parts of some fragments between two offsets, where the first fragment starts at `start`. -/
def parts (lo hi : Nat) (start : Nat) : List Fragment → List Span
  | [] => []
  | f :: fs => part lo hi start f ++ parts lo hi (start + f.size) fs

theorem parts_append (lo hi start : Nat) (fs gs : List Fragment) :
    parts lo hi start (fs ++ gs) =
      parts lo hi start fs ++ parts lo hi (start + Text.width (join fs)) gs := by
  induction fs generalizing start with
  | nil => rfl
  | cons f fs ih => simp [parts, ih, Fragment.size, Nat.add_assoc]

/-- Fragments that do not meet the interval have no part in it. -/
theorem parts_eq_nil {lo hi start : Nat} {fs : List Fragment}
    (h : min hi (start + Text.width (join fs)) ≤ max lo start) : parts lo hi start fs = [] := by
  induction fs generalizing start with
  | nil => rfl
  | cons f fs ih =>
    have hwidth := width_join_cons f fs
    have hf : ¬ max lo start < min hi (start + f.size) := by omega
    have hrest : parts lo hi (start + f.size) fs = [] := ih (by omega)
    simp [parts, part, hf, hrest]

/-- Where an interval begins makes no difference to the fragments behind that place. -/
theorem parts_of_lo_le {lo lo' hi start : Nat} (h : lo ≤ start) (h' : lo' ≤ start)
    (fs : List Fragment) : parts lo hi start fs = parts lo' hi start fs := by
  induction fs generalizing start with
  | nil => rfl
  | cons f fs ih =>
    have hmax : max lo start = max lo' start := by omega
    have hrest : parts lo hi (start + f.size) fs = parts lo' hi (start + f.size) fs :=
      ih (by omega) (by omega)
    rw [parts, parts, hrest]
    simp only [part, hmax]

/-- The parts of fragments with ordered spans are ordered. -/
theorem parts_ordered {lo hi start : Nat} {fs : List Fragment}
    (h : ∀ f ∈ fs, f.range.start ≤ f.range.stop) :
    ∀ s ∈ parts lo hi start fs, s.start ≤ s.stop := by
  induction fs generalizing start with
  | nil => simp [parts]
  | cons f fs ih =>
    obtain ⟨hf, hfs⟩ := List.forall_mem_cons.1 h
    intro s hs
    rcases List.mem_append.1 hs with hs | hs
    · unfold part at hs
      split at hs
      · rw [List.mem_singleton] at hs
        subst hs
        split
        · dsimp only
          omega
        · exact hf
      · simp at hs
    · exact ih hfs s hs

/-- Fragments that lie in the interval have all of their spans in it. -/
theorem parts_whole {lo hi start : Nat} {fs : List Fragment}
    (h : ∀ f ∈ fs, 0 < f.size ∧ f.range.start ≤ f.range.stop) (hlo : lo ≤ start)
    (hhi : start + Text.width (join fs) ≤ hi) : parts lo hi start fs = fs.map (·.range) := by
  induction fs generalizing start with
  | nil => rfl
  | cons f fs ih =>
    obtain ⟨⟨hsize, hordered⟩, hfs⟩ := List.forall_mem_cons.1 h
    have hwidth := width_join_cons f fs
    have hmax : max lo start = start := by omega
    have hmin : min hi (start + f.size) = start + f.size := by omega
    have hlt : start < start + f.size := by omega
    have hpart : f.part lo hi start = [f.range] := by
      simp only [part, hmax, hmin, if_pos hlt, Nat.sub_self, Nat.add_zero,
        Nat.add_sub_cancel_left]
      split
      · next hlen =>
        have hstop : f.range.start + f.size = f.range.stop := by
          rw [hlen, Span.length]
          omega
        rw [hstop]
      · rfl
    rw [parts, hpart, ih hfs (by omega) (by omega)]
    rfl

/-- The parts in an interval that begins and ends with fragments are the spans of these. -/
theorem parts_between {before within : List Fragment} (after : List Fragment)
    (h : ∀ f ∈ within, 0 < f.size ∧ f.range.start ≤ f.range.stop) :
    parts (Text.width (join before)) (Text.width (join (before ++ within))) 0
      (before ++ within ++ after) = within.map (·.range) := by
  have hjoin : Text.width (join (before ++ within)) =
      Text.width (join before) + Text.width (join within) := by
    rw [join_append, Text.width_append]
  generalize hlo : Text.width (join before) = lo at hjoin ⊢
  generalize hhi : Text.width (join (before ++ within)) = hi at hjoin ⊢
  -- What stands in front of the interval and behind it has no part in it.
  have hbefore : parts lo hi 0 before = [] := parts_eq_nil (by omega)
  have hafter : parts lo hi (0 + hi) after = [] := parts_eq_nil (by omega)
  have hwithin : parts lo hi (0 + lo) within = within.map (·.range) :=
    parts_whole h (by omega) (by omega)
  rw [parts_append, hhi, hafter, List.append_nil, parts_append, hlo, hbefore, hwithin,
    List.nil_append]

end Fragment

namespace Span

/-- The least span over two that touch. -/
theorem cover_of_touch {s t : Span} (hs : s.start ≤ s.stop) (ht : t.start ≤ t.stop)
    (h : s.stop = t.start) : s.cover t = ⟨s.start, t.stop⟩ := by
  simp only [Span.cover, Span.mk.injEq]
  omega

theorem cover_ordered {s t : Span} (hs : s.start ≤ s.stop) (ht : t.start ≤ t.stop)
    (h : s.stop = t.start) : (s.cover t).start ≤ (s.cover t).stop := by
  rw [cover_of_touch hs ht h]
  dsimp only
  omega

theorem merge_cons_of_touch {s t : Span} (h : s.stop = t.start) (rest : List Span) :
    merge (s :: t :: rest) = merge (s.cover t :: rest) := by
  rw [merge, if_pos h]

theorem merge_cons_of_not_touch {s t : Span} (h : s.stop ≠ t.start) (rest : List Span) :
    merge (s :: t :: rest) = s :: merge (t :: rest) := by
  rw [merge, if_neg h]

/-- What holds of the cover of two touching spans when it holds of both holds of merged spans. -/
theorem merge_induction {P : Span → Prop}
    (hcover : ∀ s t : Span, P s → P t → s.stop = t.start → P (s.cover t)) {spans : List Span}
    (h : ∀ s ∈ spans, P s) : ∀ s ∈ merge spans, P s := by
  fun_induction merge spans with
  | case1 => simp
  | case2 s => exact h
  | case3 s t rest htouch ih =>
    obtain ⟨hs, h⟩ := List.forall_mem_cons.1 h
    obtain ⟨ht, hrest⟩ := List.forall_mem_cons.1 h
    exact ih (List.forall_mem_cons.2 ⟨hcover s t hs ht htouch, hrest⟩)
  | case4 s t rest htouch ih =>
    obtain ⟨hs, h⟩ := List.forall_mem_cons.1 h
    exact List.forall_mem_cons.2 ⟨hs, ih h⟩

/-- Merging what is already merged behind a span comes to the same. -/
theorem merge_cons_merge {s : Span} {xs : List Span} (hs : s.start ≤ s.stop)
    (hxs : ∀ t ∈ xs, t.start ≤ t.stop) : merge (s :: merge xs) = merge (s :: xs) := by
  fun_induction merge xs generalizing s with
  | case1 => rfl
  | case2 t => rfl
  | case3 t u rest htouch ih =>
    obtain ⟨ht, hrest⟩ := List.forall_mem_cons.1 hxs
    obtain ⟨hu, hrest⟩ := List.forall_mem_cons.1 hrest
    have htu := cover_of_touch ht hu htouch
    have hcover := cover_ordered ht hu htouch
    rw [ih hs]
    · by_cases hst : s.stop = t.start
      · have hsu : (s.cover t).stop = u.start := by rw [cover_of_touch hs ht hst]; exact htouch
        have hsc : s.stop = (t.cover u).start := by rw [htu]; exact hst
        rw [merge_cons_of_touch hst, merge_cons_of_touch hsu, merge_cons_of_touch hsc]
        congr 2
        simp only [Span.cover, Nat.min_assoc, Nat.max_assoc]
      · have hsc : s.stop ≠ (t.cover u).start := by rw [htu]; exact hst
        rw [merge_cons_of_not_touch hst, merge_cons_of_not_touch hsc, merge_cons_of_touch htouch]
    · exact List.forall_mem_cons.2 ⟨hcover, hrest⟩
  | case4 t u rest htouch ih =>
    obtain ⟨ht, hrest⟩ := List.forall_mem_cons.1 hxs
    by_cases hst : s.stop = t.start
    · have hcover := cover_ordered hs ht hst
      rw [merge_cons_of_touch hst, merge_cons_of_touch hst, ih hcover hrest]
    · rw [merge_cons_of_not_touch hst, merge_cons_of_not_touch hst, ih ht hrest,
        merge_cons_of_not_touch htouch]

/-- What merges alike merges alike behind a span. -/
theorem merge_cons_congr {s : Span} {xs ys : List Span} (hs : s.start ≤ s.stop)
    (hxs : ∀ t ∈ xs, t.start ≤ t.stop) (hys : ∀ t ∈ ys, t.start ≤ t.stop)
    (h : merge xs = merge ys) : merge (s :: xs) = merge (s :: ys) := by
  rw [← merge_cons_merge hs hxs, h, merge_cons_merge hs hys]

/-- Spans that follow one another without a gap and make up a longer one. -/
inductive Tiles : Span → List Span → Prop
  | single {s : Span} : s.start ≤ s.stop → Tiles s [s]
  | cons {s t : Span} {ts : List Span} :
      s.start ≤ s.stop → s.stop = t.start → Tiles t ts → Tiles ⟨s.start, t.stop⟩ (s :: ts)

theorem Tiles.ordered {s : Span} {ts : List Span} (h : Tiles s ts) : s.start ≤ s.stop := by
  induction h with
  | single h => exact h
  | cons hs htouch _ ih => dsimp only; omega

theorem Tiles.ordered_of_mem {s t : Span} {ts : List Span} (h : Tiles s ts) (ht : t ∈ ts) :
    t.start ≤ t.stop := by
  induction h with
  | single h =>
    rw [List.mem_singleton] at ht
    rwa [ht]
  | cons hs _ _ ih =>
    rcases List.mem_cons.1 ht with rfl | ht
    · exact hs
    · exact ih ht

/-- Spans that make up a longer one are merged to it. -/
theorem merge_tiles {s : Span} {ts ys : List Span} (h : Tiles s ts)
    (hys : ∀ t ∈ ys, t.start ≤ t.stop) : merge (ts ++ ys) = merge (s :: ys) := by
  induction h with
  | single => rfl
  | @cons s t ts hs htouch htiles ih =>
    have ht := htiles.ordered
    have hall : ∀ v ∈ ts ++ ys, v.start ≤ v.stop := by
      intro v hv
      rcases List.mem_append.1 hv with hv | hv
      · exact htiles.ordered_of_mem hv
      · exact hys v hv
    have hcons : ∀ v ∈ t :: ys, v.start ≤ v.stop := List.forall_mem_cons.2 ⟨ht, hys⟩
    calc merge (s :: ts ++ ys)
        = merge (s :: t :: ys) := merge_cons_congr hs hall hcons ih
      _ = merge (s.cover t :: ys) := merge_cons_of_touch htouch ys
      _ = merge (⟨s.start, t.stop⟩ :: ys) := by rw [cover_of_touch hs ht htouch]

end Span

namespace Fragment

/-- The fragment `f` can be replaced by the fragments `gs`: they have the same text, and whatever
part of `f` lies in an interval is made up of their parts. -/
structure Refines (f : Fragment) (gs : List Fragment) : Prop where
  text : f.normalized = join gs
  ordered : f.range.start ≤ f.range.stop ∧ ∀ g ∈ gs, g.range.start ≤ g.range.stop
  parts : ∀ lo hi start, f.part lo hi start = [] ∧ parts lo hi start gs = [] ∨
    ∃ s, f.part lo hi start = [s] ∧ Span.Tiles s (Fragment.parts lo hi start gs)

/-- A fragment with an ordered span refines itself. -/
theorem refines_self {f : Fragment} (h : f.range.start ≤ f.range.stop) : Refines f [f] := by
  refine ⟨by simp, ⟨h, by simpa using h⟩, ?_⟩
  intro lo hi start
  have hone : parts lo hi start [f] = f.part lo hi start := by simp [parts]
  have hordered : ∀ s ∈ parts lo hi start [f], s.start ≤ s.stop := parts_ordered (by simpa using h)
  rw [hone] at hordered ⊢
  by_cases hmeets : max lo start < min hi (start + f.size)
  · right
    simp only [part, if_pos hmeets] at hordered ⊢
    exact ⟨_, rfl, .single (hordered _ (by simp))⟩
  · left
    simp only [part, if_neg hmeets, and_self]

variable {ι : Type} {f : ι → Fragment} {g : ι → List Fragment}

/-- Refining the fragments of a list keeps the joined text. -/
theorem join_of_refines {l : List ι} (h : ∀ i ∈ l, Refines (f i) (g i)) :
    join (l.map f) = join (l.flatMap g) := by
  induction l with
  | nil => rfl
  | cons i l ih =>
    obtain ⟨hi, hl⟩ := List.forall_mem_cons.1 h
    rw [List.map_cons, List.flatMap_cons, join_cons, join_append, hi.text, ih hl]

/-- Refining the fragments of a list keeps the merged parts in every interval. -/
theorem merge_parts_of_refines {l : List ι} (h : ∀ i ∈ l, Refines (f i) (g i))
    (lo hi start : Nat) :
    Span.merge (parts lo hi start (l.map f)) = Span.merge (parts lo hi start (l.flatMap g)) := by
  induction l generalizing start with
  | nil => rfl
  | cons i l ih =>
    obtain ⟨hi', hl⟩ := List.forall_mem_cons.1 h
    have hcoarse : ∀ s ∈ parts lo hi (start + (f i).size) (l.map f), s.start ≤ s.stop := by
      refine parts_ordered ?_
      intro a ha
      obtain ⟨j, hj, rfl⟩ := List.mem_map.1 ha
      exact (hl j hj).ordered.1
    have hfine : ∀ s ∈ parts lo hi (start + (f i).size) (l.flatMap g), s.start ≤ s.stop := by
      refine parts_ordered ?_
      intro a ha
      obtain ⟨j, hj, ha⟩ := List.mem_flatMap.1 ha
      exact (hl j hj).ordered.2 a ha
    rw [List.map_cons, List.flatMap_cons, parts_append, parts, ← hi'.text, ← Fragment.size]
    rcases hi'.parts lo hi start with ⟨hpart, hparts⟩ | ⟨s, hpart, htiles⟩
    · rw [hpart, hparts]
      exact ih hl _
    · rw [hpart, Span.merge_tiles htiles hfine]
      exact Span.merge_cons_congr htiles.ordered hcoarse hfine (ih hl _)

end Fragment

namespace Boundary

/-- The clipped span of a fragment that meets the interval is its part. -/
theorem clip_ofFragment {lo hi start : Nat} (f : Fragment)
    (h : max lo start < min hi (start + f.size)) :
    [(ofFragment start f).clip (max lo start - start) (min hi (start + f.size) - start)] =
      f.part lo hi start := by
  simp only [Fragment.part, if_pos h, Boundary.clip, Boundary.ofFragment, beq_iff_eq]

theorem takeWhile_start_le_nil {offset start : Nat} (h : offset < start) (fs : List Fragment) :
    (ofFragments start fs).takeWhile (·.start ≤ offset) = [] := by
  cases fs with
  | nil => rfl
  | cons f fs => simp [ofFragments, ofFragment, h]

theorem takeWhile_start_lt_nil {offset start : Nat} (h : offset ≤ start) (fs : List Fragment) :
    (ofFragments start fs).takeWhile (·.start < offset) = [] := by
  cases fs with
  | nil => rfl
  | cons f fs => simp [ofFragments, ofFragment, h]

end Boundary

namespace InverseIndex

/-- The walk over an interval that ends in the first fragment. -/
theorem walk_of_hi_le {lo hi start : Nat} {f : Fragment} (fs : List Fragment)
    (hstart : start ≤ lo) (hlt : lo < hi) (hhi : hi ≤ start + f.size) :
    walk lo hi ((Boundary.ofFragments (start + f.size) fs).takeWhile (·.start < hi)).length
        (Boundary.ofFragments start (f :: fs)) =
      Fragment.parts lo hi start (f :: fs) := by
  have hmax : max lo start = lo := by omega
  have hmin : min hi (start + f.size) = hi := by omega
  have hclip := Boundary.clip_ofFragment f (show max lo start < min hi (start + f.size) by omega)
  rw [Boundary.takeWhile_start_lt_nil hhi, Fragment.parts, Fragment.parts_eq_nil (by omega),
    ← hclip, hmax, hmin]
  rfl

/-- The walk from an offset in the first fragment to the end of the interval yields the parts. -/
theorem walk_ofFragments {lo hi start : Nat} {f : Fragment} {fs : List Fragment}
    (hpos : ∀ g ∈ f :: fs, 0 < g.size) (hstart : start ≤ lo) (hlo : lo < start + f.size)
    (hlt : lo < hi) (hhi : hi ≤ start + Text.width (Fragment.join (f :: fs))) :
    walk lo hi ((Boundary.ofFragments (start + f.size) fs).takeWhile (·.start < hi)).length
        (Boundary.ofFragments start (f :: fs)) =
      Fragment.parts lo hi start (f :: fs) := by
  induction fs generalizing f start lo with
  | nil =>
    refine walk_of_hi_le [] hstart hlt ?_
    simpa [Fragment.size] using hhi
  | cons g gs ih =>
    by_cases hend : hi ≤ start + f.size
    · exact walk_of_hi_le (g :: gs) hstart hlt hend
    · -- The first fragment is taken up to its end, and the walk goes on from there.
      have hg : 0 < g.size := hpos g (by simp)
      have hmax : max lo start = lo := by omega
      have hmin : min hi (start + f.size) = start + f.size := by omega
      have hclip := Boundary.clip_ofFragment f
        (show max lo start < min hi (start + f.size) by omega)
      have hnext : start + f.size < hi := by omega
      have htake : (Boundary.ofFragments (start + f.size) (g :: gs)).takeWhile (·.start < hi) =
          Boundary.ofFragment (start + f.size) g ::
            (Boundary.ofFragments (start + f.size + g.size) gs).takeWhile (·.start < hi) := by
        simp [Boundary.ofFragments, Boundary.ofFragment, hnext]
      have hhi' : hi ≤ start + f.size + Text.width (Fragment.join (g :: gs)) := by
        simpa [Fragment.size, Nat.add_assoc] using hhi
      have hrest := ih (fun h hh => hpos h (List.mem_cons_of_mem f hh)) (Nat.le_refl _)
        (by omega) hnext hhi'
      rw [htake, Fragment.parts, Fragment.parts_of_lo_le (by omega) (Nat.le_refl _), ← hclip, hmax,
        hmin, ← hrest, Nat.add_sub_cancel_left]
      simp [Boundary.ofFragments, walk, Boundary.ofFragment]

/-- The walk from the last boundary at the start of the interval to the last boundary before its
end yields the parts of the fragments. -/
theorem walk_slots {lo hi start : Nat} {fs : List Fragment} (hpos : ∀ f ∈ fs, 0 < f.size)
    (hstart : start ≤ lo) (hlt : lo < hi) (hhi : hi ≤ start + Text.width (Fragment.join fs)) :
    ∃ first last,
      ((Boundary.ofFragments start fs).takeWhile (·.start ≤ lo)).length = first + 1 ∧
      ((Boundary.ofFragments start fs).takeWhile (·.start < hi)).length = last + 1 ∧
      walk lo hi (last - first) ((Boundary.ofFragments start fs).drop first) =
        Fragment.parts lo hi start fs := by
  induction fs generalizing start with
  | nil =>
    simp only [Fragment.join_nil, Text.width_nil, Nat.add_zero] at hhi
    omega
  | cons f fs ih =>
    have hle : (Boundary.ofFragments start (f :: fs)).takeWhile (·.start ≤ lo) =
        Boundary.ofFragment start f ::
          (Boundary.ofFragments (start + f.size) fs).takeWhile (·.start ≤ lo) := by
      simp [Boundary.ofFragments, Boundary.ofFragment, hstart]
    have hltTake : (Boundary.ofFragments start (f :: fs)).takeWhile (·.start < hi) =
        Boundary.ofFragment start f ::
          (Boundary.ofFragments (start + f.size) fs).takeWhile (·.start < hi) := by
      have : start < hi := by omega
      simp [Boundary.ofFragments, Boundary.ofFragment, this]
    rw [hle, hltTake]
    by_cases hin : lo < start + f.size
    · refine ⟨0, _, ?_, rfl, ?_⟩
      · rw [Boundary.takeWhile_start_le_nil hin]
        rfl
      · exact walk_ofFragments hpos hstart hin hlt hhi
    · have hnone : Fragment.part lo hi start f = [] := by
        have : ¬ max lo start < min hi (start + f.size) := by omega
        simp [Fragment.part, this]
      have hhi' : hi ≤ start + f.size + Text.width (Fragment.join fs) := by
        simpa [Fragment.size, Nat.add_assoc] using hhi
      obtain ⟨first, last, hfirst, hlast, hwalk⟩ :=
        ih (fun g hg => hpos g (List.mem_cons_of_mem f hg)) (by omega) hhi'
      refine ⟨first + 1, last + 1, by simp [hfirst], by simp [hlast], ?_⟩
      rw [Fragment.parts, hnone, List.nil_append, ← hwalk, Nat.add_sub_add_right]
      rfl

/-- The spans of an interval are the merged parts of the fragments that it meets. -/
theorem ranges_ofFragments {fs : List Fragment} (hpos : ∀ f ∈ fs, 0 < f.size) (lo hi : Nat) :
    (ofFragments fs).ranges lo hi =
      Span.merge (Fragment.parts lo (min hi (Text.width (Fragment.join fs))) 0 fs) := by
  unfold ranges
  by_cases hle : min hi (Text.width (Fragment.join fs)) ≤ lo
  · have hnil : Fragment.parts lo (min hi (Text.width (Fragment.join fs))) 0 fs = [] :=
      Fragment.parts_eq_nil (by omega)
    rw [hnil, Span.merge]
    exact if_pos hle
  · obtain ⟨first, last, hfirst, hlast, hwalk⟩ := walk_slots hpos (Nat.zero_le lo)
      (Nat.lt_of_not_le hle) (by omega)
    have hat : (ofFragments fs).slotAt? lo = some first := by
      simp only [slotAt?, ofFragments, hfirst]
    have hbefore : (ofFragments fs).slotBefore? (min hi (ofFragments fs).length) = some last := by
      unfold slotBefore?
      exact hlast ▸ rfl
    rw [← hwalk]
    simp only [hat, hbefore]
    exact if_neg hle

end InverseIndex

end RegexAudit
