import RegexAudit.Proofs.Audit.Sites
import RegexAudit.Proofs.Pattern.Boundaries
import RegexAudit.Proofs.Pattern.Slicing

/-!
# The index of an analysed call

The fragments of an analysed call are entries of literals, so none of them is empty, and an index
can be built of them. A boundary is marked as verbatim when the fragment is as long as its
spelling, and among the spellings of a backslash only the normalized one is.

## Main definitions

* `Boundary.Marks`: a boundary tells of a fragment where it stands and where it ends.

## Main statements

* `Fragment.StandsIn.verbatim_iff`: a fragment as long as its spelling is its spelling.
* `Auditor.index_of_site?`: the index of an analysed call.
-/

namespace RegexAudit

open Script

namespace Fragment

variable {source text : List Char} {f : Fragment}

/-- Of the spellings of a backslash only one takes two bytes. -/
theorem SpellsBackslash.eq_of_width (h : SpellsBackslash text) (hwidth : Text.width text = 2) :
    text = escapedBackslash := by
  rcases h with rfl | hescape
  · cases hwidth
  · obtain ⟨spelling, hspells, rfl⟩ := Decoded.exists_escape?_iff.1 hescape
    rw [List.append_nil] at hwidth ⊢
    cases hspells with
    | @letter letter _ hletter =>
      unfold Escape.ofLetter? at hletter
      split at hletter <;> simp_all [escapedBackslash]
    | unicode hdigits hvalue =>
      rw [Text.width_cons, Text.width_cons, hdigits] at hwidth
      cases hwidth

theorem StandsIn.length_range (h : f.StandsIn source) : f.range.length = Text.width f.text := by
  obtain ⟨before, after, -, hstart, hstop⟩ := Text.slice?_eq_some_iff.1 h.slice
  rw [Text.width_append, hstart] at hstop
  rw [Span.length, ← hstop, Nat.add_sub_cancel_left]

/-- A fragment as long as its spelling is its spelling. -/
theorem StandsIn.verbatim_iff (h : f.StandsIn source) :
    f.size = f.range.length ↔ f.normalized = f.text := by
  rw [h.length_range]
  cases hbackslash : f.isBackslash with
  | false => simp [size, normalized, hbackslash]
  | true =>
    have hnormalized : f.normalized = escapedBackslash := by simp [normalized, hbackslash]
    rw [size, hnormalized]
    constructor
    · intro hwidth
      exact ((h.backslash.1 hbackslash).eq_of_width hwidth.symm).symm
    · intro htext
      rw [htext]

end Fragment

/-- The boundary tells where in the source the fragment stands and where in the joined text it ends,
and is marked as verbatim if the source has there what the fragment contributes. -/
structure Boundary.Marks (source : List Char) (stop : Nat) (f : Fragment) (b : Boundary) :
    Prop where
  range : b.range = f.range
  stop : b.start + Text.width f.normalized = stop
  covers : Text.slice? source b.range = some f.text
  verbatim : b.verbatim = true ↔ Text.slice? source b.range = some f.normalized

theorem Fragment.StandsIn.marks {source : List Char} {fragments : List Fragment} {f : Fragment}
    {i : Nat} (h : f.StandsIn source) (hf : fragments[i]? = some f) :
    (Boundary.ofFragment (startOf fragments i) f).Marks source
      ((InverseIndex.ofFragments fragments).stopOf i) f := by
  refine ⟨rfl, ?_, h.slice, ?_⟩
  · rw [InverseIndex.stopOf_ofFragments (List.getElem?_eq_some_iff.1 hf).1, startOf_succ hf]
    rfl
  · rw [Boundary.ofFragment, beq_iff_eq, h.verbatim_iff, h.slice, Option.some.injEq, eq_comm]

namespace Auditor

section Sites

variable {file : String} {source : List Char} {script : Script} {registry : Registry}
  {checks : List EnabledCheck} {call : Call} {site : Site}

/-- The index of an analysed call passes all checks. Its first boundary is at zero and each of the
others lies behind the one before it. There is one boundary for each fragment, which ends where the
next one begins, or with the joined text, and is marked as verbatim exactly if the source has at its
span what it contributes. -/
theorem index_of_site? (hscript : Script.ofSource source = .ok script)
    (hcall : call ∈ script.calls)
    (hsite : (ofScript file source script registry checks).site? call = some site) :
    let index := InverseIndex.ofFragments site.fragments
    InverseIndex.checked? site.fragments = some index ∧
      index.boundaries.head?.map (·.start) = some 0 ∧
      index.boundaries.Pairwise (fun b b' => b.start < b'.start) ∧
      index.boundaries.length = site.fragments.length ∧
      ∀ (i : Nat) (f : Fragment), site.fragments[i]? = some f →
        ∃ b : Boundary, index.boundaries[i]? = some b ∧ b.Marks source (index.stopOf i) f := by
  intro index
  obtain ⟨-, -, -, -, -, hne, -⟩ := site?_eq_some_iff.1 hsite
  have hsize := size_pos_of_site? hscript hcall hsite
  refine ⟨InverseIndex.checked?_eq_some_iff.2 ⟨⟨hne, hsize⟩, rfl⟩, ?_,
    InverseIndex.boundaries_increasing hsize, InverseIndex.length_boundaries _, ?_⟩
  · have hfirst := List.getElem?_eq_getElem (List.length_pos_iff.2 hne)
    rw [List.head?_eq_getElem?, InverseIndex.getElem?_boundaries, hfirst]
    simp [Boundary.ofFragment]
  · intro i f hf
    have hstands := standsIn_of_site? hscript hcall hsite f (List.mem_of_getElem? hf)
    refine ⟨_, ?_, hstands.marks hf⟩
    rw [InverseIndex.getElem?_boundaries, hf]
    rfl

end Sites

namespace Digit

/-- The source `Regex("""\d""")`. -/
def source : List Char :=
  ['R', 'e', 'g', 'e', 'x', '(', '"', '"', '"', '\\', 'd', '"', '"', '"', ')']

/-- The argument of the call. -/
def argument : Expr :=
  .string ⟨6, 14⟩ ⟨true, [⟨.escape '\\', ['\\'], ⟨9, 10⟩⟩, ⟨.literal, ['d'], ⟨10, 11⟩⟩]⟩

/-- The call. -/
def call : Call := ⟨.name ⟨0, 5⟩ "Regex", [argument]⟩

/-- The script of the source. -/
def script : Script := ⟨[.expression (.call ⟨0, 15⟩ call.callee call.args)]⟩

/-- The fragments of the call: a backslash, which is normalized, and a letter. -/
def fragments : List Fragment := [⟨['\\'], ⟨9, 10⟩, true⟩, ⟨['d'], ⟨10, 11⟩, false⟩]

theorem ofSource_source : Script.ofSource source = .ok script := by
  with_unfolding_all rfl

theorem site?_call :
    (ofScript "digit" source script .builtin []).site? call = some ⟨call, fragments, .none⟩ :=
  site?_regex rfl ⟨0, 5⟩ ⟨6, 14⟩ rfl (by simp [fragments])

end Digit

/-- A backslash between raw quotes is one byte of the source and two of the joined text. -/
theorem index_of_site?_digit :
    (ofScript "digit" Digit.source Digit.script .builtin []).site? Digit.call =
        some ⟨Digit.call, Digit.fragments, .none⟩ ∧
      InverseIndex.checked? Digit.fragments = some (.ofFragments Digit.fragments) ∧
      ∃ b : Boundary, (InverseIndex.ofFragments Digit.fragments).boundaries[0]? = some b ∧
        b.Marks Digit.source 2 ⟨['\\'], ⟨9, 10⟩, true⟩ ∧ b.verbatim = false := by
  have hcall : Digit.call ∈ Digit.script.calls := List.mem_singleton.2 rfl
  obtain ⟨hchecked, -, -, -, hmarks⟩ :=
    index_of_site? Digit.ofSource_source hcall Digit.site?_call
  obtain ⟨b, hb, hmarked⟩ := hmarks 0 _ rfl
  refine ⟨Digit.site?_call, hchecked, b, hb, hmarked, ?_⟩
  rw [← Option.some.inj hb]
  rfl

end Auditor

end RegexAudit
