import RegexAudit.Proofs.Regex.Brackets

/-!
# Rounds of reading

What one round of reading a pattern does to the state, said once for all that holds of every state.

## Main definitions

* `State.Steps`: what a step can come to.
* `State.Round`: a step with what is ignored before it.

## Main statements

* `State.step_moves`: a step comes to one of these.
* `State.read_invariant`: what every round keeps holds at the end.
-/

namespace RegexAudit

namespace Regex

theorem Tree.preorderAll_eq_flatMap (trees : List Tree) :
    preorderAll trees = trees.flatMap preorder := by
  induction trees with
  | nil => rw [preorderAll, List.flatMap_nil]
  | cons tree trees ih => rw [preorderAll, List.flatMap_cons, ih]

/-- A node that has no parts and is no class. -/
def Tree.IsLeaf : Tree → Prop
  | .empty _ | .flags .. | .literal .. | .dot _ | .assertion .. | .predefined _ => True
  | _ => False

/-- The item that can be repeated is the last one. -/
theorem Level.popRepeatable?_eq_some {level rest : Level} {item : Tree}
    (h : level.popRepeatable? = some (item, rest)) :
    ∃ items, level.items = item :: items ∧ rest = { level with items } := by
  unfold popRepeatable? at h
  split at h
  · cases h
  · cases h
  · next item items _ hitems =>
    cases h
    exact ⟨items, hitems, rfl⟩

/-- What fits the end and what holds of any value that is yielded. -/
theorem Reader.moves_yielding {α : Type} {r : Regex.Reader α} {start : Nat} {fits : α → Nat → Prop}
    {property : α → Prop} (h : r.Moves start fits) (hr : Reader.Yields r property) :
    r.Moves start fun a stop => fits a stop ∧ property a :=
  ⟨fun hrun hstart => (h.of_run hrun hstart).imp_right (⟨·, hr.of_run hrun⟩)⟩

/-- What a step can come to that begins with the character `ch` at `start` and ends at `stop`. -/
inductive State.Steps (ch : Char) (start stop : Nat) (st : State) : State → Prop
  | leaf (t : Tree) : t.IsLeaf → t.span = ⟨start, stop⟩ → Steps ch start stop st (st.push t)
  | bracketed (t : Tree) : t.IsClass start stop → t.IsForward → Steps ch start stop st (st.push t)
  | repetition (t : Tree) (level : Level) : st.level.popRepeatable? = some (t, level) →
      Steps ch start stop st
        { st with level := level.push (.repetition ⟨t.span.start, stop⟩ ⟨start, stop⟩ t) }
  | bar : ch = '|' → stop = start + 1 →
      Steps ch start stop st { st with level := st.level.addBranch start }
  | setFlags (items : List FlagItem) (ws : Bool) :
      Steps ch start stop st
        { st with level := { st.level.push (.flags ⟨start, stop⟩ items) with ws } }
  | openGroup (kind : GroupKind) (ws : Bool) (names : List (List Char)) :
      Steps ch start stop st ⟨.fresh ws stop, ⟨start, kind, st.level⟩ :: st.frames, names⟩
  | closeGroup (frame : Frame) (frames : List Frame) : st.frames = frame :: frames →
      stop = start + 1 →
      Steps ch start stop st
        { st with
          level := frame.outer.push
            (.group ⟨frame.opener, stop⟩ frame.kind (st.level.tree start))
          frames }

namespace State

open RegexAudit.Reader RegexAudit.Regex.Reader

variable {st : State} {start here : Nat} {ch : Char}

theorem repetition_moves {operator : Regex.Reader Span}
    (h : operator.Moves here fun span stop => span = ⟨start, stop⟩) :
    (st.repetition start operator).Moves here fun st' stop => st.Steps ch start stop st' := by
  unfold repetition
  split
  · exact moves_fail
  · next item level hpop =>
    refine h.bind ?_
    rintro _ stop rfl
    exact moves_pure (.repetition item level hpop)

theorem openGroup_moves :
    (st.openGroup start).Moves here fun st' stop => st.Steps ch start stop st' := by
  refine movesOn_opening.then fun opening stop => ?_
  cases opening with
  | setFlags items => exact moves_offset_then (moves_pure (.setFlags items _))
  | group kind => exact moves_offset_then (moves_pure (.openGroup kind _ _))

theorem closeGroup_moves :
    (st.closeGroup start).Moves (start + 1) fun st' stop => st.Steps ch start stop st' := by
  unfold closeGroup
  split
  · exact moves_fail
  · next frame frames hframes => exact moves_pure (.closeGroup frame frames hframes rfl)

/-- A step comes to one of these. -/
theorem step_moves :
    (st.step start ch).Moves (start + ch.utf8Size) fun st' stop => st.Steps ch start stop st' := by
  unfold step
  split
  · exact openGroup_moves
  · exact closeGroup_moves
  · exact moves_pure (.bar rfl rfl)
  · refine (moves_yielding (bracketed_moves (Nat.lt_succ_self start)) bracketed_yields).bind ?_
    rintro t stop ⟨ht, hforward⟩
    exact moves_pure (.bracketed t ht hforward)
  · exact repetition_moves uncounted_moves
  · exact repetition_moves uncounted_moves
  · exact repetition_moves uncounted_moves
  · exact repetition_moves counted_moves
  · refine escape_moves.bind fun p stop hp => moves_pure (.leaf p.tree ?_ ?_)
    · cases p <;> trivial
    · cases p <;> exact hp
  · exact moves_pure (.leaf _ trivial rfl)
  · exact moves_pure (.leaf _ trivial rfl)
  · exact moves_pure (.leaf _ trivial rfl)
  · exact moves_pure (.leaf _ trivial rfl)

/-- A round of reading: what may be ignored is passed over, and the next character decides what the
step comes to. -/
structure Round (st : State) (here : Cursor) (ch : Char) (st' : State) (there : Cursor) :
    Prop where
  reads : ∃ cs, (here.skipTrivia st.level.ws).rest = ch :: cs ∧
    ((here.skipTrivia st.level.ws).past [ch] cs).Reaches there
  steps : st.Steps ch (here.skipTrivia st.level.ws).offset there.offset st'

namespace Round

variable {here there : Cursor} {st' : State}

/-- A round moves over the character that decides it. -/
theorem offset_lt (h : st.Round here ch st' there) :
    (here.skipTrivia st.level.ws).offset < there.offset := by
  obtain ⟨cs, -, hreach⟩ := h.reads
  have hle := hreach.offset_le
  have hpos := ch.utf8Size_pos
  simp only [Cursor.past, Text.width_cons, Text.width_nil] at hle
  omega

theorem in_source {s : List Char} (h : st.Round here ch st' there) (hhere : here.In s) :
    there.In s := by
  obtain ⟨cs, hrest, hreach⟩ := h.reads
  have hskip := (Cursor.reaches_skipTrivia st.level.ws here).in_source hhere
  exact hreach.in_source ((@Cursor.reaches_past _ [ch] _ hrest).in_source hskip)

end Round

/-- What holds of a state and a place and is kept by every round holds of the last ones. No group is
open then, and only what may be ignored is left. -/
theorem read_invariant {motive : State → Cursor → Prop}
    (hround : ∀ st here ch st' there, motive st here → st.Round here ch st' there →
      motive st' there)
    {here : Cursor} {tree : Tree} (hread : st.read here = .ok tree) (h : motive st here) :
    ∃ last there, motive last there ∧ last.frames = [] ∧
      tree = last.level.tree (there.skipTrivia last.level.ws).offset := by
  fun_induction State.read st here with
  | case1 st here hrest =>
    unfold finish at hread
    split at hread
    · next hframes =>
      cases hread
      exact ⟨st, here, h, hframes, rfl⟩
    · cases hread
  | case2 => cases hread
  | case3 st here ch cs hrest st' there hstep ih =>
    obtain ⟨hreach, hsteps⟩ := step_moves.of_run hstep (by simp [Cursor.past])
    exact ih hread (hround st here ch st' there h ⟨⟨cs, hrest, hreach⟩, hsteps⟩)

end State

end Regex

end RegexAudit
