import RegexAudit.Error
import RegexAudit.Proofs.Script.Indices
import RegexAudit.Proofs.Script.Layout
import RegexAudit.Proofs.Text.Position

/-!
# Every source is a script or refused at one of its places

Whatever stands in a source, splitting and parsing it comes to an end without a cut or a look-up
that fails. A source that is no script is refused at a place of it, with the line and the column
that counting leads to.

## Main definitions

* `Text.cutPosition?`: a position, with the look-up of its line and the cut into it.
* `Script.cut?`: the script of a source or the error, with all cuts and look-ups on the way.

## Main statements

* `Text.cutPosition?_eq`: the text in front of a place on its line can be cut out.
* `Script.exists_place_of_error`: a source is refused at a place of it.
* `Script.cut?_eq`: no cut and no look-up fails on the way to a script.
* `Script.ofSource_total`: the whole of it, with what an error tells.
-/

namespace RegexAudit

namespace Text

/-- The offsets where the lines of a text begin, without the first one. The text itself begins at
the offset `offset`. -/
def lineStarts (offset : Nat) : List Char → List Nat
  | [] => []
  | c :: cs =>
    if c = '\n' then (offset + 1) :: lineStarts (offset + 1) cs
    else lineStarts (offset + c.utf8Size) cs

/-- The position of an offset. The last line that begins no later is looked up, and the text in
front of the offset is cut out of it. -/
def cutPosition? (s : List Char) (offset : Nat) : Option Position := do
  let starts := 0 :: lineStarts 0 s
  let index := (starts.takeWhile (· ≤ offset)).length - 1
  let start ← starts[index]?
  let text ← slice? s ⟨start, min offset (width s)⟩
  return ⟨index + 1, text.length + 1⟩

theorem lineStarts_append (offset : Nat) (s t : List Char) :
    lineStarts offset (s ++ t) = lineStarts offset s ++ lineStarts (offset + width s) t := by
  induction s generalizing offset with
  | nil => rfl
  | cons c s ih =>
    rw [List.cons_append, lineStarts, lineStarts, width_cons, ← Nat.add_assoc]
    by_cases hc : c = '\n'
    · subst hc
      rw [if_pos rfl, if_pos rfl, ih]
      rfl
    · rw [if_neg hc, if_neg hc, ih]

/-- A line begins behind its newline. -/
theorem lineStarts_bounds {offset start : Nat} {s : List Char} (h : start ∈ lineStarts offset s) :
    offset < start ∧ start ≤ offset + width s := by
  induction s generalizing offset with
  | nil => nomatch h
  | cons c s ih =>
    have hpos := c.utf8Size_pos
    rw [lineStarts] at h
    rw [width_cons]
    by_cases hc : c = '\n'
    · rw [if_pos hc] at h
      rcases List.mem_cons.1 h with rfl | h
      · omega
      · have hbounds := ih h
        omega
    · rw [if_neg hc] at h
      have hbounds := ih h
      omega

/-- The lines that begin no later than a place are those of the text in front of it. -/
theorem takeWhile_lineStarts (before rest : List Char) :
    (0 :: lineStarts 0 (before ++ rest)).takeWhile (· ≤ width before) =
      0 :: lineStarts 0 before := by
  have hbefore : ∀ start ∈ 0 :: lineStarts 0 before, decide (start ≤ width before) = true := by
    intro start hstart
    refine decide_eq_true ?_
    rcases List.mem_cons.1 hstart with rfl | hstart
    · exact Nat.zero_le _
    · have hbounds := lineStarts_bounds hstart
      omega
  have hrest : (lineStarts (0 + width before) rest).takeWhile (· ≤ width before) = [] := by
    cases hstarts : lineStarts (0 + width before) rest with
    | nil => rfl
    | cons start more =>
      have hbounds := lineStarts_bounds (hstarts ▸ List.mem_cons_self)
      exact List.takeWhile_cons_of_neg (by simp; omega)
  rw [lineStarts_append, ← List.cons_append, List.takeWhile_append_of_pos hbefore, hrest,
    List.append_nil]

/-- The last line in front of a place, and the position that going through it leads to. The line
being read begins behind `lead`. -/
theorem exists_last_line (lead read before : List Char) (number : Nat) :
    ∃ lead' line, lead ++ read ++ before = lead' ++ line ∧
      (width lead :: lineStarts (width (lead ++ read)) before)[(lineStarts (width (lead ++ read))
        before).length]? = some (width lead') ∧
      before.foldl Position.step ⟨number, read.length + 1⟩ =
        ⟨number + (lineStarts (width (lead ++ read)) before).length, line.length + 1⟩ := by
  -- A newline leads to the next line; any other character belongs to the line being read.
  induction before generalizing lead read number with
  | nil => exact ⟨lead, read, List.append_nil _, rfl, rfl⟩
  | cons c before ih =>
    rw [List.foldl_cons, lineStarts]
    by_cases hc : c = '\n'
    · subst hc
      have hnext : width (lead ++ read) + 1 = width (lead ++ read ++ ['\n'] ++ []) := by
        rw [List.append_nil, width_append (lead ++ read)]
        rfl
      obtain ⟨lead', line, hsplit, hstart, hposition⟩ :=
        ih (lead ++ read ++ ['\n']) [] (number + 1)
      rw [List.append_nil, List.append_assoc, List.singleton_append] at hsplit
      rw [if_pos rfl, hnext]
      refine ⟨lead', line, hsplit, ?_, ?_⟩
      · rw [List.append_nil] at hstart ⊢
        exact hstart
      · refine hposition.trans ?_
        rw [List.length_cons, Nat.add_right_comm, Nat.add_assoc]
    · have hnext : width (lead ++ read) + c.utf8Size = width (lead ++ (read ++ [c])) := by
        rw [← List.append_assoc, width_append (lead ++ read)]
        rfl
      have hstep : Position.step ⟨number, read.length + 1⟩ c =
          ⟨number, (read ++ [c]).length + 1⟩ := by
        rw [Position.step, if_neg hc, List.length_append]
        rfl
      obtain ⟨lead', line, hsplit, hstart, hposition⟩ := ih lead (read ++ [c]) number
      rw [← List.append_assoc, List.append_assoc, List.singleton_append] at hsplit
      rw [if_neg hc, hnext, hstep]
      exact ⟨lead', line, hsplit, hstart, hposition⟩

/-- The position of a place is looked up and cut out. -/
theorem cutPosition?_eq (before rest : List Char) :
    cutPosition? (before ++ rest) (width before) = some (.counted before) := by
  obtain ⟨lead, line, hsplit, hstart, hposition⟩ := exists_last_line [] [] before 1
  have hsplit : before = lead ++ line := hsplit
  have hle : width before ≤ width (before ++ rest) := by
    rw [width_append]
    exact Nat.le_add_right _ _
  have hlook : (0 :: lineStarts 0 (before ++ rest))[(lineStarts 0 before).length]? =
      some (width lead) := by
    rw [lineStarts_append, ← List.cons_append, List.getElem?_append_left (Nat.lt_succ_self _)]
    exact hstart
  have hline : slice? (before ++ rest) ⟨width lead, width before⟩ = some line := by
    refine slice?_eq_some_iff.2 ⟨lead, rest, ?_, rfl, ?_⟩
    · rw [← hsplit]
    · rw [← hsplit]
  have hcounted : Position.counted before =
      ⟨1 + (lineStarts 0 before).length, line.length + 1⟩ := by
    rw [← Position.after_eq_counted]
    exact hposition
  rw [cutPosition?, takeWhile_lineStarts, List.length_cons, Nat.add_sub_cancel, hlook,
    Nat.min_eq_left hle, hcounted, Nat.add_comm 1]
  show (slice? (before ++ rest) ⟨width lead, width before⟩).bind _ = _
  rw [hline]
  rfl

end Text

namespace Script

/-- The error for a fault, with the cuts for its position. -/
def Fault.cutError? (source : List Char) (fault : Fault) : Option Error :=
  (Text.cutPosition? source fault.offset).map (.parse fault.cause.message fault.offset)

/-- The parser gives up in front of a token of the source or at its end, and its fault lies
there. -/
theorem Rejection.exists_place {source : List Char} {tokens : Tokens} {rejection : Rejection}
    (h : Tokens.ofSource source = .ok tokens) (hremaining : rejection.remaining <:+ tokens.items) :
    ∃ d : Cursor, d.In source ∧ (rejection.fault source tokens.stop).IsAt d.offset := by
  have hplace : ∃ d : Cursor, d.In source ∧
      (rejection.remaining.head?.map (·.range.start)).getD tokens.stop = d.offset := by
    cases hhead : rejection.remaining.head? with
    | none =>
      obtain ⟨d, hstop, hlayout⟩ := Tokens.layout_of_ofSource h
      exact ⟨d, hlayout.reads.1.in_source (Cursor.ofText_in source), hstop⟩
    | some t =>
      obtain ⟨c, d, hc, -, hrange⟩ :=
        Tokens.standsIn_of_mem h (hremaining.subset (List.mem_of_mem_head? hhead))
      refine ⟨c, hc, ?_⟩
      show t.range.start = c.offset
      rw [hrange]
      rfl
  obtain ⟨d, hd, hoffset⟩ := hplace
  cases rejection with
  | expected what ts => exact ⟨d, hd, hoffset, nofun⟩
  | nestedTooDeep ts => exact ⟨d, hd, hoffset, nofun⟩

/-- A fault at an offset of a source is reported at the position of the offset. -/
theorem Fault.IsAt.ofFault_eq {fault : Fault} {offset : Nat} (h : fault.IsAt offset)
    (source : List Char) :
    Error.ofFault source fault = .parseAt fault.cause.message offset source := by
  rw [← h.offset]
  unfold Error.ofFault
  split
  · next bytes hcause => exact absurd hcause (h.ordinary bytes)
  · rfl

/-- The error for a fault in a source, whose position can be cut out. -/
theorem Fault.IsAt.cutError?_eq {source before rest : List Char} {fault : Fault}
    (hsource : source = before ++ rest) (h : fault.IsAt (Text.width before)) :
    fault.cutError? source = some (.ofFault source fault) ∧
      Error.ofFault source fault =
        .parse fault.cause.message (Text.width before) (.counted before) := by
  have hparse : Error.ofFault source fault =
      .parse fault.cause.message (Text.width before) (.counted before) := by
    rw [h.ofFault_eq, Error.parseAt, hsource, Text.position_eq_counted]
  refine ⟨?_, hparse⟩
  rw [hparse, Fault.cutError?, h.offset, hsource, Text.cutPosition?_eq]
  rfl

end Script

/-- The script of a source, or the error, with all cuts and look-ups on the way. -/
def Script.cut? (source : List Char) : Option (Except Error Script) :=
  (Script.cutting source).run.bind fun
    | .error fault => (fault.cutError? source).map .error
    | .ok script => some (.ok script)

/-- A source that is not too long is a script or refused at a place of it. -/
theorem Script.exists_place_of_error {source : List Char} {fault : Fault}
    (hsize : Text.width source ≤ maxSourceBytes) (h : Script.ofSource source = .error fault) :
    ∃ d : Cursor, d.In source ∧ fault.IsAt d.offset := by
  unfold Script.ofSource at h
  split at h
  · next htokens =>
    rw [Except.error.inj h] at htokens
    exact Tokens.exists_place_of_error hsize htokens
  · next tokens htokens =>
    split at h
    · next rejection hread =>
      rw [← Except.error.inj h]
      exact Rejection.exists_place htokens (readStatements_rejects List.suffix_rfl hread)
    · simp at h

/-- The error for a fault at a place of a source. The position of the place can be looked up. -/
theorem Script.cutError?_eq {source : List Char} {fault : Fault}
    (h : ∃ d : Cursor, d.In source ∧ fault.IsAt d.offset) :
    fault.cutError? source = some (.ofFault source fault) := by
  obtain ⟨d, ⟨before, hsource, hbefore⟩, hat⟩ := h
  rw [← hbefore] at hat
  exact (hat.cutError?_eq hsource.symm).1

/-- No cut and no look-up fails on the way from a source to its script or its error. -/
theorem Script.cut?_eq {source : List Char} (hsize : Text.width source ≤ maxSourceBytes) :
    Script.cut? source =
      some (match Script.ofSource source with
        | .ok script => .ok script
        | .error fault => .error (.ofFault source fault)) := by
  have hcutting : (Script.cutting source).run = some (Script.ofSource source) :=
    Script.cutting_eq hsize
  rw [Script.cut?, hcutting, Option.bind_some]
  cases hscript : Script.ofSource source with
  | error fault =>
    dsimp only
    rw [Script.cutError?_eq (Script.exists_place_of_error hsize hscript)]
    rfl
  | ok script => rfl

/-- A source that is not too long is split and parsed without a cut or a look-up that fails, in a
bounded number of rounds. When the source is refused, by the lexer or by the parser, the position of
the fault is looked up without a failure as well: the error is recoverable and tells an offset
between two characters of the source, or one of its ends, with the line and the column that counting
the text in front of it leads to. -/
theorem Script.ofSource_total {source : List Char} (hsize : Text.width source ≤ maxSourceBytes) :
    Tokens.cut? source = some (Tokens.ofSource source) ∧
    (Script.cutting source).run = some (Script.ofSource source) ∧
    Script.cut? source =
      some (match Script.ofSource source with
        | .ok script => .ok script
        | .error fault => .error (.ofFault source fault)) ∧
    ∀ fault, Tokens.ofSource source = .error fault ∨ Script.ofSource source = .error fault →
      fault.cutError? source = some (.ofFault source fault) ∧
      ∃ before rest, source = before ++ rest ∧
        Error.ofFault source fault =
          .parse fault.cause.message (Text.width before) (.counted before) ∧
        (Error.ofFault source fault).isRecoverable = true := by
  refine ⟨Tokens.cut?_eq hsize, Script.cutting_eq hsize, Script.cut?_eq hsize, ?_⟩
  intro fault hfault
  have hplace : ∃ d : Cursor, d.In source ∧ fault.IsAt d.offset :=
    hfault.elim (Tokens.exists_place_of_error hsize) (Script.exists_place_of_error hsize)
  obtain ⟨d, ⟨before, hsource, hbefore⟩, hat⟩ := id hplace
  rw [← hbefore] at hat
  obtain ⟨-, herror⟩ := hat.cutError?_eq hsource.symm
  refine ⟨Script.cutError?_eq hplace, before, d.rest, hsource.symm, herror, ?_⟩
  rw [herror]
  rfl

namespace Escaped

/-- A literal in the second line of a source, with an accent and an escape that does not exist. -/
def source : List Char := ['\n', '"', 'é', '\\', 'q', '"']

theorem ofSource_source : Script.ofSource source = .error ⟨.illegalEscape 'q', 4⟩ := by
  with_unfolding_all rfl

end Escaped

/-- The escape is refused in the third column of the second line, behind four bytes. -/
theorem Script.ofSource_total_escaped :
    Text.width Escaped.source ≤ maxSourceBytes ∧
      Script.cut? Escaped.source = some (.error (.parse "Illegal escape '\\q'" 4 ⟨2, 3⟩)) := by
  have hsize : Text.width Escaped.source ≤ maxSourceBytes := by decide
  obtain ⟨-, -, hcut, -⟩ := Script.ofSource_total hsize
  refine ⟨hsize, ?_⟩
  rw [hcut, Escaped.ofSource_source]
  with_unfolding_all rfl

end RegexAudit
