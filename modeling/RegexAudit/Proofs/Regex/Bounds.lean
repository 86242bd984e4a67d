import RegexAudit.Proofs.Regex.Refusals

/-!
# Where patterns are refused

A pattern is refused with a span of it. This holds of its parts, and also of the nesting limit: the
spans of all nodes that are read begin and end at character boundaries.

## Main definitions

* `ClassItem.Within`, `ClassSet.Within`, `Tree.Within`: a node stands in a text, and so does any
  node in it that may be nested too deep.
* `OpenClass.Within`, `Level.Within`, `State.Within`: so does all that has been read.

## Main statements

* `readClass_keeps`, `Reader.bracketed_keeps`: classes.
* `State.step_keeps`, `State.read_within`: one step, and the rest of a pattern.
* `within_of_parse_error`: the span of the fault of a pattern.
-/

namespace RegexAudit

namespace Regex

variable {β : Type} {s cs : List Char} {c d : Cursor} {ch : Char} {fits' : β → Cursor → Prop}

/-- The item stands in a text, and so does the node in it that is nested too deep, at any depth. -/
structure ClassItem.Within (s : List Char) (item : ClassItem) : Prop where
  span : item.span.Within s
  nested : ∀ depth span, item.overNested? depth = some span → span.Within s

/-- The set stands in a text, and so does the node in it that is nested too deep, at any depth. -/
structure ClassSet.Within (s : List Char) (set : ClassSet) : Prop where
  span : set.span.Within s
  nested : ∀ depth span, set.overNested? depth = some span → span.Within s

/-- The tree stands in a text, and so does the node in it that is nested too deep, at any depth. -/
structure Tree.Within (s : List Char) (tree : Tree) : Prop where
  span : tree.span.Within s
  nested : ∀ depth span, tree.overNested? depth = some span → span.Within s

/-- A node that is nested too deep is the whole or lies inside of it. -/
theorem within_of_nested {span found : Span} {depth : Nat} {inside : Option Span}
    (hspan : span.Within s) (hinside : ∀ found, inside = some found → found.Within s)
    (h : (if nestLimit ≤ depth then some span else inside) = some found) : found.Within s := by
  split at h
  · rwa [← Option.some.inj h]
  · exact hinside found h

namespace ClassItem

variable {span : Span}

theorem within_leaf {item : ClassItem} (h : item.span.Within s)
    (hleaf : ∀ depth, item.overNested? depth = none) : item.Within s := by
  refine ⟨h, fun depth span hnested => ?_⟩
  rw [hleaf] at hnested
  nomatch hnested

theorem within_literal (char : Char) (h : span.Within s) : (literal span char).Within s :=
  within_leaf h fun _ => rfl

theorem within_bracketed {negated : Bool} {set : ClassSet} (h : span.Within s)
    (hset : set.Within s) : (bracketed span negated set).Within s := by
  refine ⟨h, fun depth found hfound => ?_⟩
  rw [overNested?] at hfound
  exact within_of_nested h (hset.nested (depth + 1)) hfound

theorem within_of_overNestedAll? {items : List ClassItem} (h : ∀ item ∈ items, item.Within s)
    {depth : Nat} {found : Span} (hfound : overNestedAll? depth items = some found) :
    found.Within s := by
  induction items with
  | nil => nomatch hfound
  | cons item items ih =>
    obtain ⟨hitem, hitems⟩ := List.forall_mem_cons.1 h
    rw [overNestedAll?] at hfound
    split at hfound
    · next span hspan =>
      rw [← Option.some.inj hfound]
      exact hitem.nested depth span hspan
    · exact ih hitems hfound

theorem within_union {items : List ClassItem} (h : span.Within s)
    (hitems : ∀ item ∈ items, item.Within s) : (union span items).Within s := by
  refine ⟨h, fun depth found hfound => ?_⟩
  rw [overNested?] at hfound
  exact within_of_nested h (fun found hfound => within_of_overNestedAll? hitems hfound) hfound

end ClassItem

namespace ClassSet

theorem within_item {item : ClassItem} (h : item.Within s) : (ClassSet.item item).Within s := by
  refine ⟨h.span, fun depth found hfound => ?_⟩
  rw [overNested?] at hfound
  exact h.nested depth found hfound

theorem within_operation {span : Span} {op : SetOperator} {lhs rhs : ClassSet} (h : span.Within s)
    (hlhs : lhs.Within s) (hrhs : rhs.Within s) : (operation span op lhs rhs).Within s := by
  refine ⟨h, fun depth found hfound => ?_⟩
  rw [overNested?] at hfound
  refine within_of_nested h (fun found hfound => ?_) hfound
  split at hfound
  · next span hspan =>
    rw [← Option.some.inj hfound]
    exact hlhs.nested (depth + 1) span hspan
  · exact hrhs.nested (depth + 1) found hfound

end ClassSet

namespace Tree

variable {span : Span}

theorem within_leaf {tree : Tree} (h : tree.span.Within s)
    (hleaf : ∀ depth, tree.overNested? depth = none) : tree.Within s := by
  refine ⟨h, fun depth span hnested => ?_⟩
  rw [hleaf] at hnested
  nomatch hnested

theorem within_bracketed {negated : Bool} {set : ClassSet} (h : span.Within s)
    (hset : set.Within s) : (bracketed span negated set).Within s := by
  refine ⟨h, fun depth found hfound => ?_⟩
  rw [overNested?] at hfound
  exact within_of_nested h (hset.nested (depth + 1)) hfound

theorem within_of_overNestedAll? {trees : List Tree} (h : ∀ tree ∈ trees, tree.Within s)
    {depth : Nat} {found : Span} (hfound : overNestedAll? depth trees = some found) :
    found.Within s := by
  induction trees with
  | nil => nomatch hfound
  | cons tree trees ih =>
    obtain ⟨htree, htrees⟩ := List.forall_mem_cons.1 h
    rw [overNestedAll?] at hfound
    split at hfound
    · next span hspan =>
      rw [← Option.some.inj hfound]
      exact htree.nested depth span hspan
    · exact ih htrees hfound

theorem within_concat {trees : List Tree} (h : span.Within s)
    (htrees : ∀ tree ∈ trees, tree.Within s) : (concat span trees).Within s := by
  refine ⟨h, fun depth found hfound => ?_⟩
  rw [overNested?] at hfound
  exact within_of_nested h (fun found hfound => within_of_overNestedAll? htrees hfound) hfound

theorem within_alternation {trees : List Tree} (h : span.Within s)
    (htrees : ∀ tree ∈ trees, tree.Within s) : (alternation span trees).Within s := by
  refine ⟨h, fun depth found hfound => ?_⟩
  rw [overNested?] at hfound
  exact within_of_nested h (fun found hfound => within_of_overNestedAll? htrees hfound) hfound

theorem within_repetition {operator : Span} {body : Tree} (h : span.Within s)
    (hbody : body.Within s) : (repetition span operator body).Within s := by
  refine ⟨h, fun depth found hfound => ?_⟩
  rw [overNested?] at hfound
  exact within_of_nested h (hbody.nested (depth + 1)) hfound

theorem within_group (kind : GroupKind) {body : Tree} (h : span.Within s) (hbody : body.Within s) :
    (group span kind body).Within s := by
  refine ⟨h, fun depth found hfound => ?_⟩
  rw [overNested?] at hfound
  exact within_of_nested h (hbody.nested (depth + 1)) hfound

end Tree

/-- All that has been read in a class stands in a text. -/
structure OpenClass.Within (s : List Char) (c : OpenClass) : Prop where
  opener : c.opener.Within s
  itemsStart : Text.IsBoundary s c.itemsStart
  items : ∀ item ∈ c.items, item.Within s
  pending : ∀ op lhs, c.pending = some (op, lhs) → lhs.Within s

namespace OpenClass.Within

variable {c : OpenClass}

theorem push (h : c.Within s) {item : ClassItem} (hitem : item.Within s) :
    (c.push item).Within s :=
  ⟨h.opener, h.itemsStart, List.forall_mem_cons.2 ⟨hitem, h.items⟩, h.pending⟩

theorem operand (h : c.Within s) : c.operand.Within s := by
  have hreverse : ∀ item ∈ c.items.reverse, item.Within s :=
    fun item hitem => h.items item (List.mem_reverse.1 hitem)
  unfold OpenClass.operand
  split
  · exact ClassItem.within_leaf (within_empty h.itemsStart) fun _ => rfl
  · next item hitems => exact hreverse item (by simp [hitems])
  · next first more hne hitems =>
    rw [hitems] at hreverse
    have hfirst := (hreverse first List.mem_cons_self).span
    have hlast : Text.IsBoundary s ((c.items.head?.map (·.span.stop)).getD first.span.stop) := by
      cases hhead : c.items.head? with
      | none => exact hfirst.stop
      | some last => exact (h.items last (List.mem_of_mem_head? hhead)).span.stop
    exact ClassItem.within_union ⟨hfirst.start, hlast⟩ hreverse

theorem set (h : c.Within s) : c.set.Within s := by
  have hoperand := ClassSet.within_item h.operand
  unfold OpenClass.set
  dsimp only
  split
  · exact hoperand
  · next op lhs hpending =>
    have hlhs := h.pending op lhs hpending
    exact ClassSet.within_operation ⟨hlhs.span.start, hoperand.span.stop⟩ hlhs hoperand

theorem operate (h : c.Within s) (op : SetOperator) {start : Nat}
    (hstart : Text.IsBoundary s start) : (c.operate op start).Within s := by
  refine ⟨h.opener, hstart, nofun, ?_⟩
  rintro _ _ ⟨⟩
  exact h.set

end OpenClass.Within

/-- What a step in a class comes to stands in a text. -/
def ClassProgress.Within (s : List Char) : ClassProgress → Prop
  | .finished tree => tree.Within s
  | .inside innermost outer => innermost.Within s ∧ ∀ c ∈ outer, c.Within s

namespace Reader

open RegexAudit.Reader

section Classes

variable {ws : Bool} {start : Nat} {ch : Char}

theorem orUnclosed_keeps_then {span : Nat → Span} {f : Unit → Reader β} (hc : c.In s)
    (hspan : (span c.offset).Within s) (hf : Keeps s fits' ((f ()).run c)) :
    Keeps s fits' ((orUnclosed span >>= f).run c) := by
  have hunclosed : Keeps s (fun _ d => d = c) ((orUnclosed span).run c) :=
    keeps_peekOr_then hspan fun _ _ _ => keeps_pure hc rfl
  refine keeps_bind hunclosed ?_
  rintro _ _ _ rfl
  exact hf

theorem leadingHyphens_keeps (hstart : Text.IsBoundary s start) {room : Nat}
    {items : List ClassItem} (hitems : ∀ item ∈ items, item.Within s) (hc : c.In s) :
    Keeps s (fun items _ => ∀ item ∈ items, ClassItem.Within s item)
      ((leadingHyphens ws start room items).run c) := by
  induction room generalizing items c with
  | zero => exact keeps_pure hc hitems
  | succ room ih =>
    refine keeps_peek?_then ?_
    split
    · next hhyphen =>
      obtain ⟨cs, hrest⟩ := List.head?_eq_some_iff.1 hhyphen
      refine keeps_offset_then (keeps_then (keeps_next ws hc) fun _ d hd => ?_)
      refine orUnclosed_keeps_then hd (within_empty hstart) (ih ?_ hd)
      have hliteral := ClassItem.within_literal '-' (within_charSpan hc hrest)
      exact List.forall_mem_cons.2 ⟨hliteral, hitems⟩
    · exact keeps_pure hc hitems

theorem openClass_keeps (hstart : Text.IsBoundary s start) (hc : c.In s) :
    Keeps s (fun opened _ => opened.Within s) ((openClass ws start).run c) := by
  have hfresh : ∀ {here stop : Cursor} {negated : Bool} {items : List ClassItem}, here.In s →
      stop.In s → (∀ item ∈ items, item.Within s) →
        OpenClass.Within s ⟨⟨start, stop.offset⟩, negated, none, here.offset, items⟩ :=
    fun hhere hstop hitems => ⟨within_to hstart hstop, hhere.isBoundary, hitems, nofun⟩
  refine keeps_then (keeps_skip ws hc) fun _ d hd => ?_
  refine orUnclosed_keeps_then hd (within_to hstart hd) (keeps_peek?_then ?_)
  extract_lets negated rest
  have hrest : ∀ {here : Cursor}, here.In s →
      Keeps s (fun opened _ => opened.Within s) ((rest ()).run here) := by
    intro here hhere
    refine keeps_place_then ?_
    refine keeps_bind (leadingHyphens_keeps hstart nofun hhere) fun hyphens e he hhyphens => ?_
    refine keeps_offset_then (keeps_peek?_then ?_)
    split
    · next hbracket =>
      have hhead := (Bool.and_eq_true_iff.1 hbracket).2
      obtain ⟨cs, hcs⟩ := List.head?_eq_some_iff.1 (beq_iff_eq.1 hhead)
      refine keeps_then (keeps_next ws he) fun _ f hf => ?_
      refine orUnclosed_keeps_then hf (within_to hstart hf) (keeps_offset_then ?_)
      have hliteral := ClassItem.within_literal ']' (within_charSpan he hcs)
      exact keeps_pure hf (hfresh hhere hf (List.forall_mem_singleton.2 hliteral))
    · exact keeps_offset_then (keeps_pure he (hfresh hhere he hhyphens))
  split
  · refine keeps_then (keeps_next ws hd) fun _ e he => ?_
    exact orUnclosed_keeps_then he (within_to hstart he) (hrest he)
  · exact hrest hd

/-- An escape or a single character, of which the first one stands right in front of the place. -/
theorem classPrimitive_keeps (hc : c.In s) (hchar : (charSpan start ch).Within s)
    (hplace : c.offset = start + ch.utf8Size) :
    Keeps s (fun p _ => p.span.Within s) ((classPrimitive ws start ch).run c) := by
  unfold classPrimitive
  split
  · next hslash =>
    subst hslash
    exact escape_keeps hchar.start hc hplace
  · exact keeps_pure hc hchar

theorem rangeEnd_keeps_then {p : Primitive} {f : Char → Reader β} (hp : p.span.Within s)
    (hf : ∀ c', Keeps s fits' ((f c').run c)) : Keeps s fits' ((rangeEnd p >>= f).run c) := by
  cases p with
  | literal span c' => exact hf c'
  | assertion span kind => exact hp
  | predefined span => exact hp

theorem singleItem_keeps {p : Primitive} (hp : p.span.Within s) (hc : c.In s) :
    Keeps s (fun item _ => item.Within s) ((singleItem p).run c) := by
  cases p with
  | literal span c' => exact keeps_pure hc (ClassItem.within_literal c' hp)
  | predefined span => exact keeps_pure hc (ClassItem.within_leaf hp fun _ => rfl)
  | assertion span kind => exact keeps_fail hp

theorem itemOrRange_keeps {opener : Span} (hopener : opener.Within s) (hc : c.In s)
    (hchar : (charSpan start ch).Within s) (hplace : c.offset = start + ch.utf8Size) :
    Keeps s (fun item _ => item.Within s) ((itemOrRange ws opener start ch).run c) := by
  refine keeps_bind (classPrimitive_keeps hc hchar hplace) fun first d hd hfirst => ?_
  refine keeps_then (keeps_skip ws hd) fun _ e he => ?_
  refine orUnclosed_keeps_then he hopener (keeps_place_then ?_)
  split
  · refine keeps_then (keeps_next ws he) fun _ f hf => ?_
    refine keeps_peekOr_then hopener fun ch' cs hrest => keeps_offset_then ?_
    have hadvance : Keeps s (fun _ g => g = f.past [ch'] cs)
        ((advance 1 : Reader Unit).run f) := by
      refine ⟨(Cursor.reaches_advance 1 f).in_source hf, ?_⟩
      obtain ⟨offset, more⟩ := f
      cases hrest
      rfl
    refine keeps_bind hadvance fun _ g hg hpast => ?_
    have hplace' : g.offset = f.offset + ch'.utf8Size := by
      rw [hpast]
      rfl
    refine keeps_bind (classPrimitive_keeps hg (within_charSpan hf hrest) hplace') ?_
    intro second h hh hsecond
    refine rangeEnd_keeps_then hfirst fun lo => rangeEnd_keeps_then hsecond fun hi => ?_
    have hspan : Span.Within s ⟨first.span.start, second.span.stop⟩ :=
      ⟨hfirst.start, hsecond.stop⟩
    dsimp only
    split
    · exact keeps_fail hspan
    · exact keeps_pure hh (ClassItem.within_leaf hspan fun _ => rfl)
  · exact singleItem_keeps hfirst he

/-- One step in a class. -/
theorem classStep_keeps {opened : OpenClass} {outer : List OpenClass} (hopened : opened.Within s)
    (houter : ∀ opened ∈ outer, opened.Within s) (hc : c.In s)
    (hchar : (charSpan start ch).Within s) (hplace : c.offset = start + ch.utf8Size) :
    Keeps s (fun progress _ => progress.Within s) ((classStep ws opened outer start ch).run c) := by
  unfold classStep
  split
  · -- a class inside the class
    refine keeps_place_then ?_
    split
    · refine keeps_then (keeps_advance _ hc) fun _ d hd => keeps_offset_then ?_
      have hitem : (ClassItem.predefined ⟨start, d.offset⟩).Within s :=
        ClassItem.within_leaf (within_to hchar.start hd) fun _ => rfl
      exact keeps_pure hd ⟨hopened.push hitem, houter⟩
    · refine keeps_bind (openClass_keeps hchar.start hc) fun inner d hd hinner => ?_
      exact keeps_pure hd ⟨hinner, List.forall_mem_cons.2 ⟨hopened, houter⟩⟩
  split
  · -- the end of the class
    refine keeps_offset_then ?_
    have hspan : Span.Within s ⟨opened.opener.start, c.offset⟩ :=
      within_to hopened.opener.start hc
    cases outer with
    | nil => exact keeps_pure hc (Tree.within_bracketed hspan hopened.set)
    | cons parent outer =>
      obtain ⟨hparent, houter⟩ := List.forall_mem_cons.1 houter
      exact keeps_pure hc
        ⟨hparent.push (ClassItem.within_bracketed hspan hopened.set), houter⟩
  · -- an operator or an item
    refine keeps_place_then ?_
    split
    · next op _ =>
      refine keeps_then (keeps_advance 1 hc) fun _ d hd => keeps_offset_then ?_
      exact keeps_pure hd ⟨hopened.operate op hd.isBoundary, houter⟩
    · refine keeps_bind (itemOrRange_keeps hopened.opener hc hchar hplace) fun item d hd hitem => ?_
      exact keeps_pure hd ⟨hopened.push hitem, houter⟩

end Classes

end Reader

/-- The place of the next character, behind what may be ignored, and the place behind it. -/
theorem places_skipTrivia (ws : Bool) (hc : c.In s) (hrest : (c.skipTrivia ws).rest = ch :: cs) :
    (c.skipTrivia ws).In s ∧ ((c.skipTrivia ws).past [ch] cs).In s := by
  have hskip := (Cursor.reaches_skipTrivia ws c).in_source hc
  exact ⟨hskip, hskip.past hrest⟩

/-- The rest of a class that is open. -/
theorem readClass_keeps {ws : Bool} {opened : OpenClass} {outer : List OpenClass} (hc : c.In s)
    (hopened : opened.Within s) (houter : ∀ opened ∈ outer, opened.Within s) :
    Keeps s (fun tree _ => tree.Within s) (readClass ws opened outer c) := by
  -- A step that fails ends the reading, and so does one that finishes the class.
  have hround : ∀ {opened : OpenClass} {outer : List OpenClass} {c : Cursor} {ch : Char}
      {cs : List Char}, c.In s → opened.Within s → (∀ opened ∈ outer, opened.Within s) →
      (c.skipTrivia ws).rest = ch :: cs → Keeps s (fun progress _ => progress.Within s)
        ((Reader.classStep ws opened outer (c.skipTrivia ws).offset ch).run
          ((c.skipTrivia ws).past [ch] cs)) := by
    intro opened outer c ch cs hc hopened houter hrest
    obtain ⟨hskip, hpast⟩ := places_skipTrivia ws hc hrest
    exact Reader.classStep_keeps hopened houter hpast (within_charSpan hskip hrest) rfl
  fun_induction readClass ws opened outer c with
  | case1 opened outer c hrest => exact hopened.opener
  | case2 opened outer c ch cs hrest fault hstep =>
    have hkeeps := hround hc hopened houter hrest
    rw [hstep] at hkeeps
    exact hkeeps
  | case3 opened outer c ch cs hrest tree there hstep =>
    have hkeeps := hround hc hopened houter hrest
    rw [hstep] at hkeeps
    exact hkeeps
  | case4 opened outer c ch cs hrest opened' outer' there hstep ih =>
    have hkeeps := hround hc hopened houter hrest
    rw [hstep] at hkeeps
    obtain ⟨hthere, hopened', houter'⟩ := hkeeps
    exact ih hthere hopened' houter'

theorem Reader.bracketed_keeps {ws : Bool} {start : Nat} (hstart : Text.IsBoundary s start)
    (hc : c.In s) : Keeps s (fun tree _ => tree.Within s) ((bracketed ws start).run c) := by
  refine Reader.keeps_bind (openClass_keeps hstart hc) fun opened d hd hopened => ?_
  exact readClass_keeps hd hopened nofun

/-- All that has been read at a level stands in a text. -/
structure Level.Within (s : List Char) (level : Level) : Prop where
  start : Text.IsBoundary s level.start
  branchStart : Text.IsBoundary s level.branchStart
  items : ∀ item ∈ level.items, item.Within s
  branches : ∀ branch ∈ level.branches, branch.Within s

namespace Level.Within

variable {level : Level} {stop : Nat}

theorem fresh {ws : Bool} (hstop : Text.IsBoundary s stop) : (Level.fresh ws stop).Within s :=
  ⟨hstop, hstop, nofun, nofun⟩

theorem push (h : level.Within s) {item : Tree} (hitem : item.Within s) :
    (level.push item).Within s :=
  ⟨h.start, h.branchStart, List.forall_mem_cons.2 ⟨hitem, h.items⟩, h.branches⟩

theorem branch (h : level.Within s) (hstop : Text.IsBoundary s stop) :
    (level.branch stop).Within s := by
  have hreverse : ∀ item ∈ level.items.reverse, item.Within s :=
    fun item hitem => h.items item (List.mem_reverse.1 hitem)
  unfold Level.branch
  split
  · exact Tree.within_leaf ⟨h.branchStart, hstop⟩ fun _ => rfl
  · next item hitems => exact hreverse item (by simp [hitems])
  · exact Tree.within_concat ⟨h.branchStart, hstop⟩ hreverse

theorem tree (h : level.Within s) (hstop : Text.IsBoundary s stop) :
    (level.tree stop).Within s := by
  unfold Level.tree
  split
  · exact h.branch hstop
  · refine Tree.within_alternation ⟨h.start, hstop⟩ fun branch hbranch => ?_
    rcases List.mem_append.1 hbranch with hbefore | hlast
    · exact h.branches branch (List.mem_reverse.1 hbefore)
    · rw [List.mem_singleton.1 hlast]
      exact h.branch hstop

theorem addBranch (h : level.Within s) (hbar : Span.Within s ⟨stop, stop + 1⟩) :
    (level.addBranch stop).Within s :=
  ⟨h.start, hbar.stop, nofun, List.forall_mem_cons.2 ⟨h.branch hbar.start, h.branches⟩⟩

theorem popRepeatable? (h : level.Within s) {item : Tree} {rest : Level}
    (hpop : level.popRepeatable? = some (item, rest)) : item.Within s ∧ rest.Within s := by
  unfold Level.popRepeatable? at hpop
  split at hpop
  · nomatch hpop
  · nomatch hpop
  · next item' items _ hitems =>
    obtain ⟨rfl, rfl⟩ := Prod.mk.inj (Option.some.inj hpop)
    have hall := h.items
    rw [hitems] at hall
    obtain ⟨hitem, hrest⟩ := List.forall_mem_cons.1 hall
    exact ⟨hitem, h.start, h.branchStart, hrest, h.branches⟩

end Level.Within

/-- All that has been read of a pattern stands in it. -/
structure State.Within (s : List Char) (st : State) : Prop where
  level : st.level.Within s
  frames : ∀ frame ∈ st.frames,
    Span.Within s ⟨frame.opener, frame.opener + 1⟩ ∧ frame.outer.Within s

namespace State

open RegexAudit.Reader RegexAudit.Regex.Reader

variable {st : State} {start : Nat}

theorem Within.push (h : st.Within s) {item : Tree} (hitem : item.Within s) :
    (st.push item).Within s := ⟨h.level.push hitem, h.frames⟩

theorem repetition_keeps {operator : Reader Span} (h : st.Within s)
    (hstart : Text.IsBoundary s start)
    (hoperator : Keeps s (fun span _ => span.Within s) (operator.run c)) :
    Keeps s (fun st' _ => st'.Within s) ((st.repetition start operator).run c) := by
  unfold repetition
  split
  · exact keeps_fail (within_empty hstart)
  · next item level hpop =>
    obtain ⟨hitem, hlevel⟩ := h.level.popRepeatable? hpop
    refine keeps_bind hoperator fun span d hd hspan => keeps_pure hd ?_
    have hrepetition : (Tree.repetition ⟨item.span.start, span.stop⟩ span item).Within s :=
      Tree.within_repetition ⟨hitem.span.start, hspan.stop⟩ hitem
    exact ⟨hlevel.push hrepetition, h.frames⟩

theorem openGroup_keeps (h : st.Within s) (hopener : Span.Within s ⟨start, start + 1⟩)
    (hc : c.In s) : Keeps s (fun st' _ => st'.Within s) ((st.openGroup start).run c) := by
  refine keeps_then (opening_keeps hopener hc) fun opening d hd => ?_
  cases opening with
  | setFlags items =>
    refine keeps_offset_then (keeps_pure hd ?_)
    have hflags : (Tree.flags ⟨start, d.offset⟩ items).Within s :=
      Tree.within_leaf (within_to hopener.start hd) fun _ => rfl
    have hlevel := h.level.push hflags
    exact ⟨⟨hlevel.start, hlevel.branchStart, hlevel.items, hlevel.branches⟩, h.frames⟩
  | group kind =>
    refine keeps_offset_then (keeps_pure hd ?_)
    exact ⟨.fresh hd.isBoundary, List.forall_mem_cons.2 ⟨⟨hopener, h.level⟩, h.frames⟩⟩

theorem closeGroup_keeps (h : st.Within s) (hcloser : Span.Within s ⟨start, start + 1⟩)
    (hc : c.In s) : Keeps s (fun st' _ => st'.Within s) ((st.closeGroup start).run c) := by
  have hframes := h.frames
  unfold closeGroup
  split
  · exact keeps_fail hcloser
  · next frame frames hstack =>
    rw [hstack] at hframes
    obtain ⟨⟨hopener, houter⟩, hframes⟩ := List.forall_mem_cons.1 hframes
    have hspan : Span.Within s ⟨frame.opener, start + 1⟩ := ⟨hopener.start, hcloser.stop⟩
    have hgroup := Tree.within_group frame.kind hspan (h.level.tree hcloser.start)
    exact keeps_pure hc ⟨houter.push hgroup, hframes⟩

/-- One step, after the character that decides it. -/
theorem step_keeps (h : st.Within s) (hc : c.In s) (hchar : (charSpan start ch).Within s)
    (hplace : c.offset = start + ch.utf8Size) :
    Keeps s (fun st' _ => st'.Within s) ((st.step start ch).run c) := by
  have hleaf : ∀ t : Tree, t.span = charSpan start ch → (∀ depth, t.overNested? depth = none) →
      Keeps s (fun st' _ => st'.Within s) ((pure (st.push t) : Reader State).run c) :=
    fun t ht hnone => keeps_pure hc (h.push (Tree.within_leaf (ht ▸ hchar) hnone))
  unfold step
  split
  · exact openGroup_keeps h hchar hc
  · exact closeGroup_keeps h hchar hc
  · exact keeps_pure hc ⟨h.level.addBranch hchar, h.frames⟩
  · refine keeps_bind (bracketed_keeps hchar.start hc) fun t d hd ht => ?_
    exact keeps_pure hd (h.push ht)
  · exact repetition_keeps h hchar.start (uncounted_keeps hchar.start hc)
  · exact repetition_keeps h hchar.start (uncounted_keeps hchar.start hc)
  · exact repetition_keeps h hchar.start (uncounted_keeps hchar.start hc)
  · exact repetition_keeps h hchar.start (counted_keeps hchar.start hc)
  · refine keeps_bind (escape_keeps hchar.start hc hplace) fun p d hd hp => keeps_pure hd ?_
    cases p with
    | literal span c' => exact h.push (Tree.within_leaf hp fun _ => rfl)
    | assertion span kind => exact h.push (Tree.within_leaf hp fun _ => rfl)
    | predefined span => exact h.push (Tree.within_leaf hp fun _ => rfl)
  · exact hleaf _ rfl fun _ => rfl
  · exact hleaf _ rfl fun _ => rfl
  · exact hleaf _ rfl fun _ => rfl
  · exact hleaf _ rfl fun _ => rfl

/-- What is read of a pattern is a tree of it, or it is refused with a span of it. -/
theorem read_within (h : st.Within s) (hc : c.In s) :
    match st.read c with
    | .ok tree => tree.Within s
    | .error fault => fault.span.Within s := by
  have hround : ∀ {st : State} {c : Cursor} {ch : Char} {cs : List Char}, st.Within s → c.In s →
      (c.skipTrivia st.level.ws).rest = ch :: cs → Keeps s (fun st' _ => st'.Within s)
        ((st.step (c.skipTrivia st.level.ws).offset ch).run
          ((c.skipTrivia st.level.ws).past [ch] cs)) := by
    intro st c ch cs h hc hrest
    obtain ⟨hskip, hpast⟩ := places_skipTrivia st.level.ws hc hrest
    exact step_keeps h hpast (within_charSpan hskip hrest) rfl
  fun_induction State.read st c with
  | case1 st c hrest =>
    have hstop := ((Cursor.reaches_skipTrivia st.level.ws c).in_source hc).isBoundary
    have hframes := h.frames
    cases hstack : st.frames with
    | nil =>
      rw [finish, hstack]
      exact h.level.tree hstop
    | cons frame frames =>
      rw [hstack] at hframes
      rw [finish, hstack]
      exact (hframes frame List.mem_cons_self).1
  | case2 st c ch cs hrest fault hstep =>
    have hkeeps := hround h hc hrest
    rw [hstep] at hkeeps
    exact hkeeps
  | case3 st c ch cs hrest st' there hstep ih =>
    have hkeeps := hround h hc hrest
    rw [hstep] at hkeeps
    exact ih hkeeps.2 hkeeps.1

end State

/-- The span of the fault of a pattern begins and ends between two of its characters, or at one of
its ends. -/
theorem within_of_parse_error {ws : Bool} {pattern : List Char} {fault : Fault}
    (h : parse ws pattern = .error fault) : fault.span.Within pattern := by
  have hplace := Cursor.ofText_in pattern
  have hfresh : State.Within pattern ⟨.fresh ws 0, [], []⟩ :=
    ⟨.fresh hplace.isBoundary, nofun⟩
  have hread := State.read_within hfresh hplace
  unfold parse at h
  split at h
  · next hfault =>
    rw [hfault] at hread
    rwa [← Except.error.inj h]
  · next tree htree =>
    rw [htree] at hread
    unfold Tree.admit at h
    split at h
    · next span hnested =>
      rw [← Except.error.inj h]
      exact hread.nested 0 span hnested
    · cases h

end Regex

end RegexAudit
