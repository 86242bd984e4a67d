import RegexAudit.Check.DuplicateClassChars

/-!
# Ranges of classes

No range in a class that is read leads backwards.

## Main definitions

* `Reader.Yields`: a property of whatever a reader yields.
* `ClassSet.IsForward`, `Tree.IsForward`: no range in a set or a tree leads backwards.

## Main statements

* `Reader.classStep_yields`: one step in a class.
* `readClass_isForward`, `Reader.bracketed_yields`: the rest of a class, and a whole one.
-/

namespace RegexAudit

namespace Regex

/-- The item is no range that leads backwards. -/
def ClassItem.IsForward : ClassItem → Prop
  | .range _ first last => first ≤ last
  | _ => True

/-- No item of any of the classes is a range that leads backwards. -/
def AllForward (classes : List (Span × ClassSet)) : Prop :=
  ∀ cls ∈ classes, ∀ item ∈ cls.2.items, item.IsForward

/-- Neither the set nor a class inside it has a range that leads backwards. -/
structure ClassSet.IsForward (set : ClassSet) : Prop where
  items : ∀ item ∈ set.items, item.IsForward
  classes : AllForward set.classes

/-- No class of the tree has a range that leads backwards. -/
def Tree.IsForward (tree : Tree) : Prop := AllForward tree.classes

theorem allForward_nil : AllForward [] := by
  simp [AllForward]

theorem allForward_append {left right : List (Span × ClassSet)} (hl : AllForward left)
    (hr : AllForward right) : AllForward (left ++ right) :=
  List.forall_mem_append.2 ⟨hl, hr⟩

theorem allForward_cons {span : Span} {set : ClassSet} (h : set.IsForward) :
    AllForward ((span, set) :: set.classes) :=
  List.forall_mem_cons.2 ⟨h.items, h.classes⟩

theorem allForward_flatMap {α : Type} {l : List α} {f : α → List (Span × ClassSet)}
    (h : ∀ a ∈ l, AllForward (f a)) : AllForward (l.flatMap f) := by
  intro cls hcls
  obtain ⟨a, ha, hcls⟩ := List.mem_flatMap.1 hcls
  exact h a ha cls hcls

namespace ClassItem

theorem classesAll_eq_flatMap (items : List ClassItem) :
    classesAll items = items.flatMap classes := by
  induction items with
  | nil => rw [classesAll, List.flatMap_nil]
  | cons item items ih => rw [classesAll, List.flatMap_cons, ih]

/-- An item is no range that leads backwards if the set of it alone has none. -/
theorem isForward_of_set {item : ClassItem} (h : (ClassSet.item item).IsForward) :
    item.IsForward := by
  cases item with
  | range span first last => exact h.items _ (List.mem_singleton.2 rfl)
  | _ => trivial

/-- The set of an item that holds no class has no range but that item. -/
theorem set_isForward {item : ClassItem} (h : item.IsForward)
    (hitems : (ClassSet.item item).items = [item]) (hclasses : item.classes = []) :
    (ClassSet.item item).IsForward := by
  refine ⟨?_, ?_⟩
  · rw [hitems]
    exact List.forall_mem_singleton.2 h
  · rw [ClassSet.classes, hclasses]
    exact allForward_nil

theorem literal_isForward {span : Span} {c : Char} :
    (ClassSet.item (.literal span c)).IsForward :=
  set_isForward trivial rfl (by simp [classes])

theorem predefined_isForward {span : Span} : (ClassSet.item (.predefined span)).IsForward :=
  set_isForward trivial rfl (by simp [classes])

theorem bracketed_isForward {span : Span} {negated : Bool} {set : ClassSet} (h : set.IsForward) :
    (ClassSet.item (.bracketed span negated set)).IsForward := by
  refine ⟨List.forall_mem_singleton.2 trivial, ?_⟩
  rw [ClassSet.classes, classes]
  exact allForward_cons h

theorem union_isForward {span : Span} {items : List ClassItem}
    (h : ∀ item ∈ items, (ClassSet.item item).IsForward) :
    (ClassSet.item (.union span items)).IsForward := by
  refine ⟨fun item hitem => isForward_of_set (h item hitem), ?_⟩
  rw [ClassSet.classes, classes, classesAll_eq_flatMap]
  refine allForward_flatMap fun item hitem => ?_
  have hclasses := (h item hitem).classes
  rwa [ClassSet.classes] at hclasses

end ClassItem

/-- Nothing read so far in a class has a range that leads backwards. -/
structure OpenClass.IsForward (c : OpenClass) : Prop where
  items : ∀ item ∈ c.items, (ClassSet.item item).IsForward
  pending : ∀ op lhs, c.pending = some (op, lhs) → lhs.IsForward

namespace OpenClass.IsForward

variable {c : OpenClass}

theorem push (h : c.IsForward) {item : ClassItem} (hitem : (ClassSet.item item).IsForward) :
    (c.push item).IsForward :=
  ⟨List.forall_mem_cons.2 ⟨hitem, h.items⟩, h.pending⟩

theorem operand (h : c.IsForward) : (ClassSet.item c.operand).IsForward := by
  have hreverse : ∀ item ∈ c.items.reverse, (ClassSet.item item).IsForward :=
    fun item hitem => h.items item (List.mem_reverse.1 hitem)
  unfold OpenClass.operand
  split
  · exact ClassItem.set_isForward trivial rfl (by simp [ClassItem.classes])
  · next item hitems => exact hreverse item (by simp [hitems])
  · next first more hne hitems =>
    refine ClassItem.union_isForward fun item hitem => hreverse item ?_
    rw [hitems]
    exact hitem

theorem set (h : c.IsForward) : c.set.IsForward := by
  unfold OpenClass.set
  dsimp only
  split
  · exact h.operand
  · next op lhs hpending =>
    refine ⟨by simp [ClassSet.items], ?_⟩
    rw [ClassSet.classes]
    exact allForward_append (h.pending op lhs hpending).classes h.operand.classes

theorem operate (h : c.IsForward) (op : SetOperator) (start : Nat) :
    (c.operate op start).IsForward := by
  refine ⟨by simp [OpenClass.operate], ?_⟩
  rintro op' lhs ⟨⟩
  exact h.set

end OpenClass.IsForward

namespace Reader

open RegexAudit.Reader

variable {α β : Type}

/-- Whatever the reader yields has the property. -/
structure Yields (r : Reader α) (property : α → Prop) : Prop where
  of_run : ∀ {c a d}, r.run c = .ok (a, d) → property a

variable {property : α → Prop} {next : β → Prop}

theorem yields_true (r : Reader α) : r.Yields fun _ => True := ⟨fun _ => trivial⟩

theorem yields_fail {cause : Cause} {span : Span} :
    (fail cause span : Reader α).Yields property := by
  constructor
  intro c a d h
  cases h

theorem yields_pure {a : α} (h : property a) : (pure a : Reader α).Yields property := by
  constructor
  rintro c _ d ⟨⟩
  exact h

theorem Yields.bind {r : Reader α} {f : α → Reader β} (hr : r.Yields property)
    (hf : ∀ a, property a → (f a).Yields next) : (r >>= f).Yields next := by
  constructor
  intro c b d h
  simp only [Bind.bind, RegexAudit.Reader.bind] at h
  split at h
  · cases h
  · next a c' hrun => exact (hf a (hr.of_run hrun)).of_run h

/-- A step of which the value does not matter. -/
theorem Yields.after {r : Reader α} {f : α → Reader β} (hf : ∀ a, (f a).Yields next) :
    (r >>= f).Yields next :=
  (yields_true r).bind fun a _ => hf a

variable {ws : Bool} {start : Nat} {ch : Char}

theorem leadingHyphens_yields {room : Nat} {items : List ClassItem}
    (h : ∀ item ∈ items, (ClassSet.item item).IsForward) :
    (leadingHyphens ws start room items).Yields fun items =>
      ∀ item ∈ items, (ClassSet.item item).IsForward := by
  induction room generalizing items with
  | zero => exact yields_pure h
  | succ room ih =>
    rw [leadingHyphens]
    refine .after fun _ => ?_
    split
    · refine .after fun hyphen => .after fun _ => .after fun _ => ih ?_
      exact List.forall_mem_cons.2 ⟨ClassItem.literal_isForward, h⟩
    · exact yields_pure h

theorem openClass_yields : (openClass ws start).Yields OpenClass.IsForward := by
  have hfresh : ∀ {opener negated itemsStart items},
      (∀ item ∈ items, (ClassSet.item item).IsForward) →
        OpenClass.IsForward ⟨opener, negated, none, itemsStart, items⟩ := by
    intro _ _ _ _ hitems
    exact ⟨hitems, by simp⟩
  unfold openClass
  refine .after fun _ => .after fun _ => .after fun _ => ?_
  extract_lets negated rest
  have hrest : ∀ u, (rest u).Yields OpenClass.IsForward := by
    intro _
    refine .after fun here => ?_
    refine (leadingHyphens_yields (by simp)).bind fun hyphens hhyphens => ?_
    refine .after fun bracket => .after fun _ => ?_
    split
    · refine .after fun _ => .after fun _ => .after fun _ => yields_pure (hfresh ?_)
      exact List.forall_mem_singleton.2 ClassItem.literal_isForward
    · exact .after fun _ => yields_pure (hfresh hhyphens)
  split
  · exact .after fun _ => .after hrest
  · exact hrest ()

theorem singleItem_yields (p : Primitive) :
    (singleItem p).Yields fun item => (ClassSet.item item).IsForward := by
  cases p with
  | literal => exact yields_pure ClassItem.literal_isForward
  | predefined => exact yields_pure ClassItem.predefined_isForward
  | assertion => exact yields_fail

/-- A range of which the ends are the wrong way round is refused. -/
theorem itemOrRange_yields {opener : Span} :
    (itemOrRange ws opener start ch).Yields fun item => (ClassSet.item item).IsForward := by
  unfold itemOrRange
  refine .after fun first => .after fun _ => .after fun _ => .after fun _ => ?_
  split
  · refine .after fun _ => .after fun _ => .after fun _ => .after fun _ => ?_
    refine .after fun _ => .after fun lo => .after fun hi => ?_
    dsimp only
    split
    · exact yields_fail
    · next hle =>
      refine yields_pure (ClassItem.set_isForward (Char.not_lt.1 hle) rfl ?_)
      simp [ClassItem.classes]
  · exact singleItem_yields first

end Reader

/-- Neither the tree of a finished class nor the classes that are open have a range that leads
backwards. -/
def ClassProgress.IsForward : ClassProgress → Prop
  | .finished tree => tree.IsForward
  | .inside innermost outer => innermost.IsForward ∧ ∀ c ∈ outer, c.IsForward

namespace Tree

theorem bracketed_isForward {span : Span} {negated : Bool} {set : ClassSet} (h : set.IsForward) :
    (Tree.bracketed span negated set).IsForward := by
  simpa [IsForward, classes, preorder] using allForward_cons h

end Tree

/-- One step in a class. -/
theorem Reader.classStep_yields {ws : Bool} {c : OpenClass} {outer : List OpenClass} {start : Nat}
    {ch : Char} (hc : c.IsForward) (houter : ∀ c ∈ outer, c.IsForward) :
    (classStep ws c outer start ch).Yields ClassProgress.IsForward := by
  unfold classStep
  split
  · -- a class inside the class
    refine .after fun _ => ?_
    split
    · refine .after fun _ => .after fun _ => yields_pure ?_
      exact ⟨hc.push ClassItem.predefined_isForward, houter⟩
    · refine openClass_yields.bind fun inner hinner => yields_pure ?_
      exact ⟨hinner, List.forall_mem_cons.2 ⟨hc, houter⟩⟩
  split
  · -- the end of the class
    refine .after fun _ => ?_
    dsimp only
    cases outer with
    | nil => exact yields_pure (Tree.bracketed_isForward hc.set)
    | cons parent outer =>
      obtain ⟨hparent, houter⟩ := List.forall_mem_cons.1 houter
      exact yields_pure ⟨hparent.push (ClassItem.bracketed_isForward hc.set), houter⟩
  · -- an operator or an item
    refine .after fun _ => ?_
    split
    · next op _ => exact .after fun _ => .after fun _ => yields_pure ⟨hc.operate op _, houter⟩
    · exact itemOrRange_yields.bind fun item hitem => yields_pure ⟨hc.push hitem, houter⟩

/-- The rest of a class. -/
theorem readClass_isForward {ws : Bool} {c : OpenClass} {outer : List OpenClass}
    {here there : Cursor} {tree : Tree} (hc : c.IsForward) (houter : ∀ c ∈ outer, c.IsForward)
    (h : readClass ws c outer here = .ok (tree, there)) : tree.IsForward := by
  fun_induction readClass ws c outer here with
  | case1 => cases h
  | case2 => cases h
  | case3 c outer here ch cs hrest tree' there' hstep =>
    cases h
    exact (Reader.classStep_yields hc houter).of_run hstep
  | case4 c outer here ch cs hrest c' outer' there' hstep ih =>
    obtain ⟨hc', houter'⟩ := (Reader.classStep_yields hc houter).of_run hstep
    exact ih hc' houter' h

theorem Reader.bracketed_yields {ws : Bool} {start : Nat} :
    (Reader.bracketed ws start).Yields Tree.IsForward := by
  refine openClass_yields.bind fun c hc => ⟨?_⟩
  intro here tree there h
  exact readClass_isForward hc (by simp) h

end Regex

end RegexAudit
