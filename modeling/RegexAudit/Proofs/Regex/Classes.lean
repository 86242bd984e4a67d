import RegexAudit.Proofs.Regex.Rounds

/-!
# Classes of a parsed pattern

The list of the classes of a tree has every class in it, those inside of other classes included.
In a pattern that is parsed each comes once, in the order of the opening brackets, and no range in
them leads backwards.

## Main definitions

* `ClassSet.HasClass`, `Tree.HasClass`: a class stands somewhere in a set or a tree.
* `Orderly`: classes in the order of their brackets, of which no range leads backwards.
* `State.classes`: the classes read so far.

## Main statements

* `Tree.mem_classes_iff`: which classes are listed.
* `State.Steps.classes`: the classes that one step adds.
* `orderly_of_parse`: the classes of a pattern that is parsed.
-/

namespace RegexAudit

namespace Regex

/-- The class stands somewhere in the contents of a class. -/
inductive ClassSet.HasClass (cls : Span × ClassSet) : ClassSet → Prop
  | self (negated : Bool) : HasClass cls (.item (.bracketed cls.1 negated cls.2))
  | inside (span : Span) (negated : Bool) (set : ClassSet) :
      HasClass cls set → HasClass cls (.item (.bracketed span negated set))
  | union (span : Span) (items : List ClassItem) (item : ClassItem) :
      item ∈ items → HasClass cls (.item item) → HasClass cls (.item (.union span items))
  | left (span : Span) (op : SetOperator) (lhs rhs : ClassSet) :
      HasClass cls lhs → HasClass cls (.operation span op lhs rhs)
  | right (span : Span) (op : SetOperator) (lhs rhs : ClassSet) :
      HasClass cls rhs → HasClass cls (.operation span op lhs rhs)

/-- The class stands somewhere in a tree, alone or in another class. -/
def Tree.HasClass (cls : Span × ClassSet) (tree : Tree) : Prop :=
  ∃ span negated set, bracketed span negated set ∈ tree.preorder ∧
    (cls = (span, set) ∨ set.HasClass cls)

variable {cls : Span × ClassSet}

theorem ClassSet.HasClass.mem_classes {set : ClassSet} (h : set.HasClass cls) :
    cls ∈ set.classes := by
  induction h with
  | self negated =>
    rw [classes, ClassItem.classes]
    exact List.mem_cons_self
  | inside span negated set _ ih =>
    rw [classes, ClassItem.classes]
    exact List.mem_cons_of_mem _ ih
  | union span items item hitem _ ih =>
    rw [classes, ClassItem.classes, ClassItem.classesAll_eq_flatMap]
    rw [classes] at ih
    exact List.mem_flatMap.2 ⟨item, hitem, ih⟩
  | left span op lhs rhs _ ih =>
    rw [classes]
    exact List.mem_append_left _ ih
  | right span op lhs rhs _ ih =>
    rw [classes]
    exact List.mem_append_right _ ih

mutual

theorem ClassItem.hasClass_of_mem : ∀ item : ClassItem, cls ∈ item.classes →
    (ClassSet.item item).HasClass cls
  | .bracketed span negated set, h => by
    rw [ClassItem.classes] at h
    obtain rfl | h := List.mem_cons.1 h
    · exact .self negated
    · exact .inside span negated set (ClassSet.hasClass_of_mem set h)
  | .union span items, h => by
    rw [ClassItem.classes] at h
    obtain ⟨item, hitem, h⟩ := ClassItem.hasClass_of_memAll items h
    exact .union span items item hitem h
  | .empty _, h | .literal .., h | .range .., h | .predefined _, h => by
    simp [ClassItem.classes] at h

theorem ClassItem.hasClass_of_memAll : ∀ items : List ClassItem, cls ∈ ClassItem.classesAll items →
    ∃ item ∈ items, (ClassSet.item item).HasClass cls
  | [], h => by simp [ClassItem.classesAll] at h
  | item :: items, h => by
    rw [ClassItem.classesAll] at h
    obtain h | h := List.mem_append.1 h
    · exact ⟨item, List.mem_cons_self, ClassItem.hasClass_of_mem item h⟩
    · obtain ⟨item', hitem, h⟩ := ClassItem.hasClass_of_memAll items h
      exact ⟨item', List.mem_cons_of_mem item hitem, h⟩

theorem ClassSet.hasClass_of_mem : ∀ set : ClassSet, cls ∈ set.classes → set.HasClass cls
  | .item item, h => ClassItem.hasClass_of_mem item (by rwa [ClassSet.classes] at h)
  | .operation span op lhs rhs, h => by
    rw [ClassSet.classes] at h
    obtain h | h := List.mem_append.1 h
    · exact .left span op lhs rhs (ClassSet.hasClass_of_mem lhs h)
    · exact .right span op lhs rhs (ClassSet.hasClass_of_mem rhs h)

end

namespace Tree

/-- A class is listed if it stands somewhere in the tree. -/
theorem mem_classes_iff {tree : Tree} : cls ∈ tree.classes ↔ tree.HasClass cls := by
  simp only [classes, List.mem_flatMap]
  constructor
  · rintro ⟨node, hnode, h⟩
    cases node with
    | bracketed span negated set =>
      refine ⟨span, negated, set, hnode, ?_⟩
      exact (List.mem_cons.1 h).imp_right (ClassSet.hasClass_of_mem set)
    | _ => cases h
  · rintro ⟨span, negated, set, hnode, h⟩
    exact ⟨_, hnode, List.mem_cons.2 (h.imp_right ClassSet.HasClass.mem_classes)⟩

section

variable {span operator : Span} {kind : GroupKind} {body tree : Tree} {trees : List Tree}

theorem classes_concat : (concat span trees).classes = trees.flatMap classes := by
  simp only [classes, preorder, preorderAll_eq_flatMap, List.flatMap_cons, List.nil_append,
    List.flatMap_assoc]
  rfl

theorem classes_alternation : (alternation span trees).classes = trees.flatMap classes := by
  simp only [classes, preorder, preorderAll_eq_flatMap, List.flatMap_cons, List.nil_append,
    List.flatMap_assoc]
  rfl

theorem classes_group : (group span kind body).classes = body.classes := by
  simp [classes, preorder]

theorem classes_repetition : (repetition span operator body).classes = body.classes := by
  simp [classes, preorder]

theorem IsLeaf.classes (h : tree.IsLeaf) : tree.classes = [] := by
  cases tree with
  | empty | flags | literal | dot | assertion | predefined => rfl
  | _ => cases h

end

end Tree

namespace Level

variable {level : Level} {stop : Nat}

/-- The classes read at a level. -/
def classes (level : Level) : List (Span × ClassSet) :=
  level.branches.reverse.flatMap Tree.classes ++ level.items.reverse.flatMap Tree.classes

theorem classes_push (item : Tree) :
    (level.push item).classes = level.classes ++ item.classes := by
  simp [classes, push]

theorem classes_branch :
    (level.branch stop).classes = level.items.reverse.flatMap Tree.classes := by
  unfold branch
  split
  · next hitems =>
    rw [hitems]
    rfl
  · next item hitems => simp [hitems]
  · exact Tree.classes_concat

theorem classes_addBranch : (level.addBranch stop).classes = level.classes := by
  simp [classes, addBranch, classes_branch]

theorem classes_tree : (level.tree stop).classes = level.classes := by
  unfold tree
  split
  · next hbranches => simp [classes, classes_branch, hbranches]
  · rw [Tree.classes_alternation]
    simp [classes, classes_branch]

/-- Repeating an item leaves its classes where they are. -/
theorem classes_repetition {item : Tree} {rest : Level} {span operator : Span}
    (hpop : level.popRepeatable? = some (item, rest)) :
    (rest.push (.repetition span operator item)).classes = level.classes := by
  obtain ⟨items, hitems, rfl⟩ := popRepeatable?_eq_some hpop
  simp [classes, push, hitems, Tree.classes_repetition]

end Level

/-- The classes begin one behind the other and before an offset, and no range in them leads
backwards. -/
structure Orderly (stop : Nat) (classes : List (Span × ClassSet)) : Prop where
  increasing : (openings classes).Pairwise (· < ·)
  below : ∀ n ∈ openings classes, n < stop
  forward : AllForward classes

namespace Orderly

variable {classes : List (Span × ClassSet)} {start stop : Nat}

theorem nil : Orderly stop [] :=
  ⟨.nil, by simp [openings], allForward_nil⟩

theorem mono (h : Orderly start classes) (hle : start ≤ stop) : Orderly stop classes :=
  ⟨h.increasing, fun n hn => Nat.lt_of_lt_of_le (h.below n hn) hle, h.forward⟩

/-- A bracket that stands behind all classes adds its own. -/
theorem append (h : Orderly start classes) {t : Tree} (ht : t.IsClass start stop)
    (hforward : t.IsForward) (hlt : start < stop) : Orderly stop (classes ++ t.classes) := by
  constructor
  · rw [openings, List.map_append]
    refine List.pairwise_append.2 ⟨h.increasing, ht.ascends.increasing, fun n hn m hm => ?_⟩
    exact Nat.lt_of_lt_of_le (h.below n hn) (ht.ascends.le_of_mem hm)
  · rw [openings, List.map_append]
    refine List.forall_mem_append.2 ⟨?_, ht.ascends.below⟩
    exact fun n hn => Nat.lt_trans (h.below n hn) hlt
  · exact allForward_append h.forward hforward

end Orderly

namespace State

variable {st st' : State} {here there : Cursor} {ch : Char} {start stop : Nat}

/-- The classes read so far, from the outermost level to that of the place. -/
def classes (st : State) : List (Span × ClassSet) :=
  (st.frames.reverse.flatMap fun frame => frame.outer.classes) ++ st.level.classes

/-- A step adds the classes of one bracket, or none. -/
theorem Steps.classes (h : st.Steps ch start stop st') : st'.classes = st.classes ∨
    ∃ t : Tree, t.IsClass start stop ∧ t.IsForward ∧ st'.classes = st.classes ++ t.classes := by
  cases h with
  | leaf t hleaf hspan =>
    left
    simp [State.classes, State.push, Level.classes_push, hleaf.classes]
  | bracketed t ht hforward =>
    refine .inr ⟨t, ht, hforward, ?_⟩
    simp [State.classes, State.push, Level.classes_push]
  | repetition t rest hpop =>
    left
    simp [State.classes, Level.classes_repetition hpop]
  | bar =>
    left
    simp [State.classes, Level.classes_addBranch]
  | setFlags items ws =>
    left
    have hflags : (Tree.flags ⟨start, stop⟩ items).classes = [] := Tree.IsLeaf.classes trivial
    simp [State.classes, Level.classes, Level.push, hflags]
  | openGroup kind ws names =>
    left
    simp [State.classes, Level.classes, Level.fresh]
  | closeGroup frame frames hframes hstop =>
    left
    simp [State.classes, Level.classes_push, hframes, Tree.classes_group, Level.classes_tree]

/-- One round of reading. -/
theorem orderly_round (h : Orderly here.offset st.classes) (hround : st.Round here ch st' there) :
    Orderly there.offset st'.classes := by
  have hskip := h.mono (Cursor.reaches_skipTrivia st.level.ws here).offset_le
  have hlt := hround.offset_lt
  obtain hsame | ⟨t, ht, hforward, hadded⟩ := hround.steps.classes
  · rw [hsame]
    exact hskip.mono (Nat.le_of_lt hlt)
  · rw [hadded]
    exact hskip.append ht hforward hlt

end State

/-- The classes of a pattern that is parsed are listed in the order of their opening brackets, and
no range in them leads backwards. -/
theorem orderly_of_parse {ws : Bool} {pattern : List Char} {tree : Tree}
    (h : parse ws pattern = .ok tree) : ∃ stop, Orderly stop tree.classes := by
  obtain ⟨hread, -⟩ := parse_eq_ok_iff.1 h
  obtain ⟨last, there, hlast, hframes, rfl⟩ := State.read_invariant
    (fun st here ch st' there h => State.orderly_round h) hread .nil
  refine ⟨there.offset, ?_⟩
  rwa [State.classes, hframes, List.reverse_nil, List.flatMap_nil, List.nil_append,
    ← Level.classes_tree] at hlast

theorem isForward_of_parse {ws : Bool} {pattern : List Char} {tree : Tree}
    (h : parse ws pattern = .ok tree) : tree.IsForward := by
  obtain ⟨stop, horderly⟩ := orderly_of_parse h
  exact horderly.forward

end Regex

end RegexAudit
