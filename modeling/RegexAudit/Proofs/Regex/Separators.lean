import Mathlib.Data.List.Chain
import RegexAudit.Proofs.Regex.Rounds

/-!
# Separators of branches

Between two branches of an alternation stands one bar, and beside it only space and comments.

## Main definitions

* `OnlyTrivia`: nothing but space and comments stands between two offsets.
* `SeparatedBy`: a bar separates two trees.
* `Tree.Every`: a property of all nodes of a tree outside of classes.
* `Level.IsBarred`: bars separate what has been read at a level.

## Main statements

* `ClosedBy.unique`: a tree is closed by one bar only.
* `State.IsBarred.round`: one round of reading.
* `isBarred_of_parse`: bars separate the branches of a pattern that is parsed.
-/

namespace RegexAudit

namespace Regex

variable {pattern : List Char} {lo hi : Nat}

/-- Nothing but space and comments stands between two offsets. -/
def OnlyTrivia (pattern : List Char) (lo hi : Nat) : Prop :=
  ∃ text, Text.slice? pattern ⟨lo, hi⟩ = some text ∧ Text.IsTrivia text

namespace OnlyTrivia

theorem of_drop? {rest : List Char} (h : Text.drop? lo pattern = some rest) :
    OnlyTrivia pattern lo lo :=
  ⟨[], Text.slice?_eq_some_iff_drop?.2 ⟨rest, h, rfl⟩, .nil⟩

theorem left (h : OnlyTrivia pattern lo hi) : OnlyTrivia pattern lo lo := by
  obtain ⟨text, htext, -⟩ := h
  obtain ⟨rest, hdrop, -⟩ := Text.slice?_eq_some_iff_drop?.1 htext
  exact of_drop? hdrop

theorem right (h : OnlyTrivia pattern lo hi) : OnlyTrivia pattern hi hi := by
  obtain ⟨text, htext, -⟩ := h
  obtain ⟨rest, hdrop, rfl⟩ := Text.slice?_eq_some_iff_drop?.1 htext
  exact of_drop? (Text.drop?_append hdrop)

theorem of_in_source {c : Cursor} (h : c.In pattern) : OnlyTrivia pattern c.offset c.offset :=
  of_drop? (Text.drop?_eq_some_iff.2 h)

end OnlyTrivia

/-- What is ignored before a further character is space and comments. -/
theorem onlyTrivia_skipTrivia {ws : Bool} {c : Cursor} (hc : c.In pattern)
    (hrest : (c.skipTrivia ws).rest ≠ []) :
    OnlyTrivia pattern c.offset (c.skipTrivia ws).offset := by
  obtain ⟨text, hreads, htrivia⟩ := c.skipTrivia_reads ws
  exact ⟨text, hreads.slice? hc, htrivia hrest⟩

/-- A bar stands behind a tree, with only space and comments before it. -/
structure ClosedBy (pattern : List Char) (left : Tree) (bar : Nat) : Prop where
  before : OnlyTrivia pattern left.span.stop bar
  mark : Text.slice? pattern ⟨bar, bar + 1⟩ = some ['|']

/-- A bar separates two trees: only space and comments stand on either side of it. -/
structure SeparatedBy (pattern : List Char) (left right : Tree) (bar : Nat) : Prop
    extends ClosedBy pattern left bar where
  behind : OnlyTrivia pattern (bar + 1) right.span.start

/-- The bar behind a tree is where passing over space and comments ends. -/
theorem ClosedBy.exists_skip {left : Tree} {bar : Nat} (h : ClosedBy pattern left bar) :
    ∃ rest, Text.drop? left.span.stop pattern = some rest ∧
      (Cursor.skipTriviaFrom false left.span.stop rest).offset = bar := by
  obtain ⟨text, htext, htrivia⟩ := h.before
  obtain ⟨rest, hdrop, rfl⟩ := Text.slice?_eq_some_iff_drop?.1 htext
  obtain ⟨more, hmark, -⟩ := Text.slice?_eq_some_iff_drop?.1 h.mark
  obtain rfl := Option.some.inj ((Text.drop?_append hdrop).symm.trans hmark)
  refine ⟨_, hdrop, ?_⟩
  rw [List.cons_append, Cursor.skipTriviaFrom_append htrivia _ rfl (by decide)]

/-- A tree is closed by one bar only. -/
theorem ClosedBy.unique {left : Tree} {bar bar' : Nat} (h : ClosedBy pattern left bar)
    (h' : ClosedBy pattern left bar') : bar = bar' := by
  obtain ⟨rest, hdrop, hbar⟩ := h.exists_skip
  obtain ⟨rest', hdrop', hbar'⟩ := h'.exists_skip
  obtain rfl := Option.some.inj (hdrop.symm.trans hdrop')
  exact hbar.symm.trans hbar'

namespace Tree

/-- All nodes of the tree outside of classes have the property. -/
def Every (p : Tree → Prop) (tree : Tree) : Prop := ∀ t ∈ tree.preorder, p t

variable {p : Tree → Prop} {span operator : Span} {kind : GroupKind} {body : Tree}
  {trees : List Tree}

theorem every_repetition (h : p (repetition span operator body)) (hbody : body.Every p) :
    (repetition span operator body).Every p := by
  rw [Every, preorder]
  exact List.forall_mem_cons.2 ⟨h, hbody⟩

theorem every_group (h : p (group span kind body)) (hbody : body.Every p) :
    (group span kind body).Every p := by
  rw [Every, preorder]
  exact List.forall_mem_cons.2 ⟨h, hbody⟩

theorem every_preorderAll (h : ∀ tree ∈ trees, tree.Every p) : ∀ t ∈ preorderAll trees, p t := by
  rw [preorderAll_eq_flatMap]
  intro t ht
  obtain ⟨tree, htree, ht⟩ := List.mem_flatMap.1 ht
  exact h tree htree t ht

theorem every_concat (h : p (concat span trees)) (htrees : ∀ tree ∈ trees, tree.Every p) :
    (concat span trees).Every p := by
  rw [Every, preorder]
  exact List.forall_mem_cons.2 ⟨h, every_preorderAll htrees⟩

theorem every_alternation (h : p (alternation span trees))
    (htrees : ∀ tree ∈ trees, tree.Every p) : (alternation span trees).Every p := by
  rw [Every, preorder]
  exact List.forall_mem_cons.2 ⟨h, every_preorderAll htrees⟩

/-- If the node is an alternation, it has at least two branches, and bars separate them. -/
def Barred (pattern : List Char) : Tree → Prop
  | alternation _ branches => 2 ≤ branches.length ∧
      branches.IsChain fun left right => ∃ bar, SeparatedBy pattern left right bar
  | _ => True

theorem IsLeaf.every_barred {tree : Tree} (h : tree.IsLeaf) : tree.Every (Barred pattern) := by
  cases tree with
  | empty | flags | literal | dot | assertion | predefined =>
    exact List.forall_mem_singleton.2 trivial
  | _ => cases h

end Tree

namespace Level

variable {level : Level} {stop : Nat}

/-- The offset up to which a level has been read. -/
def reach (level : Level) : Nat := level.items.head?.elim level.branchStart (·.span.stop)

/-- Bars separate what has been read at a level. The first item of the current branch comes behind
the last bar. -/
structure IsBarred (pattern : List Char) (level : Level) : Prop where
  branches : ∀ tree ∈ level.branches, tree.Every (Tree.Barred pattern)
  items : ∀ tree ∈ level.items, tree.Every (Tree.Barred pattern)
  first : ∀ item ∈ level.items.getLast?, OnlyTrivia pattern level.branchStart item.span.start
  chain : level.branches.reverse.IsChain fun left right => ∃ bar, SeparatedBy pattern left right bar
  last : ∀ branch ∈ level.branches.head?, ∃ bar,
    ClosedBy pattern branch bar ∧ level.branchStart = bar + 1

theorem reach_of_items_eq_nil (h : level.items = []) : level.reach = level.branchStart := by
  rw [reach, h]
  rfl

theorem reach_of_items_eq_cons {item : Tree} {items : List Tree} (h : level.items = item :: items) :
    level.reach = item.span.stop := by
  rw [reach, h]
  rfl

/-- Only space and comments stand between the end of a branch and the bar that ends it. -/
theorem onlyTrivia_branch_stop (h : OnlyTrivia pattern level.reach stop) :
    OnlyTrivia pattern (level.branch stop).span.stop stop := by
  unfold branch
  split
  · exact h.right
  · next item hitems =>
    rw [List.reverse_eq_iff] at hitems
    rwa [reach_of_items_eq_cons hitems] at h
  · exact h.right

namespace IsBarred

theorem fresh {ws : Bool} {start : Nat} : (Level.fresh ws start).IsBarred pattern := by
  constructor <;> simp [Level.fresh]

/-- Whether space is ignored does not matter for what has been read. -/
theorem setSpace (h : level.IsBarred pattern) {ws : Bool} :
    Level.IsBarred pattern { level with ws } :=
  ⟨h.branches, h.items, h.first, h.chain, h.last⟩

theorem push (h : level.IsBarred pattern) {item : Tree} (hitem : item.Every (Tree.Barred pattern))
    (hstart : OnlyTrivia pattern level.reach item.span.start) :
    (level.push item).IsBarred pattern := by
  refine ⟨h.branches, List.forall_mem_cons.2 ⟨hitem, h.items⟩, ?_, h.chain, h.last⟩
  rintro first (hfirst : (item :: level.items).getLast? = some first)
  cases hitems : level.items with
  | nil =>
    -- the new item is the first one, and the level has been read up to the beginning of the branch
    rw [hitems, List.getLast?_singleton] at hfirst
    obtain rfl := Option.some.inj hfirst
    rwa [reach_of_items_eq_nil hitems] at hstart
  | cons last items =>
    rw [hitems, List.getLast?_cons_cons, ← hitems] at hfirst
    exact h.first first hfirst

/-- A repetition takes the place of the item that it repeats. -/
theorem repetition (h : level.IsBarred pattern) {item : Tree} {rest : Level} {operator : Span}
    (hpop : level.popRepeatable? = some (item, rest)) :
    (rest.push (.repetition ⟨item.span.start, stop⟩ operator item)).IsBarred pattern := by
  obtain ⟨items, hitems, rfl⟩ := popRepeatable?_eq_some hpop
  have hall := h.items
  rw [hitems] at hall
  obtain ⟨hitem, hrest⟩ := List.forall_mem_cons.1 hall
  refine ⟨h.branches, List.forall_mem_cons.2 ⟨Tree.every_repetition trivial hitem, hrest⟩, ?_,
    h.chain, h.last⟩
  have hfirst := h.first
  rw [hitems] at hfirst
  cases items with
  | nil =>
    -- the repetition begins where its item does
    rintro _ ⟨⟩
    exact hfirst item rfl
  | cons last items =>
    intro first hmem
    exact hfirst first hmem

theorem branch (h : level.IsBarred pattern) :
    (level.branch stop).Every (Tree.Barred pattern) := by
  have hreverse : ∀ tree ∈ level.items.reverse, tree.Every (Tree.Barred pattern) :=
    fun tree htree => h.items tree (List.mem_reverse.1 htree)
  unfold Level.branch
  split
  · exact Tree.IsLeaf.every_barred trivial
  · next item hitems => exact hreverse item (by simp [hitems])
  · exact Tree.every_concat trivial hreverse

/-- Only space and comments stand between the beginning of a branch and its first item. -/
theorem onlyTrivia_branch_start (h : level.IsBarred pattern)
    (hreach : OnlyTrivia pattern level.reach level.reach) :
    OnlyTrivia pattern level.branchStart (level.branch stop).span.start := by
  unfold Level.branch
  split
  · next hitems =>
    rw [List.reverse_eq_nil_iff] at hitems
    rwa [reach_of_items_eq_nil hitems] at hreach
  · next item hitems =>
    rw [List.reverse_eq_iff] at hitems
    exact h.first item (by simp [hitems])
  · next hne _ =>
    rw [List.reverse_eq_nil_iff] at hne
    exact (h.first _ (List.getLast?_eq_getLast_of_ne_nil hne)).left

/-- Bars separate the finished branches and the current one. -/
theorem chain_branch (h : level.IsBarred pattern)
    (hreach : OnlyTrivia pattern level.reach level.reach) :
    (level.branches.reverse ++ [level.branch stop]).IsChain fun left right =>
      ∃ bar, SeparatedBy pattern left right bar := by
  refine List.isChain_append.2 ⟨h.chain, .singleton _, ?_⟩
  rintro last hlast _ ⟨⟩
  rw [List.getLast?_reverse] at hlast
  obtain ⟨bar, hclosed, hstart⟩ := h.last last hlast
  refine ⟨bar, hclosed, ?_⟩
  rw [← hstart]
  exact h.onlyTrivia_branch_start hreach

theorem addBranch (h : level.IsBarred pattern) {bar : Nat}
    (hreach : OnlyTrivia pattern level.reach bar)
    (hmark : Text.slice? pattern ⟨bar, bar + 1⟩ = some ['|']) :
    (level.addBranch bar).IsBarred pattern := by
  refine ⟨List.forall_mem_cons.2 ⟨h.branch, h.branches⟩, by simp [Level.addBranch],
    by simp [Level.addBranch], ?_, ?_⟩
  · simp only [Level.addBranch, List.reverse_cons]
    exact h.chain_branch hreach.left
  · rintro _ ⟨⟩
    exact ⟨bar, ⟨onlyTrivia_branch_stop hreach, hmark⟩, rfl⟩

theorem tree (h : level.IsBarred pattern) (hreach : OnlyTrivia pattern level.reach level.reach) :
    (level.tree stop).Every (Tree.Barred pattern) := by
  unfold Level.tree
  split
  · exact h.branch
  · next hne =>
    refine Tree.every_alternation ⟨?_, h.chain_branch hreach⟩ ?_
    · have hpos := List.length_pos_iff.2 hne
      simp only [List.length_append, List.length_singleton]
      omega
    · refine List.forall_mem_append.2 ⟨?_, List.forall_mem_singleton.2 h.branch⟩
      exact fun tree htree => h.branches tree (List.mem_reverse.1 htree)

end IsBarred

end Level

/-- Bars separate what has been read, at the level of the place and at those that open groups
interrupt. -/
structure State.IsBarred (pattern : List Char) (st : State) (here : Cursor) : Prop where
  level : st.level.IsBarred pattern
  frames : ∀ frame ∈ st.frames, frame.outer.IsBarred pattern ∧
    OnlyTrivia pattern frame.outer.reach frame.opener
  reach : st.level.reach = here.offset
  in_source : here.In pattern

namespace State.IsBarred

variable {st st' : State} {here there : Cursor} {ch : Char}

theorem fresh {ws : Bool} : State.IsBarred pattern ⟨.fresh ws 0, [], []⟩ (.ofText pattern) :=
  ⟨.fresh, by simp, rfl, Cursor.ofText_in pattern⟩

theorem push (h : st.IsBarred pattern here) {start : Nat}
    (hgap : OnlyTrivia pattern st.level.reach start) (hthere : there.In pattern) {item : Tree}
    (hitem : item.Every (Tree.Barred pattern)) (hspan : item.span = ⟨start, there.offset⟩) :
    (st.push item).IsBarred pattern there := by
  refine ⟨h.level.push hitem ?_, h.frames, congrArg Span.stop hspan, hthere⟩
  rwa [hspan]

/-- One round of reading. -/
theorem round (h : st.IsBarred pattern here) (hround : st.Round here ch st' there) :
    st'.IsBarred pattern there := by
  have hthere := hround.in_source h.in_source
  obtain ⟨⟨cs, hrest, -⟩, hsteps⟩ := hround
  have hgap : OnlyTrivia pattern st.level.reach (here.skipTrivia st.level.ws).offset := by
    rw [h.reach]
    exact onlyTrivia_skipTrivia h.in_source (by simp [hrest])
  cases hsteps with
  | leaf t hleaf hspan => exact h.push hgap hthere hleaf.every_barred hspan
  | bracketed t ht _ =>
    obtain ⟨negated, set, rfl⟩ := ht.bracketed
    exact h.push hgap hthere (List.forall_mem_singleton.2 trivial) rfl
  | repetition t rest hpop => exact ⟨h.level.repetition hpop, h.frames, rfl, hthere⟩
  | bar hch hstop =>
    subst hch
    have hmark := (@Cursor.reads_past _ ['|'] _ hrest).slice?
      ((Cursor.reaches_skipTrivia st.level.ws here).in_source h.in_source)
    exact ⟨h.level.addBranch hgap hmark, h.frames, hstop.symm, hthere⟩
  | setFlags items ws =>
    refine ⟨(h.level.push ?_ ?_).setSpace, h.frames, rfl, hthere⟩
    · exact Tree.IsLeaf.every_barred trivial
    · exact hgap
  | openGroup kind ws names =>
    exact ⟨.fresh, List.forall_mem_cons.2 ⟨⟨h.level, hgap⟩, h.frames⟩, rfl, hthere⟩
  | closeGroup frame frames hframes hstop =>
    have hall := h.frames
    rw [hframes] at hall
    obtain ⟨⟨houter, hopener⟩, hrest⟩ := List.forall_mem_cons.1 hall
    refine ⟨houter.push ?_ hopener, hrest, rfl, hthere⟩
    exact Tree.every_group trivial (h.level.tree hgap.left)

end State.IsBarred

/-- Bars separate the branches of a pattern that is parsed. -/
theorem isBarred_of_parse {ws : Bool} {tree : Tree} (h : parse ws pattern = .ok tree) :
    tree.Every (Tree.Barred pattern) := by
  obtain ⟨hread, -⟩ := parse_eq_ok_iff.1 h
  obtain ⟨last, there, hlast, -, rfl⟩ := State.read_invariant
    (fun st here ch st' there h => h.round) hread State.IsBarred.fresh
  refine hlast.level.tree ?_
  rw [hlast.reach]
  exact .of_in_source hlast.in_source

end Regex

end RegexAudit
