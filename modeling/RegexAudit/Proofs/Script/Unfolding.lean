import Mathlib.Data.List.Nodup
import Mathlib.Data.Set.Card
import RegexAudit.Proofs.Script.Expansion

/-!
# Flattening is bounded unfolding

Following an expression and then, if it leads to a sum, following both operands in the same way
unfolds it to a tree, which is infinite when names refer to themselves. Flattening succeeds on the
trees that are small enough and have nothing but literals as leaves, whatever the order in which it
visits the nodes.

## Main definitions

* `Scope.node?`, `Scope.unfolding`: the nodes of the unfolding and their addresses.
* `Scope.Expandable`: the unfolding is finite, within the limits, and made of literals.
* `Expansion`, `Scope.UnfoldsTo`: a finite unfolding whose leaves are literals.

## Main statements

* `Scope.flattenFrom_eq_some_iff`: the stack is flattened when each expression on it unfolds within
  the limits.
* `Scope.expandable_iff`: an unfolding within the limits is a tree of literals.
* `Scope.node?_append_repeated`: a sum that leads back to itself does so again and again.
* `Scope.flatten?_unfolding`: when flattening succeeds, and what it yields.
-/

namespace RegexAudit

namespace Script

/-- The two sides of a sum. -/
inductive Side where
  | left
  | right
deriving DecidableEq, Repr

/-- The way from the root of an unfolding to one of its nodes. -/
abbrev Address : Type := List Side

/-- Two ways part at a sum, and the first one turns to the left. -/
def Address.Precedes (a b : Address) : Prop :=
  ∃ common x y, a = common ++ .left :: x ∧ b = common ++ .right :: y

/-- What stands on a side. -/
def Side.pick {α : Type} (lhs rhs : α) : Side → α
  | left => lhs
  | right => rhs

/-- The operand of a sum on a side. -/
def Expr.operand? (side : Side) : Expr → Option Expr
  | .binary _ .plus lhs rhs => some (side.pick lhs rhs)
  | _ => none

namespace Scope

/-- The node of the unfolding of an expression at an address. -/
def node? (scope : Scope) (e : Expr) : Address → Option Expr
  | [] => some (scope.predict e)
  | side :: a => ((scope.predict e).operand? side).bind fun operand => scope.node? operand a

/-- The addresses of the nodes of the unfolding. -/
def unfolding (scope : Scope) (e : Expr) : Set Address := {a | (scope.node? e a).isSome = true}

/-- The node at an address has no operands. -/
def LeafAt (scope : Scope) (e : Expr) (a : Address) (leaf : Expr) : Prop :=
  scope.node? e a = some leaf ∧ ∀ side, leaf.operand? side = none

/-- The unfolding has at most 4096 nodes, none of them deeper than 64, and all its leaves are
literals without templates. -/
structure Expandable (scope : Scope) (e : Expr) : Prop where
  finite : (scope.unfolding e).Finite
  nodes : (scope.unfolding e).ncard ≤ 4096
  depth : ∀ a ∈ scope.unfolding e, a.length ≤ 64
  leaves : ∀ a leaf, scope.LeafAt e a leaf → ∃ range l, leaf = .string range l ∧ l.IsTemplateFree

end Scope

/-- A finite unfolding with literals as leaves. -/
inductive Expansion where
  | literal (l : StringLiteral)
  | sum (lhs rhs : Expansion)

namespace Expansion

/-- The addresses of the nodes. -/
def addresses : Expansion → List Address
  | literal _ => [[]]
  | sum lhs rhs =>
    [] :: (lhs.addresses.map (Side.left :: ·) ++ rhs.addresses.map (Side.right :: ·))

/-- The number of nodes. -/
def size (t : Expansion) : Nat := t.addresses.length

/-- The leaves from left to right, each with its address. -/
def leaves : Expansion → List (Address × StringLiteral)
  | literal l => [([], l)]
  | sum lhs rhs =>
    lhs.leaves.map (fun leaf => (Side.left :: leaf.1, leaf.2)) ++
      rhs.leaves.map (fun leaf => (Side.right :: leaf.1, leaf.2))

/-- The literals at the leaves. -/
def literals (t : Expansion) : List StringLiteral := t.leaves.map (·.2)

@[simp] theorem size_literal (l : StringLiteral) : (literal l).size = 1 := rfl

@[simp] theorem size_sum (lhs rhs : Expansion) : (sum lhs rhs).size = lhs.size + rhs.size + 1 := by
  simp [size, addresses]

@[simp] theorem literals_literal (l : StringLiteral) : (literal l).literals = [l] := rfl

@[simp] theorem literals_sum (lhs rhs : Expansion) :
    (sum lhs rhs).literals = lhs.literals ++ rhs.literals := by
  simp [literals, leaves, Function.comp_def]

theorem size_pos (t : Expansion) : 0 < t.size := by
  cases t <;> simp

theorem root_mem_addresses (t : Expansion) : [] ∈ t.addresses := by
  cases t <;> simp [addresses]

theorem cons_mem_addresses_sum {lhs rhs : Expansion} {side : Side} {a : Address} :
    side :: a ∈ (sum lhs rhs).addresses ↔ a ∈ (side.pick lhs rhs).addresses := by
  cases side <;> simp [addresses, Side.pick]

theorem cons_mem_leaves_sum {lhs rhs : Expansion} {side : Side} {a : Address} {l : StringLiteral} :
    (side :: a, l) ∈ (sum lhs rhs).leaves ↔ (a, l) ∈ (side.pick lhs rhs).leaves := by
  cases side <;> simp [leaves, Side.pick]

theorem root_not_mem_leaves_sum {lhs rhs : Expansion} {l : StringLiteral} :
    ([], l) ∉ (sum lhs rhs).leaves := by
  simp [leaves]

/-- The depth of a sum is bounded if that of its operands is. -/
theorem forall_mem_addresses_sum {lhs rhs : Expansion} {depth limit : Nat} :
    (∀ a ∈ (sum lhs rhs).addresses, depth + a.length ≤ limit) ↔
      depth ≤ limit ∧ (∀ a ∈ lhs.addresses, depth + 1 + a.length ≤ limit) ∧
        ∀ a ∈ rhs.addresses, depth + 1 + a.length ≤ limit := by
  simp only [addresses, List.forall_mem_cons, List.forall_mem_append, List.forall_mem_map,
    List.length_nil, List.length_cons, Nat.add_zero, Nat.add_assoc, Nat.add_comm 1]

theorem nodup_addresses (t : Expansion) : t.addresses.Nodup := by
  induction t with
  | literal l => exact List.nodup_singleton _
  | sum lhs rhs ihl ihr =>
    have hcons : ∀ side, Function.Injective (List.cons side : Address → Address) :=
      fun side => List.cons_injective
    refine List.nodup_cons.2 ⟨by simp, List.Nodup.append (ihl.map (hcons _)) (ihr.map (hcons _)) ?_⟩
    intro a hl hr
    obtain ⟨x, -, rfl⟩ := List.mem_map.1 hl
    obtain ⟨y, -, h⟩ := List.mem_map.1 hr
    cases h

/-- The leaves are listed from left to right. -/
theorem leaves_ordered (t : Expansion) :
    t.leaves.Pairwise fun leaf later => leaf.1.Precedes later.1 := by
  induction t with
  | literal l => exact List.pairwise_singleton _ _
  | sum lhs rhs ihl ihr =>
    -- Two leaves of one operand part where they did before, only further from the root.
    have hcons : ∀ (side : Side) {a b : Address}, a.Precedes b →
        Address.Precedes (side :: a) (side :: b) := by
      rintro side a b ⟨common, x, y, rfl, rfl⟩
      exact ⟨side :: common, x, y, rfl, rfl⟩
    refine List.pairwise_append.2 ⟨?_, ?_, ?_⟩
    · exact List.pairwise_map.2 (ihl.imp (hcons _))
    · exact List.pairwise_map.2 (ihr.imp (hcons _))
    · intro leaf hleaf later hlater
      obtain ⟨⟨a, l⟩, -, rfl⟩ := List.mem_map.1 hleaf
      obtain ⟨⟨b, m⟩, -, rfl⟩ := List.mem_map.1 hlater
      exact ⟨[], a, b, rfl, rfl⟩

end Expansion

namespace Scope

variable {scope : Scope} {e lhs rhs : Expr} {range : Span} {t : Expansion}

/-- The expression unfolds to the tree. -/
inductive UnfoldsTo (scope : Scope) : Expr → Expansion → Prop
  | literal {e : Expr} {range : Span} {l : StringLiteral} :
      scope.predict e = .string range l → l.IsTemplateFree → UnfoldsTo scope e (.literal l)
  | sum {e lhs rhs : Expr} {range : Span} {left right : Expansion} :
      scope.predict e = .binary range .plus lhs rhs → UnfoldsTo scope lhs left →
        UnfoldsTo scope rhs right → UnfoldsTo scope e (.sum left right)

theorem node?_cons_of_plus (h : scope.predict e = .binary range .plus lhs rhs) (side : Side)
    (a : Address) : scope.node? e (side :: a) = scope.node? (side.pick lhs rhs) a := by
  rw [node?, h]
  rfl

theorem node?_cons_of_string {l : StringLiteral} (h : scope.predict e = .string range l)
    (side : Side) (a : Address) : scope.node? e (side :: a) = none := by
  rw [node?, h]
  rfl

theorem leafAt_cons_of_plus (h : scope.predict e = .binary range .plus lhs rhs) {side : Side}
    {a : Address} {leaf : Expr} :
    scope.LeafAt e (side :: a) leaf ↔ scope.LeafAt (side.pick lhs rhs) a leaf := by
  rw [LeafAt, LeafAt, node?_cons_of_plus h]

theorem mem_unfolding_cons_of_plus (h : scope.predict e = .binary range .plus lhs rhs) {side : Side}
    {a : Address} (ha : a ∈ scope.unfolding (side.pick lhs rhs)) :
    side :: a ∈ scope.unfolding e := by
  show (scope.node? e (side :: a)).isSome = true
  rw [node?_cons_of_plus h]
  exact ha

/-- An expression that leads to no sum is a leaf. -/
theorem leafAt_root_of_not_plus
    (h : ¬∃ range lhs rhs, scope.predict e = .binary range .plus lhs rhs) :
    scope.LeafAt e [] (scope.predict e) := by
  refine ⟨rfl, fun side => ?_⟩
  unfold Expr.operand?
  split
  · next range lhs rhs he => exact absurd ⟨range, lhs, rhs, he⟩ h
  · rfl

/-- The tree has the addresses of the unfolding. -/
theorem UnfoldsTo.mem_unfolding (h : scope.UnfoldsTo e t) (a : Address) :
    a ∈ scope.unfolding e ↔ a ∈ t.addresses := by
  show (scope.node? e a).isSome = true ↔ a ∈ t.addresses
  induction h generalizing a with
  | literal he hfree =>
    cases a with
    | nil => simp [node?, Expansion.addresses]
    | cons side a => simp [node?_cons_of_string he, Expansion.addresses]
  | sum he hl hr ihl ihr =>
    cases a with
    | nil => simp [node?, Expansion.root_mem_addresses]
    | cons side a =>
      rw [node?_cons_of_plus he, Expansion.cons_mem_addresses_sum]
      cases side
      · exact ihl a
      · exact ihr a

/-- The leaves of the unfolding are literals of the tree, without templates. -/
theorem UnfoldsTo.exists_literal (h : scope.UnfoldsTo e t) {a : Address} {leaf : Expr}
    (hleaf : scope.LeafAt e a leaf) :
    ∃ range l, leaf = .string range l ∧ l.IsTemplateFree ∧ (a, l) ∈ t.leaves := by
  induction h generalizing a with
  | @literal e range l he hfree =>
    obtain ⟨hnode, -⟩ := hleaf
    cases a with
    | nil =>
      rw [node?, he] at hnode
      exact ⟨range, l, (Option.some.inj hnode).symm, hfree, List.mem_singleton.2 rfl⟩
    | cons side a => simp [node?_cons_of_string he] at hnode
  | sum he hl hr ihl ihr =>
    cases a with
    | nil =>
      -- A sum has operands, so the root is no leaf.
      obtain ⟨hnode, hnone⟩ := hleaf
      rw [node?, he] at hnode
      cases hnode
      exact absurd (hnone .left) (by simp [Expr.operand?])
    | cons side a =>
      simp only [Expansion.cons_mem_leaves_sum]
      have hleaf := (leafAt_cons_of_plus he).1 hleaf
      cases side
      · exact ihl hleaf
      · exact ihr hleaf

/-- The literals of the tree are leaves of the unfolding. -/
theorem UnfoldsTo.exists_leafAt (h : scope.UnfoldsTo e t) {a : Address} {l : StringLiteral}
    (hmem : (a, l) ∈ t.leaves) : ∃ range, scope.LeafAt e a (.string range l) := by
  induction h generalizing a with
  | @literal e range l' he hfree =>
    simp only [Expansion.leaves, List.mem_singleton, Prod.mk.injEq] at hmem
    obtain ⟨rfl, rfl⟩ := hmem
    exact ⟨range, congrArg some he, fun side => rfl⟩
  | sum he hl hr ihl ihr =>
    cases a with
    | nil => exact absurd hmem Expansion.root_not_mem_leaves_sum
    | cons side a =>
      rw [Expansion.cons_mem_leaves_sum] at hmem
      simp only [leafAt_cons_of_plus he]
      cases side
      · exact ihl hmem
      · exact ihr hmem

/-- An unfolding of bounded depth whose leaves are literals is a finite tree. -/
theorem exists_unfoldsTo {n : Nat} (hdepth : ∀ a ∈ scope.unfolding e, a.length < n)
    (hleaves : ∀ a leaf, scope.LeafAt e a leaf →
      ∃ range l, leaf = .string range l ∧ l.IsTemplateFree) : ∃ t, scope.UnfoldsTo e t := by
  induction n generalizing e with
  | zero => exact absurd (hdepth [] rfl) (Nat.not_lt_zero _)
  | succ n ih =>
    by_cases hplus : ∃ range lhs rhs, scope.predict e = .binary range .plus lhs rhs
    · obtain ⟨range, lhs, rhs, he⟩ := hplus
      have hoperand : ∀ side : Side, ∃ t, scope.UnfoldsTo (side.pick lhs rhs) t := by
        intro side
        refine ih (fun a ha => ?_) fun a leaf h => hleaves (side :: a) leaf ?_
        · exact Nat.lt_of_succ_lt_succ (hdepth (side :: a) (mem_unfolding_cons_of_plus he ha))
        · exact (leafAt_cons_of_plus he).2 h
      obtain ⟨left, hleft⟩ := hoperand .left
      obtain ⟨right, hright⟩ := hoperand .right
      exact ⟨_, .sum he hleft hright⟩
    · obtain ⟨range, l, he, hfree⟩ := hleaves [] _ (leafAt_root_of_not_plus hplus)
      exact ⟨_, .literal he hfree⟩

/-- An unfolding within the limits is a tree of literals. -/
theorem expandable_iff :
    scope.Expandable e ↔
      ∃ t, scope.UnfoldsTo e t ∧ t.size ≤ 4096 ∧ ∀ a ∈ t.addresses, a.length ≤ 64 := by
  have hset : ∀ t, scope.UnfoldsTo e t → scope.unfolding e = t.addresses.toFinset := by
    intro t ht
    ext a
    simpa using ht.mem_unfolding a
  have hcard : ∀ t, scope.UnfoldsTo e t → (scope.unfolding e).ncard = t.size := by
    intro t ht
    rw [hset t ht, Set.ncard_coe_finset, List.toFinset_card_of_nodup t.nodup_addresses]
    rfl
  constructor
  · intro h
    obtain ⟨t, ht⟩ := exists_unfoldsTo (fun a ha => Nat.lt_succ_of_le (h.depth a ha)) h.leaves
    refine ⟨t, ht, ?_, fun a ha => h.depth a ((ht.mem_unfolding a).2 ha)⟩
    rw [← hcard t ht]
    exact h.nodes
  · rintro ⟨t, ht, hsize, hdepth⟩
    refine ⟨?_, ?_, fun a ha => hdepth a ((ht.mem_unfolding a).1 ha), ?_⟩
    · rw [hset t ht]
      exact Finset.finite_toSet _
    · rw [hcard t ht]
      exact hsize
    · intro a leaf hleaf
      obtain ⟨range, l, rfl, hfree, -⟩ := ht.exists_literal hleaf
      exact ⟨range, l, rfl, hfree⟩

/-- An expression on the stack unfolds to the tree, which reaches at most to the limit of depth. -/
def Fits (scope : Scope) (item : Expr × Nat) (t : Expansion) : Prop :=
  scope.UnfoldsTo item.1 t ∧ ∀ a ∈ t.addresses, item.2 + a.length ≤ maxConcatDepth

theorem Fits.depth_le {item : Expr × Nat} (h : scope.Fits item t) : item.2 ≤ maxConcatDepth :=
  h.2 [] t.root_mem_addresses

theorem Fits.literal_of_string {depth : Nat} {l : StringLiteral}
    (h : scope.Fits (e, depth) t) (he : scope.predict e = .string range l) :
    t = .literal l ∧ l.IsTemplateFree := by
  obtain ⟨hunfolds, -⟩ := h
  cases hunfolds with
  | literal he' hfree =>
    rw [he] at he'
    cases he'
    exact ⟨rfl, hfree⟩
  | sum he' => simp [he] at he'

theorem fits_of_plus {depth : Nat} (he : scope.predict e = .binary range .plus lhs rhs)
    (hdepth : depth ≤ maxConcatDepth) :
    scope.Fits (e, depth) t ↔
      ∃ left right, t = .sum left right ∧ scope.Fits (lhs, depth + 1) left ∧
        scope.Fits (rhs, depth + 1) right := by
  constructor
  · rintro ⟨hunfolds, hreach⟩
    cases hunfolds with
    | literal he' => simp [he] at he'
    | sum he' hl hr =>
      rw [he] at he'
      cases he'
      obtain ⟨-, hleft, hright⟩ := Expansion.forall_mem_addresses_sum.1 hreach
      exact ⟨_, _, rfl, ⟨hl, hleft⟩, ⟨hr, hright⟩⟩
  · rintro ⟨left, right, rfl, ⟨hl, hleft⟩, ⟨hr, hright⟩⟩
    exact ⟨.sum he hl hr, Expansion.forall_mem_addresses_sum.2 ⟨hdepth, hleft, hright⟩⟩

/-- Flattening a stack succeeds when the expressions unfold to trees of literals that reach at most
to the limit of depth and have no more nodes than may be looked at. It yields the literals of the
trees, one tree after the other. -/
theorem flattenFrom_eq_some_iff {found : List (List Fragment)} {budget : Nat}
    {stack : List (Expr × Nat)} {fragments : List Fragment} :
    scope.flattenFrom found budget stack = some fragments ↔
      ∃ trees, List.Forall₂ scope.Fits stack trees ∧ (trees.map Expansion.size).sum ≤ budget ∧
        fragments = found.reverse.flatten ++ fragmentsOf (trees.flatMap Expansion.literals) := by
  fun_induction Scope.flattenFrom scope found budget stack with
  | case1 found budget =>
    simp [eq_comm]
  | case2 found item stack =>
    simp only [reduceCtorEq, List.forall₂_cons_left_iff, false_iff]
    rintro ⟨_, ⟨t, trees, -, -, rfl⟩, hsize, -⟩
    have := t.size_pos
    simp only [List.map_cons, List.sum_cons] at hsize
    omega
  | case3 found budget e depth stack hdepth =>
    simp only [reduceCtorEq, List.forall₂_cons_left_iff, false_iff]
    rintro ⟨_, ⟨t, trees, hfits, -, rfl⟩, -⟩
    exact absurd hfits.depth_le (Nat.not_le.2 hdepth)
  | case4 found budget e depth stack hdepth range l he hnone =>
    simp only [reduceCtorEq, List.forall₂_cons_left_iff, false_iff]
    rintro ⟨_, ⟨t, trees, hfits, -, rfl⟩, -⟩
    obtain ⟨-, hfree⟩ := hfits.literal_of_string he
    rw [StringLiteral.fragments?_eq_some.2 ⟨hfree, rfl⟩] at hnone
    cases hnone
  | case5 found budget e depth stack hdepth range l he fs hfs ih =>
    obtain ⟨hfree, rfl⟩ := StringLiteral.fragments?_eq_some.1 hfs
    rw [ih]
    simp only [List.forall₂_cons_left_iff]
    constructor
    · rintro ⟨trees, hstack, hsize, rfl⟩
      refine ⟨.literal l :: trees, ⟨_, trees, ⟨.literal he hfree, ?_⟩, hstack, rfl⟩, ?_, ?_⟩
      · simpa [Expansion.addresses] using hdepth
      · simpa [Nat.add_comm] using hsize
      · simp [fragmentsOf]
    · rintro ⟨_, ⟨t, trees, hfits, hstack, rfl⟩, hsize, rfl⟩
      obtain ⟨rfl, -⟩ := hfits.literal_of_string he
      refine ⟨trees, hstack, ?_, ?_⟩
      · simpa [Nat.add_comm] using hsize
      · simp [fragmentsOf]
  | case6 found budget e depth stack hdepth range lhs rhs he ih =>
    have hplus : ∀ t, scope.Fits (e, depth) t ↔ _ := fun t =>
      fits_of_plus he (Nat.not_lt.1 hdepth)
    rw [ih]
    simp only [List.forall₂_cons_left_iff, hplus]
    -- The trees of the operands, which come first on the stack, are put together to one.
    constructor
    · rintro ⟨_, ⟨left, _, hleft, ⟨right, trees, hright, hstack, rfl⟩, rfl⟩, hsize, rfl⟩
      refine ⟨.sum left right :: trees, ⟨_, trees, ⟨left, right, rfl, hleft, hright⟩, hstack, rfl⟩,
        ?_, by simp⟩
      simp only [List.map_cons, List.sum_cons, Expansion.size_sum] at hsize ⊢
      omega
    · rintro ⟨_, ⟨_, trees, ⟨left, right, rfl, hleft, hright⟩, hstack, rfl⟩, hsize, rfl⟩
      refine ⟨left :: right :: trees, ⟨left, _, hleft, ⟨right, trees, hright, hstack, rfl⟩, rfl⟩,
        ?_, by simp⟩
      simp only [List.map_cons, List.sum_cons, Expansion.size_sum] at hsize ⊢
      omega
  | case7 found budget e depth stack hdepth hstring hplus =>
    simp only [reduceCtorEq, List.forall₂_cons_left_iff, false_iff]
    rintro ⟨_, ⟨t, trees, ⟨hunfolds, -⟩, -, rfl⟩, -⟩
    cases hunfolds with
    | literal he => exact hstring _ _ he
    | sum he => exact hplus _ _ _ he

/-- Flattening yields the literals of the tree to which the expression unfolds, within the
limits. -/
theorem flatten?_eq_some_iff {fragments : List Fragment} :
    scope.flatten? e = some fragments ↔
      ∃ t, scope.UnfoldsTo e t ∧ t.size ≤ 4096 ∧ (∀ a ∈ t.addresses, a.length ≤ 64) ∧
        fragments = fragmentsOf t.literals := by
  rw [flatten?, flattenFrom_eq_some_iff]
  simp only [List.forall₂_cons_left_iff, List.forall₂_nil_left_iff, Fits, maxConcatNodes,
    maxConcatDepth, Nat.zero_add]
  constructor
  · rintro ⟨_, ⟨t, _, ⟨hunfolds, hdepth⟩, rfl, rfl⟩, hsize, rfl⟩
    exact ⟨t, hunfolds, by simpa using hsize, hdepth, by simp⟩
  · rintro ⟨t, hunfolds, hsize, hdepth, rfl⟩
    exact ⟨[t], ⟨t, [], ⟨hunfolds, hdepth⟩, rfl, rfl⟩, by simpa using hsize, by simp⟩

theorem isSome_flatten?_iff : (scope.flatten? e).isSome = true ↔ scope.Expandable e := by
  rw [Option.isSome_iff_exists, expandable_iff]
  simp only [flatten?_eq_some_iff]
  constructor
  · rintro ⟨fragments, t, ht, hsize, hdepth, -⟩
    exact ⟨t, ht, hsize, hdepth⟩
  · rintro ⟨t, ht, hsize, hdepth⟩
    exact ⟨_, t, ht, hsize, hdepth, rfl⟩

/-- A way on from a node leads through one of its operands. -/
theorem node?_append_cons (scope : Scope) (e : Expr) (a : Address) (side : Side) (b : Address) :
    scope.node? e (a ++ side :: b) =
      ((scope.node? e a).bind (Expr.operand? side)).bind fun operand => scope.node? operand b := by
  induction a generalizing e with
  | nil => rfl
  | cons first a ih =>
    rw [List.cons_append, node?, node?]
    cases (scope.predict e).operand? first with
    | none => rfl
    | some operand => exact ih operand

/-- A node that is found again further down is found there again and again. -/
theorem node?_append_repeated {node : Expr} {a b : Address} (ha : scope.node? e a = some node)
    (hne : b ≠ []) (hb : scope.node? e (a ++ b) = some node) (n : Nat) :
    scope.node? e (a ++ (List.replicate n b).flatten) = some node := by
  obtain ⟨side, b, rfl⟩ := List.exists_cons_of_ne_nil hne
  rw [node?_append_cons, ha] at hb
  induction n with
  | zero => simpa using ha
  | succ n ih =>
    rw [List.replicate_succ', List.flatten_append, List.flatten_singleton, ← List.append_assoc,
      node?_append_cons, ih]
    exact hb

/-- Flattening succeeds when the unfolding is finite, has at most 4096 nodes, none deeper than 64,
and has only literals without templates as leaves. It then yields the fragments of the leaves from
left to right. It fails when a sum in the unfolding leads back to itself. -/
theorem flatten?_unfolding (scope : Scope) (e : Expr) :
    ((scope.flatten? e).isSome = true ↔ scope.Expandable e) ∧
    (∀ fragments, scope.flatten? e = some fragments →
      ∃ leaves : List (Address × StringLiteral),
        leaves.Pairwise (fun leaf later => leaf.1.Precedes later.1) ∧
        (∀ a l, (a, l) ∈ leaves ↔ ∃ range, scope.LeafAt e a (.string range l)) ∧
        fragments = fragmentsOf (leaves.map (·.2))) ∧
    (∀ a b node, b ≠ [] → scope.node? e a = some node → scope.node? e (a ++ b) = some node →
      scope.flatten? e = none) := by
  refine ⟨isSome_flatten?_iff, ?_, ?_⟩
  · intro fragments h
    obtain ⟨t, ht, -, -, rfl⟩ := flatten?_eq_some_iff.1 h
    refine ⟨t.leaves, t.leaves_ordered, fun a l => ⟨ht.exists_leafAt, ?_⟩, rfl⟩
    rintro ⟨range, hleaf⟩
    obtain ⟨range', l', heq, -, hmem⟩ := ht.exists_literal hleaf
    cases heq
    exact hmem
  · intro a b node hne ha hb
    by_contra hsome
    have hexpandable := isSome_flatten?_iff.1 (Option.isSome_iff_ne_none.2 hsome)
    -- Going round 65 times leads too deep.
    have hdeep := hexpandable.depth (a ++ (List.replicate 65 b).flatten)
      (by
        show (scope.node? e _).isSome = true
        rw [node?_append_repeated ha hne hb 65]
        rfl)
    have hpos : 0 < b.length := List.length_pos_iff.2 hne
    simp only [List.length_append, List.length_flatten, List.map_replicate,
      List.sum_replicate_nat] at hdeep
    omega

end Scope

namespace Mutual

/-- Two declarations that refer to each other, `val a=b+"x"` and `val b=a+"y"`, and a call
`f(a,"p"+"q")`. -/
def source : List Char :=
  ['v', 'a', 'l', ' ', 'a', '=', 'b', '+', '"', 'x', '"', '\n', 'v', 'a', 'l', ' ', 'b', '=', 'a',
    '+', '"', 'y', '"', '\n', 'f', '(', 'a', ',', '"', 'p', '"', '+', '"', 'q', '"', ')']

/-- A literal of one character whose token begins at an offset. -/
def letter (start : Nat) (c : Char) : Expr :=
  .string ⟨start, start + 3⟩ ⟨false, [⟨.literal, [c], ⟨start + 1, start + 2⟩⟩]⟩

/-- The initialiser of the first declaration. -/
def first : Expr := .binary ⟨6, 11⟩ .plus (.name ⟨6, 7⟩ "b") (letter 8 'x')

/-- The initialiser of the second declaration. -/
def second : Expr := .binary ⟨18, 23⟩ .plus (.name ⟨18, 19⟩ "a") (letter 20 'y')

/-- The second argument of the call. -/
def parts : Expr := .binary ⟨28, 35⟩ .plus (letter 28 'p') (letter 32 'q')

/-- The script of the source. -/
def script : Script :=
  ⟨[.declaration false ⟨"a", ⟨4, 5⟩⟩ first, .declaration false ⟨"b", ⟨16, 17⟩⟩ second,
    .expression (.call ⟨24, 36⟩ (.name ⟨24, 25⟩ "f") [.name ⟨26, 27⟩ "a", parts])]⟩

theorem ofSource_source : Script.ofSource source = .ok script := by
  with_unfolding_all rfl

theorem predict_a (range : Span) : (Scope.ofScript script).predict (.name range "a") = first := by
  rw [Scope.predict, Scope.predictFrom_name _ rfl, first, Scope.predictFrom]
  all_goals simp

theorem predict_b (range : Span) : (Scope.ofScript script).predict (.name range "b") = second := by
  rw [Scope.predict, Scope.predictFrom_name _ rfl, second, Scope.predictFrom]
  all_goals simp

theorem flatten?_parts : (Scope.ofScript script).flatten? parts =
    some [⟨['p'], ⟨29, 30⟩, false⟩, ⟨['q'], ⟨33, 34⟩, false⟩] := by
  rw [Scope.flatten?, maxConcatNodes, parts,
    Scope.flattenFrom_plus (by decide) (Scope.predict_binary ..), letter, letter,
    Scope.flattenFrom_string (by decide) (Scope.predict_string ..) rfl,
    Scope.flattenFrom_string (by decide) (Scope.predict_string ..) rfl]
  rfl

end Mutual

/-- The first argument leads back to its own sum and is given up, and the second is taken apart. -/
theorem Scope.flatten?_unfolding_mutual :
    Script.ofSource Mutual.source = .ok Mutual.script ∧
    (Scope.ofScript Mutual.script).node? (.name ⟨26, 27⟩ "a") [.left, .left] = some Mutual.first ∧
    (Scope.ofScript Mutual.script).flatten? (.name ⟨26, 27⟩ "a") = none ∧
    ∃ leaves : List (Address × StringLiteral),
      leaves.Pairwise (fun leaf later => leaf.1.Precedes later.1) ∧
      fragmentsOf (leaves.map (·.2)) = [⟨['p'], ⟨29, 30⟩, false⟩, ⟨['q'], ⟨33, 34⟩, false⟩] := by
  have hroot : (Scope.ofScript Mutual.script).node? (.name ⟨26, 27⟩ "a") [] = some Mutual.first :=
    congrArg some (Mutual.predict_a _)
  have hagain : (Scope.ofScript Mutual.script).node? (.name ⟨26, 27⟩ "a") [.left, .left] =
      some Mutual.first := by
    rw [node?_cons_of_plus (Mutual.predict_a _), Side.pick, node?_cons_of_plus (Mutual.predict_b _)]
    exact congrArg some (Mutual.predict_a _)
  obtain ⟨-, -, hnone⟩ := flatten?_unfolding (.ofScript Mutual.script) (.name ⟨26, 27⟩ "a")
  obtain ⟨-, hleaves, -⟩ := flatten?_unfolding (.ofScript Mutual.script) Mutual.parts
  obtain ⟨leaves, hordered, -, hfragments⟩ := hleaves _ Mutual.flatten?_parts
  exact ⟨Mutual.ofSource_source, hagain, hnone [] [.left, .left] _ (by simp) hroot hagain, leaves,
    hordered, hfragments.symm⟩

end Script

end RegexAudit
