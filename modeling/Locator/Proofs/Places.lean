import Locator.Snapshot
import Mathlib.Data.List.Infix

/-!
# Places in a snapshot

The places of a snapshot form a forest: a child of a place that is there is there just when the
node has that child (`node?_child`), and what lies at or above a place that is there is there too
(`isSome_of_atOrAbove`). A node is lower than every node above it, and none is higher than the
snapshot (`height_le`), so the height of a snapshot bounds every descent.
-/

namespace Locator

namespace Place

/-- The same place, or one of which the other is a descendant. -/
def AtOrAbove (a b : Place) : Prop := a.indices <+: b.indices

/-- A place of which the other is a proper descendant. -/
def Above (a b : Place) : Prop := a.AtOrAbove b ∧ a ≠ b

/-- A place with the same parent and a smaller index. -/
def EarlierSibling (x a : Place) : Prop :=
  ∃ parent i j, x = ⟨parent ++ [i]⟩ ∧ a = ⟨parent ++ [j]⟩ ∧ i < j

theorem AtOrAbove.refl (a : Place) : a.AtOrAbove a := List.prefix_refl _

theorem AtOrAbove.trans {a b c : Place} (h : a.AtOrAbove b) (h' : b.AtOrAbove c) :
    a.AtOrAbove c := List.IsPrefix.trans h h'

theorem AtOrAbove.antisymm {a b : Place} (h : a.AtOrAbove b) (h' : b.AtOrAbove a) : a = b := by
  have := h.eq_of_length (le_antisymm h.length_le h'.length_le)
  cases a; cases b
  exact congrArg _ this

theorem atOrAbove_child (p : Place) (i : Nat) : p.AtOrAbove (p.child i) := ⟨[i], rfl⟩

theorem atOrAbove_child_iff {a p : Place} {i : Nat} :
    a.AtOrAbove (p.child i) ↔ a = p.child i ∨ a.AtOrAbove p := by
  unfold AtOrAbove child
  rw [List.prefix_concat_iff]
  cases a
  simp only [Place.mk.injEq]

theorem above_of_atOrAbove {a p : Place} (h : a.AtOrAbove p) (i : Nat) : a.Above (p.child i) := by
  refine ⟨h.trans (atOrAbove_child p i), fun heq => ?_⟩
  have := h.length_le
  simp only [heq, child, List.length_append, List.length_singleton] at this
  omega

theorem not_above_of_atOrAbove {a b : Place} (h : b.AtOrAbove a) : ¬ a.Above b :=
  fun ⟨hab, hne⟩ => hne (hab.antisymm h)

theorem Above.trans_atOrAbove {a b c : Place} (h : a.Above b) (h' : b.AtOrAbove c) :
    a.Above c := by
  refine ⟨h.1.trans h', fun heq => ?_⟩
  subst heq
  exact not_above_of_atOrAbove h' h

theorem Above.trans {a b c : Place} (h : a.Above b) (h' : b.Above c) : a.Above c :=
  h.trans_atOrAbove h'.1

theorem child_inj {p q : Place} {i j : Nat} : p.child i = q.child j ↔ p = q ∧ i = j := by
  cases p; cases q
  simp only [child, Place.mk.injEq]
  exact List.append_singleton_inj

theorem earlierSibling_child {x p : Place} {i : Nat} :
    x.EarlierSibling (p.child i) ↔ ∃ j < i, x = p.child j := by
  constructor
  · rintro ⟨parent, j, k, rfl, h, hjk⟩
    obtain ⟨rfl, rfl⟩ := child_inj (q := ⟨parent⟩).1 h
    exact ⟨j, hjk, rfl⟩
  · rintro ⟨j, hj, rfl⟩
    exact ⟨p.indices, j, i, rfl, rfl, hj⟩

end Place

namespace Node

theorem height_eq (node : Node) : node.height = heightList node.children + 1 := by
  cases node
  rfl

theorem height_le_heightList : ∀ {nodes : List Node} {node : Node}, node ∈ nodes →
    node.height ≤ heightList nodes
  | first :: nodes, node, h => by
    rw [heightList]
    rcases List.mem_cons.1 h with rfl | h
    · exact Nat.le_max_left _ _
    · exact (height_le_heightList h).trans (Nat.le_max_right _ _)

theorem height_lt_of_child {node child : Node} {i : Nat} (h : node.children[i]? = some child) :
    child.height < node.height := by
  rw [height_eq node]
  exact Nat.lt_succ_of_le (height_le_heightList (List.mem_of_getElem? h))

theorem at?_append (node : Node) (is js : List Nat) :
    node.at? (is ++ js) = (node.at? is).bind (·.at? js) := by
  induction is generalizing node with
  | nil => rfl
  | cons i is ih =>
    simp only [List.cons_append, at?]
    rcases node.children[i]? with _ | child
    · rfl
    · exact ih child

theorem height_le_of_at? {is : List Nat} {node below : Node} (h : node.at? is = some below) :
    below.height ≤ node.height := by
  induction is generalizing node with
  | nil => cases h; exact Nat.le_refl _
  | cons i is ih =>
    obtain ⟨child, hc, hb⟩ := Option.bind_eq_some_iff.1 h
    exact (ih hb).trans (height_lt_of_child hc).le

end Node

namespace Snapshot

def children (tree : Snapshot) (p : Place) : List Place :=
  match tree.node? p with
  | none => []
  | some node => childPlaces p node

def under (tree : Snapshot) : Option Place → List Place
  | none => tree.rootPlaces
  | some p => tree.children p

variable {tree : Snapshot} {p : Place} {node : Node}

theorem children_eq (h : tree.node? p = some node) : tree.children p = childPlaces p node := by
  simp only [children, h]

theorem node?_root (tree : Snapshot) (i : Nat) : tree.node? (.root i) = tree.roots[i]? := by
  simp only [node?, Place.root]
  rcases tree.roots[i]? with _ | root <;> rfl

theorem node?_append (h : tree.node? p = some node) (way : List Nat) :
    tree.node? ⟨p.indices ++ way⟩ = node.at? way := by
  obtain ⟨indices⟩ := p
  rcases indices with _ | ⟨first, rest⟩
  · cases h
  · obtain ⟨root, hroot, hnode⟩ := Option.bind_eq_some_iff.1 h
    simp only [node?, List.cons_append, hroot, Option.bind_some, Node.at?_append, hnode]

theorem node?_child (h : tree.node? p = some node) (i : Nat) :
    tree.node? (p.child i) = node.children[i]? := by
  rw [Place.child, node?_append h]
  simp only [Node.at?]
  rcases node.children[i]? with _ | child <;> rfl

theorem isSome_of_atOrAbove {a e : Place} (h : a.AtOrAbove e) (ha : a.indices ≠ [])
    (he : (tree.node? e).isSome) : (tree.node? a).isSome := by
  obtain ⟨indices⟩ := a
  obtain ⟨way, hway⟩ := h
  obtain rfl : e = ⟨indices ++ way⟩ := congrArg Place.mk hway.symm
  rcases indices with _ | ⟨first, rest⟩
  · exact absurd rfl ha
  · simp only [node?, List.cons_append, Node.at?_append, ← Option.bind_assoc] at he ⊢
    exact Option.isSome_of_isSome_bind he

theorem isSome_of_earlierSibling {x a : Place} (h : x.EarlierSibling a)
    (ha : (tree.node? a).isSome) : (tree.node? x).isSome := by
  obtain ⟨parent, i, j, rfl, rfl, hij⟩ := h
  rcases parent with _ | ⟨first, rest⟩
  · rw [show (⟨[] ++ [j]⟩ : Place) = .root j from rfl, node?_root] at ha
    rw [show (⟨[] ++ [i]⟩ : Place) = .root i from rfl, node?_root]
    rw [isSome_getElem?] at ha ⊢
    omega
  · have hparent : (tree.node? ⟨first :: rest⟩).isSome :=
      isSome_of_atOrAbove ⟨[j], rfl⟩ (List.cons_ne_nil _ _) ha
    obtain ⟨node, hnode⟩ := Option.isSome_iff_exists.1 hparent
    change (tree.node? (Place.child ⟨first :: rest⟩ j)).isSome at ha
    change (tree.node? (Place.child ⟨first :: rest⟩ i)).isSome
    rw [node?_child hnode, isSome_getElem?] at ha ⊢
    omega

theorem height_le (h : tree.node? p = some node) : node.height ≤ tree.height := by
  obtain ⟨indices⟩ := p
  rcases indices with _ | ⟨first, rest⟩
  · cases h
  · obtain ⟨root, hroot, hnode⟩ := Option.bind_eq_some_iff.1 h
    exact (Node.height_le_of_at? hnode).trans
      (Node.height_le_heightList (List.mem_of_getElem? hroot))

theorem mem_children (h : tree.node? p = some node) {e : Place} :
    e ∈ tree.children p ↔ ∃ i < node.children.length, e = p.child i := by
  simp only [children_eq h, childPlaces, List.mem_map, List.mem_range, eq_comm]

theorem mem_rootPlaces {e : Place} :
    e ∈ tree.rootPlaces ↔ ∃ i < tree.roots.length, e = .root i := by
  simp only [rootPlaces, List.mem_map, List.mem_range, eq_comm]

theorem exists_node_of_mem_children (h : tree.node? p = some node) {e : Place}
    (he : e ∈ tree.children p) : ∃ n, tree.node? e = some n ∧ n.height < node.height := by
  obtain ⟨i, hi, rfl⟩ := (mem_children h).1 he
  refine ⟨node.children[i], ?_, Node.height_lt_of_child (List.getElem?_eq_getElem hi)⟩
  rw [node?_child h, List.getElem?_eq_getElem hi]

theorem exists_node_of_mem_rootPlaces {e : Place} (he : e ∈ tree.rootPlaces) :
    ∃ n, tree.node? e = some n ∧ n.height ≤ tree.height := by
  obtain ⟨i, hi, rfl⟩ := mem_rootPlaces.1 he
  have h : tree.node? (.root i) = some tree.roots[i] := by
    rw [node?_root, List.getElem?_eq_getElem hi]
  exact ⟨_, h, height_le h⟩

/-! ## What cannot be listed -/

theorem answer_roots_of_unlisted (h : tree.unlisted = true) :
    tree.answer .roots = .error unreachable := by
  simp only [answer, checkListed, h, if_true]
  rfl

theorem answer_children_of_unlisted (h : tree.unlisted = true) (p : Place) :
    tree.answer (.children p) = .error unreachable := by
  simp only [answer, checkListed, h, if_true]
  rfl

theorem answer_children_of_stale (h : tree.unlisted = false) (hp : tree.node? p = none) :
    tree.answer (.children p) = .error (stale p) := by
  simp only [answer, checkListed, h, node, hp]
  rfl

end Snapshot

end Locator
