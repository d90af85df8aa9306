import Locator.Proofs.Places

/-!
# Document order

The elements of a snapshot in document order: an element before its children, and all that lies
below a child before the next child. `below` lists the proper descendants of an element and
`places` all elements. They are the right ones (`mem_below`, `mem_places`) in the right order, which
is the lexicographic order of places (`pairwise_below`).
-/

namespace Locator

namespace Node

mutual

/-- The ways down to a node and to all that lies below it, in document order. -/
def addresses : Node → List (List Nat)
  | ⟨_, _, _, _, _, _, _, _, children⟩ => [] :: addressesAmong 0 children

def addressesAmong : Nat → List Node → List (List Nat)
  | _, [] => []
  | index, node :: nodes => (addresses node).map (index :: ·) ++ addressesAmong (index + 1) nodes

end

theorem addresses_eq (node : Node) : node.addresses = [] :: addressesAmong 0 node.children := by
  cases node
  rfl

mutual

theorem mem_addresses : ∀ (node : Node) (way : List Nat),
    way ∈ node.addresses ↔ (node.at? way).isSome
  | ⟨_, _, _, _, _, _, _, _, children⟩, [] => by simp [addresses, at?]
  | ⟨_, _, _, _, _, _, _, _, children⟩, index :: rest => by
    rw [addresses, List.mem_cons, mem_addressesAmong 0 children]
    simp [at?]

theorem mem_addressesAmong : ∀ (first : Nat) (nodes : List Node) (index : Nat) (rest : List Nat),
    index :: rest ∈ addressesAmong first nodes
      ↔ first ≤ index ∧ (nodes[index - first]?.bind (·.at? rest)).isSome
  | first, [], index, rest => by simp [addressesAmong]
  | first, node :: nodes, index, rest => by
    rw [addressesAmong, List.mem_append, mem_addressesAmong (first + 1) nodes index rest]
    simp only [List.mem_map, List.cons.injEq, exists_eq_right_right, mem_addresses node rest]
    rcases Nat.lt_trichotomy index first with h | rfl | h
    · constructor <;> omega
    · simp only [true_and, Nat.sub_self, List.getElem?_cons_zero, Option.bind_some, le_refl]
      exact ⟨fun h => h.elim And.left fun ⟨h, _⟩ => absurd h (by omega), fun h => .inl ⟨h, trivial⟩⟩
    · obtain ⟨k, rfl⟩ := Nat.exists_eq_add_of_lt h
      rw [show first + k + 1 - first = k + 1 by omega,
        show first + k + 1 - (first + 1) = k by omega, List.getElem?_cons_succ]
      constructor
      · rintro (⟨-, h⟩ | ⟨-, h⟩)
        · omega
        · exact ⟨by omega, h⟩
      · rintro ⟨-, h⟩
        exact .inr ⟨by omega, h⟩

end

theorem nil_notMem_addressesAmong : ∀ (first : Nat) (nodes : List Node),
    [] ∉ addressesAmong first nodes
  | _, [] => by simp [addressesAmong]
  | first, node :: nodes => by
    simp [addressesAmong, nil_notMem_addressesAmong (first + 1) nodes]

theorem mem_addressesAmong_children (node : Node) (way : List Nat) :
    way ∈ addressesAmong 0 node.children ↔ way ≠ [] ∧ (node.at? way).isSome := by
  rw [← mem_addresses, addresses_eq, List.mem_cons]
  constructor
  · intro h
    refine ⟨fun hnil => ?_, .inr h⟩
    subst hnil
    exact nil_notMem_addressesAmong 0 node.children h
  · rintro ⟨hne, h⟩
    exact h.resolve_left hne

mutual

theorem pairwise_addresses : ∀ node : Node, node.addresses.Pairwise (· < ·)
  | ⟨_, _, _, _, _, _, _, _, children⟩ => by
    refine List.pairwise_cons.2 ⟨fun way h => ?_, pairwise_addressesAmong 0 children⟩
    rcases way with _ | ⟨index, rest⟩
    · exact absurd h (nil_notMem_addressesAmong 0 children)
    · exact List.nil_lt_cons index rest

theorem pairwise_addressesAmong : ∀ (first : Nat) (nodes : List Node),
    (addressesAmong first nodes).Pairwise (· < ·)
  | _, [] => List.Pairwise.nil
  | first, node :: nodes => by
    rw [addressesAmong, List.pairwise_append]
    refine ⟨List.pairwise_map.2 ((pairwise_addresses node).imp fun h => ?_),
      pairwise_addressesAmong (first + 1) nodes, fun way hway other hother => ?_⟩
    · exact List.cons_lt_cons_self.2 h
    · obtain ⟨rest, -, rfl⟩ := List.mem_map.1 hway
      rcases other with _ | ⟨index, more⟩
      · exact absurd hother (nil_notMem_addressesAmong _ nodes)
      · have := ((mem_addressesAmong _ nodes index more).1 hother).1
        exact List.cons_lt_cons_iff.2 (.inl (by omega))

end

end Node

namespace Snapshot

/-- The proper descendants of an element, in document order. -/
def below (tree : Snapshot) (place : Place) : List Place :=
  match tree.node? place with
  | none => []
  | some node => (Node.addressesAmong 0 node.children).map fun way => ⟨place.indices ++ way⟩

def places (tree : Snapshot) : List Place :=
  (Node.addressesAmong 0 tree.roots).map .mk

variable {tree : Snapshot} {p : Place} {node : Node}

theorem mem_places {e : Place} : e ∈ tree.places ↔ (tree.node? e).isSome := by
  obtain ⟨indices⟩ := e
  simp only [places, List.mem_map, Place.mk.injEq, exists_eq_right]
  rcases indices with _ | ⟨index, rest⟩
  · simp [Node.nil_notMem_addressesAmong, node?]
  · simp [Node.mem_addressesAmong, node?]

theorem below_of_node? (h : tree.node? p = some node) : tree.below p
    = (Node.addressesAmong 0 node.children).map fun way => ⟨p.indices ++ way⟩ := by
  simp only [below, h]

theorem mem_below (h : tree.node? p = some node) {e : Place} :
    e ∈ tree.below p ↔ p.Above e ∧ (tree.node? e).isSome := by
  simp only [below_of_node? h, List.mem_map, Node.mem_addressesAmong_children]
  constructor
  · rintro ⟨way, ⟨hne, hway⟩, rfl⟩
    refine ⟨⟨List.prefix_append _ _, fun heq => hne ?_⟩, by rwa [node?_append h]⟩
    simpa using congrArg Place.indices heq
  · rintro ⟨⟨⟨way, hway⟩, hne⟩, he⟩
    obtain rfl : ⟨p.indices ++ way⟩ = e := congrArg Place.mk hway
    rw [node?_append h] at he
    refine ⟨way, ⟨fun hnil => hne ?_, he⟩, rfl⟩
    rw [hnil, List.append_nil]

/-- Document order is the lexicographic order of places. -/
theorem pairwise_below (tree : Snapshot) (p : Place) :
    (tree.below p).Pairwise (·.indices < ·.indices) := by
  unfold below
  split
  · exact List.Pairwise.nil
  · exact List.pairwise_map.2 ((Node.pairwise_addressesAmong _ _).imp
      fun h => List.append_left_lt h)

theorem pairwise_places (tree : Snapshot) : tree.places.Pairwise (·.indices < ·.indices) :=
  List.pairwise_map.2 (Node.pairwise_addressesAmong 0 tree.roots)

theorem addressesAmong_eq_flatMap (above : List Nat) : ∀ (first : Nat) (nodes : List Node),
    (∀ (i : Nat) (child : Node), nodes[i]? = some child →
      tree.node? ⟨above ++ [first + i]⟩ = some child) →
    (Node.addressesAmong first nodes).map (fun way => (⟨above ++ way⟩ : Place))
      = ((List.range' first nodes.length).map fun i => (⟨above ++ [i]⟩ : Place)).flatMap
          fun e => e :: tree.below e
  | _, [], _ => rfl
  | first, child :: nodes, h => by
    have hchild : tree.node? ⟨above ++ [first]⟩ = some child := h 0 child rfl
    have hrest := addressesAmong_eq_flatMap above (first + 1) nodes fun i node hi => by
      have := h (i + 1) node hi
      rwa [Nat.add_assoc, Nat.add_comm 1 i]
    rw [Node.addressesAmong, List.map_append, hrest, Node.addresses_eq, List.length_cons,
      List.range'_succ, List.map_cons (l := List.range' _ _), List.flatMap_cons,
      below_of_node? hchild]
    simp [Function.comp_def]

theorem below_eq (tree : Snapshot) (p : Place) :
    tree.below p = (tree.children p).flatMap fun e => e :: tree.below e := by
  rcases h : tree.node? p with _ | node
  · simp only [below, children, h, List.flatMap_nil]
  · rw [below_of_node? h, addressesAmong_eq_flatMap p.indices 0 node.children, children_eq h,
      childPlaces, List.range_eq_range']
    · rfl
    · intro i child hi
      rw [Nat.zero_add]
      exact (node?_child h i).trans hi

theorem places_eq (tree : Snapshot) :
    tree.places = tree.rootPlaces.flatMap fun e => e :: tree.below e := by
  rw [rootPlaces, List.range_eq_range']
  refine addressesAmong_eq_flatMap [] 0 tree.roots fun i root hi => ?_
  rw [Nat.zero_add]
  exact (node?_root tree i).trans hi

end Snapshot

end Locator
