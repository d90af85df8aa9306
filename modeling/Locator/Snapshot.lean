import Locator.Query
import Locator.Error

/-!
# Snapshots of a tree

A snapshot is a captured copy of a tree of elements. An element is named by its place: the index
of its root, then the index of a child in each generation below. A place that the snapshot does
not have is stale, and so is every question about it.
-/

namespace Locator

structure Node where
  className : String
  superclasses : List String := []
  /-- The platform's classification; the class name stands in for it. -/
  resolvedType : Option String := none
  ident : Option String := none
  name : Option String := none
  text : String := ""
  caption : String := ""
  properties : Table String := {}
  children : List Node := []

/-- The place of an element: the index of its root, then the index of a child in each
generation. -/
structure Place where
  indices : List Nat
  deriving DecidableEq, Repr

structure Snapshot where
  roots : List Node
  /-- Listing roots or children fails, as in a tree that cannot be reached. -/
  unlisted : Bool := false

namespace Place

def root (index : Nat) : Place :=
  ⟨[index]⟩

def child (place : Place) (index : Nat) : Place :=
  ⟨place.indices ++ [index]⟩

def depth (place : Place) : Nat :=
  place.indices.length - 1

def text (place : Place) : String :=
  "/" ++ "/".intercalate (place.indices.map toString)

end Place

namespace Node

/-! ## Equality -/

mutual

def same : Node → Node → Bool
  | ⟨c, s, r, i, n, t, p, q, ns⟩, ⟨c', s', r', i', n', t', p', q', ns'⟩ =>
    c = c' && s = s' && r = r' && i = i' && n = n' && t = t' && p = p' && q = q'
      && sameList ns ns'

def sameList : List Node → List Node → Bool
  | [], [] => true
  | n :: ns, n' :: ns' => same n n' && sameList ns ns'
  | [], _ :: _ | _ :: _, [] => false

end

mutual

theorem same_iff : ∀ n n' : Node, same n n' ↔ n = n'
  | ⟨c, s, r, i, n, t, p, q, ns⟩, ⟨c', s', r', i', n', t', p', q', ns'⟩ => by
    simp only [same, Bool.and_eq_true, decide_eq_true_eq, sameList_iff ns ns', Node.mk.injEq,
      and_assoc]

theorem sameList_iff : ∀ ns ns' : List Node, sameList ns ns' ↔ ns = ns'
  | [], [] => by simp [sameList]
  | n :: ns, n' :: ns' => by
    simp only [sameList, Bool.and_eq_true, same_iff n n', sameList_iff ns ns', List.cons.injEq]
  | [], _ :: _ => by simp [sameList]
  | _ :: _, [] => by simp [sameList]

end

instance : DecidableEq Node := fun n n' => decidable_of_iff _ (same_iff n n')

/-! ## Places in a tree -/

mutual

def height : Node → Nat
  | ⟨_, _, _, _, _, _, _, _, children⟩ => heightList children + 1

def heightList : List Node → Nat
  | [] => 0
  | node :: nodes => max (height node) (heightList nodes)

end

/-- The node at a place, given by the children to go down to. -/
def at? (node : Node) : List Nat → Option Node
  | [] => some node
  | index :: rest => (node.children[index]?).bind fun child => child.at? rest

def typeOrClass (node : Node) : String :=
  node.resolvedType.getD node.className

end Node

namespace Snapshot

instance : DecidableEq Snapshot := fun s t =>
  decidable_of_iff (s.roots = t.roots ∧ s.unlisted = t.unlisted) (by cases s; cases t; simp)

def height (tree : Snapshot) : Nat :=
  Node.heightList tree.roots

def node? (tree : Snapshot) (place : Place) : Option Node :=
  match place.indices with
  | [] => none
  | index :: rest => (tree.roots[index]?).bind fun root => root.at? rest

def stale (place : Place) : Error :=
  .adapterFailure s!"element {place.text} is no longer in the tree"

def unreachable : Error :=
  .adapterFailure "element tree is not accessible"

def node (tree : Snapshot) (place : Place) : Except Error Node :=
  match tree.node? place with
  | some node => .ok node
  | none => .error (stale place)

def checkListed (tree : Snapshot) : Except Error Unit :=
  if tree.unlisted then .error unreachable else .ok ()

def rootPlaces (tree : Snapshot) : List Place :=
  (List.range tree.roots.length).map .root

def childPlaces (place : Place) (node : Node) : List Place :=
  (List.range node.children.length).map place.child

def answer (tree : Snapshot) : (query : Query Place) → Except Error query.Answer
  | .roots => do
    tree.checkListed
    return tree.rootPlaces
  | .children place => do
    tree.checkListed
    return childPlaces place (← tree.node place)
  | .className place => return (← tree.node place).className
  | .superclasses place => return (← tree.node place).superclasses
  | .resolvedType place => return (← tree.node place).typeOrClass
  | .ident place => return (← tree.node place).ident
  | .name place => return (← tree.node place).name
  | .text place => return (← tree.node place).text
  | .caption place => return (← tree.node place).caption
  | .property place name => return ((← tree.node place).properties.get? name).getD ""

end Snapshot

end Locator
