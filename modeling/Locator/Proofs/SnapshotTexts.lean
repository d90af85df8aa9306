import Locator.Proofs.JsonTexts
import Locator.Proofs.Places
import Locator.Snapshot.Json

/-!
# Snapshots survive their text

A snapshot that is written reads back as it was, unless its text nests more containers than the
reader opens (`ofText_text`). Each generation of nodes takes two containers, the list of the nodes
and the record of the node, and the snapshot one more, so what can be read back are the snapshots in
which no element has more than 61 ancestors.
-/

namespace Locator

/-! ## Tables from their entries -/

namespace Table

variable {α : Type}

theorem updateEntries_of_lt {key : String} {change : Option α → α} :
    ∀ {entries : List (String × α)}, (∀ e ∈ entries, e.1 < key) →
      updateEntries key change entries = entries ++ [(key, change none)]
  | [], _ => rfl
  | (k, a) :: rest, h => by
    have hk : k < key := h _ List.mem_cons_self
    have hne : key ≠ k := fun heq => String.lt_irrefl k (heq ▸ hk)
    rw [updateEntries, if_neg hne, if_neg (String.lt_asymm hk),
      updateEntries_of_lt fun e he => h e (List.mem_cons_of_mem _ he), List.cons_append]

theorem entries_foldl_insert : ∀ (pairs : List (String × α)) (table : Table α),
    (table.entries ++ pairs).Pairwise (fun a b => a.1 < b.1) →
      (pairs.foldl (fun table (key, value) => table.insert key value) table).entries
        = table.entries ++ pairs
  | [], table, _ => (List.append_nil _).symm
  | (key, value) :: pairs, table, h => by
    have hbefore : ∀ e ∈ table.entries, e.1 < key := fun e he =>
      (List.pairwise_append.1 h).2.2 e he _ List.mem_cons_self
    have hinsert : (table.insert key value).entries = table.entries ++ [(key, value)] :=
      updateEntries_of_lt hbefore
    rw [List.foldl_cons, entries_foldl_insert pairs]
    · rw [hinsert, List.append_assoc, List.singleton_append]
    · rwa [hinsert, List.append_assoc, List.singleton_append]

theorem eq_of_entries {s t : Table α} (h : s.entries = t.entries) : s = t := by
  cases s
  cases t
  cases h
  rfl

/-- A table is the table of its entries. -/
theorem ofList_entries (table : Table α) : ofList table.entries = table :=
  eq_of_entries (entries_foldl_insert table.entries {} table.ascending)

end Table

/-! ## Records -/

namespace Json

theorem mapM_some {α β : Type} {f : α → Option β} {g : α → β} :
    ∀ {xs : List α}, (∀ x ∈ xs, f x = some (g x)) → xs.mapM f = some (xs.map g)
  | [], _ => rfl
  | x :: xs, h => by
    rw [List.mapM_cons, h x List.mem_cons_self,
      mapM_some fun y hy => h y (List.mem_cons_of_mem x hy)]
    rfl

theorem mapM_self {α : Type} {f : α → Option α} {xs : List α} (h : ∀ x ∈ xs, f x = some x) :
    xs.mapM f = some xs :=
  (mapM_some (g := id) h).trans (congrArg some (List.map_id xs))

theorem spelledMembers?_ofPairs (members : List (String × Json)) :
    spelledMembers? (members.map fun (key, value) => (some key, value)) = some members := by
  unfold spelledMembers?
  rw [List.mapM_map]
  exact mapM_self fun _ _ => rfl

theorem only?_of_mem {members : List (String × Json)} (h : (members.map (·.1)).Nodup)
    {member : String × Json} (hmem : member ∈ members) :
    only? members member.1 = some (some member.2) := by
  have hfilter : members.filter (fun (key, _) => key == member.1) = [member] := by
    induction members with
    | nil => cases hmem
    | cons first members ih =>
      obtain ⟨hfirst, hnodup⟩ := List.nodup_cons.1 h
      rcases List.mem_cons.1 hmem with rfl | hmem
      · rw [List.filter_cons_of_pos (by simp), List.filter_eq_nil_iff.2]
        intro other hother heq
        exact hfirst (List.mem_map.2 ⟨other, hother, beq_iff_eq.1 heq⟩)
      · rw [List.filter_cons_of_neg, ih hnodup hmem]
        intro heq
        exact hfirst (List.mem_map.2 ⟨member, hmem, (beq_iff_eq.1 heq).symm⟩)
  rw [only?, hfilter]

/-- A record that gives each of its fields once reads as these fields. -/
theorem fields?_ofPairs {members : List (String × Json)} (h : (members.map (·.1)).Nodup) :
    (ofPairs members).fields? (members.map (·.1)) = some (members.map fun m => some m.2) := by
  rw [ofPairs, fields?, spelledMembers?_ofPairs, Option.bind_eq_bind, Option.bind_some,
    List.mapM_map]
  exact mapM_some fun member hmem => only?_of_mem h hmem

theorem asTexts?_texts (items : List String) : (texts items).asTexts? = some items := by
  rw [asTexts?, texts, asArray?, Option.bind_eq_bind, Option.bind_some, List.mapM_map]
  exact mapM_self fun _ _ => rfl

theorem asTextOrNull?_textOrNull (s : Option String) : (textOrNull s).asTextOrNull? = some s := by
  cases s <;> rfl

theorem asTextMembers?_ofPairs (members : List (String × String)) :
    (ofPairs (members.map fun (key, s) => (key, text s))).asTextMembers? = some members := by
  rw [ofPairs, asTextMembers?, spelledMembers?_ofPairs, Option.bind_eq_bind, Option.bind_some,
    List.mapM_map]
  exact mapM_self fun _ _ => rfl

end Json

/-! ## Nodes -/

namespace Node

open Json

theorem mapM_toJsonList {room : Nat} (h : ∀ node : Node,
      ofJson? room node.toJson = if 2 * node.height ≤ room then some node else none) :
    ∀ nodes : List Node, (toJsonList nodes).mapM (ofJson? room)
      = if 2 * heightList nodes ≤ room then some nodes else none
  | [] => by simp [toJsonList, heightList]
  | node :: nodes => by
    rw [toJsonList, List.mapM_cons, h, mapM_toJsonList h nodes, heightList]
    by_cases hnode : 2 * node.height ≤ room
    · by_cases hnodes : 2 * heightList nodes ≤ room
      · rw [if_pos hnode, if_pos hnodes, if_pos (by omega)]
        rfl
      · rw [if_pos hnode, if_neg hnodes, if_neg (by omega)]
        rfl
    · have hmax : ¬ 2 * max node.height (heightList nodes) ≤ room := by omega
      rw [if_neg hnode, if_neg hmax]
      rfl

theorem fields?_toJson (node : Node) : node.toJson.fields? fieldNames = some [
    some (.text node.className), some (.texts node.superclasses),
    some (.textOrNull node.resolvedType), some (.textOrNull node.ident),
    some (.textOrNull node.name), some (.text node.text), some (.text node.caption),
    some (.ofPairs (node.properties.entries.map fun (key, value) => (key, .text value))),
    some (.array (toJsonList node.children))] := by
  have hnames : fieldNames.Nodup := by decide
  cases node
  exact fields?_ofPairs hnames

/-- A node reads back if there is room for two containers in each generation. -/
theorem ofJson?_toJson : ∀ (room : Nat) (node : Node),
    ofJson? room node.toJson = if 2 * node.height ≤ room then some node else none
  | 0, node => by
    rw [ofJson?, if_neg]
    rw [height_eq]
    omega
  | 1, node => by
    -- there is room for the record, but not for the list of the children in it
    rw [ofJson?, fields?_toJson, if_neg]
    · rfl
    · rw [height_eq]
      omega
  | room + 2, node => by
    have hchildren := mapM_toJsonList (ofJson?_toJson room) node.children
    rw [ofJson?, fields?_toJson, Option.bind_some, ofFields?]
    simp only [Option.bind_eq_bind, Option.bind_some, opened, orDefault, asText?,
      asTexts?_texts, asTextOrNull?_textOrNull, asTextMembers?_ofPairs, asArray?, hchildren,
      Table.ofList_entries]
    rw [height_eq]
    by_cases h : 2 * heightList node.children ≤ room
    · rw [if_pos h, if_pos (by omega)]
      cases node
      rfl
    · rw [if_neg h, if_neg (by omega)]
      rfl

/-! ### What the text of a node is made of -/

mutual

theorem textual_toJson : ∀ node : Node, textual node.toJson
  | ⟨className, superclasses, resolvedType, ident, name, text, caption, properties, children⟩ => by
    have htexts (items : List String) : textual (texts items) := by
      rw [texts, textual_array]
      exact List.forall_mem_map.2 fun _ _ => rfl
    have htextOrNull (s : Option String) : textual (textOrNull s) := by cases s <;> rfl
    have hproperties : textual (ofPairs (properties.entries.map
        fun (key, value) => (key, Json.text value))) := by
      rw [textual_ofPairs]
      exact List.forall_mem_map.2 fun _ _ => rfl
    rw [toJson, textual_ofPairs]
    simp only [List.forall_mem_cons]
    exact ⟨rfl, htexts _, htextOrNull _, htextOrNull _, htextOrNull _, rfl, rfl, hproperties,
      textual_toJsonList children, nofun⟩

theorem textual_toJsonList : ∀ nodes : List Node, textual (.array (toJsonList nodes))
  | [] => rfl
  | node :: nodes => by
    rw [toJsonList, textual_array, List.forall_mem_cons]
    exact ⟨textual_toJson node, textual_array.1 (textual_toJsonList nodes)⟩

end

mutual

/-- Each generation takes two containers: a node, and the list of its children. -/
theorem nesting_toJson : ∀ node : Node, nesting node.toJson = 2 * node.height
  | ⟨className, superclasses, resolvedType, ident, name, text, caption, properties, children⟩ => by
    simp only [toJson, nesting_ofPairs_cons, nesting_ofPairs_nil, nesting_ofPairs_text,
      nesting_text, nesting_texts, nesting_textOrNull, nesting, nestingItems_toJsonList children,
      height]
    omega

theorem nestingItems_toJsonList : ∀ nodes : List Node,
    nestingItems (toJsonList nodes) = 2 * heightList nodes
  | [] => rfl
  | node :: nodes => by
    rw [toJsonList, nestingItems, heightList, nesting_toJson node, nestingItems_toJsonList nodes]
    omega

end

/-! ### Generations -/

mutual

theorem height_le_iff : ∀ (node : Node) (n : Nat),
    node.height ≤ n ↔ ∀ way, (node.at? way).isSome → way.length < n
  | ⟨_, _, _, _, _, _, _, _, children⟩, 0 =>
    ⟨fun h => absurd h (Nat.not_succ_le_zero _), fun h => absurd (h [] rfl) (Nat.lt_irrefl 0)⟩
  | ⟨_, _, _, _, _, _, _, _, children⟩, n + 1 => by
    rw [height, Nat.add_le_add_iff_right, heightList_le_iff children n]
    constructor
    · rintro h (_ | ⟨i, way⟩) hway
      · exact Nat.succ_pos n
      · exact Nat.succ_lt_succ (h i way hway)
    · exact fun h i way hway => Nat.lt_of_succ_lt_succ (h (i :: way) hway)

theorem heightList_le_iff : ∀ (nodes : List Node) (n : Nat), heightList nodes ≤ n
    ↔ ∀ (i : Nat) (way : List Nat), (nodes[i]?.bind fun node => node.at? way).isSome →
        way.length < n
  | [], n => by simp [heightList]
  | node :: nodes, n => by
    rw [heightList, Nat.max_le, height_le_iff node n, heightList_le_iff nodes n]
    constructor
    · rintro ⟨hnode, hnodes⟩ (_ | i) way hway
      · exact hnode way hway
      · exact hnodes i way hway
    · exact fun h => ⟨fun way hway => h 0 way hway, fun i way hway => h (i + 1) way hway⟩

end

end Node

namespace Snapshot

open Json

/-- The height of a snapshot bounds the generations of its elements, and no smaller number does. -/
theorem height_le_iff {tree : Snapshot} {n : Nat} :
    tree.height ≤ n ↔ ∀ p, (tree.node? p).isSome → p.indices.length ≤ n := by
  rw [height, Node.heightList_le_iff]
  constructor
  · rintro h ⟨_ | ⟨i, way⟩⟩ hp
    · cases hp
    · exact h i way hp
  · exact fun h i way hway => h ⟨i :: way⟩ hway

theorem nesting_toJson (tree : Snapshot) : nesting tree.toJson = 2 * tree.height + 2 := by
  simp only [toJson, nesting_ofPairs_cons, nesting_ofPairs_nil, nesting,
    Node.nestingItems_toJsonList, height]
  omega

theorem textual_toJson (tree : Snapshot) : textual tree.toJson := by
  rw [toJson, textual_ofPairs, List.forall_mem_singleton]
  exact Node.textual_toJsonList tree.roots

theorem ofJson?_toJson (tree : Snapshot) : ofJson? tree.toJson
    = if nesting tree.toJson ≤ depthLimit then some { roots := tree.roots } else none := by
  have hnames : ["roots"].Nodup := by decide
  have hfields : tree.toJson.fields? ["roots"]
      = some [some (.array (Node.toJsonList tree.roots))] := fields?_ofPairs hnames
  have hroots := Node.mapM_toJsonList (Node.ofJson?_toJson (depthLimit - 2)) tree.roots
  have hroom : 2 * Node.heightList tree.roots ≤ depthLimit - 2
      ↔ nesting tree.toJson ≤ depthLimit := by
    rw [nesting_toJson, height, depthLimit]
    omega
  rw [ofJson?, hfields, Option.bind_eq_bind, Option.bind_some]
  simp only [asArray?, Option.bind_eq_bind, Option.bind_some, hroots, hroom]
  by_cases h : nesting tree.toJson ≤ depthLimit
  · rw [if_pos h, if_pos h]
    rfl
  · rw [if_neg h, if_neg h]
    rfl

/-- A snapshot reads back from its text if that nests no more containers than the reader opens, and
is refused otherwise. The text of a snapshot nests too deeply just when an element has more than 61
ancestors. -/
theorem ofText_text (tree : Snapshot) (hlisted : tree.unlisted = false) :
    ofText tree.text
        = (if nesting tree.toJson ≤ depthLimit then .ok tree
          else .error (.serialization "Failed to parse tree snapshot"))
      ∧ (nesting tree.toJson ≤ depthLimit ↔ ∀ p, (tree.node? p).isSome → p.depth ≤ 61) := by
  have htree : ({ roots := tree.roots } : Snapshot) = tree := by
    obtain ⟨roots, unlisted⟩ := tree
    cases hlisted
    rfl
  constructor
  · rw [ofText, text, ofString?_compact tree.textual_toJson, Option.bind_some, ofJson?_toJson,
      htree]
    by_cases h : nesting tree.toJson ≤ depthLimit
    · rw [if_pos h, if_pos h]
    · rw [if_neg h, if_neg h]
  · have hheight : nesting tree.toJson ≤ depthLimit ↔ tree.height ≤ 62 := by
      rw [nesting_toJson, depthLimit]
      omega
    rw [hheight, height_le_iff]
    refine forall₂_congr fun p _ => ?_
    rw [Place.depth]
    omega

end Snapshot

/-- A node, and so many generations below it of one node each. -/
def Node.nested : Nat → Node
  | 0 => { className := "N" }
  | n + 1 => { className := "N", children := [nested n] }

/-- A node with 61 generations below it reads back, and one with another does not. -/
theorem Snapshot.ofText_text_nested :
    ofText (text { roots := [.nested 61] }) = .ok { roots := [.nested 61] }
      ∧ ofText (text { roots := [.nested 62] })
        = .error (.serialization "Failed to parse tree snapshot") := by
  constructor
  · rw [(ofText_text { roots := [.nested 61] } rfl).1, if_pos (by decide +kernel)]
  · rw [(ofText_text { roots := [.nested 62] } rfl).1, if_neg (by decide +kernel)]

end Locator
