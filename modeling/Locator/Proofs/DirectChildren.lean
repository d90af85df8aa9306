import Locator.Proofs.EarlierElements
import Locator.Proofs.Rendering
import Locator.Proofs.Sentinels

/-!
# Looking at direct children only

With the sentinel in front of it a level is looked for among the direct children of the root, and
what lies below them is not looked at. That comes to the same as to look for the plain level in the
tree without what lies below them (`direct_children`). There the search makes an excursion below
each child, but a child without children leaves the counters as they are (`Progress.rollBack_self`).
-/

namespace Locator

open Text Search

/-! ## The truncated tree -/

theorem le_of_cons_le_cons {i j : Nat} {is js : List Nat} (h : i :: is ≤ j :: js) :
    i < j ∨ i = j ∧ is ≤ js := by
  rcases h.lt_or_eq with hlt | heq
  · exact (List.cons_lt_cons_iff.1 hlt).imp_right (And.imp_right le_of_lt)
  · exact .inr (List.cons_eq_cons.1 heq |>.imp_right le_of_eq)

namespace Node

/-- A node the children of which have no children. -/
def shortened (node : Node) : Node :=
  { node with children := node.children.map alone }

theorem alone_shortened (node : Node) : node.shortened.alone = node.alone := rfl

/-- Changes the node at a place, given by the children to go down to. -/
def modifyAt (f : Node → Node) : List Nat → Node → Node
  | [], node => f node
  | index :: rest, node =>
    { node with children := node.children.modify index (modifyAt f rest) }

theorem at?_modifyAt (f : Node → Node) (way : List Nat) (node : Node) :
    (node.modifyAt f way).at? way = (node.at? way).map f := by
  induction way generalizing node with
  | nil => rfl
  | cons index way ih =>
    simp only [modifyAt, at?, List.getElem?_modify_eq]
    rcases node.children[index]? with _ | child
    · rfl
    · exact ih child

/-- Up to the place in document order nothing changes, if the node there is the same on its own. -/
theorem alone_at?_modifyAt {f : Node → Node} (hf : ∀ node, (f node).alone = node.alone)
    (way : List Nat) : ∀ (other : List Nat) (node : Node), other ≤ way →
      ((node.modifyAt f way).at? other).map alone = (node.at? other).map alone := by
  induction way with
  | nil =>
    rintro (_ | ⟨first, other⟩) node hle
    · exact congrArg some (hf node)
    · rcases hle.lt_or_eq with hlt | heq
      · exact absurd hlt (List.not_lt_nil _)
      · cases heq
  | cons index way ih =>
    rintro (_ | ⟨first, other⟩) node hle
    · rfl
    simp only [modifyAt, at?]
    rcases le_of_cons_le_cons hle with hlt | ⟨rfl, hrest⟩
    · rw [List.getElem?_modify_ne _ _ (Nat.ne_of_gt hlt)]
    · rw [List.getElem?_modify_eq]
      rcases node.children[first]? with _ | child
      · rfl
      · exact ih other child hrest

end Node

namespace Snapshot

/-- The snapshot without what lies below the children of an element. -/
def shortenedBelow (tree : Snapshot) (root : Place) : Snapshot :=
  match root.indices with
  | [] => tree
  | index :: rest =>
    { tree with roots := tree.roots.modify index (Node.modifyAt Node.shortened rest) }

variable {tree : Snapshot} {root : Place} {node : Node}

theorem unlisted_shortenedBelow : (tree.shortenedBelow root).unlisted = tree.unlisted := by
  unfold shortenedBelow
  split <;> rfl

theorem node?_shortenedBelow (tree : Snapshot) (root : Place) :
    (tree.shortenedBelow root).node? root = (tree.node? root).map Node.shortened := by
  obtain ⟨_ | ⟨index, rest⟩⟩ := root
  · rfl
  simp only [node?, shortenedBelow, List.getElem?_modify_eq]
  rcases tree.roots[index]? with _ | top
  · rfl
  · exact top.at?_modifyAt Node.shortened rest

/-- What comes after the children of an element comes after the element. -/
theorem agreeUpTo_shortenedBelow (tree : Snapshot) (root : Place) :
    tree.AgreeUpTo (tree.shortenedBelow root) root where
  listed := unlisted_shortenedBelow
  alone := by
    obtain ⟨_ | ⟨index, rest⟩⟩ := root
    · exact fun _ _ => rfl
    rintro ⟨_ | ⟨first, other⟩⟩ hle
    · rfl
    simp only [node?, shortenedBelow]
    rcases le_of_cons_le_cons hle with hlt | ⟨rfl, hrest⟩
    · rw [List.getElem?_modify_ne _ _ (Nat.ne_of_gt hlt)]
    · rw [List.getElem?_modify_eq]
      rcases tree.roots[first]? with _ | top
      · rfl
      · exact Node.alone_at?_modifyAt Node.alone_shortened rest other top hrest

/-- The element has the same children. -/
theorem children_shortenedBelow (hroot : tree.node? root = some node) :
    (tree.shortenedBelow root).children root = tree.children root := by
  have hroot' : (tree.shortenedBelow root).node? root = some node.shortened := by
    rw [node?_shortenedBelow, hroot, Option.map_some]
  rw [children_eq hroot, children_eq hroot', childPlaces, childPlaces, Node.shortened,
    List.length_map]

/-- They stand there without their own. -/
theorem node?_child_shortenedBelow (hroot : tree.node? root = some node) {e : Place}
    (he : e ∈ tree.children root) :
    (tree.shortenedBelow root).node? e = (tree.node? e).map Node.alone := by
  have hroot' : (tree.shortenedBelow root).node? root = some node.shortened := by
    rw [node?_shortenedBelow, hroot, Option.map_some]
  obtain ⟨i, -, rfl⟩ := (mem_children hroot).1 he
  rw [node?_child hroot, node?_child hroot', Node.shortened, List.getElem?_map]

end Snapshot

/-! ## The two scans -/

theorem Progress.rollBack_self (progress : Progress) :
    progress.rollBack progress.counters = progress := rfl

/-- Levels with the same qualifiers are met by the same nodes. -/
theorem Node.meets_congr {node : Node} {goal goal' : Goal Place}
    (hlevel : goal.level.qualifiers = goal'.level.qualifiers) (hscope : goal.scope = goal'.scope)
    (counters : Counters) : node.meets goal counters = node.meets goal' counters := by
  rw [Bool.eq_iff_iff, meets_iff, meets_iff, Fulfils, Fulfils, hlevel, hscope]
  exact forall₄_congr fun _ q _ _ => by rw [q.holds_congr hlevel]

/-- A goal for direct children, and the goal for the same below the same element. -/
structure Goal.Twins (goal goal' : Goal Place) : Prop where
  anchor : goal.anchor = goal'.anchor
  position : goal.position = goal'.position
  qualifiers : goal.level.qualifiers = goal'.level.qualifiers
  shallow : goal.shallow = true
  deep : goal'.shallow = false
  last : goal.rest = []
  last' : goal'.rest = []

/-- Among elements that have no children in another tree, and are alike but for that, a scan of
these elements alone goes as a scan there. -/
theorem Scan.childless {tree tree' : Snapshot} {goal goal' : Goal Place}
    {siblings : List Place} {p after : Progress} {result : Option Place} {vs : List (Visit Place)}
    (h : Scan tree goal siblings p result after vs) (htwins : goal.Twins goal')
    (hsiblings : ∀ e ∈ siblings, tree'.node? e = (tree.node? e).map Node.alone) :
    ∃ ws, Scan tree' goal' siblings p result after ws := by
  have hthere {e : Place} {node : Node} {siblings : List Place} (he : tree.node? e = some node)
      (hsiblings : ∀ d ∈ e :: siblings, tree'.node? d = (tree.node? d).map Node.alone) :
      tree'.node? e = some node.alone := by
    rw [hsiblings e List.mem_cons_self, he, Option.map_some]
  have hmeets (node : Node) (counters : Counters) :
      node.alone.meets goal' counters = node.meets goal counters := by
    have hscope : goal'.scope = goal.scope := by rw [Goal.scope, Goal.scope, htwins.anchor]
    rw [Node.meets_congr htwins.qualifiers.symm hscope]
    exact (@Node.judged_alike node node.alone rfl).2 goal counters
  have hnext (e : Place) : goal.next? e = none := Goal.ofLevels?_eq_none.2 htwins.last
  have hnext' (e : Place) : goal'.next? e = none := Goal.ofLevels?_eq_none.2 htwins.last'
  induction h with
  | nil => exact ⟨[], .nil goal' _⟩
  | @last _ e node siblings before he hm =>
    rw [htwins.position]
    exact ⟨_, @Scan.last tree' goal' e node.alone siblings before (hthere he hsiblings)
      ((hmeets node _).trans hm) (hnext' e)⟩
  | commit _ _ hn => cases (hnext _).symm.trans hn
  | @skip _ e node siblings before after result vs he hm _ _ ih =>
    obtain ⟨ws, hscan⟩ :=
      ih htwins (fun d hd => hsiblings d (List.mem_cons_of_mem _ hd)) hmeets hnext
    have he' := hthere he hsiblings
    have hleaf : tree'.children e = [] := by
      rw [Snapshot.children_eq he']
      rfl
    -- nothing is below the element, so the excursion fails and has counted nothing
    refine ⟨_, @Scan.failed tree' goal' e node.alone siblings before (before.visit node.facts) after
      result [] ws he' (fun hm' => hm ((hmeets node _).symm.trans hm')) htwins.deep ?_ ?_⟩
    · rw [hleaf]
      exact .nil goal' _
    · change Scan tree' goal' siblings
        ((before.visit node.facts).rollBack (before.visit node.facts).counters) result after ws
      rwa [Progress.rollBack_self]
  | found _ _ hs | failed _ _ hs => cases htwins.shallow.symm.trans hs

/-! ## The two texts -/

theorem splitLevels_append_of_notMem {front : List Char} (h : ';' ∉ front) (s : List Char) :
    splitLevels (front ++ s) = (front ++ (splitLevels s).1, (splitLevels s).2) := by
  induction front with
  | nil => rfl
  | cons c front ih =>
    rw [List.mem_cons, not_or] at h
    rw [List.cons_append, splitLevels, ih h.2]
    · rfl
    · rintro rest rfl -
      exact h.1 rfl

theorem splitLevels_fst_of_whole {s : List Char} (h : (splitLevels s).2 = []) :
    (splitLevels s).1 = s := by
  fun_induction splitLevels s with
  | case1 => rfl
  | case2 => cases h
  | case3 c rest _ piece pieces hrest ih =>
    rw [hrest] at ih
    exact congrArg (c :: ·) (ih h)

namespace Level

/-- A text that does not begin with the sentinel. -/
def Plain (text : String) : Prop :=
  (stripFpsm text.toList).1 = false

variable {text : String}

instance (text : String) : Decidable (Plain text) :=
  inferInstanceAs (Decidable (_ = false))

theorem Plain.fpsm (h : Plain text) : (ofText text).fpsm = false := h

theorem Plain.strip (h : Plain text) : stripFpsm text.toList = (false, text.toList) :=
  stripFpsm_of_not_fpsm h

/-- With or without the sentinel the same is compared with the names of the root. -/
theorem Plain.stripped (h : Plain text) :
    (stripFpsm (ofText (fpsmSentinel ++ text)).raw.toList).2 = text.toList
      ∧ (stripFpsm (ofText text).raw.toList).2 = text.toList := by
  simp only [ofText, ofChars, String.toList_ofList, String.toList_append, stripFpsm_sentinel,
    h.strip, and_self]

/-- The sentinel in front of a text changes only what it says. -/
theorem ofText_marked (h : Plain text) :
    (ofText (fpsmSentinel ++ text)).fpsm = true
      ∧ (ofText (fpsmSentinel ++ text)).qualifiers = (ofText text).qualifiers := by
  simp only [ofText, ofChars, String.toList_append, stripFpsm_sentinel, h.strip, and_self]

end Level

namespace Engine

variable {text : String} {chain : Chain}

theorem readPath_plain (hchain : readPath text = .ok chain) (hone : chain.rest = []) :
    chain.first = Level.ofText text ∧ (splitLevels text.toList).2 = [] := by
  obtain ⟨-, hlevels, -⟩ := readPath_eq_ok.1 hchain
  rw [Chain.levels, hone, pieces, List.map_cons, List.cons.injEq] at hlevels
  have hwhole := List.map_eq_nil_iff.1 hlevels.2.symm
  rw [splitLevels_fst_of_whole hwhole] at hlevels
  exact ⟨hlevels.1, hwhole⟩

theorem readPath_marked (hchain : readPath text = .ok chain) (hone : chain.rest = [])
    (hplain : Level.Plain text) :
    readPath (Level.fpsmSentinel ++ text)
      = .ok ⟨Level.fpsmSentinel ++ text, Level.ofText (Level.fpsmSentinel ++ text), []⟩ := by
  obtain ⟨hfirst, hwhole⟩ := readPath_plain hchain hone
  refine readPath_eq_ok.2 ⟨rfl, ?_, List.forall_mem_cons.2 ⟨?_, nofun⟩⟩
  · rw [pieces, String.toList_append, splitLevels_append_of_notMem (by decide), hwhole,
      splitLevels_fst_of_whole hwhole, ← String.toList_append]
    rfl
  · have husable := (readPath_eq_ok.1 hchain).2.2 _ List.mem_cons_self
    rwa [hfirst, Level.usable, ← (Level.ofText_marked hplain).2] at husable

/-- Neither text names the root. -/
theorem goalBelow?_one {settings : Settings} {path : String} {level : Level} (root : Place)
    (hordinary : settings.isTopLevelSentinel (Level.stripFpsm level.raw.toList).2 = false) :
    goalBelow? settings ⟨path, level, []⟩ root = some ⟨some root, 0, level, []⟩ := by
  simp only [goalBelow?, firstSearched, hordinary]
  rfl

end Engine

/-! ## The two searches -/

namespace Search

/-- A pass below an element that cannot be listed fails. -/
theorem firstPass_of_error {E : Type} {reach : Nat} {root : E} {goal : Goal E} {chain : Chain}
    {answers : Oracle E} {error : Error} (h : answers (.children root) = .error error) :
    firstPass (descendantPass reach root goal) chain answers = .error error := by
  have hchildren : answers.world.answer (.children root) () = (.error error, ()) := by
    simp only [Oracle.world, h]
  unfold firstPass descendantPass searchBelow
  rw [run_bind, run_question, hchildren]

theorem PassOf.firstPass_eq {engine : Engine Place} {goal : Goal Place}
    {pass : Progress → Search Place (Finding Place)} (h : PassOf engine goal pass)
    {tree : Snapshot} {chain : Chain} {result : Option Place} {after : Progress}
    {vs : List (Visit Place)}
    (hreturns : Returns tree.world {} (pass (Progress.start chain).unmarked) (result, after) vs) :
    firstPass pass chain tree.answer = .ok (result, after) := by
  have hrun := h.run_first (tree.world_answers {}) chain {}
  rw [hreturns.run] at hrun
  exact (congrArg Ending.result hrun).symm

variable {tree : Snapshot} {engine engine' : Engine Place} {root : Place}
  {goal goal' : Goal Place} {chain chain' : Chain}

/-- A pass for direct children comes to what a pass below the same element of the shortened tree
comes to. -/
theorem firstPass_shortened (htwins : goal.Twins goal')
    (hpass : PassOf engine goal (descendantPass engine.reach root goal))
    (hpass' : PassOf engine' goal' (descendantPass engine'.reach root goal'))
    (hreach : tree.height ≤ engine.reach)
    (hreach' : (tree.shortenedBelow root).height ≤ engine'.reach)
    (hstart : (Progress.start chain).unmarked = (Progress.start chain').unmarked) :
    firstPass (descendantPass engine.reach root goal) chain tree.answer
      = firstPass (descendantPass engine'.reach root goal') chain'
          (tree.shortenedBelow root).answer := by
  have hnode' := tree.node?_shortenedBelow root
  have hunlisted' : (tree.shortenedBelow root).unlisted = tree.unlisted :=
    Snapshot.unlisted_shortenedBelow
  cases hlisted : tree.unlisted with
  | true =>
    rw [firstPass_of_error (Snapshot.answer_children_of_unlisted hlisted root),
      firstPass_of_error (Snapshot.answer_children_of_unlisted (hunlisted'.trans hlisted) root)]
  | false =>
  rcases hnode : tree.node? root with _ | node <;> rw [hnode] at hnode'
  · rw [firstPass_of_error (Snapshot.answer_children_of_stale hlisted hnode),
      firstPass_of_error (Snapshot.answer_children_of_stale (hunlisted'.trans hlisted) hnode')]
  · obtain ⟨result, after, vs, hreturns, hscan⟩ := descendantPass_goesBy hlisted hreach hnode goal
      (Progress.start chain).unmarked
    obtain ⟨result', after', vs', hreturns', hscan'⟩ := descendantPass_goesBy
      (hunlisted'.trans hlisted) hreach' hnode' goal' (Progress.start chain').unmarked
    obtain ⟨ws, hthere⟩ := hscan.childless htwins fun e he =>
      Snapshot.node?_child_shortenedBelow hnode he
    rw [Snapshot.children_shortenedBelow hnode, ← hstart] at hscan'
    obtain ⟨rfl, rfl, -⟩ := hthere.unique hscan'
    rw [hpass.firstPass_eq hreturns, hpass'.firstPass_eq hreturns']

end Search

namespace Engine

/-- A single pass for a descendant of a root in use comes to what a first pass comes to. -/
theorem handle_descendant_once {tree : Snapshot} {engine : Engine Place} {root : Place}
    {goal : Goal Place} {rootPath path : String} {chain : Chain} {time : Clock}
    (hchain : readPath path = .ok chain)
    (hroot : engine.rootInUse tree.world rootPath true time = some root)
    (hgoal : goalBelow? engine.settings chain root = some goal) (timeoutSecs : Nat) :
    (engine.handle tree.world (.descendant rootPath path timeoutSecs true) time).1
      = (firstPass (descendantPass engine.reach root goal) chain tree.answer).map
          (report chain goal.position (engine.patience timeoutSecs true) 1) := by
  obtain ⟨cachedRoot, memory, later, hhandle, -⟩ := handle_descendant timeoutSecs hchain hroot
  obtain ⟨_, hrun⟩ := run_locateBelow engine tree.world hgoal cachedRoot timeoutSecs true memory
    later
  rw [hhandle, hrun, pollFromNow_once (.descendant hgoal) (tree.world_answers later) chain _ rfl]

/-- A single pass that looks for a level among the direct children of a root answers as one that
looks for it below the root in the tree without what lies below these children: it finds the same
element with the same counters, or nothing, or it fails with the same error. Engines that remember
the same use the same root for that. -/
theorem direct_children {tree : Snapshot} {engine engine' : Engine Place} {root : Place}
    (hreach : tree.height ≤ engine.reach)
    (hreach' : (tree.shortenedBelow root).height ≤ engine'.reach)
    (hsettings : engine'.settings = engine.settings) {text : String} {chain : Chain}
    (hchain : readPath text = .ok chain) (hone : chain.rest = []) (hplain : Level.Plain text)
    (hordinary : engine.settings.isTopLevelSentinel text.toList = false) {rootPath : String}
    {time : Clock} (hroot : engine.rootInUse tree.world rootPath true time = some root)
    (timeoutSecs : Nat) (time' : Clock) :
    (engine'.memory = engine.memory →
      engine'.rootInUse (tree.shortenedBelow root).world rootPath true time' = some root)
    ∧ (engine'.rootInUse (tree.shortenedBelow root).world rootPath true time' = some root →
      SameEnd (Outcome.SameBy LevelMatch.counters)
        (engine.handle tree.world
          (.descendant rootPath (Level.fpsmSentinel ++ text) timeoutSecs true) time).1
        (engine'.handle (tree.shortenedBelow root).world
          (.descendant rootPath text timeoutSecs true) time').1) := by
  refine ⟨fun hmemory => rootInUse_again hreach hreach' hsettings hmemory
    (tree.agreeUpTo_shortenedBelow root) hroot, fun hroot' => ?_⟩
  have hmarkedChain := readPath_marked hchain hone hplain
  obtain ⟨hfpsm, hqualifiers⟩ := Level.ofText_marked hplain
  obtain ⟨path, first, rest⟩ := chain
  obtain rfl : rest = [] := hone
  obtain rfl : path = text := (readPath_eq_ok.1 hchain).1
  obtain rfl : first = Level.ofText path := (readPath_plain hchain rfl).1
  obtain ⟨hstripped, hstripped'⟩ := hplain.stripped
  set marked := Level.ofText (Level.fpsmSentinel ++ path)
  have hgoal : goalBelow? engine.settings ⟨Level.fpsmSentinel ++ path, marked, []⟩ root = _ :=
    goalBelow?_one root (by rw [hstripped, hordinary])
  have hgoal' : goalBelow? engine'.settings ⟨path, Level.ofText path, []⟩ root = _ :=
    goalBelow?_one root (by rw [hsettings, hstripped', hordinary])
  have htwins : Goal.Twins (⟨some root, 0, marked, []⟩ : Goal Place)
      ⟨some root, 0, Level.ofText path, []⟩ :=
    ⟨rfl, rfl, hqualifiers, by simp [Goal.shallow, hfpsm], by simp [Goal.shallow, hplain.fpsm],
      rfl, rfl⟩
  have hsame : firstPass (descendantPass engine.reach root _)
        ⟨Level.fpsmSentinel ++ path, marked, []⟩ tree.answer
      = firstPass (descendantPass engine'.reach root _) ⟨path, Level.ofText path, []⟩
          (tree.shortenedBelow root).answer :=
    firstPass_shortened htwins (.descendant hgoal) (.descendant hgoal') hreach hreach' rfl
  rw [handle_descendant_once hmarkedChain hroot hgoal, handle_descendant_once hchain hroot' hgoal',
    hsame]
  refine (SameEnd.refl (fun _ => rfl) _ : SameEnd Eq _ _).map ?_
  rintro ⟨_ | e, after⟩ _ rfl
  · exact .notFound rfl (by rw [Nat.sub_self, Nat.zero_mul, Nat.zero_mul]) rfl
  · refine .found rfl ?_ rfl
    rw [Chain.map_matchesFrom, Chain.map_matchesFrom]
    rfl

/-- The second object among the children of the window is the button beside the panel, and so it is
in the window where the panel is empty. -/
theorem direct_children_window :
    let engine := windowTree.engine {}
    let shortened := windowTree.shortenedBelow ⟨[0]⟩
    elementOf (engine.handle windowTree.world
        (.descendant "Class=Window" ":FPSM:Class=Button;ObjectIndex=2" 0 true) {}).1 = some ⟨[0, 1]⟩
      ∧ SameEnd (Outcome.SameBy LevelMatch.counters)
        (engine.handle windowTree.world
          (.descendant "Class=Window" ":FPSM:Class=Button;ObjectIndex=2" 0 true) {}).1
        (engine.handle shortened.world
          (.descendant "Class=Window" "Class=Button;ObjectIndex=2" 0 true) {}).1 := by
  intro engine shortened
  have hchain : readPath "Class=Button;ObjectIndex=2"
      = .ok ⟨"Class=Button;ObjectIndex=2", Level.ofText "Class=Button;ObjectIndex=2", []⟩ := by
    decide +kernel
  refine ⟨by decide +kernel, ?_⟩
  obtain ⟨hagain, hsame⟩ := @direct_children windowTree engine engine ⟨[0]⟩ (Nat.le_refl _)
    (by decide +kernel) rfl "Class=Button;ObjectIndex=2" _ hchain rfl (by decide +kernel)
    (by decide +kernel) "Class=Window" {} (by decide +kernel) 0 {}
  exact hsame (hagain rfl)

end Engine

end Locator
