import Locator.Proofs.Counterparts

/-!
# Sentinels on top

A level that is spelled as one of the sentinels of the settings names the root itself. If it can be
read as a level at all, a single pass for it and levels below it answers as a single pass for these
levels alone (`sentinel_on_top`). But a path is read before its first level is compared with the
sentinels, so a sentinel in which there is no qualifier is refused (`unread_sentinel`).
-/

namespace Locator

open Text Search

/-! ## Reading a sentinel -/

/-- A text without a separator, and a chain below it. -/
theorem readPath_on_top {top below : String} (hwhole : ';' ∉ top.toList)
    (husable : (Level.ofText top).usable) {chain : Chain}
    (hchain : Engine.readPath below = .ok chain) :
    Engine.readPath (top ++ childSeparator ++ below)
      = .ok ⟨top ++ childSeparator ++ below, Level.ofText top, chain.levels⟩ := by
  obtain ⟨hpieces, -⟩ := (FirstCut.of_notMem rfl hwhole :
    FirstCut (top ++ childSeparator ++ below) top below).pieces
  obtain ⟨-, hlevels, hbelow⟩ := readPath_eq_ok.1 hchain
  refine readPath_eq_ok.2 ⟨rfl, ?_, List.forall_mem_cons.2 ⟨husable, hbelow⟩⟩
  rw [hpieces, List.map_cons, ← hlevels]
  rfl

theorem readPath_alone {top : String} (hwhole : ';' ∉ top.toList)
    (husable : (Level.ofText top).usable) :
    Engine.readPath top = .ok ⟨top, Level.ofText top, []⟩ := by
  obtain ⟨-, hpieces⟩ := (FirstCut.of_notMem rfl hwhole :
    FirstCut (top ++ childSeparator ++ "") top "").pieces
  refine readPath_eq_ok.2 ⟨rfl, ?_, List.forall_mem_cons.2 ⟨husable, nofun⟩⟩
  rw [hpieces]
  rfl

theorem Settings.isTopLevelSentinel_of_mem {settings : Settings} {sentinel : String}
    (h : sentinel ∈ settings.topLevelSentinels)
    (htrim : trim sentinel.toList = sentinel.toList) :
    settings.isTopLevelSentinel sentinel.toList := by
  rw [isTopLevelSentinel, htrim, List.any_eq_true]
  exact ⟨sentinel, h, List.isPrefixOf_iff_prefix.2 (List.prefix_refl _)⟩

/-- A text that has no sentinel of its own to be stripped is compared as it stands. -/
theorem Level.stripFpsm_of_not_fpsm {raw : List Char} (h : (ofChars raw).fpsm = false) :
    stripFpsm raw = (false, raw) := by
  have hfst : (stripFpsm raw).1 = false := h
  simp only [stripFpsm] at hfst ⊢
  split at hfst
  · cases hfst
  · next hno => rw [if_neg hno]

/-- A sentinel of the settings that can be written as a first level, and is read as a level without
the mark for direct children. -/
structure Settings.ReadsSentinel (settings : Settings) (sentinel : String) : Prop where
  mem : sentinel ∈ settings.topLevelSentinels
  whole : ';' ∉ sentinel.toList
  trimmed : trim sentinel.toList = sentinel.toList
  usable : (Level.ofText sentinel).usable
  unmarked : (Level.ofText sentinel).fpsm = false

namespace Engine

theorem firstSearched_of_sentinel {settings : Settings} {sentinel : String}
    (h : settings.ReadsSentinel sentinel) {chain : Chain}
    (hfirst : chain.first = Level.ofText sentinel) : firstSearched settings chain = 1 := by
  have hraw : chain.first.raw.toList = sentinel.toList := by
    rw [hfirst, Level.ofText, Level.ofChars, String.toList_ofList]
  rw [firstSearched, hraw, Level.stripFpsm_of_not_fpsm h.unmarked,
    Settings.isTopLevelSentinel_of_mem h.mem h.trimmed, if_pos rfl]

/-! ## Searching below it -/

section Below

variable {E : Type} {engine : Engine E} (answers : Oracle E) {sentinel root below : String}
  {rootChain chain : Chain}
  (h : engine.settings.ReadsSentinel sentinel) (hroot : readPath root = .ok rootChain)
include h hroot

/-- Below a sentinel the levels are searched for as they are on their own. -/
theorem once_below_sentinel (hbelow : readPath below = .ok chain)
    (hfirst : firstSearched engine.settings chain = 0) (timeoutSecs : Nat) (singlePass : Bool) :
    SameEnd (Outcome.SameBy id)
      (engine.once answers
        (.descendant root (sentinel ++ childSeparator ++ below) timeoutSecs singlePass))
      (engine.once answers (.descendant root below timeoutSecs singlePass)) := by
  have hwhole := readPath_on_top h.whole h.usable hbelow
  have hcounterpart : Chain.Counterpart id 1
      ⟨sentinel ++ childSeparator ++ below, Level.ofText sentinel, chain.levels⟩ chain :=
    ⟨rfl, rfl⟩
  refine once_descendant_same engine answers hwhole hbelow hcounterpart ?_ hroot timeoutSecs
    singlePass
  rw [firstSearched_of_sentinel h rfl, hfirst]

/-- A sentinel alone is the root itself. -/
theorem once_sentinel (timeoutSecs : Nat) (singlePass : Bool) {located : Located E}
    (hlocated : engine.rootOnce answers rootChain engine.settings.rootRefreshTimeoutSecs
      = .ok (.found located)) :
    engine.once answers (.descendant root sentinel timeoutSecs singlePass)
      = .ok (.found ⟨located.element, [], 0⟩) := by
  have hgoal : goalBelow? engine.settings ⟨sentinel, Level.ofText sentinel, []⟩ located.element
      = none := by
    rw [goalBelow?, firstSearched_of_sentinel h rfl]
    rfl
  rw [once_descendant (readPath_alone h.whole h.usable) hroot, hlocated]
  change engine.belowOnce answers located.element _ timeoutSecs = _
  rw [belowOnce, hgoal]

end Below

end Engine

/-- A sentinel that is read as a level can stand above any levels whose first is no sentinel, and a
single pass for a descendant answers as for these levels alone. Alone it stands for the root. -/
theorem sentinel_on_top {tree : Snapshot} {engine : Engine Place} (hlisted : tree.unlisted = false)
    (hreach : tree.height ≤ engine.reach) {sentinel root : String}
    (hsentinel : engine.settings.ReadsSentinel sentinel) {rootChain : Chain}
    (hroot : Engine.readPath root = .ok rootChain) (timeoutSecs rootSecs : Nat)
    (time later : Clock) :
    (∀ below chain, Engine.readPath below = .ok chain →
      Engine.firstSearched engine.settings chain = 0 →
      ∃ whole parts,
        (engine.fresh.handle tree.world
          (.descendant root (sentinel ++ childSeparator ++ below) timeoutSecs true) time).1
            = .ok whole
        ∧ (engine.fresh.handle tree.world (.descendant root below timeoutSecs true) later).1
            = .ok parts
        ∧ whole.SameBy id parts)
    ∧ ∀ located,
      (engine.fresh.handle tree.world (.root root rootSecs true) time).1 = .ok (.found located) →
      (engine.fresh.handle tree.world (.descendant root sentinel timeoutSecs true) later).1
        = .ok (.found ⟨located.element, [], 0⟩) := by
  refine ⟨fun below chain hbelow hfirst => ?_, fun located hlocated => ?_⟩
  · rw [Engine.fresh_handle (tree.world_answers time) rfl,
      Engine.fresh_handle (tree.world_answers later) rfl]
    have hsame := Engine.once_below_sentinel tree.answer hsentinel hroot hbelow hfirst
      timeoutSecs true
    exact hsame.exists_of_both (Engine.once_descendant_ok hlisted hreach
      (readPath_on_top hsentinel.whole hsentinel.usable hbelow) hroot timeoutSecs true)
  · rw [Engine.fresh_handle (tree.world_answers time) rfl, Engine.once_root hroot] at hlocated
    rw [Engine.fresh_handle (tree.world_answers later) rfl]
    -- the element does not depend on the time limit
    obtain ⟨rootChain', found, hroot', hfound, helement⟩ :=
      (Engine.locates_of_rootOnce hroot hlocated).rootOnce engine.settings.rootRefreshTimeoutSecs
    obtain rfl := Except.ok.inj (hroot.symm.trans hroot')
    rw [← helement]
    exact Engine.once_sentinel _ hsentinel hroot timeoutSecs true hfound

/-- A sentinel of one's own, with a qualifier in it. -/
theorem sentinel_on_top_window :
    let engine := windowTree.engine { topLevelSentinels := ["currentwindow", "Name=main"] }
    (∃ whole parts,
      (engine.fresh.handle windowTree.world
        (.descendant "Class=Window" "Name=main;\\;Class=Button;ObjectIndex=2" 0 true) {}).1
          = .ok whole
      ∧ (engine.fresh.handle windowTree.world
        (.descendant "Class=Window" "Class=Button;ObjectIndex=2" 0 true) ⟨3⟩).1 = .ok parts
      ∧ whole.SameBy id parts ∧ whole.located?.map (·.element) = some ⟨[0, 0, 0]⟩)
    ∧ (engine.fresh.handle windowTree.world (.descendant "Class=Window" "Name=main" 0 true) ⟨3⟩).1
      = .ok (.found ⟨⟨[0]⟩, [], 0⟩) := by
  intro engine
  have hsentinel : engine.settings.ReadsSentinel "Name=main" :=
    ⟨by decide, by decide, by decide, by decide +kernel, by decide +kernel⟩
  have hroot : Engine.readPath "Class=Window"
      = .ok ⟨"Class=Window", Level.ofText "Class=Window", []⟩ := by decide +kernel
  have hbelow : Engine.readPath "Class=Button;ObjectIndex=2"
      = .ok ⟨"Class=Button;ObjectIndex=2", Level.ofText "Class=Button;ObjectIndex=2", []⟩ := by
    decide +kernel
  have hreach : windowTree.height ≤ engine.reach := Nat.le_refl _
  obtain ⟨habove, halone⟩ := sentinel_on_top rfl hreach hsentinel hroot 0 0 {} ⟨3⟩
  obtain ⟨whole, parts, hwhole, hparts, hsame⟩ := habove _ _ hbelow (by decide +kernel)
  refine ⟨⟨whole, parts, hwhole, hparts, hsame, ?_⟩, ?_⟩
  · rw [Engine.elementOf_of_ok hwhole]
    decide +kernel
  · have hfound : ∃ located, (engine.fresh.handle windowTree.world
        (.root "Class=Window" 0 true) {}).1 = .ok (.found located) ∧ located.element = ⟨[0]⟩ :=
      Engine.elementOf_eq_some.1 (by decide +kernel)
    obtain ⟨located, hlocated, helement⟩ := hfound
    rw [← helement]
    exact halone located hlocated

/-- A valid sentinel without a qualifier in it. The levels below it find a button on their own, but
with the sentinel above them, and so does the sentinel alone, they are refused. -/
theorem unread_sentinel :
    let settings : Settings := { topLevelSentinels := ["currentwindow", "mainwindow"] }
    let engine := windowTree.engine settings
    settings.validate = .ok () ∧ "mainwindow" ∈ settings.topLevelSentinels
      ∧ ';' ∉ "mainwindow".toList ∧ trim "mainwindow".toList = "mainwindow".toList
      ∧ Engine.elementOf (engine.fresh.handle windowTree.world
          (.descendant "Class=Window" "Class=Button" 0 true) {}).1 = some ⟨[0, 0, 0]⟩
      ∧ (engine.fresh.handle windowTree.world
          (.descendant "Class=Window" "mainwindow;\\;Class=Button" 0 true) {}).1
        = .error (.malformedPath "mainwindow;\\;Class=Button"
            "level 1 ('mainwindow') has no recognized qualifier")
      ∧ (engine.fresh.handle windowTree.world
          (.descendant "Class=Window" "mainwindow" 0 true) {}).1
        = .error (.malformedPath "mainwindow"
            "level 1 ('mainwindow') has no recognized qualifier") := by
  intro settings engine
  have hwhole : Engine.readPath "mainwindow;\\;Class=Button"
      = .error (.malformedPath "mainwindow;\\;Class=Button"
          "level 1 ('mainwindow') has no recognized qualifier") := by decide +kernel
  have halone : Engine.readPath "mainwindow"
      = .error (.malformedPath "mainwindow"
          "level 1 ('mainwindow') has no recognized qualifier") := by decide +kernel
  exact ⟨rfl, by decide, by decide, by decide, by decide +kernel,
    (Engine.handle_of_refused (Engine.program_descendant_unreadable hwhole) _ _).1,
    (Engine.handle_of_refused (Engine.program_descendant_unreadable halone) _ _).1⟩

end Locator
