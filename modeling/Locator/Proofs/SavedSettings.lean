import Locator.Proofs.Texts
import Locator.Proofs.TomlTexts
import Locator.Settings.Location

/-!
# Settings survive their file

Settings that are saved are loaded again as they were, by the reader of their text and from their
file; or nothing is written, when a number is beyond the signed 64-bit words of TOML
(`saved_or_untouched`). The file has every field, so what lies under it does not matter
(`lookup_layAll`).
-/

namespace Locator

/-! ## Layers -/

namespace Loose

theorem lookup_putEntry_self (key : String) (value : Loose) :
    ∀ entries, (putEntry key value entries).lookup key = some value
  | [] => List.lookup_cons_self
  | (old, current) :: entries => by
    rw [putEntry]
    by_cases hold : old = key
    · rw [if_pos (beq_iff_eq.2 hold), hold, List.lookup_cons_self]
    · rw [if_neg (by simpa using hold), Table.lookup_cons_of_ne (Ne.symm hold),
        lookup_putEntry_self key value entries]

theorem lookup_putEntry_of_ne {key k : String} (hk : k ≠ key) (value : Loose) :
    ∀ entries, (putEntry key value entries).lookup k = entries.lookup k
  | [] => Table.lookup_cons_of_ne hk value []
  | (old, current) :: entries => by
    rw [putEntry]
    by_cases hold : old = key
    · rw [if_pos (beq_iff_eq.2 hold), hold, Table.lookup_cons_of_ne hk,
        Table.lookup_cons_of_ne hk]
    · rw [if_neg (by simpa using hold), List.lookup_cons, List.lookup_cons,
        lookup_putEntry_of_ne hk value entries]

/-- A value that takes the place of what it is laid over. -/
def IsFlat : Loose → Prop
  | table _ => False
  | _ => True

theorem lay_of_flat {key : String} {value : Loose} (hvalue : value.IsFlat)
    (hkey : lowercase key = key) (base : Loose) :
    lay key value base = table (putEntry key value base.entries) := by
  cases value with
  | table => exact hvalue.elim
  | _ => rw [lay, hkey]

/-- Values under keys in lowercase replace those under the same keys, and no others. -/
theorem lookup_layAll : ∀ {pairs : List (String × Loose)},
    (∀ value ∈ pairs.map Prod.snd, IsFlat value) →
    (∀ key ∈ pairs.map Prod.fst, lowercase key = key) → (pairs.map Prod.fst).Nodup →
    ∀ (base : Loose) (key : String), (layAll pairs base).entries.lookup key
      = (pairs.lookup key).or (base.entries.lookup key)
  | [], _, _, _, base, key => by
    rw [layAll]
    rfl
  | (k, value) :: pairs, hvalues, hkeys, hdistinct, base, key => by
    obtain ⟨hvalue, hvalues⟩ := List.forall_mem_cons.1 hvalues
    obtain ⟨hk, hkeys⟩ := List.forall_mem_cons.1 hkeys
    obtain ⟨hnew, hdistinct⟩ := List.nodup_cons.1 hdistinct
    rw [layAll, lookup_layAll hvalues hkeys hdistinct, lay_of_flat hvalue hk, entries]
    by_cases hkey : key = k
    · rw [hkey, lookup_putEntry_self, List.lookup_cons_self, Table.lookup_eq_none.2 hnew]
      rfl
    · rw [lookup_putEntry_of_ne hkey, Table.lookup_cons_of_ne hkey]

/-- Whatever values are laid over becomes a table. -/
theorem layAll_cons_eq_table (key : String) (value : Loose) : ∀ (pairs : List (String × Loose))
    (base : Loose), ∃ entries, layAll ((key, value) :: pairs) base = table entries := by
  intro pairs
  induction pairs generalizing key value with
  | nil =>
    intro base
    cases value <;> exact ⟨_, by rw [layAll, layAll, lay]⟩
  | cons pair pairs ih =>
    intro base
    rw [layAll]
    exact ih pair.1 pair.2 (lay key value base)

/-- A source with nothing but a table under a word changes nothing but what is under the word. -/
theorem lookup_laySource {name : String} (hpath : readPath name = (name, []))
    (hname : lowercase name = name) (pairs : List (String × Loose)) (base : Loose) :
    (laySource [(name, table pairs)] base).entries.lookup name
      = some (layAll pairs ((base.entries.lookup name).getD (table []))) := by
  change (layPath (readPath name) (table pairs) base).entries.lookup name = _
  rw [hpath]
  change (lay name (table pairs) base).entries.lookup name = _
  rw [lay, hname, entries, lookup_putEntry_self]

end Loose

namespace Settings

open Text

/-! ## The text -/

/-- Settings whose numbers are signed 64-bit words. -/
structure Storable (settings : Settings) : Prop where
  pollInterval : settings.pollIntervalMs ≤ 2 ^ 63 - 1
  defaultTimeout : settings.defaultTimeoutSecs ≤ 2 ^ 63 - 1
  rootRefreshTimeout : settings.rootRefreshTimeoutSecs ≤ 2 ^ 63 - 1

theorem natural?_of_le {n : Nat} (hn : n ≤ 2 ^ 63 - 1) : Toml.natural? n = some (decimal n) :=
  if_pos hn

theorem natural?_of_gt {n : Nat} (hn : ¬ n ≤ 2 ^ 63 - 1) : Toml.natural? n = none :=
  if_neg hn

/-- The fields of settings and their texts, in their order in a file. -/
def pairs (settings : Settings) (h : settings.Storable) : List Toml.Pair :=
  [{ key := "poll_interval_ms", text := decimal settings.pollIntervalMs
     value := .integer settings.pollIntervalMs
     word := by decide, prints := Toml.prints_decimal h.pollInterval },
   { key := "default_timeout_secs", text := decimal settings.defaultTimeoutSecs
     value := .integer settings.defaultTimeoutSecs
     word := by decide, prints := Toml.prints_decimal h.defaultTimeout },
   { key := "root_refresh_timeout_secs", text := decimal settings.rootRefreshTimeoutSecs
     value := .integer settings.rootRefreshTimeoutSecs
     word := by decide, prints := Toml.prints_decimal h.rootRefreshTimeout },
   { key := "top_level_sentinels", text := Toml.quoteAll settings.topLevelSentinels
     value := .array (settings.topLevelSentinels.map .string)
     word := by decide, prints := Toml.prints_quoteAll settings.topLevelSentinels }]

/-- The fields of settings, with values of some language. -/
def record {α : Type} (ofNumber : Nat → α) (ofTexts : List String → α) (settings : Settings) :
    List (String × α) :=
  [("poll_interval_ms", ofNumber settings.pollIntervalMs),
   ("default_timeout_secs", ofNumber settings.defaultTimeoutSecs),
   ("root_refresh_timeout_secs", ofNumber settings.rootRefreshTimeoutSecs),
   ("top_level_sentinels", ofTexts settings.topLevelSentinels)]

def fields : Settings → List (String × Toml) :=
  record (fun n => .integer n) fun texts => .array (texts.map .string)

theorem text?_of_storable {settings : Settings} (h : settings.Storable) : settings.text?
    = some (Toml.headerLine sectionName ++ (settings.pairs h).flatMap Toml.Pair.line) := by
  simp only [text?, natural?_of_le h.pollInterval, natural?_of_le h.defaultTimeout,
    natural?_of_le h.rootRefreshTimeout, Option.bind_eq_bind, Option.bind_some, pairs,
    Toml.Pair.line, List.flatMap_cons, List.flatMap_nil, List.append_nil, List.append_assoc]
  rfl

theorem text?_of_not_storable {settings : Settings} (h : ¬ settings.Storable) :
    settings.text? = none := by
  by_cases hpoll : settings.pollIntervalMs ≤ 2 ^ 63 - 1
  · by_cases hdefault : settings.defaultTimeoutSecs ≤ 2 ^ 63 - 1
    · have hroot : ¬ settings.rootRefreshTimeoutSecs ≤ 2 ^ 63 - 1 :=
        fun hroot => h ⟨hpoll, hdefault, hroot⟩
      simp [text?, natural?_of_gt hroot]
    · simp [text?, natural?_of_gt hdefault]
  · simp [text?, natural?_of_gt hpoll]

theorem ofChars?_text {settings : Settings} {text : List Char} (h : settings.text? = some text) :
    Toml.ofChars? text = some (.table [(sectionName, .table settings.fields)]) := by
  by_cases hstorable : settings.Storable
  · obtain rfl := Option.some.inj ((text?_of_storable hstorable).symm.trans h)
    have hkeys : ((settings.pairs hstorable).map Toml.Pair.key).Nodup := by
      change fieldNames.Nodup
      decide
    exact Toml.ofChars?_document (by decide) hkeys
  · rw [text?_of_not_storable hstorable] at h
    cases h

/-! ## The reader of the text -/

/-- Fields that each read as what they were made of read as the settings. -/
theorem ofFields?_record {α : Type} {number : α → Option Nat} {texts : α → Option (List String)}
    {ofNumber : Nat → α} {ofTexts : List String → α} (hnumber : ∀ n, number (ofNumber n) = some n)
    (htexts : ∀ items, texts (ofTexts items) = some items) (settings : Settings) :
    ofFields? number texts (fieldNames.map fun name =>
      (settings.record ofNumber ofTexts).lookup name) = some settings := by
  have hlookup : (fieldNames.map fun name => (settings.record ofNumber ofTexts).lookup name)
      = [some (ofNumber settings.pollIntervalMs), some (ofNumber settings.defaultTimeoutSecs),
        some (ofNumber settings.rootRefreshTimeoutSecs),
        some (ofTexts settings.topLevelSentinels)] := rfl
  rw [hlookup]
  simp [ofFields?, hnumber, htexts]

theorem asTexts?_strings (texts : List String) :
    Toml.asTexts? (.array (texts.map .string)) = some texts := by
  rw [Toml.asTexts?, List.mapM_map]
  exact List.mapM_pure.trans (congrArg some (List.map_id texts))

theorem ofText_ofList {settings : Settings} {text : List Char} (h : settings.text? = some text) :
    ofText (String.ofList text) = .ok settings := by
  have hfields : ofFields? Toml.asNatural? Toml.asTexts?
      (fieldNames.map fun name => settings.fields.lookup name) = some settings := by
    refine ofFields?_record ?_ ?_ settings
    · exact fun _ => rfl
    · exact asTexts?_strings
  have hdocument : ofDocument? (.table [(sectionName, .table settings.fields)]) = some settings :=
    hfields
  rw [ofText, String.toList_ofList, ofChars?_text h, Option.bind_some, hdocument]

/-! ## The reader of the file -/

/-- The fields as values that may lie over others. -/
def looseFields : Settings → List (String × Loose) :=
  record (fun n => .integer n) fun texts => .array (texts.map .text)

theorem ofTomlItems_strings : ∀ texts : List String,
    Loose.ofTomlItems (texts.map .string) = texts.map .text
  | [] => rfl
  | text :: texts => by
    rw [List.map_cons, Loose.ofTomlItems, ofTomlItems_strings texts]
    rfl

theorem ofTomlEntries_fields (settings : Settings) :
    Loose.ofTomlEntries settings.fields = settings.looseFields := by
  simp only [fields, looseFields, record, Loose.ofTomlEntries, Loose.ofToml, ofTomlItems_strings]

theorem asTexts?_texts (texts : List String) :
    Loose.asTexts? (.array (texts.map .text)) = some texts := by
  rw [Loose.asTexts?, List.mapM_map]
  exact List.mapM_pure.trans (congrArg some (List.map_id texts))

/-- Fields are read, whatever they are laid over. -/
theorem ofLoose?_layAll (settings : Settings) (below : Loose) :
    ofLoose? (Loose.layAll settings.looseFields below) = some settings := by
  have hflat : ∀ value ∈ settings.looseFields.map Prod.snd, Loose.IsFlat value := by
    simp [looseFields, record, Loose.IsFlat]
  have hlower : ∀ name ∈ fieldNames, lowercase name = name := by decide +kernel
  have hdistinct : fieldNames.Nodup := by decide
  have hlookup := Loose.lookup_layAll hflat hlower hdistinct below
  obtain ⟨entries, hentries⟩ :
      ∃ entries, Loose.layAll settings.looseFields below = Loose.table entries :=
    Loose.layAll_cons_eq_table _ _ _ below
  rw [hentries] at hlookup ⊢
  -- the fields have all the names, so nothing is looked up in what lies below
  have hnames : fieldNames.map (fun name => entries.lookup name)
      = fieldNames.map fun name => settings.looseFields.lookup name := by
    refine (List.map_congr_left fun name _ => hlookup name).trans ?_
    rfl
  have hfields : ofFields? Loose.asUInt64? Loose.asTexts?
      (fieldNames.map fun name => settings.looseFields.lookup name) = some settings := by
    refine ofFields?_record ?_ ?_ settings
    · exact fun _ => rfl
    · exact asTexts?_texts
  rw [ofLoose?, Loose.fields?, hnames]
  exact hfields

theorem steady_variableStart : ∀ c ∈ variableStart.toList, isSteady c :=
  List.all_eq_true.1 (by decide)

theorem variableSource_eq_nil {environment : List (String × String)}
    (h : ∀ entry ∈ environment, ¬ variableStart.toList <+: entry.1.toList.map Char.toLower) :
    variableSource environment = [] := by
  rw [variableSource, List.filterMap_eq_nil_iff]
  intro entry hentry
  have hprefix : ¬ variableStart.toList <+: (lowercase entry.1).toList := by
    rw [lowercase, String.toList_ofList]
    exact fun hlower => h entry hentry
      (prefix_map_of_prefix_lowerFrom steady_variableStart (by decide) hlower)
  rw [Option.map_eq_none_iff, variableKey?, Option.map_eq_none_iff,
    Option.eq_none_iff_forall_ne_some]
  exact fun rest hrest => hprefix ⟨rest, (stripPrefix?_eq_some hrest).symm⟩

theorem load_text {settings : Settings} {text : List Char} (h : settings.text? = some text)
    {path : String} (hpath : SettingsFormat.extension? path = some "toml")
    {environment : List (String × String)}
    (hvariables : ∀ entry ∈ environment,
      ¬ variableStart.toList <+: entry.1.toList.map Char.toLower) :
    load (some { path, text := String.ofList text }) environment = .ok settings := by
  have hformat : SettingsFormat.ofFileName? path = some .toml := by
    rw [SettingsFormat.ofFileName?, hpath]
    rfl
  have hentries : SettingsFile.entries? { path, text := String.ofList text }
      = some [(sectionName, .table settings.looseFields)] := by
    rw [SettingsFile.entries?, hformat, Option.bind_some, SettingsFormat.entries?,
      SettingsFormat.read?, String.toList_ofList, ofChars?_text h, ← ofTomlEntries_fields]
    rfl
  have hname : Loose.readPath sectionName = (sectionName, [])
      ∧ lowercase sectionName = sectionName := by
    decide +kernel
  have hlookup := Loose.lookup_laySource hname.1 hname.2 settings.looseFields
    (Loose.laySource defaultSource (.table []))
  simp only [load, hentries, variableSource_eq_nil hvariables]
  have hnothing (base : Loose) : Loose.laySource [] base = base := rfl
  rw [hnothing, hlookup, Option.bind_some, ofLoose?_layAll]

/-! ## Files -/

section Files

variable {σ : Type} {readText : String → StateM σ (Except FileFault String)}
  {writeText : String → String → StateM σ (Except FileFault Unit)} {settings : Settings}
  {path text : String} {disk after : σ}

theorem run_saveTo_of_error {error : Error} (h : settings.saved = .error error) :
    (saveTo writeText settings path).run disk = (.error error, disk) := by
  rw [saveTo, h]
  rfl

theorem run_saveTo_of_written (h : settings.saved = .ok text)
    (hwrite : (writeText path text).run disk = (.ok (), after)) :
    (saveTo writeText settings path).run disk = (.ok (), after) := by
  rw [saveTo, h]
  dsimp only
  rw [StateT.run_bind, hwrite]
  rfl

theorem run_loadFrom (environment : List (String × String))
    (hread : ((readText path).run disk).1 = .ok text) :
    ((loadFrom readText environment path).run disk).1 = load (some { path, text }) environment := by
  rcases hrun : (readText path).run disk with ⟨result, after⟩
  rw [hrun] at hread
  obtain rfl : result = .ok text := hread
  rw [loadFrom, StateT.run_bind, hrun]
  rfl

end Files

/-- Settings with storable numbers are saved as a text that reads as them, and they are loaded
again from their file, if the name of no variable begins with `UILOCATOR_` in some case. Other
settings are refused before anything is written. Of the files it is asked that one that was written
has the text that was written. -/
theorem saved_or_untouched {σ : Type} (readText : String → StateM σ (Except FileFault String))
    (writeText : String → String → StateM σ (Except FileFault Unit)) (path : String)
    (hwritten : ∀ text disk after, (writeText path text).run disk = (.ok (), after) →
      ((readText path).run after).1 = .ok text) (settings : Settings) (disk : σ) :
    (settings.Storable → ∃ text, settings.saved = .ok text ∧ ofText text = .ok settings
      ∧ ∀ after, (writeText path text).run disk = (.ok (), after) →
        (saveTo writeText settings path).run disk = (.ok (), after)
        ∧ ∀ environment : List (String × String), SettingsFormat.extension? path = some "toml" →
          (∀ entry ∈ environment,
            ¬ variableStart.toList <+: entry.1.toList.map Char.toLower) →
          ((loadFrom readText environment path).run after).1 = .ok settings)
    ∧ (¬ settings.Storable → ∃ message,
      (saveTo writeText settings path).run disk = (.error (.config message), disk)) := by
  constructor
  · intro hstorable
    obtain ⟨text, htext⟩ : ∃ text, settings.text? = some text := ⟨_, text?_of_storable hstorable⟩
    have hsaved : settings.saved = .ok (String.ofList text) := by
      rw [saved, htext]
    refine ⟨String.ofList text, hsaved, ofText_ofList htext, fun after hwrite =>
      ⟨run_saveTo_of_written hsaved hwrite, fun environment hpath hvariables => ?_⟩⟩
    rw [run_loadFrom environment (hwritten _ disk after hwrite)]
    exact load_text htext hpath hvariables
  · intro hstorable
    have hrefused : settings.saved = .error (.config "Failed to serialize config") := by
      rw [saved, text?_of_not_storable hstorable]
    exact ⟨_, run_saveTo_of_error hrefused⟩

/-- Reads one of some files, which are paths with texts, the latest first. -/
def memoryRead (path : String) : StateM (List (String × String)) (Except FileFault String) := do
  match (← get).lookup path with
  | some text => return .ok text
  | none => return .error .missing

def memoryWrite (path text : String) :
    StateM (List (String × String)) (Except FileFault Unit) := do
  modify ((path, text) :: ·)
  return .ok ()

/-- The largest number, and sentinels that are printed in different kinds of strings; then a number
that is too large by one. -/
theorem saved_or_untouched_memory :
    let settings : Settings := {
      pollIntervalMs := 2 ^ 63 - 1
      topLevelSentinels := ["", "it's", "\"\\\n", "\x27\x27\x27\x00"] }
    let beyond : Settings := { rootRefreshTimeoutSecs := 2 ^ 63 }
    let path := "saved.toml"
    (∃ text, settings.saved = .ok text ∧ ofText text = .ok settings
      ∧ (saveTo memoryWrite settings path).run [] = (.ok (), [(path, text)])
      ∧ ((loadFrom memoryRead [("HOME", "/root")] path).run [(path, text)]).1 = .ok settings)
    ∧ ∃ message, (saveTo memoryWrite beyond path).run [] = (.error (.config message), []) := by
  intro settings beyond path
  have hwritten : ∀ text disk after, (memoryWrite path text).run disk = (.ok (), after) →
      ((memoryRead path).run after).1 = .ok text := by
    rintro text disk after hwrite
    obtain rfl : (path, text) :: disk = after := congrArg Prod.snd hwrite
    rfl
  constructor
  · obtain ⟨text, hsaved, hread, hwrite⟩ :=
      (saved_or_untouched memoryRead memoryWrite path hwritten settings []).1
        ⟨Nat.le_refl _, by decide, by decide⟩
    obtain ⟨hsave, hload⟩ := hwrite [(path, text)] rfl
    refine ⟨text, hsaved, hread, hsave, hload _ (by decide +kernel) ?_⟩
    intro entry hentry
    obtain rfl := List.mem_singleton.1 hentry
    decide
  · refine (saved_or_untouched memoryRead memoryWrite path hwritten beyond []).2 fun h => ?_
    exact absurd h.rootRefreshTimeout (by decide)

end Settings

end Locator
