import D20Tempest.Characters.RoundTrip
import D20Tempest.Foundation.JsonAccepted

namespace D20Tempest.Characters
open Foundation Components

/-! ## Documents in other words -/

theorem ability_load_normal (root : Json) : Components.Ability.load root.normal = Components.Ability.load root := by
  rw [Components.Ability.load, Components.Ability.load, Json.isDiscarded_normal, Json.contains_normal, Json.contains_normal,
    Json.index_bind_normal _ _ Json.getInt_normal, Json.index_bind_normal _ _ Json.getInt_normal]

namespace Character

theorem loadedAbility_normal (scripts : ScriptStore) (key : Bytes) (root : Json) :
    loadedAbility scripts (key, root.normal) = loadedAbility scripts (key, root) := by
  rw [loadedAbility, loadedAbility, ability_load_normal]

theorem loadAbilities_normal (scripts : ScriptStore) (entries : List (Bytes × Json)) :
    loadAbilities scripts (entries.map fun e => (e.1, e.2.normal)) = loadAbilities scripts entries := by
  induction entries with
  | nil => rfl
  | cons entry rest ih =>
      rw [List.map_cons, loadAbilities, loadAbilities, loadedAbility_normal, ih]

/-- Which of the two kinds of integers a document has makes no difference. -/
theorem load_normal (scripts : ScriptStore) (root : Json) : load scripts root.normal = load scripts root := by
  have abilities : ∀ c, (evaluate (root.normal.index (str "abilities")) >>= fun j => loadAbilities scripts j.items) c =
      (evaluate (root.index (str "abilities")) >>= fun j => loadAbilities scripts j.items) c := by
    intro c
    rw [Json.index_normal]
    cases root.index (str "abilities") with
    | error e => rfl
    | ok j =>
        show loadAbilities scripts j.normal.items c = loadAbilities scripts j.items c
        rw [Json.items_normal, loadAbilities_normal]
  have abilities := funext abilities
  rw [load, load, Json.isDiscarded_normal, Json.contains_normal, Json.contains_normal, Json.contains_normal,
    Json.index_bind_normal _ _ Json.getUInt64_normal, Json.index_bind_normal _ _ Json.getString_normal, abilities]

end Character

/-! ## Characters that can be saved as text -/

/-- Scripts without errors, under names that can be written. -/
structure WellScripted (scripts : ScriptStore) : Prop where
  total : Total scripts
  keys : ∀ key script, scripts (scriptPath key) = some script → isUtf8 key = true
  names : ∀ path script, scripts path = some script → isUtf8 script.name = true ∧ isUtf8 script.shortName = true

namespace Character
variable {scripts : ScriptStore} {c c' : Character}

structure Faithful (scripts : ScriptStore) (c : Character) : Prop where
  reloadable : c.Reloadable scripts
  name : isUtf8 c.name = true

theorem built_abilityDocument {float : Rat → Prop} (a : Ability) (m : Int32) : Json.Built float (a.document m) := by
  apply Json.built_ofFields
  simp [Json.Built]

theorem built_document {float : Rat → Prop} (c : Character) : Json.Built float c.document := by
  have abilities : Json.Built float (.object (c.abilities.entries.map fun e => (e.1, e.2.document (savedModifier e.2)))) := by
    rw [Json.Built, Json.builtMembers_iff]
    constructor
    · exact (c.abilities.map fun _ a => a.document (savedModifier a)).sorted
    · intro m mem
      obtain ⟨e, -, rfl⟩ := List.mem_map.mp mem
      exact built_abilityDocument _ _
  apply Json.built_ofFields
  simp only [List.forall_mem_cons, List.not_mem_nil, false_implies, implies_true, and_true]
  exact ⟨trivial, trivial, abilities⟩

theorem utf8_abilityDocument {a : Ability} (name : isUtf8 a.script.name = true) (shortName : isUtf8 a.script.shortName = true)
    (m : Int32) : (a.document m).utf8 = true := by
  apply Json.utf8_ofFields
  simp only [List.forall_mem_cons, List.not_mem_nil, false_implies, implies_true, and_true]
  exact ⟨⟨by decide, rfl⟩, ⟨by decide, rfl⟩, ⟨by decide, rfl⟩, ⟨by decide, name⟩, ⟨by decide, shortName⟩⟩

theorem Faithful.utf8 (well : WellScripted scripts) (faithful : c.Faithful scripts) : c.document.utf8 = true := by
  have abilities : (Json.object (c.abilities.entries.map fun e => (e.1, e.2.document (savedModifier e.2)))).utf8 = true := by
    rw [Json.utf8, Json.utf8Members_iff]
    intro m mem
    obtain ⟨e, held, rfl⟩ := List.mem_map.mp mem
    obtain ⟨onScript, -⟩ := faithful.reloadable e.1 e.2 (OrderedMap.mem_entries.mp held)
    obtain ⟨name, shortName⟩ := well.names _ _ onScript
    exact ⟨well.keys _ _ onScript, utf8_abilityDocument name shortName _⟩
  apply Json.utf8_ofFields
  simp only [List.forall_mem_cons, List.not_mem_nil, false_implies, implies_true, and_true]
  exact ⟨⟨by decide, faithful.name⟩, ⟨by decide, rfl⟩, ⟨by decide, abilities⟩⟩

/-! ### How they come about -/

theorem Faithful.make {name : Bytes} (valid : isUtf8 name = true) (characterID : UInt64) (client : Option Ref) :
    (Character.make characterID name client).Faithful scripts := ⟨reloadable_make characterID name client, valid⟩

theorem name_perform (scripts : ScriptStore) (c : Character) (call : CharacterCall) : (c.perform scripts call).name = c.name := by
  cases call with
  | addAbility scriptName defaultValue =>
      rw [perform, addAbility_apply]
      cases scripts (scriptPath scriptName) <;> rfl
  | ability scriptName call =>
      rw [perform]
      cases c.abilities.find scriptName <;> rfl
  | save =>
      rw [perform, Character.save]
      split <;> rfl

theorem Faithful.perform (well : WellScripted scripts) (faithful : c.Faithful scripts) (call : CharacterCall)
    (noLoad : ∀ key doc, call ≠ .ability key (.load doc)) : (c.perform scripts call).Faithful scripts where
  reloadable := reloadable_perform well.total call noLoad faithful.reloadable
  name := by rw [name_perform, faithful.name]

theorem Faithful.after (well : WellScripted scripts) (faithful : c.Faithful scripts) {calls : List CharacterCall}
    (noLoads : ∀ key doc, .ability key (.load doc) ∉ calls) : (c.after scripts calls).Faithful scripts := by
  induction calls generalizing c with
  | nil => exact faithful
  | cons call calls ih =>
      have first := faithful.perform well call fun key doc same => noLoads key doc (by simp [same])
      exact ih first fun key doc mem => noLoads key doc (List.mem_cons_of_mem _ mem)

theorem Faithful.refreshed (well : WellScripted scripts) (faithful : c.Faithful scripts) : c.refreshed.Faithful scripts := by
  have saved := faithful.perform well .save (by simp)
  rwa [Character.perform, save_of_savable (faithful.reloadable.savable well.total), finalState_ok] at saved

theorem reloadable_loadedAbilities {entries : List (Bytes × Json)} {abilities : List (Bytes × Ability)}
    (loaded : loadedAbilities scripts entries = .ok abilities) :
    ∀ e ∈ abilities, scripts (scriptPath e.1) = some e.2.script ∧ e.2.memo.Coherent e.2.script.modifierOf := by
  induction entries generalizing abilities with
  | nil =>
      cases loaded
      simp
  | cons entry rest ih =>
      rw [loadedAbilities] at loaded
      cases first : loadedAbility scripts entry with
      | error e => simp [first] at loaded
      | ok a =>
          cases later : loadedAbilities scripts rest with
          | error e => simp [first, later] at loaded
          | ok others =>
              simp only [first, later, Except.ok.injEq] at loaded
              subst loaded
              obtain ⟨script, onScript, doc, -, rfl⟩ := loadedAbility_ok_iff.mp first
              refine List.forall_mem_cons.mpr ⟨⟨onScript, ?_⟩, ih later⟩
              -- a new cache is marked
              intro fresh
              cases fresh

theorem Reloadable.withAbilities (reloadable : c.Reloadable scripts) {abilities : List (Bytes × Ability)}
    (each : ∀ e ∈ abilities, scripts (scriptPath e.1) = some e.2.script ∧ e.2.memo.Coherent e.2.script.modifierOf) :
    (c.withAbilities abilities).Reloadable scripts := by
  intro key a found
  rw [Character.withAbilities, OrderedMap.find_foldl_insert] at found
  rcases Option.or_eq_some_iff.mp found with old | ⟨-, new⟩
  · exact reloadable key a old
  · obtain ⟨e, mem, rfl⟩ := Option.map_eq_some_iff.mp new
    have same := List.find?_some mem
    simp only [decide_eq_true_eq] at same
    exact same ▸ each e (List.mem_of_find?_eq_some mem)

theorem Faithful.load {root : Json} (valid : root.utf8 = true) (faithful : c.Faithful scripts)
    (loaded : Character.load scripts root c = .ok () c') : c'.Faithful scripts := by
  obtain ⟨characterID, name, abilities, described, rfl⟩ := load_ok_iff.mp loaded
  obtain ⟨j, -, read⟩ := described.reads_abilities
  constructor
  · exact Reloadable.withAbilities (c := { c with characterID := characterID, name := name }) faithful.reloadable
      (reloadable_loadedAbilities read)
  · have named := described.reads_name
    cases held : root.index (str "name") with
    | error e =>
        rw [held] at named
        cases named
    | ok value =>
        rw [held] at named
        have text : value = .string name := Json.getString_ok.mp named
        subst text
        exact Json.utf8_of_find valid (Json.find_of_index held)

/-! ## Text -/

section Text
variable {number : Rat → Bytes} {strtod : Bytes → Option Rat} {text : Bytes}

theorem Faithful.dumps (well : WellScripted scripts) (faithful : c.Faithful scripts) (number : Rat → Bytes) :
    ∃ text, c.document.dump number (some 4) = some text := by
  rw [← Option.isSome_iff_exists, Json.dump_isSome]
  exact faithful.utf8 well

theorem parse_text (dumps : c.document.dump number (some 4) = some text) (rest : Bytes) :
    Json.parse strtod false (text ++ rest) = some c.document.normal :=
  Json.parse_dump_append (built_document c) dumps rfl rest

theorem parse_torn_text (dumps : c.document.dump number (some 4) = some text) {beginning : Bytes} (before : beginning <+: text)
    (shorter : beginning ≠ text) : Json.parse strtod false beginning = none :=
  Json.parse_unfinished (built_document c) dumps before shorter

theorem load_document (reloadable : c.Reloadable scripts) {d : Character} (bare : d.abilities = .empty) :
    load scripts c.document.normal d = .ok () (c.reloaded d.client) := by
  rw [load_normal]
  exact load_ok_iff.mpr ⟨_, _, _, describes_document reloadable, (withAbilities_reloaded d bare).symm⟩

/-- A saved text, with anything behind it, is loaded as a character that is saved as this text again; a beginning of
the text is not even parsed. -/
theorem saved_text_exact (well : WellScripted scripts) (number : Rat → Bytes) (strtod : Bytes → Option Rat) (characterID : UInt64)
    (name : Bytes) (valid : isUtf8 name = true) (client : Option Ref) (calls : List CharacterCall)
    (noLoads : ∀ key doc, .ability key (.load doc) ∉ calls) (d : Character) (bare : d.abilities = .empty) :
    let c := (make characterID name client).after scripts calls
    ∃ doc text, returned (save c) = .ok doc ∧ doc.dump number (some 4) = some text ∧
      (∀ rest, ∃ doc' d' doc'', Json.parse strtod false (text ++ rest) = some doc' ∧ load scripts doc' d = .ok () d' ∧
        returned (save d') = .ok doc'' ∧ doc''.dump number (some 4) = some text) ∧
      ∀ beginning, beginning <+: text → beginning ≠ text → Json.parse strtod false beginning = none := by
  intro c
  have faithful : c.Faithful scripts := (Faithful.make valid characterID client).after well noLoads
  have reloadable := faithful.reloadable
  obtain ⟨text, dumps⟩ := faithful.dumps well number
  obtain ⟨savable, same⟩ := save_reloaded well.total reloadable d.client
  refine ⟨c.document, text, ?_, dumps, ?_, fun beginning before shorter => parse_torn_text dumps before shorter⟩
  · rw [save_of_savable (reloadable.savable well.total)]
    rfl
  · intro rest
    refine ⟨_, _, c.document, parse_text dumps rest, load_document reloadable bare, ?_, dumps⟩
    rw [save_of_savable savable, same]
    rfl

theorem scriptPath_injective {key key' : Bytes} (same : scriptPath key = scriptPath key') : key = key' :=
  List.append_cancel_left (List.append_cancel_right same)

theorem wellScripted_shippedScripts : WellScripted shippedScripts where
  total := total_shippedScripts
  keys key script found := by
    have spelled : ∀ shipped : Bytes, isUtf8 shipped = true → scriptPath key = scriptPath shipped → isUtf8 key = true :=
      fun shipped valid same => scriptPath_injective same ▸ valid
    unfold shippedScripts at found
    split at found
    · exact spelled (str "strength") (by decide) ‹_›
    split at found
    · exact spelled (str "dexterity") (by decide) ‹_›
    split at found
    · exact spelled (str "constitution") (by decide) ‹_›
    split at found
    · exact spelled (str "intelligence") (by decide) ‹_›
    split at found
    · exact spelled (str "wisdom") (by decide) ‹_›
    split at found
    · exact spelled (str "charism") (by decide) ‹_›
    · cases found
  names path script found := by
    unfold shippedScripts at found
    repeat' split at found
    all_goals cases found
    all_goals decide

end Text

theorem saved_text_strength :
    let c := (make 3 (str "Aldor") none).after shippedScripts [.addAbility (str "strength") 10,
      .ability (str "strength") .modifier, .ability (str "strength") (.setTemp 2)]
    ∃ doc text, returned (save c) = .ok doc ∧ doc.dump (fun _ => []) (some 4) = some text ∧
      (∀ rest, ∃ doc' d' doc'', Json.parse (fun _ => none) false (text ++ rest) = some doc' ∧
        load shippedScripts doc' (make 0 [] none) = .ok () d' ∧ returned (save d') = .ok doc'' ∧
        doc''.dump (fun _ => []) (some 4) = some text) ∧
      ∀ beginning, beginning <+: text → beginning ≠ text → Json.parse (fun _ => none) false beginning = none :=
  saved_text_exact wellScripted_shippedScripts (fun _ => []) (fun _ => none) 3 (str "Aldor") (by decide) none _ (by simp)
    (make 0 [] none) rfl

end Character
end D20Tempest.Characters
