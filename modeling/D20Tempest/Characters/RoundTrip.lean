import D20Tempest.Characters.Document

namespace D20Tempest.Characters
open Foundation Components

/-! ## Characters as their callers use them -/

inductive CharacterCall where
  | addAbility (scriptName : Bytes) (defaultValue : Int32)
  | ability (scriptName : Bytes) (call : AbilityCall)
  | save

namespace Character

def perform (scripts : ScriptStore) (c : Character) : CharacterCall → Character
  | .addAbility scriptName defaultValue => finalState (addAbility scripts scriptName defaultValue c)
  | .ability scriptName call => match c.abilities.find scriptName with
      | some a => { c with abilities := c.abilities.assign scriptName (Components.perform a call) }
      | none => c
  | .save => finalState (save c)

def after (scripts : ScriptStore) (c : Character) (calls : List CharacterCall) : Character :=
  calls.foldl (perform scripts) c

/-! ## What a reload depends on -/

def Reloadable (scripts : ScriptStore) (c : Character) : Prop :=
  ∀ key a, c.abilities.find key = some a →
    scripts (scriptPath key) = some a.script ∧ a.memo.Coherent a.script.modifierOf

end Character

def Total (scripts : ScriptStore) : Prop :=
  ∀ path script, scripts path = some script → ∀ value temp, ∃ m, script.getModifier value temp = .ok m

namespace Character
variable {scripts : ScriptStore} {c : Character}

theorem addAbility_apply (scriptName : Bytes) (defaultValue : Int32) :
    finalState (addAbility scripts scriptName defaultValue c) =
      match scripts (scriptPath scriptName) with
      | none => c
      | some script =>
          { c with abilities := c.abilities.insert scriptName (Ability.make script defaultValue) } := by
  cases found : c.abilities.find scriptName with
  | some a =>
      cases scripts (scriptPath scriptName) <;>
        simp [addAbility, bind_apply, found, finalState, OrderedMap.insert]
  | none =>
      cases store : scripts (scriptPath scriptName) with
      | none => simp [addAbility, bind_apply, found, store, finalState]
      | some script =>
          simp only [addAbility, bind_apply, get_apply, found, store]
          rfl

theorem reloadable_make (characterID : UInt64) (name : Bytes) (client : Option Ref) :
    (make characterID name client).Reloadable scripts := by
  intro key a found
  cases found

theorem Reloadable.savable (total : Total scripts) (reloadable : c.Reloadable scripts) : c.Savable := by
  intro key a found
  obtain ⟨onScript, coherent⟩ := reloadable key a found
  obtain ⟨m, exact⟩ := total _ _ onScript a.abilityValue a.tempBonus
  exact ⟨m, (Memo.value_eq_iff.mpr coherent).trans exact⟩

theorem reloadable_perform (total : Total scripts) (call : CharacterCall)
    (noLoad : ∀ key doc, call ≠ .ability key (.load doc)) (reloadable : c.Reloadable scripts) :
    (c.perform scripts call).Reloadable scripts := by
  cases call with
  | addAbility scriptName defaultValue =>
      rw [perform, addAbility_apply]
      cases store : scripts (scriptPath scriptName) with
      | none => exact reloadable
      | some script =>
          intro key a found
          rw [OrderedMap.find_insert] at found
          split at found
          · rename_i same
            subst same
            cases held : c.abilities.find scriptName with
            | some b =>
                simp only [held, Option.getD_some, Option.some.injEq] at found
                exact found ▸ reloadable _ b held
            | none =>
                simp only [held, Option.getD_none, Option.some.injEq] at found
                subst found
                exact ⟨store, fun fresh => by cases fresh⟩
          · exact reloadable key a found
  | ability scriptName call =>
      rw [perform]
      cases held : c.abilities.find scriptName with
      | none => exact reloadable
      | some b =>
          obtain ⟨onScript, coherent⟩ := reloadable _ b held
          intro key a found
          rw [OrderedMap.find_assign] at found
          split at found
          · rename_i same
            subst same
            cases found
            refine ⟨perform_script b call ▸ onScript, coherent_perform ?_ coherent⟩
            rintro doc rfl
            exact noLoad scriptName doc rfl
          · exact reloadable key a found
  | save =>
      rw [perform, save_of_savable (reloadable.savable total), finalState]
      intro key a found
      rw [refreshed, OrderedMap.find_map, Option.map_eq_some_iff] at found
      obtain ⟨b, held, rfl⟩ := found
      obtain ⟨onScript, coherent⟩ := reloadable key b held
      obtain ⟨m, read⟩ := reloadable.savable total key b held
      have peeked := Memo.coherent_peek coherent
      rw [Memo.use, Memo.refreshed_of_ok read] at peeked
      refine ⟨onScript, ?_⟩
      rw [savedModifier, read]
      exact peeked

theorem reloadable_after (total : Total scripts) (calls : List CharacterCall)
    (noLoads : ∀ key doc, .ability key (.load doc) ∉ calls) (reloadable : c.Reloadable scripts) :
    (c.after scripts calls).Reloadable scripts := by
  induction calls generalizing c with
  | nil => exact reloadable
  | cons call calls ih =>
      have first := reloadable_perform total call
        (fun key doc same => noLoads key doc (by simp [same])) reloadable
      exact ih (fun key doc mem => noLoads key doc (List.mem_cons_of_mem _ mem)) first

/-! ## The reloaded character -/

def reloadedAbility (a : Ability) : Ability :=
  { Ability.make a.script a.abilityValue with tempBonus := a.tempBonus }

theorem loadedAbility_of_document {key : Bytes} {a : Ability} {m : Int32}
    (onScript : scripts (scriptPath key) = some a.script) :
    loadedAbility scripts (key, a.document m) = .ok (reloadedAbility a) := by
  refine loadedAbility_ok_iff.mpr ⟨a.script, onScript, ?_⟩
  refine ⟨⟨a.document m, a.abilityValue, a.tempBonus, ?_, ?_⟩, rfl, rfl⟩
  · show Except.ok a.abilityValue.toInt64.toInt32 = _
    rw [Int32.toInt32_toInt64]
  · show Except.ok a.tempBonus.toInt64.toInt32 = _
    rw [Int32.toInt32_toInt64]

theorem loadedAbilities_of_documents {entries : List (Bytes × Ability)}
    (onScripts : ∀ e ∈ entries, scripts (scriptPath e.1) = some e.2.script) :
    loadedAbilities scripts (entries.map fun e => (e.1, e.2.document (savedModifier e.2))) =
      .ok (entries.map fun e => (e.1, reloadedAbility e.2)) := by
  induction entries with
  | nil => rfl
  | cons e rest ih =>
      have head := loadedAbility_of_document (m := savedModifier e.2) (onScripts e (by simp))
      have tail := ih fun e' mem => onScripts e' (List.mem_cons_of_mem _ mem)
      simp [loadedAbilities, head, tail]

theorem describes_document (reloadable : c.Reloadable scripts) :
    Describes scripts c.document c.characterID c.name
      (c.abilities.entries.map fun e => (e.1, reloadedAbility e.2)) where
  reads_id := rfl
  reads_name := rfl
  reads_abilities := ⟨_, rfl, loadedAbilities_of_documents fun e mem =>
    (reloadable e.1 e.2 (OrderedMap.mem_entries.mp mem)).1⟩

def reloaded (c : Character) (client : Option Ref) : Character :=
  ⟨c.characterID, c.name, client, c.abilities.map fun _ a => reloadedAbility a⟩

theorem withAbilities_reloaded (d : Character) (bare : d.abilities = .empty) :
    withAbilities { d with characterID := c.characterID, name := c.name }
      (c.abilities.entries.map fun e => (e.1, reloadedAbility e.2)) = c.reloaded d.client := by
  simp only [withAbilities, reloaded, Character.mk.injEq, true_and, bare, List.foldl_map]
  apply OrderedMap.ext_find
  intro key
  rw [OrderedMap.find_foldl_insert, OrderedMap.find?_entries, OrderedMap.find_map]
  cases c.abilities.find key <;> simp

theorem save_reloaded (total : Total scripts) (reloadable : c.Reloadable scripts) (client : Option Ref) :
    (c.reloaded client).Savable ∧ (c.reloaded client).document = c.document := by
  constructor
  · intro key a found
    rw [reloaded, OrderedMap.find_map, Option.map_eq_some_iff] at found
    obtain ⟨b, held, rfl⟩ := found
    exact total _ _ (reloadable key b held).1 b.abilityValue b.tempBonus
  · rw [document, document, reloaded, OrderedMap.map_entries, List.map_map]
    congr 1
    apply List.map_congr_left
    intro e mem
    -- a new cache is computed from the value and bonus that the old one was coherent with
    have held := OrderedMap.mem_entries.mp mem
    have coherent := Memo.value_eq_iff.mpr (reloadable e.1 e.2 held).2
    have same : savedModifier (reloadedAbility e.2) = savedModifier e.2 := by
      obtain ⟨m, read⟩ := reloadable.savable total e.1 e.2 held
      have fresh : modifierRead (reloadedAbility e.2) = .ok m := coherent.symm.trans read
      rw [savedModifier, fresh, savedModifier, read]
    simp only [Function.comp_apply, same]
    rfl

/-- A character that was built through its own operations is saved to a document that any character
without abilities loads, and is then saved to again. -/
theorem load_of_save (scripts : ScriptStore) (total : Total scripts) (characterID : UInt64) (name : Bytes)
    (client : Option Ref) (calls : List CharacterCall)
    (noLoads : ∀ key doc, .ability key (.load doc) ∉ calls) (d : Character) (bare : d.abilities = .empty) :
    let c := (make characterID name client).after scripts calls
    ∃ doc c' d' d'', save c = .ok doc c' ∧ load scripts doc d = .ok () d' ∧
      d'.characterID = c.characterID ∧ d'.name = c.name ∧ save d' = .ok doc d'' := by
  intro c
  have reloadable : c.Reloadable scripts :=
    reloadable_after total calls noLoads (reloadable_make characterID name client)
  have saved := save_of_savable (reloadable.savable total)
  have loaded : load scripts c.document d = .ok () (c.reloaded d.client) :=
    load_ok_iff.mpr ⟨_, _, _, describes_document reloadable, (withAbilities_reloaded d bare).symm⟩
  obtain ⟨savable, same⟩ := save_reloaded total reloadable d.client
  have again := save_of_savable savable
  rw [same] at again
  exact ⟨_, _, _, _, saved, loaded, rfl, rfl, again⟩

theorem total_shippedScripts : Total shippedScripts := by
  intro path script found value temp
  unfold shippedScripts at found
  repeat' split at found
  all_goals cases found
  all_goals exact ⟨_, rfl⟩

theorem load_of_save_strength :
    let c := (make 3 (str "Aldor") none).after shippedScripts [.addAbility (str "strength") 10,
      .ability (str "strength") .modifier, .ability (str "strength") (.setTemp 2)]
    ∃ doc c' d' d'', save c = .ok doc c' ∧ load shippedScripts doc (make 0 [] none) = .ok () d' ∧
      d'.characterID = c.characterID ∧ d'.name = c.name ∧ save d' = .ok doc d'' :=
  load_of_save shippedScripts total_shippedScripts 3 (str "Aldor") none _ (by simp) (make 0 [] none) rfl

end Character
end D20Tempest.Characters
