import D20Tempest.Characters.Character

namespace D20Tempest.Characters
open Foundation Components

/-! ## What a character is saved as -/

def modifierRead (a : Ability) : Except Fault Int32 := a.memo.value a.script.modifierOf

def savedModifier (a : Ability) : Int32 := match modifierRead a with
  | .ok m => m
  | .error _ => a.modifierCache

theorem ability_save_of_read {a : Ability} {m : Int32} (read : modifierRead a = .ok m) :
    Ability.save a = .ok (a.document (savedModifier a)) { a with modifierCache := savedModifier a } := by
  rw [Ability.save_apply, savedModifier, read]
  simp only [modifierRead] at read
  rw [read]

theorem ability_save_ok {a a' : Ability} {doc : Json} (saved : Ability.save a = .ok doc a') :
    ∃ m, modifierRead a = .ok m := by
  rw [Ability.save_apply] at saved
  rw [modifierRead]
  cases read : a.memo.value a.script.modifierOf with
  | ok m => exact ⟨m, rfl⟩
  | error e => simp [read] at saved

namespace Character

def Savable (c : Character) : Prop := ∀ key a, c.abilities.find key = some a → ∃ m, modifierRead a = .ok m

def document (c : Character) : Json :=
  documentOf c.characterID c.name (c.abilities.entries.map fun e => (e.1, e.2.document (savedModifier e.2)))

def refreshed (c : Character) : Character :=
  { c with abilities := c.abilities.map fun _ a => { a with modifierCache := savedModifier a } }

theorem save_of_savable {c : Character} (savable : c.Savable) : save c = .ok c.document c.refreshed := by
  have visited := OrderedMap.visit_of_forall (f := Ability.save) (m := c.abilities)
    (g := fun a => a.document (savedModifier a)) (h := fun a => { a with modifierCache := savedModifier a })
    fun key a found => by
      obtain ⟨m, read⟩ := savable key a found
      exact ability_save_of_read read
  simp only [save, visited]
  rfl

theorem savable_of_save {c c' : Character} {doc : Json} (saved : save c = .ok doc c') : c.Savable := by
  intro key a found
  cases visited : c.abilities.visit Ability.save with
  | error e left => simp [save, visited] at saved
  | ok bs left =>
      obtain ⟨b, a', run⟩ := OrderedMap.forall_of_visit visited found
      exact ability_save_ok run

theorem save_ok_iff {c c' : Character} {doc : Json} :
    save c = .ok doc c' ↔ c.Savable ∧ doc = c.document ∧ c' = c.refreshed := by
  constructor
  · intro saved
    have savable := savable_of_save saved
    rw [save_of_savable savable, EStateM.Result.ok.injEq] at saved
    exact ⟨savable, saved.1.symm, saved.2.symm⟩
  · intro saved
    obtain ⟨savable, rfl, rfl⟩ := saved
    exact save_of_savable savable

@[simp] theorem refreshed_characterID (c : Character) : c.refreshed.characterID = c.characterID := rfl
@[simp] theorem refreshed_name (c : Character) : c.refreshed.name = c.name := rfl

theorem modifierRead_refreshed {a : Ability} {m : Int32} (read : modifierRead a = .ok m) :
    modifierRead { a with modifierCache := savedModifier a } = .ok m := by
  have kept : savedModifier a = m := by rw [savedModifier, read]
  rw [kept]
  cases stale : a.cacheInvalidated with
  | true => simpa [modifierRead, Ability.memo, Memo.value, stale, Script.modifierOf] using read
  | false => simp [modifierRead, Ability.memo, Memo.value]

theorem savedModifier_refreshed {a : Ability} {m : Int32} (read : modifierRead a = .ok m) :
    savedModifier { a with modifierCache := savedModifier a } = savedModifier a := by
  have again := modifierRead_refreshed read
  rw [savedModifier, again, savedModifier, read]

theorem save_refreshed {c : Character} (savable : c.Savable) :
    c.refreshed.Savable ∧ c.refreshed.document = c.document ∧ c.refreshed.refreshed = c.refreshed := by
  have kept : ∀ e ∈ c.abilities.entries,
      savedModifier { e.2 with modifierCache := savedModifier e.2 } = savedModifier e.2 := by
    intro e mem
    obtain ⟨m, read⟩ := savable e.1 e.2 (OrderedMap.mem_entries.mp mem)
    exact savedModifier_refreshed read
  refine ⟨?_, ?_, ?_⟩
  · intro key a found
    rw [refreshed, OrderedMap.find_map, Option.map_eq_some_iff] at found
    obtain ⟨b, held, rfl⟩ := found
    obtain ⟨m, read⟩ := savable key b held
    exact ⟨m, modifierRead_refreshed read⟩
  · rw [document, document, refreshed_characterID, refreshed_name, refreshed, OrderedMap.map_entries,
      List.map_map]
    congr 1
    apply List.map_congr_left
    intro e mem
    simp only [Function.comp_apply, kept e mem]
    rfl
  · simp only [refreshed, Character.mk.injEq, true_and]
    apply OrderedMap.ext
    rw [OrderedMap.map_entries, OrderedMap.map_entries, List.map_map]
    apply List.map_congr_left
    intro e mem
    simp only [Function.comp_apply, kept e mem]

end Character

/-! ## What a document describes -/

namespace Ability

theorem load_ok_iff {j : Json} {a a' : Ability} :
    Components.Ability.load j a = .ok () a' ↔
      ∃ doc : AbilityDocument, doc.json = j ∧ a' = { a with abilityValue := doc.value, tempBonus := doc.temp } := by
  constructor
  · intro loaded
    simp only [Components.Ability.load] at loaded
    split at loaded
    · simp [bind_apply] at loaded
    · cases value : (j.index (str "value") >>= Json.getInt) with
      | error e => simp [bind_apply, value] at loaded
      | ok v =>
          cases temp : (j.index (str "temp") >>= Json.getInt) with
          | error e => simp [bind_apply, value, temp] at loaded
          | ok t =>
              simp [bind_apply, value, temp] at loaded
              exact ⟨⟨j, v, t, value, temp⟩, rfl, loaded.symm⟩
  · intro described
    obtain ⟨doc, rfl, rfl⟩ := described
    exact Components.Ability.load_apply a doc

end Ability

theorem loadedAbility_ok_iff {scripts : ScriptStore} {entry : Bytes × Json} {a : Ability} :
    Character.loadedAbility scripts entry = .ok a ↔
      ∃ script, scripts (scriptPath entry.1) = some script ∧
        ∃ doc : AbilityDocument, doc.json = entry.2 ∧
          a = { Components.Ability.make script doc.value with tempBonus := doc.temp } := by
  unfold Character.loadedAbility
  cases scripts (scriptPath entry.1) with
  | none => simp
  | some script =>
      simp only [Option.some.injEq, exists_eq_left']
      cases loaded : Components.Ability.load entry.2 (Components.Ability.make script 0) with
      | ok u b =>
          obtain ⟨doc, eq, rfl⟩ := Ability.load_ok_iff.mp loaded
          simp only [Except.ok.injEq]
          constructor
          · rintro rfl
            exact ⟨doc, eq, rfl⟩
          · intro described
            obtain ⟨doc', eq', rfl⟩ := described
            have again := Components.Ability.load_apply (Components.Ability.make script 0) doc'
            rw [eq', loaded, EStateM.Result.ok.injEq] at again
            exact again.2
      | error e b =>
          simp only [reduceCtorEq, false_iff]
          intro described
          obtain ⟨doc, eq, rfl⟩ := described
          have := Components.Ability.load_apply (Components.Ability.make script 0) doc
          simp [eq, loaded] at this

def loadedAbilities (scripts : ScriptStore) : List (Bytes × Json) → Except Fault (List (Bytes × Ability))
  | [] => .ok []
  | entry :: rest => match Character.loadedAbility scripts entry with
      | .error e => .error e
      | .ok a => match loadedAbilities scripts rest with
          | .error e => .error e
          | .ok others => .ok ((entry.1, a) :: others)

/-- The document holds everything `Character::Load` reads, and describes this character. -/
structure Describes (scripts : ScriptStore) (root : Json) (characterID : UInt64) (name : Bytes)
    (abilities : List (Bytes × Ability)) : Prop where
  reads_id : (root.index (str "id") >>= Json.getUInt64) = .ok characterID
  reads_name : (root.index (str "name") >>= Json.getString) = .ok name
  reads_abilities : ∃ j, root.index (str "abilities") = .ok j ∧ loadedAbilities scripts j.items = .ok abilities

def Loadable (scripts : ScriptStore) (root : Json) : Prop :=
  ∃ characterID name abilities, Describes scripts root characterID name abilities

namespace Character

def withAbilities (c : Character) (abilities : List (Bytes × Ability)) : Character :=
  { c with abilities := abilities.foldl (fun m e => m.insert e.1 e.2) c.abilities }

theorem loadAbilities_ok_iff (scripts : ScriptStore) (entries : List (Bytes × Json)) (c c' : Character) :
    loadAbilities scripts entries c = .ok () c' ↔
      ∃ abilities, loadedAbilities scripts entries = .ok abilities ∧ c' = c.withAbilities abilities := by
  induction entries generalizing c with
  | nil => simp [loadAbilities, loadedAbilities, withAbilities, eq_comm]
  | cons entry rest ih =>
      rw [loadAbilities]
      cases loaded : loadedAbility scripts entry with
      | error e => simp [loadedAbilities, loaded, bind_apply]
      | ok a =>
          have later := ih { c with abilities := c.abilities.insert entry.1 a }
          simp only [evaluate_ok, bind_apply, pure_apply, modify_apply, loadedAbilities, loaded]
          rw [later]
          cases loadedAbilities scripts rest <;> simp [withAbilities]

/-- `Character::Load` returns exactly where the document describes a character, and then it keeps
the abilities that were there. -/
theorem load_ok_iff {scripts : ScriptStore} {root : Json} {c c' : Character} :
    load scripts root c = .ok () c' ↔
      ∃ characterID name abilities, Describes scripts root characterID name abilities ∧
        c' = withAbilities { c with characterID := characterID, name := name } abilities := by
  constructor
  · intro loaded
    simp only [load] at loaded
    split at loaded
    · simp [bind_apply] at loaded
    · cases id : (root.index (str "id") >>= Json.getUInt64) with
      | error e => simp [bind_apply, id] at loaded
      | ok characterID =>
          cases name : (root.index (str "name") >>= Json.getString) with
          | error e => simp [bind_apply, id, name] at loaded
          | ok n =>
              cases held : root.index (str "abilities") with
              | error e => simp [bind_apply, id, name, held] at loaded
              | ok j =>
                  simp only [pure_bind, bind_apply, id, name, held, evaluate_ok, modify_apply,
                    pure_apply, loadAbilities_ok_iff] at loaded
                  obtain ⟨abilities, read, rfl⟩ := loaded
                  exact ⟨characterID, n, abilities, ⟨id, name, j, held, read⟩, rfl⟩
  · intro described
    obtain ⟨characterID, name, abilities, ⟨id, nameRead, j, held, read⟩, rfl⟩ := described
    have identified : root.contains (str "id") = true := Json.contains_of_read id
    have present : root.isDiscarded = false := Json.isDiscarded_of_contains identified
    simp only [load, identified, present, Bool.false_and, Bool.not_true, Bool.or_self,
      Bool.false_eq_true, ↓reduceIte, pure_bind, bind_apply, id, nameRead, held, evaluate_ok,
      modify_apply, loadAbilities_ok_iff]
    exact ⟨abilities, read, rfl⟩

theorem loadable_iff {scripts : ScriptStore} {root : Json} (c : Character) :
    Loadable scripts root ↔ ∃ c', load scripts root c = .ok () c' := by
  simp only [load_ok_iff]
  constructor
  · intro described
    obtain ⟨characterID, name, abilities, describes⟩ := described
    exact ⟨_, characterID, name, abilities, describes, rfl⟩
  · intro loaded
    obtain ⟨c', characterID, name, abilities, describes, -⟩ := loaded
    exact ⟨characterID, name, abilities, describes⟩

end Character
end D20Tempest.Characters
