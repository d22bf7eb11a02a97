import D20Tempest.Characters.PartialLoads

namespace D20Tempest.Characters
open Foundation Components

/-! ## What a load leaves of the state before -/

def described (scripts : ScriptStore) (root : Json) (key : Bytes) : Option Ability :=
  ((reading scripts root).abilities.find? (·.1 = key)).map Prod.snd

structure SavedAlike (a b : Ability) : Prop where
  abilityValue : a.abilityValue = b.abilityValue
  tempBonus : a.tempBonus = b.tempBonus
  name : a.script.name = b.script.name
  shortName : a.script.shortName = b.script.shortName
  modifier : ∃ m, modifierRead a = .ok m ∧ modifierRead b = .ok m

-- `insert` keeps what was there, so it has to be what the document describes
def Untraced (fresh : Option Ability) : Option Ability → Option Ability → Prop
  | none, none => True
  | some a, some b => SavedAlike a b
  | some a, none => ∃ b, fresh = some b ∧ SavedAlike a b
  | none, some b => ∃ a, fresh = some a ∧ SavedAlike a b

def LeavesNoTrace (scripts : ScriptStore) (root : Json) (c d : Character) : Prop :=
  ∀ key, Untraced (described scripts root key) (c.abilities.find key) (d.abilities.find key)

/-- Some ability that the character has or gets from the document cannot be saved. -/
def Spoiled (scripts : ScriptStore) (root : Json) (c : Character) : Prop :=
  ∃ key a, (c.abilities.find key).or (described scripts root key) = some a ∧ ∀ m, modifierRead a ≠ .ok m

section Alike
variable {a b : Ability}

theorem document_inj {m n : Int32} (same : a.document m = b.document n) :
    a.abilityValue = b.abilityValue ∧ a.tempBonus = b.tempBonus ∧ a.script.name = b.script.name ∧
      a.script.shortName = b.script.shortName ∧ m = n := by
  have value := congrArg (Json.find (str "value")) same
  have temp := congrArg (Json.find (str "temp")) same
  have name := congrArg (Json.find (str "name")) same
  have shortName := congrArg (Json.find (str "short_name")) same
  have modifier := congrArg (Json.find (str "modifier")) same
  have widened : Function.Injective Int32.toInt64 := Function.LeftInverse.injective Int32.toInt32_toInt64
  exact ⟨widened (Json.integer.inj (Option.some.inj value)), widened (Json.integer.inj (Option.some.inj temp)),
    Json.string.inj (Option.some.inj name), Json.string.inj (Option.some.inj shortName),
    widened (Json.integer.inj (Option.some.inj modifier))⟩

theorem savedModifier_of_read {m : Int32} (read : modifierRead a = .ok m) : savedModifier a = m := by
  rw [savedModifier, read]

theorem savedAlike_iff : SavedAlike a b ↔ (∃ m, modifierRead a = .ok m) ∧ (∃ m, modifierRead b = .ok m) ∧
    a.document (savedModifier a) = b.document (savedModifier b) := by
  constructor
  · intro alike
    obtain ⟨m, readA, readB⟩ := alike.modifier
    refine ⟨⟨m, readA⟩, ⟨m, readB⟩, ?_⟩
    rw [savedModifier_of_read readA, savedModifier_of_read readB, Ability.document, Ability.document,
      alike.abilityValue, alike.tempBonus, alike.name, alike.shortName]
  · intro alike
    obtain ⟨⟨m, readA⟩, ⟨n, readB⟩, same⟩ := alike
    rw [savedModifier_of_read readA, savedModifier_of_read readB] at same
    obtain ⟨value, temp, name, shortName, rfl⟩ := document_inj same
    exact ⟨value, temp, name, shortName, m, readA, readB⟩

theorem untraced_iff {fresh x y : Option Ability}
    (readX : ∀ a, x.or fresh = some a → ∃ m, modifierRead a = .ok m)
    (readY : ∀ b, y.or fresh = some b → ∃ m, modifierRead b = .ok m) :
    Untraced fresh x y ↔ (x.or fresh).map (fun a => a.document (savedModifier a)) =
      (y.or fresh).map fun b => b.document (savedModifier b) := by
  cases x with
  | none =>
      cases y with
      | none => simp [Untraced]
      | some b =>
          cases fresh with
          | none => simp [Untraced]
          | some a => simp [Untraced, savedAlike_iff, readX a rfl, readY b rfl]
  | some a =>
      cases y with
      | none =>
          cases fresh with
          | none => simp [Untraced]
          | some b => simp [Untraced, savedAlike_iff, readX a rfl, readY b rfl]
      | some b => simp [Untraced, savedAlike_iff, readX a rfl, readY b rfl]

theorem Untraced.readable {fresh x y : Option Ability} (clean : Untraced fresh x y) :
    (∀ a, x.or fresh = some a → ∃ m, modifierRead a = .ok m) ↔
      ∀ b, y.or fresh = some b → ∃ m, modifierRead b = .ok m := by
  have both : ∀ {a b}, SavedAlike a b → ((∃ m, modifierRead a = .ok m) ↔ ∃ m, modifierRead b = .ok m) := by
    intro a b alike
    obtain ⟨m, readA, readB⟩ := alike.modifier
    exact iff_of_true ⟨m, readA⟩ ⟨m, readB⟩
  cases x with
  | none =>
      cases y with
      | none => exact Iff.rfl
      | some b =>
          obtain ⟨a, rfl, alike⟩ := clean
          simpa using both alike
  | some a =>
      cases y with
      | none =>
          obtain ⟨b, rfl, alike⟩ := clean
          simpa using both alike
      | some b => simpa using both clean

end Alike

namespace Character
variable {scripts : ScriptStore} {root : Json} {c d c' d' : Character}

theorem find_document (c : Character) (key : Bytes) :
    Assoc.find key (c.abilities.entries.map fun e => (e.1, e.2.document (savedModifier e.2))) =
      (c.abilities.find key).map fun a => a.document (savedModifier a) := by
  rw [← OrderedMap.map_entries c.abilities fun _ a => a.document (savedModifier a)]
  exact OrderedMap.find_map _ _ _

theorem document_eq_iff : c.document = d.document ↔ c.characterID = d.characterID ∧ c.name = d.name ∧
    ∀ key, (c.abilities.find key).map (fun a => a.document (savedModifier a)) =
      (d.abilities.find key).map fun a => a.document (savedModifier a) := by
  constructor
  · intro same
    obtain ⟨id, name, abilities⟩ := documentOf_inj same
    refine ⟨id, name, fun key => ?_⟩
    rw [← find_document, ← find_document, abilities]
  · intro same
    obtain ⟨id, name, abilities⟩ := same
    have equal : c.abilities.map (fun _ a => a.document (savedModifier a)) =
        d.abilities.map fun _ a => a.document (savedModifier a) := by
      apply OrderedMap.ext_find
      intro key
      rw [OrderedMap.find_map, OrderedMap.find_map, abilities key]
    have entries := congrArg OrderedMap.entries equal
    rw [OrderedMap.map_entries, OrderedMap.map_entries] at entries
    rw [document, document, id, name, entries]

theorem loaded (run : load scripts root c = .ok () c') :
    (reading scripts root).characterID = some c'.characterID ∧ (reading scripts root).name = some c'.name ∧
      ∀ key, c'.abilities.find key = (c.abilities.find key).or (described scripts root key) := by
  have final := load_finalState scripts root c
  rw [run, finalState_ok] at final
  obtain ⟨characterID, name, abilities, describes, -⟩ := load_ok_iff.mp run
  obtain ⟨j, held, -⟩ := describes.reads_abilities
  have parts : (reading scripts root).characterID = some characterID ∧ (reading scripts root).name = some name := by
    rw [reading, describes.reads_id, describes.reads_name, held]
    exact ⟨rfl, rfl⟩
  refine ⟨?_, ?_, fun key => ?_⟩
  · rw [final, taking, withAbilities, parts.1]
    rfl
  · rw [final, taking, withAbilities, parts.2]
    rfl
  · rw [final, find_taking, described]

theorem load_again (run : load scripts root c = .ok () c') : load scripts root c' = .ok () c' := by
  obtain ⟨id, name, held⟩ := loaded run
  obtain ⟨d, again⟩ := (loadable_iff c').mp ((loadable_iff c).mpr ⟨c', run⟩)
  have final := load_finalState scripts root c'
  have has : Has c' (reading scripts root) := by
    refine ⟨?_, ?_, ?_⟩
    · intro characterID read
      exact Option.some.inj (read.symm.trans id)
    · intro n read
      exact Option.some.inj (read.symm.trans name)
    · intro key mem
      obtain ⟨e, read, rfl⟩ := List.mem_map.mp mem
      rw [held, described, Option.isSome_or, Bool.or_eq_true, Option.isSome_map, List.find?_isSome]
      exact .inr ⟨e, read, decide_eq_true rfl⟩
  rw [again, finalState_ok, taking_of_has has] at final
  rw [again, final]

theorem spoiled_iff (run : load scripts root c = .ok () c') : Spoiled scripts root c ↔ ¬ c'.Savable := by
  simp only [Spoiled, Savable, (loaded run).2.2, not_forall, not_exists, exists_prop]

theorem leavesNoTrace_iff (runC : load scripts root c = .ok () c') (runD : load scripts root d = .ok () d')
    (ableC : c'.Savable) (ableD : d'.Savable) : LeavesNoTrace scripts root c d ↔ c'.document = d'.document := by
  obtain ⟨idC, nameC, heldC⟩ := loaded runC
  obtain ⟨idD, nameD, heldD⟩ := loaded runD
  have id := Option.some.inj (idC.symm.trans idD)
  have name := Option.some.inj (nameC.symm.trans nameD)
  rw [document_eq_iff, LeavesNoTrace]
  simp only [id, name, true_and]
  refine forall_congr' fun key => ?_
  rw [heldC, heldD]
  exact untraced_iff (fun a => heldC key ▸ ableC key a) fun b => heldD key ▸ ableD key b

theorem savable_congr (clean : LeavesNoTrace scripts root c d) (runC : load scripts root c = .ok () c')
    (runD : load scripts root d = .ok () d') : c'.Savable ↔ d'.Savable := by
  simp only [Savable, (loaded runC).2.2, (loaded runD).2.2]
  exact forall_congr' fun key => (clean key).readable

end Character

/-- Two characters that have loaded one document are saved alike exactly when what they had before leaves no
trace, or when neither can be saved. -/
theorem load_replaces_iff {scripts : ScriptStore} {root : Json} {c d c' d' : Character}
    (runC : Character.load scripts root c = .ok () c') (runD : Character.load scripts root d = .ok () d') :
    (∀ doc, c'.Saves doc ↔ d'.Saves doc) ↔
      (Spoiled scripts root c ∧ Spoiled scripts root d) ∨ LeavesNoTrace scripts root c d := by
  have same : (∀ doc, c'.Saves doc ↔ d'.Saves doc) ↔
      (¬ c'.Savable ∧ ¬ d'.Savable) ∨ (c'.Savable ∧ d'.Savable ∧ c'.document = d'.document) := by
    simp only [Character.saves_iff]
    constructor
    · intro alike
      by_cases ableC : c'.Savable
      · obtain ⟨ableD, eq⟩ := (alike c'.document).mp ⟨ableC, rfl⟩
        exact .inr ⟨ableC, ableD, eq⟩
      · exact .inl ⟨ableC, fun ableD => ableC ((alike d'.document).mpr ⟨ableD, rfl⟩).1⟩
    · intro cases doc
      rcases cases with ⟨notC, notD⟩ | ⟨ableC, ableD, eq⟩
      · exact iff_of_false (fun saves => notC saves.1) fun saves => notD saves.1
      · simp only [ableC, ableD, eq, true_and]
  rw [same, Character.spoiled_iff runC, Character.spoiled_iff runD]
  constructor
  · intro cases
    rcases cases with neither | ⟨ableC, ableD, eq⟩
    · exact .inl neither
    · exact .inr ((Character.leavesNoTrace_iff runC runD ableC ableD).mpr eq)
  · intro cases
    rcases cases with neither | clean
    · exact .inl neither
    · by_cases ableC : c'.Savable
      · have ableD := (Character.savable_congr clean runC runD).mp ableC
        exact .inr ⟨ableC, ableD, (Character.leavesNoTrace_iff runC runD ableC ableD).mp clean⟩
      · exact .inl ⟨ableC, fun ableD => ableC ((Character.savable_congr clean runC runD).mpr ableD)⟩

def withStrength : Character :=
  finalState (Character.addAbility shippedScripts (str "strength") 10 (.make 0 (str "Aldor") none))

def strongerDocument : Json :=
  Character.documentOf 0 (str "Aldor") [(str "strength", (Ability.make strength 12).document 1)]

theorem load_replaces_bare : (∀ doc, Character.Saves (finalState (Character.load shippedScripts strongerDocument (.make 3 [] none))) doc ↔
      Character.Saves (finalState (Character.load shippedScripts strongerDocument (.make 4 [] none))) doc) ↔
    (Spoiled shippedScripts strongerDocument (.make 3 [] none) ∧ Spoiled shippedScripts strongerDocument (.make 4 [] none)) ∨
      LeavesNoTrace shippedScripts strongerDocument (.make 3 [] none) (.make 4 [] none) :=
  load_replaces_iff rfl rfl

/-- The strength of 10 is not replaced by the document's 12. -/
theorem load_keeps_strength : ¬ ∀ scripts root c d c' d', Character.load scripts root c = .ok () c' →
    Character.load scripts root d = .ok () d' → ∀ doc, c'.Saves doc ↔ d'.Saves doc := by
  intro replaces
  have alike := replaces shippedScripts strongerDocument withStrength (.make 0 [] none) _ _ rfl rfl
  obtain ⟨left, saved⟩ := (alike _).mp ⟨_, rfl⟩
  have held := congrArg (fun doc => ((doc.find (str "abilities")).bind (·.find (str "strength"))).bind
    (·.find (str "value"))) (Except.ok.inj (congrArg returned saved))
  exact absurd (Json.integer.inj (Option.some.inj held)) (by decide)

end D20Tempest.Characters
