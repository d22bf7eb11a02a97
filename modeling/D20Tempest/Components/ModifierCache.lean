import D20Tempest.Components.Scripts

namespace D20Tempest.Components
open Foundation

/-! ## The cache as a memo -/

namespace Ability

def memo (a : Ability) : Memo (Int32 × Int32) Int32 where
  source := (a.abilityValue, a.tempBonus)
  cache := a.modifierCache
  stale := a.cacheInvalidated

end Ability

def Script.modifierOf (script : Script) (source : Int32 × Int32) : Except Fault Int32 :=
  script.getModifier source.1 source.2

structure AbilityDocument where
  json : Json
  value : Int32
  temp : Int32
  reads_value : (json.index (str "value") >>= Json.getInt) = .ok value
  reads_temp : (json.index (str "temp") >>= Json.getInt) = .ok temp

theorem AbilityDocument.not_discarded (doc : AbilityDocument) : doc.json.isDiscarded = false :=
  Json.isDiscarded_of_contains (Json.contains_of_read doc.reads_value)

inductive AbilityCall where
  | setValue (value : Int32)
  | setTemp (val : Int32)
  | resetTemp
  | load (doc : AbilityDocument)
  | modifier
  | save

def perform (a : Ability) : AbilityCall → Ability
  | .setValue value => finalState (Ability.setValue value a)
  | .setTemp val => finalState (Ability.setTemp val a)
  | .resetTemp => finalState (Ability.resetTemp a)
  | .load doc => finalState (Ability.load doc.json a)
  | .modifier => finalState (Ability.modifier a)
  | .save => finalState (Ability.save a)

namespace Ability

theorem modifier_apply (a : Ability) :
    modifier a = match a.memo.value a.script.modifierOf with
      | .ok m => .ok m { a with modifierCache := m, cacheInvalidated := false }
      | .error e => .error e a := by
  obtain ⟨value, temp, cache, invalidated, script⟩ := a
  cases invalidated
  · rfl
  · simp only [modifier, memo, Memo.value, bind_apply, get_apply, ↓reduceIte, Script.modifierOf, getModifier]
    cases script.getModifier value temp <;> simp

theorem save_apply (a : Ability) :
    save a = match a.memo.value a.script.modifierOf with
      | .ok m => .ok (a.document m) { a with modifierCache := m }
      | .error e => .error e a := by
  obtain ⟨value, temp, cache, invalidated, script⟩ := a
  cases invalidated
  · rfl
  · simp only [save, memo, Memo.value, bind_apply, get_apply, ↓reduceIte, Script.modifierOf, getModifier]
    cases script.getModifier value temp <;> simp

theorem setValue_apply (a : Ability) (value : Int32) :
    setValue value a = match a.script.checkValueBeforeSet with
      | none => .ok false a
      | some check => match check value with
          | .ok true => .ok true { a with abilityValue := value, cacheInvalidated := true }
          | .ok false => .ok false a
          | .error e => .error e a := by
  simp only [setValue, bind_apply, get_apply]
  cases a.script.checkValueBeforeSet with
  | none => rfl
  | some check =>
      simp only [bind_apply]
      cases check value with
      | error e => simp
      | ok passes => cases passes <;> simp [bind_apply]

theorem load_apply (a : Ability) (doc : AbilityDocument) :
    load doc.json a = .ok () { a with abilityValue := doc.value, tempBonus := doc.temp } := by
  simp [load, doc.not_discarded, doc.reads_value, doc.reads_temp]

def useOf (a : Ability) : AbilityCall → Memo.Use (Int32 × Int32)
  | .setValue value => match a.script.checkValueBeforeSet with
      | none => .skip
      | some check => match check value with
          | .ok true => .touch (value, a.tempBonus)
          | _ => .skip
  | .setTemp val => .touch (a.abilityValue, a.tempBonus + val)
  | .resetTemp => .touch (a.abilityValue, 0)
  | .load doc => .overwrite (doc.value, doc.temp)
  | .modifier => .read
  | .save => .peek

end Ability

theorem perform_script (a : Ability) (call : AbilityCall) : (perform a call).script = a.script := by
  cases call with
  | setValue value =>
      rw [perform, Ability.setValue_apply]
      split
      · rfl
      · split <;> rfl
  | setTemp val => rfl
  | resetTemp => rfl
  | load doc => rw [perform, Ability.load_apply, finalState]
  | modifier =>
      rw [perform, Ability.modifier_apply]
      split <;> rfl
  | save =>
      rw [perform, Ability.save_apply]
      split <;> rfl

theorem perform_memo (a : Ability) (call : AbilityCall) :
    (perform a call).memo = a.memo.use a.script.modifierOf (a.useOf call) := by
  cases call with
  | setValue value =>
      rw [perform, Ability.setValue_apply, Ability.useOf]
      cases a.script.checkValueBeforeSet with
      | none => rfl
      | some check =>
          simp only
          cases check value with
          | error e => rfl
          | ok passes => cases passes <;> rfl
  | setTemp val => rfl
  | resetTemp => rfl
  | load doc =>
      rw [perform, Ability.load_apply, finalState]
      rfl
  | modifier =>
      rw [perform, Ability.modifier_apply, Ability.useOf, Memo.use]
      cases read : a.memo.value a.script.modifierOf with
      | error e => rfl
      | ok m => rw [Memo.refreshed_of_ok read]; rfl
  | save =>
      rw [perform, Ability.save_apply, Ability.useOf, Memo.use]
      cases read : a.memo.value a.script.modifierOf with
      | error e => rw [Memo.refreshed_of_error read]; rfl
      | ok m => rw [Memo.refreshed_of_ok read]; rfl

/-! ## Coherence -/

def after (script : Script) (defaultValue : Int32) (calls : List AbilityCall) : Ability :=
  calls.foldl perform (Ability.make script defaultValue)

def ReadsExactly (a : Ability) : Prop :=
  returned (Ability.modifier a) = a.getModifier ∧
    (returned (Ability.save a)).map (·.find (str "modifier")) =
      a.getModifier.map fun m => some (.integer m.toInt64)

def LoadKeepsCache (a : Ability) (doc : AbilityDocument) : Prop :=
  a.cacheInvalidated = true ∨ a.script.getModifier doc.value doc.temp = .ok a.modifierCache

theorem document_modifier (a : Ability) (m : Int32) :
    (a.document m).find (str "modifier") = some (.integer m.toInt64) := rfl

theorem returned_modifier (a : Ability) :
    returned (Ability.modifier a) = a.memo.value a.script.modifierOf := by
  rw [Ability.modifier_apply]
  cases a.memo.value a.script.modifierOf <;> rfl

theorem returned_save (a : Ability) :
    returned (Ability.save a) = (a.memo.value a.script.modifierOf).map a.document := by
  rw [Ability.save_apply]
  cases a.memo.value a.script.modifierOf <;> rfl

theorem readsExactly_iff (a : Ability) : ReadsExactly a ↔ a.memo.Coherent a.script.modifierOf := by
  rw [← Memo.value_eq_iff, ReadsExactly, returned_modifier, returned_save]
  show _ ↔ a.memo.value a.script.modifierOf = a.getModifier
  refine ⟨And.left, fun exact => ⟨exact, ?_⟩⟩
  rw [exact]
  cases a.getModifier <;> simp [Except.map, document_modifier]

theorem useOf_eq_overwrite {a : Ability} {call : AbilityCall} {s : Int32 × Int32}
    (h : a.useOf call = .overwrite s) : ∃ doc, call = .load doc ∧ s = (doc.value, doc.temp) := by
  cases call with
  | load doc =>
      cases h
      exact ⟨doc, rfl, rfl⟩
  | setValue value =>
      simp only [Ability.useOf] at h
      split at h
      · cases h
      · split at h <;> cases h
  | _ => cases h

theorem coherent_perform {a : Ability} {call : AbilityCall} (noLoad : ∀ doc, call ≠ .load doc)
    (coherent : a.memo.Coherent a.script.modifierOf) :
    (perform a call).memo.Coherent (perform a call).script.modifierOf := by
  rw [perform_script, perform_memo]
  cases used : a.useOf call with
  | skip => exact coherent
  | read => exact Memo.coherent_read coherent
  | peek => exact Memo.coherent_peek coherent
  | touch s => exact Memo.coherent_touch _ s
  | overwrite s =>
      obtain ⟨doc, rfl, -⟩ := useOf_eq_overwrite used
      exact absurd rfl (noLoad doc)

/-- Every read of an ability, at any point of any sequence of operations, is exact as long as each
`Load` finds the cache marked or brings a value and bonus of the modifier the cache holds; the first
one that does not is followed by a state in which a read is wrong. -/
theorem reads_exactly_iff_loads_keep_cache (script : Script) (defaultValue : Int32)
    (calls : List AbilityCall) :
    (∀ done rest, calls = done ++ rest → ReadsExactly (after script defaultValue done)) ↔
      ∀ done doc rest, calls = done ++ .load doc :: rest →
        LoadKeepsCache (after script defaultValue done) doc := by
  have along := Memo.coherent_along_iff perform Ability.memo (fun a => a.script.modifierOf)
    Ability.useOf (fun a call => by rw [perform_script]) perform_memo
    (Ability.make script defaultValue) (fun fresh => by cases fresh) calls
  simp only [← readsExactly_iff] at along
  refine along.trans ⟨fun met done doc rest split => ?_, fun met done call rest split s used => ?_⟩
  · exact met done (.load doc) rest split (doc.value, doc.temp) rfl
  · obtain ⟨doc, rfl, rfl⟩ := useOf_eq_overwrite used
    exact met done doc rest split

def valueDocument (value : Int32) : AbilityDocument where
  json := Json.ofFields [(str "value", .integer value.toInt64), (str "temp", .integer 0)]
  value := value
  temp := 0
  reads_value := by
    show Except.ok value.toInt64.toInt32 = _
    rw [Int32.toInt32_toInt64]
  reads_temp := rfl

/-- Strength 10 is read, then 20 is loaded: the modifier stays at 0. -/
theorem load_leaves_modifier_stale :
    ¬ ReadsExactly (after strength 10 [.modifier, .load (valueDocument 20)]) := by
  rintro ⟨wrong, -⟩
  revert wrong
  decide

end D20Tempest.Components
