import D20Tempest.Characters.ValueChecks
import D20Tempest.Foundation.Unobserved

namespace D20Tempest.Components
open Foundation

/-! ## An ability but for what a recomputation hides -/

/-- While the cache is marked, what it holds is never looked at. -/
def Ability.visible (a : Ability) : Ability := if a.cacheInvalidated then { a with modifierCache := 0 } else a

inductive Answer where
  | nothing
  | accepted (b : Bool)
  | modifier (m : Int32)
  | document (doc : Json)

def answer : AbilityUse → Action Ability Answer
  | .value value => .accepted <$> Ability.setValue value
  | .temp val => (fun _ => .nothing) <$> Ability.setTemp val
  | .resetTemp => (fun _ => .nothing) <$> Ability.resetTemp
  | .load root => (fun _ => .nothing) <$> Ability.load root
  | .modifier => .modifier <$> Ability.modifier
  | .save => .document <$> Ability.save

namespace Ability
variable {a b : Ability} {α : Type}

theorem visible_eq_iff : a.visible = b.visible ↔
    b = a ∨ (a.cacheInvalidated = true ∧ ∃ m, b = { a with modifierCache := m }) := by
  obtain ⟨value, temp, cache, stale, script⟩ := a
  obtain ⟨value', temp', cache', stale', script'⟩ := b
  cases stale <;> cases stale' <;> simp only [visible] <;> grind

theorem visible_cache (stale : a.cacheInvalidated = true) (m : Int32) :
    a.visible = Ability.visible { a with modifierCache := m } := visible_eq_iff.mpr (.inr ⟨stale, m, rfl⟩)

theorem value_of_stale (stale : a.cacheInvalidated = true) : a.memo.value a.script.modifierOf = a.getModifier := by
  have marked : a.memo.stale = true := stale
  rw [Memo.value, if_pos marked]
  rfl

/-- It is enough to change the cache of a marked ability. -/
theorem respects_visible {x : Action Ability α} (hidden : ∀ a m, a.cacheInvalidated = true →
    returned (x a) = returned (x { a with modifierCache := m }) ∧
      (finalState (x a)).visible = (finalState (x { a with modifierCache := m })).visible) : Respects visible x := by
  intro a b same
  rcases visible_eq_iff.mp same with rfl | ⟨stale, m, rfl⟩
  · exact ⟨rfl, rfl⟩
  · exact hidden a m stale

theorem respects_modifier : Respects visible modifier := by
  apply respects_visible
  intro a m stale
  have same : Ability.getModifier { a with modifierCache := m } = a.getModifier := rfl
  rw [modifier_apply, modifier_apply, value_of_stale stale, value_of_stale (a := { a with modifierCache := m }) stale,
    same]
  cases a.getModifier with
  | ok n => exact ⟨rfl, rfl⟩
  | error e => exact ⟨rfl, visible_cache stale m⟩

theorem respects_save : Respects visible save := by
  apply respects_visible
  intro a m stale
  have same : Ability.getModifier { a with modifierCache := m } = a.getModifier := rfl
  rw [save_apply, save_apply, value_of_stale stale, value_of_stale (a := { a with modifierCache := m }) stale, same]
  cases a.getModifier with
  | ok n => exact ⟨rfl, rfl⟩
  | error e => exact ⟨rfl, visible_cache stale m⟩

theorem respects_setValue (value : Int32) : Respects visible (setValue value) := by
  apply respects_visible
  intro a m stale
  have unchanged := visible_cache stale m
  rw [setValue_apply, setValue_apply]
  cases checks : a.script.checkValueBeforeSet with
  | none => exact ⟨rfl, unchanged⟩
  | some check =>
      cases accepted : check value with
      | error e =>
          simp only [accepted]
          exact ⟨rfl, unchanged⟩
      | ok yes =>
          cases yes with
          | true =>
              simp only [accepted]
              exact ⟨rfl, rfl⟩
          | false =>
              simp only [accepted]
              exact ⟨rfl, unchanged⟩

theorem respects_modify {f : Ability → Ability} (hidden : ∀ a m, a.cacheInvalidated = true →
    (f a).visible = (f { a with modifierCache := m }).visible) : Respects visible (modify f) := by
  apply respects_visible
  intro a m stale
  exact ⟨rfl, hidden a m stale⟩

theorem respects_setTemp (val : Int32) : Respects visible (setTemp val) := respects_modify fun _ _ _ => rfl

theorem respects_resetTemp : Respects visible resetTemp := respects_modify fun _ _ _ => rfl

theorem respects_load (root : Json) : Respects visible (load root) := by
  have value : ∀ v, Respects visible (modify fun a : Ability => { a with abilityValue := v }) := fun v =>
    respects_modify fun a m stale => visible_cache (a := { a with abilityValue := v }) stale m
  have temp : ∀ t, Respects visible (modify fun a : Ability => { a with tempBonus := t }) := fun t =>
    respects_modify fun a m stale => visible_cache (a := { a with tempBonus := t }) stale m
  have read : Respects visible (do
      let v ← evaluate (root.index (str "value") >>= Json.getInt)
      modify fun a : Ability => { a with abilityValue := v }
      let t ← evaluate (root.index (str "temp") >>= Json.getInt)
      modify fun a : Ability => { a with tempBonus := t }) :=
    (Respects.evaluate _).bind fun v => (value v).bind fun _ => (Respects.evaluate _).bind temp
  unfold load
  split
  · exact (Respects.throw _).bind fun _ => read
  · exact read

theorem respects_answer (use : AbilityUse) : Respects visible (answer use) := by
  cases use with
  | value value => exact (respects_setValue value).map _
  | temp val => exact (respects_setTemp val).map _
  | resetTemp => exact respects_resetTemp.map _
  | load root => exact (respects_load root).map _
  | modifier => exact respects_modifier.map _
  | save => exact respects_save.map _

/-- Where `Save` writes the cache, the cache stays marked. -/
theorem silent_save : Silent visible save := by
  intro a
  rw [save_apply]
  by_cases stale : a.cacheInvalidated = true
  · rw [value_of_stale stale]
    cases a.getModifier with
    | ok m => exact (visible_cache stale m).symm
    | error e => rfl
  · have read : a.memo.value a.script.modifierOf = .ok a.modifierCache := if_neg stale
    rw [read]
    rfl

end Ability
end D20Tempest.Components

namespace D20Tempest.Characters
open Foundation Components

namespace Character

def visible (c : Character) : Character := { c with abilities := mapView Ability.visible c.abilities }

/-- A call on the ability of that name, which is not made where the character has none. -/
def onAbility {α : Type} (scriptName : Bytes) (x : Action Ability α) : Action Character (Option α) := fun c =>
  match c.abilities.find scriptName with
  | none => .ok none c
  | some a => match x a with
      | .ok result a' => .ok (some result) { c with abilities := c.abilities.assign scriptName a' }
      | .error e a' => .error e { c with abilities := c.abilities.assign scriptName a' }

section Views
variable {c d : Character} {α : Type}

theorem visible_eq_iff : c.visible = d.visible ↔ c.characterID = d.characterID ∧ c.name = d.name ∧
    c.client = d.client ∧ mapView Ability.visible c.abilities = mapView Ability.visible d.abilities := by
  obtain ⟨characterID, name, client, abilities⟩ := c
  obtain ⟨characterID', name', client', abilities'⟩ := d
  simp only [visible, Character.mk.injEq]

theorem respects_save : Respects visible save := by
  intro c d same
  obtain ⟨id, name, client, abilities⟩ := visible_eq_iff.mp same
  obtain ⟨result, left⟩ := respects_visit Ability.respects_save c.abilities d.abilities abilities
  rw [save, save]
  rcases same_outcome result with ⟨docs, runC, runD⟩ | ⟨e, runC, runD⟩
  · rw [runC, runD]
    refine ⟨?_, visible_eq_iff.mpr ⟨id, name, client, left⟩⟩
    show Except.ok (documentOf c.characterID c.name docs) = .ok (documentOf d.characterID d.name docs)
    rw [id, name]
  · rw [runC, runD]
    exact ⟨rfl, visible_eq_iff.mpr ⟨id, name, client, left⟩⟩

theorem silent_save : Silent visible save := by
  intro c
  have left := silent_visit Ability.silent_save c.abilities
  rw [save]
  cases run : c.abilities.visit Ability.save with
  | ok docs abilities =>
      rw [run] at left
      exact visible_eq_iff.mpr ⟨rfl, rfl, rfl, left⟩
  | error e abilities =>
      rw [run] at left
      exact visible_eq_iff.mpr ⟨rfl, rfl, rfl, left⟩

theorem visible_assign (scriptName : Bytes) (a : Ability) :
    visible { c with abilities := c.abilities.assign scriptName a } =
      { c.visible with abilities := c.visible.abilities.assign scriptName a.visible } := by
  rw [visible, mapView_assign]
  rfl

theorem respects_onAbility (scriptName : Bytes) {x : Action Ability α} (respects : Respects Ability.visible x) :
    Respects visible (onAbility scriptName x) := by
  intro c d same
  have abilities := (visible_eq_iff.mp same).2.2.2
  have found := congrArg (·.find scriptName) abilities
  simp only [find_mapView] at found
  rw [onAbility, onAbility]
  cases heldC : c.abilities.find scriptName with
  | none =>
      rw [heldC, Option.map_none, eq_comm, Option.map_eq_none_iff] at found
      rw [found]
      exact ⟨rfl, same⟩
  | some a =>
      rw [heldC, Option.map_some, eq_comm, Option.map_eq_some_iff] at found
      obtain ⟨b, heldD, seen⟩ := found
      rw [heldD]
      obtain ⟨result, left⟩ := respects a b seen.symm
      rcases same_outcome result with ⟨r, runA, runB⟩ | ⟨e, runA, runB⟩
      · dsimp only
        rw [runA, runB]
        refine ⟨rfl, ?_⟩
        dsimp only
        rw [finalState_ok, finalState_ok, visible_assign, visible_assign, same, left]
      · dsimp only
        rw [runA, runB]
        refine ⟨rfl, ?_⟩
        dsimp only
        rw [finalState_error, finalState_error, visible_assign, visible_assign, same, left]

theorem silent_onAbility (scriptName : Bytes) {x : Action Ability α} (silent : Silent Ability.visible x) :
    Silent visible (onAbility scriptName x) := by
  intro c
  rw [onAbility]
  cases held : c.abilities.find scriptName with
  | none => rfl
  | some a =>
      have left := silent a
      have again : ∀ a', a'.visible = a.visible → visible { c with abilities := c.abilities.assign scriptName a' } = c.visible := by
        intro a' seen
        rw [visible_assign, seen, OrderedMap.assign_of_find]
        exact (find_mapView ..).trans (congrArg _ held)
      dsimp only
      cases run : x a with
      | ok result a' =>
          rw [run] at left
          exact again a' left
      | error e a' =>
          rw [run] at left
          exact again a' left

end Views
end Character
end D20Tempest.Characters
