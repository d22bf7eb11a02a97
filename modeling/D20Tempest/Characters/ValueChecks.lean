import D20Tempest.Characters.Reading
import D20Tempest.Characters.RoundTrip

namespace D20Tempest.Components
open Foundation

/-! ## Values of one ability -/

def Script.Accepts (script : Script) (value : Int32) : Prop :=
  ∀ check, script.checkValueBeforeSet = some check → check value = .ok true

def Ability.Passes (a : Ability) : Prop := a.script.Accepts a.abilityValue

/-- A use of an ability, with any document and whether or not it throws. -/
inductive AbilityUse where
  | value (value : Int32)
  | temp (val : Int32)
  | resetTemp
  | load (root : Json)
  | modifier
  | save

def useAbility : AbilityUse → Action Ability Unit
  | .value value => attempt (Ability.setValue value)
  | .temp val => attempt (Ability.setTemp val)
  | .resetTemp => attempt Ability.resetTemp
  | .load root => attempt (Ability.load root)
  | .modifier => attempt Ability.modifier
  | .save => attempt Ability.save

def valueRead (root : Json) : Except Fault Int32 := root.index (str "value") >>= Json.getInt

def UsePasses (a : Ability) : AbilityUse → Prop
  | .load root => ∀ value, valueRead root = .ok value → a.script.Accepts value
  | _ => True

section Ability
variable {a : Ability}

theorem accepts_abilityScript_iff (name shortName : Bytes) (check : Int32 → Bool) (value : Int32) :
    (abilityScript name shortName check).Accepts value ↔ check value = true := by
  simp [Script.Accepts, abilityScript]

theorem load_of_unread {e : Fault} {root : Json} (unread : valueRead root = .error e) :
    finalState (Ability.load root a) = a := by
  unfold Ability.load
  split
  · rfl
  · dsimp only
    rw [valueRead] at unread
    rw [unread]
    rfl

theorem load_of_read {value : Int32} {root : Json} (read : valueRead root = .ok value) :
    ∃ temp, finalState (Ability.load root a) = { a with
      abilityValue := value
      tempBonus := temp } := by
  have present : root.isDiscarded = false := Json.isDiscarded_of_contains (Json.contains_of_read read)
  rw [valueRead] at read
  simp only [Ability.load, present, Bool.false_and, Bool.false_eq_true, ↓reduceIte, read, evaluate_ok, pure_bind]
  rw [bind_of_ok (modify_apply ..)]
  cases root.index (str "temp") >>= Json.getInt with
  | error e => exact ⟨a.tempBonus, rfl⟩
  | ok temp => exact ⟨temp, rfl⟩

theorem useAbility_passes_iff (passes : a.Passes) (use : AbilityUse) :
    (finalState (useAbility use a)).Passes ↔ UsePasses a use := by
  cases use with
  | value value =>
      refine iff_of_true ?_ trivial
      show (finalState (Ability.setValue value a)).Passes
      rw [Ability.setValue_apply]
      cases checks : a.script.checkValueBeforeSet with
      | none => exact passes
      | some check =>
          cases accepted : check value with
          | error e =>
              simp only [accepted]
              exact passes
          | ok yes =>
              cases yes with
              | false =>
                  simp only [accepted]
                  exact passes
              | true =>
                  simp only [accepted]
                  intro check' found
                  obtain rfl := Option.some.inj (checks.symm.trans found)
                  exact accepted
  | temp val => exact iff_of_true passes trivial
  | resetTemp => exact iff_of_true passes trivial
  | load root =>
      show (finalState (Ability.load root a)).Passes ↔ ∀ value, valueRead root = .ok value → a.script.Accepts value
      cases read : valueRead root with
      | error e =>
          rw [load_of_unread read]
          exact iff_of_true passes fun value eq => (by cases eq)
      | ok value =>
          obtain ⟨temp, eq⟩ := load_of_read (a := a) read
          rw [eq]
          simp only [Except.ok.injEq, forall_eq']
          rfl
  | modifier =>
      refine iff_of_true ?_ trivial
      show (finalState (Ability.modifier a)).Passes
      rw [Ability.modifier_apply]
      split <;> exact passes
  | save =>
      refine iff_of_true ?_ trivial
      show (finalState (Ability.save a)).Passes
      rw [Ability.save_apply]
      split <;> exact passes

end Ability
end D20Tempest.Components

namespace D20Tempest.Characters
open Foundation Components

/-! ## Values of a character's abilities -/

inductive CharacterUse where
  | addAbility (scriptName : Bytes) (defaultValue : Int32)
  | ability (scriptName : Bytes) (use : AbilityUse)
  | load (root : Json)
  | save

namespace Character
variable (scripts : ScriptStore)

def use : CharacterUse → Action Character Unit
  | .addAbility scriptName defaultValue => attempt (addAbility scripts scriptName defaultValue)
  | .ability scriptName use => modify fun c => match c.abilities.find scriptName with
      | some a => { c with abilities := c.abilities.assign scriptName (finalState (useAbility use a)) }
      | none => c
  | .load root => attempt (load scripts root)
  | .save => attempt save

def AllPass (c : Character) : Prop := ∀ key a, c.abilities.find key = some a → a.Passes

/-- What is stored by the use is what its script accepts: the default of an ability that is added, and the
values of abilities that are loaded, where the character does not have them yet. -/
def KeepsPassing (c : Character) : CharacterUse → Prop
  | .addAbility scriptName defaultValue => c.abilities.find scriptName = none →
      ∀ script, scripts (scriptPath scriptName) = some script → script.Accepts defaultValue
  | .ability scriptName use => ∀ a, c.abilities.find scriptName = some a → UsePasses a use
  | .load root => ∀ key a, c.abilities.find key = none →
      ((reading scripts root).abilities.find? (·.1 = key)).map Prod.snd = some a → a.Passes
  | .save => True

section Results
variable {scripts} {c : Character}

theorem allPass_addAbility_iff (passes : c.AllPass) (scriptName : Bytes) (defaultValue : Int32) :
    (finalState (addAbility scripts scriptName defaultValue c)).AllPass ↔
      c.KeepsPassing scripts (.addAbility scriptName defaultValue) := by
  rw [addAbility_apply, KeepsPassing]
  cases scripts (scriptPath scriptName) with
  | none => exact iff_of_true passes fun _ script eq => (by cases eq)
  | some script =>
      simp only [Option.some.injEq, forall_eq', AllPass, OrderedMap.find_insert]
      constructor
      · intro all free
        have stored := all scriptName (Ability.make script defaultValue)
        rw [if_pos rfl, free] at stored
        exact stored rfl
      · intro accepts key a found
        split at found
        · rename_i same
          subst same
          cases held : c.abilities.find scriptName with
          | none =>
              rw [held] at found
              obtain rfl := Option.some.inj found
              exact accepts held
          | some b =>
              rw [held] at found
              obtain rfl := Option.some.inj found
              exact passes scriptName b held
        · exact passes key a found

theorem allPass_ability_iff (passes : c.AllPass) (scriptName : Bytes) (use : AbilityUse) :
    (finalState (Character.use scripts (.ability scriptName use) c)).AllPass ↔
      c.KeepsPassing scripts (.ability scriptName use) := by
  rw [Character.use, modify_apply, finalState_ok, KeepsPassing]
  cases held : c.abilities.find scriptName with
  | none => exact iff_of_true passes fun a eq => (by cases eq)
  | some b =>
      simp only [Option.some.injEq, forall_eq', AllPass, OrderedMap.find_assign]
      rw [← useAbility_passes_iff (passes scriptName b held)]
      constructor
      · intro all
        exact all scriptName _ (if_pos rfl)
      · intro stored key a found
        split at found
        · obtain rfl := Option.some.inj found
          exact stored
        · exact passes key a found

theorem allPass_load_iff (passes : c.AllPass) (root : Json) :
    (finalState (load scripts root c)).AllPass ↔ c.KeepsPassing scripts (.load root) := by
  rw [load_finalState, KeepsPassing, AllPass]
  simp only [find_taking]
  constructor
  · intro all key a free stored
    exact all key a (by rw [free, Option.none_or, stored])
  · intro accepts key a found
    cases held : c.abilities.find key with
    | none =>
        rw [held, Option.none_or] at found
        exact accepts key a held found
    | some b =>
        rw [held, Option.some_or] at found
        obtain rfl := Option.some.inj found
        exact passes key b held

theorem allPass_use_iff (passes : c.AllPass) (use : CharacterUse) :
    (finalState (Character.use scripts use c)).AllPass ↔ c.KeepsPassing scripts use := by
  cases use with
  | addAbility scriptName defaultValue => exact allPass_addAbility_iff passes scriptName defaultValue
  | ability scriptName use => exact allPass_ability_iff passes scriptName use
  | load root => exact allPass_load_iff passes root
  | save =>
      refine iff_of_true ?_ trivial
      have saving : ∀ a a', a.Passes → finalState (Ability.save a) = a' → a'.Passes := by
        intro a a' passes saved
        exact saved ▸ (useAbility_passes_iff passes .save).mpr trivial
      obtain ⟨left, kept, visited⟩ := OrderedMap.visit_forall (f := Ability.save)
        (fun a doc a' passes saved => saving a a' passes (by rw [saved, finalState_ok]))
        (fun a e a' passes saved => saving a a' passes (by rw [saved, finalState_error])) passes
      show (finalState (save c)).AllPass
      unfold save
      rcases visited with ⟨bs, run⟩ | ⟨e, run⟩
      · rw [run]
        exact kept
      · rw [run]
        exact kept

end Results
end Character

/-- After every use, the value of an ability is one that its script's check accepts, exactly as long as the
default it was made with and the values it was loaded with are; so it is for the abilities of a character. -/
theorem values_pass_iff (script : Script) (defaultValue : Int32) (uses : List AbilityUse) (scripts : ScriptStore)
    (characterID : UInt64) (name : Bytes) (client : Option Ref) (characterUses : List CharacterUse) :
    ((Ability.make script defaultValue).Passes ∧
          Meets useAbility (fun a use => (finalState (useAbility use a)).Passes) (Ability.make script defaultValue) uses ↔
        script.Accepts defaultValue ∧ Meets useAbility UsePasses (Ability.make script defaultValue) uses) ∧
      (Meets (Character.use scripts) (fun c use => (finalState (Character.use scripts use c)).AllPass)
          (Character.make characterID name client) characterUses ↔
        Meets (Character.use scripts) (Character.KeepsPassing scripts) (Character.make characterID name client)
          characterUses) := by
  constructor
  · refine and_congr_right fun passes => meets_congr passes (fun a use passes => useAbility_passes_iff passes use) ?_
    intro a use a' passes keeps used
    have after := (useAbility_passes_iff passes use).mpr keeps
    rwa [used] at after
  · have empty : (Character.make characterID name client).AllPass := by
      intro key a found
      cases found
    refine meets_congr empty (fun c use passes => Character.allPass_use_iff passes use) ?_
    intro c use c' passes keeps used
    have after := (Character.allPass_use_iff passes use).mpr keeps
    rwa [used] at after

/-- A character gets its dexterity of 100 without a question. -/
theorem default_is_unchecked : ¬ Meets (Character.use shippedScripts)
    (fun c use => (finalState (Character.use shippedScripts use c)).AllPass) (.make 0 (str "Aldor") none)
    [.addAbility (str "dexterity") 100] := by
  intro met
  have passes : (Ability.make dexterity 100).Passes := met.1 (str "dexterity") _ rfl
  have accepted := (accepts_abilityScript_iff _ _ _ _).mp passes
  revert accepted
  decide

end D20Tempest.Characters
