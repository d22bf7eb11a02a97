import D20Tempest.Components.ModifierCache
import D20Tempest.Foundation.Lua
import Mathlib.Data.List.Infix

namespace D20Tempest.Components
open Foundation

/-! ## The Lua expression of the six files -/

/-- `math.floor((Strength() / 2)) - 5 + TempSTRBonus()`, returned as an `int`. -/
def luaModifier (r : Rounding) (value temp : Int32) : Int32 :=
  let halved := (LuaNumber.push value).divide r (.integer 2)
  ((halved.floor.subtract r (.integer 5)).add r (.push temp)).toInt32

def InInt (n : Int) : Prop := -2 ^ 31 ≤ n ∧ n < 2 ^ 31

instance (n : Int) : Decidable (InInt n) := inferInstanceAs (Decidable (_ ∧ _))

theorem inInt_toInt (v : Int32) : InInt v.toInt := ⟨v.le_toInt, v.toInt_lt⟩

theorem inInt_zero : InInt 0 := ⟨by decide, by decide⟩

theorem toInt_ofInt_eq_iff (n : Int) : (Int32.ofInt n).toInt = n ↔ InInt n := by
  constructor
  · intro same
    rw [← same]
    exact inInt_toInt _
  · intro range
    exact Int32.toInt_ofInt_of_le range.1 range.2

theorem ofInt_toInt_add (m : Int) (v : Int32) : Int32.ofInt m + v = Int32.ofInt (m + v.toInt) := by
  rw [Int32.ofInt_add, Int32.ofInt_toInt]

theorem luaModifier_eq (r : Rounding) (value temp : Int32) :
    luaModifier r value temp = Int32.ofInt (value.toInt / 2 - 5 + temp.toInt) := by
  have word : temp.toInt64 = Int64.ofInt temp.toInt := by
    rw [← Int32.toInt_toInt64, Int64.ofInt_toInt]
  have five : (5 : Int64) = Int64.ofInt 5 := rfl
  rw [luaModifier, LuaNumber.floor_half, LuaNumber.push, LuaNumber.subtract, LuaNumber.add, LuaNumber.toInt32, word,
    five, ← Int64.ofInt_sub, ← Int64.ofInt_add, Int64.toInt32_ofInt]

theorem shipped_getModifier (r : Rounding) {path : Bytes} {script : Script} (shipped : shippedScripts path = some script)
    (value temp : Int32) : script.getModifier value temp = .ok (luaModifier r value temp) := by
  rw [luaModifier_eq]
  unfold shippedScripts at shipped
  repeat' split at shipped
  all_goals cases shipped
  all_goals rfl

/-! ## The exact sum -/

def exactBonus (calls : List AbilityCall) : Int :=
  calls.foldl (fun sum call => match call with
    | .setTemp val => sum + val.toInt
    | .resetTemp => 0
    | _ => sum) 0

/-- `floor((Value() - 10) / 2)` plus the exact sum of the bonuses. -/
def exactModifier (a : Ability) (calls : List AbilityCall) : Int :=
  ⌊((a.abilityValue.toInt - 10 : Int) : Rat) / 2⌋ + exactBonus calls

section Runs
variable {script : Script} {defaultValue : Int32} {calls : List AbilityCall}

theorem after_snoc (calls : List AbilityCall) (call : AbilityCall) :
    after script defaultValue (calls ++ [call]) = perform (after script defaultValue calls) call := by
  rw [after, List.foldl_append]
  rfl

theorem exactBonus_snoc (calls : List AbilityCall) (call : AbilityCall) :
    exactBonus (calls ++ [call]) = match call with
      | .setTemp val => exactBonus calls + val.toInt
      | .resetTemp => 0
      | _ => exactBonus calls := by
  rw [exactBonus, List.foldl_append]
  rfl

theorem setValue_tempBonus (a : Ability) (value : Int32) : (finalState (Ability.setValue value a)).tempBonus = a.tempBonus := by
  rw [Ability.setValue_apply]
  split
  · rfl
  · split <;> rfl

/-- The bonus is the exact sum modulo 2^32, and an ability that is not loaded stays coherent. -/
structure Tracks (script : Script) (a : Ability) (calls : List AbilityCall) : Prop where
  onScript : a.script = script
  bonus : a.tempBonus = Int32.ofInt (exactBonus calls)
  coherent : a.memo.Coherent a.script.modifierOf

theorem tracks_after (noLoads : ∀ doc, .load doc ∉ calls) :
    Tracks script (after script defaultValue calls) calls := by
  induction calls using List.reverseRecOn with
  | nil => exact ⟨rfl, rfl, fun fresh => by cases fresh⟩
  | append_singleton calls call ih =>
      have before := ih fun doc mem => noLoads doc (List.mem_append_left _ mem)
      rw [after_snoc]
      refine ⟨(perform_script _ call).trans before.onScript, ?_, ?_⟩
      · rw [exactBonus_snoc]
        cases call with
        | setValue value => exact (setValue_tempBonus _ value).trans before.bonus
        | setTemp val =>
            show (after script defaultValue calls).tempBonus + val = _
            rw [before.bonus, ofInt_toInt_add]
        | resetTemp => rfl
        | load doc => exact absurd (List.mem_append_right _ (List.mem_singleton.mpr rfl)) (noLoads doc)
        | modifier =>
            rw [perform, Ability.modifier_apply]
            split <;> exact before.bonus
        | save =>
            rw [perform, Ability.save_apply]
            split <;> exact before.bonus
      · refine coherent_perform ?_ before.coherent
        rintro doc rfl
        exact noLoads doc (List.mem_append_right _ (List.mem_singleton.mpr rfl))

theorem exactModifier_eq (a : Ability) (calls : List AbilityCall) :
    exactModifier a calls = a.abilityValue.toInt / 2 - 5 + exactBonus calls := by
  have floored := Rat.floor_intCast_div_natCast (a.abilityValue.toInt - 10) 2
  rw [Nat.cast_ofNat] at floored
  rw [exactModifier, floored]
  omega

def AddsInRange (script : Script) (defaultValue : Int32) (calls : List AbilityCall) : Prop :=
  ∀ done val rest, calls = done ++ .setTemp val :: rest →
    InInt ((after script defaultValue done).tempBonus.toInt + val.toInt)

theorem addsInRange_iff (noLoads : ∀ doc, .load doc ∉ calls) :
    AddsInRange script defaultValue calls ↔ ∀ done rest, calls = done ++ rest → InInt (exactBonus done) := by
  have tracks : ∀ done rest, calls = done ++ rest → Tracks script (after script defaultValue done) done := by
    intro done rest split
    exact tracks_after fun doc mem => noLoads doc (split ▸ List.mem_append_left _ mem)
  constructor
  · intro adds done
    induction done using List.reverseRecOn with
    | nil => exact fun rest split => inInt_zero
    | append_singleton done call ih =>
        intro rest split
        have split' : calls = done ++ call :: rest := by simpa using split
        have sum := ih _ split'
        rw [exactBonus_snoc]
        cases call with
        | setTemp val =>
            have added := adds done val rest split'
            rw [(tracks done _ split').bonus, (toInt_ofInt_eq_iff _).mpr sum] at added
            exact added
        | resetTemp => exact inInt_zero
        | _ => exact sum
  · intro sums done val rest split
    have added := sums (done ++ [.setTemp val]) rest (by simpa using split)
    rw [(tracks done _ split).bonus, (toInt_ofInt_eq_iff _).mpr (sums done _ split)]
    rwa [exactBonus_snoc] at added

theorem modifier_after (r : Rounding) {path : Bytes} (shipped : shippedScripts path = some script)
    (noLoads : ∀ doc, .load doc ∉ calls) :
    returned (Ability.modifier (after script defaultValue calls)) =
      .ok (Int32.ofInt (exactModifier (after script defaultValue calls) calls)) := by
  have tracks : Tracks script (after script defaultValue calls) calls := tracks_after noLoads
  rw [returned_modifier, Memo.value_eq_iff.mpr tracks.coherent, tracks.onScript]
  show script.getModifier (after script defaultValue calls).abilityValue (after script defaultValue calls).tempBonus = _
  rw [shipped_getModifier r shipped, luaModifier_eq, tracks.bonus, exactModifier_eq, Int32.ofInt_add, Int32.ofInt_toInt,
    ← Int32.ofInt_add]

end Runs

/-- The bonus never overflows exactly as long as the exact sums are in range; then `Modifier()` is the exact modifier,
cast to an `int`. -/
theorem modifier_exact (r : Rounding) {path : Bytes} {script : Script} (shipped : shippedScripts path = some script)
    (defaultValue : Int32) {calls : List AbilityCall} (noLoads : ∀ doc, .load doc ∉ calls) :
    (∀ value temp, script.getModifier value temp = .ok (luaModifier r value temp)) ∧
      (AddsInRange script defaultValue calls ↔ ∀ done rest, calls = done ++ rest → InInt (exactBonus done)) ∧
      (AddsInRange script defaultValue calls → ∀ done rest, calls = done ++ .modifier :: rest →
        ∃ m, returned (Ability.modifier (after script defaultValue done)) = .ok m ∧
          m = Int32.ofInt (exactModifier (after script defaultValue done) done) ∧
          (m.toInt = exactModifier (after script defaultValue done) done ↔
            InInt (exactModifier (after script defaultValue done) done))) := by
  refine ⟨shipped_getModifier r shipped, addsInRange_iff noLoads, ?_⟩
  intro adds done rest split
  have noLoads' : ∀ doc, .load doc ∉ done := fun doc mem => noLoads doc (split ▸ List.mem_append_left _ mem)
  exact ⟨_, modifier_after r shipped noLoads', rfl, toInt_ofInt_eq_iff _⟩

def exactRounding : Rounding := ⟨id, fun _ _ _ _ => rfl⟩

theorem modifier_exact_strength : ∃ m,
    returned (Ability.modifier (after strength (-7) [.setTemp 4, .setTemp (-1)])) = .ok m ∧ m.toInt = -6 := by
  have shipped : shippedScripts (str "./scripts/components/abilities/strength.lua") = some strength := rfl
  have noLoads : ∀ doc, .load doc ∉ [.setTemp 4, .setTemp (-1), AbilityCall.modifier] := by simp
  obtain ⟨-, adds, reads⟩ := modifier_exact exactRounding shipped (-7) noLoads
  have sums : ∀ done ∈ [.setTemp 4, .setTemp (-1), AbilityCall.modifier].inits, InInt (exactBonus done) := by decide
  have inRange := adds.mpr fun done rest split => sums done ((List.mem_inits _ _).mpr ⟨rest, split.symm⟩)
  obtain ⟨m, read, -, exact⟩ := reads inRange [.setTemp 4, .setTemp (-1)] [] rfl
  rw [exactModifier_eq] at exact
  exact ⟨m, read, exact.mpr (by decide)⟩

/-- A strength of 30 and a bonus of 2147483647 make a modifier of -2147483639. -/
theorem modifier_is_truncated : ¬ ∀ path script defaultValue calls, shippedScripts path = some script →
    (∀ doc, .load doc ∉ calls) → AddsInRange script defaultValue calls ∧
      ∀ done rest, calls = done ++ .modifier :: rest →
        ∃ m, returned (Ability.modifier (after script defaultValue done)) = .ok m ∧
          m.toInt = exactModifier (after script defaultValue done) done := by
  intro exact
  obtain ⟨-, reads⟩ := exact (str "./scripts/components/abilities/strength.lua") strength 30
    [.setTemp 2147483647, .modifier] rfl (by simp)
  obtain ⟨m, read, same⟩ := reads [.setTemp 2147483647] [] rfl
  rw [exactModifier_eq] at same
  have large : m.toInt = 2147483657 := same
  have bound := m.toInt_lt
  omega

end D20Tempest.Components
