import D20Tempest.Components.Ability

namespace D20Tempest.Components
open Foundation

abbrev ScriptStore := Bytes → Option Script

/-- The six files of `scripts/components/abilities` differ in their names and their check. Halving
is exact on a Lua float, and the sum is taken in 64 bits before it becomes an `int`. -/
def abilityScript (name shortName : Bytes) (check : Int32 → Bool) : Script where
  name := name
  shortName := shortName
  getModifier value temp := .ok (Int32.ofInt (value.toInt / 2 - 5 + temp.toInt))
  checkValueBeforeSet := some fun value => .ok (check value)

def strength : Script := abilityScript (str "Strength") (str "STR") fun _ => true
def dexterity : Script := abilityScript (str "Dexterity") (str "DEX") (· < 100)
def constitution : Script := abilityScript (str "Constitution") (str "CON") (· < 100)
def intelligence : Script := abilityScript (str "Intelligence") (str "INT") (· < 100)
def wisdom : Script := abilityScript (str "Wisdom") (str "WIS") (· < 100)
def charism : Script := abilityScript (str "Charisma") (str "CHA") (· < 100)

def shippedScripts : ScriptStore := fun path =>
  if path = str "./scripts/components/abilities/strength.lua" then some strength
  else if path = str "./scripts/components/abilities/dexterity.lua" then some dexterity
  else if path = str "./scripts/components/abilities/constitution.lua" then some constitution
  else if path = str "./scripts/components/abilities/intelligence.lua" then some intelligence
  else if path = str "./scripts/components/abilities/wisdom.lua" then some wisdom
  else if path = str "./scripts/components/abilities/charism.lua" then some charism
  else none

end D20Tempest.Components
