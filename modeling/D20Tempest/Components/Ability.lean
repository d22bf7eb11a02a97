import D20Tempest.Foundation.Json
import D20Tempest.Foundation.Memo

namespace D20Tempest.Components
open Foundation

/-- What an ability's Lua file defines. The functions see the ability through its value and its
temporary bonus only. -/
structure Script where
  name : Bytes
  shortName : Bytes
  getModifier : Int32 → Int32 → Except Fault Int32
  checkValueBeforeSet : Option (Int32 → Except Fault Bool)

/-- `Ability<int>`. Additions to the bonus wrap where the source leaves the overflow undefined. -/
structure Ability where
  abilityValue : Int32
  tempBonus : Int32
  modifierCache : Int32
  cacheInvalidated : Bool
  script : Script

namespace Ability

def make (script : Script) (defaultValue : Int32) : Ability where
  abilityValue := defaultValue
  tempBonus := 0
  modifierCache := 0
  cacheInvalidated := true
  script := script

def getModifier (a : Ability) : Except Fault Int32 := a.script.getModifier a.abilityValue a.tempBonus

def modifier : Action Ability Int32 := do
  let a ← get
  if a.cacheInvalidated then
    let modifier ← evaluate a.getModifier
    set { a with modifierCache := modifier, cacheInvalidated := false }
    return modifier
  return a.modifierCache

def setValue (value : Int32) : Action Ability Bool := do
  let a ← get
  match a.script.checkValueBeforeSet with
  | none => return false
  | some check =>
      if ← evaluate (check value) then
        set { a with abilityValue := value, cacheInvalidated := true }
        return true
      return false

def setTemp (val : Int32) : Action Ability Unit :=
  modify fun a => { a with tempBonus := a.tempBonus + val, cacheInvalidated := true }

def resetTemp : Action Ability Unit :=
  modify fun a => { a with tempBonus := 0, cacheInvalidated := true }

def document (a : Ability) (modifier : Int32) : Json :=
  Json.ofFields [
    (str "value", .integer a.abilityValue.toInt64),
    (str "modifier", .integer modifier.toInt64),
    (str "temp", .integer a.tempBonus.toInt64),
    (str "name", .string a.script.name),
    (str "short_name", .string a.script.shortName)]

def save : Action Ability Json := do
  let a ← get
  if a.cacheInvalidated then
    let modifier ← evaluate a.getModifier
    set { a with modifierCache := modifier }
    return a.document modifier
  return a.document a.modifierCache

def load (root : Json) : Action Ability Unit := do
  if root.isDiscarded && (!root.contains (str "value") || !root.contains (str "temp")) then
    throw .invalidArgument
  let value ← evaluate (root.index (str "value") >>= Json.getInt)
  modify fun a => { a with abilityValue := value }
  let temp ← evaluate (root.index (str "temp") >>= Json.getInt)
  modify fun a => { a with tempBonus := temp }

end Ability

end D20Tempest.Components
