import D20Tempest.Components.ModifierCache
import D20Tempest.Foundation.Arena

namespace D20Tempest.Characters
open Foundation Components

def abilitiesScriptPath : Bytes := str "./scripts/components/abilities/"

def scriptExtension : Bytes := str ".lua"

def scriptPath (scriptName : Bytes) : Bytes := abilitiesScriptPath ++ scriptName ++ scriptExtension

structure Character where
  characterID : UInt64
  name : Bytes
  client : Option Ref
  abilities : OrderedMap Bytes Ability

namespace Character

def make (characterID : UInt64) (name : Bytes) (client : Option Ref) : Character :=
  ⟨characterID, name, client, .empty⟩

def addAbility (scripts : ScriptStore) (scriptName : Bytes) (defaultValue : Int32) :
    Action Character (Option Bytes) := do
  let c ← get
  if (c.abilities.find scriptName).isSome then return none
  match scripts (scriptPath scriptName) with
  | none => throw .scriptError
  | some script =>
      set { c with abilities := c.abilities.insert scriptName (Ability.make script defaultValue) }
      return some scriptName

def documentOf (characterID : UInt64) (name : Bytes) (abilities : List (Bytes × Json)) : Json :=
  Json.ofFields [
    (str "name", .string name),
    (str "id", .unsigned characterID),
    (str "abilities", .object abilities)]

def save : Action Character Json := fun c =>
  match c.abilities.visit Ability.save with
  | .ok serializedAbilities abilities =>
      .ok (documentOf c.characterID c.name serializedAbilities) { c with abilities := abilities }
  | .error e abilities => .error e { c with abilities := abilities }

def loadedAbility (scripts : ScriptStore) (entry : Bytes × Json) : Except Fault Ability :=
  match scripts (scriptPath entry.1) with
  | none => .error .scriptError
  | some script => match Ability.load entry.2 (Ability.make script 0) with
      | .ok _ ability => .ok ability
      | .error e _ => .error e

def loadAbilities (scripts : ScriptStore) : List (Bytes × Json) → Action Character Unit
  | [] => pure ()
  | entry :: rest => do
      let ability ← evaluate (loadedAbility scripts entry)
      modify fun c => { c with abilities := c.abilities.insert entry.1 ability }
      loadAbilities scripts rest

def load (scripts : ScriptStore) (root : Json) : Action Character Unit := do
  -- && binds tighter than ||, so the last test stands alone
  if (root.isDiscarded && (!root.contains (str "name") || !root.contains (str "abilities")))
      || !root.contains (str "id") then
    throw .invalidArgument
  let characterID ← evaluate (root.index (str "id") >>= Json.getUInt64)
  modify fun c => { c with characterID := characterID }
  let name ← evaluate (root.index (str "name") >>= Json.getString)
  modify fun c => { c with name := name }
  let abilities ← evaluate (root.index (str "abilities"))
  loadAbilities scripts abilities.items

end Character
end D20Tempest.Characters
