import D20Tempest.Components.Ability
import D20Tempest.Foundation.LuaProgram

namespace D20Tempest.Components
open Foundation

/-- The functions of an ability that its file can call. -/
inductive HostFunction where
  | modifier | value | temp | setTemp

/-- `Ability<int>` beside its Lua state, with what it took from it. -/
structure LuaAbility where
  abilityValue : Int32
  tempBonus : Int32
  modifierCache : Int32
  cacheInvalidated : Bool
  name : Bytes
  shortName : Bytes
  getModifier : Lua.Value HostFunction
  checkValueBeforeSet : Lua.Value HostFunction

abbrev LuaState := Lua.State HostFunction LuaAbility

namespace LuaAbility

/-! ## Conversions -/

-- of other types the builds of sol make different things

def toInt : Lua.Value HostFunction → Except Fault Int32
  | .number n => .ok n.toInt32
  | _ => .error .unrepresentable

def toText : Lua.Value HostFunction → Except Fault Bytes
  | .string s => .ok s
  | _ => .error .unrepresentable

def isValid : Lua.Value HostFunction → Bool
  | .nil => false
  | _ => true

/-! ## What the file can call -/

def host : Action LuaState LuaAbility := do return (← get).host

def onHost (f : LuaAbility → LuaAbility) : Action LuaState Unit := modify fun s => { s with host := f s.host }

def setTemp (val : Int32) : Action LuaState Unit :=
  onHost fun a => { a with tempBonus := a.tempBonus + val, cacheInvalidated := true }

def modifier (call : Lua.Call HostFunction LuaAbility) : Action LuaState Int32 := do
  let a ← host
  if a.cacheInvalidated then
    let modifier ← evaluate (toInt (← call a.getModifier []))
    onHost fun a => { a with modifierCache := modifier, cacheInvalidated := false }
    return modifier
  return a.modifierCache

theorem modifier_apply (call : Lua.Call HostFunction LuaAbility) (s : LuaState) : modifier call s =
    if s.host.cacheInvalidated then
      ((call s.host.getModifier [] >>= fun v => evaluate (toInt v)) >>= fun m => do
        onHost fun a => { a with modifierCache := m, cacheInvalidated := false }
        return m) s
    else .ok s.host.modifierCache s := by
  rw [bind_assoc, modifier, host, bind_assoc, bind_apply, get_apply]
  simp only [pure_bind]
  split <;> rfl

def native (call : Lua.Call HostFunction LuaAbility) :
    HostFunction → List (Lua.Value HostFunction) → Action LuaState (Lua.Value HostFunction)
  | .modifier, _ => do return .number (.push (← modifier call))
  | .value, _ => do return .number (.push (← host).abilityValue)
  | .temp, _ => do return .number (.push (← host).tempBonus)
  | .setTemp, args => do
      setTemp (← evaluate (toInt (args.headD .nil)))
      return .nil

/-! ## The members -/

section
variable (r : Rounding) (depth : Nat)

def call : Lua.Call HostFunction LuaAbility := Lua.callValue r native depth

def tempBonusName (shortName : Bytes) : Bytes := str "Temp" ++ shortName ++ str "Bonus"

def setTempBonusName (shortName : Bytes) : Bytes := str "SetTemp" ++ shortName ++ str "Bonus"

-- what the libraries `base` and `package` define
def libraryNames : List Bytes := ["assert", "collectgarbage", "dofile", "error", "getmetatable", "ipairs", "loadfile", "load",
  "loadstring", "next", "pairs", "pcall", "print", "rawequal", "rawlen", "rawget", "rawset", "select", "setmetatable", "tonumber",
  "tostring", "type", "xpcall", "_G", "_VERSION", "package", "module", "require"].map str

def openLibraries : Bytes → Lua.Value HostFunction := fun x =>
  if x = str "math" then .math else if x ∈ libraryNames then .library else .nil

/-- Before the body of the constructor. -/
def initial (defaultValue : Int32) : LuaState where
  globals := fun _ => .nil
  host := ⟨defaultValue, 0, 0, true, [], [], .nil, .nil⟩

def construct (file : List Lua.Item) : Action LuaState Unit := do
  modify fun s => { s with globals := openLibraries }
  Lua.execFile r (call r depth) file
  let globals := (← get).globals
  onHost fun a => { a with getModifier := globals (str "getModifier"), checkValueBeforeSet := globals (str "checkValueBeforeSet") }
  let name ← evaluate (toText (globals (str "name")))
  onHost fun a => { a with name := name }
  let shortName ← evaluate (toText (globals (str "shortName")))
  onHost fun a => { a with shortName := shortName }
  Lua.setGlobal shortName (.native .modifier)
  Lua.setGlobal name (.native .value)
  Lua.setGlobal (tempBonusName shortName) (.native .temp)
  Lua.setGlobal (setTempBonusName shortName) (.native .setTemp)

def setValue (value : Int32) : Action LuaState Bool := do
  let a ← host
  if isValid a.checkValueBeforeSet then
    if (← call r depth a.checkValueBeforeSet [.number (.push value)]).isTrue then
      onHost fun a => { a with abilityValue := value, cacheInvalidated := true }
      return true
    return false
  return false

def resetTemp : Action LuaState Unit := onHost fun a => { a with tempBonus := 0, cacheInvalidated := true }

def document (a : LuaAbility) (value : Int32) : Json :=
  Json.ofFields [
    (str "value", .integer value.toInt64),
    (str "modifier", .integer a.modifierCache.toInt64),
    (str "temp", .integer a.tempBonus.toInt64),
    (str "name", .string a.name),
    (str "short_name", .string a.shortName)]

-- the value is stored before the file can change anything
def save : Action LuaState Json := do
  let a ← host
  let value := a.abilityValue
  if a.cacheInvalidated then
    let modifier ← evaluate (toInt (← call r depth a.getModifier []))
    onHost fun a => { a with modifierCache := modifier }
  return (← host).document value

def load (root : Json) : Action LuaState Unit := do
  if root.isDiscarded && (!root.contains (str "value") || !root.contains (str "temp")) then
    throw .invalidArgument
  let value ← evaluate (root.index (str "value") >>= Json.getInt)
  onHost fun a => { a with abilityValue := value }
  let temp ← evaluate (root.index (str "temp") >>= Json.getInt)
  onHost fun a => { a with tempBonus := temp }

end

/-! ## The files -/

/-- `math.floor((Strength() / 2)) - 5 + TempSTRBonus()` -/
def modifierExpr (name shortName : Bytes) : Lua.Expr :=
  .binary .add
    (.binary .subtract
      (.call (.field (.name (str "math")) (str "floor")) [.binary .divide (.call (.name name) []) (.numeral 2)])
      (.numeral 5))
    (.call (.name (tempBonusName shortName)) [])

/-- The six files differ in their names and in what `checkValueBeforeSet` returns. -/
def abilityFile (name shortName : Bytes) (check : Lua.Expr) : List Lua.Item := [
  .stat (.assign (str "name") (.string name)),
  .stat (.assign (str "shortName") (.string shortName)),
  .function (str "getModifier") [] [.ret (modifierExpr name shortName)],
  .function (str "checkValueBeforeSet") [str "val"] [.ret check]]

-- `val < 100`
def belowHundred : Lua.Expr := .binary .less (.name (str "val")) (.numeral 100)

def strength : List Lua.Item := abilityFile (str "Strength") (str "STR") (.boolean true)
def dexterity : List Lua.Item := abilityFile (str "Dexterity") (str "DEX") belowHundred
def constitution : List Lua.Item := abilityFile (str "Constitution") (str "CON") belowHundred
def intelligence : List Lua.Item := abilityFile (str "Intelligence") (str "INT") belowHundred
def wisdom : List Lua.Item := abilityFile (str "Wisdom") (str "WIS") belowHundred
def charism : List Lua.Item := abilityFile (str "Charisma") (str "CHA") belowHundred

/-- The files under the paths of plain keys. Other paths can lead to the same files, and nothing is said about them. -/
def shippedFiles : List (Bytes × List Lua.Item) := [
  (str "./scripts/components/abilities/strength.lua", strength),
  (str "./scripts/components/abilities/dexterity.lua", dexterity),
  (str "./scripts/components/abilities/constitution.lua", constitution),
  (str "./scripts/components/abilities/intelligence.lua", intelligence),
  (str "./scripts/components/abilities/wisdom.lua", wisdom),
  (str "./scripts/components/abilities/charism.lua", charism)]

end LuaAbility

end D20Tempest.Components
