import Mathlib.Data.Rat.Floor
import Mathlib.Tactic.Linarith
import Mathlib.Tactic.NormNum

namespace Foundation

/-- Rounding to a binary64 number, which leaves what is one already as it is. -/
structure Rounding where
  nearest : Rat → Rat
  exact : ∀ (m : Int) (k : Nat), |m| ≤ 2 ^ 53 → k ≤ 1074 → nearest (m / 2 ^ k) = m / 2 ^ k

/-- A number of Lua 5.3. A float is the rational it stands for; infinities and NaN are left out. -/
inductive LuaNumber where
  | integer (i : Int64)
  | float (x : Rat)

namespace LuaNumber

def push (v : Int32) : LuaNumber := .integer v.toInt64

section Operations
variable (r : Rounding)

def toFloat : LuaNumber → Rat
  | .integer i => r.nearest i.toInt
  | .float x => x

-- integers wrap around
def add : LuaNumber → LuaNumber → LuaNumber
  | .integer i, .integer j => .integer (i + j)
  | a, b => .float (r.nearest (a.toFloat r + b.toFloat r))

def subtract : LuaNumber → LuaNumber → LuaNumber
  | .integer i, .integer j => .integer (i - j)
  | a, b => .float (r.nearest (a.toFloat r - b.toFloat r))

def divide (a b : LuaNumber) : LuaNumber := .float (r.nearest (a.toFloat r / b.toFloat r))

end Operations

/-- `math.floor` gives an integer where it can. -/
def floor : LuaNumber → LuaNumber
  | .integer i => .integer i
  | .float x => if -2 ^ 63 ≤ ⌊x⌋ ∧ ⌊x⌋ < 2 ^ 63 then .integer (Int64.ofInt ⌊x⌋) else .float ⌊x⌋

def llround (x : Rat) : Int := if 0 ≤ x then ⌊x + 1 / 2⌋ else -⌊-x + 1 / 2⌋

/-- What `sol` makes of a number where an `int` is asked for. -/
def toInt32 : LuaNumber → Int32
  | .integer i => i.toInt32
  | .float x => (Int64.ofInt (llround x)).toInt32

theorem toFloat_push (r : Rounding) (v : Int32) : (push v).toFloat r = v.toInt := by
  have low := v.le_toInt
  have high := v.toInt_lt
  have exact := r.exact v.toInt 0 (abs_le.mpr ⟨by omega, by omega⟩) (by omega)
  rw [push, toFloat, Int32.toInt_toInt64]
  simpa using exact

theorem floor_half (r : Rounding) (v : Int32) :
    floor (divide r (push v) (.integer 2)) = .integer (Int64.ofInt (v.toInt / 2)) := by
  have low := v.le_toInt
  have high := v.toInt_lt
  have two : toFloat r (.integer 2) = 2 := by
    have exact := r.exact 2 0 (by norm_num) (by omega)
    simpa [toFloat] using exact
  have half : r.nearest (v.toInt / 2) = v.toInt / 2 := by
    have exact := r.exact v.toInt 1 (abs_le.mpr ⟨by omega, by omega⟩) (by omega)
    simpa using exact
  have floored : ⌊(v.toInt : Rat) / 2⌋ = v.toInt / 2 := by
    have exact := Rat.floor_intCast_div_natCast v.toInt 2
    simpa using exact
  rw [divide, toFloat_push, two, half, floor, floored, if_pos ⟨by omega, by omega⟩]

end LuaNumber
end Foundation
