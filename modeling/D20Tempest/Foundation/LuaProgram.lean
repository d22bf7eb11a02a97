import D20Tempest.Foundation.Action
import D20Tempest.Foundation.Bytes
import D20Tempest.Foundation.Lua
import Mathlib.Logic.Function.Basic

namespace Foundation.Lua

/-! ## Programs -/

inductive Binary where
  | add | subtract | divide | less

inductive Expr where
  | nil
  | boolean (b : Bool)
  | numeral (i : Int64)
  | string (s : Bytes)
  | name (x : Bytes)
  | field (e : Expr) (x : Bytes)
  | call (f : Expr) (args : List Expr)
  | binary (op : Binary) (a b : Expr)
  | and (a b : Expr)
  | or (a b : Expr)

/-- Variables are global but for the parameters of a function. -/
inductive Stat where
  | assign (x : Bytes) (e : Expr)
  | call (e : Expr)
  | ret (e : Expr)

-- functions are defined at the top of a file, where they capture nothing
inductive Item where
  | function (x : Bytes) (params : List Bytes) (body : List Stat)
  | stat (stat : Stat)

/-- Of the library only `math.floor` is here, and the rest is no more than a value. The functions of the host are known
by their names. -/
inductive Value (ι : Type) where
  | nil
  | boolean (b : Bool)
  | number (n : LuaNumber)
  | string (s : Bytes)
  | math
  | floor
  | library
  | function (params : List Bytes) (body : List Stat)
  | native (n : ι)

abbrev Locals (ι : Type) := List (Bytes × Value ι)

structure State (ι σ : Type) where
  globals : Bytes → Value ι
  host : σ

/-- How a value is called. -/
abbrev Call (ι σ : Type) := Value ι → List (Value ι) → Action (State ι σ) (Value ι)

section
variable {ι σ : Type}

/-! ## Operators -/

def value : LuaNumber → Rat
  | .integer i => i.toInt
  | .float x => x

-- numbers are compared as what they are, whatever they are stored as
def lessThan (a b : LuaNumber) : Bool := decide (value a < value b)

/-- Operations on strings, which Lua converts, on the library and infinities are left out. -/
def Binary.apply (r : Rounding) : Binary → Value ι → Value ι → Except Fault (Value ι)
  | .add, .number a, .number b => .ok (.number (a.add r b))
  | .subtract, .number a, .number b => .ok (.number (a.subtract r b))
  | .divide, .number a, .number b => if value b = 0 then .error .unrepresentable else .ok (.number (a.divide r b))
  | .less, .number a, .number b => .ok (.boolean (lessThan a b))
  | _, .string _, _ | _, _, .string _ | _, .library, _ | _, _, .library => .error .unrepresentable
  | _, _, _ => .error .scriptError

def Value.field (x : Bytes) : Value ι → Except Fault (Value ι)
  | .math => if x = str "floor" then .ok .floor else .error .unrepresentable
  | .string _ | .library => .error .unrepresentable
  | _ => .error .scriptError

def floorOf : List (Value ι) → Except Fault (Value ι)
  | .number n :: _ => .ok (.number n.floor)
  | .string _ :: _ => .error .unrepresentable
  | _ => .error .scriptError

def Value.isTrue : Value ι → Bool
  | .nil => false
  | .boolean b => b
  | _ => true

def Value.isLibrary : Value ι → Bool
  | .library => true
  | _ => false

/-! ## Evaluation -/

def find (x : Bytes) (locals : Locals ι) : Option (Value ι) := (locals.find? (·.1 = x)).map Prod.snd

mutual

def evalExpr (r : Rounding) (call : Call ι σ) (locals : Locals ι) : Expr → Action (State ι σ) (Value ι)
  | .nil => return .nil
  | .boolean b => return .boolean b
  | .numeral i => return .number (.integer i)
  | .string s => return .string s
  | .name x => match find x locals with
      | some v => return v
      | none => return (← get).globals x
  | .field e x => do evaluate ((← evalExpr r call locals e).field x)
  | .call f args => do
      let f ← evalExpr r call locals f
      call f (← evalArgs r call locals args)
  | .binary op a b => do
      let a ← evalExpr r call locals a
      evaluate (op.apply r a (← evalExpr r call locals b))
  | .and a b => do
      let v ← evalExpr r call locals a
      if v.isTrue then evalExpr r call locals b else return v
  | .or a b => do
      let v ← evalExpr r call locals a
      if v.isTrue then return v else evalExpr r call locals b

def evalArgs (r : Rounding) (call : Call ι σ) (locals : Locals ι) : List Expr → Action (State ι σ) (List (Value ι))
  | [] => return []
  | e :: rest => do
      let v ← evalExpr r call locals e
      return v :: (← evalArgs r call locals rest)

end

def setGlobal (x : Bytes) (v : Value ι) : Action (State ι σ) Unit :=
  modify fun s => { s with globals := Function.update s.globals x v }

def setLocal (x : Bytes) (v : Value ι) (locals : Locals ι) : Locals ι :=
  locals.map fun l => if l.1 = x then (x, v) else l

/-- The value that a block returns, if it does. -/
def execBlock (r : Rounding) (call : Call ι σ) (locals : Locals ι) : List Stat → Action (State ι σ) (Option (Value ι))
  | [] => return none
  | .assign x e :: rest => do
      let v ← evalExpr r call locals e
      if (find x locals).isSome then execBlock r call (setLocal x v locals) rest
      else
        setGlobal x v
        execBlock r call locals rest
  | .call e :: rest => do
      let _ ← evalExpr r call locals e
      execBlock r call locals rest
  | .ret e :: _ => some <$> evalExpr r call locals e

def execFile (r : Rounding) (call : Call ι σ) : List Item → Action (State ι σ) Unit
  | [] => return ()
  | .function x params body :: rest => do
      setGlobal x (.function params body)
      execFile r call rest
  | .stat stat :: rest => do
      if (← execBlock r call [] [stat]).isSome then return ()
      execFile r call rest

/-- What is missing is `nil`, what is left over is dropped, and of two parameters of one name the last is seen. -/
def bindParams : List Bytes → List (Value ι) → Locals ι
  | [], _ => []
  | x :: params, args => bindParams params args.tail ++ [(x, args.headD .nil)]

/-- Calls nest as deep as the stack goes. -/
def callValue (r : Rounding) (native : Call ι σ → ι → List (Value ι) → Action (State ι σ) (Value ι)) : Nat → Call ι σ
  | 0, _, _ => throw .scriptError
  | depth + 1, .function params body, args => do
      return (← execBlock r (callValue r native depth) (bindParams params args) body).getD .nil
  | depth + 1, .native n, args => native (callValue r native depth) n args
  | _ + 1, .floor, args => evaluate (floorOf args)
  | _ + 1, .library, _ => throw .unrepresentable
  | _ + 1, _, _ => throw .scriptError

section
variable {r : Rounding} {call : Call ι σ} {locals : Locals ι} {s t u : State ι σ}

theorem evalExpr_global {x : Bytes} (free : find x locals = none) (s : State ι σ) :
    evalExpr r call locals (.name x) s = .ok (s.globals x) s := by
  rw [evalExpr, free]
  rfl

theorem evalExpr_numeral (i : Int64) (s : State ι σ) : evalExpr r call locals (.numeral i) s = .ok (.number (.integer i)) s := rfl

theorem evalExpr_field {e : Expr} {x : Bytes} {v : Value ι} (inner : evalExpr r call locals e s = .ok v t) :
    evalExpr r call locals (.field e x) s = evaluate (v.field x) t := by
  rw [evalExpr, bind_of_ok inner]

theorem evalExpr_binary {op : Binary} {a b : Expr} {v w : Value ι} (left : evalExpr r call locals a s = .ok v t)
    (right : evalExpr r call locals b t = .ok w u) : evalExpr r call locals (.binary op a b) s = evaluate (op.apply r v w) u := by
  rw [evalExpr, bind_of_ok left, bind_of_ok right]

theorem evalExpr_call {f : Expr} {args : List Expr} {v : Value ι} {vs : List (Value ι)}
    (function : evalExpr r call locals f s = .ok v t) (values : evalArgs r call locals args t = .ok vs u) :
    evalExpr r call locals (.call f args) s = call v vs u := by
  rw [evalExpr, bind_of_ok function, bind_of_ok values]

theorem callValue_ret {native : Call ι σ → ι → List (Value ι) → Action (State ι σ) (Value ι)} {depth : Nat}
    (params : List Bytes) (e : Expr) (args : List (Value ι)) :
    callValue r native (depth + 1) (.function params [.ret e]) args =
      evalExpr r (callValue r native depth) (bindParams params args) e := by
  rw [callValue, execBlock, bind_map_left]
  exact bind_pure _

theorem evalArgs_nil (s : State ι σ) : evalArgs r call locals [] s = .ok [] s := rfl

theorem evalArgs_single {e : Expr} {v : Value ι} (one : evalExpr r call locals e s = .ok v t) :
    evalArgs r call locals [e] s = .ok [v] t := by
  rw [evalArgs, bind_of_ok one]
  rfl

end

end
end Foundation.Lua
