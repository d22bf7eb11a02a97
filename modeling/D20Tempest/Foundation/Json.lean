import D20Tempest.Foundation.Action
import D20Tempest.Foundation.Bytes
import D20Tempest.Foundation.OrderedMap
import Mathlib.Algebra.Group.Int.Defs

namespace Foundation

/-- A `nlohmann::json` value. Objects list their members in key order; a floating-point number is
the rational it stands for. -/
inductive Json where
  | null
  | boolean (b : Bool)
  | string (s : Bytes)
  | integer (i : Int64)
  | unsigned (n : UInt64)
  | float (x : Rat)
  | array (elements : List Json)
  | object (members : List (Bytes × Json))
  | discarded

namespace Json

/-! ## Access -/

def isDiscarded : Json → Bool
  | .discarded => true
  | _ => false

def find (key : Bytes) : Json → Option Json
  | .object members => Assoc.find key members
  | _ => none

def contains (j : Json) (key : Bytes) : Bool := (j.find key).isSome

/-- `operator[](key) const`, undefined at a key the object does not have. -/
def index (j : Json) (key : Bytes) : Except Fault Json :=
  match j with
  | .object members => match Assoc.find key members with
      | some value => .ok value
      | none => .error .absentKey
  | _ => .error .typeError

/-- The entries a range-for over `items()` visits: an array gives its indices as keys, and a value
without elements is its own only entry. -/
def items : Json → List (Bytes × Json)
  | .object members => members
  | .array elements => elements.zipIdx.map fun (value, i) => (str (Nat.repr i), value)
  | .null => []
  | j => [([], j)]

/-- What `root[key] = value` for each field in turn makes of a null `root`. -/
def ofFields (fields : List (Bytes × Json)) : Json :=
  .object (fields.foldl (fun members field => Assoc.assign field.1 field.2 members) [])

theorem contains_iff {j : Json} {key : Bytes} :
    j.contains key = true ↔ ∃ value, j.find key = some value := by
  rw [contains, Option.isSome_iff_exists]

theorem isDiscarded_of_contains {j : Json} {key : Bytes} (there : j.contains key = true) : j.isDiscarded = false := by
  cases j <;> first | rfl | cases there

theorem index_of_find {j value : Json} {key : Bytes} (h : j.find key = some value) :
    j.index key = .ok value := by
  cases j <;> simp_all [find, index]

theorem index_bind_of_find {α : Type} {j value : Json} {key : Bytes} (h : j.find key = some value)
    (f : Json → Except Fault α) : (j.index key >>= f) = f value := by
  rw [index_of_find h]
  rfl

theorem find_of_index {j value : Json} {key : Bytes} (h : j.index key = .ok value) :
    j.find key = some value := by
  cases j with
  | object members =>
      simp only [index] at h
      cases eq : Assoc.find key members <;> simp_all [find]
  | _ => cases h

theorem contains_of_index {j value : Json} {key : Bytes} (h : j.index key = .ok value) : j.contains key = true :=
  contains_iff.mpr ⟨value, find_of_index h⟩

theorem contains_of_read {α : Type} {j : Json} {key : Bytes} {f : Json → Except Fault α} {a : α}
    (reads : (j.index key >>= f) = .ok a) : j.contains key = true := by
  cases read : j.index key with
  | error e =>
      rw [read] at reads
      cases reads
  | ok value => exact contains_of_index read

/-! ## Conversion -/

def getString : Json → Except Fault Bytes
  | .string s => .ok s
  | _ => .error .typeError

def truncate (x : Rat) : Int := x.num.tdiv x.den

def getInt : Json → Except Fault Int32
  | .unsigned n => .ok n.toUInt32.toInt32
  | .integer i => .ok i.toInt32
  | .float x =>
      if -2 ^ 31 ≤ truncate x ∧ truncate x < 2 ^ 31 then .ok (Int32.ofInt (truncate x))
      else .error .unrepresentable
  | .boolean b => .ok (if b then 1 else 0)
  | _ => .error .typeError

def getUInt64 : Json → Except Fault UInt64
  | .unsigned n => .ok n
  | .integer i => .ok i.toUInt64
  | .float x =>
      if 0 ≤ truncate x ∧ truncate x < 2 ^ 64 then .ok (UInt64.ofNat (truncate x).toNat)
      else .error .unrepresentable
  | _ => .error .typeError

theorem getString_ok {j : Json} {s : Bytes} : j.getString = .ok s ↔ j = .string s := by
  cases j <;> simp [getString]

theorem getString_error {j : Json} {e : Fault} (h : j.getString = .error e) : e = .typeError := by
  cases j <;> simp_all [getString]

/-! ## Serialization -/

def hexDigit (n : UInt8) : UInt8 := if n < 10 then 0x30 + n else 0x57 + n

def escapeByte (b : UInt8) : Bytes :=
  if b = 0x08 then str "\\b"
  else if b = 0x09 then str "\\t"
  else if b = 0x0A then str "\\n"
  else if b = 0x0C then str "\\f"
  else if b = 0x0D then str "\\r"
  else if b = 0x22 then str "\\\""
  else if b = 0x5C then str "\\\\"
  else if b ≤ 0x1F then str "\\u00" ++ [hexDigit (b / 16), hexDigit (b % 16)]
  else [b]

theorem escapeByte_of_high {b : UInt8} (high : 0x80 ≤ b) : escapeByte b = [b] := by
  have above : ∀ c : UInt8, c < 0x80 → b ≠ c := by
    rintro c low rfl
    exact absurd high (not_le.mpr low)
  unfold escapeByte
  rw [if_neg (above _ (by decide)), if_neg (above _ (by decide)), if_neg (above _ (by decide)), if_neg (above _ (by decide)),
    if_neg (above _ (by decide)), if_neg (above _ (by decide)), if_neg (above _ (by decide)), if_neg]
  exact not_le.mpr (lt_of_lt_of_le (by decide) high)

def dumpEscaped (s : Bytes) : Option Bytes := if isUtf8 s then some (s.flatMap escapeByte) else none

def quote : Bytes := str "\""

def spaces (n : Nat) : Bytes := List.replicate n 0x20

structure Layout where
  opening : Bytes
  lead : Bytes
  colon : Bytes
  separator : Bytes
  closing : Bytes
  inner : Nat

def layout (indent : Option Nat) (current : Nat) : Layout :=
  match indent with
  | none => ⟨[], [], str "\":", str ",", [], current⟩
  | some step => ⟨str "\n", spaces (current + step), str "\": ", str ",\n",
      str "\n" ++ spaces current, current + step⟩

section Dump
variable (number : Rat → Bytes) (indent : Option Nat)

mutual

def dumpAt (current : Nat) : Json → Option Bytes
  | .null => some (str "null")
  | .boolean true => some (str "true")
  | .boolean false => some (str "false")
  | .string s => (dumpEscaped s).map fun text => quote ++ text ++ quote
  | .integer i => some (str (toString i.toInt))
  | .unsigned n => some (str (Nat.repr n.toNat))
  | .float x => some (number x)
  | .array [] => some (str "[]")
  | .array elements =>
      (dumpElements (layout indent current) elements).map fun text =>
        str "[" ++ (layout indent current).opening ++ text ++ (layout indent current).closing ++ str "]"
  | .object [] => some (str "\x7b\x7d")
  | .object members =>
      (dumpMembers (layout indent current) members).map fun text =>
        str "\x7b" ++ (layout indent current).opening ++ text ++ (layout indent current).closing
          ++ str "\x7d"
  | .discarded => some (str "<discarded>")

def dumpElements (around : Layout) : List Json → Option Bytes
  | [] => some []
  | [value] => (dumpAt around.inner value).map fun text => around.lead ++ text
  | value :: rest =>
      (dumpAt around.inner value).bind fun text =>
        (dumpElements around rest).map fun more => around.lead ++ text ++ around.separator ++ more

def dumpMembers (around : Layout) : List (Bytes × Json) → Option Bytes
  | [] => some []
  | [(key, value)] =>
      (dumpEscaped key).bind fun name => (dumpAt around.inner value).map fun text =>
        around.lead ++ quote ++ name ++ around.colon ++ text
  | (key, value) :: rest =>
      (dumpEscaped key).bind fun name => (dumpAt around.inner value).bind fun text =>
        (dumpMembers around rest).map fun more =>
          around.lead ++ quote ++ name ++ around.colon ++ text ++ around.separator ++ more

end

def dump (j : Json) : Option Bytes := dumpAt number indent 0 j

end Dump

theorem dump_object {number : Rat → Bytes} {indent : Option Nat} {member : Bytes × Json}
    {rest : List (Bytes × Json)} {text : Bytes} (dumps : (object (member :: rest)).dump number indent = some text) :
    ∃ inner, dumpMembers number indent (layout indent 0) (member :: rest) = some inner ∧
      text = str "\x7b" ++ (layout indent 0).opening ++ inner ++ (layout indent 0).closing ++ str "\x7d" := by
  rw [dump, dumpAt] at dumps
  · obtain ⟨inner, eq, rfl⟩ := Option.map_eq_some_iff.mp dumps
    exact ⟨inner, eq, rfl⟩
  · simp

theorem dumpMembers_cons {number : Rat → Bytes} {indent : Option Nat} {around : Layout} {member : Bytes × Json}
    {rest : List (Bytes × Json)} {text : Bytes} (dumps : dumpMembers number indent around (member :: rest) = some text) :
    ∃ more, text = around.lead ++ quote ++ more := by
  obtain ⟨key, value⟩ := member
  cases rest with
  | nil =>
      rw [dumpMembers] at dumps
      obtain ⟨name, -, dumps⟩ := Option.bind_eq_some_iff.mp dumps
      obtain ⟨inner, -, rfl⟩ := Option.map_eq_some_iff.mp dumps
      exact ⟨name ++ around.colon ++ inner, by simp⟩
  | cons next rest =>
      rw [dumpMembers] at dumps
      · obtain ⟨name, -, dumps⟩ := Option.bind_eq_some_iff.mp dumps
        obtain ⟨inner, -, dumps⟩ := Option.bind_eq_some_iff.mp dumps
        obtain ⟨others, -, rfl⟩ := Option.map_eq_some_iff.mp dumps
        exact ⟨name ++ around.colon ++ inner ++ around.separator ++ others, by simp⟩
      · simp

/-! ## UTF-8 in a document -/

mutual

def utf8 : Json → Bool
  | .string s => isUtf8 s
  | .array elements => utf8Elements elements
  | .object members => utf8Members members
  | _ => true

def utf8Elements : List Json → Bool
  | [] => true
  | value :: rest => value.utf8 && utf8Elements rest

def utf8Members : List (Bytes × Json) → Bool
  | [] => true
  | (key, value) :: rest => isUtf8 key && value.utf8 && utf8Members rest

end

theorem dumpEscaped_isSome (s : Bytes) : (dumpEscaped s).isSome = isUtf8 s := by
  unfold dumpEscaped
  split <;> simp_all

theorem isSome_bind_map {a b : Option Bytes} (f : Bytes → Bytes → Bytes) :
    (a.bind fun x => b.map (f x)).isSome = (a.isSome && b.isSome) := by
  cases a <;> simp

mutual

theorem dumpAt_isSome (number : Rat → Bytes) (indent : Option Nat) (current : Nat) :
    ∀ j : Json, (j.dumpAt number indent current).isSome = j.utf8
  | .null | .boolean true | .boolean false | .integer _ | .unsigned _ | .float _ | .discarded => by
      simp [dumpAt, utf8]
  | .string s => by simp [dumpAt, utf8, dumpEscaped_isSome]
  | .array [] => by simp [dumpAt, utf8, utf8Elements]
  | .array (value :: rest) => by
      simp [dumpAt, utf8, dumpElements_isSome number indent _ (value :: rest)]
  | .object [] => by simp [dumpAt, utf8, utf8Members]
  | .object (member :: rest) => by
      simp [dumpAt, utf8, dumpMembers_isSome number indent _ (member :: rest)]

theorem dumpElements_isSome (number : Rat → Bytes) (indent : Option Nat) (around : Layout) :
    ∀ values : List Json, (dumpElements number indent around values).isSome = utf8Elements values
  | [] => by simp [dumpElements, utf8Elements]
  | [value] => by simp [dumpElements, utf8Elements, dumpAt_isSome number indent _ value]
  | value :: next :: rest => by
      rw [dumpElements, isSome_bind_map, dumpAt_isSome number indent _ value,
        dumpElements_isSome number indent around (next :: rest), utf8Elements.eq_2 value]
      simp

theorem dumpMembers_isSome (number : Rat → Bytes) (indent : Option Nat) (around : Layout) :
    ∀ members : List (Bytes × Json),
      (dumpMembers number indent around members).isSome = utf8Members members
  | [] => by simp [dumpMembers, utf8Members]
  | [(key, value)] => by
      rw [dumpMembers, isSome_bind_map, dumpEscaped_isSome, dumpAt_isSome number indent _ value]
      simp [utf8Members]
  | (key, value) :: next :: rest => by
      have tail := dumpMembers_isSome number indent around (next :: rest)
      have head := dumpAt_isSome number indent around.inner value
      rw [dumpMembers, utf8Members, ← tail, ← head, ← dumpEscaped_isSome key]
      · cases dumpEscaped key <;> simp [isSome_bind_map]
      · simp

end

theorem dump_isSome (number : Rat → Bytes) (indent : Option Nat) (j : Json) :
    (j.dump number indent).isSome = j.utf8 := dumpAt_isSome number indent 0 j

theorem utf8Members_iff {members : List (Bytes × Json)} :
    utf8Members members = true ↔ ∀ m ∈ members, isUtf8 m.1 = true ∧ m.2.utf8 = true := by
  induction members with
  | nil => simp [utf8Members]
  | cons m rest ih => simp [utf8Members, ih, and_assoc]

theorem utf8_of_find {j value : Json} {key : Bytes} (valid : j.utf8) (h : j.find key = some value) :
    value.utf8 := by
  cases j with
  | object members => exact (utf8Members_iff.mp valid _ (Assoc.mem_of_find h)).2
  | _ => cases h

example : dump (fun _ => []) (some 4) (ofFields [(str "name", .string (str "A\"b")), (str "id", .unsigned 7)]) =
    some (str "\x7b\n    \"id\": 7,\n    \"name\": \"A\\\"b\"\n\x7d") := by decide

end Json
end Foundation
