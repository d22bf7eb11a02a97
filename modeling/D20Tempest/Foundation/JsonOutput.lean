import D20Tempest.Foundation.Json

namespace Foundation.Json

/-! ## What the serializer writes -/

/-- The text so far, and whether the serializer came to its end. It stops at a string that is not UTF-8. -/
structure Written where
  text : Bytes
  whole : Bool
  deriving DecidableEq

namespace Written

def all (text : Bytes) : Written := ⟨text, true⟩

instance : Append Written where
  append first rest := if first.whole then ⟨first.text ++ rest.text, rest.whole⟩ else first

def toOption (written : Written) : Option Bytes := if written.whole then some written.text else none

@[simp] theorem toOption_all (text : Bytes) : (all text).toOption = some text := rfl

@[simp] theorem toOption_append (first rest : Written) :
    (first ++ rest).toOption = first.toOption.bind fun text => rest.toOption.map fun more => text ++ more := by
  obtain ⟨text, whole⟩ := first
  cases whole with
  | true =>
      obtain ⟨more, whole⟩ := rest
      cases whole <;> rfl
  | false => rfl

theorem eq_of_toOption {written : Written} {text : Bytes} (same : written.toOption = some text) : written = ⟨text, true⟩ := by
  obtain ⟨bytes, whole⟩ := written
  cases whole with
  | true =>
      obtain rfl := Option.some.inj same
      rfl
  | false => cases same

theorem whole_of_toOption {written : Written} (none : written.toOption = none) : written.whole = false := by
  by_contra whole
  rw [toOption, if_pos (Bool.not_eq_false _ ▸ whole)] at none
  cases none

end Written

/-- `dump_escaped`: the buffer goes to the output when it is nearly full, and is lost with an exception. -/
def writeEscaped (state : Utf8State) (buffer : Bytes) : Bytes → Written
  | [] => if state = .accept then .all buffer else ⟨[], false⟩
  | b :: rest => match utf8Next state b with
      | none => ⟨[], false⟩
      | some .accept =>
          -- a byte of a longer character is no character to be escaped
          let buffer := buffer ++ escapeByte b
          if 512 - buffer.length < 13 then .all buffer ++ writeEscaped .accept [] rest
          else writeEscaped .accept buffer rest
      | some next => writeEscaped next (buffer ++ [b]) rest

section Write
variable (number : Rat → Bytes) (indent : Option Nat)

mutual

def writeAt (current : Nat) : Json → Written
  | .null => .all (str "null")
  | .boolean true => .all (str "true")
  | .boolean false => .all (str "false")
  | .string s => .all quote ++ writeEscaped .accept [] s ++ .all quote
  | .integer i => .all (str (toString i.toInt))
  | .unsigned n => .all (str (Nat.repr n.toNat))
  | .float x => .all (number x)
  | .array [] => .all (str "[]")
  | .array elements =>
      .all (str "[" ++ (layout indent current).opening) ++ writeElements (layout indent current) elements ++
        .all ((layout indent current).closing ++ str "]")
  | .object [] => .all (str "\x7b\x7d")
  | .object members =>
      .all (str "\x7b" ++ (layout indent current).opening) ++ writeMembers (layout indent current) members ++
        .all ((layout indent current).closing ++ str "\x7d")
  | .discarded => .all (str "<discarded>")

def writeElements (around : Layout) : List Json → Written
  | [] => .all []
  | [value] => .all around.lead ++ writeAt around.inner value
  | value :: rest =>
      .all around.lead ++ writeAt around.inner value ++ .all around.separator ++ writeElements around rest

def writeMembers (around : Layout) : List (Bytes × Json) → Written
  | [] => .all []
  | [(key, value)] =>
      .all (around.lead ++ quote) ++ writeEscaped .accept [] key ++ .all around.colon ++ writeAt around.inner value
  | (key, value) :: rest =>
      .all (around.lead ++ quote) ++ writeEscaped .accept [] key ++ .all around.colon ++ writeAt around.inner value ++
        .all around.separator ++ writeMembers around rest

end

def written (j : Json) : Written := writeAt number indent 0 j

end Write

/-! ## The whole text -/

theorem high_of_unfinished {state next : Utf8State} {b : UInt8} (step : utf8Next state b = some next) (inside : next ≠ .accept) :
    0x80 ≤ b := by
  by_contra low
  have ascii : b ≤ 0x7F := by
    rw [UInt8.le_iff_toNat_le] at low ⊢
    simp only [UInt8.reduceToNat, Nat.not_le] at low ⊢
    omega
  have below : ∀ c : UInt8, 0x80 ≤ c → ¬ c ≤ b := fun c high le => low (UInt8.le_trans high le)
  cases state with
  | accept =>
      rw [utf8Next, if_pos ascii] at step
      exact inside (Option.some.inj step).symm
  | tail1 => simp [utf8Next, below] at step
  | tail2 => simp [utf8Next, below] at step
  | tail3 => simp [utf8Next, below] at step
  | afterE0 => simp [utf8Next, below] at step
  | afterED => simp [utf8Next, below] at step
  | afterF0 => simp [utf8Next, below] at step
  | afterF4 => simp [utf8Next, below] at step

theorem toOption_writeEscaped (state : Utf8State) (buffer s : Bytes) : (writeEscaped state buffer s).toOption =
    if utf8From state s then some (buffer ++ s.flatMap escapeByte) else none := by
  induction s generalizing state buffer with
  | nil => by_cases accepts : state = .accept <;> simp [writeEscaped, utf8From, accepts, Written.toOption, Written.all]
  | cons b rest ih =>
      rw [writeEscaped, utf8From]
      cases step : utf8Next state b with
      | none => rfl
      | some next =>
          by_cases accepts : next = .accept
          · subst accepts
            simp only
            split
            · rw [Written.toOption_append, ih]
              split <;> simp
            · rw [ih]
              simp
          · have same : (writeEscaped next (buffer ++ [b]) rest).toOption =
                if utf8From next rest then some (buffer ++ (b :: rest).flatMap escapeByte) else none := by
              rw [ih, List.flatMap_cons, escapeByte_of_high (high_of_unfinished step accepts), List.append_assoc]
            cases next with
            | accept => exact absurd rfl accepts
            | _ => exact same

theorem toOption_dumpEscaped (s : Bytes) : (writeEscaped .accept [] s).toOption = dumpEscaped s := by
  rw [toOption_writeEscaped, dumpEscaped, isUtf8]
  rfl

mutual

theorem toOption_writeAt (number : Rat → Bytes) (indent : Option Nat) (current : Nat) :
    ∀ j : Json, (writeAt number indent current j).toOption = dumpAt number indent current j
  | .null | .boolean true | .boolean false | .integer _ | .unsigned _ | .float _ | .discarded => by
      simp [dumpAt, writeAt]
  | .string s => by
      rw [dumpAt, writeAt]
      cases text : dumpEscaped s <;> simp [toOption_dumpEscaped, text]
  | .array [] => by simp [dumpAt, writeAt]
  | .array (value :: rest) => by
      have inner := toOption_writeElements number indent (layout indent current) (value :: rest)
      rw [dumpAt, writeAt]
      · cases text : dumpElements number indent (layout indent current) (value :: rest) <;> simp [inner, text]
      · simp
      · simp
  | .object [] => by simp [dumpAt, writeAt]
  | .object (member :: rest) => by
      have inner := toOption_writeMembers number indent (layout indent current) (member :: rest)
      rw [dumpAt, writeAt]
      · cases text : dumpMembers number indent (layout indent current) (member :: rest) <;> simp [inner, text]
      · simp
      · simp

theorem toOption_writeElements (number : Rat → Bytes) (indent : Option Nat) (around : Layout) :
    ∀ values : List Json, (writeElements number indent around values).toOption = dumpElements number indent around values
  | [] => by simp [dumpElements, writeElements]
  | [value] => by
      have first := toOption_writeAt number indent around.inner value
      rw [dumpElements, writeElements]
      cases text : dumpAt number indent around.inner value <;> simp [first, text]
  | value :: next :: rest => by
      have first := toOption_writeAt number indent around.inner value
      have later := toOption_writeElements number indent around (next :: rest)
      rw [dumpElements, writeElements]
      · cases text : dumpAt number indent around.inner value <;>
          cases more : dumpElements number indent around (next :: rest) <;> simp [first, text, later, more]
      · simp
      · simp

theorem toOption_writeMembers (number : Rat → Bytes) (indent : Option Nat) (around : Layout) :
    ∀ members : List (Bytes × Json), (writeMembers number indent around members).toOption = dumpMembers number indent around members
  | [] => by simp [dumpMembers, writeMembers]
  | [(key, value)] => by
      have first := toOption_writeAt number indent around.inner value
      rw [dumpMembers, writeMembers]
      cases name : dumpEscaped key <;> cases text : dumpAt number indent around.inner value <;>
        simp [toOption_dumpEscaped, name, first, text]
  | (key, value) :: next :: rest => by
      have first := toOption_writeAt number indent around.inner value
      have later := toOption_writeMembers number indent around (next :: rest)
      rw [dumpMembers, writeMembers]
      · cases name : dumpEscaped key <;> cases text : dumpAt number indent around.inner value <;>
          cases more : dumpMembers number indent around (next :: rest) <;>
          simp [toOption_dumpEscaped, name, first, text, later, more]
      · simp
      · simp

end

/-- What is written to the end is the text that `dump` returns. -/
theorem toOption_written (number : Rat → Bytes) (indent : Option Nat) (j : Json) :
    (j.written number indent).toOption = j.dump number indent := toOption_writeAt number indent 0 j

/-- The opening quotation mark and what stands before it are written when the string turns out not to be UTF-8. -/
example : written (fun _ => []) (some 4) (ofFields [(str "id", .unsigned 7), (str "name", .string (str "Al" ++ [0xFF]))]) =
    ⟨str "\x7b\n    \"id\": 7,\n    \"name\": \"", false⟩ := by decide

end Foundation.Json
