import D20Tempest.Foundation.Json
import D20Tempest.Foundation.Scanner
import Mathlib.Algebra.Group.Nat.Defs

namespace Foundation.Json

/-! ## Tokens -/

/-- The tokens of the lexer without `parse_error`. A number that is no 64-bit integer has its characters, which the
lexer gives to `strtod`. -/
inductive Token where
  | literalTrue | literalFalse | literalNull
  | valueString (s : Bytes)
  | valueUnsigned (n : UInt64)
  | valueInteger (i : Int64)
  | valueFloat (buffer : Bytes)
  | beginArray | beginObject | endArray | endObject | nameSeparator | valueSeparator
  | endOfInput
  deriving DecidableEq

/-! ## Strings -/

def hexValue (b : UInt8) : Option Nat :=
  if 0x30 ≤ b ∧ b ≤ 0x39 then some (b.toNat - 0x30)
  else if 0x41 ≤ b ∧ b ≤ 0x46 then some (b.toNat - 0x37)
  else if 0x61 ≤ b ∧ b ≤ 0x66 then some (b.toNat - 0x57)
  else none

def getCodepoint : Scanner Nat := do
  let a ← .accept hexValue
  let b ← .accept hexValue
  let c ← .accept hexValue
  let d ← .accept hexValue
  return a * 0x1000 + b * 0x100 + c * 0x10 + d

/-- The bytes of a code point. The source joins the parts with `|`; they have no bits in common. -/
def encode (codepoint : Nat) : Bytes :=
  if codepoint < 0x80 then [UInt8.ofNat codepoint]
  else if codepoint ≤ 0x7FF then [UInt8.ofNat (0xC0 + codepoint / 0x40), UInt8.ofNat (0x80 + codepoint % 0x40)]
  else if codepoint ≤ 0xFFFF then
    [UInt8.ofNat (0xE0 + codepoint / 0x1000), UInt8.ofNat (0x80 + codepoint / 0x40 % 0x40),
      UInt8.ofNat (0x80 + codepoint % 0x40)]
  else
    [UInt8.ofNat (0xF0 + codepoint / 0x40000), UInt8.ofNat (0x80 + codepoint / 0x1000 % 0x40),
      UInt8.ofNat (0x80 + codepoint / 0x40 % 0x40), UInt8.ofNat (0x80 + codepoint % 0x40)]

def escaped (b : UInt8) : Option UInt8 :=
  if b = 0x22 ∨ b = 0x5C ∨ b = 0x2F then some b
  else if b = 0x62 then some 0x08
  else if b = 0x66 then some 0x0C
  else if b = 0x6E then some 0x0A
  else if b = 0x72 then some 0x0D
  else if b = 0x74 then some 0x09
  else none

/-- The ranges of the bytes that have to follow a byte that stands for itself. -/
def following (b : UInt8) : Option (List (UInt8 × UInt8)) :=
  if b ≤ 0x1F then none
  else if b ≤ 0x7F then some []
  else if 0xC2 ≤ b ∧ b ≤ 0xDF then some [(0x80, 0xBF)]
  else if b = 0xE0 then some [(0xA0, 0xBF), (0x80, 0xBF)]
  else if b = 0xED then some [(0x80, 0x9F), (0x80, 0xBF)]
  else if 0xE1 ≤ b ∧ b ≤ 0xEF then some [(0x80, 0xBF), (0x80, 0xBF)]
  else if b = 0xF0 then some [(0x90, 0xBF), (0x80, 0xBF), (0x80, 0xBF)]
  else if 0xF1 ≤ b ∧ b ≤ 0xF3 then some [(0x80, 0xBF), (0x80, 0xBF), (0x80, 0xBF)]
  else if b = 0xF4 then some [(0x80, 0x8F), (0x80, 0xBF), (0x80, 0xBF)]
  else none

def nextBytesInRange : List (UInt8 × UInt8) → Scanner Bytes
  | [] => return []
  | (lower, upper) :: ranges => do
      let b ← .accept fun b => if lower ≤ b ∧ b ≤ upper then some b else none
      let more ← nextBytesInRange ranges
      return b :: more

/-- A code point behind `\u`: one entry, or two that are a pair of surrogates. -/
def scanCodepoint : Scanner Nat := do
  let codepoint1 ← getCodepoint
  if 0xD800 ≤ codepoint1 ∧ codepoint1 ≤ 0xDBFF then
    .expect (str "\\u")
    let codepoint2 ← getCodepoint
    if 0xDC00 ≤ codepoint2 ∧ codepoint2 ≤ 0xDFFF then
      return codepoint1 * 0x400 + codepoint2 - 0x35FDC00
    else failure
  else if 0xDC00 ≤ codepoint1 ∧ codepoint1 ≤ 0xDFFF then failure
  else return codepoint1

/-- What is read first decides: the closing quote adds nothing and ends the string. -/
def scanChar (b : UInt8) : Scanner (Option Bytes) :=
  if b = 0x22 then return none
  else if b = 0x5C then do
    match ← Scanner.accept fun e => if e = 0x75 then some none else (escaped e).map some with
    | none =>
        let codepoint ← scanCodepoint
        return some (encode codepoint)
    | some c => return some [c]
  else match following b with
    | none => failure
    | some ranges => do
        let more ← nextBytesInRange ranges
        return some (b :: more)

section Local
open Scanner

theorem local_getCodepoint : Local getCodepoint :=
  (local_accept _).bind fun _ => (local_accept _).bind fun _ => (local_accept _).bind fun _ =>
    (local_accept _).bind fun _ => local_pure _

theorem local_nextBytesInRange (ranges : List (UInt8 × UInt8)) : Local (nextBytesInRange ranges) := by
  induction ranges with
  | nil => exact local_pure _
  | cons range ranges ih => exact (local_accept _).bind fun b => ih.bind fun more => local_pure _

theorem local_scanCodepoint : Local scanCodepoint := by
  apply local_getCodepoint.bind
  intro codepoint1
  split
  · apply (local_expect _).bind
    intro _
    apply local_getCodepoint.bind
    intro codepoint2
    split
    · exact local_pure _
    · exact local_failure
  · split
    · exact local_failure
    · exact local_pure _

theorem local_scanChar (b : UInt8) : Local (scanChar b) := by
  unfold scanChar
  split
  · exact local_pure _
  · split
    · apply (local_accept _).bind
      intro escape
      cases escape with
      | none => exact local_scanCodepoint.bind fun codepoint => local_pure _
      | some c => exact local_pure _
    · split
      · exact local_failure
      · exact (local_nextBytesInRange _).bind fun more => local_pure _

end Local

/-- `scan_string` behind the opening quote. -/
def scanString : Scanner Bytes
  | [] => none
  | b :: rest => match _run : scanChar b rest with
      | none => none
      | some (none, rest) => some ([], rest)
      | some (some bytes, rest) => (scanString rest).map fun (s, rest) => (bytes ++ s, rest)
termination_by text => text.length
decreasing_by
  have shorter := (local_scanChar b).shorter _run
  rw [List.length_cons]
  omega

section
variable {b : UInt8} {rest rest' bytes : Bytes}

theorem scanString_of_none (fails : scanChar b rest = none) : scanString (b :: rest) = none := by
  rw [scanString]
  split <;> simp_all

theorem scanString_of_close (reads : scanChar b rest = some (none, rest')) : scanString (b :: rest) = some ([], rest') := by
  rw [scanString]
  split <;> simp_all

theorem scanString_of_char (reads : scanChar b rest = some (some bytes, rest')) :
    scanString (b :: rest) = (scanString rest').map fun (s, rest) => (bytes ++ s, rest) := by
  rw [scanString]
  split <;> simp_all

end

/-! ## Numbers -/

inductive NumberState where
  | minus | zero | any1 | decimal1 | decimal2 | exponent | sign | any2

inductive NumberType where
  | unsigned | integer | float

def isDigit (b : UInt8) : Bool := 0x30 ≤ b && b ≤ 0x39

def NumberState.next : NumberState → UInt8 → Option NumberState
  | .minus, b => if b = 0x30 then some .zero else if isDigit b then some .any1 else none
  | .zero, b => if b = 0x2E then some .decimal1 else if b = 0x65 ∨ b = 0x45 then some .exponent else none
  | .any1, b =>
      if isDigit b then some .any1
      else if b = 0x2E then some .decimal1
      else if b = 0x65 ∨ b = 0x45 then some .exponent
      else none
  | .decimal1, b => if isDigit b then some .decimal2 else none
  | .decimal2, b => if isDigit b then some .decimal2 else if b = 0x65 ∨ b = 0x45 then some .exponent else none
  | .exponent, b => if b = 0x2B ∨ b = 0x2D then some .sign else if isDigit b then some .any2 else none
  | .sign, b => if isDigit b then some .any2 else none
  | .any2, b => if isDigit b then some .any2 else none

/-- Whether the number can end here. -/
def NumberState.done : NumberState → Bool
  | .zero | .any1 | .decimal2 | .any2 => true
  | _ => false

def NumberState.type : NumberState → NumberType → NumberType
  | .minus, _ => .integer
  | .decimal1, _ => .float
  | .exponent, _ => .float
  | _, type => type

/-- `scan_number` behind the characters that led to the state; the character after the number is read again. -/
def scanDigits (state : NumberState) (type : NumberType) : Bytes → Option (Bytes × NumberType × Bytes)
  | [] => if state.done then some ([], type, []) else none
  | b :: rest => match state.next b with
      | some next => (scanDigits next (next.type type) rest).map fun (buffer, rest) => (b :: buffer, rest)
      | none => if state.done then some ([], type, b :: rest) else none

def digitsValue (digits : Bytes) : Nat := digits.foldl (fun n b => 10 * n + (b.toNat - 0x30)) 0

/-- Integers first, and `strtod` for what is none or out of range. -/
def numberToken (type : NumberType) (buffer : Bytes) : Token := match type with
  | .unsigned => if digitsValue buffer < 2 ^ 64 then .valueUnsigned (UInt64.ofNat (digitsValue buffer)) else .valueFloat buffer
  | .integer =>
      if digitsValue buffer.tail ≤ 2 ^ 63 then .valueInteger (Int64.ofInt (-digitsValue buffer.tail))
      else .valueFloat buffer
  | .float => .valueFloat buffer

def firstState (b : UInt8) : NumberState := if b = 0x2D then .minus else if b = 0x30 then .zero else .any1

def scanNumber (b : UInt8) : Scanner Token := fun rest =>
  (scanDigits (firstState b) ((firstState b).type .unsigned) rest).map fun (buffer, type, rest) =>
    (numberToken type (b :: buffer), rest)

/-! ## Scanning -/

def scanLiteral (expected : Bytes) (token : Token) : Scanner Token := do
  .expect expected
  return token

/-- The token that begins with the byte; there is none for `parse_error`. -/
def scanToken (b : UInt8) : Scanner Token :=
  if b = 0x5B then return .beginArray
  else if b = 0x5D then return .endArray
  else if b = 0x7B then return .beginObject
  else if b = 0x7D then return .endObject
  else if b = 0x3A then return .nameSeparator
  else if b = 0x2C then return .valueSeparator
  else if b = 0x74 then scanLiteral (str "rue") .literalTrue
  else if b = 0x66 then scanLiteral (str "alse") .literalFalse
  else if b = 0x6E then scanLiteral (str "ull") .literalNull
  else if b = 0x22 then do
    let s ← scanString
    return .valueString s
  else if b = 0x2D ∨ isDigit b then scanNumber b
  else if b = 0 then return .endOfInput
  else failure

/-- `scan` without the byte order mark. -/
def scan : Scanner Token
  | [] => some (.endOfInput, [])
  | b :: rest => if isBlank b then scan rest else scanToken b rest

def skipBom : Scanner Unit := fun text => match text with
  | 0xEF :: rest => Scanner.expect [0xBB, 0xBF] rest
  | _ => some ((), text)

example : scan (str "\"\\u00e9\\uD83D\\uDE00\"]") = some (.valueString [0xC3, 0xA9, 0xF0, 0x9F, 0x98, 0x80], str "]") := by
  decide +kernel

end Foundation.Json
