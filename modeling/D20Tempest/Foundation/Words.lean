import D20Tempest.Foundation.Bytes
import Mathlib.Tactic.IntervalCases

namespace Foundation

def loadWord (bigEndian : Bool) : Bytes → UInt32
  | b₀ :: b₁ :: b₂ :: b₃ :: _ =>
      if bigEndian then b₀.toUInt32 <<< 24 ||| b₁.toUInt32 <<< 16 ||| b₂.toUInt32 <<< 8 ||| b₃.toUInt32
      else b₃.toUInt32 <<< 24 ||| b₂.toUInt32 <<< 16 ||| b₁.toUInt32 <<< 8 ||| b₀.toUInt32
  | _ => 0

def storeWord (bigEndian : Bool) (x : UInt32) : Bytes :=
  let bytes := [(x >>> 24).toUInt8, (x >>> 16).toUInt8, (x >>> 8).toUInt8, x.toUInt8]
  if bigEndian then bytes else bytes.reverse

def ntohl (bigEndian : Bool) (x : UInt32) : UInt32 :=
  if bigEndian then x
  else x <<< 24 ||| (x &&& (0xFF00 : UInt32)) <<< 8 ||| ((x >>> 8) &&& (0xFF00 : UInt32)) ||| x >>> 24

def htonl (bigEndian : Bool) (x : UInt32) : UInt32 := ntohl bigEndian x

theorem ntohl_loadWord (bigEndian : Bool) (data : Bytes) :
    ntohl bigEndian (loadWord bigEndian data) = loadWord true data := by
  cases bigEndian with
  | true => rfl
  | false =>
      rcases data with _ | ⟨b₀, _ | ⟨b₁, _ | ⟨b₂, _ | ⟨b₃, rest⟩⟩⟩⟩
      iterate 4 simp [ntohl, loadWord]
      simp only [ntohl, loadWord, Bool.false_eq_true, ↓reduceIte]
      apply UInt32.toBitVec_inj.mp
      ext i bound
      simp
      interval_cases i <;> simp

theorem storeWord_loadWord (b₀ b₁ b₂ b₃ : UInt8) (rest : Bytes) :
    storeWord true (loadWord true (b₀ :: b₁ :: b₂ :: b₃ :: rest)) = [b₀, b₁, b₂, b₃] := by
  simp only [storeWord, loadWord, ↓reduceIte, List.cons.injEq, and_true]
  refine ⟨?_, ?_, ?_, ?_⟩
  iterate 3
    · apply UInt8.toBitVec_inj.mp
      ext i bound
      simp
      interval_cases i <;> simp
  · apply UInt8.toBitVec_inj.mp
    ext i bound
    simp

/-- Whatever the byte order of the machine, a word in network order is read as its bytes say. -/
theorem ntohl_loadWord_eq_iff (bigEndian : Bool) {data : Bytes} (long : 4 ≤ data.length)
    (b₀ b₁ b₂ b₃ : UInt8) :
    ntohl bigEndian (loadWord bigEndian data) = loadWord true [b₀, b₁, b₂, b₃] ↔
      data.take 4 = [b₀, b₁, b₂, b₃] := by
  rw [ntohl_loadWord]
  rcases data with _ | ⟨a₀, _ | ⟨a₁, _ | ⟨a₂, _ | ⟨a₃, rest⟩⟩⟩⟩
  iterate 4 simp at long
  have loaded : loadWord true (a₀ :: a₁ :: a₂ :: a₃ :: rest) = loadWord true [a₀, a₁, a₂, a₃] := rfl
  have first : (a₀ :: a₁ :: a₂ :: a₃ :: rest).take 4 = [a₀, a₁, a₂, a₃] := rfl
  rw [loaded, first]
  constructor
  · intro same
    rw [← storeWord_loadWord a₀ a₁ a₂ a₃ [], same, storeWord_loadWord]
  · intro same
    rw [same]

end Foundation
