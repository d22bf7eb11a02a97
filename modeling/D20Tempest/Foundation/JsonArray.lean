import D20Tempest.Foundation.Json
import Mathlib.Algebra.Group.Nat.Defs

namespace Foundation.Json

/-! ## Values under an index -/

/-- The most elements that a `std::vector` of the machine holds, which `size_t` has to count. -/
structure MaxSize where
  size : Nat
  counted : size < 2 ^ 64

def elements : Json → Except Fault (List Json)
  | .null => .ok []
  | .array elements => .ok elements
  | _ => .error .typeError

/-- `idx - size + 1` where the index is not below the size. -/
def missing (size : Nat) (idx : UInt64) : Nat :=
  if UInt64.ofNat size ≤ idx then (idx - UInt64.ofNat size + 1).toNat else 0

/-- `dat[idx] = value`: an array that is too short is filled up with nulls first. -/
def assignElement (limit : MaxSize) (dat : Json) (idx : UInt64) (value : Json) : Except Fault Json := do
  let elements ← dat.elements
  let count := missing elements.length idx
  if limit.size < elements.length + count then
    throw .lengthError
  let filled := elements ++ List.replicate count null
  if idx.toNat < filled.length then
    return .array (filled.set idx.toNat value)
  -- the vector's own `operator[]` does not check
  throw .outOfRange

def element (dat : Json) (idx : UInt64) : Option Json := match dat with
  | .array elements => elements[idx.toNat]?
  | _ => none

/-- A value that was absent, and may have been filled up with null. -/
def Padded (before after : Option Json) : Prop := after = before ∨ (before = none ∧ after = some null)

theorem Padded.trans {x y z : Option Json} (first : Padded x y) (second : Padded y z) : Padded x z := by
  rcases second with rfl | ⟨rfl, rfl⟩
  · exact first
  · rcases first with rfl | ⟨-, there⟩
    · exact .inr ⟨rfl, rfl⟩
    · cases there

def Holds (limit : MaxSize) (dat : Json) : Prop := ∃ elements, dat.elements = .ok elements ∧ elements.length ≤ limit.size

variable {limit : MaxSize} {dat : Json} {idx : UInt64} {value : Json}

theorem element_of_elements {elements : List Json} (held : dat.elements = .ok elements) (idx : UInt64) :
    dat.element idx = elements[idx.toNat]? := by
  cases dat with
  | null =>
      cases held
      rfl
  | array entries =>
      cases held
      rfl
  | _ => cases held

theorem missing_of_le {size : Nat} (counted : size < 2 ^ 64) (le : size ≤ idx.toNat) :
    missing size idx = (idx.toNat - size + 1) % 2 ^ 64 := by
  have word : (UInt64.ofNat size).toNat = size := UInt64.toNat_ofNat_of_lt' counted
  have below : UInt64.ofNat size ≤ idx := UInt64.le_iff_toNat_le.mpr (word.symm ▸ le)
  rw [missing, if_pos below, UInt64.toNat_add, UInt64.toNat_sub_of_le _ _ below, word]
  rfl

theorem missing_of_lt {size : Nat} (counted : size < 2 ^ 64) (lt : idx.toNat < size) : missing size idx = 0 := by
  have word : (UInt64.ofNat size).toNat = size := UInt64.toNat_ofNat_of_lt' counted
  rw [missing, if_neg]
  rw [UInt64.le_iff_toNat_le, word]
  omega

theorem element_filled {elements : List Json} {count : Nat} {other : UInt64} (ne : other ≠ idx) : Padded elements[other.toNat]?
      (element (.array ((elements ++ List.replicate count null).set idx.toNat value)) other) := by
  have apart : idx.toNat ≠ other.toNat := fun same => ne (UInt64.toNat_inj.mp same.symm)
  rw [element, List.getElem?_set_ne apart]
  by_cases within : other.toNat < elements.length
  · exact .inl (List.getElem?_append_left within)
  · rw [List.getElem?_append_right (Nat.not_lt.mp within), List.getElem?_eq_none (Nat.not_lt.mp within),
      List.getElem?_replicate]
    split
    · exact .inr ⟨rfl, rfl⟩
    · exact .inl rfl

theorem assignElement_of_lt (value : Json) (holds : Holds limit dat) (small : idx.toNat < limit.size) :
    ∃ after, dat.assignElement limit idx value = .ok after ∧ Holds limit after ∧ after.element idx = some value ∧
      ∀ other, other ≠ idx → Padded (dat.element other) (after.element other) := by
  obtain ⟨elements, held, short⟩ := holds
  have counted := limit.counted
  have long : idx.toNat < elements.length + missing elements.length idx ∧
      elements.length + missing elements.length idx ≤ limit.size := by
    by_cases le : elements.length ≤ idx.toNat
    · rw [missing_of_le (by omega) le]
      omega
    · rw [missing_of_lt (by omega) (by omega)]
      omega
  obtain ⟨within, fits⟩ := long
  have filled : idx.toNat < (elements ++ List.replicate (missing elements.length idx) null).length := by
    rwa [List.length_append, List.length_replicate]
  refine ⟨.array ((elements ++ List.replicate (missing elements.length idx) null).set idx.toNat value), ?_, ?_, ?_, ?_⟩
  · rw [assignElement, held]
    simp only [if_neg (Nat.not_lt.mpr fits), if_pos filled, bind, Except.bind]
    rfl
  · exact ⟨_, rfl, by simpa using fits⟩
  · rw [element, List.getElem?_set_self filled]
  · intro other ne
    rw [element_of_elements held]
    exact element_filled ne

theorem assignElement_of_ge (value : Json) (holds : Holds limit dat) (large : limit.size ≤ idx.toNat) :
    ∃ e, dat.assignElement limit idx value = .error e := by
  obtain ⟨elements, held, short⟩ := holds
  have counted := limit.counted
  have bound := idx.toNat_lt
  have count : missing elements.length idx = _ := missing_of_le (by omega) (by omega)
  rw [assignElement, held]
  simp only [bind, Except.bind]
  by_cases long : limit.size < elements.length + missing elements.length idx
  · exact ⟨.lengthError, by rw [if_pos long]; rfl⟩
  · have outside : ¬ idx.toNat < (elements ++ List.replicate (missing elements.length idx) null).length := by
      rw [List.length_append, List.length_replicate]
      omega
    exact ⟨.outOfRange, by rw [if_neg long, if_neg outside]; rfl⟩

end Foundation.Json
