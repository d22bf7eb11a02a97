import Mathlib.Order.Defs.LinearOrder
import Mathlib.Data.List.DropRight
import Mathlib.Data.List.Forall2
import Mathlib.Data.List.Lex

namespace Foundation

abbrev Bytes := List UInt8

def str (s : String) : Bytes := s.toList.flatMap String.utf8EncodeChar

instance instLinearOrderByte : LinearOrder UInt8 where
  le_refl := UInt8.le_refl
  le_trans _ _ _ := UInt8.le_trans
  le_antisymm _ _ := UInt8.le_antisymm
  le_total := UInt8.le_total
  lt_iff_le_not_ge a b := by simp only [UInt8.le_iff_toNat_le, UInt8.lt_iff_toNat_lt]; omega
  toDecidableLE := inferInstance

instance instLinearOrderWord : LinearOrder UInt64 where
  le_refl := UInt64.le_refl
  le_trans _ _ _ := UInt64.le_trans
  le_antisymm _ _ := UInt64.le_antisymm
  le_total := UInt64.le_total
  lt_iff_le_not_ge a b := by simp only [UInt64.le_iff_toNat_le, UInt64.lt_iff_toNat_lt]; omega
  toDecidableLE := inferInstance

def toupper (b : UInt8) : UInt8 := if 0x61 ≤ b ∧ b ≤ 0x7A then b - 0x20 else b

def upperCase (s : Bytes) : Bytes := s.map toupper

def SameLetter (a b : UInt8) : Prop :=
  a = b ∨ (0x41 ≤ a ∧ a ≤ 0x5A ∧ b = a + 0x20) ∨ (0x41 ≤ b ∧ b ≤ 0x5A ∧ a = b + 0x20)

instance (a b : UInt8) : Decidable (SameLetter a b) := by unfold SameLetter; infer_instance

def EqualUpToCase (s t : Bytes) : Prop := List.Forall₂ SameLetter s t

instance (s t : Bytes) : Decidable (EqualUpToCase s t) := by unfold EqualUpToCase; infer_instance

theorem toupper_eq_iff (a b : UInt8) : toupper a = toupper b ↔ SameLetter a b := by
  have lowered : ∀ c : UInt8, 0x61 ≤ c ∧ c ≤ 0x7A → (c - 0x20).toNat = c.toNat - 32 := by
    intro c letter
    exact UInt8.toNat_sub_of_le c 0x20 (UInt8.le_trans (by decide) letter.1)
  simp only [toupper, SameLetter, UInt8.le_iff_toNat_le, ← UInt8.toNat_inj, UInt8.toNat_add] at lowered ⊢
  have boundA := a.toNat_lt
  have boundB := b.toNat_lt
  split <;> split
  · rw [lowered a ‹_›, lowered b ‹_›]
    simp at *
    omega
  · rw [lowered a ‹_›]
    simp at *
    omega
  · rw [lowered b ‹_›]
    simp at *
    omega
  · simp at *
    omega

theorem upperCase_eq_iff (s t : Bytes) : upperCase s = upperCase t ↔ EqualUpToCase s t := by
  rw [upperCase, upperCase, ← List.forall₂_eq_eq_eq, List.forall₂_map_left_iff, List.forall₂_map_right_iff]
  simp only [toupper_eq_iff]
  rfl

/-! ## White space -/

def isBlank (b : UInt8) : Bool := b = 0x20 || b = 0x09 || b = 0x0A || b = 0x0D

def trim (text : Bytes) : Bytes := (text.dropWhile isBlank).rdropWhile isBlank

theorem trim_blanks {before after : Bytes} (first : ∀ b ∈ before, isBlank b) (last : ∀ b ∈ after, isBlank b)
    (text : Bytes) : trim (before ++ text ++ after) = trim text := by
  rw [trim, trim, List.append_assoc, List.dropWhile_append_of_pos first, List.dropWhile_append]
  cases rest : text.dropWhile isBlank with
  | nil =>
      have none : after.dropWhile isBlank = [] := List.dropWhile_eq_nil_iff.mpr last
      simp [none]
  | cons b more =>
      have reversed : ∀ b ∈ after.reverse, isBlank b := fun b mem => last b (List.mem_reverse.mp mem)
      simp only [List.isEmpty_cons, Bool.false_eq_true, ↓reduceIte, List.rdropWhile, List.reverse_append]
      rw [List.dropWhile_append_of_pos reversed]

theorem trim_nul (rest : Bytes) : (trim (0 :: rest)).head? = some 0 := by
  have kept : (0 :: rest).dropWhile isBlank = 0 :: rest := rfl
  rw [trim, kept]
  obtain ⟨tail, eq⟩ := List.rdropWhile_prefix (p := isBlank) (0 :: rest)
  cases text : (0 :: rest).rdropWhile isBlank with
  | nil => simpa [isBlank] using List.rdropWhile_eq_nil_iff.mp text 0 (by simp)
  | cons b more =>
      rw [text, List.cons_append, List.cons.injEq] at eq
      rw [eq.1, List.head?_cons]

/-! ## UTF-8 -/

inductive Utf8State where
  | accept | tail1 | tail2 | tail3 | afterE0 | afterED | afterF0 | afterF4
  deriving DecidableEq

def utf8Next : Utf8State → UInt8 → Option Utf8State
  | .accept, b =>
      if b ≤ 0x7F then some .accept
      else if 0xC2 ≤ b ∧ b ≤ 0xDF then some .tail1
      else if b = 0xE0 then some .afterE0
      else if b = 0xED then some .afterED
      else if 0xE1 ≤ b ∧ b ≤ 0xEF then some .tail2
      else if b = 0xF0 then some .afterF0
      else if 0xF1 ≤ b ∧ b ≤ 0xF3 then some .tail3
      else if b = 0xF4 then some .afterF4
      else none
  | .tail1, b => if 0x80 ≤ b ∧ b ≤ 0xBF then some .accept else none
  | .tail2, b => if 0x80 ≤ b ∧ b ≤ 0xBF then some .tail1 else none
  | .tail3, b => if 0x80 ≤ b ∧ b ≤ 0xBF then some .tail2 else none
  | .afterE0, b => if 0xA0 ≤ b ∧ b ≤ 0xBF then some .tail1 else none
  | .afterED, b => if 0x80 ≤ b ∧ b ≤ 0x9F then some .tail1 else none
  | .afterF0, b => if 0x90 ≤ b ∧ b ≤ 0xBF then some .tail2 else none
  | .afterF4, b => if 0x80 ≤ b ∧ b ≤ 0x8F then some .tail2 else none

def utf8From : Utf8State → Bytes → Bool
  | state, [] => state = .accept
  | state, b :: rest => match utf8Next state b with
      | some next => utf8From next rest
      | none => false

def isUtf8 (s : Bytes) : Bool := utf8From .accept s

end Foundation
