import D20Tempest.Foundation.Json
import Mathlib.Algebra.Order.Ring.Rat
import Mathlib.Tactic.Linarith

namespace Foundation.Json

/-! ## Numbers of a document, exactly -/

def numeric : Json → Option Rat
  | .integer i => some i.toInt
  | .unsigned n => some n.toNat
  | .float x => some x
  | _ => none

theorem numeric_toInt64 (v : Int32) : numeric (.integer v.toInt64) = some (v.toInt : Rat) := by
  rw [numeric, Int32.toInt_toInt64]

/-- A number without a fraction from `lo` up to, and not including, `hi`. -/
def Whole (lo hi : Int) (j : Json) : Prop := ∃ n : Int, lo ≤ n ∧ n < hi ∧ j.numeric = some (n : Rat)

theorem truncate_intCast (n : Int) : truncate (n : Rat) = n := by
  rw [truncate, Rat.num_intCast, Rat.den_intCast]
  exact Int.tdiv_one n

theorem whole_integer {lo hi : Int} {i : Int64} : Whole lo hi (.integer i) ↔ lo ≤ i.toInt ∧ i.toInt < hi := by
  simp only [Whole, numeric, Option.some.injEq, Int.cast_inj]
  constructor
  · intro whole
    obtain ⟨n, low, high, rfl⟩ := whole
    exact ⟨low, high⟩
  · intro range
    exact ⟨i.toInt, range.1, range.2, rfl⟩

theorem whole_unsigned {lo hi : Int} {n : UInt64} : Whole lo hi (.unsigned n) ↔ lo ≤ n.toNat ∧ (n.toNat : Int) < hi := by
  have cast : numeric (.unsigned n) = some ((n.toNat : Int) : Rat) := by
    rw [numeric, Int.cast_natCast]
  simp only [Whole, cast, Option.some.injEq, Int.cast_inj]
  constructor
  · intro whole
    obtain ⟨m, low, high, rfl⟩ := whole
    exact ⟨low, high⟩
  · intro range
    exact ⟨n.toNat, range.1, range.2, rfl⟩

theorem toInt_toInt32_eq_iff (i : Int64) : i.toInt32.toInt = i.toInt ↔ -2 ^ 31 ≤ i.toInt ∧ i.toInt < 2 ^ 31 := by
  constructor
  · intro same
    rw [← same]
    exact ⟨i.toInt32.le_toInt, i.toInt32.toInt_lt⟩
  · intro range
    rw [Int64.toInt_toInt32]
    exact Int.bmod_eq_of_le (by omega) (by omega)

theorem toInt_toInt32_unsigned_eq_iff (n : UInt64) :
    n.toUInt32.toInt32.toInt = n.toNat ↔ (n.toNat : Int) < 2 ^ 31 := by
  constructor
  · intro same
    rw [← same]
    exact n.toUInt32.toInt32.toInt_lt
  · intro small
    have kept : n.toUInt32.toNat = n.toNat := by
      rw [UInt64.toNat_toUInt32]
      omega
    have bits : n.toUInt32.toInt32.toInt = (n.toUInt32.toNat : Int).bmod (2 ^ 32) :=
      BitVec.toInt_eq_toNat_bmod n.toUInt32.toBitVec
    rw [bits, kept]
    exact Int.bmod_eq_of_le (by omega) (by omega)

theorem toNat_toUInt64_eq_iff (i : Int64) : (i.toUInt64.toNat : Int) = i.toInt ↔ 0 ≤ i.toInt := by
  have bits : i.toInt = if 2 * i.toUInt64.toNat < 2 ^ 64 then (i.toUInt64.toNat : Int) else i.toUInt64.toNat - (2 ^ 64 : Nat) :=
    BitVec.toInt_eq_toNat_cond i.toBitVec
  have bound : i.toUInt64.toNat < 2 ^ 64 := i.toUInt64.toNat_lt
  rw [bits]
  split <;> omega

theorem truncate_eq_iff {x : Rat} {lo hi : Int} (low : lo ≤ truncate x) (high : truncate x < hi) :
    ((truncate x : Int) : Rat) = x ↔ Whole lo hi (.float x) := by
  simp only [Whole, numeric, Option.some.injEq]
  constructor
  · intro same
    exact ⟨truncate x, low, high, same.symm⟩
  · intro whole
    obtain ⟨n, -, -, rfl⟩ := whole
    rw [truncate_intCast]

theorem getInt_exact_iff {j : Json} {v : Int32} (read : j.getInt = .ok v) :
    j.numeric = some (v.toInt : Rat) ↔ Whole (-2 ^ 31) (2 ^ 31) j := by
  cases j with
  | integer i =>
      obtain rfl := Except.ok.inj read
      rw [whole_integer, ← toInt_toInt32_eq_iff, numeric, Option.some.injEq, Int.cast_inj, eq_comm]
  | unsigned n =>
      obtain rfl := Except.ok.inj read
      have exact := toInt_toInt32_unsigned_eq_iff n
      rw [whole_unsigned, numeric, Option.some.injEq, ← Int.cast_natCast, Int.cast_inj, eq_comm, exact]
      exact (and_iff_right (by omega)).symm
  | float x =>
      simp only [getInt] at read
      split at read
      · rename_i range
        obtain rfl := Except.ok.inj read
        rw [← truncate_eq_iff range.1 range.2, Int32.toInt_ofInt_of_le range.1 range.2, numeric, Option.some.injEq, eq_comm]
      · cases read
  | boolean b => simp [numeric, Whole]
  | _ => cases read

theorem getUInt64_exact_iff {j : Json} {n : UInt64} (read : j.getUInt64 = .ok n) :
    j.numeric = some (n.toNat : Rat) ↔ Whole 0 (2 ^ 64) j := by
  cases j with
  | integer i =>
      obtain rfl := Except.ok.inj read
      have small := i.toInt_lt
      rw [whole_integer, numeric, Option.some.injEq, ← Int.cast_natCast, Int.cast_inj, eq_comm, toNat_toUInt64_eq_iff]
      exact (and_iff_left (by omega)).symm
  | unsigned m =>
      obtain rfl := Except.ok.inj read
      have bound := m.toNat_lt
      rw [whole_unsigned, numeric]
      exact iff_of_true rfl (by omega)
  | float x =>
      simp only [getUInt64] at read
      split at read
      · rename_i range
        obtain rfl := Except.ok.inj read
        have small : (truncate x).toNat < UInt64.size := by
          have bound := range.2
          rw [UInt64.size]
          omega
        have kept : ((UInt64.ofNat (truncate x).toNat).toNat : Rat) = ((truncate x : Int) : Rat) := by
          rw [UInt64.toNat_ofNat_of_lt' small, ← Int.cast_natCast, Int.toNat_of_nonneg range.1]
        rw [← truncate_eq_iff range.1 range.2, kept, numeric, Option.some.injEq, eq_comm]
      · cases read
  | _ => cases read

end Foundation.Json
