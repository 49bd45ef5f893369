import Mathlib.Algebra.Group.Int.Defs
import Mathlib.Algebra.GroupWithZero.Nat
import Mathlib.Data.Int.Basic

/-!
# BeanRaft.Lib.CInt — the conversions between the integer types of a 64-bit C++ program

`int32` and `int64` take an integer to the two's-complement value of its low bits, `uint32` and `uint64` to its
residue.  On a value that the type holds they are the identity.
-/

namespace BeanRaft.CInt

def int32 (x : Int) : Int := x.bmod (2 ^ 32)

def int64 (x : Int) : Int := x.bmod (2 ^ 64)

def uint32 (x : Int) : Nat := (x % 2 ^ 32).toNat

def uint64 (x : Int) : Nat := (x % 2 ^ 64).toNat

def INT_MAX : Int := 2 ^ 31 - 1

def INT_MIN : Int := -2 ^ 31

def LLONG_MAX : Int := 2 ^ 63 - 1

/-- The result of a signed operation on `int`; `none` is an overflow. -/
def intResult (x : Int) : Option Int := if INT_MIN ≤ x ∧ x ≤ INT_MAX then some x else none

theorem intResult_eq_some {x y : Int} : intResult x = some y ↔ (INT_MIN ≤ x ∧ x ≤ INT_MAX) ∧ x = y := by
  unfold intResult
  rw [Option.ite_none_right_eq_some, Option.some.injEq]

theorem int32_of_range {x : Int} (h1 : -2 ^ 31 ≤ x) (h2 : x < 2 ^ 31) : int32 x = x := by
  simp only [int32, Int.bmod]
  split <;> omega

theorem int32_of_intResult {x y : Int} (h : intResult x = some y) : int32 x = y := by
  obtain ⟨⟨h1, h2⟩, rfl⟩ := intResult_eq_some.mp h
  unfold INT_MIN at h1
  unfold INT_MAX at h2
  exact int32_of_range h1 (by omega)

theorem int32_range (x : Int) : -2 ^ 31 ≤ int32 x ∧ int32 x < 2 ^ 31 := by
  simp only [int32, Int.bmod]
  split <;> omega

theorem int64_of_range {x : Int} (h1 : -2 ^ 63 ≤ x) (h2 : x < 2 ^ 63) : int64 x = x := by
  simp only [int64, Int.bmod]
  split <;> omega

theorem uint32_of_range {x : Int} (h1 : 0 ≤ x) (h2 : x < 2 ^ 32) : uint32 x = x.toNat := by
  unfold uint32
  rw [Int.emod_eq_of_lt h1 h2]

theorem uint64_of_range {x : Int} (h1 : 0 ≤ x) (h2 : x < 2 ^ 64) : uint64 x = x.toNat := by
  unfold uint64
  rw [Int.emod_eq_of_lt h1 h2]

end BeanRaft.CInt
