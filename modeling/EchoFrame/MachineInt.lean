import Mathlib.Algebra.Ring.Nat
import Mathlib.Tactic.Common

/-! The unsigned machine integers of the source, as natural numbers that wrap. -/
namespace EchoFrame

abbrev Byte := UInt8

def u32 (n : ℕ) : ℕ := n%2^32

theorem u32_lt (n : ℕ) : u32 n < 2^32 := Nat.mod_lt _ (by decide)

theorem u32_of_lt {n : ℕ} (h : n < 2^32) : u32 n = n := Nat.mod_eq_of_lt h

theorem u32_add_wrap {a b : ℕ} (ha : a < 2^32) (hb : b < 2^32) (h : 2^32 ≤ a+b) :
    u32 (a+b) = a+b-2^32 := by
  unfold u32
  omega

/-- A difference that wraps. -/
theorem toNat_sub_of_lt {a b : UInt32} (h : a < b) : (a - b).toNat = 2^32+a.toNat-b.toNat := by
  have hlt := UInt32.lt_iff_toNat_lt.mp h
  have hb := b.toNat_lt
  rw [UInt32.toNat_sub, Nat.mod_eq_of_lt (by omega)]
  omega

end EchoFrame
