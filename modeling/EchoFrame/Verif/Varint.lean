import Mathlib.Data.Nat.Notation
import Mathlib.Tactic.Common

/-! Base 128 numbers: seven bits a byte, the lowest first, and a flag on all but the last. -/
namespace Verif

def varint (n : ℕ) : List UInt8 :=
  if n < 128 then [n.toUInt8] else (n%128+128).toUInt8 :: varint (n/128)

/-- The number at the front, and what follows it. -/
def readVarint : List UInt8 → Option (ℕ × List UInt8)
  | [] => none
  | b :: bs =>
    if b.toNat < 128 then some (b.toNat, bs)
    else (readVarint bs).map fun p => (b.toNat-128+128*p.1, p.2)

theorem readVarint_varint (n : ℕ) (rest : List UInt8) :
    readVarint (varint n ++ rest) = some (n, rest) := by
  induction n using Nat.strongRecOn with
  | _ n ih =>
    unfold varint
    by_cases hlt : n < 128
    · have hbyte : n.toUInt8.toNat = n := by
        rw [Nat.toUInt8_eq, UInt8.toNat_ofNat']
        omega
      rw [if_pos hlt, List.singleton_append, readVarint, hbyte, if_pos hlt]
    · have hbyte : (n%128+128).toUInt8.toNat = n%128+128 := by
        rw [Nat.toUInt8_eq, UInt8.toNat_ofNat']
        omega
      rw [if_neg hlt, List.cons_append, readVarint, hbyte, if_neg (by omega), ih (n/128) (by omega),
        Option.map_some, Nat.add_sub_cancel, Nat.mod_add_div]

end Verif
