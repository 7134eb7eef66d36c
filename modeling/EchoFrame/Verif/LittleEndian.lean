import Mathlib.Data.List.Basic
import Mathlib.Tactic.Common
import Mathlib.Tactic.Ring

/-! Unsigned integers in little-endian byte order. -/
namespace Verif

/-- The `k` low bytes of `n`, lowest first. -/
def leBytes : ℕ → ℕ → List UInt8
  | 0, _ => []
  | k+1, n => UInt8.ofNat n :: leBytes k (n/256)

/-- The integer that the bytes spell, lowest first. -/
def leNat : List UInt8 → ℕ
  | [] => 0
  | b :: bs => b.toNat+256*leNat bs

def readLe (k : ℕ) (bs : List UInt8) : Option (ℕ × List UInt8) :=
  if k ≤ bs.length then some (leNat (bs.take k),bs.drop k) else none

@[simp] theorem length_leBytes (k n : ℕ) : (leBytes k n).length = k := by
  induction k generalizing n with
  | zero => rfl
  | succ k ih => rw [leBytes, List.length_cons, ih]

@[simp] theorem leNat_leBytes (k n : ℕ) : leNat (leBytes k n) = n%256^k := by
  induction k generalizing n with
  | zero => rw [leBytes, leNat, pow_zero, Nat.mod_one]
  | succ k ih =>
    calc leNat (leBytes (k+1) n) = n%256+256*(n/256%256^k) := by
          rw [leBytes, leNat, ih, UInt8.toNat_ofNat']
      _ = n%(256*256^k) := (Nat.mod_mul ..).symm
      _ = n%256^(k+1) := by rw [pow_succ']

@[simp] theorem leBytes_zero (k : ℕ) : leBytes k 0 = List.replicate k 0 := by
  induction k with
  | zero => rfl
  | succ k ih =>
    rw [leBytes, Nat.zero_div, ih]
    rfl

theorem readLe_append (k n : ℕ) (bs : List UInt8) :
    readLe k (leBytes k n ++ bs) = some (n%256^k,bs) := by
  have hlen := length_leBytes k n
  rw [readLe, if_pos (by rw [List.length_append, hlen]; exact Nat.le_add_right _ _),
    List.take_append_of_le_length hlen.ge, List.take_of_length_le hlen.le, leNat_leBytes,
    List.drop_append_of_le_length hlen.ge, List.drop_of_length_le hlen.le, List.nil_append]

theorem length_of_readLe {k n : ℕ} {bs rest : List UInt8} (h : readLe k bs = some (n,rest)) :
    bs.length = k+rest.length := by
  unfold readLe at h
  split at h
  · obtain ⟨-, rfl⟩ := Prod.mk.inj (Option.some.inj h)
    rw [List.length_drop]
    omega
  · cases h

theorem leNat_lt (bs : List UInt8) : leNat bs < 256^bs.length := by
  induction bs with
  | nil => exact Nat.one_pos
  | cons b bs ih =>
    have hb := b.toNat_lt
    rw [leNat, List.length_cons, pow_succ']
    omega

@[simp] theorem leBytes_leNat (bs : List UInt8) : leBytes bs.length (leNat bs) = bs := by
  induction bs with
  | nil => rfl
  | cons b bs ih =>
    have hb := b.toNat_lt
    have hdiv : (b.toNat+256*leNat bs)/256 = leNat bs := by omega
    have hlow : UInt8.ofNat (b.toNat+256*leNat bs) = b := by
      apply UInt8.toNat_inj.mp
      rw [UInt8.toNat_ofNat']
      omega
    rw [List.length_cons, leNat, leBytes, hdiv, hlow, ih]

/-- What was read is what stands at the front. -/
theorem append_of_readLe {k n : ℕ} {bs rest : List UInt8} (h : readLe k bs = some (n,rest)) :
    bs = leBytes k n ++ rest ∧ n < 256^k := by
  unfold readLe at h
  split at h
  · next hk =>
    obtain ⟨rfl, rfl⟩ := Prod.mk.inj (Option.some.inj h)
    have hlen : (bs.take k).length = k := by rw [List.length_take, Nat.min_eq_left hk]
    have hback := leBytes_leNat (bs.take k)
    have hlt := leNat_lt (bs.take k)
    rw [hlen] at hback hlt
    exact ⟨by rw [hback, List.take_append_drop], hlt⟩
  · cases h

/-- UInt8s that are replaced by zeros from some place on spell no more than before. -/
theorem leNat_take_append_zeros_le (xs : List UInt8) (k n : ℕ) :
    leNat (xs.take k ++ List.replicate n 0) ≤ leNat xs := by
  have hzeros (n : ℕ) : leNat (List.replicate n 0) = 0 := by
    induction n with
    | zero => rfl
    | succ n ih => rw [List.replicate_succ, leNat, ih]; rfl
  induction xs generalizing k with
  | nil =>
    rw [List.take_nil, List.nil_append, hzeros]
    exact Nat.zero_le _
  | cons b xs ih =>
    cases k with
    | zero =>
      rw [List.take_zero, List.nil_append, hzeros]
      exact Nat.zero_le _
    | succ k =>
      rw [List.take_succ_cons, List.cons_append, leNat, leNat]
      have hle := ih k
      omega

end Verif
