import EchoFrame.CheckedCasts
import EchoFrame.TimeoutMap
import Mathlib.Algebra.Ring.Nat
import Mathlib.Data.Fintype.Card
import Mathlib.Data.List.Perm.Subperm

/-! The element that `random` of a `MyTimeoutMap` picks. -/
namespace EchoFrame
open Verif Std

def MyCast.toUInt32 (v : UInt64) : UInt32 := if 0xFFFFFFFF < v then 0 else v.toUInt32

open IntegralType in
/-- It is the conversion between the integral types of that name. -/
theorem MyCast.toNat_toUInt32 (v : UInt64) (hv : unsignedLong.format.Holds v.toNat) :
    ((MyCast.toUInt32 v).toNat : ℤ) =
      (MyCast.toValue unsignedInt (⟨v.toNat, hv⟩ : unsignedLong.Value)).val := by
  have hnonneg : (0:ℤ) ≤ v.toNat := Int.natCast_nonneg v.toNat
  rw [(MyCast.toValue_eq_checked_iff _).mpr (MyCast.converts_of_unsigned rfl hnonneg), MyCast.toUInt32]
  have hmax : unsignedInt.format.max = 2^32-1 := by decide
  by_cases hlt : 0xFFFFFFFF < v
  · have hgt : 2^32-1 < v.toNat := UInt64.lt_iff_toNat_lt.mp hlt
    rw [if_pos hlt, MyCast.checked_of_not_holds]
    · rfl
    · intro h
      have hle := h.2
      rw [hmax] at hle
      dsimp only at hle
      omega
  · have hle : v.toNat ≤ 2^32-1 := by
      rw [UInt64.lt_iff_toNat_lt] at hlt
      exact Nat.le_of_not_lt hlt
    have hholds : unsignedInt.format.Holds v.toNat := by
      refine ⟨hnonneg, ?_⟩
      rw [hmax]
      omega
    rw [if_neg hlt, MyCast.checked_of_holds hholds, UInt64.toNat_toUInt32]
    dsimp only
    omega

namespace MyTimeoutMap

variable {κ ν : Type} {cmp : κ → κ → Ordering}

/-- The upper end of the interval that `random` requests a number from. -/
def randomMax (m : MyTimeoutMap κ ν cmp) : UInt32 :=
  MyCast.toUInt32 (UInt64.ofNat m.keys_.size - 1)

variable [TransCmp cmp]

/-- `random` with the number that the generator gave, `none` where the iterator is advanced
past the last element. -/
def random (m : MyTimeoutMap κ ν cmp) (idx : UInt32) : Option (Option ν) :=
  if m.values_.isEmpty then some none else (m.values_.toList[idx.toNat]?).map (·.2.v_)

def elements (m : MyTimeoutMap κ ν cmp) : List (Option ν) := m.values_.toList.map (·.2.v_)

/-- Every number of the interval gives an element, and some number gives the value of a key. -/
structure Samples (m : MyTimeoutMap κ ν cmp) : Prop where
  inRange : ∀ idx ≤ m.randomMax, m.random idx ≠ none
  reaches : ∀ (k : κ) (w : ValueWrapper ν), m.values_[k]? = some w →
    ∃ idx ≤ m.randomMax, m.random idx = some w.v_

variable {m : MyTimeoutMap κ ν cmp}

omit [TransCmp cmp] in
theorem size_keys_le (m : MyTimeoutMap κ ν cmp) : m.keys_.size ≤ 2^32 := by
  have hnodup : (m.keys_.keys.map UInt32.toFin).Nodup := by
    rw [List.Nodup, List.pairwise_map]
    apply ExtTreeMap.distinct_keys.imp
    intro a b hne heq
    exact hne (Std.compare_eq_iff_eq.mpr (UInt32.toFin_inj.mp heq))
  have hcard := hnodup.length_le_card
  rw [List.length_map, ExtTreeMap.length_keys, Fintype.card_fin] at hcard
  exact hcard

omit [TransCmp cmp] in
/-- Without buckets the interval is that of one bucket, the cast gives 0 for what is too big. -/
theorem toNat_randomMax (m : MyTimeoutMap κ ν cmp) : m.randomMax.toNat = m.keys_.size-1 := by
  have hle := m.size_keys_le
  have hsub : (UInt64.ofNat m.keys_.size - 1).toNat = (2^64-1+m.keys_.size)%2^64 := by
    rw [UInt64.toNat_sub, UInt64.toNat_ofNat', UInt64.toNat_one]
    omega
  rw [randomMax, MyCast.toUInt32]
  by_cases hzero : m.keys_.size = 0
  · rw [hzero] at hsub ⊢
    rw [if_pos]
    · rfl
    · rw [UInt64.lt_iff_toNat_lt, hsub]
      decide
  · have hpred : (UInt64.ofNat m.keys_.size - 1).toNat = m.keys_.size-1 := by omega
    rw [if_neg]
    · rw [UInt64.toNat_toUInt32, hpred]
      omega
    · rw [UInt64.lt_iff_toNat_lt, hpred]
      change ¬2^32-1 < m.keys_.size-1
      omega

theorem random_eq (hne : m.values_.isEmpty = false) (idx : UInt32) :
    m.random idx = m.elements[idx.toNat]? := by
  rw [random, hne, elements, List.getElem?_map]
  rfl

theorem length_elements (m : MyTimeoutMap κ ν cmp) : m.elements.length = m.values_.size := by
  rw [elements, List.length_map, ExtTreeMap.length_toList]

theorem mem_elements {v : Option ν} :
    v ∈ m.elements ↔ ∃ (k : κ) (w : ValueWrapper ν), m.values_[k]? = some w ∧ w.v_ = v := by
  simp only [elements, List.mem_map, ExtTreeMap.getElem?_eq_some_iff_exists_compare_eq_eq_and_mem_toList]
  constructor
  · rintro ⟨⟨k, w⟩, hmem, rfl⟩
    exact ⟨k, w, ⟨k, ReflCmp.compare_self, hmem⟩, rfl⟩
  · rintro ⟨_, w, ⟨k, _, hmem⟩, rfl⟩
    exact ⟨(k,w), hmem, rfl⟩

/-- The numbers of the interval are those below the number of buckets, or 0. -/
theorem exists_random_iff (hne : m.values_.isEmpty = false) (v : Option ν) :
    (∃ idx ≤ m.randomMax, m.random idx = some v) ↔ v ∈ m.elements.take (max 1 m.keys_.size) := by
  have hle := m.size_keys_le
  have hmax := m.toNat_randomMax
  rw [List.mem_take_iff_getElem]
  constructor
  · rintro ⟨idx, hidx, hv⟩
    rw [random_eq hne] at hv
    obtain ⟨hlt, hv⟩ := List.getElem?_eq_some_iff.mp hv
    rw [UInt32.le_iff_toNat_le, hmax] at hidx
    exact ⟨idx.toNat, by omega, hv⟩
  · rintro ⟨i, hi, hv⟩
    have hlt : i < 2^32 := by omega
    have htoNat : (UInt32.ofNat i).toNat = i := by
      rw [UInt32.toNat_ofNat', Nat.mod_eq_of_lt hlt]
    refine ⟨UInt32.ofNat i, ?_, ?_⟩
    · rw [UInt32.le_iff_toNat_le, hmax, htoNat]
      omega
    · rw [random_eq hne, htoNat, List.getElem?_eq_getElem (by omega), hv]

theorem inRange_iff (hne : m.values_.isEmpty = false) :
    (∀ idx ≤ m.randomMax, m.random idx ≠ none) ↔ max 1 m.keys_.size ≤ m.values_.size := by
  have hmax := m.toNat_randomMax
  have hpos : 0 < m.values_.size := by
    rw [ExtTreeMap.isEmpty_eq_size_beq_zero, beq_eq_false_iff_ne] at hne
    exact Nat.pos_of_ne_zero hne
  simp only [random_eq hne, ne_eq, List.getElem?_eq_none_iff, length_elements, Nat.not_le]
  constructor
  · intro h
    have hlt := h m.randomMax (UInt32.le_refl _)
    omega
  · intro h idx hidx
    rw [UInt32.le_iff_toNat_le] at hidx
    omega

theorem reaches_iff (hne : m.values_.isEmpty = false) :
    (∀ (k : κ) (w : ValueWrapper ν), m.values_[k]? = some w →
        ∃ idx ≤ m.randomMax, m.random idx = some w.v_) ↔
      ∀ v ∈ m.elements, v ∈ m.elements.take (max 1 m.keys_.size) := by
  simp only [exists_random_iff hne]
  constructor
  · intro h v hv
    obtain ⟨k, w, hk, rfl⟩ := mem_elements.mp hv
    exact h k w hk
  · intro h k w hk
    exact h w.v_ (mem_elements.mpr ⟨k, w, hk, rfl⟩)

/-- Every number gives an element exactly when there are not more buckets than keys, and every
value can be given when the keys beyond the number of buckets hold no value of their own. -/
theorem samples_iff (hne : m.values_.isEmpty = false) :
    (m.Samples ↔ max 1 m.keys_.size ≤ m.values_.size ∧
        ∀ v ∈ m.elements, v ∈ m.elements.take (max 1 m.keys_.size)) ∧
      (m.elements.Nodup → (m.Samples ↔ m.values_.size = max 1 m.keys_.size)) := by
  have hiff : m.Samples ↔ max 1 m.keys_.size ≤ m.values_.size ∧
      ∀ v ∈ m.elements, v ∈ m.elements.take (max 1 m.keys_.size) := by
    rw [← inRange_iff hne, ← reaches_iff hne]
    exact ⟨fun h => ⟨h.inRange, h.reaches⟩, fun h => ⟨h.1, h.2⟩⟩
  refine ⟨hiff, ?_⟩
  intro hnodup
  rw [hiff]
  constructor
  · rintro ⟨hle, hall⟩
    have hlen := (List.subperm_of_subset hnodup hall).length_le
    rw [List.length_take, length_elements] at hlen
    omega
  · intro heq
    refine ⟨Nat.le_of_eq heq.symm, ?_⟩
    rw [List.take_of_length_le (by rw [length_elements]; exact Nat.le_of_eq heq)]
    exact fun v hv => hv

/-- Two keys inserted in different seconds. -/
theorem samples_two_seconds :
    let m : MyTimeoutMap ℕ ℕ compare :=
      ((empty 30 : MyTimeoutMap ℕ ℕ compare).insert 100 7 (some 1)).insert 101 8 (some 2)
    m.Samples := by
  intro m
  exact ((samples_iff (m := m) (by decide)).2 (by decide)).mpr (by decide)

/-- Of two keys inserted in one second the later is never given, and after one key was updated
a second later the number 1 is past the end. -/
theorem not_samples :
    let two : MyTimeoutMap ℕ ℕ compare :=
      ((empty 30 : MyTimeoutMap ℕ ℕ compare).insert 100 7 (some 1)).insert 100 8 (some 2)
    let moved : MyTimeoutMap ℕ ℕ compare :=
      ((empty 30 : MyTimeoutMap ℕ ℕ compare).insert 100 7 (some 1)).update 101 7
    ¬two.Samples ∧ moved.randomMax = 1 ∧ moved.random 1 = none ∧ ¬moved.Samples := by
  intro two moved
  have hmax : moved.randomMax = 1 := by decide
  have hpast : moved.random 1 = none := by decide
  refine ⟨?_, hmax, hpast, ?_⟩
  · intro h
    obtain ⟨idx, hidx, hv⟩ := h.reaches 8 ⟨100,some 2⟩ rfl
    have hmax : two.randomMax = 0 := by decide
    rw [hmax] at hidx
    have hzero : idx = 0 := UInt32.le_antisymm hidx UInt32.zero_le
    rw [hzero] at hv
    exact absurd hv (by decide)
  · intro h
    exact h.inRange 1 (UInt32.le_of_eq hmax.symm) hpast

end MyTimeoutMap
end EchoFrame
