import Mathlib.Data.List.Basic
import Mathlib.Tactic.Common

/-! Memory blocks as lists. A load or a store that leaves the block is `none`. -/
namespace Verif

variable {α : Type*}

def load (m : List α) (off n : ℕ) : Option (List α) :=
  if off+n ≤ m.length then some ((m.drop off).take n) else none

def store (m : List α) (off : ℕ) (xs : List α) : Option (List α) :=
  if off+xs.length ≤ m.length then
    some (m.take off ++ xs ++ m.drop (off+xs.length))
  else none

theorem load_eq_some {m : List α} {off n : ℕ} (h : off+n ≤ m.length) :
    load m off n = some ((m.drop off).take n) := if_pos h

theorem store_eq_some {m : List α} {off : ℕ} {xs : List α} (h : off+xs.length ≤ m.length) :
    store m off xs = some (m.take off ++ xs ++ m.drop (off+xs.length)) := if_pos h

theorem store_eq_some_iff {m m' : List α} {off : ℕ} {xs : List α} :
    store m off xs = some m' ↔
      off+xs.length ≤ m.length ∧ m.take off ++ xs ++ m.drop (off+xs.length) = m' := by
  unfold store
  split
  · next h => simp only [Option.some.injEq, h, true_and]
  · next h => simp only [reduceCtorEq, h, false_and]

theorem length_store {m m' : List α} {off : ℕ} {xs : List α} (h : store m off xs = some m') :
    m'.length = m.length := by
  obtain ⟨hle, rfl⟩ := store_eq_some_iff.mp h
  simp only [List.length_append, List.length_take, List.length_drop]
  omega

theorem store_zero {m xs : List α} (h : xs.length ≤ m.length) :
    store m 0 xs = some (xs ++ m.drop xs.length) := by
  rw [store_eq_some (by omega)]
  simp

theorem drop_take_store {m m' : List α} {off : ℕ} {xs : List α} (h : store m off xs = some m')
    (i : ℕ) (hi : i ≤ off) :
    (m'.drop i).take (off-i+xs.length) = (m.drop i).take (off-i) ++ xs := by
  obtain ⟨hle, rfl⟩ := store_eq_some_iff.mp h
  have hlen : (m.take off).length = off := by
    rw [List.length_take]
    omega
  rw [List.append_assoc, List.drop_append_of_le_length (by omega), ← List.append_assoc,
    List.take_append_of_le_length
      (by simp only [List.length_append, List.length_drop, List.length_take]; omega),
    List.take_of_length_le
      (by simp only [List.length_append, List.length_drop, List.length_take]; omega),
    List.take_drop, show i+(off-i) = off by omega]

end Verif
