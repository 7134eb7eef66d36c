import Mathlib.Data.List.Basic
import Mathlib.Tactic.Common

/-! The purpose of a queue of cells: everything stored comes out once, in order.
A queue is the whole history of what was stored and how much of it was taken. -/
namespace Verif

structure Fifo (α : Type*) where
  stored : List α
  consumed : ℕ
  consumed_le : consumed ≤ stored.length

namespace Fifo

variable {α : Type*}

def empty : Fifo α := ⟨[],0,Nat.le_refl _⟩

def pending (q : Fifo α) : List α := q.stored.drop q.consumed

def push (q : Fifo α) (xs : List α) : Fifo α where
  stored := q.stored ++ xs
  consumed := q.consumed
  consumed_le := by
    rw [List.length_append]
    exact Nat.le_add_right_of_le q.consumed_le

def pop (q : Fifo α) (n : ℕ) : Fifo α where
  stored := q.stored
  consumed := min (q.consumed+n) q.stored.length
  consumed_le := Nat.min_le_right _ _

@[simp] theorem stored_push (q : Fifo α) (xs : List α) : (q.push xs).stored = q.stored ++ xs := rfl

@[simp] theorem stored_pop (q : Fifo α) (n : ℕ) : (q.pop n).stored = q.stored := rfl

@[simp] theorem pending_push (q : Fifo α) (xs : List α) :
    (q.push xs).pending = q.pending ++ xs :=
  List.drop_append_of_le_length q.consumed_le

@[simp] theorem pending_pop (q : Fifo α) (n : ℕ) : (q.pop n).pending = q.pending.drop n := by
  unfold pending pop
  dsimp only
  rw [List.drop_drop]
  rcases Nat.le_total (q.consumed+n) q.stored.length with h | h
  · rw [Nat.min_eq_left h]
  · rw [Nat.min_eq_right h, List.drop_length, List.drop_of_length_le h]

end Fifo
end Verif
