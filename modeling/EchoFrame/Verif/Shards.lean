import Mathlib.Data.List.Basic
import Mathlib.Tactic.Common
import Std.Data.ExtTreeMap

/-! Maps split into shards. Which shard a key belongs to is up to the program
that uses them. -/
namespace Verif
open Std

abbrev Shards (κ α : Type*) [Ord κ] := List (ExtTreeMap κ α)

namespace Shards

variable {κ α : Type*} [Ord κ] [TransOrd κ]

def empty (n : ℕ) : Shards κ α := List.replicate n ∅

def get? (s : Shards κ α) (i : ℕ) (k : κ) : Option α := s[i]?.bind fun m => m[k]?

def put (s : Shards κ α) (i : ℕ) (k : κ) (v : α) : Shards κ α :=
  s.modify i fun m => m.insert k v

def remove (s : Shards κ α) (i : ℕ) (k : κ) : Shards κ α := s.modify i fun m => m.erase k

/-- Keep the entries of one shard that meet `p`. -/
def retain (s : Shards κ α) (i : ℕ) (p : κ → α → Bool) : Shards κ α :=
  s.modify i fun m => m.filter p

def entries (s : Shards κ α) (i : ℕ) : List (κ × α) := (s[i]?.getD ∅).toList

omit [TransOrd κ] in
@[simp] theorem length_empty (n : ℕ) : (empty n : Shards κ α).length = n := List.length_replicate

@[simp] theorem length_put (s : Shards κ α) (i : ℕ) (k : κ) (v : α) :
    (s.put i k v).length = s.length := List.length_modify ..

@[simp] theorem length_remove (s : Shards κ α) (i : ℕ) (k : κ) :
    (s.remove i k).length = s.length := List.length_modify ..

omit [TransOrd κ] in
@[simp] theorem length_retain (s : Shards κ α) (i : ℕ) (p : κ → α → Bool) :
    (s.retain i p).length = s.length := List.length_modify ..

theorem length_foldl_remove (ks : List κ) (s : Shards κ α) (i : ℕ) :
    (ks.foldl (fun s k => s.remove i k) s).length = s.length := by
  induction ks generalizing s with
  | nil => rfl
  | cons k ks ih => rw [List.foldl_cons, ih, length_remove]

@[simp] theorem get?_empty (n i : ℕ) (k : κ) : (empty n : Shards κ α).get? i k = none := by
  unfold get? empty
  rw [List.getElem?_replicate]
  split <;> simp

theorem lt_length_of_get? {s : Shards κ α} {i : ℕ} {k : κ} {v : α} (h : s.get? i k = some v) :
    i < s.length := by
  by_contra hle
  rw [get?, List.getElem?_eq_none (Nat.le_of_not_lt hle)] at h
  cases h

variable [LawfulEqOrd κ] [DecidableEq κ]

theorem get?_put (s : Shards κ α) {i : ℕ} (hi : i < s.length) (k : κ) (v : α) (j : ℕ) (l : κ) :
    (s.put i k v).get? j l = if i = j ∧ k = l then some v else s.get? j l := by
  unfold get? put
  rw [List.getElem?_modify]
  by_cases hij : i = j
  · subst hij
    by_cases hkl : k = l
    · simp [List.getElem?_eq_getElem hi, hkl]
    · simp [List.getElem?_eq_getElem hi, ExtTreeMap.getElem?_insert, hkl]
  · simp [hij]

theorem get?_remove (s : Shards κ α) (i : ℕ) (k : κ) (j : ℕ) (l : κ) :
    (s.remove i k).get? j l = if i = j ∧ k = l then none else s.get? j l := by
  unfold get? remove
  rw [List.getElem?_modify]
  by_cases hij : i = j
  · subst hij
    by_cases hkl : k = l
    · cases s[i]? <;> simp [hkl]
    · cases s[i]? <;> simp [ExtTreeMap.getElem?_erase, hkl]
  · simp [hij]

/-- What is put under a key is all that changes, with the shard of a key taken
modulo their number. -/
theorem get?_put_mod (s : Shards κ α) (hn : 0 < s.length) (f : κ → ℕ) (k : κ) (v : α) (l : κ) :
    (s.put (f k%s.length) k v).get? (f l%(s.put (f k%s.length) k v).length) l =
      if k = l then some v else s.get? (f l%s.length) l := by
  rw [length_put, get?_put s (Nat.mod_lt _ hn)]
  by_cases h : k = l
  · simp [h]
  · simp [h]

theorem get?_remove_mod (s : Shards κ α) (f : κ → ℕ) (k l : κ) :
    (s.remove (f k%s.length) k).get? (f l%(s.remove (f k%s.length) k).length) l =
      if k = l then none else s.get? (f l%s.length) l := by
  rw [length_remove, get?_remove]
  by_cases h : k = l
  · simp [h]
  · simp [h]

theorem get?_foldl_remove (ks : List κ) (s : Shards κ α) (i j : ℕ) (l : κ) :
    (ks.foldl (fun s k => s.remove i k) s).get? j l =
      if i = j ∧ l ∈ ks then none else s.get? j l := by
  induction ks generalizing s with
  | nil => simp
  | cons k ks ih =>
    rw [List.foldl_cons, ih, get?_remove]
    by_cases hij : i = j
    · by_cases hl : l ∈ ks
      · simp [hij, hl]
      · simp [hij, hl, eq_comm]
    · simp [hij]

omit [DecidableEq κ] in
theorem get?_retain (s : Shards κ α) (i : ℕ) (p : κ → α → Bool) (j : ℕ) (l : κ) :
    (s.retain i p).get? j l =
      if i = j then (s.get? j l).filter (p l) else s.get? j l := by
  unfold get? retain
  rw [List.getElem?_modify]
  by_cases hij : i = j
  · subst hij
    cases s[i]? <;> simp
  · simp [hij]

omit [DecidableEq κ] in
theorem mem_entries (s : Shards κ α) (i : ℕ) (k : κ) (v : α) :
    (k,v) ∈ s.entries i ↔ s.get? i k = some v := by
  unfold entries get?
  rw [ExtTreeMap.mem_toList_iff_getElem?_eq_some]
  cases s[i]? <;> simp

end Shards
end Verif
