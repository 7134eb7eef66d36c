import Mathlib.Data.List.Basic
import Mathlib.Data.List.Infix
import Mathlib.Data.Nat.Find
import Mathlib.Tactic.Common

/-! Searching a list for occurrences of another, forwards from a position and backwards. -/
namespace Verif

variable {α : Type*}

def OccursAt (o s : List α) (i : ℕ) : Prop := i ≤ s.length ∧ o <+: s.drop i

structure FirstAt (o s : List α) (i : ℕ) : Prop where
  occurs : OccursAt o s i
  before : ∀ j < i, ¬ OccursAt o s j

section Search
variable [DecidableEq α]

instance (o s : List α) (i : ℕ) : Decidable (OccursAt o s i) :=
  inferInstanceAs (Decidable (_ ∧ _))

def find (o s : List α) (pos : ℕ) : Option ℕ :=
  (List.range' pos (s.length+1-pos)).find? (fun i => OccursAt o s i)

def rfind (o s : List α) : Option ℕ :=
  if OccursAt o s (Nat.findGreatest (OccursAt o s) s.length) then
    some (Nat.findGreatest (OccursAt o s) s.length)
  else none

end Search

variable {o s t : List α} {i j pos : ℕ}

theorem OccursAt.add_length_le (h : OccursAt o s i) : i+o.length ≤ s.length := by
  have hle := h.2.length_le
  have hi := h.1
  rw [List.length_drop] at hle
  omega

theorem occursAt_append {p : List α} (hi : i = p.length) : OccursAt o (p ++ (o ++ t)) i := by
  subst hi
  constructor
  · rw [List.length_append]
    omega
  · rw [List.drop_left]
    exact List.prefix_append o t

theorem occursAt_iff : OccursAt o s i ↔ ∃ p t, s = p ++ (o ++ t) ∧ i = p.length := by
  constructor
  · rintro ⟨hle, t, ht⟩
    refine ⟨s.take i, t, ?_, ?_⟩
    · rw [ht, List.take_append_drop]
    · rw [List.length_take, Nat.min_eq_left hle]
  · rintro ⟨p, t, rfl, hi⟩
    exact occursAt_append hi

theorem occursAt_zero_iff : OccursAt o s 0 ↔ o <+: s := by
  rw [OccursAt, List.drop_zero, and_iff_right (Nat.zero_le _)]

theorem occursAt_nil (h : i ≤ s.length) : OccursAt [] s i := ⟨h, List.nil_prefix⟩

theorem occursAt_drop (h : pos ≤ s.length) :
    OccursAt o (s.drop pos) i ↔ OccursAt o s (pos+i) := by
  rw [OccursAt, OccursAt, List.drop_drop, List.length_drop]
  apply and_congr_left
  intro _
  omega

theorem exists_occursAt_iff : (∃ i, OccursAt o s i) ↔ o <:+: s := by
  simp only [occursAt_iff]
  constructor
  · rintro ⟨_, p, t, rfl, -⟩
    exact ⟨p, t, List.append_assoc p o t⟩
  · rintro ⟨p, t, rfl⟩
    exact ⟨p.length, p, t, List.append_assoc p o t, rfl⟩

/-- The last place an occurrence can have is the end. -/
theorem occursAt_sub_iff : o.length ≤ s.length ∧ OccursAt o s (s.length-o.length) ↔ o <:+ s := by
  constructor
  · rintro ⟨hle, h⟩
    obtain ⟨p, t, rfl, hi⟩ := occursAt_iff.mp h
    have ht : t = [] := by
      apply List.length_eq_zero_iff.mp
      rw [List.length_append, List.length_append] at hi
      omega
    rw [ht, List.append_nil]
    exact List.suffix_append p o
  · rintro ⟨p, rfl⟩
    refine ⟨by rw [List.length_append]; omega, ?_⟩
    rw [List.length_append, Nat.add_sub_cancel]
    have h := occursAt_append (o := o) (t := []) (p := p) rfl
    rwa [List.append_nil] at h

theorem FirstAt.unique (hi : FirstAt o s i) (hj : FirstAt o s j) : i = j := by
  rcases Nat.lt_trichotomy i j with h | h | h
  · exact absurd hi.occurs (hj.before i h)
  · exact h
  · exact absurd hj.occurs (hi.before j h)

theorem exists_firstAt_iff : (∃ i, FirstAt o s i) ↔ o <:+: s := by
  classical
  rw [← exists_occursAt_iff]
  constructor
  · rintro ⟨i, h⟩
    exact ⟨i, h.occurs⟩
  · intro h
    exact ⟨Nat.find h, Nat.find_spec h, fun j hj => Nat.find_min h hj⟩

variable [DecidableEq α]

theorem find_eq_some_iff (h : pos ≤ s.length) :
    find o s pos = some i ↔ ∃ k, i = pos+k ∧ FirstAt o (s.drop pos) k := by
  simp only [find, List.find?_range'_eq_some, decide_eq_true_eq, List.mem_range'_1,
    Bool.not_eq_true', decide_eq_false_iff_not]
  constructor
  · rintro ⟨hocc, ⟨hle, -⟩, hbefore⟩
    obtain ⟨k, rfl⟩ := Nat.exists_eq_add_of_le hle
    refine ⟨k, rfl, (occursAt_drop h).mpr hocc, ?_⟩
    intro j hj hj'
    exact hbefore (pos+j) (by omega) (by omega) ((occursAt_drop h).mp hj')
  · rintro ⟨k, rfl, hfirst⟩
    have hocc := (occursAt_drop h).mp hfirst.occurs
    refine ⟨hocc, ⟨by omega, by have := hocc.1; omega⟩, ?_⟩
    intro j hle hlt hj
    apply hfirst.before (j-pos) (by omega)
    rw [occursAt_drop h, Nat.add_sub_cancel' hle]
    exact hj

theorem occursAt_of_find (h : find o s pos = some i) : pos ≤ i ∧ OccursAt o s i := by
  rw [find, List.find?_range'_eq_some] at h
  obtain ⟨hocc, hmem, -⟩ := h
  exact ⟨(List.mem_range'_1.mp hmem).1, decide_eq_true_iff.mp hocc⟩

theorem find_eq_none_iff (h : pos ≤ s.length) : find o s pos = none ↔ ¬ o <:+: s.drop pos := by
  rw [Option.eq_none_iff_forall_not_mem, ← exists_firstAt_iff, not_exists]
  simp only [Option.mem_def, find_eq_some_iff h]
  constructor
  · intro hn k hk
    exact hn (pos+k) ⟨k, rfl, hk⟩
  · rintro hn _ ⟨k, -, hk⟩
    exact hn k hk

theorem find_zero_eq_zero_iff : find o s 0 = some 0 ↔ o <+: s := by
  rw [find_eq_some_iff (Nat.zero_le _), List.drop_zero]
  constructor
  · rintro ⟨k, hk, hfirst⟩
    have h0 : k = 0 := by omega
    rw [h0] at hfirst
    exact occursAt_zero_iff.mp hfirst.occurs
  · intro h
    exact ⟨0, rfl, occursAt_zero_iff.mpr h, fun j hj => absurd hj (Nat.not_lt_zero j)⟩

theorem occursAt_of_rfind (h : rfind o s = some i) : OccursAt o s i := by
  unfold rfind at h
  split at h
  · next hocc =>
    cases h
    exact hocc
  · cases h

theorem le_rfind (h : OccursAt o s i) : ∃ j, rfind o s = some j ∧ i ≤ j :=
  ⟨_, if_pos (Nat.findGreatest_spec h.1 h), Nat.le_findGreatest h.1 h⟩

/-- The last occurrence ends with the list exactly when the list ends with one. -/
theorem rfind_at_end_iff : (∃ i, rfind o s = some i ∧ i+o.length = s.length) ↔ o <:+ s := by
  rw [← occursAt_sub_iff]
  constructor
  · rintro ⟨i, hi, hlen⟩
    refine ⟨by omega, ?_⟩
    rw [← hlen, Nat.add_sub_cancel]
    exact occursAt_of_rfind hi
  · rintro ⟨hle, hocc⟩
    obtain ⟨j, hj, hij⟩ := le_rfind hocc
    have hlen := (occursAt_of_rfind hj).add_length_le
    exact ⟨j, hj, by omega⟩

end Verif
