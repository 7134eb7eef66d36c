import Mathlib.Data.Set.Basic
import Mathlib.Tactic.Common

/-! A table of stamps kept beside its inverse index, the buckets of the keys that
carry each stamp. -/
namespace Verif

variable {κ τ : Type*} {f f' : κ → Option τ} {b b' : τ → Set κ}

/-- The bucket of a stamp holds exactly the keys that the table gives that stamp. -/
def Indexes (f : κ → Option τ) (b : τ → Set κ) : Prop :=
  ∀ k t, k ∈ b t ↔ f k = some t

/-- A key is in one bucket at most. -/
theorem Indexes.bucket_unique (h : Indexes f b) {k : κ} {t t' : τ} (ht : k ∈ b t)
    (ht' : k ∈ b t') : t = t' := by
  rw [h k t] at ht
  rw [h k t', ht] at ht'
  exact Option.some.inj ht'

/-- The keys of `e` get the stamp `r`, or none, in the table and in the buckets. -/
theorem Indexes.assign {e : κ → Prop} [DecidablePred e] {r : Option τ} (h : Indexes f b)
    (hf : ∀ k, f' k = if e k then r else f k)
    (hb : ∀ k t, k ∈ b' t ↔ if e k then r = some t else k ∈ b t) : Indexes f' b' := by
  intro k t
  rw [hb, hf]
  by_cases hk : e k
  · rw [if_pos hk, if_pos hk]
  · rw [if_neg hk, if_neg hk]
    exact h k t

/-- Whole buckets go, and the keys that were in them. -/
theorem Indexes.restrict {p : τ → Prop} (h : Indexes f b)
    (hf : ∀ k t, f' k = some t ↔ p t ∧ f k = some t)
    (hb : ∀ k t, k ∈ b' t ↔ p t ∧ k ∈ b t) : Indexes f' b' := by
  intro k t
  rw [hb, hf, h k t]

/-- A key left in the bucket of another stamp than its own shows. -/
theorem not_indexes_of_leftover {k : κ} {t : τ} (hk : k ∈ b t) (hf : f k ≠ some t) :
    ¬Indexes f b :=
  fun h => hf ((h k t).mp hk)

end Verif
