import Mathlib.Data.List.Basic
import Mathlib.Logic.Function.Iterate
import Mathlib.Tactic.Common

/-! Do-while loops. The body returns the next state and whether the loop
condition asks for another iteration, so a loop need not terminate. -/
namespace Verif

variable {σ : Type*}

/-- `Exits body s t`: the loop entered at `s` is left at `t`. -/
inductive Exits (body : σ → σ × Bool) : σ → σ → Prop
  | stop {s t : σ} (h : body s = (t, false)) : Exits body s t
  | again {s t u : σ} (h : body s = (t, true)) (hrest : Exits body t u) : Exits body s u

/-- `Passes body s t`: some number of iterations, at least one, ends at `t`. -/
inductive Passes (body : σ → σ × Bool) : σ → σ → Prop
  | once {s t : σ} {c : Bool} (h : body s = (t, c)) : Passes body s t
  | again {s t u : σ} (h : body s = (t, true)) (hrest : Passes body t u) : Passes body s u

/-- `Enters body s t`: the loop entered at `s` starts an iteration at `t`. -/
inductive Enters (body : σ → σ × Bool) (s : σ) : σ → Prop
  | start : Enters body s s
  | again {t u : σ} (ht : Enters body s t) (h : body t = (u, true)) : Enters body s u

/-- `Emits body out s os t`: the loop entered at `s` is left at `t`, and `os` is
what `out` says of its iterations. -/
inductive Emits {ω : Type*} (body : σ → σ × Bool) (out : σ → List ω) : σ → List ω → σ → Prop
  | stop {s t : σ} (h : body s = (t, false)) : Emits body out s (out s) t
  | again {s t u : σ} {os : List ω} (h : body s = (t, true)) (hrest : Emits body out t os u) :
      Emits body out s (out s ++ os) u

/-- The loop cut off after `n` iterations. -/
def execLoop (body : σ → σ × Bool) : ℕ → σ → Option σ
  | 0, _ => none
  | n+1, s => match body s with
    | (t, false) => some t
    | (t, true) => execLoop body n t

variable {body : σ → σ × Bool} {s t u : σ}

theorem Enters.head (hb : body s = (t, true)) (h : Enters body t u) : Enters body s u := by
  induction h with
  | start => exact .again .start hb
  | again _ hb' ih => exact .again ih hb'

theorem Exits.of_execLoop {n : ℕ} (h : execLoop body n s = some t) : Exits body s t := by
  induction n generalizing s with
  | zero => cases h
  | succ n ih =>
    simp only [execLoop] at h
    split at h
    · next v hb =>
      cases h
      exact .stop hb
    · next v hb => exact .again hb (ih h)

theorem exits_iff_emits {ω : Type*} (out : σ → List ω) :
    Exits body s t ↔ ∃ os, Emits body out s os t := by
  constructor
  · intro h
    induction h with
    | stop h => exact ⟨_, .stop h⟩
    | again h _ ih =>
      obtain ⟨os, hos⟩ := ih
      exact ⟨_, .again h hos⟩
  · rintro ⟨os, h⟩
    induction h with
    | stop h => exact .stop h
    | again h _ ih => exact .again h ih

theorem Exits.unique (ht : Exits body s t) (hu : Exits body s u) : t = u := by
  induction ht with
  | stop h =>
    cases hu with
    | stop h' => exact congrArg Prod.fst (h.symm.trans h')
    | again h' _ => cases h.symm.trans h'
  | again h _ ih =>
    cases hu with
    | stop h' => cases h.symm.trans h'
    | again h' hrest =>
      have he := congrArg Prod.fst (h.symm.trans h')
      dsimp only at he
      exact ih (he ▸ hrest)

theorem Exits.of_again (h : Exits body s u) (hb : body s = (t, true)) : Exits body t u := by
  cases h with
  | stop h' => cases hb.symm.trans h'
  | again h' hrest =>
    have he := congrArg Prod.fst (hb.symm.trans h')
    dsimp only at he
    exact he ▸ hrest

/-- Of two loops whose iterations go from related states to related states, and that go on
alike, one is left where the other is. -/
theorem Exits.related {τ : Type*} {R : σ → τ → Prop} {body' : τ → τ × Bool} {s' : τ}
    (hstep : ∀ s s', R s s' → R (body s).1 (body' s').1 ∧ (body s).2 = (body' s').2)
    (h : Exits body s t) (hs : R s s') : ∃ t', Exits body' s' t' ∧ R t t' := by
  induction h generalizing s' with
  | stop h =>
    have hone := hstep _ s' hs
    rw [h] at hone
    exact ⟨_, .stop (Prod.ext rfl hone.2.symm), hone.1⟩
  | again h _ ih =>
    have hone := hstep _ s' hs
    rw [h] at hone
    obtain ⟨t', ht', hR⟩ := ih hone.1
    exact ⟨t', .again (Prod.ext rfl hone.2.symm) ht', hR⟩

/-- A loop whose body always asks for another iteration, from every state of a
class it never leaves, does not terminate. -/
theorem not_exits_of_stuck {I : σ → Prop} (hI : ∀ s, I s → ∃ t, body s = (t, true) ∧ I t)
    (hs : I s) : ¬ ∃ t, Exits body s t := by
  rintro ⟨t, ht⟩
  induction ht with
  | stop h =>
    obtain ⟨_, hb, _⟩ := hI _ hs
    cases h.symm.trans hb
  | again h _ ih =>
    obtain ⟨t', hb, ht'⟩ := hI _ hs
    have he := congrArg Prod.fst (h.symm.trans hb)
    dsimp only at he
    exact ih (he ▸ ht')

/-- The variant rule: a loop whose iterations shrink a measure terminates. -/
theorem exits_of_variant (m : σ → ℕ) (hm : ∀ s t, body s = (t, true) → m t < m s) (s : σ) :
    ∃ t, Exits body s t := by
  induction hn : m s using Nat.strongRecOn generalizing s with
  | _ n ih =>
    rcases hb : body s with ⟨t, _ | _⟩
    · exact ⟨t, .stop hb⟩
    · obtain ⟨u, hu⟩ := ih (m t) (hn ▸ hm s t hb) t rfl
      exact ⟨u, .again hb hu⟩

/-- Where a measure shrinks, running the loop for more iterations than that is running it. -/
theorem exits_iff_execLoop (m : σ → ℕ) (hm : ∀ s t, body s = (t, true) → m t < m s) {n : ℕ}
    (hn : m s < n) : Exits body s t ↔ execLoop body n s = some t := by
  refine ⟨?_, Exits.of_execLoop⟩
  intro h
  induction h generalizing n with
  | stop h =>
    obtain ⟨n, rfl⟩ := Nat.exists_eq_succ_of_ne_zero (Nat.ne_zero_of_lt hn)
    rw [execLoop, h]
  | again h _ ih =>
    obtain ⟨n, rfl⟩ := Nat.exists_eq_succ_of_ne_zero (Nat.ne_zero_of_lt hn)
    have hlt := hm _ _ h
    rw [execLoop, h]
    exact ih (by omega)

/-- The invariant rule, at every iteration of a loop that may run for ever. -/
theorem Passes.invariant {I : σ → Prop} (hI : ∀ s t c, I s → body s = (t, c) → I t)
    (h : Passes body s t) (hs : I s) : I t := by
  induction h with
  | once h => exact hI _ _ _ hs h
  | again h _ ih => exact ih (hI _ _ _ hs h)

/-! A loop that undoes a function for as long as the state is one of its values. -/

theorem eq_of_undo {g : σ → σ} (hon : ∀ s, body (g s) = (s, true))
    (hoff : ∀ s, (¬ ∃ u, g u = s) → body s = (s, false)) (h : body s = (t, true)) : s = g t := by
  by_cases hs : ∃ u, g u = s
  · obtain ⟨u, rfl⟩ := hs
    cases (hon u).symm.trans h
    rfl
  · cases (hoff s hs).symm.trans h

/-- It is left at the first state that is not a value of the function. -/
theorem exits_undo_iff {g : σ → σ} (hon : ∀ s, body (g s) = (s, true))
    (hoff : ∀ s, (¬ ∃ u, g u = s) → body s = (s, false)) :
    Exits body s t ↔ (∃ i, s = g^[i] t) ∧ ¬ ∃ u, g u = t := by
  constructor
  · intro h
    induction h with
    | @stop s t hb =>
      by_cases hs : ∃ u, g u = s
      · obtain ⟨u, rfl⟩ := hs
        cases (hon u).symm.trans hb
      · cases (hoff s hs).symm.trans hb
        exact ⟨⟨0, rfl⟩, hs⟩
    | again hb _ ih =>
      obtain rfl := eq_of_undo hon hoff hb
      obtain ⟨⟨i, rfl⟩, hnot⟩ := ih
      exact ⟨⟨i+1, (Function.iterate_succ_apply' g i _).symm⟩, hnot⟩
  · rintro ⟨⟨i, rfl⟩, hnot⟩
    induction i with
    | zero => exact .stop (hoff t hnot)
    | succ i ih =>
      rw [Function.iterate_succ_apply']
      exact .again (hon _) ih

end Verif
