import EchoFrame.Verif.Entries
import EchoFrame.Verif.Run
import Mathlib.Algebra.BigOperators.Group.List.Basic
import Mathlib.Tactic.Abel

/-! Machines of one kind side by side. A step is a step of one of them, and the others stay
where they are. -/
namespace Verif

variable {σ α : Type*} {step : σ → α → Option σ} {ss ts : List σ} {i j : ℕ} {a : α} {s : σ}

def stepAt (step : σ → α → Option σ) (ss : List σ) (i : ℕ) (a : α) : Option (List σ) :=
  ss[i]?.bind fun s => (step s a).map (ss.set i)

theorem stepAt_eq_some : stepAt step ss i a = some ts ↔
    ∃ s t, ss[i]? = some s ∧ step s a = some t ∧ ss.set i t = ts := by
  constructor
  · intro h
    obtain ⟨s, hs, hmap⟩ := Option.bind_eq_some_iff.mp h
    obtain ⟨t, ht, hset⟩ := Option.map_eq_some_iff.mp hmap
    exact ⟨s, t, hs, ht, hset⟩
  · intro ⟨s, t, hs, ht, hset⟩
    rw [stepAt, hs, Option.bind_some, ht, Option.map_some, hset]

theorem stepAt_of_getElem? {t : σ} (hs : ss[i]? = some s) (ht : step s a = some t) :
    stepAt step ss i a = some (ss.set i t) :=
  stepAt_eq_some.mpr ⟨s, t, hs, ht, rfl⟩

theorem length_stepAt (h : stepAt step ss i a = some ts) : ts.length = ss.length := by
  obtain ⟨s, t, -, -, rfl⟩ := stepAt_eq_some.mp h
  exact List.length_set

/-- Each machine has taken the step or none. -/
theorem getElem?_stepAt (h : stepAt step ss i a = some ts) (hs : ss[j]? = some s) :
    ∃ t, ts[j]? = some t ∧ (t = s ∨ i = j ∧ step s a = some t) := by
  obtain ⟨s', t, hs', ht, rfl⟩ := stepAt_eq_some.mp h
  rw [getElem?_set_of_getElem? hs']
  by_cases hij : i = j
  · subst hij
    obtain rfl := Option.some.inj (hs'.symm.trans hs)
    exact ⟨t, if_pos rfl, .inr ⟨rfl, ht⟩⟩
  · exact ⟨s, (if_neg hij).trans hs, .inl rfl⟩

/-- An invariant of one machine is one of them all. -/
theorem forall_mem_stepAt {I : σ → Prop} (hstep : ∀ s t, I s → step s a = some t → I t)
    (hI : ∀ s ∈ ss, I s) (h : stepAt step ss i a = some ts) : ∀ t ∈ ts, I t := by
  obtain ⟨s, t, hs, ht, rfl⟩ := stepAt_eq_some.mp h
  intro u hu
  rcases List.mem_or_eq_of_mem_set hu with hold | rfl
  · exact hI u hold
  · exact hstep s u (hI s (List.mem_of_getElem? hs)) ht

/-- In a sum over the machines one summand is replaced. -/
theorem sum_map_set {M : Type*} [AddCommMonoid M] (m : σ → M) (hs : ss[i]? = some s) (t : σ) :
    ((ss.set i t).map m).sum + m s = (ss.map m).sum + m t := by
  obtain ⟨before, after, hsplit, -, hset⟩ := exists_split_of_getElem? hs
  rw [hset, hsplit]
  simp only [List.map_append, List.sum_append, List.map_cons, List.sum_cons]
  abel

def stepAny (step : σ → α → Option σ) (ss : List σ) (b : ℕ × α) : Option (List σ) :=
  stepAt step ss b.1 b.2

/-- A run of all machines is, for each of them, a run of its own. -/
theorem exists_run_of_run_stepAny {as : List (ℕ × α)}
    (h : run (stepAny step) ss as = some ts) (hs : ss[j]? = some s) :
    ∃ bs t, ts[j]? = some t ∧ run step s bs = some t := by
  induction as generalizing ss s with
  | nil =>
    rw [run_nil] at h
    exact ⟨[], s, Option.some.inj h ▸ hs, rfl⟩
  | cons b as ih =>
    obtain ⟨us, hus, h⟩ := run_cons_eq_some.mp h
    obtain ⟨u, hu, hstay | ⟨-, hstep⟩⟩ := getElem?_stepAt hus hs
    · exact ih h (hstay ▸ hu)
    · obtain ⟨bs, t, ht, hrun⟩ := ih h hu
      refine ⟨b.2 :: bs, t, ht, ?_⟩
      rw [run_cons, hstep]
      exact hrun

end Verif
