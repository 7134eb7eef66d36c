import Mathlib.Data.List.Basic
import Mathlib.Tactic.Common

/-! Runs of a partial step function over a list of inputs. A refused step ends
the run with `none`; a condition on steps is asked of every step that is taken. -/
namespace Verif

variable {σ α τ : Type*}

/-- The state reached by feeding every input, `none` once a step is refused. -/
def run (step : σ → α → Option σ) (s : σ) (as : List α) : Option σ :=
  as.foldlM step s

/-- Every step of the run meets `P` in the state it is taken from. -/
def Along (P : σ → α → Prop) (step : σ → α → Option σ) : σ → List α → Prop
  | _, [] => True
  | s, a :: as => P s a ∧ ∀ t, step s a = some t → Along P step t as

instance decidableAlong (P : σ → α → Prop) [∀ s a, Decidable (P s a)]
    (step : σ → α → Option σ) : ∀ s as, Decidable (Along P step s as)
  | _, [] => .isTrue trivial
  | s, a :: as =>
    match h : step s a with
    | none => decidable_of_iff (P s a) (by simp [Along, h])
    | some t =>
      have := decidableAlong P step t as
      decidable_of_iff (P s a ∧ Along P step t as) (by simp [Along, h])

@[simp] theorem run_nil (step : σ → α → Option σ) (s : σ) : run step s [] = some s := rfl

@[simp] theorem run_cons (step : σ → α → Option σ) (s : σ) (a : α) (as : List α) :
    run step s (a :: as) = (step s a).bind fun t => run step t as := rfl

/-- A run that succeeds, taken apart at its first step. -/
theorem run_cons_eq_some {step : σ → α → Option σ} {s t : σ} {a : α} {as : List α} :
    run step s (a :: as) = some t ↔ ∃ u, step s a = some u ∧ run step u as = some t :=
  Option.bind_eq_some_iff

theorem run_append (step : σ → α → Option σ) (s : σ) (as bs : List α) :
    run step s (as ++ bs) = (run step s as).bind fun t => run step t bs :=
  List.foldlM_append

/-- A run in which every step is allowed keeps an invariant that allowed steps keep. -/
theorem invariant_of_run {P : σ → α → Prop} {Inv : σ → Prop} {step : σ → α → Option σ}
    (hstep : ∀ s a t, Inv s → P s a → step s a = some t → Inv t)
    {s t : σ} {as : List α} (hs : Inv s) (ha : Along P step s as)
    (hr : run step s as = some t) : Inv t := by
  induction as generalizing s with
  | nil =>
    rw [run_nil] at hr
    exact Option.some.inj hr ▸ hs
  | cons a as ih =>
    obtain ⟨u, hu, hr⟩ := run_cons_eq_some.mp hr
    exact ih (hstep s a u hs ha.1 hu) (ha.2 u hu) hr

/-- Allowed steps that succeed and follow an abstract step give a run that
succeeds and follows the abstract run. -/
theorem simulation_of_run {P : σ → α → Prop} {R : σ → τ → Prop} {step : σ → α → Option σ}
    {spec : τ → α → τ}
    (hstep : ∀ s q a, R s q → P s a → ∃ t, step s a = some t ∧ R t (spec q a))
    {s : σ} {q : τ} {as : List α} (hs : R s q) (ha : Along P step s as) :
    ∃ t, run step s as = some t ∧ R t (as.foldl spec q) := by
  induction as generalizing s q with
  | nil => exact ⟨s, rfl, hs⟩
  | cons a as ih =>
    obtain ⟨u, hu, hR⟩ := hstep s q a hs ha.1
    obtain ⟨t, ht, hR'⟩ := ih hR (ha.2 u hu)
    refine ⟨t, ?_, hR'⟩
    rw [run_cons, hu]
    exact ht

/-- Steps that are refused together, or lead from related states to related states, give runs
that do. -/
theorem rel_run {β : Type*} {P : τ → β → Prop} {R : σ → τ → Prop} {step : σ → α → Option σ}
    {spec : τ → β → Option τ} {f : α → β}
    (hstep : ∀ s q a, R s q → P q (f a) → Option.Rel R (step s a) (spec q (f a)))
    {s : σ} {q : τ} {as : List α} (hs : R s q) (ha : Along P spec q (as.map f)) :
    Option.Rel R (run step s as) (run spec q (as.map f)) := by
  induction as generalizing s q with
  | nil => exact .some hs
  | cons a as ih =>
    have hone := hstep s q a hs ha.1
    rw [List.map_cons, run_cons, run_cons]
    cases hq : spec q (f a) with
    | none =>
      rw [hq] at hone
      cases hs' : step s a with
      | none => exact .none
      | some t =>
        rw [hs'] at hone
        cases hone
    | some p =>
      rw [hq] at hone
      cases hs' : step s a with
      | none =>
        rw [hs'] at hone
        cases hone
      | some t =>
        rw [hs'] at hone
        cases hone with
        | some hR => exact ih hR (ha.2 p hq)

theorem along_of_forall {P : σ → α → Prop} {step : σ → α → Option σ} (h : ∀ s a, P s a)
    (s : σ) (as : List α) : Along P step s as := by
  induction as generalizing s with
  | nil => trivial
  | cons a as ih => exact ⟨h s a, fun t _ => ih t⟩

/-- A condition on the inputs alone, which all of them meet. -/
theorem along_of_mem {P : α → Prop} {step : σ → α → Option σ} {as : List α}
    (h : ∀ a ∈ as, P a) (s : σ) : Along (fun _ a => P a) step s as := by
  induction as generalizing s with
  | nil => trivial
  | cons a as ih =>
    rw [List.forall_mem_cons] at h
    exact ⟨h.1, fun t _ => ih h.2 t⟩

/-- `invariant_of_run` where every step keeps the invariant. -/
theorem invariant_of_steps {I : σ → Prop} {step : σ → α → Option σ}
    (hstep : ∀ s a t, I s → step s a = some t → I t) {s t : σ} {as : List α} (hs : I s)
    (hr : run step s as = some t) : I t :=
  invariant_of_run (P := fun _ _ => True) (fun s a t h _ => hstep s a t h) hs
    (along_of_forall (fun _ _ => trivial) s as) hr

/-- A run in which each step lowers a measure is no longer than the measure. -/
theorem length_le_of_run {I : σ → Prop} {measure : σ → ℕ} {step : σ → α → Option σ}
    (hstep : ∀ s a t, I s → step s a = some t → I t ∧ measure t < measure s) {s t : σ}
    {as : List α} (hs : I s) (hr : run step s as = some t) : as.length + measure t ≤ measure s := by
  induction as generalizing s with
  | nil =>
    rw [run_nil] at hr
    obtain rfl := Option.some.inj hr
    exact Nat.le_of_eq (Nat.zero_add _)
  | cons a as ih =>
    obtain ⟨u, hu, hr⟩ := run_cons_eq_some.mp hr
    obtain ⟨hI, hlt⟩ := hstep s a u hs hu
    have hle := ih hI hr
    rw [List.length_cons]
    omega

/-- Steps of one kind are paid for by a measure, and by what steps of another kind add to it. -/
theorem countP_le_of_run {I : σ → Prop} {measure : σ → ℕ} {step : σ → α → Option σ}
    {p q : α → Bool} {k : ℕ}
    (hstep : ∀ s a t, I s → step s a = some t → I t ∧
      measure t+(if p a then 1 else 0) ≤ measure s+(if q a then k else 0))
    {s t : σ} {as : List α} (hs : I s) (hr : run step s as = some t) :
    I t ∧ measure t+as.countP p ≤ measure s+k*as.countP q := by
  induction as generalizing s with
  | nil =>
    rw [run_nil] at hr
    exact Option.some.inj hr ▸ ⟨hs, Nat.le_refl _⟩
  | cons a as ih =>
    obtain ⟨u, hu, hr⟩ := run_cons_eq_some.mp hr
    obtain ⟨hI, hfirst⟩ := hstep s a u hs hu
    obtain ⟨ht, hrest⟩ := ih hI hr
    refine ⟨ht, ?_⟩
    rw [List.countP_cons, List.countP_cons]
    have hgain : k*(as.countP q+if q a then 1 else 0) =
        k*as.countP q+if q a then k else 0 := by
      split
      · rw [Nat.mul_succ]
      · rw [Nat.add_zero, Nat.add_zero]
    omega

/-- A queue that steps fill behind, and that steps of one kind take the head of. -/
theorem queue_of_run {β : Type*} {P : σ → α → Prop} {I : σ → Prop} {step : σ → α → Option σ}
    {put : α → Option β} {takes : α → Bool} (queue : σ → List β)
    (hstep : ∀ s a t, I s → P s a → step s a = some t → I t ∧ ∃ taken : List β,
      taken.length = [a].countP takes ∧ queue s ++ [a].filterMap put = taken ++ queue t)
    {s t : σ} {as : List α} (hs : I s) (ha : Along P step s as) (hr : run step s as = some t) :
    queue t = (queue s ++ as.filterMap put).drop (as.countP takes) := by
  induction as generalizing s with
  | nil =>
    rw [run_nil] at hr
    obtain rfl := Option.some.inj hr
    exact (List.append_nil _).symm
  | cons a as ih =>
    obtain ⟨u, hu, hr⟩ := run_cons_eq_some.mp hr
    obtain ⟨hI, taken, hlen, hqueue⟩ := hstep s a u hs ha.1 hu
    rw [ih hI (ha.2 u hu) hr, ← List.singleton_append, List.filterMap_append, List.countP_append,
      ← List.append_assoc, hqueue, List.append_assoc, ← hlen, ← List.drop_drop, List.drop_left]

/-- The condition on a step that is taken after some others. -/
theorem along_append_cons {P : σ → α → Prop} {step : σ → α → Option σ} {s t : σ}
    (as : List α) {a : α} {bs : List α} (h : Along P step s (as ++ a :: bs))
    (hr : run step s as = some t) : P t a := by
  induction as generalizing s with
  | nil =>
    rw [run_nil] at hr
    exact Option.some.inj hr ▸ h.1
  | cons b as ih =>
    obtain ⟨u, hu, hr⟩ := run_cons_eq_some.mp hr
    exact ih (h.2 u hu) hr

/-- What the steps of a run do, when each is taken in a state of the invariant. -/
theorem along_of_invariant {P Q : σ → α → Prop} {Inv : σ → Prop} {step : σ → α → Option σ}
    (hPQ : ∀ s a, Inv s → P s a → Q s a)
    (hinv : ∀ s a t, Inv s → P s a → step s a = some t → Inv t)
    {s : σ} {as : List α} (hs : Inv s) (ha : Along P step s as) : Along Q step s as := by
  induction as generalizing s with
  | nil => trivial
  | cons a as ih =>
    exact ⟨hPQ s a hs ha.1, fun t ht => ih (hinv s a t hs ha.1 ht) (ha.2 t ht)⟩

theorem along_and {P Q : σ → α → Prop} {step : σ → α → Option σ} (s : σ) (as : List α) :
    Along (fun s a => P s a ∧ Q s a) step s as ↔ Along P step s as ∧ Along Q step s as := by
  induction as generalizing s with
  | nil => simp only [Along, and_self]
  | cons a as ih =>
    constructor
    · rintro ⟨⟨hP, hQ⟩, hrest⟩
      exact ⟨⟨hP, fun t ht => ((ih t).mp (hrest t ht)).1⟩,
        ⟨hQ, fun t ht => ((ih t).mp (hrest t ht)).2⟩⟩
    · rintro ⟨⟨hP, hP'⟩, hQ, hQ'⟩
      exact ⟨⟨hP, hQ⟩, fun t ht => (ih t).mpr ⟨hP' t ht, hQ' t ht⟩⟩

/-- Where safety of one step is equivalent to a condition on it, in every state
that safe steps can reach, a run is safe throughout exactly when every step
meets the condition. `H` is what the run is known to respect. -/
theorem along_iff_along {H P Q : σ → α → Prop} {Inv : σ → Prop} {step : σ → α → Option σ}
    (hiff : ∀ s a, Inv s → H s a → (P s a ↔ Q s a))
    (hinv : ∀ s a t, Inv s → H s a → Q s a → step s a = some t → Inv t)
    {s : σ} {as : List α} (hs : Inv s) (hH : Along H step s as) :
    Along P step s as ↔ Along Q step s as := by
  induction as generalizing s with
  | nil => exact Iff.rfl
  | cons a as ih =>
    have hstep (hQ : Q s a) (t : σ) (ht : step s a = some t) :=
      ih (hinv s a t hs hH.1 hQ ht) (hH.2 t ht)
    constructor
    · rintro ⟨hP, hrest⟩
      have hQ := (hiff s a hs hH.1).mp hP
      exact ⟨hQ, fun t ht => (hstep hQ t ht).mp (hrest t ht)⟩
    · rintro ⟨hQ, hrest⟩
      exact ⟨(hiff s a hs hH.1).mpr hQ, fun t ht => (hstep hQ t ht).mpr (hrest t ht)⟩

/-- A property of every state that a prefix of the run reaches, step by step. -/
theorem forall_run_take_iff {I : σ → Prop} {step : σ → α → Option σ} (s : σ) (as : List α) :
    (∀ n t, run step s (as.take n) = some t → I t) ↔
      I s ∧ Along (fun s a => ∀ t, step s a = some t → I t) step s as := by
  induction as generalizing s with
  | nil =>
    refine ⟨fun h => ⟨h 0 s rfl, trivial⟩, ?_⟩
    intro h n t ht
    rw [List.take_nil, run_nil] at ht
    exact Option.some.inj ht ▸ h.1
  | cons a as ih =>
    constructor
    · intro h
      have hnext (t : σ) (ht : step s a = some t) :=
        (ih t).mp fun n u hu => h (n+1) u (by rw [List.take_succ_cons, run_cons, ht]; exact hu)
      exact ⟨h 0 s rfl, fun t ht => (hnext t ht).1, fun t ht => (hnext t ht).2⟩
    · rintro ⟨hs, hstep, hrest⟩ n u hu
      cases n with
      | zero => exact Option.some.inj hu ▸ hs
      | succ n =>
        rw [List.take_succ_cons, run_cons_eq_some] at hu
        obtain ⟨t, ht, hu⟩ := hu
        exact (ih t).mpr ⟨hstep t ht, hrest t ht⟩ n u hu

/-- What the states of a run have in common, when each step is allowed. -/
theorem invariant_of_take {P : σ → α → Prop} {Inv : σ → Prop} {step : σ → α → Option σ}
    (hstep : ∀ s a t, Inv s → P s a → step s a = some t → Inv t)
    {s : σ} {as : List α} (hs : Inv s) (ha : Along P step s as) :
    ∀ n t, run step s (as.take n) = some t → Inv t := by
  rw [forall_run_take_iff]
  refine ⟨hs, along_of_invariant ?_ hstep hs ha⟩
  intro s a hs ha t
  exact hstep s a t hs ha

/-- Every state of a run has a property that an invariant implies, exactly when
each step meets the condition that keeps the invariant. -/
theorem forall_run_take_iff_along {H Q : σ → α → Prop} {I Inv : σ → Prop}
    {step : σ → α → Option σ} (hI : ∀ s, Inv s → I s)
    (hQ : ∀ s a, Inv s → H s a → (∀ t, step s a = some t → I t) → Q s a)
    (hstep : ∀ s a t, Inv s → H s a → Q s a → step s a = some t → Inv t)
    {s : σ} {as : List α} (hs : Inv s) (hH : Along H step s as) :
    (∀ n t, run step s (as.take n) = some t → I t) ↔ Along Q step s as := by
  rw [forall_run_take_iff]
  have hiff (s : σ) (a : α) (hs : Inv s) (hH : H s a) :
      (∀ t, step s a = some t → I t) ↔ Q s a :=
    ⟨hQ s a hs hH, fun hq t ht => hI t (hstep s a t hs hH hq ht)⟩
  have halong := along_iff_along hiff hstep hs hH
  constructor
  · rintro ⟨_, h⟩
    exact halong.mp h
  · intro h
    exact ⟨hI s hs, halong.mpr h⟩

/-- `along_iff_along` where nothing is known of the run. -/
theorem along_iff_of_invariant {P Q : σ → α → Prop} {I : σ → Prop} {step : σ → α → Option σ}
    (hiff : ∀ s a, I s → (P s a ↔ Q s a)) (hstep : ∀ s a t, I s → Q s a → step s a = some t → I t)
    {s : σ} (hs : I s) (as : List α) : Along P step s as ↔ Along Q step s as :=
  along_iff_along (H := fun _ _ => True) (fun s a h _ => hiff s a h)
    (fun s a t h _ => hstep s a t h) hs (along_of_forall (fun _ _ => trivial) s as)

/-- `forall_run_take_iff_along` where nothing is known of the run. -/
theorem forall_run_take_iff_of_invariant {Q : σ → α → Prop} {I J : σ → Prop}
    {step : σ → α → Option σ} (hJ : ∀ s, I s → J s)
    (hQ : ∀ s a, I s → (∀ t, step s a = some t → J t) → Q s a)
    (hstep : ∀ s a t, I s → Q s a → step s a = some t → I t) {s : σ} (hs : I s) (as : List α) :
    (∀ n t, run step s (as.take n) = some t → J t) ↔ Along Q step s as :=
  forall_run_take_iff_along (H := fun _ _ => True) hJ (fun s a h _ => hQ s a h)
    (fun s a t h _ => hstep s a t h) hs (along_of_forall (fun _ _ => trivial) s as)

/-- A run of a step relation, in which every step meets `P` in the state it is taken from. -/
inductive Path (P : σ → α → Prop) (step : σ → α → σ → Prop) : σ → List α → σ → Prop
  | nil (s : σ) : Path P step s [] s
  | cons {s t u : σ} {a : α} {as : List α} (hP : P s a) (h : step s a t)
      (hrest : Path P step t as u) : Path P step s (a :: as) u

theorem Path.invariant {P : σ → α → Prop} {step : σ → α → σ → Prop} {I : σ → Prop} {s t : σ}
    {as : List α} (h : Path P step s as t) (hstep : ∀ s a t, I s → P s a → step s a t → I t)
    (hs : I s) : I t := by
  induction h with
  | nil => exact hs
  | cons hP h _ ih => exact ih (hstep _ _ _ hs hP h)

end Verif
