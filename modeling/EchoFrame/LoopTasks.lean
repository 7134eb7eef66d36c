import EchoFrame.Verif.Run

/-! The task queue of `MyLoop`: threads push a task and then signal, the loop drains
the queue in the callback of its async watcher. -/
namespace EchoFrame
open Verif

variable {ι α : Type}

/-- `between` holds the threads that have pushed and not yet signalled, `signals` the
signals that no callback has answered yet, `running` the task the callback has taken;
`pushed` and `executed` are all the tasks so far. -/
structure MyLoop (ι α : Type) where
  queue_ : List α := []
  between : List ι := []
  signals : ℕ := 0
  draining : Bool := false
  running : Option α := none
  pushed : List α := []
  executed : List α := []

namespace MyLoop

inductive Event (ι α : Type)
  | push (i : ι) (f : α)
  | signal (i : ι)
  | callback (answered : ℕ)
  | pop
  | call

def Event.ofLoop : Event ι α → Bool
  | .push _ _ | .signal _ => false
  | .callback _ | .pop | .call => true

def Event.task : Event ι α → Option α
  | .push _ f => some f
  | _ => none

/-- The two steps of `RunInThreadOrImmediate` from another thread, and those of the
callback: it starts for any number of signals that are pending, takes a task, calls it,
and ends when there is none. A task is a bound function, which is never empty. -/
def step [DecidableEq ι] (s : MyLoop ι α) : Event ι α → Option (MyLoop ι α)
  | .push i f =>
    if i ∈ s.between then none else
      some { s with
        queue_ := s.queue_ ++ [f], pushed := s.pushed ++ [f], between := i :: s.between }
  | .signal i =>
    if i ∈ s.between then
      some { s with between := s.between.erase i, signals := s.signals+1 }
    else none
  | .callback answered =>
    if s.draining = false ∧ 0 < answered ∧ answered ≤ s.signals then
      some { s with draining := true, signals := s.signals-answered }
    else none
  | .pop =>
    if s.draining ∧ s.running = none then
      match s.queue_ with
      | [] => some { s with draining := false }
      | f :: queue => some { s with running := some f, queue_ := queue }
    else none
  | .call =>
    match s.running with
    | none => none
    | some f => some { s with running := none, executed := s.executed ++ [f] }

/-- Every task is in one place and in order; only a drain runs tasks; and a queued
task has somebody to see to it. -/
structure Inv (s : MyLoop ι α) : Prop where
  kept : s.executed ++ s.running.toList ++ s.queue_ = s.pushed
  drains : s.running ≠ none → s.draining
  awake : s.queue_ ≠ [] → s.draining ∨ 0 < s.signals ∨ s.between ≠ []

theorem inv_initial : ({} : MyLoop ι α).Inv where
  kept := rfl
  drains := fun h => absurd rfl h
  awake := fun h => absurd rfl h

variable [DecidableEq ι]

inductive Moves (s : MyLoop ι α) : Event ι α → MyLoop ι α → Prop
  | push (i : ι) (f : α) : Moves s (.push i f)
      { s with queue_ := s.queue_ ++ [f], pushed := s.pushed ++ [f], between := i :: s.between }
  | signal (i : ι) : Moves s (.signal i)
      { s with between := s.between.erase i, signals := s.signals+1 }
  | callback (answered : ℕ) (hdraining : s.draining = false) : Moves s (.callback answered)
      { s with draining := true, signals := s.signals-answered }
  | drained (hdraining : s.draining) (hrunning : s.running = none) (hqueue : s.queue_ = []) :
      Moves s .pop { s with draining := false }
  | taken {f : α} {queue : List α} (hdraining : s.draining) (hrunning : s.running = none)
      (hqueue : s.queue_ = f :: queue) : Moves s .pop { s with running := some f, queue_ := queue }
  | called {f : α} (hrunning : s.running = some f) :
      Moves s .call { s with running := none, executed := s.executed ++ [f] }

theorem moves_of_step {s t : MyLoop ι α} {event : Event ι α} (hstep : s.step event = some t) :
    Moves s event t := by
  cases event with
  | push i f =>
    obtain ⟨_, ht⟩ := Option.ite_none_left_eq_some.mp hstep
    exact Option.some.inj ht ▸ .push i f
  | signal i =>
    obtain ⟨_, ht⟩ := Option.ite_none_right_eq_some.mp hstep
    exact Option.some.inj ht ▸ .signal i
  | callback answered =>
    obtain ⟨⟨hdraining, _⟩, ht⟩ := Option.ite_none_right_eq_some.mp hstep
    exact Option.some.inj ht ▸ .callback answered hdraining
  | pop =>
    obtain ⟨⟨hdraining, hrunning⟩, ht⟩ := Option.ite_none_right_eq_some.mp hstep
    split at ht
    · next hqueue => exact Option.some.inj ht ▸ .drained hdraining hrunning hqueue
    · next f queue hqueue => exact Option.some.inj ht ▸ .taken hdraining hrunning hqueue
  | call =>
    simp only [step] at hstep
    split at hstep
    · cases hstep
    · next f hrunning => exact Option.some.inj hstep ▸ .called hrunning

theorem inv_step {s t : MyLoop ι α} (h : s.Inv) {event : Event ι α}
    (hstep : s.step event = some t) : t.Inv := by
  have hkept := h.kept
  cases moves_of_step hstep with
  | push i f =>
    refine ⟨?_, h.drains, fun _ => .inr (.inr (List.cons_ne_nil _ _))⟩
    rw [← hkept, List.append_assoc _ s.queue_]
  | signal i => exact ⟨hkept, h.drains, fun _ => .inr (.inl (Nat.succ_pos _))⟩
  | callback answered hdraining => exact ⟨hkept, fun _ => rfl, fun _ => .inl rfl⟩
  | drained hdraining hrunning hqueue =>
    exact ⟨hkept, fun hne => absurd hrunning hne, fun hne => absurd hqueue hne⟩
  | taken hdraining hrunning hqueue =>
    refine ⟨?_, fun _ => hdraining, fun _ => .inl hdraining⟩
    rw [hrunning, hqueue] at hkept
    simpa using hkept
  | @called f hrunning =>
    have hdraining : s.draining := h.drains (by rw [hrunning]; exact Option.some_ne_none f)
    refine ⟨?_, fun hne => absurd rfl hne, fun _ => .inl hdraining⟩
    rw [hrunning] at hkept
    simpa using hkept

theorem inv_run {s t : MyLoop ι α} (h : s.Inv) {events : List (Event ι α)}
    (hrun : run step s events = some t) : t.Inv :=
  invariant_of_steps (fun _ _ _ h hstep => inv_step h hstep) h hrun

/-- An upper bound on the steps of the loop until `n` tasks have been executed. -/
def rank (s : MyLoop ι α) (n : ℕ) : ℕ :=
  2*(n-s.executed.length)-s.running.toList.length+(if s.draining then 0 else 1)

/-- No step takes a task back, and a step of the loop brings the first `n` tasks nearer
to their end. A drain does not stop before. -/
theorem step_progress {s t : MyLoop ι α} (h : s.Inv) {event : Event ι α}
    (hstep : s.step event = some t) :
    s.pushed <+: t.pushed ∧ s.executed.length ≤ t.executed.length ∧
      ∀ n ≤ s.pushed.length, n ≤ t.executed.length ∨
        t.rank n + (if event.ofLoop then 1 else 0) ≤ s.rank n := by
  have hlength := congrArg List.length h.kept
  rw [List.length_append, List.length_append] at hlength
  cases moves_of_step hstep with
  | push i f => exact ⟨List.prefix_append _ _, Nat.le_refl _, fun n _ => .inr (Nat.le_refl _)⟩
  | signal i => exact ⟨List.prefix_rfl, Nat.le_refl _, fun n _ => .inr (Nat.le_refl _)⟩
  | callback answered hdraining =>
    -- a drain begins, which is what the last summand of the rank counted
    refine ⟨List.prefix_rfl, Nat.le_refl _, fun n _ => .inr ?_⟩
    simp [rank, hdraining, Event.ofLoop]
  | drained hdraining hrunning hqueue =>
    rw [hrunning, hqueue, Option.toList_none, List.length_nil] at hlength
    exact ⟨List.prefix_rfl, Nat.le_refl _, fun n hn => .inl (by dsimp only; omega)⟩
  | taken hdraining hrunning hqueue =>
    rw [hrunning, Option.toList_none, List.length_nil] at hlength
    refine ⟨List.prefix_rfl, Nat.le_refl _, fun n hn => ?_⟩
    simp only [rank, hdraining, hrunning, Event.ofLoop, Option.toList_none, Option.toList_some,
      List.length_nil, List.length_singleton, if_true]
    omega
  | called hrunning =>
    refine ⟨List.prefix_rfl, ?_, fun n hn => ?_⟩
    · dsimp only
      rw [List.length_append]
      omega
    · simp only [rank, hrunning, Event.ofLoop, Option.toList_none, Option.toList_some,
        List.length_append, List.length_nil, List.length_singleton, if_true]
      omega

/-- Once the loop has taken enough steps, the first `n` tasks have been executed. -/
theorem run_progress {s t : MyLoop ι α} (h : s.Inv) {later : List (Event ι α)}
    (hrun : run step s later = some t) :
    s.pushed <+: t.pushed ∧ s.executed.length ≤ t.executed.length ∧
      ∀ n ≤ s.pushed.length, n ≤ t.executed.length ∨
        t.rank n+later.countP Event.ofLoop ≤ s.rank n := by
  induction later generalizing s with
  | nil =>
    rw [run_nil] at hrun
    cases hrun
    exact ⟨List.prefix_rfl, Nat.le_refl _, fun n _ => .inr (Nat.le_refl _)⟩
  | cons event later ih =>
    obtain ⟨mid, hstep, hrun⟩ := run_cons_eq_some.mp hrun
    obtain ⟨hpushed, hexecuted, hrank⟩ := step_progress h hstep
    obtain ⟨hpushed', hexecuted', hrank'⟩ := ih (inv_step h hstep) hrun
    refine ⟨hpushed.trans hpushed', Nat.le_trans hexecuted hexecuted', fun n hn => ?_⟩
    rw [List.countP_cons]
    rcases hrank n hn with hdone | hnear
    · exact .inl (Nat.le_trans hdone hexecuted')
    · rcases hrank' n (Nat.le_trans hn hpushed.length_le) with hdone | hnear'
      · exact .inl hdone
      · exact .inr (by omega)

/-- While a task waits, the loop can take a step or a thread can signal. -/
theorem exists_step_of_pending {s : MyLoop ι α} (h : s.Inv) (hne : s.executed ≠ s.pushed) :
    (∃ event t, event.ofLoop ∧ s.step event = some t) ∨ ∃ i t, s.step (.signal i) = some t := by
  cases hrunning : s.running with
  | some f =>
    refine .inl ⟨.call, { s with running := none, executed := s.executed ++ [f] }, rfl, ?_⟩
    simp only [step, hrunning]
  | none =>
    have hqueue : s.queue_ ≠ [] := by
      intro hnil
      have hkept := h.kept
      rw [hrunning, hnil, Option.toList_none, List.append_nil, List.append_nil] at hkept
      exact hne hkept
    by_cases hdraining : s.draining
    · obtain ⟨f, queue, heq⟩ := List.exists_cons_of_ne_nil hqueue
      refine .inl ⟨.pop, { s with running := some f, queue_ := queue }, rfl, ?_⟩
      simp only [step, hdraining, hrunning, heq, and_self, if_true]
    · rcases h.awake hqueue with hdrain | hsignals | hbetween
      · exact absurd hdrain hdraining
      · refine .inl ⟨.callback s.signals, _, rfl, if_pos ⟨?_, hsignals, Nat.le_refl _⟩⟩
        exact Bool.eq_false_iff.mpr hdraining
      · obtain ⟨i, hi⟩ := List.exists_mem_of_ne_nil _ hbetween
        exact .inr ⟨i, _, if_pos hi⟩

theorem pushed_step {s t : MyLoop ι α} {event : Event ι α} (hstep : s.step event = some t) :
    t.pushed = s.pushed ++ event.task.toList := by
  cases moves_of_step hstep with
  | push i f => rfl
  | signal i => exact (List.append_nil _).symm
  | callback answered hdraining => exact (List.append_nil _).symm
  | drained hdraining hrunning hqueue => exact (List.append_nil _).symm
  | taken hdraining hrunning hqueue => exact (List.append_nil _).symm
  | called hrunning => exact (List.append_nil _).symm

theorem pushed_run {s t : MyLoop ι α} {events : List (Event ι α)}
    (hrun : run step s events = some t) :
    t.pushed = s.pushed ++ events.filterMap Event.task := by
  induction events generalizing s with
  | nil =>
    rw [run_nil] at hrun
    cases hrun
    exact (List.append_nil _).symm
  | cons event events ih =>
    obtain ⟨mid, hstep, hrun⟩ := run_cons_eq_some.mp hrun
    rw [ih hrun, pushed_step hstep, List.append_assoc, List.filterMap_cons]
    cases event.task <;> rfl

theorem between_step_of_ofLoop {s t : MyLoop ι α} {event : Event ι α} (hloop : event.ofLoop)
    (hstep : s.step event = some t) : t.between = s.between := by
  cases moves_of_step hstep with
  | push i f => cases hloop
  | signal i => cases hloop
  | callback answered hdraining => rfl
  | drained hdraining hrunning hqueue => rfl
  | taken hdraining hrunning hqueue => rfl
  | called hrunning => rfl

/-- The threads that have pushed send their signals. -/
theorem run_signals (s : MyLoop ι α) :
    run step s (s.between.map .signal) =
      some { s with between := [], signals := s.signals+s.between.length } := by
  obtain ⟨queue_, between, signals, draining, running, pushed, executed⟩ := s
  induction between generalizing signals with
  | nil => rfl
  | cons i between ih =>
    have hsignal : step ⟨queue_, i :: between, signals, draining, running, pushed, executed⟩
        (.signal i) =
        some ⟨queue_, between, signals+1, draining, running, pushed, executed⟩ := by
      simp only [step, List.mem_cons_self, if_true, List.erase_cons_head]
    rw [List.map_cons, run_cons, hsignal, Option.bind_some, ih]
    simp only [List.length_cons, Nat.add_comm between.length 1, Nat.add_assoc]

/-- With no thread before its signal the steps of the loop alone execute every task. -/
theorem exists_drain {s : MyLoop ι α} (h : s.Inv) (hbetween : s.between = []) :
    ∃ later t, (∀ event ∈ later, event.ofLoop) ∧ run step s later = some t ∧
      t.executed = s.pushed := by
  induction hrank : s.rank s.pushed.length using Nat.strongRecOn generalizing s with
  | _ r ih =>
    subst hrank
    by_cases hdone : s.executed = s.pushed
    · exact ⟨[], s, fun _ hmem => absurd hmem List.not_mem_nil, rfl, hdone⟩
    rcases exists_step_of_pending h hdone with ⟨event, mid, hloop, hstep⟩ | ⟨i, mid, hsignal⟩
    · have hpushed : mid.pushed = s.pushed := by
        rw [pushed_step hstep]
        cases event with
        | push i f => cases hloop
        | signal i => cases hloop
        | callback answered => exact List.append_nil _
        | pop => exact List.append_nil _
        | call => exact List.append_nil _
      have hmid := inv_step h hstep
      rcases (step_progress h hstep).2.2 s.pushed.length (Nat.le_refl _) with hall | hnear
      · refine ⟨[event], mid, fun e hmem => List.mem_singleton.mp hmem ▸ hloop, ?_, ?_⟩
        · rw [run_cons, hstep]
          rfl
        · have hprefix : mid.executed <+: s.pushed := by
            rw [← hpushed, ← hmid.kept, List.append_assoc]
            exact List.prefix_append _ _
          exact hprefix.eq_of_length_le hall
      · rw [if_pos hloop] at hnear
        rw [← hpushed] at hnear
        obtain ⟨later, t, hofLoop, hrun, hexecuted⟩ := ih _ (Nat.lt_of_succ_le (hpushed ▸ hnear))
          hmid ((between_step_of_ofLoop hloop hstep).trans hbetween) rfl
        refine ⟨event :: later, t, ?_, ?_, hexecuted.trans hpushed⟩
        · intro e hmem
          rcases List.mem_cons.mp hmem with rfl | hmem
          · exact hloop
          · exact hofLoop e hmem
        · rw [run_cons, hstep]
          exact hrun
    · have hmem := (Option.ite_none_right_eq_some.mp hsignal).1
      rw [hbetween] at hmem
      cases hmem

/-- In every state of every run: the executed tasks are a front part of the pushed ones,
in order and each once, and a thread that is not before its signal can push; a task in the
queue has a drain, a signal or a thread before its signal; all tasks pushed so far have been
executed once the loop has taken twice as many steps and one, whatever the threads do
meanwhile; the signals of the threads that have pushed and steps of the loop execute all of
them; and until then the loop can take a step, once those threads have signalled. -/
theorem no_wakeup_lost (events : List (Event ι α)) (s : MyLoop ι α)
    (hrun : run step {} events = some s) :
    s.executed ++ s.running.toList ++ s.queue_ = events.filterMap Event.task ∧
      (∀ i f, i ∉ s.between → ∃ t, s.step (.push i f) = some t) ∧
      (s.queue_ ≠ [] → s.draining ∨ 0 < s.signals ∨ s.between ≠ []) ∧
      (∀ later t, run step s later = some t →
        2*(events.filterMap Event.task).length < later.countP Event.ofLoop →
        events.filterMap Event.task <+: t.executed) ∧
      (∃ later t, (∀ event ∈ later, event.ofLoop) ∧
        run step s (s.between.map .signal ++ later) = some t ∧
        t.executed = events.filterMap Event.task) ∧
      (s.executed ≠ events.filterMap Event.task → s.between = [] →
        ∃ event t, event.ofLoop ∧ s.step event = some t) := by
  have h : s.Inv := inv_run inv_initial hrun
  have hevents : events.filterMap Event.task = s.pushed := (pushed_run hrun).symm
  rw [hevents]
  refine ⟨h.kept, fun i f hi => ⟨_, if_neg hi⟩, h.awake, ?_, ?_, ?_⟩
  · intro later t hlater hcount
    obtain ⟨hpushed, _, hrank⟩ := run_progress h hlater
    have hdone : s.pushed.length ≤ t.executed.length := by
      rcases hrank s.pushed.length (Nat.le_refl _) with hdone | hnear
      · exact hdone
      · have hrank : s.rank s.pushed.length ≤ 2*s.pushed.length+1 := by
          unfold rank
          split <;> omega
        by_contra hlt
        have hpos : 0 < t.rank s.pushed.length := by
          have hrunning : t.running.toList.length ≤ 1 := by
            cases t.running <;> simp
          unfold rank
          omega
        omega
    have hexecuted : t.executed <+: t.pushed := by
      rw [← (inv_run h hlater).kept, List.append_assoc]
      exact List.prefix_append _ _
    exact List.prefix_of_prefix_length_le hpushed hexecuted hdone
  · obtain ⟨later, t, hloop, hlater, hexecuted⟩ :=
      exists_drain (inv_run h (run_signals s)) rfl
    refine ⟨later, t, hloop, ?_, hexecuted⟩
    rw [run_append, run_signals]
    exact hlater
  · intro hne hbetween
    rcases exists_step_of_pending h hne with hloop | ⟨i, t, hsignal⟩
    · exact hloop
    · have hmem := (Option.ite_none_right_eq_some.mp hsignal).1
      rw [hbetween] at hmem
      cases hmem

/-- Two threads push, their signals become one; the second task is seen to by the drain,
and both are executed. -/
theorem no_wakeup_lost_of_two_threads : ∃ s : MyLoop ℕ ℕ,
    run step {} [.push 0 4, .push 1 5, .signal 1, .signal 0, .callback 2, .pop] = some s ∧
      s.queue_ = [5] ∧ (s.queue_ ≠ [] → s.draining ∨ 0 < s.signals ∨ s.between ≠ []) ∧
      ∃ later t, (∀ event ∈ later, event.ofLoop) ∧
        run step s (s.between.map .signal ++ later) = some t ∧ t.executed = [4, 5] :=
  have h := no_wakeup_lost (ι := ℕ)
    [.push 0 4, .push 1 5, .signal 1, .signal 0, .callback 2, .pop] _ rfl
  ⟨_, rfl, rfl, h.2.2.1, h.2.2.2.2.1⟩

end MyLoop
end EchoFrame
