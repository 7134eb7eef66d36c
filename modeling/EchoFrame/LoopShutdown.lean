import EchoFrame.LoopTasks

/-! The end of `MyLoop`: `stop` from another thread, the check of `exit_` in the callback of
the queue, and `start`, which goes round until it sees `exit_`. -/
namespace EchoFrame
open Verif

variable {ι α : Type}

inductive LoopPhase
  | entering
  | running
  | checking
  | broken
  | ended
  deriving DecidableEq

/-- The thread of a loop. `stopping` says that a thread is in `stop`, with `mutex_`, and has
set `exit_` but not signalled yet. -/
structure LoopThread (ι α : Type) where
  loop : MyLoop ι α := {}
  phase : LoopPhase := .entering
  exit_ : Bool := false
  stopping : Bool := false

namespace LoopThread

inductive Event (ι α : Type)
  | queue (event : MyLoop.Event ι α)
  | stop
  | stopSignal
  | enter
  | check
  | leave

def Event.ofLoop : Event ι α → Bool
  | .queue event => event.ofLoop
  | .stop | .stopSignal => false
  | .enter | .check | .leave => true

def Event.pushes : Event ι α → Bool
  | .queue (.push _ _) => true
  | _ => false

/-- Whether a step of the queue waits for `mutex_`. -/
def locks : MyLoop.Event ι α → Bool
  | .signal _ => true
  | _ => false

/-- One step of the thread of the loop or of another one. The queue is drained inside of
`ev_run` only. -/
def step [DecidableEq ι] (s : LoopThread ι α) : Event ι α → Option (LoopThread ι α)
  | .queue event =>
    if (event.ofLoop → s.phase = .running) ∧ (locks event → s.stopping = false) then
      (s.loop.step event).map fun loop =>
        -- the drain is over when the queue was empty, then the callback looks at exit_
        { s with
          loop := loop
          phase := if s.loop.draining ∧ loop.draining = false then .checking else s.phase }
    else none
  | .stop =>
    if s.stopping then none else some { s with exit_ := true, stopping := true }
  | .stopSignal =>
    if s.stopping then
      some { s with stopping := false, loop := { s.loop with signals := s.loop.signals+1 } }
    else none
  | .enter =>
    if s.phase = .entering then
      some { s with phase := if s.exit_ then .ended else .running }
    else none
  | .check =>
    -- ev_break, or back to the wait for the next signal
    if s.phase = .checking then
      some { s with phase := if s.exit_ then .broken else .running }
    else none
  | .leave =>
    if s.phase = .broken then some { s with phase := .entering } else none

/-- Outside of `ev_run` nothing is drained; the loop is left only when `exit_` is set; and
after that a loop that waits has a signal, or the thread in `stop` is about to give one. -/
structure Inv (s : LoopThread ι α) : Prop where
  loop : s.loop.Inv
  still : s.phase ≠ .running → s.loop.draining = false
  left : s.phase = .broken ∨ s.phase = .ended → s.exit_
  awake : s.exit_ → s.phase = .running → s.loop.draining = false →
    0 < s.loop.signals ∨ s.stopping

theorem inv_initial : ({} : LoopThread ι α).Inv where
  loop := MyLoop.inv_initial
  still := fun _ => rfl
  left := by simp
  awake := by simp

/-- What has been executed when nothing is drained. -/
theorem executed_of_still {s : LoopThread ι α} (h : s.Inv) (hphase : s.phase ≠ .running) :
    s.loop.executed ++ s.loop.queue_ = s.loop.pushed := by
  have hrunning : s.loop.running = none := by
    by_contra hne
    have hdraining := h.loop.drains hne
    rw [h.still hphase] at hdraining
    cases hdraining
  have hkept := h.loop.kept
  rwa [hrunning, Option.toList_none, List.append_nil] at hkept

variable [DecidableEq ι]

inductive Moves (s : LoopThread ι α) : Event ι α → LoopThread ι α → Prop
  /-- another thread pushes or signals -/
  | other {event : MyLoop.Event ι α} {loop : MyLoop ι α} (hloop : s.loop.step event = some loop)
      (hother : event.ofLoop = false) (hdraining : loop.draining = s.loop.draining)
      (hsignals : s.loop.signals ≤ loop.signals) : Moves s (.queue event) { s with loop := loop }
  /-- the callback of the queue goes on -/
  | drain {event : MyLoop.Event ι α} {loop : MyLoop ι α} (hloop : s.loop.step event = some loop)
      (hof : event.ofLoop) (hphase : s.phase = .running) (hdraining : loop.draining) :
      Moves s (.queue event) { s with loop := loop }
  /-- it finds the queue empty -/
  | drained (hphase : s.phase = .running) (hdraining : s.loop.draining)
      (hrunning : s.loop.running = none) (hqueue : s.loop.queue_ = []) :
      Moves s (.queue .pop) { s with loop := { s.loop with draining := false }, phase := .checking }
  | stop (hstopping : s.stopping = false) :
      Moves s .stop { s with exit_ := true, stopping := true }
  | stopSignal (hstopping : s.stopping) : Moves s .stopSignal
      { s with stopping := false, loop := { s.loop with signals := s.loop.signals+1 } }
  | enter (hphase : s.phase = .entering) :
      Moves s .enter { s with phase := if s.exit_ then .ended else .running }
  | check (hphase : s.phase = .checking) :
      Moves s .check { s with phase := if s.exit_ then .broken else .running }
  | leave (hphase : s.phase = .broken) : Moves s .leave { s with phase := .entering }

variable {s t : LoopThread ι α} {event : Event ι α}

theorem moves_of_queue (h : s.Inv) {event : MyLoop.Event ι α} {loop : MyLoop ι α}
    (hof : event.ofLoop → s.phase = .running) (hloop : s.loop.step event = some loop) :
    Moves s (.queue event) { s with
      loop := loop
      phase := if s.loop.draining ∧ loop.draining = false then .checking else s.phase } := by
  -- only the pop that finds nothing ends a drain
  have hsame (hkept : s.loop.draining → loop.draining) :
      (if s.loop.draining ∧ loop.draining = false then LoopPhase.checking else s.phase) =
        s.phase := by
    apply if_neg
    rintro ⟨hbefore, hafter⟩
    rw [hkept hbefore] at hafter
    cases hafter
  cases MyLoop.moves_of_step hloop with
  | push i f =>
    rw [hsame id]
    exact .other hloop rfl rfl (Nat.le_refl _)
  | signal i =>
    rw [hsame id]
    exact .other hloop rfl rfl (Nat.le_succ _)
  | callback answered hdraining =>
    rw [hsame fun _ => rfl]
    exact .drain hloop rfl (hof rfl) rfl
  | drained hdraining hrunning hqueue =>
    rw [if_pos ⟨hdraining, rfl⟩]
    exact .drained (hof rfl) hdraining hrunning hqueue
  | taken hdraining hrunning hqueue =>
    rw [hsame id]
    exact .drain hloop rfl (hof rfl) hdraining
  | called hrunning =>
    rw [hsame id]
    apply Moves.drain hloop rfl (hof rfl)
    apply h.loop.drains
    rw [hrunning]
    exact Option.some_ne_none _

theorem moves_of_step (h : s.Inv) (hstep : s.step event = some t) : Moves s event t := by
  cases event with
  | queue event =>
    obtain ⟨⟨hof, _⟩, hmap⟩ := Option.ite_none_right_eq_some.mp hstep
    obtain ⟨loop, hloop, rfl⟩ := Option.map_eq_some_iff.mp hmap
    exact moves_of_queue h hof hloop
  | stop =>
    obtain ⟨hstopping, ht⟩ := Option.ite_none_left_eq_some.mp hstep
    exact Option.some.inj ht ▸ .stop (Bool.eq_false_iff.mpr hstopping)
  | stopSignal =>
    obtain ⟨hstopping, ht⟩ := Option.ite_none_right_eq_some.mp hstep
    exact Option.some.inj ht ▸ .stopSignal hstopping
  | enter =>
    obtain ⟨hphase, ht⟩ := Option.ite_none_right_eq_some.mp hstep
    exact Option.some.inj ht ▸ .enter hphase
  | check =>
    obtain ⟨hphase, ht⟩ := Option.ite_none_right_eq_some.mp hstep
    exact Option.some.inj ht ▸ .check hphase
  | leave =>
    obtain ⟨hphase, ht⟩ := Option.ite_none_right_eq_some.mp hstep
    exact Option.some.inj ht ▸ .leave hphase

theorem inv_step (h : s.Inv) (hstep : s.step event = some t) : t.Inv := by
  cases moves_of_step h hstep with
  | @other event loop hloop hother hdraining hsignals =>
    refine ⟨MyLoop.inv_step h.loop hloop, ?_, h.left, ?_⟩
    · intro hphase
      exact hdraining.trans (h.still hphase)
    · intro hexit hphase hwaits
      have hbefore := h.awake hexit hphase (hdraining.symm.trans hwaits)
      exact hbefore.imp_left fun hpos => Nat.lt_of_lt_of_le hpos hsignals
  | @drain event loop hloop hof hphase hdraining =>
    refine ⟨MyLoop.inv_step h.loop hloop, ?_, h.left, ?_⟩
    · exact fun hout => absurd hphase hout
    · intro _ _ hwaits
      rw [show loop.draining = true from hdraining] at hwaits
      cases hwaits
  | drained hphase hdraining hrunning hqueue =>
    have hloop : s.loop.step .pop = some { s.loop with draining := false } := by
      simp only [MyLoop.step, hdraining, hrunning, hqueue, and_self, if_true]
    exact ⟨MyLoop.inv_step h.loop hloop, fun _ => rfl, by simp, by simp⟩
  | stop hstopping =>
    exact ⟨h.loop, h.still, fun _ => rfl, fun _ _ _ => .inr rfl⟩
  | stopSignal hstopping =>
    refine ⟨?_, h.still, h.left, fun _ _ _ => .inl (Nat.succ_pos _)⟩
    exact ⟨h.loop.kept, h.loop.drains, fun _ => .inr (.inl (Nat.succ_pos _))⟩
  | enter hphase =>
    have hstill := h.still (by rw [hphase]; decide)
    refine ⟨h.loop, fun _ => hstill, ?_, ?_⟩
    · cases hexit : s.exit_ <;> simp
    · cases hexit : s.exit_ <;> simp
  | check hphase =>
    have hstill := h.still (by rw [hphase]; decide)
    refine ⟨h.loop, fun _ => hstill, ?_, ?_⟩
    · cases hexit : s.exit_ <;> simp
    · cases hexit : s.exit_ <;> simp
  | leave hphase =>
    have hstill := h.still (by rw [hphase]; decide)
    exact ⟨h.loop, fun _ => hstill, by simp, by simp⟩

theorem inv_run (h : s.Inv) {events : List (Event ι α)} (hrun : run step s events = some t) :
    t.Inv :=
  invariant_of_steps (fun _ _ _ h hstep => inv_step h hstep) h hrun

/-- No step takes back a task that was pushed or executed, or the order to end. -/
theorem kept_of_moves (h : s.Inv) (hmoves : Moves s event t) :
    s.loop.pushed <+: t.loop.pushed ∧ s.loop.executed.length ≤ t.loop.executed.length ∧
      (s.exit_ → t.exit_) := by
  cases hmoves with
  | other hloop _ _ _ =>
    have hprogress := MyLoop.step_progress h.loop hloop
    exact ⟨hprogress.1, hprogress.2.1, id⟩
  | drain hloop _ _ _ =>
    have hprogress := MyLoop.step_progress h.loop hloop
    exact ⟨hprogress.1, hprogress.2.1, id⟩
  | stop _ => exact ⟨List.prefix_rfl, Nat.le_refl _, fun _ => rfl⟩
  | drained _ _ _ _ | stopSignal _ | enter _ | check _ | leave _ =>
    exact ⟨List.prefix_rfl, Nat.le_refl _, id⟩

/-- Once `exit_` is set and the loop does not run, it never runs again. -/
theorem over_step (h : s.Inv) (hstep : s.step event = some t)
    (hover : s.exit_ ∧ s.phase ≠ .running) :
    (t.exit_ ∧ t.phase ≠ .running) ∧ t.loop.executed = s.loop.executed := by
  obtain ⟨hexit, hphase⟩ := hover
  cases moves_of_step h hstep with
  | other hloop hother _ _ =>
    refine ⟨⟨hexit, hphase⟩, ?_⟩
    cases MyLoop.moves_of_step hloop with
    | push _ _ | signal _ => rfl
    | callback _ _ | drained _ _ _ | taken _ _ _ | called _ => cases hother
  | drain _ _ hrunning _ => exact absurd hrunning hphase
  | drained hrunning _ _ _ => exact absurd hrunning hphase
  | stop _ => exact ⟨⟨rfl, hphase⟩, rfl⟩
  | stopSignal _ => exact ⟨⟨hexit, hphase⟩, rfl⟩
  | enter _ =>
    refine ⟨⟨hexit, ?_⟩, rfl⟩
    dsimp only
    rw [if_pos hexit]
    decide
  | check _ =>
    refine ⟨⟨hexit, ?_⟩, rfl⟩
    dsimp only
    rw [if_pos hexit]
    decide
  | leave _ =>
    refine ⟨⟨hexit, ?_⟩, rfl⟩
    dsimp only
    decide

/-- A running loop leaves `ev_run` only after it has executed all that was pushed. -/
theorem owed_step (h : s.Inv) {n : ℕ} (hn : n ≤ s.loop.pushed.length)
    (hstep : s.step event = some t)
    (howed : s.phase = .running ∨ n ≤ s.loop.executed.length) :
    t.phase = .running ∨ n ≤ t.loop.executed.length := by
  have hmoves := moves_of_step h hstep
  have hexecuted := (kept_of_moves h hmoves).2.1
  rcases howed with hphase | hdone
  · cases hmoves with
    | other _ _ _ _ | drain _ _ _ _ | stop _ | stopSignal _ => exact .inl hphase
    | drained _ _ hrunning hqueue =>
      have hkept := h.loop.kept
      rw [hrunning, hqueue, Option.toList_none, List.append_nil, List.append_nil] at hkept
      apply Or.inr
      rw [← hkept] at hn
      exact hn
    | enter hother | check hother | leave hother =>
      rw [hphase] at hother
      cases hother
  · exact .inr (Nat.le_trans hdone hexecuted)

/-- A thread that is outside of `ev_run` when `exit_` is set executes nothing more. -/
theorem executed_of_over (h : s.Inv) (hexit : s.exit_) (hphase : s.phase ≠ .running)
    {later : List (Event ι α)} (hrun : run step s later = some t) :
    t.loop.executed = s.loop.executed := by
  have hover := invariant_of_steps (I := fun u : LoopThread ι α =>
    u.Inv ∧ (u.exit_ ∧ u.phase ≠ .running) ∧ u.loop.executed = s.loop.executed)
    ?_ ⟨h, ⟨hexit, hphase⟩, rfl⟩ hrun
  · exact hover.2.2
  · intro u event v ⟨hu, hout, hsame⟩ hstep
    have hnext := over_step hu hstep hout
    exact ⟨inv_step hu hstep, hnext.1, hnext.2.trans hsame⟩

/-- A thread that is inside of `ev_run` leaves it with all that was pushed until now. -/
theorem executed_of_running (h : s.Inv) (hphase : s.phase = .running)
    {later : List (Event ι α)} (hrun : run step s later = some t) :
    t.phase = .running ∨ s.loop.pushed <+: t.loop.executed := by
  have howed := invariant_of_steps (I := fun u : LoopThread ι α =>
    u.Inv ∧ s.loop.pushed <+: u.loop.pushed ∧
      (u.phase = .running ∨ s.loop.pushed.length ≤ u.loop.executed.length))
    ?_ ⟨h, List.prefix_rfl, .inl hphase⟩ hrun
  · obtain ⟨ht, hpushed, hrunning | hdone⟩ := howed
    · exact .inl hrunning
    · have hexecuted : t.loop.executed <+: t.loop.pushed := by
        rw [← ht.loop.kept, List.append_assoc]
        exact List.prefix_append _ _
      exact .inr (List.prefix_of_prefix_length_le hpushed hexecuted hdone)
  · intro u event v ⟨hu, hpushed, howed⟩ hstep
    have hkept := (kept_of_moves hu (moves_of_step hu hstep)).1
    exact ⟨inv_step hu hstep, hpushed.trans hkept, owed_step hu hpushed.length_le hstep howed⟩

/-- A thread calls `stop` in a run of the loop. When `start` has returned, every task is
executed or still in the queue, once and in order; and the tasks pushed before `stop` have
been executed, unless the loop was then not in `ev_run` yet, or in its callback between the
empty queue and the check of `exit_`, and the queue was not empty. -/
theorem stop_executes_iff (before later : List (Event ι α)) (s t u : LoopThread ι α)
    (hrun : run step {} before = some s) (hexit : s.exit_ = false)
    (hstop : s.step .stop = some t) (hlater : run step t later = some u)
    (hended : u.phase = .ended) :
    u.loop.executed ++ u.loop.queue_ = u.loop.pushed ∧
      (s.loop.pushed <+: u.loop.executed ↔
        (s.phase = .entering ∨ s.phase = .checking → s.loop.queue_ = [])) := by
  have hs : s.Inv := inv_run inv_initial hrun
  have ht : t.Inv := inv_step hs hstop
  obtain ⟨-, hset⟩ := Option.ite_none_left_eq_some.mp hstop
  obtain rfl := Option.some.inj hset
  have hu : u.Inv := inv_run ht hlater
  have hout : u.phase ≠ .running := by
    rw [hended]
    decide
  refine ⟨executed_of_still hu hout, ?_⟩
  by_cases hphase : s.phase = .running
  · -- the loop is in ev_run, and has to empty the queue to leave it
    have hdone := (executed_of_running ht hphase hlater).resolve_left hout
    constructor
    · intro _ hother
      rw [hphase] at hother
      simp at hother
    · exact fun _ => hdone
  · -- the loop is not, and what is in the queue now stays there
    have hsame := executed_of_over ht rfl hphase hlater
    have hkept := executed_of_still hs hphase
    have hplace : s.phase = .entering ∨ s.phase = .checking := by
      have hleft := hs.left
      cases hat : s.phase with
      | entering => exact .inl rfl
      | running => exact absurd hat hphase
      | checking => exact .inr rfl
      | broken =>
        rw [hleft (.inl hat)] at hexit
        cases hexit
      | ended =>
        rw [hleft (.inr hat)] at hexit
        cases hexit
    dsimp only at hsame
    rw [hsame, ← hkept]
    constructor
    · intro hpre _
      have hlength := hpre.length_le
      rw [List.length_append] at hlength
      apply List.eq_nil_of_length_eq_zero
      omega
    · intro hqueue
      refine ⟨[], ?_⟩
      rw [hqueue hplace, List.append_nil, List.append_nil]

/-- The second task is pushed after the callback has found the queue empty; the loop ends
without it. -/
theorem stop_executes_one : ∃ u : LoopThread ℕ ℕ,
    run step {} ([.enter, .queue (.push 0 1), .queue (.signal 0), .queue (.callback 1),
      .queue .pop, .queue .call, .queue .pop, .queue (.push 0 2)] ++
      .stop :: [.stopSignal, .check, .leave, .enter]) = some u ∧
    u.loop.executed ++ u.loop.queue_ = [1, 2] ∧ ¬ [1, 2] <+: u.loop.executed := by
  refine ⟨_, rfl, ?_⟩
  have hall := stop_executes_iff (ι := ℕ) (α := ℕ) [.enter, .queue (.push 0 1),
    .queue (.signal 0), .queue (.callback 1), .queue .pop, .queue .call, .queue .pop,
    .queue (.push 0 2)] [.stopSignal, .check, .leave, .enter] _ _ _ rfl rfl rfl rfl rfl
  refine ⟨hall.1, fun hpre => ?_⟩
  exact List.cons_ne_nil _ _ (hall.2.mp hpre (.inr rfl))

/-- The steps of the loop until `start` returns, once `exit_` is set and nobody pushes. -/
def rank (s : LoopThread ι α) : ℕ :=
  match s.phase with
  | .running =>
    2*s.loop.queue_.length+s.loop.running.toList.length+(if s.loop.draining then 4 else 5)
  | .checking => 3
  | .broken => 2
  | .entering => 1
  | .ended => 0

omit [DecidableEq ι] in
theorem Inv.rank_le (h : s.Inv) : s.rank ≤ 2*s.loop.queue_.length+5 := by
  have hrunning : s.loop.running.toList.length+(if s.loop.draining then 4 else 5) ≤ 5 := by
    cases htask : s.loop.running with
    | none =>
      rw [Option.toList_none, List.length_nil]
      split <;> decide
    | some f =>
      have hdraining := h.loop.drains (by rw [htask]; exact Option.some_ne_none f)
      rw [if_pos hdraining]
      exact Nat.le_refl _
  unfold rank
  split <;> omega

/-- A task that comes costs two steps, one to take it and one to call it. -/
theorem rank_step (h : s.Inv) (hexit : s.exit_) (hstep : s.step event = some t) :
    t.rank+(if event.ofLoop then 1 else 0) ≤ s.rank+(if event.pushes then 2 else 0) := by
  cases moves_of_step h hstep with
  | @other event loop hloop hother hdraining _ =>
    cases hphase : s.phase with
    | running =>
      cases MyLoop.moves_of_step hloop with
      | push _ _ =>
        simp only [rank, hphase, Event.ofLoop, MyLoop.Event.ofLoop, Event.pushes,
          List.length_append, List.length_singleton, if_true, Bool.false_eq_true, if_false]
        omega
      | signal _ => simp [rank, hphase, Event.ofLoop, MyLoop.Event.ofLoop, Event.pushes]
      | callback _ _ | drained _ _ _ | taken _ _ _ | called _ => cases hother
    | entering | checking | broken | ended =>
      simp only [rank, hphase, Event.ofLoop, hother, Bool.false_eq_true, if_false]
      omega
  | @drain event loop hloop hof hphase hdraining =>
    have hdrains := h.loop.drains
    cases MyLoop.moves_of_step hloop with
    | push _ _ | signal _ => cases hof
    | callback answered hbefore =>
      simp [rank, hphase, hbefore, Event.ofLoop, MyLoop.Event.ofLoop, Event.pushes]
    | drained _ _ _ => cases hdraining
    | taken hbefore hrunning hqueue =>
      simp only [rank, hphase, hbefore, hrunning, hqueue, Event.ofLoop, MyLoop.Event.ofLoop,
        Event.pushes, Option.toList_none, Option.toList_some, List.length_nil, List.length_cons,
        if_true, Bool.false_eq_true, if_false]
      omega
    | called hrunning =>
      have hbefore := hdrains (by rw [hrunning]; exact Option.some_ne_none _)
      simp only [rank, hphase, hbefore, hrunning, Event.ofLoop, MyLoop.Event.ofLoop,
        Event.pushes, Option.toList_none, Option.toList_some, List.length_nil, List.length_cons,
        if_true, Bool.false_eq_true, if_false]
      omega
  | drained hphase hdraining hrunning hqueue =>
    simp [rank, hphase, hdraining, hrunning, hqueue, Event.ofLoop, MyLoop.Event.ofLoop,
      Event.pushes]
  | stop _ => exact Nat.le_refl _
  | stopSignal _ => exact Nat.le_refl _
  | enter hphase => simp [rank, hphase, hexit, Event.ofLoop, Event.pushes]
  | check hphase => simp [rank, hphase, hexit, Event.ofLoop, Event.pushes]
  | leave hphase => simp [rank, hphase, Event.ofLoop, Event.pushes]

theorem rank_run (h : s.Inv) (hexit : s.exit_) {later : List (Event ι α)}
    (hrun : run step s later = some t) :
    t.exit_ ∧ t.rank+later.countP Event.ofLoop ≤ s.rank+2*later.countP Event.pushes := by
  have hstep (s : LoopThread ι α) (event : Event ι α) (t : LoopThread ι α)
      (hs : s.Inv ∧ s.exit_) (hstep : s.step event = some t) : (t.Inv ∧ t.exit_) ∧
      t.rank+(if event.ofLoop then 1 else 0) ≤ s.rank+(if event.pushes then 2 else 0) := by
    obtain ⟨h, hexit⟩ := hs
    have hkept := (kept_of_moves h (moves_of_step h hstep)).2.2 hexit
    exact ⟨⟨inv_step h hstep, hkept⟩, rank_step h hexit hstep⟩
  have hall := countP_le_of_run hstep ⟨h, hexit⟩ hrun
  exact ⟨hall.1.2, hall.2⟩

/-- A drain goes on until the queue is empty. -/
theorem exists_step_of_draining {s : MyLoop ι α} (hdraining : s.draining) :
    ∃ event t, event.ofLoop ∧ s.step event = some t := by
  cases hrunning : s.running with
  | some f =>
    refine ⟨.call, { s with running := none, executed := s.executed ++ [f] }, rfl, ?_⟩
    simp only [MyLoop.step, hrunning]
  | none =>
    cases hqueue : s.queue_ with
    | nil =>
      refine ⟨.pop, { s with draining := false }, rfl, ?_⟩
      simp only [MyLoop.step, hdraining, hrunning, hqueue, and_self, if_true]
    | cons f queue =>
      refine ⟨.pop, { s with running := some f, queue_ := queue }, rfl, ?_⟩
      simp only [MyLoop.step, hdraining, hrunning, hqueue, and_self, if_true]

/-- Until it has ended, the loop can take a step or the thread in `stop` can signal. -/
theorem exists_step_of_exit (h : s.Inv) (hexit : s.exit_) (hphase : s.phase ≠ .ended) :
    (∃ event t, event.ofLoop ∧ s.step event = some t) ∨ ∃ t, s.step .stopSignal = some t := by
  cases hat : s.phase with
  | entering => exact .inl ⟨.enter, _, rfl, if_pos hat⟩
  | checking => exact .inl ⟨.check, _, rfl, if_pos hat⟩
  | broken => exact .inl ⟨.leave, _, rfl, if_pos hat⟩
  | ended => exact absurd hat hphase
  | running =>
    -- in ev_run a step of the queue is a step of the thread, and none of them takes mutex_
    have hqueue : (∃ event loop, event.ofLoop ∧ s.loop.step event = some loop) →
        ∃ event t, event.ofLoop ∧ s.step event = some t := by
      intro ⟨event, loop, hof, hloop⟩
      have hlocks : locks event = false := by
        cases event with
        | push _ _ | signal _ => cases hof
        | callback _ | pop | call => rfl
      have hopen : locks event → s.stopping = false := by
        rw [hlocks]
        exact fun hlocked => absurd hlocked Bool.false_ne_true
      have hstep : s.step (.queue event) = (s.loop.step event).map _ :=
        if_pos ⟨fun _ => hat, hopen⟩
      rw [hloop] at hstep
      exact ⟨.queue event, _, hof, hstep⟩
    by_cases hdraining : s.loop.draining
    · exact .inl (hqueue (exists_step_of_draining hdraining))
    · have hwaits : s.loop.draining = false := Bool.eq_false_iff.mpr hdraining
      rcases h.awake hexit hat hwaits with hsignals | hstopping
      · exact .inl (hqueue ⟨.callback 1, _, rfl, if_pos ⟨hwaits, Nat.one_pos, hsignals⟩⟩)
      · exact .inr ⟨_, if_pos hstopping⟩

/-- Once `exit_` is set, the thread of the loop takes at most `2*s.loop.queue_.length+5` steps,
and two more for every task that is pushed meanwhile; and as long as `start` has not returned
it can take a step, or the thread in `stop` is about to signal it. -/
theorem stop_ends (before later : List (Event ι α)) (s t : LoopThread ι α)
    (hrun : run step {} before = some s) (hexit : s.exit_)
    (hlater : run step s later = some t) :
    later.countP Event.ofLoop ≤
        2*s.loop.queue_.length+5+2*later.countP Event.pushes ∧
      (t.phase ≠ .ended → (∃ event u, event.ofLoop ∧ t.step event = some u) ∨
        ∃ u, t.step .stopSignal = some u) := by
  have hs : s.Inv := inv_run inv_initial hrun
  have hrank := rank_run hs hexit hlater
  refine ⟨?_, exists_step_of_exit (inv_run hs hlater) hrank.1⟩
  calc later.countP Event.ofLoop
      ≤ t.rank+later.countP Event.ofLoop := Nat.le_add_left _ _
    _ ≤ s.rank+2*later.countP Event.pushes := hrank.2
    _ ≤ 2*s.loop.queue_.length+5+2*later.countP Event.pushes := Nat.add_le_add_right hs.rank_le _

/-- A task waits when `exit_` is set, another comes during the drain, and the loop ends after
nine steps of its own. -/
theorem stop_ends_two : ∃ s t : LoopThread ℕ ℕ,
    run step {} [.enter, .queue (.push 0 1), .stop] = some s ∧
    run step s [.stopSignal, .queue (.callback 1), .queue .pop, .queue (.push 1 2), .queue .call,
      .queue .pop, .queue .call, .queue .pop, .check, .leave, .enter] = some t ∧
    t.phase = .ended ∧ t.loop.executed = [1, 2] ∧ 9 ≤ 2*s.loop.queue_.length+5+2*1 := by
  refine ⟨_, _, rfl, rfl, rfl, rfl, ?_⟩
  exact (stop_ends (ι := ℕ) (α := ℕ) [.enter, .queue (.push 0 1), .stop] [.stopSignal,
    .queue (.callback 1), .queue .pop, .queue (.push 1 2), .queue .call, .queue .pop,
    .queue .call, .queue .pop, .check, .leave, .enter] _ _ rfl rfl rfl).1

end LoopThread

end EchoFrame
