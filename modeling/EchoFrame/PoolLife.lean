import EchoFrame.ThreadPool

/-! The whole life of `MyThreadPool`: `initialize`, `exec`, `stop`, `StopAfterAllDone` and
`wait` in any order and any number of times, next to the steps of the workers. -/
namespace EchoFrame
open Verif

variable {α : Type}

/-- Where the thread is that starts and stops the pool. It holds `mutex_` while it still
has assignments to make; `num` is there in a call of `initialize`. -/
inductive Owner
  | idle
  | assigning (todo : List (ℕ × Bool)) (num : Option ℕ)

/-- `executed`, `ran` and `dropped` are the jobs put in, run and cleared away so far. -/
structure PoolLife (α : Type) where
  workers_ : List (MyThread α) := []
  job_queue_ : List α := []
  owner : Owner := .idle
  executed : List α := []
  ran : List α := []
  dropped : List α := []

namespace PoolLife

def terminate (workers : List (MyThread α)) : List (ℕ × Bool) :=
  (List.range workers.length).map (·, false)

/-- `TerminateAfterAllDone` of every worker: `exit_` is set, then `exit_after_done_`. -/
def TerminateAfterAllDone (workers : List (MyThread α)) : List (ℕ × Bool) :=
  (List.range workers.length).flatMap fun i => [(i, false), (i, true)]

def clear (pool : PoolLife α) : PoolLife α :=
  { pool with job_queue_ := [], dropped := pool.dropped ++ pool.job_queue_ }

inductive Event (α : Type)
  | exec (job : α)
  | work (i : ℕ) (notified : Bool)
  | stop
  | stopAfterAllDone
  | initializes (num : ℕ)
  | assign
  | wait

/-- `initialize` stops the workers there are, clears the queue and adds new workers;
`wait` joins every worker before it clears anything. -/
def step (pool : PoolLife α) : Event α → Option (PoolLife α)
  | .exec job => some { pool with
      job_queue_ := pool.job_queue_ ++ [job], executed := pool.executed ++ [job] }
  | .work i notified =>
    match pool.workers_[i]? with
    | none => none
    | some thread =>
      match thread.run pool.job_queue_ notified with
      | none => none
      | some (thread, queue, ran) => some { pool with
          workers_ := pool.workers_.set i thread, job_queue_ := queue, ran := pool.ran ++ ran }
  | .stop =>
    match pool.owner with
    | .idle => some { pool with owner := .assigning (terminate pool.workers_) none }
    | .assigning _ _ => none
  | .stopAfterAllDone =>
    match pool.owner with
    | .idle => some { pool with owner := .assigning (TerminateAfterAllDone pool.workers_) none }
    | .assigning _ _ => none
  | .initializes num =>
    match pool.owner with
    | .idle => some { pool with owner := .assigning (terminate pool.workers_) (some num) }
    | .assigning _ _ => none
  | .assign =>
    match pool.owner with
    | .idle => none
    | .assigning ((i, second) :: todo) num => some { pool with
        workers_ := pool.workers_.modify i (MyThreadPool.terminateAfterAllDone · second)
        owner := .assigning todo num }
    | .assigning [] none => some { pool with owner := .idle }
    | .assigning [] (some num) => some { pool.clear with
        workers_ := pool.workers_ ++ List.replicate num {}, owner := .idle }
  | .wait =>
    match pool.owner with
    | .idle =>
      if pool.workers_.all (·.point.hasLeft) then some { pool.clear with workers_ := [] } else none
    | .assigning _ _ => none

def running (workers : List (MyThread α)) : Multiset α :=
  (workers.map fun thread => thread.point.job).sum

/-- The jobs leave the queue in the order in which they came, and each of them is run once,
is being run, or has been cleared away. -/
def Accounted (pool : PoolLife α) : Prop :=
  ∃ taken, taken ++ pool.job_queue_ = pool.executed ∧
    (taken : Multiset α) = pool.ran + running pool.workers_ + pool.dropped

/-- A step of a worker takes at most one job, from the front. -/
theorem exists_taken_of_run {thread thread' : MyThread α} {queue queue' ran : List α}
    {notified : Bool} (h : thread.run queue notified = some (thread', queue', ran)) :
    ∃ taken, queue = taken ++ queue' := by
  have hpop {empty point : RunPoint α} (heq : popJob queue empty = (point, queue')) :
      ∃ taken, queue = taken ++ queue' := by
    cases queue with
    | nil =>
      cases heq
      exact ⟨[], rfl⟩
    | cons job queue =>
      cases heq
      exact ⟨[job], rfl⟩
  rcases thread with ⟨exit_, exit_after_done_, point⟩
  cases point with
  | getJob =>
    cases h
    exact hpop rfl
  | waiting =>
    cases notified with
    | true =>
      cases h
      exact hpop rfl
    | false =>
      cases h
      exact ⟨[], rfl⟩
  | left => cases h
  | _ =>
    cases h
    exact ⟨[], rfl⟩

theorem step_work {pool pool' : PoolLife α} {i : ℕ} {notified : Bool}
    (h : pool.step (.work i notified) = some pool') :
    ∃ thread thread' queue ran, pool.workers_[i]? = some thread ∧
      thread.run pool.job_queue_ notified = some (thread', queue, ran) ∧
      pool' = { pool with
        workers_ := pool.workers_.set i thread', job_queue_ := queue, ran := pool.ran ++ ran } := by
  simp only [step] at h
  split at h
  · cases h
  · rename_i thread hthread
    split at h
    · cases h
    · rename_i thread' queue ran hrun
      exact ⟨thread, thread', queue, ran, hthread, hrun, (Option.some.inj h).symm⟩

/-- What an assignment does: it sets a flag, or it is the end of a call, which for
`initialize` clears the queue and starts workers. -/
theorem step_assign {pool pool' : PoolLife α} (h : pool.step .assign = some pool') :
    (∃ i second todo num, pool.owner = .assigning ((i, second) :: todo) num ∧ pool' = { pool with
        workers_ := pool.workers_.modify i (MyThreadPool.terminateAfterAllDone · second)
        owner := .assigning todo num }) ∨
      pool' = { pool with owner := .idle } ∨
      ∃ num, pool' = { pool.clear with
        workers_ := pool.workers_ ++ List.replicate num {}, owner := .idle } := by
  simp only [step] at h
  split at h
  · cases h
  · next i second todo num howner =>
    exact .inl ⟨i, second, todo, num, howner, (Option.some.inj h).symm⟩
  · exact .inr (.inl (Option.some.inj h).symm)
  · next num _ => exact .inr (.inr ⟨num, (Option.some.inj h).symm⟩)

theorem step_wait {pool pool' : PoolLife α} (h : pool.step .wait = some pool') :
    (∀ thread ∈ pool.workers_, thread.point.hasLeft) ∧
      pool' = { pool.clear with workers_ := [] } := by
  simp only [step] at h
  split at h
  · obtain ⟨hall, hpool⟩ := Option.ite_none_right_eq_some.mp h
    exact ⟨List.all_eq_true.mp hall, (Option.some.inj hpool).symm⟩
  · cases h

/-- A call that begins changes nothing but where the owner is. -/
theorem exists_owner_of_step {pool pool' : PoolLife α} {event : Event α}
    (hevent : event = .stop ∨ event = .stopAfterAllDone ∨ ∃ num, event = .initializes num)
    (h : pool.step event = some pool') : ∃ owner, pool' = { pool with owner } := by
  rcases hevent with rfl | rfl | ⟨num, rfl⟩ <;> simp only [step] at h <;> split at h
  all_goals first
    | exact ⟨_, (Option.some.inj h).symm⟩
    | cases h

theorem accounted_clear {pool : PoolLife α} (h : pool.Accounted) : pool.clear.Accounted := by
  obtain ⟨taken, hqueue, htaken⟩ := h
  refine ⟨taken ++ pool.job_queue_, ?_, ?_⟩
  · exact (List.append_nil _).trans hqueue
  · unfold clear
    rw [← Multiset.coe_add, ← Multiset.coe_add, htaken, add_assoc]

theorem accounted_work {pool pool' : PoolLife α} (h : pool.Accounted) {i : ℕ} {notified : Bool}
    (hstep : pool.step (.work i notified) = some pool') : pool'.Accounted := by
  obtain ⟨taken, hqueue, htaken⟩ := h
  obtain ⟨thread, thread', queue, ran, hthread, hrun, rfl⟩ := step_work hstep
  obtain ⟨more, hmore⟩ := exists_taken_of_run hrun
  obtain ⟨_, hkept, _, _⟩ := MyThreadPool.run_spec hrun
  have hsum : running (pool.workers_.set i thread') + thread.point.job =
      running pool.workers_ + thread'.point.job := MyThreadPool.sum_job_set hthread thread'
  have hjob : thread.point.job + (more : Multiset α) = ran + thread'.point.job := by
    rw [hmore, ← Multiset.coe_add, ← add_assoc] at hkept
    exact add_right_cancel hkept
  refine ⟨taken ++ more, ?_, ?_⟩
  · rw [List.append_assoc, ← hmore, hqueue]
  · apply add_right_cancel (b := thread.point.job)
    calc ((taken ++ more : List α) : Multiset α) + thread.point.job
      _ = taken + (thread.point.job + more) := by
        rw [← Multiset.coe_add]
        abel
      _ = pool.ran + ran + pool.dropped + (running pool.workers_ + thread'.point.job) := by
        rw [htaken, hjob]
        abel
      _ = ↑(pool.ran ++ ran) + running (pool.workers_.set i thread') + pool.dropped +
          thread.point.job := by
        rw [← hsum, ← Multiset.coe_add]
        abel

/-- The jobs in hand depend on where the workers are. -/
theorem running_congr {workers workers' : List (MyThread α)}
    (h : workers'.map (·.point) = workers.map (·.point)) : running workers' = running workers := by
  have hjobs := congrArg (List.map RunPoint.job) h
  rw [List.map_map, List.map_map] at hjobs
  exact congrArg List.sum hjobs

theorem running_eq_zero {workers : List (MyThread α)}
    (h : ∀ thread ∈ workers, thread.point.job = 0) : running workers = 0 := by
  apply List.sum_eq_zero
  intro jobs hjobs
  obtain ⟨thread, hmem, rfl⟩ := List.mem_map.mp hjobs
  exact h thread hmem

theorem running_append (workers workers' : List (MyThread α)) :
    running (workers ++ workers') = running workers + running workers' := by
  simp only [running, List.map_append, List.sum_append]

/-- A worker that has just been started has no job in hand. -/
theorem running_replicate (num : ℕ) : running (List.replicate num ({} : MyThread α)) = 0 := by
  apply running_eq_zero
  intro thread hmem
  rw [List.eq_of_mem_replicate hmem]
  rfl

theorem running_of_left {workers : List (MyThread α)}
    (h : ∀ thread ∈ workers, thread.point.hasLeft) : running workers = 0 := by
  apply running_eq_zero
  intro thread hmem
  have hhas := h thread hmem
  revert hhas
  cases thread.point <;> simp [RunPoint.hasLeft, RunPoint.job]

theorem accounted_step {pool pool' : PoolLife α} {event : Event α} (h : pool.Accounted)
    (hstep : pool.step event = some pool') : pool'.Accounted := by
  have hcall (howner : ∃ owner, pool' = { pool with owner }) : pool'.Accounted := by
    obtain ⟨owner, rfl⟩ := howner
    exact h
  cases event with
  | exec job =>
    obtain ⟨taken, hqueue, htaken⟩ := h
    obtain rfl := Option.some.inj hstep
    exact ⟨taken, by rw [← List.append_assoc, hqueue], htaken⟩
  | work i notified => exact accounted_work h hstep
  | stop => exact hcall (exists_owner_of_step (.inl rfl) hstep)
  | stopAfterAllDone => exact hcall (exists_owner_of_step (.inr (.inl rfl)) hstep)
  | initializes num => exact hcall (exists_owner_of_step (.inr (.inr ⟨num, rfl⟩)) hstep)
  | assign =>
    obtain ⟨i, second, todo, num, _, rfl⟩ | rfl | ⟨num, rfl⟩ := step_assign hstep
    · obtain ⟨taken, hqueue, htaken⟩ := h
      refine ⟨taken, hqueue, ?_⟩
      rw [running_congr (MyThreadPool.points_modify pool.workers_ i second)]
      exact htaken
    · exact h
    · obtain ⟨taken, hqueue, htaken⟩ := accounted_clear h
      refine ⟨taken, hqueue, ?_⟩
      rw [running_append, running_replicate, add_zero]
      exact htaken
  | wait =>
    obtain ⟨hall, rfl⟩ := step_wait hstep
    obtain ⟨taken, hqueue, htaken⟩ := accounted_clear h
    refine ⟨taken, hqueue, ?_⟩
    have htaken' : (taken : Multiset α) = pool.ran + running pool.workers_ +
        (pool.dropped ++ pool.job_queue_ : List α) := htaken
    rw [htaken', running_of_left hall]
    rfl

/-- Whatever calls are made while the workers run, and however often the pool is stopped
and started again: no job is lost or run twice, and jobs are taken in the order of `exec`. -/
theorem jobs_accounted (events : List (Event α)) {pool : PoolLife α}
    (hrun : run step {} events = some pool) : pool.Accounted :=
  invariant_of_steps (fun _ _ _ h hstep => accounted_step h hstep) ⟨[], rfl, rfl⟩ hrun

/-- The pool is stopped with a job queued, started again and drained: two jobs are run
and one is cleared away. -/
theorem jobs_accounted_three : ∃ pool : PoolLife ℕ,
    run step {} [.exec 4, .initializes 1, .assign, .exec 5, .work 0 false, .work 0 false, .exec 6,
      .work 0 false, .stop, .assign, .work 0 false, .work 0 false, .work 0 false, .assign,
      .wait] = some pool ∧ pool.ran = [5] ∧ pool.dropped = [4, 6] ∧ pool.Accounted := by
  refine ⟨_, rfl, rfl, rfl, ?_⟩
  exact jobs_accounted [.exec 4, .initializes 1, .assign, .exec 5, .work 0 false, .work 0 false,
    .exec 6, .work 0 false, .stop, .assign, .work 0 false, .work 0 false, .work 0 false, .assign,
    .wait] rfl

def Event.isCall : Event α → Bool
  | .exec _ | .work _ _ | .assign => false
  | .stop | .stopAfterAllDone | .initializes _ | .wait => true

/-- The call of `stop` or `StopAfterAllDone` that is under way still sets `exit_` of every
worker that has it unset; and once it has returned, none has. -/
def Stopping (pool : PoolLife α) : Prop :=
  match pool.owner with
  | .idle => ∀ thread ∈ pool.workers_, thread.exit_
  | .assigning todo num => num = none ∧
      ∀ i thread, pool.workers_[i]? = some thread → thread.exit_ ∨ (i, false) ∈ todo

theorem stopping_of_call {pool pool' : PoolLife α} {event : Event α}
    (hevent : event = .stop ∨ event = .stopAfterAllDone) (h : pool.step event = some pool') :
    pool'.Stopping := by
  have hrange {i : ℕ} {thread : MyThread α} (hi : pool.workers_[i]? = some thread) :
      i ∈ List.range pool.workers_.length :=
    List.mem_range.mpr (List.getElem?_eq_some_iff.mp hi).1
  rcases hevent with rfl | rfl <;> simp only [step] at h <;> split at h
  · obtain rfl := Option.some.inj h
    exact ⟨rfl, fun i thread hi => .inr (List.mem_map.mpr ⟨i, hrange hi, rfl⟩)⟩
  · cases h
  · obtain rfl := Option.some.inj h
    exact ⟨rfl, fun i thread hi => .inr (List.mem_flatMap.mpr ⟨i, hrange hi, List.mem_cons_self⟩)⟩
  · cases h

/-- The assignment of one worker's flag, seen from a worker. -/
theorem exit_of_assigned {workers : List (MyThread α)} {i j : ℕ} {second : Bool}
    {todo : List (ℕ × Bool)} {thread : MyThread α}
    (h : ∀ i thread, workers[i]? = some thread → thread.exit_ ∨ (i, false) ∈ (j, second) :: todo)
    (hi : (workers.modify j (MyThreadPool.terminateAfterAllDone · second))[i]? = some thread) :
    thread.exit_ ∨ (i, false) ∈ todo := by
  rw [List.getElem?_modify, Option.map_eq_map] at hi
  obtain ⟨old, hold, rfl⟩ := Option.map_eq_some_iff.mp hi
  rcases h i old hold with hexit | hmem
  · left
    split
    · exact MyThreadPool.exit_terminateAfterAllDone hexit second
    · exact hexit
  · rcases List.mem_cons.mp hmem with heq | hmem
    · left
      cases heq
      rw [if_pos rfl]
      rfl
    · exact .inr hmem

theorem stopping_step {pool pool' : PoolLife α} {event : Event α} (h : pool.Stopping)
    (hevent : event.isCall = false) (hstep : pool.step event = some pool') : pool'.Stopping := by
  cases event with
  | exec job =>
    obtain rfl := Option.some.inj hstep
    exact h
  | work i notified =>
    obtain ⟨thread, thread', queue, ran, hthread, hrun, rfl⟩ := step_work hstep
    obtain ⟨hflag, _, _, _⟩ := MyThreadPool.run_spec hrun
    unfold Stopping at h ⊢
    dsimp only
    cases howner : pool.owner with
    | idle =>
      rw [howner] at h
      intro other hother
      rcases List.mem_or_eq_of_mem_set hother with hold | rfl
      · exact h other hold
      · exact hflag ▸ h thread (List.mem_of_getElem? hthread)
    | assigning todo num =>
      rw [howner] at h
      refine ⟨h.1, fun j other hj => ?_⟩
      rw [getElem?_set_of_getElem? hthread] at hj
      split at hj
      · next heq =>
        obtain rfl := Option.some.inj hj
        rw [hflag]
        exact h.2 j thread (heq ▸ hthread)
      · exact h.2 j other hj
  | assign =>
    unfold Stopping at h ⊢
    simp only [step] at hstep
    split at hstep
    · cases hstep
    · next j second todo num howner =>
      obtain rfl := Option.some.inj hstep
      rw [howner] at h
      exact ⟨h.1, fun i thread hi => exit_of_assigned h.2 hi⟩
    · next howner =>
      obtain rfl := Option.some.inj hstep
      rw [howner] at h
      intro thread hmem
      obtain ⟨i, hi⟩ := List.mem_iff_getElem?.mp hmem
      exact (h.2 i thread hi).resolve_right List.not_mem_nil
    · next num howner =>
      rw [howner] at h
      exact absurd h.1 (Option.some_ne_none num)
  | stop | stopAfterAllDone | initializes num | wait => cases hevent

/-- How many steps a worker whose `exit_` is set may take until it leaves or takes a job;
one that is to leave only when all is done goes round while jobs are queued. -/
def rank (empty : Bool) (thread : MyThread α) : ℕ :=
  match thread.exit_after_done_, empty, thread.point with
  | _, _, .left => 0
  | false, _, .testNotAfterDone => 1
  | false, _, .testJobNum => 2
  | false, _, .testAfterDone => 2
  | false, _, .testExit => 3
  | false, _, .running _ => 4
  | false, _, .waiting => 5
  | false, _, .getJob => 6
  | true, true, .testJobNum => 1
  | true, true, .testAfterDone => 2
  | true, true, .testExit => 3
  | true, true, .running _ => 4
  | true, true, .waiting => 4
  | true, true, .getJob => 5
  | true, true, .testNotAfterDone => 6
  | true, false, .getJob => 1
  | true, false, .testNotAfterDone => 2
  | true, false, .testJobNum => 3
  | true, false, .testAfterDone => 4
  | true, false, .testExit => 5
  | true, false, .running _ => 6
  | true, false, .waiting => 6

theorem rank_le (empty : Bool) (thread : MyThread α) : rank empty thread ≤ 6 := by
  unfold rank
  split <;> omega

/-- An upper bound on the steps that the workers have left. A job in the queue counts for
one more than all workers at their worst: when it is taken, that pays for them. -/
def work (pool : PoolLife α) : ℕ :=
  (pool.workers_.map (rank pool.job_queue_.isEmpty)).sum +
    (6*pool.workers_.length+1)*pool.job_queue_.length

theorem sum_rank_le (empty : Bool) (workers : List (MyThread α)) :
    (workers.map (rank empty)).sum ≤ 6*workers.length := by
  induction workers with
  | nil => exact Nat.le_refl _
  | cons thread workers ih =>
    have hle := rank_le empty thread
    rw [List.map_cons, List.sum_cons, List.length_cons]
    omega

theorem work_le (pool : PoolLife α) : pool.work ≤
    6*pool.workers_.length + (6*pool.workers_.length+1)*pool.job_queue_.length :=
  Nat.add_le_add_right (sum_rank_le _ _) _

/-- A worker whose `exit_` is set comes nearer to its end, or takes a job. -/
theorem rank_run {thread thread' : MyThread α} {queue queue' ran : List α} {notified : Bool}
    (hexit : thread.exit_) (h : thread.run queue notified = some (thread', queue', ran)) :
    thread'.exit_after_done_ = thread.exit_after_done_ ∧
      ((queue' = queue ∧ rank queue.isEmpty thread' < rank queue.isEmpty thread) ∨
        queue'.length+1 = queue.length) := by
  rcases thread with ⟨exit_, exit_after_done_, point⟩
  obtain rfl : exit_ = true := hexit
  cases point with
  | testExit =>
    cases h
    cases exit_after_done_ <;> cases queue <;> simp [rank]
  | testAfterDone =>
    cases h
    cases exit_after_done_ <;> cases queue <;> simp [rank]
  | testJobNum =>
    cases h
    cases exit_after_done_ <;> cases queue <;> simp [rank]
  | testNotAfterDone =>
    cases h
    cases exit_after_done_ <;> cases queue <;> simp [rank]
  | getJob =>
    cases queue <;> cases h
    · cases exit_after_done_ <;> simp [rank]
    · exact ⟨rfl, .inr rfl⟩
  | waiting =>
    -- only a notified worker looks at the queue again
    cases notified <;> cases queue <;> cases h
    · cases exit_after_done_ <;> simp [rank]
    · cases exit_after_done_ <;> simp [rank]
    · cases exit_after_done_ <;> simp [rank]
    · exact ⟨rfl, .inr rfl⟩
  | running job =>
    cases h
    cases exit_after_done_ <;> cases queue <;> simp [rank]
  | left => cases h

theorem work_step {pool pool' : PoolLife α} (hexit : ∀ thread ∈ pool.workers_, thread.exit_)
    {i : ℕ} {notified : Bool} (hstep : pool.step (.work i notified) = some pool') :
    (∀ thread ∈ pool'.workers_, thread.exit_) ∧ pool'.work < pool.work := by
  obtain ⟨thread, thread', queue, ran, hthread, hrun, rfl⟩ := step_work hstep
  have hthread' := hexit thread (List.mem_of_getElem? hthread)
  obtain ⟨hflag, _, _, _⟩ := MyThreadPool.run_spec hrun
  constructor
  · intro other hother
    rcases List.mem_or_eq_of_mem_set hother with hold | rfl
    · exact hexit other hold
    · exact hflag ▸ hthread'
  · unfold work
    dsimp only
    rw [List.length_set]
    obtain ⟨_, ⟨rfl, hlt⟩ | htaken⟩ := rank_run hthread' hrun
    · obtain ⟨before, after, hworkers, _, hset⟩ := exists_split_of_getElem? hthread
      rw [hset, hworkers]
      simp only [List.map_append, List.sum_append, List.map_cons, List.sum_cons]
      omega
    · -- a job has been taken, which counted for more than all workers do now
      have hle := sum_rank_le queue.isEmpty (pool.workers_.set i thread')
      rw [List.length_set] at hle
      rw [← htaken, Nat.mul_succ]
      omega

/-- After `stop` or `StopAfterAllDone` has returned, and with no job put in since, the
workers take a bounded number of steps, whatever their order and however their waits end;
and until all have left, one of them can take a step. -/
theorem shutdown_ends {call : Event α} (hcall : call = .stop ∨ call = .stopAfterAllDone)
    {pool stopped pool' : PoolLife α} {during : List (Event α)}
    (hduring : ∀ event ∈ during, event.isCall = false)
    (hrun : run step pool (call :: during) = some stopped) (hreturned : stopped.owner = .idle)
    {works : List (ℕ × Bool)}
    (hworks : run (fun pool w => pool.step (.work w.1 w.2)) stopped works = some pool') :
    works.length ≤ 6*stopped.workers_.length +
        (6*stopped.workers_.length+1)*stopped.job_queue_.length ∧
      ((∀ thread ∈ pool'.workers_, thread.point.hasLeft) ∨
        ∃ i, ∀ notified, ∃ pool'', pool'.step (.work i notified) = some pool'') := by
  have hexit : ∀ thread ∈ stopped.workers_, thread.exit_ := by
    obtain ⟨called, hstep, hrun⟩ := run_cons_eq_some.mp hrun
    have hstopping := invariant_of_run (fun _ _ _ => stopping_step) (stopping_of_call hcall hstep)
      (along_of_mem hduring called) hrun
    unfold Stopping at hstopping
    rw [hreturned] at hstopping
    exact hstopping
  constructor
  · have hle : works.length+pool'.work ≤ stopped.work :=
      length_le_of_run (fun _ _ _ h hstep => work_step h hstep) hexit hworks
    have hbound := work_le stopped
    omega
  · by_cases hall : ∀ thread ∈ pool'.workers_, thread.point.hasLeft
    · exact .inl hall
    · push Not at hall
      obtain ⟨thread, hmem, hleft⟩ := hall
      obtain ⟨i, hi⟩ := List.mem_iff_getElem?.mp hmem
      refine .inr ⟨i, fun notified => ?_⟩
      cases hrun : thread.run pool'.job_queue_ notified with
      | none =>
        exfalso
        revert hrun hleft
        unfold MyThread.run
        cases thread.point <;> simp [RunPoint.hasLeft]
      | some next =>
        obtain ⟨thread', queue, ran⟩ := next
        simp only [step, hi, hrun]
        exact ⟨_, rfl⟩

/-- When `StopAfterAllDone` is called one worker waits, one runs job 4, and job 7 is in the
queue. The second worker runs both jobs; they leave after fourteen steps. -/
theorem shutdown_ends_two :
    let pool : PoolLife ℕ :=
      { workers_ := [⟨false, false, .waiting⟩, ⟨false, false, .running 4⟩], job_queue_ := [7] }
    let works := List.replicate 6 (1, false) ++ List.replicate 4 (0, false) ++
      List.replicate 4 (1, false)
    let pool' : PoolLife ℕ :=
      { workers_ := [⟨true, true, .left⟩, ⟨true, true, .left⟩], ran := [4, 7] }
    ∃ stopped, run step pool (.stopAfterAllDone :: List.replicate 5 .assign) = some stopped ∧
      run (fun pool w => pool.step (.work w.1 w.2)) stopped works = some pool' ∧
      works.length ≤ 6*2+(6*2+1)*1 ∧
      ((∀ thread ∈ pool'.workers_, thread.point.hasLeft) ∨
        ∃ i, ∀ notified, ∃ pool'', pool'.step (.work i notified) = some pool'') := by
  intro pool works pool'
  let stopped : PoolLife ℕ :=
    { workers_ := [⟨true, true, .waiting⟩, ⟨true, true, .running 4⟩], job_queue_ := [7] }
  have hrun : run step pool (.stopAfterAllDone :: List.replicate 5 .assign) = some stopped := rfl
  have hworks : run (fun pool w => pool.step (.work w.1 w.2)) stopped works = some pool' := rfl
  exact ⟨stopped, hrun, hworks, shutdown_ends (.inr rfl) (by decide) hrun rfl hworks⟩

end PoolLife
end EchoFrame
