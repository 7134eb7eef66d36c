import EchoFrame.Verif.Entries
import EchoFrame.Verif.Run
import Mathlib.Algebra.BigOperators.Group.Multiset.Basic
import Mathlib.Tactic.Abel

/-! The workers of `MyThreadPool` while `StopAfterAllDone` sets their flags, one
assignment and one read at a time. -/
namespace EchoFrame
open Verif

variable {α : Type}

/-- Where a worker is in `run`, and the job it has taken. -/
inductive RunPoint (α : Type)
  | testExit
  | testAfterDone
  | testJobNum
  | testNotAfterDone
  | getJob
  | waiting
  | running (job : α)
  | left
deriving DecidableEq

namespace RunPoint

def sawExit : RunPoint α → Bool
  | .testAfterDone | .testJobNum | .testNotAfterDone | .left => true
  | _ => false

def hasLeft : RunPoint α → Bool
  | .left => true
  | _ => false

def job : RunPoint α → Multiset α
  | .running job => {job}
  | _ => 0

end RunPoint

structure MyThread (α : Type) where
  exit_ : Bool := false
  exit_after_done_ : Bool := false
  point : RunPoint α := .testExit
deriving DecidableEq

/-- `popFront` once it holds the lock and the queue is not waited for. -/
def popJob (queue : List α) (empty : RunPoint α) : RunPoint α × List α :=
  match queue with
  | [] => (empty, [])
  | job :: queue => (.running job, queue)

/-- One step of `MyThread::run` on a queue: the thread, the queue and the jobs run.
A wait of 500 ms ends by a notification or by the timeout. A job is a fresh
`packaged_task`, which is valid. -/
def MyThread.run (thread : MyThread α) (queue : List α) (notified : Bool) :
    Option (MyThread α × List α × List α) :=
  match thread.point with
  | .testExit =>
    let point := if thread.exit_ then .testAfterDone else .getJob
    some ({ thread with point }, queue, [])
  | .testAfterDone =>
    let point := if thread.exit_after_done_ then .testJobNum else .testNotAfterDone
    some ({ thread with point }, queue, [])
  | .testJobNum =>
    let point := if queue.isEmpty then .left else .testNotAfterDone
    some ({ thread with point }, queue, [])
  | .testNotAfterDone =>
    let point := if thread.exit_after_done_ then .getJob else .left
    some ({ thread with point }, queue, [])
  | .getJob =>
    let (point, queue) := popJob queue .waiting
    some ({ thread with point }, queue, [])
  | .waiting =>
    let (point, queue) := if notified then popJob queue .testExit else (.testExit, queue)
    some ({ thread with point }, queue, [])
  | .running job => some ({ thread with point := .testExit }, queue, [job])
  | .left => none

/-- `assigned` counts the assignments that `StopAfterAllDone` has made, two for each
worker; `executed` and `ran` are the jobs put in and the jobs run so far. -/
structure MyThreadPool (α : Type) where
  workers_ : List (MyThread α)
  job_queue_ : List α
  assigned : ℕ
  executed : List α
  ran : List α

namespace MyThreadPool

def initial (num : ℕ) : MyThreadPool α := ⟨List.replicate num {}, [], 0, [], []⟩

/-- `TerminateAfterAllDone` of one worker: the first assignment, then the second. -/
def terminateAfterAllDone (thread : MyThread α) (second : Bool) : MyThread α :=
  if second then { thread with exit_after_done_ := true } else { thread with exit_ := true }

inductive Event (α : Type)
  | exec (job : α)
  | assign
  | work (i : ℕ) (notified : Bool)

/-- Jobs come before the call of `StopAfterAllDone`. -/
def step (pool : MyThreadPool α) : Event α → Option (MyThreadPool α)
  | .exec job =>
    if pool.assigned = 0 then
      some { pool with job_queue_ := pool.job_queue_ ++ [job], executed := pool.executed ++ [job] }
    else none
  | .assign =>
    if pool.assigned < 2*pool.workers_.length then
      some { pool with
        workers_ := pool.workers_.modify (pool.assigned/2)
          (terminateAfterAllDone · (pool.assigned%2 = 1))
        assigned := pool.assigned+1 }
    else none
  | .work i notified =>
    match pool.workers_[i]? with
    | none => none
    | some thread =>
      match thread.run pool.job_queue_ notified with
      | none => none
      | some (thread, queue, ran) =>
        some { pool with
          workers_ := pool.workers_.set i thread
          job_queue_ := queue
          ran := pool.ran ++ ran }

def AllLeft (pool : MyThreadPool α) : Prop := ∀ thread ∈ pool.workers_, thread.point.hasLeft

/-- Once all workers have left, the queue is empty and every job has been run once. -/
def Drained (pool : MyThreadPool α) : Prop :=
  pool.AllLeft → pool.job_queue_ = [] ∧ pool.ran.Perm pool.executed

/-- A worker that leaves because it reads `exit_after_done_` as false is not the last
one, or nothing is queued; and there is a worker to queue a job for. -/
def NotAbandoned (pool : MyThreadPool α) : Event α → Prop
  | .exec _ => pool.assigned = 0 → pool.workers_ ≠ []
  | .assign => True
  | .work i _ => ∀ thread ∈ pool.workers_[i]?, thread.point = .testNotAfterDone →
      thread.exit_after_done_ = false →
      (∀ other ∈ pool.workers_.eraseIdx i, other.point.hasLeft) → pool.job_queue_ = []

def running (pool : MyThreadPool α) : Multiset α :=
  (pool.workers_.map fun thread => thread.point.job).sum

/-- No job is lost or doubled; a worker past the first test has seen its flag, which
is set only by the call; when all have left, nothing is queued. -/
structure Inv (pool : MyThreadPool α) : Prop where
  kept : (pool.executed : Multiset α) = pool.ran + pool.running + pool.job_queue_
  sawExit : ∀ thread ∈ pool.workers_, thread.point.sawExit → thread.exit_
  notCalled : pool.assigned = 0 → ∀ thread ∈ pool.workers_, thread.exit_ = false
  drained : pool.AllLeft → pool.job_queue_ = []

/-- What a step of a worker does: it keeps the flags and the jobs; it is past the
first test only with its flag set; and it leaves only on an empty queue or because
the second flag is not set. -/
theorem run_spec {thread thread' : MyThread α} {queue queue' ran : List α} {notified : Bool}
    (h : thread.run queue notified = some (thread', queue', ran)) :
    thread'.exit_ = thread.exit_ ∧
      (thread.point.job + queue : Multiset α) = ran + thread'.point.job + queue' ∧
      ((thread.point.sawExit → thread.exit_) → thread'.point.sawExit → thread'.exit_) ∧
      (thread'.point.hasLeft → queue' = queue ∧ (queue = [] ∨
        thread.point = .testNotAfterDone ∧ thread.exit_after_done_ = false)) := by
  rcases thread with ⟨exit_, exit_after_done_, point⟩
  cases point with
  | testExit =>
    cases h
    cases exit_ <;> simp [RunPoint.job, RunPoint.sawExit, RunPoint.hasLeft]
  | testAfterDone =>
    cases h
    cases exit_after_done_ <;> simp [RunPoint.job, RunPoint.sawExit, RunPoint.hasLeft]
  | testJobNum =>
    cases h
    cases queue <;> simp [RunPoint.job, RunPoint.sawExit, RunPoint.hasLeft]
  | testNotAfterDone =>
    cases h
    cases exit_after_done_ <;> simp [RunPoint.job, RunPoint.sawExit, RunPoint.hasLeft]
  | getJob =>
    cases h
    cases queue <;> simp [RunPoint.job, RunPoint.sawExit, RunPoint.hasLeft]
  | waiting =>
    cases notified <;> cases queue <;> cases h <;>
      simp [RunPoint.job, RunPoint.sawExit, RunPoint.hasLeft]
  | running job =>
    cases h
    simp [RunPoint.job, RunPoint.sawExit, RunPoint.hasLeft]
  | left => cases h

theorem terminateAfterAllDone_point (thread : MyThread α) (second : Bool) :
    (terminateAfterAllDone thread second).point = thread.point := by
  unfold terminateAfterAllDone
  split <;> rfl

theorem exit_terminateAfterAllDone {thread : MyThread α} (h : thread.exit_) (second : Bool) :
    (terminateAfterAllDone thread second).exit_ := by
  unfold terminateAfterAllDone
  split
  · exact h
  · rfl

/-- An assignment of `TerminateAfterAllDone` moves no worker. -/
theorem points_modify (workers : List (MyThread α)) (i : ℕ) (second : Bool) :
    (workers.modify i (terminateAfterAllDone · second)).map (·.point) = workers.map (·.point) :=
  map_modify (fun thread => terminateAfterAllDone_point thread second) workers i

theorem inv_initial (num : ℕ) : (initial num : MyThreadPool α).Inv where
  kept := by simp [initial, running, RunPoint.job]
  sawExit := by simp [initial, RunPoint.sawExit]
  notCalled := by simp [initial]
  drained := fun _ => rfl

theorem inv_exec {pool : MyThreadPool α} (h : pool.Inv) (hzero : pool.assigned = 0)
    (hne : pool.workers_ ≠ []) (job : α) : Inv { pool with
      job_queue_ := pool.job_queue_ ++ [job], executed := pool.executed ++ [job] } where
  kept := by
    have hrunning : running { pool with
        job_queue_ := pool.job_queue_ ++ [job], executed := pool.executed ++ [job] } =
        pool.running := rfl
    rw [hrunning, ← Multiset.coe_add, ← Multiset.coe_add, h.kept, ← add_assoc]
  sawExit := h.sawExit
  notCalled := h.notCalled
  drained := by
    intro hall
    obtain ⟨thread, hmem⟩ := List.exists_mem_of_ne_nil _ hne
    have hleft : thread.point.sawExit := by
      have hhas := hall thread hmem
      revert hhas
      cases thread.point <;> simp [RunPoint.hasLeft, RunPoint.sawExit]
    have hexit := h.sawExit thread hmem hleft
    rw [h.notCalled hzero thread hmem] at hexit
    exact absurd hexit Bool.false_ne_true

theorem inv_assign {pool : MyThreadPool α} (h : pool.Inv) : Inv { pool with
    workers_ := pool.workers_.modify (pool.assigned/2)
      (terminateAfterAllDone · (pool.assigned%2 = 1))
    assigned := pool.assigned+1 } where
  kept := by
    have hpoints := points_modify pool.workers_ (pool.assigned/2) (pool.assigned%2 = 1)
    have hjobs : (pool.workers_.modify (pool.assigned/2)
        (terminateAfterAllDone · (pool.assigned%2 = 1))).map (fun thread => thread.point.job) =
          pool.workers_.map fun thread => thread.point.job := by
      simpa only [List.map_map, Function.comp_def] using congrArg (List.map RunPoint.job) hpoints
    rw [h.kept, running, running, hjobs]
  sawExit := by
    intro thread hmem hsaw
    obtain ⟨old, hold, rfl | rfl⟩ := mem_modify hmem
    · exact h.sawExit thread hold hsaw
    · rw [terminateAfterAllDone_point] at hsaw
      exact exit_terminateAfterAllDone (h.sawExit old hold hsaw) _
  notCalled := fun hzero => absurd hzero (Nat.succ_ne_zero _)
  drained := by
    intro hall
    apply h.drained
    intro thread hmem
    have hpoints := points_modify pool.workers_ (pool.assigned/2) (pool.assigned%2 = 1)
    have hpoint := List.mem_map_of_mem (f := fun thread : MyThread α => thread.point) hmem
    rw [← hpoints] at hpoint
    obtain ⟨new, hnew, heq⟩ := List.mem_map.mp hpoint
    exact heq ▸ hall new hnew

/-- A step of the worker `i`: who it was, and what it did. -/
theorem step_work {pool pool' : MyThreadPool α} {i : ℕ} {notified : Bool}
    (h : pool.step (.work i notified) = some pool') :
    ∃ thread thread' queue ran, pool.workers_[i]? = some thread ∧
      thread.run pool.job_queue_ notified = some (thread', queue, ran) ∧
      pool' = { pool with
        workers_ := pool.workers_.set i thread'
        job_queue_ := queue
        ran := pool.ran ++ ran } := by
  simp only [step] at h
  split at h
  · cases h
  · rename_i thread hthread
    split at h
    · cases h
    · rename_i thread' queue ran hrun
      exact ⟨thread, thread', queue, ran, hthread, hrun, (Option.some.inj h).symm⟩

/-- When all have left after a step of a worker, it was the last one, and the queue is
as it was; it found it empty or its second flag not set. -/
theorem work_allLeft {pool pool' : MyThreadPool α} {i : ℕ} {notified : Bool}
    (h : pool.step (.work i notified) = some pool') (hall : pool'.AllLeft) :
    ∃ thread, pool.workers_[i]? = some thread ∧
      (∀ other ∈ pool.workers_.eraseIdx i, other.point.hasLeft) ∧
      pool'.job_queue_ = pool.job_queue_ ∧ (pool.job_queue_ = [] ∨
        thread.point = .testNotAfterDone ∧ thread.exit_after_done_ = false) := by
  obtain ⟨thread, thread', queue, ran, hthread, hrun, rfl⟩ := step_work h
  obtain ⟨before, after, _, herase, hset⟩ := exists_split_of_getElem? hthread
  have hall' : ∀ other ∈ before ++ thread' :: after, other.point.hasLeft := by
    rw [← hset thread']
    exact hall
  obtain ⟨_, _, _, hleft⟩ := run_spec hrun
  refine ⟨thread, hthread, ?_, hleft (hall' thread' (by simp))⟩
  rw [herase]
  intro other hother
  refine hall' other ?_
  rw [List.mem_append] at hother ⊢
  exact hother.imp_right (List.mem_cons_of_mem thread')

/-- The jobs of the workers, when one worker is replaced. -/
theorem sum_job_set {workers : List (MyThread α)} {i : ℕ} {thread : MyThread α}
    (h : workers[i]? = some thread) (thread' : MyThread α) :
    ((workers.set i thread').map fun t => t.point.job).sum + thread.point.job =
      (workers.map fun t => t.point.job).sum + thread'.point.job := by
  obtain ⟨before, after, hworkers, _, hset⟩ := exists_split_of_getElem? h
  rw [hset, hworkers]
  simp only [List.map_append, List.sum_append, List.map_cons, List.sum_cons]
  abel

theorem inv_work {pool pool' : MyThreadPool α} (h : pool.Inv) {i : ℕ} {notified : Bool}
    (hnot : pool.NotAbandoned (.work i notified))
    (hstep : pool.step (.work i notified) = some pool') : pool'.Inv := by
  -- only the last worker to leave can leave jobs behind
  have hdrained : pool'.AllLeft → pool'.job_queue_ = [] := by
    intro hall
    obtain ⟨thread, hthread, hothers, hqueue, hempty | ⟨hpoint, hflag⟩⟩ := work_allLeft hstep hall
    · rw [hqueue, hempty]
    · rw [hqueue]
      exact hnot thread hthread hpoint hflag hothers
  obtain ⟨thread, thread', queue, ran, hthread, hrun, rfl⟩ := step_work hstep
  obtain ⟨hflag, hkept, hsaw, _⟩ := run_spec hrun
  have hmem : thread ∈ pool.workers_ := List.mem_of_getElem? hthread
  refine ⟨?_, ?_, ?_, hdrained⟩
  · let running' : Multiset α := ((pool.workers_.set i thread').map fun t => t.point.job).sum
    have hsum : running' + thread.point.job = pool.running + thread'.point.job :=
      sum_job_set hthread thread'
    apply add_right_cancel (b := thread.point.job + thread'.point.job)
    calc (pool.executed : Multiset α) + (thread.point.job + thread'.point.job)
      _ = pool.ran + (pool.running + thread'.point.job) + (thread.point.job + pool.job_queue_) := by
        rw [h.kept]
        abel
      _ = pool.ran + (running' + thread.point.job) + (ran + thread'.point.job + queue) := by
        rw [hsum, hkept]
      _ = ↑(pool.ran ++ ran) + running' + queue + (thread.point.job + thread'.point.job) := by
        rw [← Multiset.coe_add]
        abel
  · intro other hother hother'
    rcases List.mem_or_eq_of_mem_set hother with hold | rfl
    · exact h.sawExit other hold hother'
    · exact hsaw (h.sawExit thread hmem) hother'
  · intro hzero other hother
    rcases List.mem_or_eq_of_mem_set hother with hold | rfl
    · exact h.notCalled hzero other hold
    · rw [hflag]
      exact h.notCalled hzero thread hmem

theorem inv_step {pool pool' : MyThreadPool α} (h : pool.Inv) {event : Event α}
    (hnot : pool.NotAbandoned event) (hstep : pool.step event = some pool') : pool'.Inv := by
  cases event with
  | exec job =>
    simp only [step] at hstep
    split at hstep
    · rename_i hzero
      exact Option.some.inj hstep ▸ inv_exec h hzero (hnot hzero) job
    · cases hstep
  | assign =>
    simp only [step] at hstep
    split at hstep
    · exact Option.some.inj hstep ▸ inv_assign h
    · cases hstep
  | work i notified => exact inv_work h hnot hstep

theorem drained_of_inv {pool : MyThreadPool α} (h : pool.Inv) : pool.Drained := by
  intro hall
  have hempty := h.drained hall
  have hrunning : pool.running = 0 := by
    rw [running, List.sum_eq_zero]
    intro jobs hjobs
    obtain ⟨thread, hmem, rfl⟩ := List.mem_map.mp hjobs
    have hleft := hall thread hmem
    revert hleft
    cases thread.point <;> simp [RunPoint.hasLeft, RunPoint.job]
  refine ⟨hempty, ?_⟩
  have hkept := h.kept
  rw [hrunning, hempty, Multiset.coe_nil, add_zero, add_zero, Multiset.coe_eq_coe] at hkept
  exact hkept.symm

/-- A step after which the pool is drained, if all have left, abandons nothing. -/
theorem notAbandoned_of_drained {pool : MyThreadPool α} {event : Event α}
    (h : ∀ pool', pool.step event = some pool' → pool'.Drained) : pool.NotAbandoned event := by
  cases event with
  | exec job =>
    intro hzero hnil
    have hdrained := h _ (if_pos hzero)
    have hleft := hdrained fun thread hmem => by
      rw [hnil] at hmem
      exact absurd hmem List.not_mem_nil
    exact List.append_ne_nil_of_right_ne_nil _ (List.cons_ne_nil _ _) hleft.1
  | assign => trivial
  | work i notified =>
    intro thread hthread hpoint hflag hothers
    have hrun : thread.run pool.job_queue_ notified =
        some ({ thread with point := .left }, pool.job_queue_, []) := by
      rcases thread with ⟨exit_, exit_after_done_, point⟩
      obtain rfl : point = .testNotAfterDone := hpoint
      obtain rfl : exit_after_done_ = false := hflag
      rfl
    have hdrained := h _ (by
      simp only [step, Option.mem_def.mp hthread, hrun]
      rfl)
    refine (hdrained ?_).1
    obtain ⟨before, after, _, herase, hset⟩ := exists_split_of_getElem? hthread
    intro other hother
    rw [hset, List.mem_append, List.mem_cons] at hother
    rcases hother with hother | rfl | hother
    · exact hothers other (by rw [herase]; exact List.mem_append_left _ hother)
    · rfl
    · exact hothers other (by rw [herase]; exact List.mem_append_right _ hother)

/-- Whenever all workers have left, every job has been run once and none is queued:
exactly in the runs in which no last worker leaves jobs behind. -/
theorem drained_iff_notAbandoned (num : ℕ) (events : List (Event α)) :
    (∀ n pool, run step (initial num) (events.take n) = some pool → pool.Drained) ↔
      Along NotAbandoned step (initial num) events := by
  apply forall_run_take_iff_of_invariant
  · exact fun pool h => drained_of_inv h
  · exact fun pool event _ h => notAbandoned_of_drained h
  · exact fun pool event pool' h hnot hstep => inv_step h hnot hstep
  · exact inv_initial num

/-- One worker reads its flags between the two assignments and leaves a job behind. -/
theorem not_drained : ¬∀ num (events : List (Event ℕ)) n pool,
    run step (initial num) (events.take n) = some pool → pool.Drained := by
  intro h
  have hdrained := h 1 [.exec 7, .assign, .work 0 false, .work 0 false, .work 0 false] 5 _ rfl
  have hleft := hdrained (by unfold AllLeft; decide)
  exact List.cons_ne_nil _ _ hleft.1

end MyThreadPool
end EchoFrame
