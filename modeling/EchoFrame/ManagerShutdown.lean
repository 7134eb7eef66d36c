import EchoFrame.LoopShutdown
import EchoFrame.Verif.Machines
import Mathlib.Algebra.Order.BigOperators.Group.List
import Mathlib.Algebra.Order.Group.Nat

/-! The end of a loop manager: `stop`, `wait` and the destructor of `ClientLoopManager` (the
destructor and `stop` of `EventLoopManager` are the same), next to the threads of its loops. -/
namespace EchoFrame
open Verif

variable {ι α : Type}

/-- Where the thread is that calls the manager: at the loop that comes next, in `MyLoop::stop`
of a loop before the signal, or at the thread to join next. -/
inductive ManagerPhase
  | idle
  | stopping (i : ℕ)
  | signalling (i : ℕ)
  | joining (i : ℕ)
  | deleted
  | thrown
  deriving DecidableEq

/-- The loops with their threads; `destroying` says that the call is the destructor, and
`joins` are the threads that were joined, oldest first. -/
structure LoopManager (ι α : Type) where
  threads : List (LoopThread ι α)
  phase : ManagerPhase := .idle
  destroying : Bool := false
  joins : List ℕ := []

namespace LoopManager

def init (n : ℕ) : LoopManager ι α := { threads := List.replicate n {} }

inductive Event (ι α : Type)
  | loop (i : ℕ) (event : LoopThread.Event ι α)
  | stop
  | wait
  | destroy
  | next

def holds (s : LoopManager ι α) (i : ℕ) : LoopThread.Event ι α → Bool
  | .stopSignal => s.phase = .signalling i
  | _ => false

/-- One step of the calling thread, or one step of a loop (of its own thread or another one
that uses it). -/
def step [DecidableEq ι] (s : LoopManager ι α) : Event ι α → Option (LoopManager ι α)
  | .loop i event =>
    -- the signal is left to the thread that is in `MyLoop::stop`
    if s.holds i event then none else
      (stepAt LoopThread.step s.threads i event).map fun threads => { s with threads := threads }
  | .stop => if s.phase = .idle then some { s with phase := .stopping 0 } else none
  | .wait => if s.phase = .idle then some { s with phase := .joining 0 } else none
  | .destroy =>
    if s.phase = .idle then some { s with phase := .stopping 0, destroying := true } else none
  | .next =>
    match s.phase with
    | .stopping i =>
      if i < s.threads.length then
        (stepAt LoopThread.step s.threads i .stop).map fun threads =>
          { s with threads := threads, phase := .signalling i }
      else some { s with phase := if s.destroying then .joining 0 else .idle }
    | .signalling i => (stepAt LoopThread.step s.threads i .stopSignal).map fun threads =>
      { s with threads := threads, phase := .stopping (i+1) }
    | .joining i =>
      match s.threads[i]? with
      | some thread =>
        -- a thread that was joined before is not joinable
        if i ∈ s.joins then some { s with phase := .thrown }
        else if thread.phase = .ended then
          some { s with phase := .joining (i+1), joins := s.joins ++ [i] }
        else none
      | none => some { s with phase := if s.destroying then .deleted else .idle }
    | .idle | .deleted | .thrown => none

def Stopped (threads : List (LoopThread ι α)) (k : ℕ) : Prop :=
  ∀ i < k, ∃ thread ∈ threads[i]?, thread.exit_

/-- What a call has done when the calling thread is where it is. `joined` are the threads that
were joined when the call began. -/
def Place (n : ℕ) (joined : List ℕ) (s : LoopManager ι α) : Prop :=
  match s.phase with
  | .idle => s.destroying = false ∧ s.joins = joined
  | .stopping i => s.joins = joined ∧ Stopped s.threads i
  | .signalling i => s.joins = joined ∧ Stopped s.threads (i+1) ∧
    ∃ thread ∈ s.threads[i]?, thread.stopping
  | .joining i => s.joins = joined ++ List.range i ∧ (joined = [] ∨ i = 0) ∧ i ≤ n ∧
    (s.destroying → Stopped s.threads n)
  | .deleted => s.joins = List.range n ∧ joined = []
  | .thrown => joined ≠ []

structure Inv (n : ℕ) (joined : List ℕ) (s : LoopManager ι α) : Prop where
  length : s.threads.length = n
  threads : ∀ thread ∈ s.threads, thread.Inv
  whole : joined = [] ∨ joined = List.range n
  ended : ∀ i ∈ s.joins, ∃ thread ∈ s.threads[i]?, thread.phase = .ended
  place : Place n joined s

theorem inv_init (n : ℕ) : (init n : LoopManager ι α).Inv n [] where
  length := List.length_replicate
  threads := fun _ hmem => List.eq_of_mem_replicate hmem ▸ LoopThread.inv_initial
  whole := .inl rfl
  ended := fun _ hi => absurd hi List.not_mem_nil
  place := ⟨rfl, rfl⟩

theorem Stopped.mono {threads : List (LoopThread ι α)} {k k' : ℕ} (h : Stopped threads k)
    (hle : k' ≤ k) : Stopped threads k' := fun i hi => h i (Nat.lt_of_lt_of_le hi hle)

variable {n : ℕ} {joined : List ℕ} {s t : LoopManager ι α} {event : Event ι α}

/-- A thread is joined for the first time when no thread was joined before the call. -/
theorem fresh_of_not_mem (h : s.Inv n joined) {i : ℕ} (hphase : s.phase = .joining i)
    (hlt : i < n) (hjoined : i ∉ s.joins) : joined = [] := by
  have hplace := h.place
  unfold Place at hplace
  rw [hphase] at hplace
  obtain ⟨hjoins, hfresh, -, -⟩ := hplace
  rcases hfresh with hnil | rfl
  · exact hnil
  · rcases h.whole with hnil | hrange
    · exact hnil
    · rw [hjoins, hrange, List.range_zero, List.append_nil, List.mem_range] at hjoined
      exact absurd hlt hjoined

/-- Of the threads joined before, there are none when a call has joined them all. -/
theorem fresh_of_joined (h : s.Inv n joined) {i : ℕ} (hphase : s.phase = .joining i)
    (hlength : s.threads.length ≤ i) : joined = [] ∧ s.joins = List.range n := by
  have hplace := h.place
  unfold Place at hplace
  rw [hphase] at hplace
  obtain ⟨hjoins, hfresh, hle, -⟩ := hplace
  rw [h.length] at hlength
  obtain rfl : i = n := Nat.le_antisymm hle hlength
  have hnil : joined = [] := by
    rcases hfresh with hnil | rfl
    · exact hnil
    · exact h.whole.elim id id
  refine ⟨hnil, ?_⟩
  rw [hjoins, hnil, List.nil_append]

variable [DecidableEq ι]

inductive Moves (s : LoopManager ι α) : Event ι α → LoopManager ι α → Prop
  | loop {i : ℕ} {event : LoopThread.Event ι α} {threads : List (LoopThread ι α)}
      (hfree : s.holds i event = false)
      (hthreads : stepAt LoopThread.step s.threads i event = some threads) :
      Moves s (.loop i event) { s with threads := threads }
  | stop (hphase : s.phase = .idle) : Moves s .stop { s with phase := .stopping 0 }
  | wait (hphase : s.phase = .idle) : Moves s .wait { s with phase := .joining 0 }
  | destroy (hphase : s.phase = .idle) :
      Moves s .destroy { s with phase := .stopping 0, destroying := true }
  /-- `exit_` is set -/
  | order {i : ℕ} {threads : List (LoopThread ι α)} (hphase : s.phase = .stopping i)
      (hthreads : stepAt LoopThread.step s.threads i .stop = some threads) :
      Moves s .next { s with threads := threads, phase := .signalling i }
  | signal {i : ℕ} {threads : List (LoopThread ι α)} (hphase : s.phase = .signalling i)
      (hthreads : stepAt LoopThread.step s.threads i .stopSignal = some threads) :
      Moves s .next { s with threads := threads, phase := .stopping (i+1) }
  /-- every loop was stopped -/
  | ordered {i : ℕ} (hphase : s.phase = .stopping i) (hlength : s.threads.length ≤ i) :
      Moves s .next { s with phase := if s.destroying then .joining 0 else .idle }
  | again {i : ℕ} (hphase : s.phase = .joining i) (hlt : i < s.threads.length)
      (hjoined : i ∈ s.joins) : Moves s .next { s with phase := .thrown }
  | join {i : ℕ} {thread : LoopThread ι α} (hphase : s.phase = .joining i)
      (hthread : s.threads[i]? = some thread) (hjoined : i ∉ s.joins)
      (hended : thread.phase = .ended) :
      Moves s .next { s with phase := .joining (i+1), joins := s.joins ++ [i] }
  /-- every thread was joined -/
  | joined {i : ℕ} (hphase : s.phase = .joining i) (hlength : s.threads.length ≤ i) :
      Moves s .next { s with phase := if s.destroying then .deleted else .idle }

theorem moves_of_next (hstep : s.step .next = some t) : Moves s .next t := by
  rw [step] at hstep
  cases hphase : s.phase with
  | idle | deleted | thrown =>
    rw [hphase] at hstep
    cases hstep
  | stopping i =>
    rw [hphase] at hstep
    by_cases hlt : i < s.threads.length
    · obtain ⟨threads, hthreads, rfl⟩ := Option.map_eq_some_iff.mp ((if_pos hlt).symm.trans hstep)
      exact .order hphase hthreads
    · obtain rfl := Option.some.inj ((if_neg hlt).symm.trans hstep)
      exact .ordered hphase (Nat.le_of_not_lt hlt)
  | signalling i =>
    rw [hphase] at hstep
    obtain ⟨threads, hthreads, rfl⟩ := Option.map_eq_some_iff.mp hstep
    exact .signal hphase hthreads
  | joining i =>
    rw [hphase] at hstep
    dsimp only at hstep
    cases hthread : s.threads[i]? with
    | none =>
      rw [hthread] at hstep
      obtain rfl := Option.some.inj hstep
      exact .joined hphase (List.getElem?_eq_none_iff.mp hthread)
    | some thread =>
      rw [hthread] at hstep
      dsimp only at hstep
      by_cases hjoined : i ∈ s.joins
      · obtain rfl := Option.some.inj ((if_pos hjoined).symm.trans hstep)
        exact .again hphase (List.getElem?_eq_some_iff.mp hthread).1 hjoined
      · obtain ⟨hended, ht⟩ := Option.ite_none_right_eq_some.mp ((if_neg hjoined).symm.trans hstep)
        exact Option.some.inj ht ▸ .join hphase hthread hjoined hended

theorem moves_of_step (hstep : s.step event = some t) : Moves s event t := by
  cases event with
  | loop i event =>
    obtain ⟨hfree, hmap⟩ := Option.ite_none_left_eq_some.mp hstep
    obtain ⟨threads, hthreads, rfl⟩ := Option.map_eq_some_iff.mp hmap
    exact .loop (Bool.eq_false_iff.mpr hfree) hthreads
  | stop =>
    obtain ⟨hphase, ht⟩ := Option.ite_none_right_eq_some.mp hstep
    exact Option.some.inj ht ▸ .stop hphase
  | wait =>
    obtain ⟨hphase, ht⟩ := Option.ite_none_right_eq_some.mp hstep
    exact Option.some.inj ht ▸ .wait hphase
  | destroy =>
    obtain ⟨hphase, ht⟩ := Option.ite_none_right_eq_some.mp hstep
    exact Option.some.inj ht ▸ .destroy hphase
  | next => exact moves_of_next hstep

/-- A loop that was told to end or has ended stays so; and only the signal ends `stop`. -/
theorem kept_step {s t : LoopThread ι α} {event : LoopThread.Event ι α} (h : s.Inv)
    (hstep : s.step event = some t) :
    (s.exit_ → t.exit_) ∧ (s.phase = .ended → t.phase = .ended) ∧
      (s.stopping → t.stopping ∨ event = .stopSignal) := by
  have hmoves := LoopThread.moves_of_step h hstep
  refine ⟨(LoopThread.kept_of_moves h hmoves).2.2, ?_, ?_⟩
  · intro hended
    have hother {phase : LoopPhase} (hphase : s.phase = phase) (hne : phase ≠ .ended) :
        t.phase = .ended := absurd (hphase.symm.trans hended) hne
    cases hmoves with
    | other _ _ _ _ | drain _ _ _ _ | stop _ | stopSignal _ => exact hended
    | drained hphase _ _ _ => exact hother hphase (by decide)
    | enter hphase => exact hother hphase (by decide)
    | check hphase => exact hother hphase (by decide)
    | leave hphase => exact hother hphase (by decide)
  · intro hstopping
    cases hmoves with
    | stopSignal _ => exact .inr rfl
    | stop _ => exact .inl rfl
    | other _ _ _ _ | drain _ _ _ _ | drained _ _ _ _ | enter _ | check _ | leave _ =>
      exact .inl hstopping

section Threads

variable {threads threads' : List (LoopThread ι α)} {i : ℕ} {loop : LoopThread.Event ι α}

theorem stopped_stepAt (hinv : ∀ thread ∈ threads, thread.Inv)
    (hthreads : stepAt LoopThread.step threads i loop = some threads') {k : ℕ}
    (h : Stopped threads k) : Stopped threads' k := by
  intro j hj
  obtain ⟨thread, hthread, hexit⟩ := h j hj
  obtain ⟨thread', hthread', rfl | ⟨-, hstep⟩⟩ := getElem?_stepAt hthreads hthread
  · exact ⟨thread', hthread', hexit⟩
  · have hkept := kept_step (hinv thread (List.mem_of_getElem? hthread)) hstep
    exact ⟨thread', hthread', hkept.1 hexit⟩

theorem ended_stepAt (hinv : ∀ thread ∈ threads, thread.Inv)
    (hthreads : stepAt LoopThread.step threads i loop = some threads') {j : ℕ}
    (h : ∃ thread ∈ threads[j]?, thread.phase = .ended) :
    ∃ thread ∈ threads'[j]?, thread.phase = .ended := by
  obtain ⟨thread, hthread, hended⟩ := h
  obtain ⟨thread', hthread', rfl | ⟨-, hstep⟩⟩ := getElem?_stepAt hthreads hthread
  · exact ⟨thread', hthread', hended⟩
  · have hkept := kept_step (hinv thread (List.mem_of_getElem? hthread)) hstep
    exact ⟨thread', hthread', hkept.2.1 hended⟩

/-- Where `MyLoop::stop` is, the loop has `exit_` set and waits for the signal. -/
theorem stopping_stepAt_stop (h : Stopped threads i)
    (hinv : ∀ thread ∈ threads, thread.Inv)
    (hthreads : stepAt LoopThread.step threads i .stop = some threads') :
    Stopped threads' (i+1) ∧ ∃ thread ∈ threads'[i]?, thread.stopping := by
  have hbefore := stopped_stepAt hinv hthreads h
  obtain ⟨thread, thread', hthread, hstep, rfl⟩ := stepAt_eq_some.mp hthreads
  obtain ⟨-, hset⟩ := Option.ite_none_left_eq_some.mp hstep
  obtain rfl := Option.some.inj hset
  have hat : (threads.set i { thread with exit_ := true, stopping := true })[i]? =
      some { thread with exit_ := true, stopping := true } :=
    (getElem?_set_of_getElem? hthread _ i).trans (if_pos rfl)
  refine ⟨?_, _, hat, rfl⟩
  intro j hj
  rcases Nat.lt_succ_iff_lt_or_eq.mp hj with hlt | rfl
  · exact hbefore j hlt
  · exact ⟨_, hat, rfl⟩

end Threads

/-- A loop takes a step, and the calling thread goes where `phase` says. -/
theorem inv_threads (h : s.Inv n joined) {i : ℕ} {event : LoopThread.Event ι α}
    {threads : List (LoopThread ι α)} {phase : ManagerPhase}
    (hthreads : stepAt LoopThread.step s.threads i event = some threads)
    (hplace : Place n joined { s with threads := threads, phase := phase }) :
    Inv n joined { s with threads := threads, phase := phase } where
  length := (length_stepAt hthreads).trans h.length
  threads := forall_mem_stepAt (fun _ _ => LoopThread.inv_step) h.threads hthreads
  whole := h.whole
  ended := fun j hj => ended_stepAt h.threads hthreads (h.ended j hj)
  place := hplace

/-- The loops go on, and the calling thread stays where it is. -/
theorem inv_loop (h : s.Inv n joined) {i : ℕ} {event : LoopThread.Event ι α}
    {threads : List (LoopThread ι α)} (hfree : s.holds i event = false)
    (hthreads : stepAt LoopThread.step s.threads i event = some threads) :
    Inv n joined { s with threads := threads } := by
  have hplace := h.place
  apply inv_threads h hthreads
  unfold Place at hplace ⊢
  cases hphase : s.phase with
  | idle | deleted | thrown =>
    rw [hphase] at hplace
    exact hplace
  | stopping k =>
    rw [hphase] at hplace
    exact ⟨hplace.1, stopped_stepAt h.threads hthreads hplace.2⟩
  | signalling k =>
    rw [hphase] at hplace
    obtain ⟨hjoins, hstopped, thread, hthread, hstopping⟩ := hplace
    refine ⟨hjoins, stopped_stepAt h.threads hthreads hstopped, ?_⟩
    obtain ⟨thread', hthread', rfl | ⟨rfl, hstep⟩⟩ := getElem?_stepAt hthreads hthread
    · exact ⟨thread', hthread', hstopping⟩
    · have hkept := kept_step (h.threads thread (List.mem_of_getElem? hthread)) hstep
      rcases hkept.2.2 hstopping with hstill | rfl
      · exact ⟨thread', hthread', hstill⟩
      · rw [holds, hphase] at hfree
        simp at hfree
  | joining k =>
    rw [hphase] at hplace
    obtain ⟨hjoins, hfresh, hle, hstopped⟩ := hplace
    exact ⟨hjoins, hfresh, hle, fun hd => stopped_stepAt h.threads hthreads (hstopped hd)⟩

/-- One step of the calling thread or of a loop. Only a call of `wait` that comes back changes
which threads were joined before the call. -/
theorem inv_step (h : s.Inv n joined) (hstep : s.step event = some t) :
    (s.destroying → t.destroying) ∧ (t.Inv n joined ∨
      (∃ i, s.phase = .joining i) ∧ s.destroying = false ∧ t.Inv n (List.range n)) := by
  have hplace := h.place
  unfold Place at hplace
  cases moves_of_step hstep with
  | loop hfree hthreads => exact ⟨id, .inl (inv_loop h hfree hthreads)⟩
  | stop hphase =>
    rw [hphase] at hplace
    refine ⟨id, .inl ⟨h.length, h.threads, h.whole, h.ended, hplace.2, ?_⟩⟩
    exact fun i hi => absurd hi (Nat.not_lt_zero i)
  | wait hphase =>
    rw [hphase] at hplace
    obtain ⟨hcall, hjoins⟩ := hplace
    refine ⟨id, .inl ⟨h.length, h.threads, h.whole, h.ended, ?_, .inr rfl, Nat.zero_le n, ?_⟩⟩
    · rw [List.range_zero, List.append_nil]
      exact hjoins
    · exact fun hd => absurd (hcall.symm.trans hd) Bool.false_ne_true
  | destroy hphase =>
    rw [hphase] at hplace
    refine ⟨fun _ => rfl, .inl ⟨h.length, h.threads, h.whole, h.ended, hplace.2, ?_⟩⟩
    exact fun i hi => absurd hi (Nat.not_lt_zero i)
  | order hphase hthreads =>
    rw [hphase] at hplace
    refine ⟨id, .inl (inv_threads h hthreads ?_)⟩
    exact ⟨hplace.1, stopping_stepAt_stop hplace.2 h.threads hthreads⟩
  | signal hphase hthreads =>
    rw [hphase] at hplace
    refine ⟨id, .inl (inv_threads h hthreads ?_)⟩
    exact ⟨hplace.1, stopped_stepAt h.threads hthreads hplace.2.1⟩
  | ordered hphase hlength =>
    rw [hphase] at hplace
    obtain ⟨hjoins, hstopped⟩ := hplace
    refine ⟨id, .inl ⟨h.length, h.threads, h.whole, h.ended, ?_⟩⟩
    unfold Place
    dsimp only
    cases hd : s.destroying with
    | false => exact ⟨rfl, hjoins⟩
    | true =>
      refine ⟨?_, .inr rfl, Nat.zero_le n, ?_⟩
      · rw [List.range_zero, List.append_nil]
        exact hjoins
      · exact fun _ => hstopped.mono (h.length ▸ hlength)
  | again hphase hlt hjoined =>
    rw [hphase] at hplace
    obtain ⟨hjoins, -, -, -⟩ := hplace
    refine ⟨id, .inl ⟨h.length, h.threads, h.whole, h.ended, ?_⟩⟩
    intro hnil
    rw [hjoins, hnil, List.nil_append, List.mem_range] at hjoined
    exact absurd hjoined (Nat.lt_irrefl _)
  | @join i thread hphase hthread hjoined hended =>
    have hlt : i < n := h.length ▸ (List.getElem?_eq_some_iff.mp hthread).1
    have hnil : joined = [] := fresh_of_not_mem h hphase hlt hjoined
    rw [hphase] at hplace
    obtain ⟨hjoins, -, -, hstopped⟩ := hplace
    refine ⟨id, .inl ⟨h.length, h.threads, h.whole, ?_, ?_, .inl hnil, hlt, hstopped⟩⟩
    · exact List.forall_mem_append.mpr
        ⟨h.ended, List.forall_mem_singleton.mpr ⟨thread, hthread, hended⟩⟩
    · dsimp only
      rw [hjoins, List.range_succ, List.append_assoc]
  | @joined i hphase hlength =>
    obtain ⟨hnil, hjoins⟩ := fresh_of_joined h hphase hlength
    refine ⟨id, ?_⟩
    cases hd : s.destroying with
    | false =>
      exact .inr ⟨⟨i, hphase⟩, rfl, h.length, h.threads, .inr rfl, h.ended, rfl, hjoins⟩
    | true => exact .inl ⟨h.length, h.threads, h.whole, h.ended, hjoins, hnil⟩

theorem inv_destroy (h : s.Inv n joined) (hdestroy : s.step .destroy = some t) :
    t.Inv n joined ∧ t.destroying ∧ t.phase = .stopping 0 := by
  obtain ⟨hidle, ht⟩ := Option.ite_none_right_eq_some.mp hdestroy
  obtain ⟨-, hinv | ⟨⟨i, hi⟩, -, -⟩⟩ := inv_step h hdestroy
  · obtain rfl := Option.some.inj ht
    exact ⟨hinv, rfl, rfl⟩
  · rw [hidle] at hi
    cases hi

/-- From the destructor on, the threads that were joined before it stay the same. -/
theorem destroying_step (h : s.Inv n joined ∧ s.destroying) (hstep : s.step event = some t) :
    t.Inv n joined ∧ t.destroying := by
  obtain ⟨h, hd⟩ := h
  obtain ⟨hkept, hinv | ⟨-, hcall, -⟩⟩ := inv_step h hstep
  · exact ⟨hinv, hkept hd⟩
  · exact absurd (hcall.symm.trans hd) Bool.false_ne_true

theorem destroying_run {later : List (Event ι α)} (h : s.Inv n joined ∧ s.destroying)
    (hrun : run step s later = some t) : t.Inv n joined ∧ t.destroying :=
  invariant_of_steps (fun _ _ _ => destroying_step) h hrun

theorem exists_inv_step (h : ∃ joined, s.Inv n joined) (hstep : s.step event = some t) :
    ∃ joined, t.Inv n joined := by
  obtain ⟨joined, h⟩ := h
  obtain ⟨-, hinv | ⟨-, -, hinv⟩⟩ := inv_step h hstep
  · exact ⟨joined, hinv⟩
  · exact ⟨List.range n, hinv⟩

theorem inv_run {events : List (Event ι α)} (hrun : run step (init n) events = some t) :
    ∃ joined, t.Inv n joined :=
  invariant_of_steps (I := fun s : LoopManager ι α => ∃ joined, s.Inv n joined)
    (fun _ _ _ => exists_inv_step) ⟨[], inv_init n⟩ hrun

/-- The calling thread joins threads, or has done so in a call that does not come back. -/
def Joining (s : LoopManager ι α) : Prop :=
  match s.phase with
  | .joining _ | .deleted | .thrown => True
  | .idle | .stopping _ | .signalling _ => False

theorem joining_step (h : s.Inv n joined) (hjoining : Joining s)
    (hstep : s.step event = some t) : Joining t ∨ t.Inv n (List.range n) := by
  unfold Joining at hjoining
  cases moves_of_step hstep with
  | loop _ _ => exact .inl hjoining
  | stop hphase | wait hphase | destroy hphase | order hphase _ | signal hphase _
  | ordered hphase _ =>
    rw [hphase] at hjoining
    exact hjoining.elim
  | again _ _ _ => exact .inl trivial
  | join _ _ _ _ => exact .inl trivial
  | joined hphase hlength =>
    obtain ⟨-, hjoins⟩ := fresh_of_joined h hphase hlength
    cases hd : s.destroying with
    | false => exact .inr ⟨h.length, h.threads, .inr rfl, h.ended, rfl, hjoins⟩
    | true => exact .inl trivial

/-- A manager that was waited for has joined all threads, when the call came back. -/
theorem joins_of_wait {before : List (Event ι α)} (hrun : run step (init n) before = some s)
    (hphase : s.phase = .idle) (hwait : .wait ∈ before) : s.joins = List.range n := by
  obtain ⟨as, bs, rfl⟩ := List.append_of_mem hwait
  rw [run_append] at hrun
  obtain ⟨u, hu, hrun⟩ := Option.bind_eq_some_iff.mp hrun
  obtain ⟨v, hcall, hrun⟩ := run_cons_eq_some.mp hrun
  have hinv : ∃ joined, v.Inv n joined := exists_inv_step (inv_run hu) hcall
  have hjoining : Joining v := by
    obtain ⟨-, hset⟩ := Option.ite_none_right_eq_some.mp hcall
    exact Option.some.inj hset ▸ trivial
  have hall := invariant_of_steps (I := fun s : LoopManager ι α => s.Inv n (List.range n) ∨
    (∃ joined, s.Inv n joined) ∧ Joining s) ?_ (.inr ⟨hinv, hjoining⟩) hrun
  · rcases hall with hdone | ⟨-, hstill⟩
    · have hplace := hdone.place
      unfold Place at hplace
      rw [hphase] at hplace
      exact hplace.2
    · unfold Joining at hstill
      rw [hphase] at hstill
      exact hstill.elim
  · intro s event t hs hstep
    rcases hs with hdone | ⟨⟨joined, h⟩, hjoining⟩
    · obtain ⟨-, hinv | ⟨-, -, hinv⟩⟩ := inv_step hdone hstep
      · exact .inl hinv
      · exact .inl hinv
    · rcases joining_step h hjoining hstep with hstill | hdone
      · exact .inr ⟨exists_inv_step ⟨joined, h⟩ hstep, hstill⟩
      · exact .inl hdone

theorem no_wait_step (h : s.Inv n [] ∧ (Joining s → s.destroying)) (hwait : event ≠ .wait)
    (hstep : s.step event = some t) : t.Inv n [] ∧ (Joining t → t.destroying) := by
  obtain ⟨h, hcall⟩ := h
  refine ⟨?_, ?_⟩
  · obtain ⟨-, hinv | ⟨⟨i, hi⟩, hd, -⟩⟩ := inv_step h hstep
    · exact hinv
    · have hjoining : Joining s := by
        unfold Joining
        rw [hi]
        trivial
      exact absurd (hd.symm.trans (hcall hjoining)) Bool.false_ne_true
  · unfold Joining at hcall ⊢
    intro hjoining
    cases moves_of_step hstep with
    | loop _ _ => exact hcall hjoining
    | wait _ => exact absurd rfl hwait
    | stop _ | destroy _ | order _ _ | signal _ _ => exact hjoining.elim
    | ordered _ _ =>
      dsimp only at hjoining ⊢
      cases hd : s.destroying with
      | true => rfl
      | false =>
        rw [hd] at hjoining
        exact hjoining.elim
    | again hphase _ _ | join hphase _ _ _ | joined hphase _ =>
      rw [hphase] at hcall
      exact hcall trivial

/-- A manager that was not waited for has joined none. -/
theorem joins_of_no_wait {before : List (Event ι α)} (hrun : run step (init n) before = some s)
    (hphase : s.phase = .idle) (hwait : .wait ∉ before) : s.joins = [] := by
  have hevents : ∀ event ∈ before, event ≠ .wait := fun _ hmem heq => hwait (heq ▸ hmem)
  have hall := invariant_of_run (fun _ _ _ => no_wait_step)
    ⟨inv_init n, fun hjoining => hjoining.elim⟩ (along_of_mem hevents _) hrun
  have hplace := hall.1.place
  unfold Place at hplace
  rw [hphase] at hplace
  exact hplace.2

/-- A run of the manager is a run of the loops. -/
theorem exists_run_threads {events : List (Event ι α)} (hrun : run step s events = some t) :
    ∃ as, run (stepAny LoopThread.step) s.threads as = some t.threads := by
  induction events generalizing s with
  | nil =>
    rw [run_nil] at hrun
    obtain rfl := Option.some.inj hrun
    exact ⟨[], rfl⟩
  | cons event events ih =>
    obtain ⟨u, hstep, hrun⟩ := run_cons_eq_some.mp hrun
    obtain ⟨as, hall⟩ := ih hrun
    have hone {i : ℕ} {loop : LoopThread.Event ι α}
        (hthreads : stepAt LoopThread.step s.threads i loop = some u.threads) :
        run (stepAny LoopThread.step) s.threads ((i, loop) :: as) = some t.threads := by
      rw [run_cons, stepAny, hthreads]
      exact hall
    cases moves_of_step hstep with
    | loop _ hthreads => exact ⟨_, hone hthreads⟩
    | order _ hthreads => exact ⟨_, hone hthreads⟩
    | signal _ hthreads => exact ⟨_, hone hthreads⟩
    | stop _ | wait _ | destroy _ | ordered _ _ | again _ _ _ | join _ _ _ _ | joined _ _ =>
      exact ⟨as, hall⟩

/-- A loop that was in `ev_run` and has ended has executed what had been pushed. -/
theorem executed_of_ended (h : s.Inv n joined) {events : List (Event ι α)}
    (hrun : run step s events = some t) {i : ℕ} {old thread : LoopThread ι α}
    (hold : s.threads[i]? = some old) (hphase : old.phase = .running)
    (hthread : t.threads[i]? = some thread) (hended : thread.phase = .ended) :
    old.loop.pushed <+: thread.loop.executed := by
  obtain ⟨as, hthreads⟩ := exists_run_threads hrun
  obtain ⟨bs, thread', hthread', hloop⟩ := exists_run_of_run_stepAny hthreads hold
  obtain rfl := Option.some.inj (hthread'.symm.trans hthread)
  have hdone := LoopThread.executed_of_running (h.threads old (List.mem_of_getElem? hold))
    hphase hloop
  refine hdone.resolve_left ?_
  rw [hended]
  decide

/-- The destructor of a manager of `n` loops is called in any run, and more steps are taken.
It throws only when there are loops and the manager has been waited for. When it has deleted
the loops, the manager had no loop or was not waited for, each thread has been joined once and
had ended, the tasks of each loop are executed or still in its queue, once and in order, and
all those are executed that a loop had when it was in `ev_run` at the call. -/
theorem destructor_safe (n : ℕ) (before later : List (Event ι α)) (s t u : LoopManager ι α)
    (hbefore : run step (init n) before = some s) (hdestroy : s.step .destroy = some t)
    (hlater : run step t later = some u) :
    (u.phase = .thrown → .wait ∈ before ∧ 0 < n) ∧
    (u.phase = .deleted → (.wait ∈ before → n = 0) ∧ u.joins = List.range n ∧
      ∀ (i : ℕ) (thread : LoopThread ι α), u.threads[i]? = some thread →
        thread.phase = .ended ∧
        thread.loop.executed ++ thread.loop.queue_ = thread.loop.pushed ∧
        ∀ old ∈ s.threads[i]?, old.phase = .running →
          old.loop.pushed <+: thread.loop.executed) := by
  obtain ⟨joined, hs⟩ := inv_run hbefore
  obtain ⟨hidle, ht⟩ := Option.ite_none_right_eq_some.mp hdestroy
  obtain rfl := Option.some.inj ht
  have hjoins : s.joins = joined := by
    have hplace := hs.place
    unfold Place at hplace
    rw [hidle] at hplace
    exact hplace.2
  have ht := (inv_destroy hs hdestroy).1
  have hu := (destroying_run ⟨ht, rfl⟩ hlater).1
  have hplace := hu.place
  unfold Place at hplace
  refine ⟨?_, ?_⟩
  · intro hphase
    rw [hphase] at hplace
    refine ⟨?_, ?_⟩
    · by_contra hwait
      exact hplace (hjoins.symm.trans (joins_of_no_wait hbefore hidle hwait))
    · apply Nat.pos_of_ne_zero
      rintro rfl
      exact hplace (hs.whole.elim id id)
  · intro hphase
    rw [hphase] at hplace
    obtain ⟨hall, hnil⟩ := hplace
    refine ⟨?_, hall, ?_⟩
    · intro hwait
      have hrange := joins_of_wait hbefore hidle hwait
      rw [hjoins, hnil] at hrange
      exact List.range_eq_nil.mp hrange.symm
    · intro i thread hthread
      have hlt : i < n := hu.length ▸ (List.getElem?_eq_some_iff.mp hthread).1
      have hmem : i ∈ u.joins := by
        rw [hall]
        exact List.mem_range.mpr hlt
      obtain ⟨thread', hthread', hended⟩ := hu.ended i hmem
      obtain rfl := Option.some.inj (hthread'.symm.trans hthread)
      refine ⟨hended, ?_, ?_⟩
      · apply LoopThread.executed_of_still (hu.threads _ (List.mem_of_getElem? hthread))
        rw [hended]
        decide
      · exact fun old hold hrunning =>
          executed_of_ended ht hlater hold hrunning hthread hended

/-- A task waits in a running loop when the destructor of two loops is called; the other loop
has not come to `ev_run` yet. -/
def taskWaits : List (Event ℕ ℕ) :=
  [.loop 0 .enter, .loop 0 (.queue (.push 0 7)), .loop 0 (.queue (.signal 0))]

def stopsTwo : List (Event ℕ ℕ) := [.next, .next, .next, .next, .next]

def joinsTwo : List (Event ℕ ℕ) :=
  [.loop 0 (.queue (.callback 1)), .loop 0 (.queue .pop), .loop 0 (.queue .call),
    .loop 0 (.queue .pop), .loop 0 .check, .loop 0 .leave, .loop 0 .enter, .next,
    .loop 1 .enter, .next, .next]

theorem destructor_safe_two : ∃ s t u : LoopManager ℕ ℕ,
    run step (init 2) taskWaits = some s ∧ s.step .destroy = some t ∧
    run step t (stopsTwo ++ joinsTwo) = some u ∧ u.phase = .deleted ∧ u.joins = [0, 1] ∧
    ∀ thread ∈ u.threads[0]?, [7] <+: thread.loop.executed := by
  refine ⟨_, _, _, rfl, rfl, rfl, rfl, ?_⟩
  have hall := (destructor_safe (ι := ℕ) (α := ℕ) 2 taskWaits (stopsTwo ++ joinsTwo) _ _ _
    rfl rfl rfl).2 rfl
  refine ⟨hall.2.1, ?_⟩
  intro thread hthread
  exact (hall.2.2 0 thread hthread).2.2 _ rfl rfl

def Event.ofLoops : Event ι α → Bool
  | .loop _ event => event.ofLoop
  | .stop | .wait | .destroy | .next => false

def Event.pushes : Event ι α → Bool
  | .loop _ event => event.pushes
  | .stop | .wait | .destroy | .next => false

def Event.isNext : Event ι α → Bool
  | .next => true
  | .loop _ _ | .stop | .wait | .destroy => false

/-- Steps that bring the end of the loops nearer: those of the calling thread and of the loops,
and the signal of another thread that is in `MyLoop::stop`. -/
def Event.helps : Event ι α → Bool
  | .next | .loop _ .stopSignal => true
  | .loop _ event => event.ofLoop
  | .stop | .wait | .destroy => false

def left (n : ℕ) (s : LoopManager ι α) : ℕ :=
  match s.phase with
  | .stopping i => 2*(n-i)+n+2
  | .signalling i => 2*(n-i)+n+1
  | .joining i => n-i+1
  | .idle | .deleted | .thrown => 0

theorem left_step (h : s.Inv n joined) (hd : s.destroying) (hstep : s.step event = some t) :
    t.left n+(if event.isNext then 1 else 0) ≤ s.left n := by
  have hidle (hphase : s.phase = .idle) : False := by
    have hplace := h.place
    unfold Place at hplace
    rw [hphase] at hplace
    exact absurd (hplace.1.symm.trans hd) Bool.false_ne_true
  have hlt {i : ℕ} {event : LoopThread.Event ι α} {threads : List (LoopThread ι α)}
      (hthreads : stepAt LoopThread.step s.threads i event = some threads) : i < n := by
    obtain ⟨thread, -, hthread, -, -⟩ := stepAt_eq_some.mp hthreads
    exact h.length ▸ (List.getElem?_eq_some_iff.mp hthread).1
  cases moves_of_step hstep with
  | loop _ _ => exact Nat.le_refl _
  | stop hphase | wait hphase | destroy hphase => exact (hidle hphase).elim
  | order hphase hthreads =>
    simp only [left, hphase, Event.isNext, if_true]
    omega
  | signal hphase hthreads =>
    have hi := hlt hthreads
    simp only [left, hphase, Event.isNext, if_true]
    omega
  | ordered hphase _ =>
    simp only [left, hphase, hd, Event.isNext, if_true]
    omega
  | again hphase _ _ =>
    simp only [left, hphase, Event.isNext, if_true]
    omega
  | join hphase hthread _ _ =>
    have hi : _ < n := h.length ▸ (List.getElem?_eq_some_iff.mp hthread).1
    simp only [left, hphase, Event.isNext, if_true]
    omega
  | joined hphase _ =>
    simp only [left, hphase, hd, Event.isNext, if_true]
    omega

theorem left_run {later : List (Event ι α)} (h : s.Inv n joined ∧ s.destroying)
    (hrun : run step s later = some t) : t.left n+later.countP Event.isNext ≤ s.left n := by
  have hstep (s : LoopManager ι α) (event : Event ι α) (t : LoopManager ι α)
      (hs : s.Inv n joined ∧ s.destroying) (hstep : s.step event = some t) :
      (t.Inv n joined ∧ t.destroying) ∧
        t.left n+(if event.isNext then 1 else 0) ≤ s.left n+(if event.isNext then 0 else 0) := by
    refine ⟨destroying_step hs hstep, ?_⟩
    rw [ite_self, Nat.add_zero]
    exact left_step hs.1 hs.2 hstep
  have hall := (countP_le_of_run hstep h hrun).2
  rwa [Nat.zero_mul, Nat.add_zero] at hall

def rank (s : LoopManager ι α) : ℕ := (s.threads.map LoopThread.rank).sum

theorem rank_stepAt {threads threads' : List (LoopThread ι α)} {i : ℕ}
    {event : LoopThread.Event ι α} (hinv : ∀ thread ∈ threads, thread.Inv)
    (hexit : Stopped threads threads.length)
    (hthreads : stepAt LoopThread.step threads i event = some threads') :
    (threads'.map LoopThread.rank).sum+(if event.ofLoop then 1 else 0) ≤
      (threads.map LoopThread.rank).sum+(if event.pushes then 2 else 0) := by
  obtain ⟨thread, thread', hthread, hstep, rfl⟩ := stepAt_eq_some.mp hthreads
  have hlt : i < threads.length := (List.getElem?_eq_some_iff.mp hthread).1
  obtain ⟨same, hsame, hset⟩ := hexit i hlt
  obtain rfl := Option.some.inj (hsame.symm.trans hthread)
  have hrank := LoopThread.rank_step (hinv same (List.mem_of_getElem? hthread)) hset hstep
  have hsum := sum_map_set LoopThread.rank hthread thread'
  omega

theorem rank_step (h : s.Inv n joined) (hexit : Stopped s.threads n)
    (hstep : s.step event = some t) : Stopped t.threads n ∧
      t.rank+(if event.ofLoops then 1 else 0) ≤ s.rank+(if event.pushes then 2 else 0) := by
  have hone {i : ℕ} {loop : LoopThread.Event ι α} {threads : List (LoopThread ι α)}
      (hthreads : stepAt LoopThread.step s.threads i loop = some threads) :=
    And.intro (stopped_stepAt h.threads hthreads hexit)
      (rank_stepAt h.threads (h.length.symm ▸ hexit) hthreads)
  cases moves_of_step hstep with
  | loop _ hthreads => exact hone hthreads
  | order _ hthreads => exact hone hthreads
  | signal _ hthreads => exact hone hthreads
  | stop _ | wait _ | destroy _ | ordered _ _ | again _ _ _ | join _ _ _ _ | joined _ _ =>
    exact ⟨hexit, Nat.le_refl _⟩

theorem rank_run {later : List (Event ι α)} (h : s.Inv n joined ∧ s.destroying)
    (hexit : Stopped s.threads n) (hrun : run step s later = some t) :
    t.rank+later.countP Event.ofLoops ≤ s.rank+2*later.countP Event.pushes := by
  have hstep (s : LoopManager ι α) (event : Event ι α) (t : LoopManager ι α)
      (hs : (s.Inv n joined ∧ s.destroying) ∧ Stopped s.threads n)
      (hstep : s.step event = some t) :
      ((t.Inv n joined ∧ t.destroying) ∧ Stopped t.threads n) ∧
        t.rank+(if event.ofLoops then 1 else 0) ≤ s.rank+(if event.pushes then 2 else 0) := by
    obtain ⟨hexit, hrank⟩ := rank_step hs.1.1 hs.2 hstep
    exact ⟨⟨destroying_step hs.1 hstep, hexit⟩, hrank⟩
  exact (countP_le_of_run hstep ⟨h, hexit⟩ hrun).2

omit [DecidableEq ι] in
theorem helps_of_ofLoop (s : LoopManager ι α) (i : ℕ) {loop : LoopThread.Event ι α}
    (hof : loop.ofLoop) : (Event.loop i loop).helps ∧ s.holds i loop = false := by
  cases loop with
  | stopSignal => cases hof
  | queue _ | stop | enter | check | leave => exact ⟨hof, rfl⟩

theorem step_loop {i : ℕ} {loop : LoopThread.Event ι α} {thread thread' : LoopThread ι α}
    (hfree : s.holds i loop = false) (hthread : s.threads[i]? = some thread)
    (hstep : thread.step loop = some thread') :
    s.step (.loop i loop) = some { s with threads := s.threads.set i thread' } := by
  rw [step, hfree, stepAt_of_getElem? hthread hstep]
  rfl

/-- What a thread does that a join waits for, or another one in `stop` of its loop. -/
theorem exists_step_of_thread {i : ℕ} {thread : LoopThread ι α} (h : thread.Inv)
    (hexit : thread.exit_) (hthread : s.threads[i]? = some thread)
    (hphase : s.phase ≠ .signalling i) (hended : thread.phase ≠ .ended) :
    ∃ (event : Event ι α) (t : LoopManager ι α), event.helps ∧ s.step event = some t := by
  have hfree : s.holds i .stopSignal = false := decide_eq_false hphase
  rcases LoopThread.exists_step_of_exit h hexit hended with ⟨loop, thread', hof, hstep⟩ | hsignal
  · obtain ⟨hhelps, hholds⟩ := helps_of_ofLoop s i hof
    exact ⟨.loop i loop, _, hhelps, step_loop hholds hthread hstep⟩
  · obtain ⟨thread', hstep⟩ := hsignal
    exact ⟨.loop i .stopSignal, _, rfl, step_loop hfree hthread hstep⟩

/-- The destructor waits for the mutex of a loop that another thread stops, or in `join` for a
thread that goes on. -/
theorem exists_step (h : s.Inv n joined) (hd : s.destroying) (hdeleted : s.phase ≠ .deleted)
    (hthrown : s.phase ≠ .thrown) :
    ∃ (event : Event ι α) (t : LoopManager ι α), event.helps ∧ s.step event = some t := by
  have hplace := h.place
  unfold Place at hplace
  have hnext {t : LoopManager ι α} (hstep : s.step .next = some t) :
      ∃ (event : Event ι α) (t : LoopManager ι α), event.helps ∧ s.step event = some t :=
    ⟨.next, t, rfl, hstep⟩
  cases hphase : s.phase with
  | idle =>
    rw [hphase] at hplace
    exact absurd (hplace.1.symm.trans hd) Bool.false_ne_true
  | stopping i =>
    by_cases hlt : i < s.threads.length
    · have hthread : s.threads[i]? = some s.threads[i] := List.getElem?_eq_getElem hlt
      by_cases hstopping : s.threads[i].stopping
      · have hfree : s.holds i .stopSignal = false := by
          apply decide_eq_false
          rw [hphase]
          exact nofun
        exact ⟨.loop i .stopSignal, _, rfl, step_loop hfree hthread (if_pos hstopping)⟩
      · have hstep : s.threads[i].step .stop = some _ := if_neg hstopping
        have hthreads := stepAt_of_getElem? hthread hstep
        apply hnext
        rw [step, hphase]
        exact (if_pos hlt).trans (congrArg (Option.map _) hthreads)
    · apply hnext
      rw [step, hphase]
      exact if_neg hlt
  | signalling i =>
    rw [hphase] at hplace
    obtain ⟨-, -, thread, hthread, hstopping⟩ := hplace
    have hstep : thread.step .stopSignal = some _ := if_pos hstopping
    have hthreads := stepAt_of_getElem? hthread hstep
    apply hnext
    rw [step, hphase]
    exact congrArg (Option.map _) hthreads
  | joining i =>
    rw [hphase] at hplace
    obtain ⟨-, -, -, hstopped⟩ := hplace
    cases hthread : s.threads[i]? with
    | none =>
      apply hnext
      rw [step, hphase]
      dsimp only
      rw [hthread]
    | some thread =>
      by_cases hjoined : i ∈ s.joins
      · apply hnext
        rw [step, hphase]
        dsimp only
        rw [hthread]
        exact if_pos hjoined
      · by_cases hended : thread.phase = .ended
        · apply hnext
          rw [step, hphase]
          dsimp only
          rw [hthread]
          exact (if_neg hjoined).trans (if_pos hended)
        · have hlt : i < n := h.length ▸ (List.getElem?_eq_some_iff.mp hthread).1
          obtain ⟨thread', hthread', hexit⟩ := hstopped hd i hlt
          obtain rfl := Option.some.inj (hthread'.symm.trans hthread)
          apply exists_step_of_thread (h.threads _ (List.mem_of_getElem? hthread)) hexit hthread
            _ hended
          rw [hphase]
          exact nofun
  | deleted => exact absurd hphase hdeleted
  | thrown => exact absurd hphase hthrown

/-- Once the destructor of a manager of `n` loops is called, the calling thread takes at most
`3*n+2` steps. When it has come to the first join, the threads of the loops take at most
`2*queue+5` steps each, and two more for every task that is pushed meanwhile. And as long as
the loops are not deleted and no join has thrown, it can take a step, or a thread of a loop
can, or one that is about to signal a loop in `MyLoop::stop`: the destructor comes to its end. -/
theorem destructor_ends (n : ℕ) (before later : List (Event ι α)) (s t u : LoopManager ι α)
    (hbefore : run step (init n) before = some s) (hdestroy : s.step .destroy = some t)
    (hlater : run step t later = some u) :
    later.countP Event.isNext ≤ 3*n+2 ∧
    (∀ (i : ℕ) (rest : List (Event ι α)) (v : LoopManager ι α), u.phase = .joining i →
      run step u rest = some v → rest.countP Event.ofLoops ≤
        (u.threads.map fun thread => 2*thread.loop.queue_.length+5).sum+
          2*rest.countP Event.pushes) ∧
    (u.phase ≠ .deleted → u.phase ≠ .thrown →
      ∃ (event : Event ι α) (v : LoopManager ι α), event.helps ∧ u.step event = some v) := by
  obtain ⟨joined, hs⟩ := inv_run hbefore
  obtain ⟨ht, hd, hphase⟩ := inv_destroy hs hdestroy
  have hu := destroying_run ⟨ht, hd⟩ hlater
  refine ⟨?_, ?_, exists_step hu.1 hu.2⟩
  · have hall := left_run ⟨ht, hd⟩ hlater
    have hleft : t.left n = 2*(n-0)+n+2 := by
      unfold left
      rw [hphase]
    omega
  · intro i rest v hphase hrest
    have hstopped : Stopped u.threads n := by
      have hplace := hu.1.place
      unfold Place at hplace
      rw [hphase] at hplace
      exact hplace.2.2.2 hu.2
    have hall := rank_run hu hstopped hrest
    have hrank : u.rank ≤ (u.threads.map fun thread => 2*thread.loop.queue_.length+5).sum :=
      List.sum_le_sum fun thread hmem => (hu.1.threads thread hmem).rank_le
    omega

/-- The destructor takes all of its `3*2+2` steps, and the loops eight of twelve. -/
theorem destructor_ends_two : ∃ s t u v : LoopManager ℕ ℕ,
    run step (init 2) taskWaits = some s ∧ s.step .destroy = some t ∧
    run step t stopsTwo = some u ∧ run step u joinsTwo = some v ∧ v.phase = .deleted ∧
    (stopsTwo ++ joinsTwo).countP Event.isNext = 3*2+2 ∧ joinsTwo.countP Event.ofLoops = 8 ∧
    8 ≤ (u.threads.map fun thread => 2*thread.loop.queue_.length+5).sum+2*0 ∧
    (∃ (event : Event ℕ ℕ) (w : LoopManager ℕ ℕ), event.helps ∧ u.step event = some w) := by
  refine ⟨_, _, _, _, rfl, rfl, rfl, rfl, rfl, rfl, rfl, ?_⟩
  have hall := destructor_ends (ι := ℕ) (α := ℕ) 2 taskWaits stopsTwo _ _ _ rfl rfl rfl
  exact ⟨hall.2.1 0 joinsTwo _ rfl rfl, hall.2.2 (by decide) (by decide)⟩

end LoopManager
end EchoFrame
