import EchoFrame.Verif.Entries
import EchoFrame.Verif.Run
import Mathlib.Algebra.Order.Group.Multiset
import Mathlib.Tactic.Abel

/-! `MyThreadQueue` under its mutex and condition variable: what each thread does while
it holds the lock is one step, and a call that waits lets go of the lock in between. -/
namespace EchoFrame
open Verif

variable {α : Type}

/-- `sleeping` holds the calls of `popFront` blocked in `wait` or `wait_for`, `notified`
those that a notification has unblocked and that do not have the lock again, `roused`
those unblocked by their timeout or spuriously, each with its `millsecond`. `pushed`,
`cleared` and `results` are the history: what was put in and cleared away, and what the
calls of `popFront` have returned, `none` for false. -/
structure MyThreadQueue (α : Type) where
  queue_ : List α := []
  sleeping : List ℕ := []
  notified : List ℕ := []
  roused : List ℕ := []
  pushed : List α := []
  cleared : List α := []
  results : List (ℕ × Option α) := []

namespace MyThreadQueue

/-- `uint32_t(-1)`, the default of `popFront`. -/
def forever : ℕ := 2^32-1

def popped (s : MyThreadQueue α) : List α := s.results.filterMap Prod.snd

def returns (s : MyThreadQueue α) (millsecond : ℕ) (t : Option α) : MyThreadQueue α :=
  { s with results := s.results ++ [(millsecond, t)] }

def takeFront (s : MyThreadQueue α) (millsecond : ℕ) (rv : Bool) : MyThreadQueue α :=
  if rv then
    match s.queue_ with
    | [] => s.returns millsecond none
    | t :: queue => { s.returns millsecond (some t) with queue_ := queue }
  else s.returns millsecond none

/-- `popFront` up to its return or to the wait in it. -/
def popFront (s : MyThreadQueue α) (millsecond : ℕ) : MyThreadQueue α :=
  if millsecond = forever then
    if s.queue_.isEmpty then { s with sleeping := s.sleeping ++ [millsecond] }
    else s.takeFront millsecond true
  else if millsecond = 0 then
    if s.queue_.isEmpty then s.returns millsecond none
    else s.takeFront millsecond true
  else
    if s.queue_.isEmpty then { s with sleeping := s.sleeping ++ [millsecond] }
    else s.takeFront millsecond true

/-- `rv` after the wait: `wait` has no result, and `wait_for` says whether its time is over. -/
def waited (millsecond : ℕ) (expired : Bool) : Bool := millsecond = forever || !expired

/-- `notify_one` unblocks one of the blocked calls, whichever, if there is one. -/
def notifyOne (s : MyThreadQueue α) (w : ℕ) : Option (MyThreadQueue α) :=
  match s.sleeping[w]? with
  | some millsecond =>
    some { s with sleeping := s.sleeping.eraseIdx w, notified := s.notified ++ [millsecond] }
  | none => if s.sleeping.isEmpty then some s else none

def pushBack (s : MyThreadQueue α) (t : α) (w : ℕ) : Option (MyThreadQueue α) :=
  notifyOne { s with queue_ := s.queue_ ++ [t], pushed := s.pushed ++ [t] } w

def pushFront (s : MyThreadQueue α) (t : α) (w : ℕ) : Option (MyThreadQueue α) :=
  notifyOne { s with queue_ := t :: s.queue_, pushed := s.pushed ++ [t] } w

/-- A number `w` says which blocked call a notification unblocks; `expired` is what the
clock says when a call has the lock again. The overloads for a queue are one step. -/
inductive Event (α : Type)
  | popFront (millsecond : ℕ)
  | rouse (k : ℕ)
  | resumeNotified (k : ℕ) (expired : Bool)
  | resumeRoused (k : ℕ) (expired : Bool)
  | pushBack (t : α) (w : ℕ)
  | pushBackAll (qt : List (α × ℕ))
  | pushFront (t : α) (w : ℕ)
  | pushFrontAll (qt : List (α × ℕ))
  | clear
  | notify (w : ℕ)
  | notifyAll

def step (s : MyThreadQueue α) : Event α → Option (MyThreadQueue α)
  | .popFront millsecond => some (s.popFront millsecond)
  | .rouse k =>
    match s.sleeping[k]? with
    | none => none
    | some millsecond =>
      some { s with sleeping := s.sleeping.eraseIdx k, roused := s.roused ++ [millsecond] }
  | .resumeNotified k expired =>
    match s.notified[k]? with
    | none => none
    | some millsecond =>
      some (takeFront { s with notified := s.notified.eraseIdx k } millsecond
        (waited millsecond expired))
  | .resumeRoused k expired =>
    match s.roused[k]? with
    | none => none
    | some millsecond =>
      some (takeFront { s with roused := s.roused.eraseIdx k } millsecond
        (waited millsecond expired))
  | .pushBack t w => s.pushBack t w
  | .pushBackAll qt => run (fun s p => s.pushBack p.1 p.2) s qt
  | .pushFront t w => s.pushFront t w
  | .pushFrontAll qt => run (fun s p => s.pushFront p.1 p.2) s qt
  | .clear => some { s with queue_ := [], cleared := s.cleared ++ s.queue_ }
  | .notify w => s.notifyOne w
  | .notifyAll => some { s with sleeping := [], notified := s.notified ++ s.sleeping }

def Event.fronted : Event α → List α
  | .pushFront t _ => [t]
  | .pushFrontAll qt => qt.map Prod.fst
  | _ => []

/-- Nothing is lost or doubled: an item is handed out, cleared away or queued. -/
def Kept (s : MyThreadQueue α) : Prop :=
  (s.pushed : Multiset α) = s.popped + s.cleared + s.queue_

/-- The items that meet `p` come out in the order in which they were put in, if none
are cleared away. -/
def InOrder (p : α → Bool) (s : MyThreadQueue α) : Prop :=
  s.cleared = [] → (s.popped ++ s.queue_).filter p = s.pushed.filter p

/-- While a call is blocked, a notified call is on its way for each queued item. -/
def Attended (s : MyThreadQueue α) : Prop :=
  s.sleeping ≠ [] → s.queue_.length ≤ s.notified.length

@[simp] theorem popped_returns_none (s : MyThreadQueue α) (millsecond : ℕ) :
    (s.returns millsecond none).popped = s.popped := by
  simp [popped, returns]

@[simp] theorem popped_returns_some (s : MyThreadQueue α) (millsecond : ℕ) (t : α) :
    (s.returns millsecond (some t)).popped = s.popped ++ [t] := by
  simp [popped, returns]

/-- A call that has the lock hands out the front, or returns false: because its time is
over, or on an empty queue. -/
theorem takeFront_cases (s : MyThreadQueue α) (millsecond : ℕ) (rv : Bool) :
    (s.takeFront millsecond rv = s.returns millsecond none ∧ (rv = true → s.queue_ = [])) ∨
      ∃ t queue, rv = true ∧ s.queue_ = t :: queue ∧
        s.takeFront millsecond rv = { s.returns millsecond (some t) with queue_ := queue } := by
  unfold takeFront
  cases rv with
  | false => exact .inl ⟨rfl, fun h => absurd h Bool.false_ne_true⟩
  | true =>
    rw [if_pos rfl]
    split
    · next hempty => exact .inl ⟨rfl, fun _ => hempty⟩
    · next t queue hqueue => exact .inr ⟨t, queue, rfl, hqueue, rfl⟩

/-- A call that does not find an item waits, unless it is not to wait at all. -/
theorem popFront_cases (s : MyThreadQueue α) (millsecond : ℕ) :
    (s.queue_ = [] ∧ s.popFront millsecond = { s with sleeping := s.sleeping ++ [millsecond] }) ∨
      (millsecond = 0 ∧ s.popFront millsecond = s.returns millsecond none) ∨
      ∃ t queue, s.queue_ = t :: queue ∧
        s.popFront millsecond = { s.returns millsecond (some t) with queue_ := queue } := by
  unfold popFront takeFront
  cases hqueue : s.queue_ with
  | nil =>
    by_cases hforever : millsecond = forever
    · exact .inl ⟨rfl, by simp [hforever]⟩
    · by_cases hzero : millsecond = 0
      · exact .inr (.inl ⟨hzero, by simp [hzero, forever]⟩)
      · exact .inl ⟨rfl, by simp [hforever, hzero]⟩
  | cons t queue => exact .inr (.inr ⟨t, queue, rfl, by simp⟩)

/-- A notification unblocks one call, if one is blocked. -/
theorem notifyOne_cases {s s' : MyThreadQueue α} {w : ℕ} (h : s.notifyOne w = some s') :
    (s.sleeping = [] ∧ s' = s) ∨ ∃ millsecond, s.sleeping[w]? = some millsecond ∧
      s' = { s with sleeping := s.sleeping.eraseIdx w, notified := s.notified ++ [millsecond] } := by
  unfold notifyOne at h
  split at h
  · next millsecond hw => exact .inr ⟨millsecond, hw, (Option.some.inj h).symm⟩
  · obtain ⟨hsleeping, hs⟩ := Option.ite_none_right_eq_some.mp h
    exact .inl ⟨List.isEmpty_iff.mp hsleeping, (Option.some.inj hs).symm⟩

/-- A notification changes neither the queue nor the history. -/
theorem notifyOne_frame {s s' : MyThreadQueue α} {w : ℕ} (h : s.notifyOne w = some s') :
    s'.queue_ = s.queue_ ∧ s'.pushed = s.pushed ∧ s'.cleared = s.cleared ∧
      s'.results = s.results ∧ s'.roused = s.roused := by
  obtain ⟨_, rfl⟩ | ⟨_, _, rfl⟩ := notifyOne_cases h
  · exact ⟨rfl, rfl, rfl, rfl, rfl⟩
  · exact ⟨rfl, rfl, rfl, rfl, rfl⟩

theorem step_rouse {s s' : MyThreadQueue α} {k : ℕ} (h : s.step (.rouse k) = some s') :
    ∃ millsecond, s.sleeping[k]? = some millsecond ∧
      s' = { s with sleeping := s.sleeping.eraseIdx k, roused := s.roused ++ [millsecond] } := by
  simp only [step] at h
  split at h
  · cases h
  · next millsecond hk => exact ⟨millsecond, hk, (Option.some.inj h).symm⟩

theorem step_resumeNotified {s s' : MyThreadQueue α} {k : ℕ} {expired : Bool}
    (h : s.step (.resumeNotified k expired) = some s') :
    ∃ millsecond, s.notified[k]? = some millsecond ∧
      s' = takeFront { s with notified := s.notified.eraseIdx k } millsecond
        (waited millsecond expired) := by
  simp only [step] at h
  split at h
  · cases h
  · next millsecond hk => exact ⟨millsecond, hk, (Option.some.inj h).symm⟩

theorem step_resumeRoused {s s' : MyThreadQueue α} {k : ℕ} {expired : Bool}
    (h : s.step (.resumeRoused k expired) = some s') :
    ∃ millsecond, s.roused[k]? = some millsecond ∧
      s' = takeFront { s with roused := s.roused.eraseIdx k } millsecond
        (waited millsecond expired) := by
  simp only [step] at h
  split at h
  · cases h
  · next millsecond hk => exact ⟨millsecond, hk, (Option.some.inj h).symm⟩

section Items

/-- `I` is about the items only, and survives each way in which one goes in or out. -/
structure Items (I : MyThreadQueue α → Prop) (front : α → Prop) : Prop where
  frame : ∀ {s s' : MyThreadQueue α}, I s → s'.queue_ = s.queue_ → s'.pushed = s.pushed →
    s'.cleared = s.cleared → s'.popped = s.popped → I s'
  take : ∀ {s : MyThreadQueue α} {t : α} {queue : List α} (millsecond : ℕ), I s →
    s.queue_ = t :: queue → I { s.returns millsecond (some t) with queue_ := queue }
  back : ∀ {s : MyThreadQueue α} (t : α), I s →
    I { s with queue_ := s.queue_ ++ [t], pushed := s.pushed ++ [t] }
  front : ∀ {s : MyThreadQueue α} {t : α}, I s → front t →
    I { s with queue_ := t :: s.queue_, pushed := s.pushed ++ [t] }
  clear : ∀ {s : MyThreadQueue α}, I s → I { s with queue_ := [], cleared := s.cleared ++ s.queue_ }

variable {I : MyThreadQueue α → Prop} {front : α → Prop}

theorem takeFront_of_items (hI : Items I front) {s : MyThreadQueue α} (h : I s) (millsecond : ℕ)
    (rv : Bool) : I (s.takeFront millsecond rv) := by
  obtain ⟨htake, _⟩ | ⟨t, queue, _, hqueue, htake⟩ := takeFront_cases s millsecond rv
  · rw [htake]
    exact hI.frame h rfl rfl rfl (popped_returns_none s millsecond)
  · rw [htake]
    exact hI.take millsecond h hqueue

theorem notifyOne_of_items (hI : Items I front) {s s' : MyThreadQueue α} {w : ℕ} (h : I s)
    (hstep : s.notifyOne w = some s') : I s' := by
  obtain ⟨hq, hp, hc, hr, _⟩ := notifyOne_frame hstep
  exact hI.frame h hq hp hc (congrArg (List.filterMap Prod.snd) hr)

/-- A step whose items for the front are as `front` says keeps such an invariant. -/
theorem step_of_items (hI : Items I front) {s s' : MyThreadQueue α} {event : Event α} (h : I s)
    (hfront : ∀ t ∈ event.fronted, front t) (hstep : s.step event = some s') : I s' := by
  cases event with
  | popFront millsecond =>
    obtain rfl := Option.some.inj hstep
    obtain ⟨_, hpop⟩ | ⟨_, hpop⟩ | ⟨t, queue, hqueue, hpop⟩ := popFront_cases s millsecond
    · rw [hpop]
      exact hI.frame h rfl rfl rfl rfl
    · rw [hpop]
      exact hI.frame h rfl rfl rfl (popped_returns_none s millsecond)
    · rw [hpop]
      exact hI.take millsecond h hqueue
  | rouse k =>
    obtain ⟨_, _, rfl⟩ := step_rouse hstep
    exact hI.frame h rfl rfl rfl rfl
  | resumeNotified k expired =>
    obtain ⟨_, _, rfl⟩ := step_resumeNotified hstep
    apply takeFront_of_items hI
    exact hI.frame h rfl rfl rfl rfl
  | resumeRoused k expired =>
    obtain ⟨_, _, rfl⟩ := step_resumeRoused hstep
    apply takeFront_of_items hI
    exact hI.frame h rfl rfl rfl rfl
  | pushBack t w => exact notifyOne_of_items hI (hI.back t h) hstep
  | pushBackAll qt =>
    apply invariant_of_steps _ h hstep
    intro s p s' h hpush
    exact notifyOne_of_items hI (hI.back p.1 h) hpush
  | pushFront t w => exact notifyOne_of_items hI (hI.front h (hfront t List.mem_cons_self)) hstep
  | pushFrontAll qt =>
    have halong (p : α × ℕ) (hp : p ∈ qt) : front p.1 := hfront p.1 (List.mem_map_of_mem hp)
    apply invariant_of_run _ h (along_of_mem halong s) hstep
    intro s p s' h hp hpush
    exact notifyOne_of_items hI (hI.front h hp) hpush
  | clear => exact Option.some.inj hstep ▸ hI.clear h
  | notify w => exact notifyOne_of_items hI h hstep
  | notifyAll => exact Option.some.inj hstep ▸ hI.frame h rfl rfl rfl rfl

theorem run_of_items (hI : Items I front) {s s' : MyThreadQueue α} {events : List (Event α)} (h : I s)
    (hfront : ∀ event ∈ events, ∀ t ∈ event.fronted, front t)
    (hrun : run step s events = some s') : I s' :=
  invariant_of_run (fun _ _ _ h hfront hstep => step_of_items hI h hfront hstep) h
    (along_of_mem hfront s) hrun

end Items

@[simp] theorem popped_take (s : MyThreadQueue α) (millsecond : ℕ) (t : α) (queue : List α) :
    popped { s.returns millsecond (some t) with queue_ := queue } = s.popped ++ [t] :=
  popped_returns_some s millsecond t

theorem items_kept : Items (Kept : MyThreadQueue α → Prop) fun _ => True where
  frame := by
    intro s s' h hqueue hpushed hcleared hpopped
    unfold Kept at *
    rw [hqueue, hpushed, hcleared, hpopped]
    exact h
  take := by
    intro s t queue millsecond h hqueue
    unfold Kept at *
    rw [popped_take]
    calc (s.pushed : Multiset α)
      _ = s.popped + s.cleared + ({t} + queue : Multiset α) := by rw [h, hqueue]; rfl
      _ = ↑(s.popped ++ [t]) + s.cleared + queue := by
        rw [← Multiset.coe_add, Multiset.coe_singleton]
        abel
  back := by
    intro s t h
    unfold Kept at *
    dsimp only
    rw [← Multiset.coe_add, ← Multiset.coe_add, h]
    exact add_assoc _ _ _
  front := by
    intro s t h _
    have hfront : ((t :: s.queue_ : List α) : Multiset α) = s.queue_ + {t} := by
      rw [← Multiset.cons_coe, ← Multiset.singleton_add, add_comm]
    unfold Kept at *
    dsimp only
    rw [hfront, ← Multiset.coe_add, h]
    exact add_assoc _ _ _
  clear := by
    intro s h
    unfold Kept at *
    dsimp only
    rw [h, ← Multiset.coe_add, Multiset.coe_nil, add_zero, ← add_assoc]
    rfl

theorem items_inOrder (p : α → Bool) : Items (InOrder p) fun t : α => p t = false where
  frame := by
    intro s s' h hqueue hpushed hcleared hpopped
    unfold InOrder at *
    rw [hqueue, hpushed, hcleared, hpopped]
    exact h
  take := by
    intro s t queue millsecond h hqueue hcleared
    rw [popped_take, List.append_assoc]
    refine Eq.trans ?_ (h hcleared)
    rw [hqueue]
    rfl
  back := by
    intro s t h hcleared
    have hqueue : (s.popped ++ (s.queue_ ++ [t])).filter p = (s.pushed ++ [t]).filter p := by
      rw [← List.append_assoc, List.filter_append, h hcleared, ← List.filter_append]
    exact hqueue
  front := by
    intro s t h ht hcleared
    have hpushed : (s.pushed ++ [t]).filter p = s.pushed.filter p := by simp [ht]
    refine Eq.trans ?_ ((h hcleared).trans hpushed.symm)
    simp [ht, popped]
  clear := by
    intro s h hcleared
    obtain ⟨hcleared, hqueue⟩ := List.append_eq_nil_iff.mp hcleared
    rw [← h hcleared, hqueue]
    rfl

/-- In every run each item that was put in is handed out once, cleared away or still
queued; and where nothing is cleared away, the items of which none is put at the front
come out in the order in which they were put in, whatever happens to the others. -/
theorem items_accounted (p : α → Bool) (events : List (Event α)) {s : MyThreadQueue α}
    (hfront : ∀ event ∈ events, ∀ t ∈ event.fronted, p t = false)
    (hrun : run step {} events = some s) : s.Kept ∧ s.InOrder p := by
  constructor
  · apply run_of_items items_kept _ _ hrun
    · simp [Kept, popped]
    · intro _ _ _ _
      trivial
  · apply run_of_items (items_inOrder p) _ hfront hrun
    intro _
    rfl

/-- Two threads put in 1 and 2, a third one puts 9 at the front, and a blocked call is
handed the 1 after a call that does not wait has taken the 9. -/
theorem items_accounted_two : ∃ s : MyThreadQueue ℕ,
    run step {} [.popFront 500, .pushBackAll [(1, 0), (2, 0)], .pushFront 9 0, .popFront 0,
      .resumeNotified 0 false] = some s ∧ s.popped = [9, 1] ∧ s.Kept ∧ s.InOrder (· < 9) := by
  refine ⟨_, rfl, rfl, ?_⟩
  exact items_accounted (· < 9) [.popFront 500, .pushBackAll [(1, 0), (2, 0)], .pushFront 9 0,
    .popFront 0, .resumeNotified 0 false] (by decide) rfl

/-- A notified call whose time is over leaves without an item; it may do so only if the
other notified calls are enough for the queue, or nobody is blocked. -/
def LeavesEnough (s : MyThreadQueue α) : Event α → Prop
  | .resumeNotified k expired => ∀ millsecond ∈ s.notified[k]?, waited millsecond expired = false →
      s.sleeping ≠ [] → s.queue_.length < s.notified.length
  | _ => True

theorem length_eraseIdx_of_getElem? {l : List ℕ} {k n : ℕ} (h : l[k]? = some n) :
    (l.eraseIdx k).length+1 = l.length := by
  obtain ⟨hk, _⟩ := List.getElem?_eq_some_iff.mp h
  rw [List.length_eraseIdx_of_lt hk]
  omega

theorem ne_nil_of_eraseIdx {l : List ℕ} {k : ℕ} (h : l.eraseIdx k ≠ []) : l ≠ [] := by
  rintro rfl
  exact h rfl

theorem attended_push {s s' : MyThreadQueue α} (h : s.Attended) {t : α} {w : ℕ} {queue : List α}
    (hqueue : queue.length = s.queue_.length+1)
    (hpush : notifyOne { s with queue_ := queue, pushed := s.pushed ++ [t] } w = some s') :
    s'.Attended := by
  intro hsleeping
  obtain ⟨hnil, rfl⟩ | ⟨millsecond, hw, rfl⟩ := notifyOne_cases hpush
  · exact absurd hnil hsleeping
  · have hle := h (ne_nil_of_eraseIdx hsleeping)
    simp only [List.length_append, List.length_singleton]
    omega

theorem attended_step {s s' : MyThreadQueue α} {event : Event α} (h : s.Attended)
    (hleaves : s.LeavesEnough event) (hstep : s.step event = some s') : s'.Attended := by
  cases event with
  | popFront millsecond =>
    obtain rfl := Option.some.inj hstep
    obtain ⟨hempty, hpop⟩ | ⟨_, hpop⟩ | ⟨t, queue, hqueue, hpop⟩ := popFront_cases s millsecond
    · rw [hpop]
      intro _
      exact hempty ▸ Nat.zero_le _
    · rw [hpop]
      exact h
    · rw [hpop]
      intro hsleeping
      have hle := h hsleeping
      rw [hqueue] at hle
      exact (Nat.le_succ _).trans hle
  | rouse k =>
    obtain ⟨_, _, rfl⟩ := step_rouse hstep
    exact fun hsleeping => h (ne_nil_of_eraseIdx hsleeping)
  | resumeNotified k expired =>
    obtain ⟨millsecond, hk, rfl⟩ := step_resumeNotified hstep
    have hlength := length_eraseIdx_of_getElem? hk
    obtain ⟨htake, hempty⟩ | ⟨t, queue, _, hqueue, htake⟩ := takeFront_cases
      { s with notified := s.notified.eraseIdx k } millsecond (waited millsecond expired)
    · rw [htake]
      intro hsleeping
      dsimp only [returns] at hsleeping hempty ⊢
      cases hwaited : waited millsecond expired with
      | true => exact hempty hwaited ▸ Nat.zero_le _
      | false =>
        have hlt := hleaves millsecond hk hwaited hsleeping
        omega
    · rw [htake]
      intro hsleeping
      have hle := h hsleeping
      dsimp only [returns] at hqueue ⊢
      rw [hqueue, List.length_cons] at hle
      omega
  | resumeRoused k expired =>
    obtain ⟨millsecond, _, rfl⟩ := step_resumeRoused hstep
    obtain ⟨htake, _⟩ | ⟨t, queue, _, hqueue, htake⟩ := takeFront_cases
      { s with roused := s.roused.eraseIdx k } millsecond (waited millsecond expired)
    · rw [htake]
      exact h
    · rw [htake]
      intro hsleeping
      have hle := h hsleeping
      dsimp only [returns] at hqueue ⊢
      rw [hqueue] at hle
      exact (Nat.le_succ _).trans hle
  | pushBack t w => exact attended_push h (by rw [List.length_append]; rfl) hstep
  | pushBackAll qt =>
    apply invariant_of_steps _ h hstep
    intro s p s' h hpush
    exact attended_push h (by rw [List.length_append]; rfl) hpush
  | pushFront t w => exact attended_push h rfl hstep
  | pushFrontAll qt =>
    apply invariant_of_steps _ h hstep
    intro s p s' h hpush
    exact attended_push h rfl hpush
  | clear =>
    obtain rfl := Option.some.inj hstep
    exact fun _ => Nat.zero_le _
  | notify w =>
    obtain ⟨_, rfl⟩ | ⟨_, _, rfl⟩ := notifyOne_cases hstep
    · exact h
    · intro hsleeping
      have hle := h (ne_nil_of_eraseIdx hsleeping)
      rw [List.length_append]
      exact hle.trans (Nat.le_add_right _ _)
  | notifyAll =>
    obtain rfl := Option.some.inj hstep
    exact fun hsleeping => absurd rfl hsleeping

theorem leavesEnough_of_attended {s : MyThreadQueue α} {event : Event α}
    (h : ∀ s', s.step event = some s' → s'.Attended) : s.LeavesEnough event := by
  cases event with
  | resumeNotified k expired =>
    intro millsecond hk hwaited hsleeping
    have hlength := length_eraseIdx_of_getElem? hk
    have hattended := h _ (by rw [step, Option.mem_def.mp hk])
    rw [hwaited] at hattended
    have hle : s.queue_.length ≤ (s.notified.eraseIdx k).length := hattended hsleeping
    omega
  | _ => trivial

/-- No call stays blocked next to a queued item without a notified call on its way to
it: exactly in the runs in which a notified call that finds its time over is not the one
needed. A run without timed waits is such a run. -/
theorem attended_iff (events : List (Event α)) :
    (∀ n s, run step {} (events.take n) = some s → s.Attended) ↔
      Along LeavesEnough step {} events := by
  apply forall_run_take_iff_of_invariant
  · exact fun s h => h
  · exact fun s event _ h => leavesEnough_of_attended h
  · exact fun s event s' h hleaves hstep => attended_step h hleaves hstep
  · exact fun h => absurd rfl h

/-- Nothing gets between a notification and the call it is for: no item is taken or
cleared away that a notified call is on its way to, and a call that waits for ever is
unblocked by a new item only. -/
def Undisturbed (s : MyThreadQueue α) : Event α → Prop
  | .popFront _ => s.queue_ ≠ [] → s.notified.length < s.queue_.length
  | .rouse k => s.sleeping[k]? ≠ some forever
  | .resumeRoused _ expired =>
    expired = false → s.queue_ ≠ [] → s.notified.length < s.queue_.length
  | .clear => s.notified = []
  | .notify _ | .notifyAll => s.sleeping = []
  | _ => True

instance decidableUndisturbed (s : MyThreadQueue α) : ∀ event, Decidable (s.Undisturbed event)
  | .popFront _ =>
    inferInstanceAs (Decidable (¬s.queue_ = [] → s.notified.length < s.queue_.length))
  | .rouse k => inferInstanceAs (Decidable (s.sleeping[k]? ≠ some forever))
  | .resumeRoused _ expired => inferInstanceAs
    (Decidable (expired = false → ¬s.queue_ = [] → s.notified.length < s.queue_.length))
  | .clear => inferInstanceAs (Decidable (s.notified = []))
  | .notify _ | .notifyAll => inferInstanceAs (Decidable (s.sleeping = []))
  | .resumeNotified _ _ | .pushBack _ _ | .pushBackAll _ | .pushFront _ _ | .pushFrontAll _ =>
    inferInstanceAs (Decidable True)

/-- There is an item for each notified call, and no call for ever has been let down. -/
structure Served (s : MyThreadQueue α) : Prop where
  items : s.notified.length ≤ s.queue_.length
  roused : forever ∉ s.roused
  results : (forever, none) ∉ s.results

theorem served_push {s s' : MyThreadQueue α} (h : s.Served) {t : α} {w : ℕ} {queue : List α}
    (hqueue : queue.length = s.queue_.length+1)
    (hpush : notifyOne { s with queue_ := queue, pushed := s.pushed ++ [t] } w = some s') :
    s'.Served := by
  have hitems := h.items
  obtain ⟨_, rfl⟩ | ⟨millsecond, hw, rfl⟩ := notifyOne_cases hpush
  · refine ⟨?_, h.roused, h.results⟩
    dsimp only
    omega
  · refine ⟨?_, h.roused, h.results⟩
    simp only [List.length_append, List.length_singleton]
    omega

/-- A call of `popFront` returns, and what it returns is not a failure after waiting for ever. -/
theorem results_returns {s : MyThreadQueue α} (h : (forever, none) ∉ s.results) {millsecond : ℕ}
    {t : Option α} (ht : millsecond = forever → t ≠ none) :
    (forever, none) ∉ (s.returns millsecond t).results := by
  unfold returns
  intro hmem
  rcases List.mem_append.mp hmem with hold | hnew
  · exact h hold
  · have heq := List.mem_singleton.mp hnew
    cases heq
    exact ht rfl rfl

theorem served_step {s s' : MyThreadQueue α} {event : Event α} (h : s.Served)
    (hundisturbed : s.Undisturbed event) (hstep : s.step event = some s') : s'.Served := by
  have hitems := h.items
  cases event with
  | popFront millsecond =>
    obtain rfl := Option.some.inj hstep
    obtain ⟨_, hpop⟩ | ⟨hzero, hpop⟩ | ⟨t, queue, hqueue, hpop⟩ := popFront_cases s millsecond
    · rw [hpop]
      exact ⟨hitems, h.roused, h.results⟩
    · rw [hpop]
      refine ⟨hitems, h.roused, results_returns h.results ?_⟩
      rw [hzero]
      exact fun hforever => absurd hforever (by decide)
    · rw [hpop]
      refine ⟨?_, h.roused, results_returns h.results fun _ => Option.some_ne_none t⟩
      have hlt := hundisturbed (by rw [hqueue]; exact List.cons_ne_nil t queue)
      rw [hqueue] at hlt
      exact Nat.lt_succ_iff.mp hlt
  | rouse k =>
    obtain ⟨millsecond, hk, rfl⟩ := step_rouse hstep
    refine ⟨hitems, ?_, h.results⟩
    intro hmem
    rcases List.mem_append.mp hmem with hold | hnew
    · exact h.roused hold
    · have heq := List.mem_singleton.mp hnew
      exact hundisturbed (heq ▸ hk)
  | resumeNotified k expired =>
    obtain ⟨millsecond, hk, rfl⟩ := step_resumeNotified hstep
    have hlength := length_eraseIdx_of_getElem? hk
    obtain ⟨htake, hempty⟩ | ⟨t, queue, _, hqueue, htake⟩ := takeFront_cases
      { s with notified := s.notified.eraseIdx k } millsecond (waited millsecond expired)
    · rw [htake]
      refine ⟨?_, h.roused, results_returns h.results ?_⟩
      · dsimp only [returns]
        omega
      · rintro rfl
        have hnil : s.queue_ = [] := hempty (by simp [waited])
        rw [hnil, List.length_nil] at hitems
        omega
    · rw [htake]
      refine ⟨?_, h.roused, results_returns h.results fun _ => Option.some_ne_none t⟩
      dsimp only [returns] at hqueue ⊢
      rw [hqueue, List.length_cons] at hitems
      omega
  | resumeRoused k expired =>
    obtain ⟨millsecond, hk, rfl⟩ := step_resumeRoused hstep
    have hroused : forever ∉ s.roused.eraseIdx k := fun hmem =>
      h.roused (List.mem_of_mem_eraseIdx hmem)
    have hne : millsecond ≠ forever := fun heq => h.roused (heq ▸ List.mem_of_getElem? hk)
    obtain ⟨htake, _⟩ | ⟨t, queue, hwaited, hqueue, htake⟩ := takeFront_cases
      { s with roused := s.roused.eraseIdx k } millsecond (waited millsecond expired)
    · rw [htake]
      exact ⟨hitems, hroused, results_returns h.results fun heq => absurd heq hne⟩
    · rw [htake]
      refine ⟨?_, hroused, results_returns h.results fun _ => Option.some_ne_none t⟩
      have hexpired : expired = false := by simpa [waited, hne] using hwaited
      have hlt := hundisturbed hexpired (hqueue ▸ List.cons_ne_nil t queue)
      dsimp only [returns] at hqueue ⊢
      rw [hqueue] at hlt
      exact Nat.lt_succ_iff.mp hlt
  | pushBack t w => exact served_push h (by rw [List.length_append]; rfl) hstep
  | pushBackAll qt =>
    apply invariant_of_steps _ h hstep
    intro s p s' h hpush
    exact served_push h (by rw [List.length_append]; rfl) hpush
  | pushFront t w => exact served_push h rfl hstep
  | pushFrontAll qt =>
    apply invariant_of_steps _ h hstep
    intro s p s' h hpush
    exact served_push h rfl hpush
  | clear =>
    obtain rfl := Option.some.inj hstep
    have hnil : s.notified = [] := hundisturbed
    exact ⟨hnil ▸ Nat.zero_le _, h.roused, h.results⟩
  | notify w =>
    obtain ⟨_, rfl⟩ | ⟨_, hw, rfl⟩ := notifyOne_cases hstep
    · exact h
    · have hnil : s.sleeping = [] := hundisturbed
      rw [hnil] at hw
      cases hw
  | notifyAll =>
    obtain rfl := Option.some.inj hstep
    have hnil : s.sleeping = [] := hundisturbed
    refine ⟨?_, h.roused, h.results⟩
    rw [hnil, List.append_nil]
    exact hitems

/-- In a run in which nothing gets between a notification and its call, `popFront` that
waits for ever always hands out an item. -/
theorem forever_served {events : List (Event α)} (hall : Along Undisturbed step {} events)
    {s : MyThreadQueue α} (hrun : run step {} events = some s) : (forever, none) ∉ s.results := by
  have hserved := invariant_of_run (fun _ _ _ => served_step) (by
    exact ⟨Nat.le_refl _, List.not_mem_nil, List.not_mem_nil⟩) hall hrun
  exact hserved.results

/-- Two calls wait for ever, each gets an item, and a third finds one. -/
theorem forever_served_three : ∃ s : MyThreadQueue ℕ,
    run step {} [.popFront forever, .popFront forever, .pushBackAll [(1, 1), (2, 0), (3, 0)],
      .popFront forever, .resumeNotified 0 false, .resumeNotified 0 true] = some s ∧
    s.popped = [1, 2, 3] ∧ (forever, none) ∉ s.results := by
  have hall : Along Undisturbed step ({} : MyThreadQueue ℕ) [.popFront forever, .popFront forever,
      .pushBackAll [(1, 1), (2, 0), (3, 0)], .popFront forever, .resumeNotified 0 false,
      .resumeNotified 0 true] := by decide
  exact ⟨_, rfl, rfl, forever_served hall rfl⟩

end MyThreadQueue
end EchoFrame
