import EchoFrame.Verif.Run
import Mathlib.Data.Finset.Sort
import Mathlib.Data.Multiset.AddSub

/-! The watchers of the event loops: who holds them, and who frees them. The loops are those
of libev, of which only the documented behaviour is known. -/
namespace EchoFrame
open Verif

inductive WatcherType
  | MyIOWatcher
  | MyTimerWatcher (repeats : Bool)
  | MySignalWatcher
  | MyStatWatcher
  | MyIdleWatcher
  | MyAsyncWatcher
deriving DecidableEq

/-- The functions of libev for the watcher at an address: `ev_init`, `ev_io_start` and
`ev_io_stop` and the like, and what a loop does that takes an event of the watcher, which may
be an `EV_ERROR`. A loop holds the watchers that are active in it. -/
structure Libev (E : Type) where
  evInit : E → ℕ → E
  evStart : WatcherType → E → ℕ → ℕ → E
  evStop : WatcherType → E → ℕ → ℕ → E
  evInvoke : WatcherType → Bool → E → ℕ → ℕ → E
  active : E → Finset (ℕ × ℕ)

/-- What libev documents. To start a watcher that is active does nothing; to stop one that is
not active leaves it so; a timer that does not repeat is stopped when it fires, and any watcher
that has an error. Nothing is said of a stop in a loop other than the one that has the watcher,
nor of an active watcher that is initialised. -/
structure Libev.Lawful {E : Type} (ev : Libev E) : Prop where
  init : ∀ e a, (∀ l, (l, a) ∉ ev.active e) → ev.active (ev.evInit e a) = ev.active e
  start : ∀ type e loop a, (∀ l, (l, a) ∉ ev.active e) →
    ev.active (ev.evStart type e loop a) = insert (loop, a) (ev.active e)
  start_active : ∀ type e loop l a, (l, a) ∈ ev.active e →
    ev.active (ev.evStart type e loop a) = ev.active e
  stop : ∀ type e loop a, (loop, a) ∈ ev.active e →
    ev.active (ev.evStop type e loop a) = (ev.active e).erase (loop, a)
  stop_inactive : ∀ type e loop a, (∀ l, (l, a) ∉ ev.active e) →
    ev.active (ev.evStop type e loop a) = ev.active e
  invoke : ∀ type error e loop a, (loop, a) ∈ ev.active e →
    ev.active (ev.evInvoke type error e loop a) =
      if error ∨ type = .MyTimerWatcher false then (ev.active e).erase (loop, a) else ev.active e

/-- A watcher object. `loop` is that of `event_`. -/
structure MyWatcher where
  type : WatcherType
  is_listened_ : Bool
  loop : Option ℕ
deriving DecidableEq

/-- The objects by their addresses, the set of the manager, and the state of libev. -/
structure MyWatcherManager (E : Type) where
  objects : ℕ → Option MyWatcher
  watcher_list_ : Finset ℕ
  libev : E
  created : Multiset ℕ
  freed : Multiset ℕ

namespace MyWatcherManager

/-- What is done to the watcher at an address. `fire` is a loop that finds its event. -/
inductive Event
  | create (type : WatcherType) (a : ℕ)
  | append (loop a : ℕ)
  | subtract (a : ℕ)
  | start (a : ℕ)
  | stop (a : ℕ)
  | fire (loop a : ℕ) (error : Bool)
  | destroy (a : ℕ)
  | destructor

variable {E : Type}

def write (s : MyWatcherManager E) (a : ℕ) (w : Option MyWatcher) (e : E) : MyWatcherManager E :=
  { s with objects := Function.update s.objects a w, libev := e }

def subtractObject (ev : Libev E) (s : MyWatcherManager E) (a : ℕ) (w : MyWatcher) :
    MyWatcherManager E :=
  match w.loop with
  | none => s
  | some loop =>
    s.write a (some { w with is_listened_ := false }) (ev.evStop w.type s.libev loop a)

/-- `MyWatcher::destroy`. An object that is not there is freed once more. -/
def destroyObject (ev : Libev E) (s : MyWatcherManager E) (a : ℕ) : MyWatcherManager E :=
  match s.objects a with
  | none => { s with freed := a ::ₘ s.freed }
  | some w =>
    let s := if w.is_listened_ then s.subtractObject ev a w else s
    { s.write a none s.libev with freed := a ::ₘ s.freed }

def destroyAll (ev : Libev E) (s : MyWatcherManager E) (list : List ℕ) : MyWatcherManager E :=
  list.foldl (destroyObject ev) s

def timer (s : MyWatcherManager E) (a : ℕ) : Option MyWatcher :=
  (s.objects a).filter fun w => w.type matches .MyTimerWatcher _

/-- A step other than `destroy` on an address without an object, or on a loop that is null, is
refused. -/
def step (ev : Libev E) (s : MyWatcherManager E) : Event → Option (MyWatcherManager E)
  | .create type a =>
    match s.objects a with
    | some _ => none
    | none => some { s.write a (some ⟨type, false, none⟩) (ev.evInit s.libev a) with
        watcher_list_ := insert a s.watcher_list_, created := a ::ₘ s.created }
  | .append loop a => do
    let w ← s.objects a
    some (s.write a (some { w with is_listened_ := true, loop := some loop })
      (ev.evStart w.type s.libev loop a))
  | .subtract a => do
    let w ← s.objects a
    some (s.subtractObject ev a w)
  | .start a => do
    let w ← s.timer a
    let loop ← w.loop
    some (s.write a (some w) (ev.evStart w.type s.libev loop a))
  | .stop a => do
    let w ← s.timer a
    let loop ← w.loop
    some (s.write a (some w) (ev.evStop w.type s.libev loop a))
  | .fire loop a error => do
    let w ← s.objects a
    if (loop, a) ∈ ev.active s.libev then
      some (s.write a (some { w with loop := some loop })
        (ev.evInvoke w.type error s.libev loop a))
    else none
  | .destroy a =>
    some ({ s with watcher_list_ := s.watcher_list_.erase a }.destroyObject ev a)
  | .destructor =>
    some { s.destroyAll ev (s.watcher_list_.sort (· ≤ ·)) with watcher_list_ := ∅ }

def init (e : E) : MyWatcherManager E := ⟨fun _ => none, ∅, e, 0, 0⟩

/-- A watcher that a loop holds names this loop and is listened to, so that `destroy` will take
it out. -/
def Tracked (ev : Libev E) (s : MyWatcherManager E) : Prop :=
  ∀ l a, (l, a) ∈ ev.active s.libev →
    ∃ w, s.objects a = some w ∧ w.loop = some l ∧ w.is_listened_

/-- An active watcher is not added to another loop, and a timer is not started again after it
was taken out. -/
def Handled (ev : Libev E) (s : MyWatcherManager E) : Event → Prop
  | .append loop a => ∀ p ∈ ev.active s.libev, p.2 = a → p.1 = loop
  | .start a => ∀ w ∈ s.timer a, w.loop.isSome → w.is_listened_
  | _ => True

instance (ev : Libev E) (s : MyWatcherManager E) : ∀ event, Decidable (s.Handled ev event)
  | .append loop a =>
    inferInstanceAs (Decidable (∀ p ∈ ev.active s.libev, p.2 = a → p.1 = loop))
  | .start a => inferInstanceAs (Decidable (∀ w ∈ s.timer a, w.loop.isSome → w.is_listened_))
  | .create _ _ | .subtract _ | .stop _ | .fire _ _ _ | .destroy _ | .destructor => .isTrue trivial

def Live (s : MyWatcherManager E) : Event → Prop
  | .destroy a => (s.objects a).isSome
  | _ => True

instance (s : MyWatcherManager E) : ∀ event, Decidable (s.Live event)
  | .destroy a => inferInstanceAs (Decidable (s.objects a).isSome)
  | .create _ _ | .append _ _ | .subtract _ | .start _ | .stop _ | .fire _ _ _ | .destructor =>
    .isTrue trivial

/-- The objects are those of the set, and what was created has been freed or is there. -/
structure Owned (s : MyWatcherManager E) : Prop where
  listed : ∀ a, a ∈ s.watcher_list_ ↔ (s.objects a).isSome
  created : s.created = s.freed+s.watcher_list_.val

variable {ev : Libev E} {s s' : MyWatcherManager E} {a loop : ℕ} {w : MyWatcher}

/-- A watcher that no other loop has is in the loop where it was started. -/
theorem active_evStart (hev : ev.Lawful) (type : WatcherType) {e : E}
    (hone : ∀ l, (l, a) ∈ ev.active e → l = loop) :
    ev.active (ev.evStart type e loop a) = insert (loop, a) (ev.active e) := by
  by_cases hmem : (loop, a) ∈ ev.active e
  · rw [hev.start_active type e loop loop a hmem, Finset.insert_eq_of_mem hmem]
  · exact hev.start type e loop a fun l hl => hmem (hone l hl ▸ hl)

theorem active_evStop (hev : ev.Lawful) (type : WatcherType) {e : E}
    (hone : ∀ l, (l, a) ∈ ev.active e → l = loop) :
    ev.active (ev.evStop type e loop a) = (ev.active e).erase (loop, a) := by
  by_cases hmem : (loop, a) ∈ ev.active e
  · exact hev.stop type e loop a hmem
  · rw [Finset.erase_eq_of_notMem hmem]
    exact hev.stop_inactive type e loop a fun l hl => hmem (hone l hl ▸ hl)

theorem eq_loop_of_tracked (h : s.Tracked ev) (hw : s.objects a = some w) {l : ℕ}
    (hl : (l, a) ∈ ev.active s.libev) : w.loop = some l ∧ w.is_listened_ := by
  obtain ⟨w', hw', hboth⟩ := h l a hl
  obtain rfl := Option.some.inj (hw.symm.trans hw')
  exact hboth

/-- What is written at one address, and made active there, does not concern the others. -/
theorem tracked_write (h : s.Tracked ev) {w' : Option MyWatcher}
    (hother : ∀ l b, b ≠ a → (l, b) ∈ ev.active s'.libev → (l, b) ∈ ev.active s.libev)
    (hself : ∀ l, (l, a) ∈ ev.active s'.libev →
      ∃ w, w' = some w ∧ w.loop = some l ∧ w.is_listened_)
    (hobjects : s'.objects = Function.update s.objects a w') : s'.Tracked ev := by
  intro l b hb
  rw [hobjects]
  by_cases hba : b = a
  · rw [hba] at hb ⊢
    rw [Function.update_self]
    exact hself l hb
  · rw [Function.update_of_ne hba]
    exact h l b (hother l b hba hb)

theorem tracked_evStart (hev : ev.Lawful) (h : s.Tracked ev) (type : WatcherType)
    (hone : ∀ l, (l, a) ∈ ev.active s.libev → l = loop) (hloop : w.loop = some loop)
    (hlistened : w.is_listened_) :
    (s.write a (some w) (ev.evStart type s.libev loop a)).Tracked ev := by
  have hactive := active_evStart hev type hone
  refine tracked_write h ?_ ?_ rfl
  · intro l b hb hmem
    dsimp only [write] at hmem
    rw [hactive, Finset.mem_insert, Prod.mk.injEq] at hmem
    exact hmem.resolve_left fun heq => hb heq.2
  · intro l hmem
    dsimp only [write] at hmem
    rw [hactive, Finset.mem_insert, Prod.mk.injEq] at hmem
    have hl : l = loop := hmem.elim And.left (hone l)
    exact ⟨w, rfl, by rw [hloop, hl], hlistened⟩

/-- A watcher that is taken out of the loop it names is in no loop. -/
theorem notMem_of_erase {e e' : E} (hone : ∀ l, (l, a) ∈ ev.active e → l = loop)
    (hactive : ev.active e' = (ev.active e).erase (loop, a)) (l : ℕ) : (l, a) ∉ ev.active e' := by
  rw [hactive, Finset.mem_erase]
  rintro ⟨hne, hl⟩
  exact hne (by rw [hone l hl])

theorem tracked_erase (h : s.Tracked ev) (hone : ∀ l, (l, a) ∈ ev.active s.libev → l = loop)
    {e : E} (hactive : ev.active e = (ev.active s.libev).erase (loop, a)) (w' : Option MyWatcher) :
    (s.write a w' e).Tracked ev := by
  refine tracked_write h ?_ ?_ rfl
  · intro l b _ hmem
    dsimp only [write] at hmem
    rw [hactive] at hmem
    exact Finset.mem_of_mem_erase hmem
  · exact fun l hl => absurd hl (notMem_of_erase hone hactive l)

/-- Where the watcher is listened to, it is taken out, and else no loop has it. -/
theorem tracked_subtract (hev : ev.Lawful) (h : s.Tracked ev) (hw : s.objects a = some w) :
    (s.subtractObject ev a w).Tracked ev ∧
      ∀ l, (l, a) ∉ ev.active (s.subtractObject ev a w).libev := by
  unfold subtractObject
  cases hloop : w.loop with
  | none =>
    refine ⟨h, fun l hl => ?_⟩
    have hl' := (eq_loop_of_tracked h hw hl).1
    rw [hloop] at hl'
    cases hl'
  | some loop =>
    have hone (l : ℕ) (hl : (l, a) ∈ ev.active s.libev) : l = loop :=
      Option.some.inj ((eq_loop_of_tracked h hw hl).1.symm.trans hloop)
    have hactive := active_evStop hev w.type hone
    exact ⟨tracked_erase h hone hactive _, notMem_of_erase hone hactive⟩

theorem tracked_destroyObject (hev : ev.Lawful) (h : s.Tracked ev) (a : ℕ) :
    (s.destroyObject ev a).Tracked ev := by
  unfold destroyObject
  split
  · exact h
  · next w hw =>
    have hout : (if w.is_listened_ then s.subtractObject ev a w else s).Tracked ev ∧
        ∀ l, (l, a) ∉
          ev.active (if w.is_listened_ then s.subtractObject ev a w else s).libev := by
      split
      · exact tracked_subtract hev h hw
      · next hlistened =>
        exact ⟨h, fun l hl => hlistened (eq_loop_of_tracked h hw hl).2⟩
    exact tracked_write hout.1 (fun _ _ _ hmem => hmem) (fun l hl => absurd hl (hout.2 l)) rfl

theorem tracked_destroyAll (hev : ev.Lawful) (h : s.Tracked ev) (list : List ℕ) :
    (s.destroyAll ev list).Tracked ev := by
  unfold destroyAll
  induction list generalizing s with
  | nil => exact h
  | cons a list ih => exact ih (tracked_destroyObject hev h a)

theorem timer_eq_some (h : s.timer a = some w) : s.objects a = some w :=
  (Option.filter_eq_some_iff.mp h).1

theorem tracked_init {e : E} (he : ev.active e = ∅) : (init e).Tracked ev := by
  intro l a hmem
  dsimp only [init] at hmem
  rw [he] at hmem
  exact absurd hmem (Finset.notMem_empty _)

/-- No loop holds the address of a new watcher. -/
theorem tracked_create (hev : ev.Lawful) (h : s.Tracked ev) (hw : s.objects a = none)
    (w : MyWatcher) : (s.write a (some w) (ev.evInit s.libev a)).Tracked ev := by
  have hnot (l : ℕ) : (l, a) ∉ ev.active s.libev := by
    intro hl
    obtain ⟨_, hw', -⟩ := h l a hl
    rw [hw] at hw'
    cases hw'
  have hactive := hev.init s.libev a hnot
  refine tracked_write h (fun l b _ hmem => hactive ▸ hmem) (fun l hl => ?_) rfl
  exact absurd (hactive ▸ hl) (hnot l)

/-- The loop that takes an event of a watcher is the one that the watcher names. -/
theorem tracked_fire (hev : ev.Lawful) (h : s.Tracked ev) (hw : s.objects a = some w)
    (hmem : (loop, a) ∈ ev.active s.libev) (error : Bool) :
    (s.write a (some { w with loop := some loop })
      (ev.evInvoke w.type error s.libev loop a)).Tracked ev := by
  obtain ⟨hloop, hlistened⟩ := eq_loop_of_tracked h hw hmem
  have hone (l : ℕ) (hl : (l, a) ∈ ev.active s.libev) : l = loop :=
    Option.some.inj ((eq_loop_of_tracked h hw hl).1.symm.trans hloop)
  have hactive := hev.invoke w.type error s.libev loop a hmem
  split at hactive
  · exact tracked_erase h hone hactive _
  · refine tracked_write h (fun l b _ hb => hactive ▸ hb) (fun l hl => ?_) rfl
    have hl' : (l, a) ∈ ev.active s.libev := hactive ▸ hl
    exact ⟨_, rfl, by rw [hone l hl'], hlistened⟩

theorem tracked_step (hev : ev.Lawful) (h : s.Tracked ev) {event : Event}
    (hhandled : s.Handled ev event) (hstep : s.step ev event = some s') : s'.Tracked ev := by
  cases event with
  | create type a =>
    cases hw : s.objects a with
    | some w =>
      rw [step, hw] at hstep
      cases hstep
    | none =>
      rw [step, hw] at hstep
      obtain rfl := Option.some.inj hstep
      exact tracked_create hev h hw _
  | append loop a =>
    obtain ⟨w, hw, heq⟩ := Option.bind_eq_some_iff.mp hstep
    obtain rfl := Option.some.inj heq
    exact tracked_evStart hev h w.type (fun l hl => hhandled (l, a) hl rfl) rfl rfl
  | subtract a =>
    obtain ⟨w, hw, heq⟩ := Option.bind_eq_some_iff.mp hstep
    obtain rfl := Option.some.inj heq
    exact (tracked_subtract hev h hw).1
  | start a =>
    obtain ⟨w, hw, heq⟩ := Option.bind_eq_some_iff.mp hstep
    obtain ⟨loop, hloop, heq⟩ := Option.bind_eq_some_iff.mp heq
    obtain rfl := Option.some.inj heq
    have hlistened := hhandled w hw (by rw [hloop]; rfl)
    have hone (l : ℕ) (hl : (l, a) ∈ ev.active s.libev) : l = loop :=
      Option.some.inj ((eq_loop_of_tracked h (timer_eq_some hw) hl).1.symm.trans hloop)
    exact tracked_evStart hev h w.type hone hloop hlistened
  | stop a =>
    obtain ⟨w, hw, heq⟩ := Option.bind_eq_some_iff.mp hstep
    obtain ⟨loop, hloop, heq⟩ := Option.bind_eq_some_iff.mp heq
    obtain rfl := Option.some.inj heq
    have hone (l : ℕ) (hl : (l, a) ∈ ev.active s.libev) : l = loop :=
      Option.some.inj ((eq_loop_of_tracked h (timer_eq_some hw) hl).1.symm.trans hloop)
    exact tracked_erase h hone (active_evStop hev w.type hone) _
  | fire loop a error =>
    obtain ⟨w, hw, heq⟩ := Option.bind_eq_some_iff.mp hstep
    obtain ⟨hmem, heq⟩ := Option.ite_none_right_eq_some.mp heq
    obtain rfl := Option.some.inj heq
    exact tracked_fire hev h hw hmem error
  | destroy a =>
    obtain rfl := Option.some.inj hstep
    have hsame : Tracked ev { s with watcher_list_ := s.watcher_list_.erase a } := h
    exact tracked_destroyObject hev hsame a
  | destructor =>
    obtain rfl := Option.some.inj hstep
    exact tracked_destroyAll hev h (s.watcher_list_.sort (· ≤ ·))

/-- A step that leaves the watchers tracked was taken with care. -/
theorem handled_of_tracked (hev : ev.Lawful) (h : s.Tracked ev) {event : Event}
    (hnext : ∀ s', s.step ev event = some s' → s'.Tracked ev) : s.Handled ev event := by
  cases event with
  | append loop a =>
    rintro ⟨l, _⟩ hmem rfl
    obtain ⟨w, hw, -⟩ := h l _ hmem
    have htracked := hnext _ (by rw [step, hw]; rfl)
    have hstill := hev.start_active w.type s.libev loop l _ hmem
    obtain ⟨w', hw', hloop, -⟩ := htracked l _ (by dsimp only [write]; rwa [hstill])
    dsimp only [write] at hw'
    rw [Function.update_self] at hw'
    obtain rfl := Option.some.inj hw'
    exact (Option.some.inj hloop).symm
  | start a =>
    intro w hw hsome
    obtain ⟨loop, hloop⟩ := Option.isSome_iff_exists.mp hsome
    have hobject := timer_eq_some hw
    by_cases hactive : ∃ l, (l, a) ∈ ev.active s.libev
    · obtain ⟨l, hl⟩ := hactive
      exact (eq_loop_of_tracked h hobject hl).2
    · have htracked := hnext (s.write a (some w) (ev.evStart w.type s.libev loop a)) (by
        rw [step, Option.mem_def.mp hw]
        dsimp only [bind, Option.bind]
        rw [hloop])
      have hstarted := hev.start w.type s.libev loop a (not_exists.mp hactive)
      obtain ⟨w', hw', -, hlistened⟩ := htracked loop a (by
        dsimp only [write]
        rw [hstarted]
        exact Finset.mem_insert_self _ _)
      dsimp only [write] at hw'
      rw [Function.update_self] at hw'
      obtain rfl := Option.some.inj hw'
      exact hlistened
  | create _ _ | subtract _ | stop _ | fire _ _ _ | destroy _ | destructor => trivial

/-- The watchers are tracked in every state of a run that destroys none twice exactly when each
of its steps is taken with care. -/
theorem tracked_iff (hev : ev.Lawful) {e : E} (he : ev.active e = ∅) {events : List Event}
    (hlive : Along Live (step ev) (init e) events) :
    (∀ n s, run (step ev) (init e) (events.take n) = some s → s.Tracked ev) ↔
      Along (Handled ev) (step ev) (init e) events := by
  refine forall_run_take_iff_along ?_ ?_ ?_ (tracked_init he) hlive
  · exact fun s h => h
  · exact fun s event h _ hnext => handled_of_tracked hev h hnext
  · exact fun s event s' h _ hhandled hstep => tracked_step hev h hhandled hstep

/-- A libev that has only the lists of its loops. -/
def lists : Libev (Finset (ℕ × ℕ)) where
  evInit e _ := e
  evStart _ e loop a := if ∃ p ∈ e, p.2 = a then e else insert (loop, a) e
  evStop _ e loop a := e.erase (loop, a)
  evInvoke type error e loop a :=
    if error ∨ type = .MyTimerWatcher false then e.erase (loop, a) else e
  active e := e

theorem lawful_lists : lists.Lawful := by
  constructor
  · exact fun _ _ _ => rfl
  · exact fun _ _ _ _ hnot => if_neg fun ⟨p, hp, heq⟩ => hnot p.1 (heq ▸ hp)
  · exact fun _ _ _ l a hmem => if_pos ⟨(l, a), hmem, rfl⟩
  · exact fun _ _ _ _ _ => rfl
  · exact fun _ _ loop _ hnot => Finset.erase_eq_of_notMem (hnot loop)
  · exact fun _ _ _ _ _ _ => rfl

/-- A timer that fires once and is freed, whose address the next watcher gets. -/
def freedOnce : List Event :=
  [.create (.MyTimerWatcher false) 16, .append 0 16, .fire 0 16 false, .destroy 16,
    .create .MyIOWatcher 16, .append 1 16]

theorem tracked_two : ∃ s, run (step lists) (init ∅) freedOnce = some s ∧
    s.libev = {(1, 16)} ∧ s.Tracked lists := by
  have hlive : Along Live (step lists) (init ∅) freedOnce := by decide
  have htracked := (tracked_iff lawful_lists rfl hlive).mpr (by decide)
  have hrun : ∃ s, run (step lists) (init ∅) freedOnce = some s ∧ s.libev = {(1, 16)} :=
    ⟨_, rfl, by decide⟩
  obtain ⟨s, hrun, hactive⟩ := hrun
  exact ⟨s, hrun, hactive, htracked 6 s hrun⟩

structure SameOwner (s t : MyWatcherManager E) : Prop where
  objects : ∀ a, (t.objects a).isSome = (s.objects a).isSome
  watcher_list_ : t.watcher_list_ = s.watcher_list_
  created : t.created = s.created
  freed : t.freed = s.freed

theorem sameOwner_write (hw : s.objects a = some w) (w' : MyWatcher) (e : E) :
    SameOwner s (s.write a (some w') e) := by
  refine ⟨fun b => ?_, rfl, rfl, rfl⟩
  dsimp only [write]
  by_cases hb : b = a
  · rw [hb, hw, Function.update_self]
    rfl
  · rw [Function.update_of_ne hb]

theorem sameOwner_subtract (ev : Libev E) (hw : s.objects a = some w) :
    SameOwner s (s.subtractObject ev a w) := by
  unfold subtractObject
  split
  · exact ⟨fun _ => rfl, rfl, rfl, rfl⟩
  · exact sameOwner_write hw _ _

theorem owned_of_sameOwner (h : s.Owned) (hsame : SameOwner s s') : s'.Owned := by
  constructor
  · intro a
    rw [hsame.watcher_list_, hsame.objects a]
    exact h.listed a
  · rw [hsame.created, hsame.freed, hsame.watcher_list_]
    exact h.created

/-- `destroy` of an object frees it, and leaves the other addresses and the set alone. -/
theorem destroyObject_spec (ev : Libev E) (hw : (s.objects a).isSome) :
    (∀ b, ((s.destroyObject ev a).objects b).isSome ↔ b ≠ a ∧ (s.objects b).isSome) ∧
      (s.destroyObject ev a).watcher_list_ = s.watcher_list_ ∧
      (s.destroyObject ev a).created = s.created ∧
      (s.destroyObject ev a).freed = a ::ₘ s.freed := by
  obtain ⟨w, hw⟩ := Option.isSome_iff_exists.mp hw
  have hsame : SameOwner s (if w.is_listened_ then s.subtractObject ev a w else s) := by
    split
    · exact sameOwner_subtract ev hw
    · exact ⟨fun _ => rfl, rfl, rfl, rfl⟩
  unfold destroyObject
  rw [hw]
  refine ⟨?_, hsame.watcher_list_, hsame.created, congrArg _ hsame.freed⟩
  intro b
  rw [← hsame.objects b]
  dsimp only [write]
  by_cases hb : b = a
  · rw [hb, Function.update_self]
    exact iff_of_false Bool.false_ne_true fun hboth => hboth.1 rfl
  · rw [Function.update_of_ne hb]
    exact (and_iff_right hb).symm

/-- The objects of a list without repetitions are freed, one after the other. -/
theorem destroyAll_spec (ev : Libev E) {list : List ℕ} (hnodup : list.Nodup)
    (hlive : ∀ a ∈ list, (s.objects a).isSome) :
    (∀ b, ((s.destroyAll ev list).objects b).isSome ↔ b ∉ list ∧ (s.objects b).isSome) ∧
      (s.destroyAll ev list).created = s.created ∧
      (s.destroyAll ev list).freed = (list : Multiset ℕ)+s.freed := by
  induction list generalizing s with
  | nil => simp [destroyAll]
  | cons a list ih =>
    rw [List.forall_mem_cons] at hlive
    rw [List.nodup_cons] at hnodup
    obtain ⟨hobjects, -, hcreated, hfreed⟩ := destroyObject_spec ev hlive.1
    have hhead : s.destroyAll ev (a :: list) = (s.destroyObject ev a).destroyAll ev list := rfl
    have hrest : ∀ b ∈ list, ((s.destroyObject ev a).objects b).isSome := by
      intro b hb
      rw [hobjects b]
      exact ⟨fun heq => hnodup.1 (heq ▸ hb), hlive.2 b hb⟩
    obtain ⟨hobjects', hcreated', hfreed'⟩ := ih hnodup.2 hrest
    rw [hhead, hcreated', hcreated, hfreed', hfreed]
    refine ⟨?_, rfl, ?_⟩
    · intro b
      rw [hobjects' b, hobjects b, List.mem_cons, not_or]
      tauto
    · rw [← Multiset.cons_coe, Multiset.cons_add, Multiset.add_cons]

theorem owned_init (e : E) : (init e).Owned :=
  ⟨fun _ => iff_of_false (Finset.notMem_empty _) Bool.false_ne_true, rfl⟩

theorem owned_create (h : s.Owned) (hw : s.objects a = none) (w : MyWatcher) (e : E) :
    Owned { s.write a (some w) e with
      watcher_list_ := insert a s.watcher_list_, created := a ::ₘ s.created } := by
  have hnot : a ∉ s.watcher_list_ := by
    rw [h.listed a, hw]
    exact Bool.false_ne_true
  constructor
  · intro b
    dsimp only [write]
    rw [Finset.mem_insert, h.listed b]
    by_cases hb : b = a
    · rw [hb, Function.update_self]
      exact iff_of_true (.inl rfl) rfl
    · rw [Function.update_of_ne hb]
      exact or_iff_right hb
  · dsimp only [write]
    rw [h.created, Finset.insert_val_of_notMem hnot, Multiset.add_cons]

theorem owned_destroy (h : s.Owned) (ev : Libev E) (hlive : (s.objects a).isSome) :
    ({ s with watcher_list_ := s.watcher_list_.erase a }.destroyObject ev a).Owned := by
  have hmem : a ∈ s.watcher_list_ := (h.listed a).mpr hlive
  have hlive' : ({ s with watcher_list_ := s.watcher_list_.erase a }.objects a).isSome := hlive
  obtain ⟨hobjects, hlist, hcreated, hfreed⟩ := destroyObject_spec ev hlive'
  constructor
  · intro b
    rw [hlist, hobjects b, Finset.mem_erase, h.listed b]
  · rw [hcreated, hfreed, hlist, Multiset.cons_add, ← Multiset.add_cons, Finset.erase_val,
      Multiset.cons_erase hmem]
    exact h.created

theorem owned_destructor (h : s.Owned) (ev : Libev E) :
    Owned { s.destroyAll ev (s.watcher_list_.sort (· ≤ ·)) with watcher_list_ := ∅ } := by
  have hthere : ∀ a ∈ s.watcher_list_.sort (· ≤ ·), (s.objects a).isSome := by
    intro a ha
    rw [← h.listed a]
    exact (Finset.mem_sort _).mp ha
  obtain ⟨hobjects, hcreated, hfreed⟩ := destroyAll_spec ev (Finset.sort_nodup _ _) hthere
  constructor
  · intro b
    dsimp only
    rw [hobjects b, Finset.mem_sort, h.listed b]
    exact iff_of_false (Finset.notMem_empty b) fun hboth => hboth.1 hboth.2
  · dsimp only
    rw [hcreated, hfreed, Finset.sort_eq, h.created, add_comm]
    exact (add_zero _).symm

theorem owned_step (h : s.Owned) {event : Event} (hlive : s.Live event)
    (hstep : s.step ev event = some s') : s'.Owned := by
  cases event with
  | create type a =>
    cases hw : s.objects a with
    | some w =>
      rw [step, hw] at hstep
      cases hstep
    | none =>
      rw [step, hw] at hstep
      obtain rfl := Option.some.inj hstep
      exact owned_create h hw _ _
  | append loop a =>
    obtain ⟨w, hw, heq⟩ := Option.bind_eq_some_iff.mp hstep
    obtain rfl := Option.some.inj heq
    exact owned_of_sameOwner h (sameOwner_write hw _ _)
  | subtract a =>
    obtain ⟨w, hw, heq⟩ := Option.bind_eq_some_iff.mp hstep
    obtain rfl := Option.some.inj heq
    exact owned_of_sameOwner h (sameOwner_subtract ev hw)
  | start a =>
    obtain ⟨w, hw, heq⟩ := Option.bind_eq_some_iff.mp hstep
    obtain ⟨loop, _, heq⟩ := Option.bind_eq_some_iff.mp heq
    obtain rfl := Option.some.inj heq
    exact owned_of_sameOwner h (sameOwner_write (timer_eq_some hw) _ _)
  | stop a =>
    obtain ⟨w, hw, heq⟩ := Option.bind_eq_some_iff.mp hstep
    obtain ⟨loop, _, heq⟩ := Option.bind_eq_some_iff.mp heq
    obtain rfl := Option.some.inj heq
    exact owned_of_sameOwner h (sameOwner_write (timer_eq_some hw) _ _)
  | fire loop a error =>
    obtain ⟨w, hw, heq⟩ := Option.bind_eq_some_iff.mp hstep
    obtain ⟨_, heq⟩ := Option.ite_none_right_eq_some.mp heq
    obtain rfl := Option.some.inj heq
    exact owned_of_sameOwner h (sameOwner_write hw _ _)
  | destroy a =>
    obtain rfl := Option.some.inj hstep
    exact owned_destroy h ev hlive
  | destructor =>
    obtain rfl := Option.some.inj hstep
    exact owned_destructor h ev

/-- An object that is not there is not in the set either, and has been freed as often as it was
created. -/
theorem live_of_owned (h : s.Owned) {event : Event}
    (hnext : ∀ s', s.step ev event = some s' → s'.Owned) : s.Live event := by
  cases event with
  | destroy a =>
    by_contra hnone
    have hw : s.objects a = none := Option.not_isSome_iff_eq_none.mp hnone
    have hnot : a ∉ s.watcher_list_ := by rwa [h.listed a]
    have hcreated := (hnext _ rfl).created
    rw [Finset.erase_eq_of_notMem hnot, destroyObject, hw] at hcreated
    dsimp only at hcreated
    rw [h.created, Multiset.cons_add] at hcreated
    exact absurd (congrArg Multiset.card hcreated) (by rw [Multiset.card_cons]; omega)
  | create _ _ | append _ _ | subtract _ | start _ | stop _ | fire _ _ _ | destructor => trivial

/-- Each watcher that was created has been freed once, or it is in the set and not freed, in
every state of a run, exactly if it destroys no watcher that has been freed; and where the
watchers are also handled with care, no loop holds one that has been freed. -/
theorem watchers_owned (hev : ev.Lawful) {e : E} (he : ev.active e = ∅) (events : List Event) :
    ((∀ n s, run (step ev) (init e) (events.take n) = some s → s.Owned) ↔
      Along Live (step ev) (init e) events) ∧
    (Along Live (step ev) (init e) events → Along (Handled ev) (step ev) (init e) events →
      ∀ s, run (step ev) (init e) events = some s →
        ∀ l a, (l, a) ∈ ev.active s.libev → a ∈ s.watcher_list_) := by
  constructor
  · apply forall_run_take_iff_of_invariant
    · exact fun s h => h
    · exact fun s event h hnext => live_of_owned h hnext
    · exact fun s event s' h hlive hstep => owned_step h hlive hstep
    · exact owned_init e
  · intro hlive hhandled s hrun l a hmem
    have howned : s.Owned := invariant_of_run
      (fun _ _ _ h hlive hstep => owned_step h hlive hstep) (owned_init e) hlive hrun
    have htracked : s.Tracked ev := invariant_of_run
      (fun _ _ _ h hhandled hstep => tracked_step hev h hhandled hstep) (tracked_init he)
      hhandled hrun
    obtain ⟨w, hw, -⟩ := htracked l a hmem
    rw [howned.listed a, hw]
    rfl

theorem watchers_owned_two : ∃ s, run (step lists) (init ∅) freedOnce = some s ∧
    s.freed = {16} ∧ s.libev = {(1, 16)} ∧ s.Owned ∧
      ∀ l a, (l, a) ∈ s.libev → a ∈ s.watcher_list_ := by
  have hlive : Along Live (step lists) (init ∅) freedOnce := by decide
  have hhandled : Along (Handled lists) (step lists) (init ∅) freedOnce := by decide
  obtain ⟨howned, hheld⟩ := watchers_owned lawful_lists rfl freedOnce
  have hrun : ∃ s, run (step lists) (init ∅) freedOnce = some s ∧ s.freed = {16} ∧
      s.libev = {(1, 16)} := ⟨_, rfl, rfl, by decide⟩
  obtain ⟨s, hrun, hfreed, hactive⟩ := hrun
  exact ⟨s, hrun, hfreed, hactive, howned.mpr hlive 6 s hrun, hheld hlive hhandled s hrun⟩

end MyWatcherManager
end EchoFrame
