import EchoFrame.ClientSessions
import EchoFrame.Verif.Run
import Mathlib.Data.List.Count

/-! The actions of one asynchronous session, from its construction on. -/
namespace EchoFrame
open Verif

inductive SessionAction
  | thenAction
  | timeoutAction
  | errorAction
deriving DecidableEq, Repr

/-- What can happen around a session: `execute` is called on it, a packet comes
in on some connection, the executor runs one of its tasks, the timer of the
session fires, the application drops its reference, or the client is lost. -/
inductive CallbackEvent
  | execute
  | respond (magicMsg : MyMagicMessage)
  | runTask (task : SessionTask)
  | expire
  | drop
  | loseClient

/-- `held` is the reference of the application, `timer` the timer that
`execute` starts, and `actions` what was invoked on the session so far. -/
structure Callbacks where
  loops : ClientLoops
  tasks : List SessionTask
  held : Bool
  executed : Bool
  timer : Bool
  actions : List SessionAction

namespace Callbacks

/-- The session after `buildSession`. If its client is gone, no table holds it. -/
def init (session : MySession) (loops : ClientLoops) : Callbacks where
  loops := match loops.findClient session.client with
    | none => loops
    | some client => loops.setClient session.client (client.addSession session)
  tasks := []
  held := true
  executed := false
  timer := false
  actions := []

def Alive (session : MySession) (s : Callbacks) : Prop :=
  s.held = true ∨ s.loops.pending session.client session.requestId = some session ∨
    ∃ task ∈ s.tasks, task.request = session

instance (session : MySession) (s : Callbacks) : Decidable (Alive session s) :=
  inferInstanceAs (Decidable (_ ∨ _ ∨ _))

def doSuccessAction (s : Callbacks) : Callbacks :=
  { s with actions := s.actions ++ [.thenAction] }

def doTimeoutAction (s : Callbacks) : Callbacks :=
  { s with actions := s.actions ++ [.timeoutAction] }

/-- Whether a task calls `doSuccessAction`: the payload of a message has to decode. -/
def succeeds (decodes : Option (List Byte) → Bool) : SessionTask → Bool
  | .heartbeat _ => true
  | .data _ payload => decodes payload

/-- With the client gone, `execute` only logs. -/
def execute (session : MySession) (s : Callbacks) : Option Callbacks :=
  if s.executed then none
  else some { s with executed := true, timer := (s.loops.findClient session.client).isSome }

def respond (s : Callbacks) (magicMsg : MyMagicMessage) : Callbacks :=
  let handled := handlePacket s.loops magicMsg
  { s with loops := handled.1, tasks := s.tasks ++ handled.2.toList }

def runTask (decodes : Option (List Byte) → Bool) (session : MySession) (s : Callbacks)
    (task : SessionTask) : Option Callbacks :=
  if task ∈ s.tasks then
    let s := { s with tasks := s.tasks.erase task }
    some (if task.request = session ∧ succeeds decodes task = true then s.doSuccessAction else s)
  else none

/-- The timer holds weak pointers to the session and to its client. -/
def expire (session : MySession) (s : Callbacks) : Option Callbacks :=
  if s.timer then
    -- whether the session was completed is not asked
    let s := if Alive session s then s.doTimeoutAction else s
    some { s with timer := false,
                  loops := s.loops.removeSession session.client session.requestId }
  else none

def step (decodes : Option (List Byte) → Bool) (session : MySession) (s : Callbacks) :
    CallbackEvent → Option Callbacks
  | .execute => s.execute session
  | .respond magicMsg => some (s.respond magicMsg)
  | .runTask task => s.runTask decodes session task
  | .expire => s.expire session
  | .drop => some { s with held := false }
  | .loseClient => some { s with loops := s.loops.removeClient session.client }

def Quiet (session : MySession) (s : Callbacks) : Prop :=
  s.executed = true ∧ s.timer = false ∧ ∀ task ∈ s.tasks, task.request ≠ session

instance (session : MySession) (s : Callbacks) : Decidable (Quiet session s) :=
  inferInstanceAs (Decidable (_ ∧ _ ∧ _))

/-- A response has completed the session, or is going to. -/
def Completed (decodes : Option (List Byte) → Bool) (session : MySession) (s : Callbacks) : Prop :=
  s.actions ≠ [] ∨ ∃ task ∈ s.tasks, task.request = session ∧ succeeds decodes task = true

instance (decodes : Option (List Byte) → Bool) (session : MySession) (s : Callbacks) :
    Decidable (Completed decodes session s) := inferInstanceAs (Decidable (_ ∨ _))

/-- `execute` finds the client, and the timer finds the session exactly if no
response has completed it. -/
def Timely (decodes : Option (List Byte) → Bool) (session : MySession) (s : Callbacks) :
    CallbackEvent → Prop
  | .execute => (s.loops.findClient session.client).isSome = true
  | .expire => Alive session s ↔ ¬ Completed decodes session s
  | _ => True

instance (decodes : Option (List Byte) → Bool) (session : MySession) (s : Callbacks) :
    ∀ e, Decidable (Timely decodes session s e)
  | .execute => inferInstanceAs (Decidable (_ = true))
  | .expire => inferInstanceAs (Decidable (_ ↔ _))
  | .respond _ => inferInstanceAs (Decidable True)
  | .runTask _ => inferInstanceAs (Decidable True)
  | .drop => inferInstanceAs (Decidable True)
  | .loseClient => inferInstanceAs (Decidable True)

/-- The actions that were invoked, and those that a task is going to invoke. -/
def total (decodes : Option (List Byte) → Bool) (session : MySession) (s : Callbacks) : ℕ :=
  s.actions.length+
    s.tasks.countP fun task => task.request = session ∧ succeeds decodes task = true

/-- While the session waits nothing was invoked; in the end one action was, or is
going to be. -/
structure Accounted (decodes : Option (List Byte) → Bool) (session : MySession)
    (s : Callbacks) : Prop where
  place : ∀ uid requestId, s.loops.pending uid requestId = some session →
    uid = session.client ∧ requestId = session.requestId
  only : ∀ other, s.loops.pending session.client session.requestId = some other →
    other = session
  waiting : s.loops.pending session.client session.requestId = some session →
    total decodes session s = 0
  total_le : total decodes session s ≤ 1
  settled : s.executed = true → s.timer = false →
    total decodes session s = 1 ∧
      s.loops.pending session.client session.requestId = none

variable {decodes : Option (List Byte) → Bool} {session : MySession} {s t : Callbacks}

theorem completed_iff : Completed decodes session s ↔ total decodes session s ≠ 0 := by
  unfold Completed total
  simp only [ne_eq, Nat.add_eq_zero_iff, List.length_eq_zero_iff, List.countP_eq_zero, not_and_or]
  simp

theorem accounted_init {loops : ClientLoops}
    (hfresh : ∀ uid requestId, loops.pending uid requestId ≠ some session) :
    Accounted decodes session (init session loops) := by
  have htotal : total decodes session (init session loops) = 0 := rfl
  have hpend (uid : UInt32) (requestId : UInt64) :
      (init session loops).loops.pending uid requestId =
        if (loops.findClient session.client).isSome ∧ session.client = uid ∧
          session.requestId = requestId then some session
        else loops.pending uid requestId := by
    cases hc : loops.findClient session.client with
    | none => simp [init, hc]
    | some client =>
      simp only [init, hc, Option.isSome_some, true_and]
      rw [ClientLoops.pending_setClient hc, MyClient.findSession_addSession]
      by_cases hu : session.client = uid
      · subst hu
        simp only [↓reduceIte, true_and, ClientLoops.pending_eq hc]
      · simp only [hu, ↓reduceIte, false_and]
  refine ⟨?_, ?_, fun _ => htotal, by omega,
    fun h => absurd h Bool.false_ne_true⟩
  · intro uid requestId h
    rw [hpend] at h
    split at h
    · next hat => exact ⟨hat.2.1.symm, hat.2.2.symm⟩
    · exact absurd h (hfresh uid requestId)
  · intro other h
    rw [hpend] at h
    split at h
    · exact (Option.some.inj h).symm
    · next hat =>
      have hnone : loops.findClient session.client = none := by
        simpa using hat
      rw [ClientLoops.pending, hnone] at h
      cases h

/-- A step that invokes and announces nothing, and after which no more sessions
are pending. -/
theorem accounted_of_shrink (hs : Accounted decodes session s)
    (hloops : ∀ uid requestId x, t.loops.pending uid requestId = some x →
      s.loops.pending uid requestId = some x)
    (htotal : total decodes session t = total decodes session s)
    (hdone : t.executed = true → t.timer = false → s.executed = true ∧ s.timer = false) :
    Accounted decodes session t := by
  refine ⟨fun uid requestId h => hs.place _ _ (hloops _ _ _ h),
    fun other h => hs.only _ (hloops _ _ _ h), fun h => htotal ▸ hs.waiting (hloops _ _ _ h),
    htotal ▸ hs.total_le, ?_⟩
  intro he ht
  obtain ⟨he, ht⟩ := hdone he ht
  obtain ⟨h1, hnone⟩ := hs.settled he ht
  refine ⟨htotal.trans h1, Option.eq_none_iff_forall_not_mem.mpr ?_⟩
  intro x hx
  rw [hloops _ _ _ hx] at hnone
  cases hnone

theorem accounted_respond (hs : Accounted decodes session s) (m : MyMagicMessage) :
    Accounted decodes session (s.respond m) := by
  have hpend := pending_handlePacket s.loops m
  have hshrink (uid : UInt32) (requestId : UInt64) (x : MySession)
      (h : (s.respond m).loops.pending uid requestId = some x) :
      s.loops.pending uid requestId = some x := by
    rw [respond, hpend] at h
    split at h
    · cases h
    · exact h
  cases htask : (handlePacket s.loops m).2 with
  | none =>
    have htasks : (s.respond m).tasks = s.tasks := by
      rw [respond, htask, Option.toList_none, List.append_nil]
    refine accounted_of_shrink hs hshrink ?_ fun he ht => ⟨he, ht⟩
    rw [total, htasks]
    rfl
  | some task =>
    have hnamed := request_of_handlePacket htask
    have htotal : total decodes session (s.respond m) = total decodes session s+
        if task.request = session ∧ succeeds decodes task = true then 1 else 0 := by
      simp only [total, respond, htask, Option.toList_some, List.countP_append,
        List.countP_singleton, decide_eq_true_eq, Nat.add_assoc]
    by_cases hown : task.request = session
    · rw [hown] at hnamed
      obtain ⟨hc, hr⟩ := hs.place _ _ hnamed
      rw [hc, hr] at hnamed
      have hzero := hs.waiting hnamed
      have hnone : (s.respond m).loops.pending session.client session.requestId = none := by
        rw [respond, hpend, if_pos ⟨hc, hr⟩]
      have hle : total decodes session (s.respond m) ≤ 1 := by
        rw [htotal, hzero]
        split <;> omega
      refine ⟨fun uid requestId h => hs.place _ _ (hshrink _ _ _ h),
        fun other h => hs.only _ (hshrink _ _ _ h), ?_, hle, ?_⟩
      · intro h
        rw [hnone] at h
        cases h
      · intro he ht
        have hgone := (hs.settled he ht).2
        rw [hnamed] at hgone
        cases hgone
    · refine accounted_of_shrink hs hshrink ?_ fun he ht => ⟨he, ht⟩
      rw [htotal, if_neg fun h => hown h.1]
      rfl

theorem accounted_runTask {task : SessionTask} (hs : Accounted decodes session s)
    (ht : s.runTask decodes session task = some t) : Accounted decodes session t := by
  obtain ⟨hmem, ht⟩ := Option.ite_none_right_eq_some.mp ht
  dsimp only at ht
  have hcount := List.countP_erase
    (fun task => decide (task.request = session ∧ succeeds decodes task = true)) s.tasks task
  by_cases hp : task.request = session ∧ succeeds decodes task = true
  · have hpos : 0 < s.tasks.countP
        (fun task => decide (task.request = session ∧ succeeds decodes task = true)) :=
      List.countP_pos_iff.mpr ⟨task, hmem, decide_eq_true hp⟩
    rw [if_pos hp] at ht
    obtain rfl := Option.some.inj ht
    refine accounted_of_shrink hs (fun _ _ _ h => h) ?_ fun he ht => ⟨he, ht⟩
    simp only [total, doSuccessAction, List.length_append, List.length_singleton, hcount, hmem,
      decide_eq_true hp, and_self, ↓reduceIte]
    omega
  · rw [if_neg hp] at ht
    obtain rfl := Option.some.inj ht
    refine accounted_of_shrink hs (fun _ _ _ h => h) ?_ fun he ht => ⟨he, ht⟩
    simp only [total, hcount, hp, decide_false, Bool.false_eq_true, and_false, ↓reduceIte,
      Nat.sub_zero]

theorem accounted_expire (hs : Accounted decodes session s)
    (htimely : Timely decodes session s .expire) (ht : s.expire session = some t) :
    Accounted decodes session t := by
  obtain ⟨htimer, ht⟩ := Option.ite_none_right_eq_some.mp ht
  have hle := hs.total_le
  have hone : total decodes session (if Alive session s then s.doTimeoutAction else s) = 1 := by
    have hiff := htimely.trans (not_congr completed_iff)
    split
    · next h =>
      have hzero := not_not.mp (hiff.mp h)
      simp only [total, doTimeoutAction, List.length_append, List.length_singleton] at hzero ⊢
      omega
    · next h =>
      have hne : total decodes session s ≠ 0 := fun h0 => h (hiff.mpr (not_not.mpr h0))
      omega
  have hloops : (if Alive session s then s.doTimeoutAction else s).loops = s.loops := by
    split <;> rfl
  have hpend (uid : UInt32) (requestId : UInt64) := s.loops.pending_removeSession session.client
    session.requestId uid requestId
  obtain rfl := Option.some.inj ht
  have hshrink (uid : UInt32) (requestId : UInt64) (x : MySession)
      (h : (s.loops.removeSession session.client session.requestId).pending uid requestId =
        some x) : s.loops.pending uid requestId = some x := by
    rw [hpend] at h
    split at h
    · cases h
    · exact h
  have hnone : (s.loops.removeSession session.client session.requestId).pending session.client
      session.requestId = none := (hpend _ _).trans (if_pos ⟨rfl, rfl⟩)
  rw [← hloops] at hnone hshrink
  refine ⟨?_, ?_, ?_, hone.le,
    fun _ _ => ⟨hone, hnone⟩⟩
  · intro uid requestId h
    exact hs.place _ _ (hloops ▸ hshrink _ _ _ h)
  · intro other h
    exact hs.only _ (hloops ▸ hshrink _ _ _ h)
  · intro h
    rw [hnone] at h
    cases h

theorem accounted_step {e : CallbackEvent} (hs : Accounted decodes session s)
    (htimely : Timely decodes session s e) (ht : step decodes session s e = some t) :
    Accounted decodes session t := by
  cases e with
  | execute =>
    obtain ⟨-, ht⟩ := Option.ite_none_left_eq_some.mp ht
    obtain rfl := Option.some.inj ht
    refine accounted_of_shrink hs (fun _ _ _ h => h) rfl ?_
    intro _ ht
    exact absurd (htimely.symm.trans ht) (by decide)
  | respond m =>
    obtain rfl := Option.some.inj ht
    exact accounted_respond hs m
  | runTask task => exact accounted_runTask hs ht
  | expire => exact accounted_expire hs htimely ht
  | drop =>
    obtain rfl := Option.some.inj ht
    exact accounted_of_shrink hs (fun _ _ _ h => h) rfl fun he ht => ⟨he, ht⟩
  | loseClient =>
    obtain rfl := Option.some.inj ht
    refine accounted_of_shrink hs ?_ rfl fun he ht => ⟨he, ht⟩
    intro uid requestId x h
    rw [ClientLoops.pending_removeClient] at h
    split at h
    · cases h
    · exact h

/-- In a run in which `execute` finds the client and the timer finds the session
exactly if no response has completed it, one action was invoked, and once,
whenever nothing is left to happen. -/
theorem one_action_of_timely (decodes : Option (List Byte) → Bool) {loops : ClientLoops}
    (hfresh : ∀ uid requestId, loops.pending uid requestId ≠ some session)
    (es : List CallbackEvent)
    (htimely : Along (Timely decodes session) (step decodes session) (init session loops) es)
    (ht : run (step decodes session) (init session loops) es = some t) (hq : Quiet session t) :
    t.actions.length = 1 := by
  have hacc : Accounted decodes session t :=
    invariant_of_run (fun _ _ _ hs he hstep => accounted_step hs he hstep)
      (accounted_init hfresh) htimely ht
  obtain ⟨he, hti, hnotask⟩ := hq
  have hone := (hacc.settled he hti).1
  have hzero : t.tasks.countP
      (fun task => decide (task.request = session ∧ succeeds decodes task = true)) = 0 := by
    rw [List.countP_eq_zero]
    intro task htask
    simp [hnotask task htask]
  rw [total, hzero] at hone
  exact hone

/-- The application lets go of the session, the answer comes in time, and the
timer finds nothing. -/
theorem one_action_answered :
    let session : MySession := ⟨0,0x70123,100⟩
    ∃ t, run (step Option.isSome session) (init session (ClientLoops.oneClient 0x70123))
      [.execute,.drop,.respond session.answer,.runTask (.heartbeat session),.expire] = some t ∧
      Quiet session t ∧ t.actions.length = 1 := by
  have hfresh (uid : UInt32) (requestId : UInt64) :
      (ClientLoops.oneClient 0x70123).pending uid requestId ≠ some ⟨0,0x70123,100⟩ := by
    rw [ClientLoops.pending_oneClient]
    exact nofun
  exact ⟨_, rfl, by decide, one_action_of_timely Option.isSome hfresh
    [.execute,.drop,.respond (MySession.answer ⟨0,0x70123,100⟩),
      .runTask (.heartbeat ⟨0,0x70123,100⟩),.expire] (by decide) rfl (by decide)⟩

/-- The application keeps the session, which is answered, and the timer invokes
a second action. With the client lost before `execute`, none is ever invoked. -/
theorem two_actions_answered_no_action_lost :
    let session : MySession := ⟨0,0x70123,100⟩
    let start := init session (ClientLoops.oneClient 0x70123)
    (∃ t, run (step Option.isSome session) start
      [.execute,.respond session.answer,.runTask (.heartbeat session),.expire] = some t ∧
      Quiet session t ∧ t.actions = [.thenAction,.timeoutAction]) ∧
    ∃ t, run (step Option.isSome session) start [.loseClient,.execute] = some t ∧
      Quiet session t ∧ t.actions = [] :=
  ⟨⟨_, rfl, by decide, by decide⟩, _, rfl, by decide, by decide⟩

end Callbacks
end EchoFrame
