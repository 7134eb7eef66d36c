import EchoFrame.SessionCallbacks
import EchoFrame.Verif.Entries
import Mathlib.Data.List.Nodup

/-! The calls on one client, and the sessions that they leave in its request table. -/
namespace EchoFrame
open Verif Std

inductive CallPhase
  | built
  | executed
  | waiting
  | over
deriving DecidableEq, Repr

/-- A call, without a session in a table where `buildSession` has found no client. `timer` is
the one that `execute` arms, `promise` is what `executeAndWait` waits for. -/
structure TableCall where
  session : Option MySession
  phase : CallPhase := .built
  timer : Bool := false
  promise : Bool := false
deriving DecidableEq, Repr

/-- The client, `none` once it is destroyed, and whether a loop holds it; the calls, each
session with the position of its call for an id; and the tasks of the executor. -/
structure SessionTable where
  client : Option MyClient
  held : Bool
  calls : List TableCall := []
  tasks : List SessionTask := []

/-- `found` is whether the selector gives the client. -/
inductive TableEvent
  | buildSession (found : Bool) (now : UInt32)
  | execute (i : ℕ)
  | executeAndWait (i : ℕ)
  | respond (magicMsg : MyMagicMessage)
  | runTask (task : SessionTask)
  | timer (i : ℕ)
  | waitReturns (i : ℕ)
  | waitTimeout (i : ℕ)
  | removeClient
  | destroy
deriving DecidableEq, Repr

/-- Both classes queue the frame and return 0, whatever becomes of the write. -/
def MyClient.sendPayload (_ : MyClient) : ℤ := 0

/-- `doSuccessAction`: it ends a call of `execute`, and a waiting one gets its promise. -/
def TableCall.doSuccessAction (c : TableCall) : TableCall :=
  match c.phase with
  | .executed => { c with phase := .over }
  | .waiting => { c with promise := true }
  | .built | .over => c

/-- `wait_for` says that the promise is set, or the call is over already. -/
def TableCall.Done (c : TableCall) : Prop := c.phase = .over ∨ c.promise = true

namespace SessionTable

def pending (s : SessionTable) (requestId : UInt64) : Option MySession :=
  s.client.bind fun client => client.findSession requestId

def size (s : SessionTable) : ℕ := (s.client.map fun client => client.requests.size).getD 0

def sessions (s : SessionTable) : List (Option MySession) := s.calls.map TableCall.session

def setCall (s : SessionTable) (i : ℕ) (c : TableCall) : SessionTable :=
  { s with calls := s.calls.set i c }

def removeSession (s : SessionTable) (requestId : UInt64) : SessionTable :=
  { s with client := s.client.map fun client => client.removeSession requestId }

def buildSession (s : SessionTable) (found : Bool) (now : UInt32) : SessionTable :=
  match if found then s.client else none with
  | none => { s with calls := s.calls ++ [⟨none,.built,false,false⟩] }
  | some client =>
    let session : MySession := ⟨s.calls.length,client.uid,now⟩
    { s with
      client := some (client.addSession session)
      calls := s.calls ++ [⟨some session,.built,false,false⟩] }

def execute (s : SessionTable) (i : ℕ) (c : TableCall) : SessionTable :=
  match c.session, s.client with
  | some _, some client =>
    -- the session stays
    if client.sendPayload ≠ 0 then s.setCall i { c with phase := .over }
    else s.setCall i { c with phase := .executed, timer := true }
  | _, _ => s.setCall i { c with phase := .over }

/-- `executeAndWait` up to the wait, for which `sendPayload` makes no difference. -/
def executeAndWait (s : SessionTable) (i : ℕ) (c : TableCall) : SessionTable :=
  match c.session, s.client with
  | some _, some _ => s.setCall i { c with phase := .waiting }
  | _, _ => s.setCall i { c with phase := .over }

/-- `handlePacket`, which finds the client in its loop. -/
def respond (s : SessionTable) (magicMsg : MyMagicMessage) : SessionTable :=
  match if s.held then s.client else none with
  | none => s
  | some client =>
    if clientIdOf magicMsg.requestId = client.uid then
      let request := client.findSession magicMsg.requestId
      { s.removeSession magicMsg.requestId with
        tasks := s.tasks ++ (request.bind (taskFor magicMsg)).toList }
    else s

def runTask (decodes : Option (List Byte) → Bool) (s : SessionTable) (task : SessionTask) :
    SessionTable :=
  let s := { s with tasks := s.tasks.erase task }
  match s.calls[task.request.id]? with
  | none => s
  | some c =>
    if Callbacks.succeeds decodes task then s.setCall task.request.id c.doSuccessAction else s

def timer (s : SessionTable) (i : ℕ) (c : TableCall) : SessionTable :=
  match c.session with
  | none => s
  | some session =>
    (s.removeSession session.requestId).setCall i { c with phase := .over, timer := false }

def step (decodes : Option (List Byte) → Bool) (s : SessionTable) : TableEvent → Option SessionTable
  | .buildSession found now => some (s.buildSession found now)
  | .execute i => s.calls[i]?.bind fun c =>
    if c.phase = .built then some (s.execute i c) else none
  | .executeAndWait i => s.calls[i]?.bind fun c =>
    if c.phase = .built then some (s.executeAndWait i c) else none
  | .respond magicMsg => some (s.respond magicMsg)
  | .runTask task => if task ∈ s.tasks then some (s.runTask decodes task) else none
  | .timer i => s.calls[i]?.bind fun c => if c.timer then some (s.timer i c) else none
  | .waitReturns i => s.calls[i]?.bind fun c =>
    if c.phase = .waiting ∧ c.promise then some (s.setCall i { c with phase := .over }) else none
  | .waitTimeout i => s.calls[i]?.bind fun c =>
    if c.phase = .waiting ∧ c.promise = false then some (s.setCall i { c with phase := .over })
    else none
  | .removeClient => some { s with held := false }
  -- `executeAndWait` holds the client
  | .destroy =>
    if s.held = false ∧ ∀ c ∈ s.calls, c.phase ≠ .waiting then some { s with client := none }
    else none

/-- No session in the table is that of a call that is over, and there are not more of them
than calls in progress. -/
structure Clean (s : SessionTable) : Prop where
  not_over : ∀ requestId session, s.pending requestId = some session →
    ∀ c ∈ s.calls, c.session = some session → c.phase ≠ .over
  size_le : s.size ≤ s.calls.countP fun c => c.phase ≠ .over

/-- A wait times out only when the session is in the table no more. -/
def Allowed (s : SessionTable) : TableEvent → Prop
  | .waitTimeout i => ∀ c ∈ s.calls[i]?, c.phase = .waiting → c.promise = false →
      ∀ session ∈ c.session, s.pending session.requestId ≠ some session
  | _ => True

def Absent (s : SessionTable) (session : MySession) : Prop :=
  s.pending session.requestId ≠ some session

/-- What is in the table is there under its own request id and is the session of a call, and
no call that is done, or about to be, has its session there. -/
structure Inv (s : SessionTable) : Prop where
  ids : ∀ (i : ℕ) session, s.sessions[i]? = some (some session) → session.id = i
  table : ∀ requestId session, s.pending requestId = some session →
    session.requestId = requestId ∧ s.sessions[session.id]? = some (some session)
  tasks : ∀ task ∈ s.tasks,
    s.sessions[task.request.id]? = some (some task.request) ∧ s.Absent task.request
  done : ∀ c ∈ s.calls, c.Done → ∀ session ∈ c.session, s.Absent session

variable {s t : SessionTable} {i : ℕ} {c c' : TableCall}

theorem sessions_setCall (hc : s.calls[i]? = some c) (hs : c'.session = c.session) :
    (s.setCall i c').sessions = s.sessions := by
  rw [sessions, sessions, setCall]
  exact map_set_of_getElem? hc hs

theorem pending_removeSession (s : SessionTable) (removed requestId : UInt64) :
    (s.removeSession removed).pending requestId =
      if removed = requestId then none else s.pending requestId := by
  unfold pending removeSession
  cases s.client with
  | none => exact (ite_self none).symm
  | some client => exact client.findSession_removeSession removed requestId

theorem pending_of_removeSession {removed requestId : UInt64} {session : MySession}
    (h : (s.removeSession removed).pending requestId = some session) :
    s.pending requestId = some session := by
  rw [pending_removeSession] at h
  split at h
  · cases h
  · exact h

theorem Inv.mem_sessions (h : s.Inv) {requestId : UInt64} {session : MySession}
    (hp : s.pending requestId = some session) : ∃ c ∈ s.calls, c.session = some session := by
  have hmem := List.mem_of_getElem? (h.table requestId session hp).2
  obtain ⟨c, hc, hsession⟩ := List.mem_map.mp hmem
  exact ⟨c, hc, hsession⟩

theorem Inv.not_over (h : s.Inv) (requestId : UInt64) (session : MySession)
    (hp : s.pending requestId = some session) :
    ∀ c ∈ s.calls, c.session = some session → c.phase ≠ .over := by
  intro c hc hsession hover
  have habsent := h.done c hc (.inl hover) session hsession
  rw [Absent, (h.table requestId session hp).1] at habsent
  exact habsent hp

/-- The sessions in the table are those of as many calls in progress. -/
theorem Inv.size_le (h : s.Inv) : s.size ≤ s.calls.countP fun c => c.phase ≠ .over := by
  unfold size
  cases hclient : s.client with
  | none => exact Nat.zero_le _
  | some client =>
    have hpending (r : UInt64) (session : MySession) (hmem : (r,session) ∈ client.requests.toList) :
        s.pending r = some session := by
      rw [pending, hclient, Option.bind_some, MyClient.findSession]
      exact ExtTreeMap.mem_toList_iff_getElem?_eq_some.mp hmem
    have hkeys : (client.requests.toList.map Prod.snd).map MySession.requestId =
        client.requests.keys := by
      rw [← ExtTreeMap.map_fst_toList_eq_keys, List.map_map]
      exact List.map_congr_left fun e he => (h.table e.1 e.2 (hpending e.1 e.2 he)).1
    have hnodup : (client.requests.toList.map Prod.snd).Nodup := by
      have hall := ExtTreeMap.nodup_keys (t := client.requests)
      rw [← hkeys] at hall
      exact hall.of_map
    -- the sessions are different, so that counting them counts calls
    have hsub : (client.requests.toList.map Prod.snd).map some ⊆
        (s.calls.filter fun c => c.phase ≠ .over).map TableCall.session := by
      intro x hx
      obtain ⟨session, hmem, rfl⟩ := List.mem_map.mp hx
      obtain ⟨⟨r, session⟩, hentry, rfl⟩ := List.mem_map.mp hmem
      obtain ⟨c, hc, hsession⟩ := h.mem_sessions (hpending r session hentry)
      have hphase := h.not_over r session (hpending r session hentry) c hc hsession
      exact List.mem_map.mpr ⟨c, List.mem_filter.mpr ⟨hc, decide_eq_true hphase⟩, hsession⟩
    calc client.requests.size
        = ((client.requests.toList.map Prod.snd).map some).length := by
          rw [List.length_map, List.length_map, ExtTreeMap.length_toList]
      _ ≤ ((s.calls.filter fun c => c.phase ≠ .over).map TableCall.session).length :=
          (List.subperm_of_subset (hnodup.map (Option.some_injective _)) hsub).length_le
      _ = s.calls.countP fun c => c.phase ≠ .over := by
          rw [List.length_map, List.countP_eq_length_filter]

theorem clean_of_inv (h : s.Inv) : s.Clean := ⟨h.not_over, h.size_le⟩

/-- A call changes, and is done only if it was, or its session is in the table no more. -/
theorem inv_setCall (h : s.Inv) (hc : s.calls[i]? = some c) (hs : c'.session = c.session)
    (hd : c'.Done → c.Done ∨ ∀ session ∈ c.session, s.Absent session) : (s.setCall i c').Inv := by
  have hsessions := sessions_setCall hc hs
  refine ⟨hsessions ▸ h.ids, hsessions ▸ h.table, hsessions ▸ h.tasks, ?_⟩
  intro d hmem hdone
  rcases List.mem_or_eq_of_mem_set hmem with hmem | rfl
  · exact h.done d hmem hdone
  · rw [hs]
    rcases hd hdone with hdone | habsent
    · exact h.done c (List.mem_of_getElem? hc) hdone
    · exact habsent

/-- A call goes on without being done. -/
theorem inv_setCall_of_not_done (h : s.Inv) (hc : s.calls[i]? = some c)
    (hs : c'.session = c.session) (hphase : c'.phase ≠ .over) (hpromise : c'.promise = c.promise) :
    (s.setCall i c').Inv := by
  refine inv_setCall h hc hs ?_
  rintro (hover | hset)
  · exact absurd hover hphase
  · exact .inl (.inr (hpromise ▸ hset))

theorem absent_removeSession {session : MySession} (h : s.Absent session) (removed : UInt64) :
    (s.removeSession removed).Absent session :=
  fun hp => h (pending_of_removeSession hp)

theorem absent_removed (s : SessionTable) (session : MySession) :
    (s.removeSession session.requestId).Absent session := by
  rw [Absent, pending_removeSession, if_pos rfl]
  exact Option.some_ne_none session ∘ Eq.symm

theorem inv_removeSession (h : s.Inv) (removed : UInt64) : (s.removeSession removed).Inv :=
  ⟨h.ids, fun r session hp => h.table r session (pending_of_removeSession hp),
    fun task hmem => ⟨(h.tasks task hmem).1, absent_removeSession (h.tasks task hmem).2 removed⟩,
    fun c hc hdone session hs => absent_removeSession (h.done c hc hdone session hs) removed⟩

theorem absent_of_client (hclient : s.client = none) (session : MySession) : s.Absent session := by
  rw [Absent, pending, hclient]
  exact Option.some_ne_none session ∘ Eq.symm

/-- `execute` and `executeAndWait` end a call only if it has no session, or no client. -/
theorem inv_setCall_over (h : s.Inv) (hc : s.calls[i]? = some c)
    (hlost : ∀ session client, c.session = some session → s.client ≠ some client) :
    (s.setCall i { c with phase := .over }).Inv := by
  refine inv_setCall h hc rfl fun _ => .inr ?_
  intro session hsession
  apply absent_of_client
  exact Option.eq_none_iff_forall_ne_some.mpr fun client => hlost session client hsession

theorem inv_execute (h : s.Inv) (hc : s.calls[i]? = some c) : (s.execute i c).Inv := by
  unfold execute
  split
  · rw [if_neg (by simp [MyClient.sendPayload])]
    exact inv_setCall_of_not_done h hc rfl (by simp) rfl
  · next hlost => exact inv_setCall_over h hc hlost

theorem inv_executeAndWait (h : s.Inv) (hc : s.calls[i]? = some c) :
    (s.executeAndWait i c).Inv := by
  unfold executeAndWait
  split
  · exact inv_setCall_of_not_done h hc rfl (by simp) rfl
  · next hlost => exact inv_setCall_over h hc hlost

theorem inv_timer (h : s.Inv) (hc : s.calls[i]? = some c) : (s.timer i c).Inv := by
  unfold timer
  split
  · exact h
  · next session hsession =>
    refine inv_setCall (inv_removeSession h _) hc rfl fun _ => .inr ?_
    intro x hx
    obtain rfl : session = x := Option.some.inj (hsession.symm.trans hx)
    exact absent_removed s session

theorem inv_respond (h : s.Inv) (magicMsg : MyMagicMessage) : (s.respond magicMsg).Inv := by
  unfold respond
  split
  · exact h
  · next client hclient =>
    obtain ⟨_, hclient⟩ := Option.ite_none_right_eq_some.mp hclient
    split
    · have hremoved := inv_removeSession h magicMsg.requestId
      refine ⟨hremoved.ids, hremoved.table, ?_, hremoved.done⟩
      intro task hmem
      rcases List.mem_append.mp hmem with hmem | hmem
      · exact hremoved.tasks task hmem
      · obtain ⟨request, hfind, htask⟩ := Option.bind_eq_some_iff.mp (Option.mem_toList.mp hmem)
        have hp : s.pending magicMsg.requestId = some request := by
          rw [pending, hclient, Option.bind_some, hfind]
        obtain ⟨hid, hknown⟩ := h.table magicMsg.requestId request hp
        rw [request_of_taskFor htask]
        refine ⟨hknown, ?_⟩
        rw [← hid]
        exact absent_removed s request
    · exact h

theorem session_doSuccessAction (c : TableCall) : c.doSuccessAction.session = c.session := by
  unfold TableCall.doSuccessAction
  split <;> rfl

theorem inv_runTask (decodes : Option (List Byte) → Bool) (h : s.Inv) {task : SessionTask}
    (hmem : task ∈ s.tasks) : (s.runTask decodes task).Inv := by
  have herase : Inv { s with tasks := s.tasks.erase task } :=
    ⟨h.ids, h.table, fun other hother => h.tasks other (List.mem_of_mem_erase hother), h.done⟩
  obtain ⟨hknown, habsent⟩ := h.tasks task hmem
  unfold runTask
  dsimp only
  split
  · exact herase
  · next c hc =>
    split
    · refine inv_setCall herase hc (session_doSuccessAction c) fun _ => .inr ?_
      intro session hsession
      have hsame : c.session = some task.request := by
        rw [sessions, List.getElem?_map, hc] at hknown
        exact Option.some.inj hknown
      obtain rfl : task.request = session := Option.some.inj (hsame.symm.trans hsession)
      exact habsent
    · exact herase

/-- A call is added, with its session in the table or without one. -/
theorem inv_append {x : Option MySession} (h : s.Inv)
    (hcalls : t.calls = s.calls ++ [⟨x,.built,false,false⟩]) (htasks : t.tasks = s.tasks)
    (hid : ∀ session ∈ x, session.id = s.calls.length)
    (hpending : ∀ r session, t.pending r = some session →
      s.pending r = some session ∨ x = some session ∧ session.requestId = r) : t.Inv := by
  have hlength : s.sessions.length = s.calls.length := List.length_map _
  have hsessions : t.sessions = s.sessions ++ [x] := by
    rw [sessions, hcalls, List.map_append]
    rfl
  have hkept {k : ℕ} {y : Option MySession} (hk : s.sessions[k]? = some y) :
      t.sessions[k]? = some y := by
    rw [hsessions, List.getElem?_append_left (List.getElem?_eq_some_iff.mp hk).1, hk]
  have habsent {session : MySession} (hk : s.sessions[session.id]? = some (some session))
      (ha : s.Absent session) : t.Absent session := by
    intro hp
    rcases hpending _ session hp with hp | ⟨hx, -⟩
    · exact ha hp
    · have hlt := (List.getElem?_eq_some_iff.mp hk).1
      rw [hid session hx, hlength] at hlt
      exact hlt.false
  constructor
  case ids =>
    intro i session hi
    rw [hsessions, List.getElem?_append] at hi
    split at hi
    · exact h.ids i session hi
    · next hge =>
      rw [List.getElem?_singleton] at hi
      split at hi
      · next hlast =>
        rw [hid session (Option.some.inj hi)]
        omega
      · cases hi
  case table =>
    intro r session hp
    rcases hpending r session hp with hp | ⟨hx, hr⟩
    · exact ⟨(h.table r session hp).1, hkept (h.table r session hp).2⟩
    · refine ⟨hr, ?_⟩
      rw [hid session hx, hsessions, ← hlength, List.getElem?_concat_length, hx]
  case tasks =>
    rw [htasks]
    intro task hmem
    obtain ⟨hknown, ha⟩ := h.tasks task hmem
    exact ⟨hkept hknown, habsent hknown ha⟩
  case done =>
    rw [hcalls]
    intro c hmem hdone session hs
    rcases List.mem_append.mp hmem with hmem | hmem
    · obtain ⟨j, hj⟩ := List.getElem?_of_mem hmem
      have hk : s.sessions[j]? = some (some session) := by
        rw [sessions, List.getElem?_map, hj, Option.map_some, hs]
      obtain rfl : session.id = j := h.ids j session hk
      exact habsent hk (h.done c hmem hdone session hs)
    · obtain rfl := List.mem_singleton.mp hmem
      rcases hdone with hover | hset
      · cases hover
      · cases hset

theorem inv_buildSession (h : s.Inv) (found : Bool) (now : UInt32) :
    (s.buildSession found now).Inv := by
  unfold buildSession
  split
  · exact inv_append h rfl rfl (fun _ hx => nomatch hx) fun _ _ hp => .inl hp
  · next client hclient =>
    obtain ⟨_, hclient⟩ := Option.ite_none_right_eq_some.mp hclient
    refine inv_append (x := some ⟨s.calls.length,client.uid,now⟩) h rfl rfl ?_ ?_
    · rintro session ⟨⟩
      rfl
    · intro r session hp
      rw [pending, Option.bind_some, MyClient.findSession_addSession] at hp
      split at hp
      · next hr =>
        obtain rfl := Option.some.inj hp
        exact .inr ⟨rfl, hr⟩
      · refine .inl ?_
        rw [pending, hclient, Option.bind_some, hp]

/-- A step of one call, which has to be in the phase for it. -/
theorem exists_call {p : TableCall → Prop} [DecidablePred p] {f : TableCall → SessionTable}
    (h : (s.calls[i]?.bind fun c => if p c then some (f c) else none) = some t) :
    ∃ c, s.calls[i]? = some c ∧ p c ∧ f c = t := by
  obtain ⟨c, hc, h⟩ := Option.bind_eq_some_iff.mp h
  obtain ⟨hp, h⟩ := Option.ite_none_right_eq_some.mp h
  exact ⟨c, hc, hp, Option.some.inj h⟩

theorem inv_step {decodes : Option (List Byte) → Bool} (h : s.Inv) {event : TableEvent}
    (hallowed : s.Allowed event) (hstep : s.step decodes event = some t) : t.Inv := by
  cases event with
  | buildSession found now =>
    cases hstep
    exact inv_buildSession h found now
  | execute i =>
    obtain ⟨c, hc, -, rfl⟩ := exists_call hstep
    exact inv_execute h hc
  | executeAndWait i =>
    obtain ⟨c, hc, -, rfl⟩ := exists_call hstep
    exact inv_executeAndWait h hc
  | respond magicMsg =>
    cases hstep
    exact inv_respond h magicMsg
  | runTask task =>
    obtain ⟨hmem, hstep⟩ := Option.ite_none_right_eq_some.mp hstep
    cases hstep
    exact inv_runTask decodes h hmem
  | timer i =>
    obtain ⟨c, hc, -, rfl⟩ := exists_call hstep
    exact inv_timer h hc
  | waitReturns i =>
    obtain ⟨c, hc, hset, rfl⟩ := exists_call hstep
    exact inv_setCall h hc rfl fun _ => .inl (.inr hset.2)
  | waitTimeout i =>
    obtain ⟨c, hc, hwait, rfl⟩ := exists_call hstep
    exact inv_setCall h hc rfl fun _ => .inr (hallowed c hc hwait.1 hwait.2)
  | removeClient =>
    cases hstep
    exact ⟨h.ids, h.table, h.tasks, h.done⟩
  | destroy =>
    obtain ⟨_, hstep⟩ := Option.ite_none_right_eq_some.mp hstep
    cases hstep
    have hnone (r : UInt64) (session : MySession) :
        pending { s with client := none } r ≠ some session := Option.some_ne_none session ∘ Eq.symm
    exact ⟨h.ids, fun r session hp => absurd hp (hnone r session),
      fun task hmem => ⟨(h.tasks task hmem).1, hnone _ _⟩, fun _ _ _ session _ => hnone _ session⟩

/-- A wait that leaves its session in the table leaves that of a call that is over. -/
theorem allowed_of_clean {decodes : Option (List Byte) → Bool} {event : TableEvent}
    (hclean : ∀ t, s.step decodes event = some t → t.Clean) : s.Allowed event := by
  cases event with
  | waitTimeout i =>
    intro c hc hwaiting hunset session hsession hp
    have hnext := hclean (s.setCall i { c with phase := .over }) <| by
      rw [step, hc, Option.bind_some, if_pos ⟨hwaiting, hunset⟩]
    have hmem : { c with phase := .over } ∈ (s.setCall i { c with phase := .over }).calls :=
      List.mem_set (List.getElem?_eq_some_iff.mp hc).1 _
    exact hnext.not_over session.requestId session hp _ hmem hsession rfl
  | buildSession _ _ | execute _ | executeAndWait _ | respond _ | runTask _ | timer _
  | waitReturns _ | removeClient | destroy => trivial

def init (client : MyClient) : SessionTable := ⟨some { client with requests := ∅ },true,[],[]⟩

theorem inv_init (client : MyClient) : (init client).Inv := by
  refine ⟨?_, ?_, ?_, ?_⟩
  · intro i session hi
    cases hi
  · intro r session hp
    rw [pending, init, Option.bind_some, MyClient.findSession, ExtTreeMap.getElem?_empty] at hp
    cases hp
  · exact fun _ hmem => absurd hmem List.not_mem_nil
  · exact fun _ hmem => absurd hmem List.not_mem_nil

/-- In every state of a run no finished call has its session in the table, and the table is
not larger than the calls in progress are many: exactly if no wait times out while its
session is there. -/
theorem finished_calls_leave_none_iff (decodes : Option (List Byte) → Bool) (client : MyClient)
    (events : List TableEvent) :
    (∀ n s, run (step decodes) (init client) (events.take n) = some s → s.Clean) ↔
      Along Allowed (step decodes) (init client) events := by
  apply forall_run_take_iff_of_invariant
  · exact fun s h => clean_of_inv h
  · exact fun s event _ hclean => allowed_of_clean hclean
  · exact fun s event t h hallowed hstep => inv_step h hallowed hstep
  · exact inv_init client

def Quiet (s : SessionTable) : Prop :=
  s.tasks = [] ∧ ∀ c ∈ s.calls, c.phase = .over ∧ c.timer = false

instance (s : SessionTable) : Decidable s.Quiet := inferInstanceAs (Decidable (_ ∧ _))

/-- `executeAndWait` gets no answer in time, and its session stays. -/
theorem timed_out_wait_leaves_session :
    ∃ s, run (step fun _ => true)
        (init ⟨0x70001,"demo",⟨"127.0.0.1",8888,.kClientTypeTcp,true⟩,∅,[]⟩)
        [.buildSession true 100,.executeAndWait 0,.waitTimeout 0] = some s ∧
      s.Quiet ∧ s.size = 1 ∧ s.pending 0x7000100000064 = some ⟨0,0x70001,100⟩ ∧ ¬s.Clean := by
  refine ⟨_, rfl, by decide, rfl, rfl, fun hclean => ?_⟩
  exact hclean.not_over 0x7000100000064 ⟨0,0x70001,100⟩ rfl _ List.mem_cons_self rfl rfl

end SessionTable
end EchoFrame
