import EchoFrame.CallOutcomes
import EchoFrame.CallSystem

/-! What every run of the clients and the servant keeps, and that sessions, send tasks, timers and
connects keep it. -/
namespace EchoFrame
open Verif MyMagicMessage MyServant

variable {κ : Type}

/-- The channel has read, in clear cuts, a beginning of what the socket took of the frames. -/
structure RequestStream.Inv (calls : List SentCall) (received : List (List Byte))
    (c : RequestStream) : Prop where
  offered : ∀ call ∈ c.offered, call ∈ calls ∧ c.client = some call.session.client
  accepted : c.accepted <+: stream (c.offered.map SentCall.frame)
  received : c.client ≠ none → received.flatten <+: c.accepted ∧
    CutsClear (c.offered.map SentCall.frame) 0 received

/-- Another frame is offered to the socket, with room for some of it only behind whole frames. -/
theorem RequestStream.Inv.write {calls : List SentCall} {received : List (List Byte)}
    {c : RequestStream} (h : c.Inv calls received) {call : SentCall} (hcall : call ∈ calls)
    (hclient : c.client = some call.session.client) {room : ℕ}
    (hfollows : room = 0 ∨ c.accepted = stream (c.offered.map SentCall.frame)) :
    RequestStream.Inv calls received { c with
      offered := c.offered ++ [call]
      accepted := c.accepted ++ (SentFrame.write ⟨call.frame.bytes, none⟩ room).accepted } := by
  have hstream : stream ((c.offered ++ [call]).map SentCall.frame) =
      stream (c.offered.map SentCall.frame) ++ call.frame.bytes := by
    rw [List.map_append, stream, List.flatMap_append]
    congr 1
    exact List.flatMap_singleton _ _
  constructor
  · intro other hmem
    rcases List.mem_append.mp hmem with hmem | hmem
    · exact h.offered other hmem
    · rw [List.mem_singleton.mp hmem]
      exact ⟨hcall, hclient⟩
  · rw [hstream]
    rcases hfollows with rfl | hwhole
    · rw [SentFrame.accepted, SentFrame.write, SentFrame.took, Option.getD_some, Nat.zero_min,
        List.take_zero, List.append_nil]
      exact h.accepted.trans (List.prefix_append _ _)
    · dsimp only
      rw [hwhole]
      exact (List.prefix_append_right_inj _).mpr (List.take_prefix _ _)
  · intro hne
    obtain ⟨hreceived, hclear⟩ := h.received hne
    refine ⟨hreceived.trans (List.prefix_append _ _), ?_⟩
    rw [List.map_append]
    apply cutsClear_append _ _ hclear
    rw [Nat.zero_add]
    exact (hreceived.trans h.accepted).length_le

theorem RequestStream.Inv.mono {calls calls' : List SentCall} {received : List (List Byte)}
    {c : RequestStream} (h : c.Inv calls received) (hcalls : ∀ call ∈ calls, call ∈ calls') :
    c.Inv calls' received :=
  ⟨fun call hmem => (h.offered call hmem).imp_left (hcalls call), h.accepted, h.received⟩

namespace ClientLink

structure Inv (calls : List SentCall) (streams : κ → RequestStream) (uid : UInt32)
    (link : ClientLink κ) : Prop where
  tasks : ∀ call ∈ link.tasks, call ∈ calls ∧ call.session.client = uid
  socket : ∀ k, link.socket = .connected k → (streams k).client = some uid

/-- What has arrived on the connection are the first answers to the packets that were run, then
the buffer, and no call with one of these answers waits any more. -/
structure Consumes (dispatchPayload : DispatchPayload) (calls answered expired : List SentCall)
    (ran : κ → List (List Byte)) (buf : List Byte) (link : ClientLink κ) : Prop where
  unconnected : (∀ k, link.socket ≠ .connected k) → buf = []
  waits : Waits getPacketLength buf
  connected : ∀ k, link.socket = .connected k → ∃ first rest, ran k = first ++ rest ∧
    link.arrived = (first.map (answerTo dispatchPayload)).flatten ++ buf ∧
    ∀ call ∈ calls, call.frame.bytes ∈ first → call ∈ answered ∨ call ∈ expired

/-- More packets are run and more calls end. -/
theorem Consumes.mono {dispatchPayload : DispatchPayload}
    {calls calls' answered answered' expired expired' : List SentCall}
    {ran ran' : κ → List (List Byte)} {buf : List Byte} {link : ClientLink κ}
    (h : link.Consumes dispatchPayload calls answered expired ran buf)
    (hcalls : ∀ k, link.socket = .connected k → ∀ call ∈ calls',
      call.frame.bytes ∈ ran k → call ∈ calls)
    (hanswered : ∀ call ∈ answered, call ∈ answered')
    (hexpired : ∀ call ∈ expired, call ∈ expired') (hran : ∀ k, ran k <+: ran' k) :
    link.Consumes dispatchPayload calls' answered' expired' ran' buf := by
  refine ⟨h.unconnected, h.waits, ?_⟩
  intro k hk
  obtain ⟨first, rest, hfirst, hbytes, hover⟩ := h.connected k hk
  obtain ⟨new, hnew⟩ := hran k
  refine ⟨first, rest ++ new, ?_, hbytes, ?_⟩
  · rw [← hnew, hfirst, List.append_assoc]
  · intro call hcall hmem
    have hold := hcalls k hk call hcall (hfirst ▸ List.mem_append_left rest hmem)
    exact (hover call hold hmem).imp (hanswered call) (hexpired call)

end ClientLink

namespace CallSystem

variable [DecidableEq κ]

def ran (s : CallSystem κ) (k : κ) : List (List Byte) :=
  packetsFor k s.servant.handlerExecutor.ran

def Held (s : CallSystem κ) (uid : UInt32) : Prop := (MyProxy.bufferOf uid s.proxy).isSome

/-- What every run keeps that begins with `tasks` at the executor. -/
structure Inv (dispatchPayload : DispatchPayload) (serve : List Byte → Option (List Byte))
    (tasks : List SessionTask) (answered : List SentCall) (s : CallSystem κ) : Prop where
  servant : s.servant.Inv dispatchPayload
  served : ∀ call ∈ s.calls, call.Served dispatchPayload serve
  distinct : (s.calls.map fun call => call.session.requestId).Nodup
  timers : ∀ call ∈ s.timers, call ∈ s.calls
  expired : ∀ call ∈ s.expired, call ∈ s.calls
  sent : ∀ call ∈ answered, ∃ k, call ∈ (s.streams k).offered
  streams : ∀ k, (s.streams k).Inv s.calls (s.servant.channels k).received
  links : ∀ uid, (s.links uid).Inv s.calls s.streams uid
  tcp : ∀ uid, ∀ config ∈ MyProxy.configOf uid s.proxy, config.clientType = .kClientTypeTcp
  buffers : ∀ uid, ∀ buf ∈ MyProxy.bufferOf uid s.proxy,
    (s.links uid).Consumes dispatchPayload s.calls answered s.expired s.ran buf
  outcomes : Outcomes serve tasks s.Held s.calls answered s.expired s.proxy.sessions

variable {dispatchPayload : DispatchPayload} {serve : List Byte → Option (List Byte)}
  {tasks : List SessionTask} {answered : List SentCall} {s t : CallSystem κ}

/-- A frame is that of one call only. -/
theorem Inv.eq_of_bytes (h : s.Inv dispatchPayload serve tasks answered) {call other : SentCall}
    (hcall : call ∈ s.calls) (hother : other ∈ s.calls)
    (heq : call.frame.bytes = other.frame.bytes) : call = other := by
  have hdecode := call.decode_frame
  rw [heq, other.decode_frame, Option.some.injEq] at hdecode
  apply List.inj_on_of_nodup_map h.distinct hcall hother
  rw [← SentCall.requestId_request, ← SentCall.requestId_request, hdecode]

theorem Inv.mem_calls (h : s.Inv dispatchPayload serve tasks answered) {call : SentCall}
    (hcall : call ∈ answered) : call ∈ s.calls := by
  obtain ⟨k, hk⟩ := h.sent call hcall
  exact ((h.streams k).offered call hk).1

/-- The handler threads have run packets of calls that were offered, and in the end of all. -/
theorem Inv.exists_order (h : s.Inv dispatchPayload serve tasks answered) {k : κ}
    (hclient : (s.streams k).client ≠ none) :
    ∃ order : List SentCall, order.Subperm (s.streams k).offered ∧
      s.ran k = order.map (fun call => call.frame.bytes) ∧
      (s.servant.Settled k → (s.servant.channels k).received.flatten =
        stream ((s.streams k).offered.map SentCall.frame) → order.Perm (s.streams k).offered) := by
  obtain ⟨hreceived, hclear⟩ := (h.streams k).received hclient
  exact PooledServant.ran_calls h.servant k (hreceived.trans (h.streams k).accepted) hclear

omit [DecidableEq κ] in
theorem links_setLink (s : CallSystem κ) (uid uid' : UInt32) (link : ClientLink κ) :
    (s.setLink uid link).links uid' = if uid' = uid then link else s.links uid' :=
  Function.update_apply _ _ _ _

omit [DecidableEq κ] in
theorem streams_setLink (s : CallSystem κ) (uid : UInt32) (link : ClientLink κ) :
    (s.setLink uid link).streams = s.streams := rfl

theorem streams_setStream (s : CallSystem κ) (k k' : κ) (stream : RequestStream) :
    (s.setStream k stream).streams k' = if k' = k then stream else s.streams k' :=
  Function.update_apply _ _ _ _

/-- The send tasks of a client are changed. -/
theorem inv_tasks (h : s.Inv dispatchPayload serve tasks answered) {uid : UInt32}
    {sends : List SentCall} (hsends : ∀ call ∈ sends, call ∈ s.calls ∧ call.session.client = uid) :
    (s.setLink uid { s.links uid with tasks := sends }).Inv dispatchPayload serve tasks
      answered := by
  refine { h with links := ?_, buffers := ?_ }
  · intro other
    rw [links_setLink]
    split
    · next heq =>
      rw [heq]
      exact ⟨hsends, (h.links uid).socket⟩
    · exact h.links other
  · intro other buf hbuf
    rw [links_setLink]
    split
    · next heq =>
      rw [heq] at hbuf
      have hold := h.buffers uid buf hbuf
      exact ⟨hold.unconnected, hold.waits, hold.connected⟩
    · exact h.buffers other buf hbuf

/-- A frame is offered to the socket behind frames that it has taken as a whole. -/
theorem inv_write (h : s.Inv dispatchPayload serve tasks answered) {call : SentCall} {room : ℕ}
    (hcall : call ∈ s.calls) (hfollows : s.Follows call room)
    (hwrite : s.write call room = some t) : t.Inv dispatchPayload serve tasks answered := by
  unfold write at hwrite
  split at hwrite
  · cases hwrite
  · cases hwrite
    exact h
  · next k hk =>
    have hclient := (h.links call.session.client).socket k hk
    obtain rfl := Option.some.inj hwrite
    refine { h with sent := ?_, streams := ?_, links := ?_ }
    · intro other hmem
      obtain ⟨k', hk'⟩ := h.sent other hmem
      refine ⟨k', ?_⟩
      rw [streams_setStream]
      split
      · next heq => exact List.mem_append_left _ (heq ▸ hk')
      · exact hk'
    · intro k'
      rw [streams_setStream]
      split
      · next heq =>
        rw [heq]
        exact (h.streams k).write hcall hclient (hfollows k hk)
      · exact h.streams k'
    · intro uid
      refine ⟨(h.links uid).tasks, fun k' hk' => ?_⟩
      rw [streams_setStream]
      split
      · next heq =>
        have hsome := (h.links uid).socket k' hk'
        rw [heq] at hsome
        exact hsome
      · exact (h.links uid).socket k' hk'

/-- Sessions are built or end, and the clients stay as they are otherwise. -/
theorem inv_sessions (h : s.Inv dispatchPayload serve tasks answered) {loops : ClientLoops}
    {calls expired : List SentCall}
    (hclients : ∀ {β : Type} {f : MyClient → β}, (∀ c requests, f { c with requests } = f c) →
      ∀ uid, (loops.findClient uid).map f = (s.proxy.loops.findClient uid).map f)
    (hcalls : ∀ call ∈ s.calls, call ∈ calls)
    (hserved : ∀ call ∈ calls, call.Served dispatchPayload serve)
    (hdistinct : (calls.map fun call => call.session.requestId).Nodup)
    (hran : ∀ k, (s.streams k).client ≠ none → ∀ call ∈ calls, call.frame.bytes ∈ s.ran k →
      call ∈ s.calls)
    (hexpired : ∀ call ∈ s.expired, call ∈ expired) (hmem : ∀ call ∈ expired, call ∈ calls)
    (houtcomes : Outcomes serve tasks s.Held calls answered expired
      (ProxyState.sessions { s.proxy with loops })) :
    Inv dispatchPayload serve tasks answered { s.setLoops loops with calls, expired } := by
  have hbuffer (uid : UInt32) : MyProxy.bufferOf uid { s.proxy with loops } =
      MyProxy.bufferOf uid s.proxy := hclients (fun _ _ => rfl) uid
  have hconfig (uid : UInt32) : MyProxy.configOf uid { s.proxy with loops } =
      MyProxy.configOf uid s.proxy := hclients (fun _ _ => rfl) uid
  have hheld : Held { s.setLoops loops with calls, expired } = s.Held := by
    funext uid
    exact congrArg (fun buf : Option (List Byte) => (buf.isSome : Prop)) (hbuffer uid)
  refine ⟨h.servant, hserved, hdistinct, fun call hcall => hcalls call (h.timers call hcall), hmem,
    h.sent, fun k => (h.streams k).mono hcalls, ?_, ?_, ?_, ?_⟩
  · intro uid
    exact ⟨fun call hcall => ((h.links uid).tasks call hcall).imp_left (hcalls call),
      (h.links uid).socket⟩
  · intro uid config hc
    exact h.tcp uid config (hconfig uid ▸ hc)
  · intro uid buf hbuf
    have hold := h.buffers uid buf (hbuffer uid ▸ hbuf)
    refine hold.mono ?_ (fun _ hmem => hmem) hexpired (fun _ => List.prefix_rfl)
    intro k hk
    apply hran k
    rw [(h.links uid).socket k hk]
    exact Option.some_ne_none uid
  · rw [hheld]
    exact houtcomes

theorem inv_buildSession (h : s.Inv dispatchPayload serve tasks answered) {call : SentCall}
    (hallowed : s.Allowed dispatchPayload serve (.buildSession call))
    (hstep : s.step dispatchPayload (.buildSession call) = some t) :
    t.Inv dispatchPayload serve tasks answered := by
  obtain ⟨client, hc, rfl⟩ := Option.map_eq_some_iff.mp hstep
  obtain ⟨hserved, hfresh⟩ := hallowed
  have hexpired (ended : SentCall) (hmem : ended ∈ s.expired) : ended ∈ s.calls ++ [call] :=
    List.mem_append_left _ (h.expired ended hmem)
  apply inv_sessions h ?_ (fun _ => List.mem_append_left _) ?_ ?_ ?_ (fun _ hmem => hmem) hexpired
    ?_
  · intro β f hf uid
    exact ClientLoops.map_findClient_setClient hc (hf client _) uid
  · rw [List.forall_mem_append, List.forall_mem_singleton]
    exact ⟨h.served, hserved⟩
  · rw [List.map_append, List.nodup_append]
    refine ⟨h.distinct, List.nodup_singleton _, ?_⟩
    intro requestId hmem last hlast
    obtain ⟨other, hother, rfl⟩ := List.mem_map.mp hmem
    rw [List.mem_singleton.mp hlast]
    exact hfresh other hother
  · intro k hclient other hmem hran
    rcases List.mem_append.mp hmem with hmem | hmem
    · exact hmem
    · obtain ⟨order, horder, hbytes, -⟩ := h.exists_order hclient
      rw [hbytes] at hran
      obtain ⟨sent, hsent, hsame⟩ := List.mem_map.mp hran
      have hold := ((h.streams k).offered sent (horder.subset hsent)).1
      have hdecode := sent.decode_frame
      rw [hsame, List.mem_singleton.mp hmem, call.decode_frame, Option.some.injEq] at hdecode
      have hid : sent.session.requestId = call.session.requestId := by
        rw [← SentCall.requestId_request, ← SentCall.requestId_request, hdecode]
      exact absurd hid (hfresh sent hold)
  · refine h.outcomes.buildSession hfresh (fun _ => h.mem_calls) h.expired ?_ ?_
    · rfl
    · exact ClientLoops.pending_addSession hc call.session

theorem inv_timer (h : s.Inv dispatchPayload serve tasks answered) {i : ℕ}
    (hstep : s.step dispatchPayload (.timer i) = some t) :
    t.Inv dispatchPayload serve tasks answered := by
  obtain ⟨call, hcall, rfl⟩ := Option.map_eq_some_iff.mp hstep
  have hmem := h.timers call (List.mem_of_getElem? hcall)
  dsimp only
  generalize hexpired : (if s.proxy.loops.pending call.session.client call.session.requestId =
    some call.session then s.expired ++ [call] else s.expired) = expired
  have hkeeps : ∀ ended ∈ s.expired, ended ∈ expired := by
    intro ended hended
    rw [← hexpired]
    split
    · exact List.mem_append_left _ hended
    · exact hended
  have hcalls : ∀ ended ∈ expired, ended ∈ s.calls := by
    intro ended hended
    rw [← hexpired] at hended
    split at hended
    · rcases List.mem_append.mp hended with hended | hended
      · exact h.expired ended hended
      · rw [List.mem_singleton.mp hended]
        exact hmem
    · exact h.expired ended hended
  have houtcomes : Outcomes serve tasks s.Held s.calls answered expired
      (ProxyState.sessions ⟨s.proxy.loops.removeSession call.session.client
        call.session.requestId, s.proxy.tasks⟩) := by
    refine h.outcomes.timer h.distinct hmem ?_ ?_ hexpired.symm
    · rfl
    · exact ClientLoops.pending_removeSession s.proxy.loops _ _
  have hnext := inv_sessions h
    (fun hf uid => ClientLoops.map_findClient_removeSession hf _ _ _ uid) (fun _ hmem => hmem)
    h.served h.distinct (fun _ _ _ hmem _ => hmem) hkeeps hcalls houtcomes
  exact { hnext with
    timers := fun other hother => h.timers other (List.mem_of_mem_eraseIdx hother) }

theorem Inv.ran_eq_nil (h : s.Inv dispatchPayload serve tasks answered) {k : κ}
    (hreceived : (s.servant.channels k).received = []) : s.ran k = [] := by
  have hpre : (s.servant.channels k).received.flatten <+: stream (List.map SentCall.frame []) := by
    rw [hreceived]
    exact List.prefix_rfl
  have hclear : CutsClear (List.map SentCall.frame []) 0 (s.servant.channels k).received := by
    rw [hreceived]
    trivial
  obtain ⟨order, horder, hbytes, -⟩ := PooledServant.ran_calls h.servant k hpre hclear
  rw [ran, hbytes, List.subperm_nil.mp horder, List.map_nil]

theorem inv_connect (h : s.Inv dispatchPayload serve tasks answered) {uid : UInt32} {k : κ}
    (hstep : s.step dispatchPayload (.connect uid k) = some t) :
    t.Inv dispatchPayload serve tasks answered := by
  obtain ⟨⟨hsocket, hclient, hreceived⟩, hconnected⟩ := Option.ite_none_right_eq_some.mp hstep
  obtain rfl := Option.some.inj hconnected
  have hnone : (s.streams k).offered = [] := by
    refine List.eq_nil_iff_forall_not_mem.mpr fun call hcall => ?_
    have hsome := ((h.streams k).offered call hcall).2
    rw [hclient] at hsome
    cases hsome
  have hother {other : UInt32} {k' : κ} (hk : (s.links other).socket = .connected k') :
      k' ≠ k := by
    rintro rfl
    have hsome := (h.links other).socket k' hk
    rw [hclient] at hsome
    cases hsome
  refine { h with sent := ?_, streams := ?_, links := ?_, buffers := ?_ }
  · intro call hcall
    obtain ⟨k', hk'⟩ := h.sent call hcall
    refine ⟨k', ?_⟩
    rw [streams_setLink, streams_setStream]
    split
    · next heq =>
      rw [heq, hnone] at hk'
      exact absurd hk' List.not_mem_nil
    · exact hk'
  · intro k'
    rw [streams_setLink, streams_setStream]
    split
    · next heq =>
      refine ⟨fun _ hmem => absurd hmem List.not_mem_nil, List.prefix_rfl, fun _ => ?_⟩
      change (s.servant.channels k').received.flatten <+: [] ∧
        CutsClear [] 0 (s.servant.channels k').received
      rw [heq, hreceived]
      exact ⟨List.prefix_rfl, trivial⟩
    · exact h.streams k'
  · intro other
    rw [links_setLink, streams_setLink]
    split
    · next heq =>
      refine ⟨heq ▸ (h.links uid).tasks, fun k' hk' => ?_⟩
      obtain rfl := ClientSocket.connected.inj hk'
      rw [streams_setStream, if_pos rfl, heq]
    · refine ⟨(h.links other).tasks, fun k' hk' => ?_⟩
      rw [streams_setStream, if_neg (hother hk')]
      exact (h.links other).socket k' hk'
  · intro other buf hbuf
    rw [links_setLink]
    split
    · next heq =>
      rw [heq] at hbuf
      have hold := h.buffers uid buf hbuf
      have hempty : buf = [] := hold.unconnected fun k' hk' => by
        rw [hsocket] at hk'
        cases hk'
      refine ⟨fun hno => absurd rfl (hno k), hold.waits, fun k' hk' => ?_⟩
      obtain rfl := ClientSocket.connected.inj hk'
      refine ⟨[], [], h.ran_eq_nil hreceived, ?_, fun _ _ hmem => absurd hmem List.not_mem_nil⟩
      rw [hempty]
      rfl
    · exact h.buffers other buf hbuf

end CallSystem
end EchoFrame
