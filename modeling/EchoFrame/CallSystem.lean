import EchoFrame.PooledServant
import EchoFrame.ReconnectBuffers
import EchoFrame.TcpSendStream

/-! The clients of an application, their connections to a servant, and the servant, one step of
any of them at a time. Clients disconnect and connect again, and give calls up. -/
namespace EchoFrame
open Verif MyMagicMessage MyServant

variable {κ : Type} [DecidableEq κ]

/-- `onRead` of a proxy, for the client held under `uid`. Its loop runs no more often than there
are bytes in the buffer. -/
def MyProxy.onRead (uid : UInt32) (ev : ReadEvent) (s : ProxyState) : Option ProxyState :=
  match s.loops.findClient uid with
  | none => some s
  | some client =>
    let (client, rv) := client.onRead ev
    let s := { s with loops := s.loops.setClient uid client }
    if ev.closes rv then some (onDisconnect s uid client)
    else execLoop (onReadBody MyMagicCodec uid) (client.readBuffer.length+1) s

/-- Where the socket pointer of a client leads: nowhere after a disconnect, to a socket without a
connection, or to a channel of the servant. -/
inductive ClientSocket (κ : Type)
  | null
  | unconnected
  | connected (channel : κ)
deriving DecidableEq

/-- A client towards its connection: its socket, its send tasks in the queue of its loop, and the
bytes that it has read from the connection. -/
structure ClientLink (κ : Type) where
  socket : ClientSocket κ := .unconnected
  tasks : List SentCall := []
  arrived : List Byte := []

def ClientLink.afterRead (link : ClientLink κ) (client : Option MyClient) (ev : ReadEvent) :
    ClientLink κ :=
  match client with
  | none => link
  | some client =>
    if ev.result ≠ .drained ∧ client.config.autoReconnect then { link with socket := .null }
    else { link with arrived := link.arrived ++ ev.bytes }

/-- A connection on the way to the servant: the client that opened it, the calls whose frames
were offered to the socket, and the bytes that the socket took. -/
structure RequestStream where
  client : Option UInt32 := none
  offered : List SentCall := []
  accepted : List Byte := []

/-- The sessions of the clients are in `proxy`. `calls` were built so far, `timers` are those of
`whenSessionTimeout`, and `expired` the calls whose session a timer has found. -/
structure CallSystem (κ : Type) where
  proxy : ProxyState
  links : UInt32 → ClientLink κ := fun _ => {}
  streams : κ → RequestStream := fun _ => {}
  servant : PooledServant κ
  calls : List SentCall := []
  timers : List SentCall := []
  expired : List SentCall := []

namespace CallSystem

/-- A call is built on a client that is held, and named by its position among `calls`. Its frame is
written at once, into what room the kernel has, or by a task in the queue of the loop. -/
inductive Event (κ : Type)
  | buildSession (call : SentCall)
  | sendPayload (i : ℕ) (room : Option ℕ)
  | runTask (uid : UInt32) (room : ℕ)
  | whenSessionTimeout (i : ℕ)
  | timer (i : ℕ)
  | connect (uid : UInt32) (channel : κ)
  | onRead (uid : UInt32) (ev : ReadEvent)
  | reconnect (uid : UInt32)
  | servant (event : PooledServant.Event κ)

def setLoops (s : CallSystem κ) (loops : ClientLoops) : CallSystem κ :=
  { s with proxy := { s.proxy with loops } }

def setLink (s : CallSystem κ) (uid : UInt32) (link : ClientLink κ) : CallSystem κ :=
  { s with links := Function.update s.links uid link }

def setStream (s : CallSystem κ) (k : κ) (stream : RequestStream) : CallSystem κ :=
  { s with streams := Function.update s.streams k stream }

/-- The task of `sendPayload`, which crashes on a client without a socket. -/
def write (s : CallSystem κ) (call : SentCall) (room : ℕ) : Option (CallSystem κ) :=
  match (s.links call.session.client).socket with
  | .null => none
  -- the write fails, and its result is not looked at
  | .unconnected => some s
  | .connected k =>
    let frame := SentFrame.write ⟨call.frame.bytes, none⟩ room
    some (s.setStream k { s.streams k with
      offered := (s.streams k).offered ++ [call]
      accepted := (s.streams k).accepted ++ frame.accepted })

/-- What a channel reads was sent by its client, if that is one of these clients. -/
def Comes (s : CallSystem κ) : PooledServant.Event κ → Prop
  | .onRead k chunk => (s.streams k).client = none ∨
      (s.servant.channels k).received.flatten ++ chunk <+: (s.streams k).accepted
  | _ => True

instance (s : CallSystem κ) : ∀ event, Decidable (s.Comes event)
  | .onRead .. => inferInstanceAs (Decidable (_ ∨ _))
  | .handlePackets _ | .notify | .work .. | .onWrite .. | .remove _ => .isTrue trivial

/-- A step is `none` where nothing could cause the event, and where it crashes. -/
def step (dispatchPayload : DispatchPayload) (s : CallSystem κ) :
    Event κ → Option (CallSystem κ)
  | .buildSession call =>
    (s.proxy.loops.findClient call.session.client).map fun client =>
      { s.setLoops (s.proxy.loops.setClient call.session.client (client.addSession call.session))
        with calls := s.calls ++ [call] }
  | .sendPayload i room => s.calls[i]?.bind fun call =>
    match room with
    | some room => s.write call room
    | none =>
      let link := s.links call.session.client
      some (s.setLink call.session.client { link with tasks := link.tasks ++ [call] })
  | .runTask uid room =>
    match (s.links uid).tasks with
    | [] => none
    | call :: tasks => (s.setLink uid { s.links uid with tasks }).write call room
  | .whenSessionTimeout i => s.calls[i]?.map fun call => { s with timers := s.timers ++ [call] }
  | .timer i => s.timers[i]?.map fun call =>
    let session := call.session
    let waits := s.proxy.loops.pending session.client session.requestId = some session
    { s.setLoops (s.proxy.loops.removeSession session.client session.requestId) with
      timers := s.timers.eraseIdx i
      expired := if waits then s.expired ++ [call] else s.expired }
  -- the channel of a new connection has not read anything
  | .connect uid k =>
    if (s.links uid).socket = .unconnected ∧ (s.streams k).client = none ∧
        (s.servant.channels k).received = [] then
      some ((s.setStream k { client := some uid }).setLink uid
        { s.links uid with socket := .connected k, arrived := [] })
    else none
  | .onRead uid ev =>
    match (s.links uid).socket with
    | .connected k =>
      if (s.links uid).arrived ++ ev.bytes <+: (s.servant.channels k).writer.accepted then
        (MyProxy.onRead uid ev s.proxy).map fun proxy =>
          { s.setLink uid ((s.links uid).afterRead (s.proxy.loops.findClient uid) ev) with proxy }
      else none
    | _ => none
  | .reconnect uid => (s.proxy.loops.findClient uid).map fun client =>
    (s.setLoops (s.proxy.loops.setClient uid client.disconnect)).setLink uid
      { s.links uid with socket := .unconnected, arrived := [] }
  | .servant event =>
    if s.Comes event then
      (s.servant.step dispatchPayload event).map fun servant => { s with servant }
    else none

def Follows (s : CallSystem κ) (call : SentCall) (room : ℕ) : Prop :=
  ∀ k, (s.links call.session.client).socket = .connected k → room = 0 ∨
    (s.streams k).accepted = stream ((s.streams k).offered.map SentCall.frame)

instance (s : CallSystem κ) (call : SentCall) (room : ℕ) : Decidable (s.Follows call room) :=
  match h : (s.links call.session.client).socket with
  | .null | .unconnected => .isTrue fun _ hk => by cases h.symm.trans hk
  | .connected k =>
    decidable_of_iff (room = 0 ∨
        (s.streams k).accepted = stream ((s.streams k).offered.map SentCall.frame)) <| by
      constructor
      · intro hfollows k' hk'
        cases h.symm.trans hk'
        exact hfollows
      · exact fun hfollows => hfollows k h

/-- Each call is served, and its session has a request id of its own; writes follow whole frames;
and the servant reads no chunk that ends behind one to four bytes of a frame. -/
def Allowed (dispatchPayload : DispatchPayload) (serve : List Byte → Option (List Byte))
    (s : CallSystem κ) : Event κ → Prop
  | .buildSession call => call.Served dispatchPayload serve ∧
      ∀ other ∈ s.calls, other.session.requestId ≠ call.session.requestId
  | .sendPayload i (some room) => ∀ call ∈ s.calls[i]?, s.Follows call room
  | .runTask uid room => ∀ call ∈ (s.links uid).tasks.head?, s.Follows call room
  | .servant (.onRead k chunk) => (s.streams k).client ≠ none →
      CutClear ((s.streams k).offered.map SentCall.frame)
        ((s.servant.channels k).received.flatten.length+chunk.length)
  | _ => True

instance (frames : List Frame) (k : ℕ) : Decidable (CutClear frames k) :=
  inferInstanceAs (Decidable (residue frames k = 0 ∨ 4 < residue frames k))

instance (dispatchPayload : DispatchPayload) (serve : List Byte → Option (List Byte))
    [∀ call : SentCall, Decidable (call.Served dispatchPayload serve)] (s : CallSystem κ) :
    ∀ event, Decidable (s.Allowed dispatchPayload serve event)
  | .buildSession _ => inferInstanceAs (Decidable (_ ∧ _))
  | .sendPayload i (some _) => inferInstanceAs (Decidable (∀ call ∈ s.calls[i]?, _))
  | .runTask uid _ => inferInstanceAs (Decidable (∀ call ∈ (s.links uid).tasks.head?, _))
  | .servant (.onRead ..) => inferInstanceAs (Decidable (_ → CutClear _ _))
  | .sendPayload _ none | .whenSessionTimeout _ | .timer _ | .connect .. | .onRead ..
  | .reconnect _ => .isTrue trivial
  | .servant (.handlePackets _) | .servant .notify | .servant (.work ..) | .servant (.onWrite ..)
  | .servant (.remove _) => .isTrue trivial

end CallSystem

/-! What the loops hold of their clients, apart from the sessions. -/

namespace ClientLoops

variable {β : Type} {f : MyClient → β} {loops : ClientLoops} {uid : UInt32} {client c : MyClient}

theorem map_findClient_setClient (hc : loops.findClient uid = some client) (hf : f c = f client)
    (other : UInt32) :
    ((loops.setClient uid c).findClient other).map f = (loops.findClient other).map f := by
  rw [findClient_setClient hc]
  split
  · next heq => rw [← heq, hc, Option.map_some, Option.map_some, hf]
  · rfl

theorem map_findClient_removeSession (hf : ∀ c requests, f { c with requests } = f c)
    (loops : ClientLoops) (uid : UInt32) (removed : UInt64) (other : UInt32) :
    ((loops.removeSession uid removed).findClient other).map f =
      (loops.findClient other).map f := by
  unfold removeSession
  cases hc : loops.findClient uid with
  | none => rfl
  | some client => exact map_findClient_setClient hc (hf client _) other

theorem map_findClient_handlePacket (hf : ∀ c requests, f { c with requests } = f c)
    (loops : ClientLoops) (m : MyMagicMessage) (other : UInt32) :
    ((handlePacket loops m).1.findClient other).map f = (loops.findClient other).map f := by
  rw [handlePacket_eq]
  cases loops.pending (clientIdOf m.requestId) m.requestId with
  | none => rfl
  | some request => exact map_findClient_removeSession hf loops _ _ other

theorem pending_addSession (hc : loops.findClient uid = some client) (session : MySession)
    (other : UInt32) (requestId : UInt64) :
    (loops.setClient uid (client.addSession session)).pending other requestId =
      if uid = other ∧ session.requestId = requestId then some session
      else loops.pending other requestId := by
  rw [pending_setClient hc, MyClient.findSession_addSession, ← pending_eq hc]
  by_cases huid : uid = other
  · subst huid
    rw [if_pos rfl]
    exact if_congr (and_iff_right rfl).symm rfl rfl
  · rw [if_neg huid, if_neg fun hboth => huid hboth.1]

end ClientLoops

namespace MyProxy

def configOf (uid : UInt32) (s : ProxyState) : Option ClientConfig :=
  (s.loops.findClient uid).map MyClient.config

structure KeepsOthers (uid : UInt32) (s t : ProxyState) : Prop where
  config : ∀ other, configOf other t = configOf other s
  buffer : ∀ other, other ≠ uid → bufferOf other t = bufferOf other s

variable {uid : UInt32} {s t u : ProxyState} {client c : MyClient}

theorem KeepsOthers.refl (uid : UInt32) (s : ProxyState) : KeepsOthers uid s s :=
  ⟨fun _ => rfl, fun _ _ => rfl⟩

theorem KeepsOthers.trans (h : KeepsOthers uid s t) (h' : KeepsOthers uid t u) :
    KeepsOthers uid s u :=
  ⟨fun other => (h'.config other).trans (h.config other),
    fun other hne => (h'.buffer other hne).trans (h.buffer other hne)⟩

/-- The clients that are held stay the same. -/
theorem KeepsOthers.isSome_bufferOf (h : KeepsOthers uid s t) (other : UInt32) :
    (bufferOf other t).isSome = (bufferOf other s).isSome := by
  have hconfig := congrArg Option.isSome (h.config other)
  rw [configOf, configOf, Option.isSome_map, Option.isSome_map] at hconfig
  rw [bufferOf, bufferOf, Option.isSome_map, Option.isSome_map, hconfig]

theorem keepsOthers_setClient (hc : s.loops.findClient uid = some client)
    (hconfig : c.config = client.config) :
    KeepsOthers uid s { s with loops := s.loops.setClient uid c } := by
  constructor
  · exact ClientLoops.map_findClient_setClient hc hconfig
  · intro other hne
    rw [bufferOf, ClientLoops.findClient_setClient hc, if_neg hne.symm]
    rfl

theorem keepsOthers_handleFrame (uid : UInt32) (s : ProxyState) (iobuf : List Byte) :
    KeepsOthers uid s (handleFrame s iobuf).1 := by
  unfold handleFrame
  cases decode iobuf with
  | none => exact KeepsOthers.refl uid s
  | some m =>
    exact ⟨ClientLoops.map_findClient_handlePacket (fun _ _ => rfl) s.loops m,
      fun other _ => ClientLoops.map_findClient_handlePacket (fun _ _ => rfl) s.loops m other⟩

theorem keepsOthers_onReadBody (uid : UInt32) (s : ProxyState) :
    KeepsOthers uid s (onReadBody MyMagicCodec uid s).1 := by
  cases hc : s.loops.findClient uid with
  | none =>
    rw [onReadBody, hc]
    exact KeepsOthers.refl uid s
  | some client =>
    rcases ClientLife.onReadBody_calls MyMagicCodec hc with ⟨_, hbody⟩ | ⟨hcall, _⟩ | ⟨_, hbody⟩
    · rw [hbody]
      exact KeepsOthers.refl uid s
    · rcases ProxyState.sessions_onReadBody uid s with ⟨hnone, _⟩ | ⟨bytes, hpacket, _⟩
      · cases hcall.symm.trans hnone
      · cases hcall.symm.trans hpacket
    · rw [hbody]
      have hfetch : KeepsOthers uid s (fetched MyMagicCodec uid s client) :=
        keepsOthers_setClient hc rfl
      exact hfetch.trans (keepsOthers_handleFrame uid _ _)

theorem keepsOthers_of_emits {calls : List ProxyCall}
    (h : Emits (onReadBody MyMagicCodec uid) (onReadCall MyMagicCodec uid) s calls t) :
    KeepsOthers uid s t := by
  induction h with
  | @stop s t h =>
    have hbody := keepsOthers_onReadBody uid s
    rwa [h] at hbody
  | @again s t u calls h _ ih =>
    have hbody := keepsOthers_onReadBody uid s
    rw [h] at hbody
    exact hbody.trans ih

theorem keepsOthers_of_arrival {reads : List (List Byte)} {calls : List ProxyCall}
    (h : OnReadCalls MyMagicCodec uid (.arrival reads) s calls t) : KeepsOthers uid s t := by
  unfold OnReadCalls at h
  cases hc : s.loops.findClient uid with
  | none =>
    rw [hc] at h
    obtain ⟨-, rfl⟩ := h
    exact KeepsOthers.refl uid t
  | some client =>
    simp only [hc, MyClient.onRead_eq, ReadEvent.closes_eq] at h
    have hreceive : KeepsOthers uid s { s with
        loops := s.loops.setClient uid (client.receive (ReadEvent.arrival reads).bytes) } :=
      keepsOthers_setClient hc rfl
    exact hreceive.trans (keepsOthers_of_emits h)

/-- The bytes of an arrival are, behind those in the buffer, the beginning of a stream: the frames
that they complete are for the sessions, and the others wait. -/
theorem frames_of_arrival {reads : List (List Byte)} {calls : List ProxyCall} {buf : List Byte}
    (hb : bufferOf uid s = some buf)
    (h : OnReadCalls MyMagicCodec uid (.arrival reads) s calls t) {frames : List Frame}
    (hcame : buf ++ reads.flatten <+: stream frames) :
    ∃ n rest, bufferOf uid t = some rest ∧ Waits getPacketLength rest ∧
      buf ++ reads.flatten = stream (frames.take n) ++ rest ∧
      t.sessions = ((frames.take n).map Frame.bytes).foldl Sessions.packet s.sessions := by
  obtain ⟨packets, rest, hcut, hspent, hrest, hcalls⟩ := cuts_of_arrival hb h
  obtain ⟨packets', hcalls', hsessions⟩ := ProxyState.sessions_of_arrival h
  have hsame : packets' = packets := by
    refine List.map_injective_iff.mpr ?_ (hcalls'.symm.trans hcalls)
    exact fun _ _ heq => ProxyCall.handlePacket.inj heq
  obtain ⟨n, -, hpackets, -⟩ := packets_of_prefix hcame hcut hspent
  refine ⟨n, rest, hrest, ?_, ?_, ?_⟩
  · rcases hspent with hwaits | ⟨packet, hmem, hshort⟩
    · exact hwaits
    · rw [hpackets] at hmem
      obtain ⟨f, -, rfl⟩ := List.mem_map.mp hmem
      exact absurd f.headLen_le (Nat.not_le_of_lt hshort)
  · rw [← hcut.flatten_append, hpackets, stream, List.flatMap_def]
  · rw [hsessions, hsame, hpackets]

/-- `onRead` returns, and does what its loop does. -/
theorem onRead_eq_some_iff {ev : ReadEvent} :
    onRead uid ev s = some t ↔ ∃ calls, OnReadCalls MyMagicCodec uid ev s calls t := by
  unfold onRead OnReadCalls
  cases hc : s.loops.findClient uid with
  | none => simp only [Option.some.injEq, exists_eq_left, eq_comm]
  | some client =>
    dsimp only
    have hset := ClientLoops.findClient_setClient_self hc (client.onRead ev).1
    split
    · simp only [Option.some.injEq, exists_eq_left, eq_comm]
    · rw [← exits_iff_emits]
      symm
      apply exits_iff_execLoop (buffered uid) (fun _ _ h => buffered_lt h)
      rw [buffered, hset]
      exact Nat.lt_succ_self _

end MyProxy

/-! Frames that are offered later leave the cuts in the earlier ones as they are. -/

namespace MyServant

theorem residue_append {frames : List Frame} (more : List Frame) {k : ℕ}
    (hk : k ≤ (stream frames).length) : residue (frames ++ more) k = residue frames k := by
  induction frames generalizing k with
  | nil =>
    have hzero : k = 0 := Nat.le_zero.mp hk
    have hsum := length_complete_add_residue more k
    rw [List.nil_append, residue]
    omega
  | cons f fs ih =>
    rw [List.cons_append, residue, residue]
    split
    · apply ih
      rw [stream_cons, List.length_append] at hk
      omega
    · rfl

theorem cutsClear_append {frames : List Frame} (more : List Frame) {k : ℕ}
    {chunks : List (List Byte)} (hk : k+chunks.flatten.length ≤ (stream frames).length)
    (h : CutsClear frames k chunks) : CutsClear (frames ++ more) k chunks := by
  induction chunks generalizing k with
  | nil => trivial
  | cons chunk chunks ih =>
    rw [List.flatten_cons, List.length_append, ← Nat.add_assoc] at hk
    obtain ⟨hfirst, hrest⟩ := h
    refine ⟨?_, ih hk hrest⟩
    unfold CutClear at hfirst ⊢
    rwa [residue_append more (Nat.le_of_add_right_le hk)]

end MyServant

/-! What a step of the servant leaves as it is. -/

namespace PooledServant

variable {dispatchPayload : DispatchPayload} {s t : PooledServant κ}

theorem received_handle (k : κ) (s : PooledServant κ) (event : ServantEvent) (k' : κ) :
    ((handle k s event).channels k').received = (s.channels k').received := by
  cases event with
  | handlePacket packet => rfl
  | handleClose => rfl
  | removeChannel =>
    rw [handle, channels_setChannel]
    split
    · next heq => rw [heq]; rfl
    · rfl

theorem received_runJob {job : HandlerJob κ} (h : s.runJob dispatchPayload job = some t) (k : κ) :
    (t.channels k).received = (s.channels k).received := by
  cases job with
  | notify =>
    cases h
    rfl
  | handlePacket channel packet =>
    have hsent (c : ServedChannel) (sent : List (List Byte)) :
        (sent.foldl ServedChannel.sendPayload c).received = c.received := by
      refine List.foldlRecOn (motive := fun d : ServedChannel => d.received = c.received) sent _
        rfl ?_
      intro d hd rsp _
      rw [← hd, ServedChannel.sendPayload]
      split <;> rfl
    rw [runJob] at h
    split at h
    · cases h
      rw [channels_setChannel]
      split
      · next heq => rw [heq, hsent]
      · rfl
    · cases h
      rfl
    · cases h

/-- A channel receives by reading, and by nothing else. -/
theorem received_step {event : Event κ} (h : s.step dispatchPayload event = some t) (k : κ) :
    (t.channels k).received = (s.channels k).received ∨ ∃ chunk, event = .onRead k chunk ∧
      (t.channels k).received = (s.channels k).received ++ [chunk] := by
  have hset {channel : κ} {c : ServedChannel}
      (hc : c.received = (s.channels channel).received) :
      ((s.setChannel channel c).channels k).received = (s.channels k).received := by
    rw [channels_setChannel]
    split
    · next heq => rw [heq, hc]
    · rfl
  cases event with
  | onRead channel chunk =>
    obtain ⟨-, hread⟩ := Option.ite_none_left_eq_some.mp h
    cases hread
    by_cases heq : channel = k
    · subst heq
      refine .inr ⟨chunk, rfl, ?_⟩
      rw [channels_setChannel, if_pos rfl]
    · rw [channels_setChannel, if_neg (Ne.symm heq)]
      exact .inl rfl
  | handlePackets channel =>
    obtain ⟨-, hhandled⟩ := Option.ite_none_right_eq_some.mp h
    cases hhandled
    refine .inl (List.foldlRecOn (motive := fun u : PooledServant κ =>
      (u.channels k).received = (s.channels k).received) _ _ (hset rfl) ?_)
    intro u hu event _
    rw [received_handle, hu]
  | notify =>
    cases h
    exact .inl rfl
  | work i notified =>
    simp only [step] at h
    split at h
    · cases h
    · refine .inl (invariant_of_steps (I := fun u => (u.channels k).received =
        (s.channels k).received) ?_ rfl h)
      intro u job v hu hjob
      rw [received_runJob hjob, hu]
  | onWrite channel rooms =>
    simp only [step] at h
    split at h
    · cases h
    · cases h
      exact .inl (hset rfl)
  | remove channel =>
    cases h
    exact .inl (hset rfl)

theorem ran_step {event : Event κ} (h : s.step dispatchPayload event = some t) :
    s.handlerExecutor.ran <+: t.handlerExecutor.ran := by
  obtain ⟨handed, ran, -, ⟨-, hpool⟩ | ⟨-, hran, -⟩⟩ := step_spec h
  · rw [hpool, (PoolLife.foldl_exec handed s.handlerExecutor).2.1]
  · rw [hran]
    exact List.prefix_append _ _

end PooledServant
end EchoFrame
