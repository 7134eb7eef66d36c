import EchoFrame.ProxyPackets

/-! Which sessions the bytes on one connection can reach. -/
namespace EchoFrame
open Verif
namespace MyProxy

/-- The stream carries a message: it is in one of the packets that the codec
cuts off the front, one after the other. -/
inductive Carries (codec : MyCodec) : List Byte → MyMagicMessage → Prop
  | here {buf : List Byte} {m : MyMagicMessage}
      (h : codec.isPacketComplete buf = .kPacketStatusComplete)
      (hm : MyMagicMessage.decode (buf.take (codec.getPacketLength buf)) = some m) :
      Carries codec buf m
  | later {buf : List Byte} {m : MyMagicMessage}
      (h : codec.isPacketComplete buf = .kPacketStatusComplete)
      (hm : Carries codec (buf.drop (codec.getPacketLength buf)) m) : Carries codec buf m

/-- The stream carries a message with this request id, which names the client. -/
def Names (codec : MyCodec) (buf : List Byte) (uid : UInt32) (requestId : UInt64) : Prop :=
  ∃ m, Carries codec buf m ∧ m.requestId = requestId ∧ clientIdOf requestId = uid

variable {codec : MyCodec} {uid : UInt32} {s t : ProxyState} {client : MyClient}

theorem pending_onDisconnect (hc : s.loops.findClient uid = some client) (other : UInt32)
    (requestId : UInt64) :
    (onDisconnect s uid client).loops.pending other requestId = s.loops.pending other requestId ∨
      other = uid ∧ (onDisconnect s uid client).loops.pending other requestId = none := by
  unfold onDisconnect
  split
  · refine .inl (ClientLoops.pending_setClient_of_requests hc ?_ other requestId)
    unfold MyClient.disconnect
    split <;> rfl
  · rw [ClientLoops.pending_removeClient]
    split
    · next h => exact .inr ⟨h.symm, rfl⟩
    · exact .inl rfl

/-- A frame ends the session that its header names, if any. -/
theorem pending_handleFrame (s : ProxyState) (iobuf : List Byte) (other : UInt32)
    (requestId : UInt64) :
    (handleFrame s iobuf).1.loops.pending other requestId = s.loops.pending other requestId ∨
      (∃ m, MyMagicMessage.decode iobuf = some m ∧ m.requestId = requestId ∧
        clientIdOf requestId = other) ∧
      (handleFrame s iobuf).1.loops.pending other requestId = none := by
  cases hm : MyMagicMessage.decode iobuf with
  | none =>
    simp only [handleFrame, hm]
    exact .inl trivial
  | some m =>
    simp only [handleFrame, hm]
    rw [pending_handlePacket]
    split
    · next h => exact .inr ⟨⟨m, rfl, h.2, h.2 ▸ h.1⟩, rfl⟩
    · exact .inl rfl

theorem tasks_handleFrame (s : ProxyState) (iobuf : List Byte) :
    ∀ task ∈ (handleFrame s iobuf).1.tasks, task ∈ s.tasks ∨
      ∃ m, MyMagicMessage.decode iobuf = some m ∧
        s.loops.pending (clientIdOf m.requestId) m.requestId = some task.request := by
  intro task htask
  cases hm : MyMagicMessage.decode iobuf with
  | none =>
    simp only [handleFrame, hm] at htask
    exact .inl htask
  | some m =>
    simp only [handleFrame, hm] at htask
    rcases List.mem_append.mp htask with htask | htask
    · exact .inl htask
    · exact .inr ⟨m, rfl, request_of_handlePacket (Option.mem_toList.mp htask)⟩

theorem readBuffer_handleFrame (iobuf : List Byte) (hc : s.loops.findClient uid = some client) :
    ∃ c, (handleFrame s iobuf).1.loops.findClient uid = some c ∧
      c.readBuffer = client.readBuffer := by
  cases hm : MyMagicMessage.decode iobuf with
  | none =>
    simp only [handleFrame, hm]
    exact ⟨client, hc, rfl⟩
  | some m =>
    simp only [handleFrame, hm]
    obtain ⟨requests, h⟩ := findClient_handlePacket hc m
    exact ⟨_, h, rfl⟩

/-- A packet that is handled is off the buffer of its client. -/
theorem readBuffer_nextPacket (codec : MyCodec) (hc : s.loops.findClient uid = some client) :
    ∃ c, (handleFrame (fetched codec uid s client) (nextPacket codec client)).1.loops.findClient
        uid = some c ∧ c.readBuffer =
          client.readBuffer.drop (codec.getPacketLength client.readBuffer) := by
  have hset : (fetched codec uid s client).loops.findClient uid =
      some (client.fetchPayload (codec.getPacketLength client.readBuffer)).2 :=
    ClientLoops.findClient_setClient_self hc _
  exact readBuffer_handleFrame (nextPacket codec client) hset

/-- One step on the connection of `uid`, or a run of them, with `buf` still to be
cut: nothing becomes pending, another client loses only sessions that `buf`
names, and the tasks are for sessions that it names. -/
structure Confined (codec : MyCodec) (uid : UInt32) (buf : List Byte) (s t : ProxyState) : Prop where
  shrinks : ∀ other requestId x, t.loops.pending other requestId = some x →
    s.loops.pending other requestId = some x
  others : ∀ other requestId, other ≠ uid →
    t.loops.pending other requestId = s.loops.pending other requestId ∨
    Names codec buf other requestId ∧ t.loops.pending other requestId = none
  tasks : ∀ task ∈ t.tasks, task ∈ s.tasks ∨ ∃ m, Carries codec buf m ∧
    s.loops.pending (clientIdOf m.requestId) m.requestId = some task.request

theorem Confined.refl (codec : MyCodec) (uid : UInt32) (buf : List Byte) (s : ProxyState) :
    Confined codec uid buf s s :=
  ⟨fun _ _ _ h => h, fun _ _ _ => .inl rfl, fun _ h => .inl h⟩

theorem confined_onDisconnect (codec : MyCodec) (buf : List Byte)
    (hc : s.loops.findClient uid = some client) :
    Confined codec uid buf s (onDisconnect s uid client) := by
  have hp := pending_onDisconnect hc
  have htasks : (onDisconnect s uid client).tasks = s.tasks := by
    unfold onDisconnect
    split <;> rfl
  refine ⟨?_, ?_,
    fun task h => .inl (htasks ▸ h)⟩
  · intro other requestId x hx
    rcases hp other requestId with h | ⟨-, h⟩
    · exact h ▸ hx
    · rw [h] at hx
      cases hx
  · intro other requestId hne
    exact .inl ((hp other requestId).resolve_right fun h => hne h.1)

theorem confined_frame (hc : s.loops.findClient uid = some client)
    (hst : codec.isPacketComplete client.readBuffer = .kPacketStatusComplete) :
    Confined codec uid client.readBuffer s
      (handleFrame (fetched codec uid s client) (nextPacket codec client)).1 := by
  have hbuf (other : UInt32) (requestId : UInt64) :
      (fetched codec uid s client).loops.pending other requestId =
        s.loops.pending other requestId :=
    ClientLoops.pending_setClient_of_requests (c := (client.fetchPayload _).2) hc rfl _ _
  have hp := pending_handleFrame (fetched codec uid s client) (nextPacket codec client)
  refine ⟨?_, ?_, ?_⟩
  · intro other requestId x hx
    rcases hp other requestId with h | ⟨-, h⟩
    · rwa [← hbuf, ← h]
    · rw [h] at hx
      cases hx
  · intro other requestId _
    rcases hp other requestId with h | ⟨⟨m, hm, hid, hcl⟩, h⟩
    · exact .inl (h.trans (hbuf other requestId))
    · exact .inr ⟨⟨m, .here hst hm, hid, hcl⟩, h⟩
  · intro task htask
    rcases tasks_handleFrame _ _ task htask with h | ⟨m, hm, h⟩
    · exact .inl h
    · exact .inr ⟨m, .here hst hm, (hbuf _ _).symm.trans h⟩

theorem Confined.trans {u : ProxyState} {buf : List Byte} (h : Confined codec uid buf s t)
    (hst : codec.isPacketComplete buf = .kPacketStatusComplete)
    (hrest : Confined codec uid (buf.drop (codec.getPacketLength buf)) t u) :
    Confined codec uid buf s u := by
  refine ⟨fun other requestId x hx => h.shrinks _ _ _ (hrest.shrinks _ _ _ hx),
    ?_, ?_⟩
  · intro other requestId hne
    rcases hrest.others other requestId hne with heq | ⟨⟨m, hm, hid⟩, hnone⟩
    · rw [heq]
      exact h.others other requestId hne
    · exact .inr ⟨⟨m, .later hst hm, hid⟩, hnone⟩
  · intro task htask
    rcases hrest.tasks task htask with htask | ⟨m, hm, hp⟩
    · exact h.tasks task htask
    · exact .inr ⟨m, .later hst hm, h.shrinks _ _ _ hp⟩

theorem confined_loop (h : Exits (onReadBody codec uid) s t)
    (hc : s.loops.findClient uid = some client) :
    Confined codec uid client.readBuffer s t := by
  induction h generalizing client with
  | @stop s t h =>
    rcases onReadBody_cases codec uid s with hb | ⟨c, hc', hb | ⟨hst, -, -, hb⟩⟩
    · cases hb.symm.trans h
      exact .refl ..
    · cases hb.symm.trans h
      cases hc.symm.trans hc'
      exact confined_onDisconnect codec _ hc
    · cases hc.symm.trans hc'
      have hconf := confined_frame hc hst
      rwa [← hb, h] at hconf
  | @again s t u h _ ih =>
    rcases onReadBody_cases codec uid s with hb | ⟨c, hc', hb | ⟨hst, -, -, hb⟩⟩
    · cases hb.symm.trans h
    · cases hb.symm.trans h
    · cases hc.symm.trans hc'
      have hconf := confined_frame hc hst
      rw [← hb, h] at hconf
      obtain ⟨next, hnext, hrest⟩ := readBuffer_nextPacket codec hc
      rw [← hb, h] at hnext
      have hih := ih hnext
      rw [hrest] at hih
      exact hconf.trans hst hih

def buffered (uid : UInt32) (s : ProxyState) : ℕ :=
  ((s.loops.findClient uid).map fun c => c.readBuffer.length).getD 0

/-- An iteration that asks for another has taken bytes off the buffer. -/
theorem buffered_lt (h : onReadBody codec uid s = (t,true)) : buffered uid t < buffered uid s := by
  rcases onReadBody_cases codec uid s with hb | ⟨c, hc, hb | ⟨-, hpl, hlen, hb⟩⟩
  · cases hb.symm.trans h
  · cases hb.symm.trans h
  · obtain ⟨next, hnext, hrest⟩ := readBuffer_nextPacket codec hc
    rw [← hb, h] at hnext
    simp only [buffered, hnext, hc, Option.map_some, Option.getD_some, hrest, List.length_drop]
    omega

theorem onRead_returns (codec : MyCodec) (uid : UInt32) (bytes : List Byte) (result : ReadResult)
    (s : ProxyState) : ∃ t, OnRead codec uid bytes result s t := by
  unfold OnRead
  split
  · exact ⟨s, rfl⟩
  · split
    · exact exits_of_variant (buffered uid) (fun _ _ h => buffered_lt h) _
    · exact ⟨_, rfl⟩

/-- The bytes on the connection of one client end sessions of another one only
by naming them: a session is gone, or handed a payload, because a message of the
stream has its request id, whose upper half is the uid of its client. -/
theorem onRead_ends_named_sessions (codec : MyCodec) (bytes : List Byte) (result : ReadResult)
    (hc : s.loops.findClient uid = some client) :
    (∃ t, OnRead codec uid bytes result s t) ∧ ∀ t, OnRead codec uid bytes result s t →
      (∀ other requestId, other ≠ uid →
        t.loops.pending other requestId = s.loops.pending other requestId ∨
        Names codec (client.readBuffer ++ bytes) other requestId ∧
          t.loops.pending other requestId = none) ∧
      ∀ task ∈ t.tasks, task ∈ s.tasks ∨ ∃ m, Carries codec (client.readBuffer ++ bytes) m ∧
        s.loops.pending (clientIdOf m.requestId) m.requestId = some task.request := by
  refine ⟨onRead_returns codec uid bytes result s, ?_⟩
  intro t h
  have hset := ClientLoops.findClient_setClient_self hc (client.receive bytes)
  have hp (other : UInt32) (requestId : UInt64) :
      (s.loops.setClient uid (client.receive bytes)).pending other requestId =
        s.loops.pending other requestId :=
    ClientLoops.pending_setClient_of_requests (c := client.receive bytes) hc rfl _ _
  have hconf : Confined codec uid (client.readBuffer ++ bytes)
      { s with loops := s.loops.setClient uid (client.receive bytes) } t := by
    rw [OnRead, hc] at h
    cases result with
    | drained => exact confined_loop h hset
    | closed =>
      obtain rfl : t = _ := h
      exact confined_onDisconnect codec _ hset
    | failed =>
      obtain rfl : t = _ := h
      exact confined_onDisconnect codec _ hset
  refine ⟨fun other requestId hne => hp other requestId ▸ hconf.others other requestId hne,
    ?_⟩
  intro task htask
  rcases hconf.tasks task htask with h | ⟨m, hm, h⟩
  · exact .inl h
  · exact .inr ⟨m, hm, (hp _ _).symm.trans h⟩

def twoClients : ProxyState where
  loops := Shards.put (Shards.put (.empty 1) 0 0x70001
      ⟨0x70001,"demo",⟨"10.0.0.1",80,.kClientTypeTcp,true⟩,∅,[]⟩) 0 0x80001
    (MyClient.addSession ⟨0x80001,"demo",⟨"10.0.0.2",80,.kClientTypeTcp,true⟩,∅,[]⟩ ⟨0,0x80001,100⟩)
  tasks := []

theorem heartbeat_ends_second :
    let session : MySession := ⟨0,0x80001,100⟩
    ∃ t, OnRead MyMagicCodec 0x70001 (MyMagicMessage.heartbeatFrame session.requestId).bytes
        .drained twoClients t ∧ t.loops.pending 0x80001 session.requestId = none :=
  ⟨_, Exits.of_execLoop (n := 2) rfl, by decide⟩

/-- The first connection carries a whole frame for the session of the second client, which is
gone afterwards. -/
theorem onRead_ends_named_sessions_heartbeat :
    let session : MySession := ⟨0,0x80001,100⟩
    let bytes := (MyMagicMessage.heartbeatFrame session.requestId).bytes
    ∃ t, OnRead MyMagicCodec 0x70001 bytes .drained twoClients t ∧
      t.loops.pending 0x80001 session.requestId = none ∧
      Names MyMagicCodec bytes 0x80001 session.requestId := by
  intro session bytes
  obtain ⟨⟨t, hread⟩, hall⟩ := onRead_ends_named_sessions MyMagicCodec bytes .drained
    (show twoClients.loops.findClient 0x70001 =
      some ⟨0x70001,"demo",⟨"10.0.0.1",80,.kClientTypeTcp,true⟩,∅,[]⟩ from rfl)
  obtain ⟨u, hu, hnone⟩ := heartbeat_ends_second
  have hended : t.loops.pending 0x80001 session.requestId = none :=
    Exits.unique hread hu ▸ hnone
  have hwaits : twoClients.loops.pending 0x80001 session.requestId = some session := by decide
  refine ⟨t, hread, hended, ?_⟩
  rcases (hall t hread).1 0x80001 session.requestId (by decide) with heq | ⟨hnames, -⟩
  · rw [heq, hwaits] at hended
    cases hended
  · exact hnames

/-- A heartbeat response on the first connection ends the session of the second client. -/
theorem frame_ends_session_of_other_client :
    let session : MySession := ⟨0,0x80001,100⟩
    ∃ t, OnRead MyMagicCodec 0x70001 (MyMagicMessage.heartbeatFrame session.requestId).bytes
        .drained twoClients t ∧
      twoClients.loops.pending 0x80001 session.requestId = some session ∧
      t.loops.pending 0x80001 session.requestId = none ∧ t.tasks = [.heartbeat session] :=
  ⟨_, Exits.of_execLoop (n := 2) rfl, by decide, by decide, by decide⟩

end MyProxy
end EchoFrame
