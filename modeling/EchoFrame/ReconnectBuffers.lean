import EchoFrame.ReadToEnd
import EchoFrame.Verif.Run

/-! What is left in the read buffer of a client when it reconnects. -/
namespace EchoFrame
open Verif

inductive LifeEvent
  | onConnect
  | read (ev : ReadEvent)
  | onDisconnect
  | reconnect
deriving DecidableEq, Repr

/-- The proxy of the client, whether the client has a socket and a read watcher, the bytes
it has received since its most recent reconnect and the packets handled since. -/
structure ClientLife where
  proxy : ProxyState
  socket : Bool
  readWatcher : Bool
  received : List Byte
  handled : List (List Byte)

namespace ClientLife
open MyProxy

def create (s : ProxyState) : ClientLife := ⟨s,true,false,[],[]⟩

/-- The pointers after `onDisconnect`. Those of a client that it has removed are left to the
destructor. -/
def disconnected (uid : UInt32) (s : ClientLife) : ClientLife :=
  if (s.proxy.loops.findClient uid).isSome then { s with socket := false, readWatcher := false }
  else s

def onDisconnect (uid : UInt32) (s : ClientLife) : ClientLife :=
  match s.proxy.loops.findClient uid with
  | none => s
  | some client =>
    disconnected uid { s with proxy := MyProxy.onDisconnect s.proxy uid client }

def afterRead (uid : UInt32) (s : ClientLife) (ev : ReadEvent) (calls : List ProxyCall)
    (proxy : ProxyState) : ClientLife :=
  let s := { s with
    proxy := proxy
    received := s.received ++ ev.bytes
    handled := s.handled ++ calls.filterMap ProxyCall.packet }
  if .onDisconnect ∈ calls then s.disconnected uid else s

def reconnect (uid : UInt32) (s : ClientLife) : ClientLife :=
  match s.proxy.loops.findClient uid with
  | none => ⟨s.proxy,true,false,[],[]⟩
  | some client =>
    ⟨{ s.proxy with loops := s.proxy.loops.setClient uid client.disconnect },true,false,[],[]⟩

/-- A read event takes a read watcher, and the callback that makes one a socket. -/
inductive Step (codec : MyCodec) (uid : UInt32) : ClientLife → LifeEvent → ClientLife → Prop
  | onConnect {s : ClientLife} (h : s.socket) :
      Step codec uid s .onConnect { s with readWatcher := true }
  | read {s : ClientLife} {ev : ReadEvent} {calls : List ProxyCall} {proxy : ProxyState}
      (hw : s.readWatcher) (h : OnReadCalls codec uid ev s.proxy calls proxy) :
      Step codec uid s (.read ev) (s.afterRead uid ev calls proxy)
  | onDisconnect {s : ClientLife} : Step codec uid s .onDisconnect (s.onDisconnect uid)
  | reconnect {s : ClientLife} : Step codec uid s .reconnect (s.reconnect uid)

/-- A client that reconnects is a TCP client, or its read buffer is empty. -/
def Allowed (uid : UInt32) (s : ClientLife) : LifeEvent → Prop
  | .reconnect => ∀ client ∈ s.proxy.loops.findClient uid,
      client.config.clientType = .kClientTypeTcp ∨ client.readBuffer = []
  | _ => True

/-- As long as the client has a socket, what it received is what it has handled and then
what it has buffered. -/
structure Inv (uid : UInt32) (s : ClientLife) : Prop where
  handled : s.handled.flatten <+: s.received
  buffered : s.socket → ∀ buf ∈ bufferOf uid s.proxy, s.handled.flatten ++ buf = s.received
  watched : s.readWatcher → s.socket

variable {codec : MyCodec} {uid : UInt32} {s t : ProxyState} {client : MyClient}
  {calls : List ProxyCall} {buf : List Byte}

theorem onReadBody_calls (codec : MyCodec) (hc : s.loops.findClient uid = some client) :
    (onReadCall codec uid s = [] ∧ onReadBody codec uid s = (s,false)) ∨
    (onReadCall codec uid s = [.onDisconnect] ∧
      onReadBody codec uid s = (MyProxy.onDisconnect s uid client,false)) ∨
    (onReadCall codec uid s = [.handlePacket (nextPacket codec client)] ∧
      onReadBody codec uid s =
        handleFrame (fetched codec uid s client) (nextPacket codec client)) := by
  unfold onReadCall onReadBody
  simp only [hc]
  by_cases hlen : client.readBuffer.length = 0
  · exact .inl (by simp only [hlen, ↓reduceIte, and_self])
  · simp only [hlen, ↓reduceIte]
    cases codec.isPacketComplete client.readBuffer with
    | kPacketStatusIncomplete => exact .inl ⟨rfl, rfl⟩
    | kPacketStatusError => exact .inr (.inl ⟨rfl, rfl⟩)
    | kPacketStatusComplete =>
      by_cases hpl : codec.getPacketLength client.readBuffer = 0
      · exact .inl (by simp only [hpl, ↓reduceIte, and_self])
      · refine .inr (.inr ?_)
        simp only [hpl, ↓reduceIte, true_and]
        rfl

theorem nextPacket_append (codec : MyCodec) (client : MyClient) : nextPacket codec client ++
    client.readBuffer.drop (codec.getPacketLength client.readBuffer) = client.readBuffer :=
  List.take_append_drop _ _

/-- The packets that a read event hands over come off the front of the buffer, and what is
left stays there, unless the client is disconnected. -/
theorem flatten_of_emits (hb : bufferOf uid s = some buf)
    (h : Emits (onReadBody codec uid) (onReadCall codec uid) s calls t) :
    ∃ rest, (calls.filterMap ProxyCall.packet).flatten ++ rest = buf ∧
      (.onDisconnect ∉ calls → bufferOf uid t = some rest) := by
  induction h generalizing buf with
  | @stop s t h =>
    obtain ⟨client, hc, rfl⟩ := Option.map_eq_some_iff.mp hb
    rcases onReadBody_calls codec hc with ⟨hcall, hbody⟩ | ⟨hcall, hbody⟩ | ⟨hcall, hbody⟩
    · rw [hcall]
      cases hbody.symm.trans h
      exact ⟨client.readBuffer, rfl, fun _ => hb⟩
    · rw [hcall]
      exact ⟨client.readBuffer, rfl, fun hnot => absurd List.mem_cons_self hnot⟩
    · obtain ⟨next, hnext, hrest⟩ := readBuffer_nextPacket codec hc
      rw [← hbody, h] at hnext
      refine ⟨next.readBuffer, ?_, fun _ => by rw [bufferOf, hnext, Option.map_some]⟩
      rw [hcall, hrest]
      simpa [ProxyCall.packet] using nextPacket_append codec client
  | @again s t u calls h _ ih =>
    obtain ⟨client, hc, rfl⟩ := Option.map_eq_some_iff.mp hb
    rcases onReadBody_calls codec hc with ⟨_, hbody⟩ | ⟨_, hbody⟩ | ⟨hcall, hbody⟩
    · cases hbody.symm.trans h
    · cases hbody.symm.trans h
    · obtain ⟨next, hnext, hrest⟩ := readBuffer_nextPacket codec hc
      rw [← hbody, h] at hnext
      obtain ⟨rest, hcut, hbuf⟩ := ih (by rw [bufferOf, hnext, Option.map_some])
      refine ⟨rest, ?_, fun hnot => hbuf fun hmem => hnot (List.mem_append_right _ hmem)⟩
      calc ((onReadCall codec uid s ++ calls).filterMap ProxyCall.packet).flatten ++ rest
          = nextPacket codec client ++ next.readBuffer := by
            rw [hcall, ← hcut]
            simp [ProxyCall.packet]
        _ = client.readBuffer := by rw [hrest, nextPacket_append]

theorem flatten_of_onReadCalls {ev : ReadEvent} (hb : bufferOf uid s = some buf)
    (h : OnReadCalls codec uid ev s calls t) :
    ∃ rest, (calls.filterMap ProxyCall.packet).flatten ++ rest = buf ++ ev.bytes ∧
      (.onDisconnect ∉ calls → bufferOf uid t = some rest) := by
  obtain ⟨client, hc, rfl⟩ := Option.map_eq_some_iff.mp hb
  simp only [OnReadCalls, hc, MyClient.onRead_eq, ReadEvent.closes_eq] at h
  split at h
  · obtain ⟨rfl, -⟩ := h
    exact ⟨client.readBuffer ++ ev.bytes, rfl, fun hnot => absurd List.mem_cons_self hnot⟩
  · exact flatten_of_emits (bufferOf_setClient hc (client.receive ev.bytes)) h

theorem calls_of_not_held {ev : ReadEvent} (hb : bufferOf uid s = none)
    (h : OnReadCalls codec uid ev s calls t) : calls = [] ∧ t = s := by
  rw [bufferOf, Option.map_eq_none_iff] at hb
  rwa [OnReadCalls, hb] at h

theorem readBuffer_disconnect
    (h : client.config.clientType = .kClientTypeTcp ∨ client.readBuffer = []) :
    client.disconnect.readBuffer = [] := by
  unfold MyClient.disconnect
  split
  · rfl
  · next hudp => exact h.resolve_left fun htcp => nomatch htcp.symm.trans hudp

theorem inv_disconnected {s : ClientLife} (h : s.handled.flatten <+: s.received)
    (hw : s.readWatcher → s.socket) : (s.disconnected uid).Inv uid := by
  unfold disconnected
  split
  · exact ⟨h, by simp, by simp⟩
  · next hnone =>
    refine ⟨h, ?_, hw⟩
    intro _ buf hbuf
    rw [bufferOf, Option.not_isSome_iff_eq_none.mp hnone] at hbuf
    cases hbuf

theorem inv_afterRead {s : ClientLife} {ev : ReadEvent} (h : s.Inv uid) (hw : s.readWatcher)
    (hread : OnReadCalls codec uid ev s.proxy calls t) : (s.afterRead uid ev calls t).Inv uid := by
  unfold afterRead
  cases hb : bufferOf uid s.proxy with
  | none =>
    obtain ⟨rfl, rfl⟩ := calls_of_not_held hb hread
    refine ⟨?_, ?_, h.watched⟩
    · simpa using h.handled.trans (List.prefix_append _ _)
    · intro _ buf hbuf
      cases hb.symm.trans hbuf
  | some buf =>
    obtain ⟨rest, hcut, hrest⟩ := flatten_of_onReadCalls hb hread
    have hall : (s.handled ++ calls.filterMap ProxyCall.packet).flatten ++ rest =
        s.received ++ ev.bytes := by
      rw [List.flatten_append, List.append_assoc, hcut, ← List.append_assoc,
        h.buffered (h.watched hw) buf hb]
    split
    · exact inv_disconnected ⟨rest, hall⟩ h.watched
    · next hnot =>
      refine ⟨⟨rest, hall⟩, ?_, h.watched⟩
      intro _ buf' hbuf'
      cases (hrest hnot).symm.trans hbuf'
      exact hall

theorem inv_reconnect {s : ClientLife} (hallowed : s.Allowed uid .reconnect) :
    (s.reconnect uid).Inv uid := by
  unfold reconnect
  cases hc : s.proxy.loops.findClient uid with
  | none =>
    refine ⟨List.prefix_rfl, ?_, by simp⟩
    intro _ buf hbuf
    rw [bufferOf, hc] at hbuf
    cases hbuf
  | some client =>
    refine ⟨List.prefix_rfl, ?_, by simp⟩
    intro _ buf hbuf
    rw [bufferOf_setClient hc, readBuffer_disconnect (hallowed client hc)] at hbuf
    cases hbuf
    rfl

theorem inv_step {s t : ClientLife} {event : LifeEvent} (h : s.Inv uid)
    (hallowed : s.Allowed uid event) (hstep : Step codec uid s event t) : t.Inv uid := by
  cases hstep with
  | onConnect hs => exact ⟨h.handled, h.buffered, fun _ => hs⟩
  | read hw hread => exact inv_afterRead h hw hread
  | onDisconnect =>
    unfold onDisconnect
    split
    · exact h
    · exact inv_disconnected h.handled h.watched
  | reconnect => exact inv_reconnect hallowed

theorem inv_create (hs : bufferOf uid s = some []) : (create s).Inv uid := by
  refine ⟨List.prefix_rfl, ?_, by simp [create]⟩
  intro _ buf hbuf
  cases hs.symm.trans hbuf
  rfl

/-- In every run in which a UDP client reconnects with an empty read buffer only: the packets
handled since the most recent reconnect, one after the other, are what the client has
received since, from its first byte on. -/
theorem handled_since_reconnect {events : List LifeEvent} {t : ClientLife}
    (hs : bufferOf uid s = some []) (h : Path (Allowed uid) (Step codec uid) (create s) events t) :
    t.handled.flatten <+: t.received := by
  have hinv : t.Inv uid :=
    h.invariant (fun _ _ _ hi hallowed hstep => inv_step hi hallowed hstep) (inv_create hs)
  exact hinv.handled

def clientOf (clientType : ClientType) : ProxyState where
  loops := Shards.put (.empty 1) 0 0x70001
    ⟨0x70001,"demo",⟨"10.0.0.1",80,clientType,true⟩,∅,[]⟩
  tasks := []

/-- The connection ends after four bytes of a frame; the next one brings a heartbeat frame. -/
def cutRun : List LifeEvent :=
  [.onConnect,.read (.arrival [[20,0,0,0]]),.onDisconnect,.reconnect,.onConnect,
    .read (.arrival [(MyMagicMessage.heartbeatFrame 1).bytes])]

theorem handled_since_reconnect_tcp : ∃ t, Path (Allowed 0x70001) (Step MyMagicCodec 0x70001)
    (create (clientOf .kClientTypeTcp)) cutRun t ∧
      bufferOf 0x70001 (clientOf .kClientTypeTcp) = some [] ∧ t.handled.flatten <+: t.received := by
  have hrun : ∃ t, Path (Allowed 0x70001) (Step MyMagicCodec 0x70001)
      (create (clientOf .kClientTypeTcp)) cutRun t := by
    refine ⟨_, .cons trivial (.onConnect rfl) <| .cons trivial (.read rfl (.stop rfl)) <|
      .cons trivial .onDisconnect <| .cons ?_ .reconnect <| .cons trivial (.onConnect rfl) <|
      .cons trivial (.read rfl (.again rfl (.stop rfl))) <| .nil _⟩
    intro client hc
    cases hc
    exact .inl rfl
  obtain ⟨t, ht⟩ := hrun
  exact ⟨t, ht, rfl, handled_since_reconnect rfl ht⟩

/-- A UDP client keeps the four bytes, and the first packet of the next connection begins
with them. -/
theorem packet_mixes_connections :
    ∃ t, Path (fun _ _ => True) (Step MyMagicCodec 0x70001) (create (clientOf .kClientTypeUdp))
        cutRun t ∧ bufferOf 0x70001 (clientOf .kClientTypeUdp) = some [] ∧
      t.received = (MyMagicMessage.heartbeatFrame 1).bytes ∧
      t.handled = [20 :: 0 :: 0 :: 0 :: t.received.take 16] ∧
      ¬t.handled.flatten <+: t.received := by
  refine ⟨_, .cons trivial (.onConnect rfl) <| .cons trivial (.read rfl (.stop rfl)) <|
    .cons trivial .onDisconnect <| .cons trivial .reconnect <| .cons trivial (.onConnect rfl) <|
    .cons trivial (.read rfl (.again rfl (.stop rfl))) <| .nil _, rfl, rfl, rfl, ?_⟩
  decide

end ClientLife
end EchoFrame
