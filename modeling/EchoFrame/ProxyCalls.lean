import EchoFrame.ConnectionIsolation
import EchoFrame.PacketCuts
import EchoFrame.TcpReads

/-! The calls that `onRead` of a proxy makes for the bytes of one connection. -/
namespace EchoFrame
open Verif

inductive ProxyCall
  | handlePacket (iobuf : List Byte)
  | onDisconnect
deriving DecidableEq, Repr

namespace MyProxy
open MyMagicMessage MyServant

def onReadCall (codec : MyCodec) (uid : UInt32) (s : ProxyState) : List ProxyCall :=
  match s.loops.findClient uid with
  | none => []
  | some client =>
    if client.readBuffer.length = 0 then []
    else match codec.isPacketComplete client.readBuffer with
      | .kPacketStatusIncomplete => []
      | .kPacketStatusError => [.onDisconnect]
      | .kPacketStatusComplete =>
        if codec.getPacketLength client.readBuffer = 0 then []
        else [.handlePacket (nextPacket codec client)]

/-- `onRead` of a proxy for the client held under `uid`, with the calls it makes. -/
def OnReadCalls (codec : MyCodec) (uid : UInt32) (ev : ReadEvent) (s : ProxyState)
    (calls : List ProxyCall) (t : ProxyState) : Prop :=
  match s.loops.findClient uid with
  | none => calls = [] ∧ t = s
  | some client =>
    let (client,rv) := client.onRead ev
    let s := { s with loops := s.loops.setClient uid client }
    if ev.closes rv then calls = [.onDisconnect] ∧ t = onDisconnect s uid client
    else Emits (onReadBody codec uid) (onReadCall codec uid) s calls t

inductive Reads (codec : MyCodec) (uid : UInt32) :
    ProxyState → List ReadEvent → List ProxyCall → ProxyState → Prop
  | nil (s : ProxyState) : Reads codec uid s [] [] s
  | cons {s t u : ProxyState} {ev : ReadEvent} {evs : List ReadEvent}
      {calls calls' : List ProxyCall} (h : OnReadCalls codec uid ev s calls t)
      (hrest : Reads codec uid t evs calls' u) :
      Reads codec uid s (ev :: evs) (calls ++ calls') u

def bufferOf (uid : UInt32) (s : ProxyState) : Option (List Byte) :=
  (s.loops.findClient uid).map MyClient.readBuffer

variable {codec : MyCodec} {uid : UInt32} {s t : ProxyState} {client : MyClient}
  {calls : List ProxyCall} {buf rest : List Byte} {packets : List (List Byte)}

theorem onRead_iff_calls (ev : ReadEvent) :
    OnRead codec uid ev.bytes ev.result s t ↔ ∃ calls, OnReadCalls codec uid ev s calls t := by
  unfold OnRead OnReadCalls
  cases s.loops.findClient uid with
  | none => simp only [exists_eq_left]
  | some client =>
    simp only [MyClient.onRead_eq, ReadEvent.closes_eq]
    cases ev.result with
    | drained => exact exits_iff_emits _
    | closed => simp only [ne_eq, reduceCtorEq, not_false_eq_true, decide_true, ↓reduceIte,
        exists_eq_left]
    | failed => simp only [ne_eq, reduceCtorEq, not_false_eq_true, decide_true, ↓reduceIte,
        exists_eq_left]

theorem bufferOf_setClient (hc : s.loops.findClient uid = some client) (c : MyClient) :
    bufferOf uid { s with loops := s.loops.setClient uid c } = some c.readBuffer := by
  rw [bufferOf, ClientLoops.findClient_setClient_self hc, Option.map_some]

theorem bufferOf_handleFrame (hb : bufferOf uid s = some buf) (iobuf : List Byte) :
    bufferOf uid (handleFrame s iobuf).1 = some buf := by
  obtain ⟨client, hc, rfl⟩ := Option.map_eq_some_iff.mp hb
  obtain ⟨next, hnext, hrest⟩ := readBuffer_handleFrame iobuf hc
  rw [bufferOf, hnext, Option.map_some, hrest]

/-- What one iteration does with the magic codec: it leaves a buffer that waits,
or takes a packet off it. -/
theorem onReadBody_magic (hb : bufferOf uid s = some buf) :
    (Waits getPacketLength buf ∧ onReadBody MyMagicCodec uid s = (s,false) ∧
      onReadCall MyMagicCodec uid s = []) ∨
    (0 < getPacketLength buf ∧ getPacketLength buf ≤ buf.length ∧
      onReadCall MyMagicCodec uid s = [.handlePacket (buf.take (getPacketLength buf))] ∧
      ∃ t, onReadBody MyMagicCodec uid s = (t,(decode (buf.take (getPacketLength buf))).isSome) ∧
        bufferOf uid t = some (buf.drop (getPacketLength buf))) := by
  obtain ⟨client, hc, rfl⟩ := Option.map_eq_some_iff.mp hb
  simp only [onReadBody, onReadCall, hc, MyMagicCodec, isPacketComplete]
  by_cases hnil : client.readBuffer.length = 0
  · rw [List.length_eq_zero_iff] at hnil
    exact .inl ⟨.inl (hnil ▸ rfl), by simp only [hnil, List.length_nil, ↓reduceIte, and_self]⟩
  by_cases hle : getPacketLength client.readBuffer ≤ client.readBuffer.length
  · by_cases h0 : getPacketLength client.readBuffer = 0
    · exact .inl ⟨.inl h0, by simp only [hnil, h0, Nat.zero_le, ↓reduceIte, and_self]⟩
    · refine .inr ⟨Nat.pos_of_ne_zero h0, hle, ?_, ?_⟩
      · simp only [hnil, hle, h0, ↓reduceIte]
        rfl
      · have hset := bufferOf_setClient hc (client.fetchPayload (getPacketLength client.readBuffer)).2
        refine ⟨_, ?_, bufferOf_handleFrame hset
          (client.readBuffer.take (getPacketLength client.readBuffer))⟩
        simp only [hnil, hle, h0, ↓reduceIte, handleFrame, MyClient.fetchPayload]
        cases decode (client.readBuffer.take (getPacketLength client.readBuffer)) <;> rfl
  · exact .inl ⟨.inr (Nat.lt_of_not_le hle), by simp only [hnil, hle, ↓reduceIte, and_self]⟩

/-- Nothing is left to cut, or a packet without a whole header has thrown its exception. -/
def Spent (packets : List (List Byte)) (rest : List Byte) : Prop :=
  Waits getPacketLength rest ∨ ∃ packet ∈ packets, packet.length < headLen

theorem Spent.append_left (packets : List (List Byte)) {packets' : List (List Byte)}
    (h : Spent packets' rest) : Spent (packets ++ packets') rest := by
  rcases h with hw | ⟨packet, hmem, hshort⟩
  · exact .inl hw
  · exact .inr ⟨packet, List.mem_append_right _ hmem, hshort⟩

theorem cuts_of_emits (hb : bufferOf uid s = some buf)
    (h : Emits (onReadBody MyMagicCodec uid) (onReadCall MyMagicCodec uid) s calls t) :
    ∃ packets rest, Cuts getPacketLength buf packets rest ∧ Spent packets rest ∧
      bufferOf uid t = some rest ∧ calls = packets.map .handlePacket := by
  induction h generalizing buf with
  | @stop s t h =>
    rcases onReadBody_magic hb with ⟨hw, hbody, hcall⟩ | ⟨hpos, hle, hcall, t', hbody, hrest⟩
    · cases hbody.symm.trans h
      exact ⟨[], buf, .nil buf, .inl hw, hb, hcall⟩
    · obtain ⟨rfl, hthrow⟩ := Prod.mk.inj (hbody.symm.trans h)
      have hshort : (buf.take (getPacketLength buf)).length < headLen := by
        by_contra hlong
        rw [isSome_decode_iff.mpr (Nat.le_of_not_lt hlong)] at hthrow
        cases hthrow
      exact ⟨_, _, .cons hpos hle (.nil _), .inr ⟨_, List.mem_cons_self, hshort⟩, hrest, hcall⟩
  | @again s t u calls h _ ih =>
    rcases onReadBody_magic hb with ⟨_, hbody, _⟩ | ⟨hpos, hle, hcall, t', hbody, hrest⟩
    · cases hbody.symm.trans h
    · obtain ⟨rfl, -⟩ := Prod.mk.inj (hbody.symm.trans h)
      obtain ⟨packets, rest, hcut, hspent, ht, rfl⟩ := ih hrest
      refine ⟨_, rest, .cons hpos hle hcut, ?_, ht, by rw [hcall]; rfl⟩
      exact hspent.append_left [buf.take (getPacketLength buf)]

theorem cuts_of_arrival {reads : List (List Byte)} (hb : bufferOf uid s = some buf)
    (h : OnReadCalls MyMagicCodec uid (.arrival reads) s calls t) :
    ∃ packets rest, Cuts getPacketLength (buf ++ reads.flatten) packets rest ∧
      Spent packets rest ∧ bufferOf uid t = some rest ∧ calls = packets.map .handlePacket := by
  obtain ⟨client, hc, rfl⟩ := Option.map_eq_some_iff.mp hb
  simp only [OnReadCalls, hc, MyClient.onRead_eq, ReadEvent.closes_eq] at h
  exact cuts_of_emits (bufferOf_setClient hc (client.receive reads.flatten)) h

theorem onReadCalls_end {ev : ReadEvent} (hend : ev.result ≠ .drained)
    (hb : bufferOf uid s = some buf) (h : OnReadCalls MyMagicCodec uid ev s calls t) :
    calls = [.onDisconnect] := by
  obtain ⟨client, hc, rfl⟩ := Option.map_eq_some_iff.mp hb
  simp only [OnReadCalls, hc, MyClient.onRead_eq, ReadEvent.closes_eq, hend, ne_eq,
    not_false_eq_true, decide_true, ↓reduceIte] at h
  exact h.1

/-- The events of a connection handle what they read as one stream. -/
theorem cuts_of_reads {arrivals : List (List (List Byte))} (hb : bufferOf uid s = some buf)
    (h : Reads MyMagicCodec uid s (arrivals.map .arrival) calls t) :
    ∃ packets rest, Cuts getPacketLength (buf ++ arrivals.flatten.flatten) packets rest ∧
      (Waits getPacketLength buf → Spent packets rest) ∧
      bufferOf uid t = some rest ∧ calls = packets.map .handlePacket := by
  induction arrivals generalizing s buf calls with
  | nil =>
    cases h
    refine ⟨[], buf, ?_, .inl, hb, rfl⟩
    rw [List.flatten_nil, List.flatten_nil, List.append_nil]
    exact .nil buf
  | cons reads arrivals ih =>
    cases h with
    | cons h hrest =>
      obtain ⟨packets, mid, hcut, hspent, ht, rfl⟩ := cuts_of_arrival hb h
      obtain ⟨packets', rest, hcut', hspent', hu, rfl⟩ := ih ht hrest
      refine ⟨packets ++ packets', rest, ?_, ?_, hu, (List.map_append).symm⟩
      · rw [List.flatten_cons, List.flatten_append, ← List.append_assoc]
        exact (hcut.append lengthStable arrivals.flatten.flatten).trans hcut'
      · -- an exception stays on record, whatever the later events do
        intro _
        rcases hspent with hw | ⟨packet, hmem, hshort⟩
        · exact (hspent' hw).append_left _
        · exact .inr ⟨packet, List.mem_append_left _ hmem, hshort⟩

theorem reads_return (codec : MyCodec) (uid : UInt32) (evs : List ReadEvent) (s : ProxyState) :
    ∃ calls t, Reads codec uid s evs calls t := by
  induction evs generalizing s with
  | nil => exact ⟨[], s, .nil s⟩
  | cons ev evs ih =>
    obtain ⟨t, ht⟩ := onRead_returns codec uid ev.bytes ev.result s
    obtain ⟨calls, hcalls⟩ := (onRead_iff_calls ev).mp ht
    obtain ⟨calls', u, hrest⟩ := ih t
    exact ⟨_, u, .cons hcalls hrest⟩

/-- The frames at the front of a stream are the first packets that it is cut into. -/
theorem frames_prefix_of_spent {frames : List Frame} {tail : List Byte}
    (hcut : Cuts getPacketLength (stream frames ++ tail) packets rest) (hspent : Spent packets rest) :
    frames.map Frame.bytes <+: packets := by
  have hframes := cuts_stream frames tail
  rcases hspent with hw | ⟨packet, hmem, hshort⟩
  · exact hcut.prefix_of_waits hw hframes
  · refine (hcut.comparable hframes).resolve_left ?_
    intro hpre
    obtain ⟨f, _, rfl⟩ := List.mem_map.mp (hpre.subset hmem)
    exact absurd f.headLen_le (Nat.not_le_of_lt hshort)

end MyProxy
end EchoFrame
