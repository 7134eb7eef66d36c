import EchoFrame.ProxyCalls

/-! What the two receive loops make of a length field that is too small. -/
namespace EchoFrame
open Verif MyMagicMessage

def Decodable (packet : List Byte) : Prop := headLen ≤ packet.length ∧ (decode packet).isSome

/-- More than four bytes, and a length field below the length of a header. -/
def Malformed (buf : List Byte) : Prop := 4 < buf.length ∧ getPacketLength buf < headLen

/-- Where the packets of a buffer lead, a length field that can be read is that
of a message or, where `zero` allows it, 0. -/
def HeadsWellFormed (zero : Bool) (buf : List Byte) : Prop :=
  ∀ packets rest, Cuts getPacketLength buf packets rest → 4 < rest.length →
    headLen ≤ getPacketLength rest ∨ zero ∧ getPacketLength rest = 0

theorem decodable_iff {packet : List Byte} : Decodable packet ↔ headLen ≤ packet.length :=
  ⟨fun h => h.1, fun h => ⟨h, isSome_decode_iff.mpr h⟩⟩

theorem HeadsWellFormed.rest {zero : Bool} {buf rest : List Byte} {packets : List (List Byte)}
    (h : HeadsWellFormed zero buf) (hcut : Cuts getPacketLength buf packets rest) :
    HeadsWellFormed zero rest :=
  fun _ _ hcut' => h _ _ (hcut.trans hcut')

theorem headLen_le_of_heads {zero : Bool} {buf : List Byte} (h : HeadsWellFormed zero buf)
    (hpos : 0 < getPacketLength buf) : headLen ≤ getPacketLength buf := by
  rcases h [] buf (.nil buf) (four_lt_of_pos hpos) with hle | ⟨-, h0⟩
  · exact hle
  · exact absurd h0 hpos.ne'

/-- The packet that comes next has a whole header. -/
theorem decodable_take {zero : Bool} {buf : List Byte} (h : HeadsWellFormed zero buf)
    (hpos : 0 < getPacketLength buf) (hle : getPacketLength buf ≤ buf.length) :
    Decodable (buf.take (getPacketLength buf)) := by
  rw [decodable_iff, List.length_take, Nat.min_eq_left hle]
  exact headLen_le_of_heads h hpos

theorem not_malformed {zero : Bool} {buf : List Byte} (h : HeadsWellFormed zero buf)
    (hpos : 0 < getPacketLength buf) : ¬ Malformed buf :=
  fun hm => absurd (headLen_le_of_heads h hpos) (Nat.not_le_of_lt hm.2)

theorem decodable_of_cuts {zero : Bool} {buf rest : List Byte} {packets : List (List Byte)}
    (h : HeadsWellFormed zero buf) (hcut : Cuts getPacketLength buf packets rest) :
    ∀ packet ∈ packets, Decodable packet := by
  induction hcut with
  | nil => exact fun _ hmem => absurd hmem List.not_mem_nil
  | cons hpos hle _ ih =>
    intro packet hmem
    rcases List.mem_cons.mp hmem with rfl | hmem
    · exact decodable_take h hpos hle
    · exact ih (h.rest (.cons hpos hle (.nil _))) packet hmem

namespace MyServant

/-- Every packet that the loop of a servant cuts out can be decoded, and the
iteration that sees a malformed head closes the connection. -/
def Rejects (buf : List Byte) : Prop :=
  ∀ c, Enters (handlePacketsBody MyMagicCodec) ⟨buf,[]⟩ c →
    (∀ packet, .handlePacket packet ∈ (handlePacketsBody MyMagicCodec c).1.events →
      Decodable packet) ∧
    (Malformed c.readBuf → .removeChannel ∈ (handlePacketsBody MyMagicCodec c).1.events)

variable {c : ReadChannel} {buf rest : List Byte} {packets : List (List Byte)}

/-- Until it is left the loop has cut packets off the buffer, and closed the
connection some number of times. -/
theorem cuts_of_enters (h : Enters (handlePacketsBody MyMagicCodec) ⟨buf,[]⟩ c) :
    ∃ packets n, Cuts getPacketLength buf packets c.readBuf ∧ (0 < n → Stalled c) ∧
      c.events = packets.map .handlePacket ++ List.replicate n .removeChannel := by
  induction h with
  | start => exact ⟨[], 0, .nil _, fun h => absurd h (Nat.lt_irrefl 0), rfl⟩
  | @again t u _ hb ih =>
    obtain ⟨packets, n, hcut, hst, hev⟩ := ih
    rcases handlePacketsBody_cases t with ⟨_, hb'⟩ | ⟨hs, hb'⟩ | ⟨_, hb'⟩ | ⟨hpos, hle, hb'⟩
    · cases hb'.symm.trans hb
    · cases hb'.symm.trans hb
      refine ⟨packets, n+1, hcut, fun _ => hs, ?_⟩
      rw [ReadChannel.emit, hev, List.append_assoc, List.replicate_succ']
    · cases hb'.symm.trans hb
    · cases hb'.symm.trans hb
      have hn : n = 0 := Nat.eq_zero_of_not_pos fun hn => hpos.ne' (hst hn).2
      refine ⟨_, 0, hcut.trans (.cons hpos hle (.nil _)), fun h => absurd h (Nat.lt_irrefl 0), ?_⟩
      rw [hev, hn, List.map_append]
      simp only [List.replicate_zero, List.append_nil, List.map_cons, List.map_nil]

theorem enters_of_cuts (hcut : Cuts getPacketLength buf packets rest) (es : List ServantEvent) :
    Enters (handlePacketsBody MyMagicCodec) ⟨buf,es⟩ ⟨rest,es ++ packets.map .handlePacket⟩ := by
  induction hcut generalizing es with
  | nil =>
    rw [List.map_nil, List.append_nil]
    exact .start
  | @cons buf rest packets hpos hle _ ih =>
    have hrest := ih (es ++ [.handlePacket (buf.take (getPacketLength buf))])
    rw [List.append_assoc] at hrest
    exact .head (handlePacketsBody_packet (c := ⟨buf,es⟩) hpos hle) hrest

theorem removeChannel_not_mem (packets : List (List Byte)) :
    .removeChannel ∉ packets.map ServantEvent.handlePacket := by
  intro hmem
  obtain ⟨_, _, he⟩ := List.mem_map.mp hmem
  cases he

theorem packet_mem {packet : List Byte} {n : ℕ}
    (h : .handlePacket packet ∈
      packets.map ServantEvent.handlePacket ++ List.replicate n .removeChannel) :
    packet ∈ packets := by
  rcases List.mem_append.mp h with h | h
  · obtain ⟨_, hmem, he⟩ := List.mem_map.mp h
    cases he
    exact hmem
  · cases List.eq_of_mem_replicate h

theorem rejects_iff (buf : List Byte) : Rejects buf ↔ HeadsWellFormed true buf := by
  constructor
  · intro h packets rest hcut h4
    by_contra hbad
    obtain ⟨hlt, h0⟩ := not_or.mp hbad
    have hpos : 0 < getPacketLength rest := Nat.pos_of_ne_zero fun hz => h0 ⟨rfl, hz⟩
    have hclose := (h _ (enters_of_cuts hcut [])).2 ⟨h4, Nat.lt_of_not_le hlt⟩
    by_cases hle : getPacketLength rest ≤ rest.length
    · rw [handlePacketsBody_packet hpos hle] at hclose
      rcases List.mem_append.mp hclose with hmem | hmem
      · exact removeChannel_not_mem packets hmem
      · cases List.mem_singleton.mp hmem
    · rw [handlePacketsBody_short (Nat.lt_of_not_le hle)] at hclose
      exact removeChannel_not_mem packets hclose
  · intro h c hc
    obtain ⟨packets, n, hcut, -, hev⟩ := cuts_of_enters hc
    have hrest := h.rest hcut
    have hold {packet : List Byte} (hmem : .handlePacket packet ∈ c.events) : Decodable packet := by
      rw [hev] at hmem
      exact decodable_of_cuts h hcut packet (packet_mem hmem)
    have hsnoc {packet : List Byte} {e : ServantEvent}
        (he : .handlePacket packet = e → Decodable packet)
        (hmem : .handlePacket packet ∈ c.events ++ [e]) : Decodable packet := by
      rcases List.mem_append.mp hmem with hmem | hmem
      · exact hold hmem
      · exact he (List.mem_singleton.mp hmem)
    rcases handlePacketsBody_cases c with ⟨hnil, hb⟩ | ⟨_, hb⟩ | ⟨hlt, hb⟩ | ⟨hpos, hle, hb⟩
    · rw [hb]
      refine ⟨fun _ => hold, ?_⟩
      intro hm
      rw [hnil] at hm
      exact absurd hm.1 (Nat.not_lt_zero 4)
    · rw [hb]
      exact ⟨fun _ => hsnoc ServantEvent.noConfusion,
        fun _ => List.mem_append_right _ (List.mem_singleton_self _)⟩
    · rw [hb]
      exact ⟨fun _ => hold, fun hm => absurd hm (not_malformed hrest (by omega))⟩
    · rw [hb]
      refine ⟨fun packet => hsnoc ?_, fun hm => absurd hm (not_malformed hrest hpos)⟩
      intro he
      rw [ServantEvent.handlePacket.inj he]
      exact decodable_take hrest hpos hle

end MyServant

namespace MyProxy

/-- The same of `onRead` of a proxy, whose iterations each make at most one call. -/
def Rejects (uid : UInt32) (s : ProxyState) : Prop :=
  ∀ t, Enters (onReadBody MyMagicCodec uid) s t →
    (∀ iobuf, .handlePacket iobuf ∈ onReadCall MyMagicCodec uid t → Decodable iobuf) ∧
    ∀ buf, bufferOf uid t = some buf → Malformed buf →
      .onDisconnect ∈ onReadCall MyMagicCodec uid t

variable {uid : UInt32} {s t : ProxyState} {buf rest : List Byte} {packets : List (List Byte)}

theorem cuts_of_enters (hb : bufferOf uid s = some buf)
    (h : Enters (onReadBody MyMagicCodec uid) s t) :
    ∃ packets rest, Cuts getPacketLength buf packets rest ∧ bufferOf uid t = some rest := by
  induction h with
  | start => exact ⟨[], buf, .nil buf, hb⟩
  | again _ hbody ih =>
    obtain ⟨packets, rest, hcut, hrest⟩ := ih
    rcases onReadBody_magic hrest with ⟨_, hb', _⟩ | ⟨hpos, hle, _, u, hb', hu⟩
    · cases hb'.symm.trans hbody
    · obtain ⟨rfl, -⟩ := Prod.mk.inj (hb'.symm.trans hbody)
      exact ⟨_, _, hcut.trans (.cons hpos hle (.nil _)), hu⟩

theorem rejects_iff (hs : bufferOf uid s = some buf) : Rejects uid s ↔ HeadsWellFormed false buf := by
  constructor
  · intro h packets rest hcut
    induction hcut generalizing s with
    | nil =>
      intro h4
      by_contra hbad
      have hlt := Nat.lt_of_not_le (not_or.mp hbad).1
      have hclose := (h s .start).2 _ hs ⟨h4, hlt⟩
      rcases onReadBody_magic hs with ⟨_, _, hcall⟩ | ⟨_, _, hcall, _⟩
      · rw [hcall] at hclose
        exact absurd hclose List.not_mem_nil
      · rw [hcall] at hclose
        cases List.mem_singleton.mp hclose
    | cons hpos hle _ ih =>
      rcases onReadBody_magic hs with ⟨hw, _⟩ | ⟨_, _, hcall, t, hbody, ht⟩
      · rcases hw with h0 | hlt <;> omega
      · have hdec := (h s .start).1 _ (by rw [hcall]; exact List.mem_singleton_self _)
        rw [hdec.2] at hbody
        exact ih ht fun u hu => h u (hu.head hbody)
  · intro h t ht
    obtain ⟨packets, rest, hcut, hrest⟩ := cuts_of_enters hs ht
    have hheads := h.rest hcut
    rcases onReadBody_magic hrest with ⟨_, _, hcall⟩ | ⟨hpos, hle, hcall, _⟩
    · rw [hcall]
      refine ⟨fun _ hmem => absurd hmem List.not_mem_nil, ?_⟩
      intro buf' hbuf ⟨h4, hlt⟩
      obtain rfl := Option.some.inj (hrest.symm.trans hbuf)
      rcases hheads [] rest (.nil rest) h4 with hle | ⟨hf, -⟩
      · exact absurd hle (Nat.not_le_of_lt hlt)
      · cases hf
    · rw [hcall]
      refine ⟨?_, ?_⟩
      · intro iobuf hmem
        cases List.mem_singleton.mp hmem
        exact decodable_take hheads hpos hle
      · intro buf' hbuf hm
        obtain rfl := Option.some.inj (hrest.symm.trans hbuf)
        exact absurd hm (not_malformed hheads hpos)

end MyProxy

/-- Both sides reject malformed frames exactly where there are none: every length
field that the packets of the buffer lead to is at least that of a header. A
servant closes the connection for the length 0, a proxy does not. -/
theorem malformed_rejected_iff {uid : UInt32} {s : ProxyState} {buf : List Byte}
    (hs : MyProxy.bufferOf uid s = some buf) :
    (MyServant.Rejects buf ↔ HeadsWellFormed true buf) ∧
      (MyProxy.Rejects uid s ↔ HeadsWellFormed false buf) :=
  ⟨MyServant.rejects_iff buf, MyProxy.rejects_iff hs⟩

def oneBuffer (buf : List Byte) : ProxyState where
  loops := (ClientLoops.oneClient 0x70001).setClient 0x70001
    ⟨0x70001,"demo",⟨"127.0.0.1",8888,.kClientTypeTcp,true⟩,∅,buf⟩
  tasks := []

theorem bufferOf_oneBuffer (buf : List Byte) :
    MyProxy.bufferOf 0x70001 (oneBuffer buf) = some buf :=
  MyProxy.bufferOf_setClient (s := ⟨.oneClient 0x70001,[]⟩) rfl _

theorem malformed_rejected_heartbeat :
    let frame := heartbeatFrame 7
    MyServant.Rejects frame.bytes ∧ MyProxy.Rejects 0x70001 (oneBuffer frame.bytes) := by
  intro frame
  have hheads (zero : Bool) : HeadsWellFormed zero frame.bytes := by
    intro packets rest hcut h4
    cases hcut with
    | nil => exact .inl (by decide)
    | cons _ _ h =>
      cases h with
      | nil => exact absurd h4 (by decide)
      | cons hpos _ _ => exact absurd hpos (by decide)
  obtain ⟨hserver, hclient⟩ :=
    malformed_rejected_iff (bufferOf_oneBuffer frame.bytes)
  exact ⟨hserver.mpr (hheads true), hclient.mpr (hheads false)⟩

/-- A length field of 7 makes both sides cut out a packet without a whole header;
for a length field of 0 the proxy keeps the connection and the bytes. -/
theorem malformed_not_rejected :
    ¬ MyServant.Rejects [7,0,0,0,0,0,0] ∧
      ¬ MyProxy.Rejects 0x70001 (oneBuffer [7,0,0,0,0,0,0]) ∧
      ¬ MyProxy.Rejects 0x70001 (oneBuffer [0,0,0,0,0]) := by
  refine ⟨?_, ?_, ?_⟩
  · rw [MyServant.rejects_iff]
    exact fun h => absurd (h [] _ (.nil _) (by decide)) (by decide)
  · rw [MyProxy.rejects_iff (bufferOf_oneBuffer _)]
    exact fun h => absurd (h [] _ (.nil _) (by decide)) (by decide)
  · rw [MyProxy.rejects_iff (bufferOf_oneBuffer _)]
    exact fun h => absurd (h [] _ (.nil _) (by decide)) (by decide)

end EchoFrame
