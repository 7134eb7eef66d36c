import EchoFrame.SKBufferOps
import EchoFrame.Verif.Shards

/-! The read events of UDP servants. A datagram is peeked at for its sender, and
then read by the channel that is found under the hash of the sender's address. -/
namespace EchoFrame
open Verif

def g_max_udp_packet_length : ℕ := 1500

def g_default_skbuffer_capacity : ℕ := 1024*16

structure Peer where
  ip : String
  port : UInt16
deriving DecidableEq, Repr

structure Datagram where
  sender : Peer
  bytes : List Byte
deriving DecidableEq, Repr

structure MyUdpChannel where
  socket : ℕ
  peer : Peer
  readBuf : MySKBuffer
deriving DecidableEq, Repr

/-- The UDP channels of all loops, and the datagrams that are pending on each
socket of a servant. -/
structure UdpServer where
  channels : Shards UInt64 MyUdpChannel
  queues : ℕ → List Datagram

/-- A datagram arrives at a socket, the read watcher of a servant is ready, packets
are fetched from the buffer of a channel, or a channel is removed. `junk` is what
`malloc` leaves in a block, `again` whether `errno` happens to be `EAGAIN`. -/
inductive UdpEvent
  | arrive (socket : ℕ) (d : Datagram)
  | onRead (socket : ℕ) (junk : ℕ → Byte) (again : Bool)
  | fetchPacket (uid : UInt64) (length : UInt32)
  | removeChannel (uid : UInt64)

namespace MyUdpChannel

def createUid (hash : String → UInt64) (peer : Peer) : UInt64 :=
  hash (peer.ip ++ ":" ++ toString peer.port)

/-- `onRead`, with the pending datagrams of its socket: the channel, what is still
pending, and the length read. -/
def onRead (junk : ℕ → Byte) (c : MyUdpChannel) (queue : List Datagram) :
    Option (MyUdpChannel × List Datagram × ℤ) := do
  let (readBuf, off) ← c.readBuf.writeable junk g_max_udp_packet_length
  match queue with
  | [] => some ({ c with readBuf := readBuf },[],-1)
  | d :: rest =>
    -- what does not fit is cut off
    let bytes := d.bytes.take g_max_udp_packet_length
    let readBuf ← readBuf.put off bytes
    if bytes.length = 0 then some ({ c with readBuf := readBuf },rest,-1)
    else some ({ c with readBuf := readBuf.moveWriteable bytes.length },rest,bytes.length)

end MyUdpChannel

namespace UdpServer

variable (hash : String → UInt64)

def init (n : ℕ) : UdpServer := ⟨.empty n,fun _ => []⟩

def getByUid (s : UdpServer) (uid : UInt64) : ℕ := uid.toNat%s.channels.length

def findChannel (s : UdpServer) (uid : UInt64) : Option MyUdpChannel :=
  s.channels.get? (s.getByUid uid) uid

def setChannel (s : UdpServer) (uid : UInt64) (c : MyUdpChannel) : UdpServer :=
  { s with channels := s.channels.put (s.getByUid uid) uid c }

def removeChannel (s : UdpServer) (uid : UInt64) : UdpServer :=
  { s with channels := s.channels.remove (s.getByUid uid) uid }

/-- `onRead` of the channel held under `uid`, and what `doRead` makes of its result. -/
def readChannel (junk : ℕ → Byte) (again : Bool) (s : UdpServer) (uid : UInt64)
    (channel : MyUdpChannel) : Option UdpServer := do
  let queue := s.queues channel.socket
  let (channel, rest, readLen) ← channel.onRead junk queue
  let s := { s.setChannel uid channel with
             queues := Function.update s.queues channel.socket rest }
  -- with nothing pending the error is `EAGAIN`
  if readLen ≤ 0 ∧ ¬again ∧ queue ≠ [] then some (s.removeChannel uid) else some s

def doRead (socket : ℕ) (junk : ℕ → Byte) (again : Bool) (s : UdpServer) : Option UdpServer :=
  match s.queues socket with
  | [] => some s
  | d :: _ =>
    -- the peek counts the bytes that it sees, and leaves them where they are
    if (d.bytes.take 1).length = 0 then some s
    else
      let uid := MyUdpChannel.createUid hash d.sender
      match s.findChannel uid with
      | some channel => readChannel junk again s uid channel
      | none =>
        -- there is no loop to put a channel into
        if s.channels.length = 0 then some s
        else do
          let readBuf ← MySKBuffer.create junk g_default_skbuffer_capacity
          let channel := ⟨socket,d.sender,readBuf⟩
          readChannel junk again (s.setChannel uid channel) uid channel

/-- The packet loop takes bytes off the buffer of a channel. -/
def fetchPacket (s : UdpServer) (uid : UInt64) (length : UInt32) : Option UdpServer := do
  let channel ← s.findChannel uid
  let (readBuf, _) ← channel.readBuf.getReadableAndMove length.toNat
  some (s.setChannel uid { channel with readBuf := readBuf })

/-- A watcher is ready only while something is pending. -/
def step (s : UdpServer) : UdpEvent → Option UdpServer
  | .arrive socket d =>
    some { s with queues := Function.update s.queues socket (s.queues socket ++ [d]) }
  | .onRead socket junk again =>
    if s.queues socket = [] then none else s.doRead hash socket junk again
  | .fetchPacket uid length => s.fetchPacket uid length
  | .removeChannel uid => some (s.removeChannel uid)

end UdpServer

section
open MySKBuffer

variable {c : MyUdpChannel} {d : Datagram}

/-- A channel with room reads the datagram at the head of its queue as a whole. -/
theorem MyUdpChannel.onRead_spec (junk : ℕ → Byte) (rest : List Datagram)
    (hc : c.readBuf.Ordered) (hroom : c.readBuf.Roomy g_max_udp_packet_length)
    (hcopy : c.readBuf.CopyReaches g_max_udp_packet_length) (hne : d.bytes ≠ [])
    (hlen : d.bytes.length ≤ g_max_udp_packet_length) :
    ∃ readBuf, c.onRead junk (d :: rest) =
        some ({ c with readBuf := readBuf },rest,(d.bytes.length : ℤ)) ∧
      readBuf.Ordered ∧ readBuf.contents = c.readBuf.contents ++ d.bytes := by
  let op := BufferOp.writeable g_max_udp_packet_length d.bytes d.bytes.length
  have hresp : Respects c.readBuf (op,junk) := ⟨by decide, hlen, hlen⟩
  have hasks : AsksForRoom c.readBuf (op,junk) := by
    intro length hl
    cases hl
    exact hroom
  have hkeeps : KeepsUnread c.readBuf (op,junk) := by
    intro length hl
    cases hl
    exact hcopy
  obtain ⟨readBuf, hstep, hord, hcont⟩ := step_spec hc hresp hasks
  have hall : d.bytes.take d.bytes.length = d.bytes := List.take_length
  refine ⟨readBuf, ?_, hord, ?_⟩
  · simp only [step, op, Option.bind_eq_bind, Option.bind_eq_some_iff] at hstep
    obtain ⟨⟨b, off⟩, hwrite, b', hput, hmove⟩ := hstep
    obtain rfl := Option.some.inj hmove
    have hpos : d.bytes.length ≠ 0 := fun h0 => hne (List.length_eq_zero_iff.mp h0)
    simp only [onRead, hwrite, List.take_of_length_le hlen, hput, hpos, ↓reduceIte,
      Option.bind_eq_bind, Option.bind_some]
  · have heffect := hcont le_rfl hkeeps
    simp only [op, BufferOp.effect, hall] at heffect
    exact heffect

theorem ordered_getReadableAndMove {b b' : MySKBuffer} {length : ℕ} {r : Option ℕ × ℕ}
    (hb : b.Ordered) (hl : length < 2^32) (h : b.getReadableAndMove length = some (b',r)) :
    b'.Ordered := by
  let op : BufferOp × (ℕ → Byte) := (.getReadableAndMove length,fun _ => 0)
  have hresp : Respects b op := hl
  have hasks : AsksForRoom b op := fun _ h => by cases h
  obtain ⟨b₁, hstep, hord, -⟩ := step_spec hb hresp hasks
  simp only [step, op, h, Option.bind_eq_bind, Option.bind_some] at hstep
  exact Option.some.inj hstep ▸ hord

/-- The buffer of a new channel has room. -/
theorem create_roomy (junk : ℕ → Byte) :
    ∃ b, create junk g_default_skbuffer_capacity = some b ∧ b.Ordered ∧ b.contents = [] ∧
      b.Roomy g_max_udp_packet_length ∧ b.CopyReaches g_max_udp_packet_length := by
  obtain ⟨b, hb, hord, hcont⟩ := create_spec junk g_default_skbuffer_capacity (by decide)
  have heq := Option.some.inj (hb.symm.trans (create_eq junk _ (by decide)))
  refine ⟨b, hb, hord, hcont, ?_, ?_⟩
  · rw [heq]
    refine ⟨?_, .inl ?_⟩
    · change 0+g_max_udp_packet_length < 2^32
      decide
    · change 0-0+g_max_udp_packet_length ≤ g_default_skbuffer_capacity
      decide
  · intro hgrows
    rw [heq] at hgrows
    exact absurd rfl hgrows.1

end

namespace UdpServer

variable {s : UdpServer} {c : MyUdpChannel} {uid : UInt64}

theorem fetchPacket_spec {t : UdpServer} {length : UInt32} (h : s.fetchPacket uid length = some t) :
    ∃ channel readBuf r, s.findChannel uid = some channel ∧
      channel.readBuf.getReadableAndMove length.toNat = some (readBuf,r) ∧
      t = s.setChannel uid { channel with readBuf := readBuf } := by
  simp only [fetchPacket, Option.bind_eq_bind, Option.bind_eq_some_iff] at h
  obtain ⟨channel, hfind, ⟨readBuf, r⟩, hread, ht⟩ := h
  exact ⟨channel, readBuf, r, hfind, hread, (Option.some.inj ht).symm⟩

theorem findChannel_setChannel (hn : 0 < s.channels.length) (uid' : UInt64) :
    (s.setChannel uid c).findChannel uid' = if uid = uid' then some c else s.findChannel uid' :=
  Shards.get?_put_mod s.channels hn UInt64.toNat uid c uid'

theorem findChannel_removeChannel (uid' : UInt64) :
    (s.removeChannel uid).findChannel uid' =
      if uid = uid' then none else s.findChannel uid' :=
  Shards.get?_remove_mod s.channels UInt64.toNat uid uid'

end UdpServer

/-- What a datagram that arrives at one socket does to the queue of each. -/
theorem queues_arrive (queues : ℕ → List Datagram) (socket other : ℕ) (d : Datagram) :
    Function.update queues socket (queues socket ++ [d]) other =
      queues other ++ if socket = other then [d] else [] := by
  by_cases h : socket = other
  · rw [if_pos h, ← h, Function.update_self]
  · rw [if_neg h, Function.update_of_ne (Ne.symm h), List.append_nil]

/-- What is taken from each queue when the head of one is read. -/
theorem queues_read {queues : ℕ → List Datagram} {socket : ℕ} {d : Datagram}
    {rest : List Datagram} (hq : queues socket = d :: rest) (other : ℕ) :
    ∃ taken : List Datagram, taken.length = (if socket = other then 1 else 0) ∧
      queues other = taken ++ Function.update queues socket rest other := by
  by_cases h : socket = other
  · rw [if_pos h, ← h, Function.update_self]
    exact ⟨[d], rfl, hq⟩
  · rw [if_neg h, Function.update_of_ne (Ne.symm h)]
    exact ⟨[], rfl, rfl⟩

end EchoFrame
