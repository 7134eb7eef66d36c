import EchoFrame.ReadToEnd
import EchoFrame.UdpServant
import EchoFrame.Verif.Entries
import EchoFrame.Verif.Run

/-! Several UDP servants and the one table of channels that they share. -/
namespace EchoFrame
open Verif MyMagicMessage MyServant

/-- A channel, with the socket of the servant that created it. Each byte of the read buffer
is kept with the socket that it came from, and each response of the write buffer with the
servant whose dispatcher has made it. -/
structure ServantChannel where
  uid : UInt64
  socket : ℕ
  readBuf : List (ℕ × Byte)
  writeBuf : List ℕ
deriving DecidableEq, Repr

/-- `recvfrom` on a socket in a read event of a servant; a packet that its dispatcher gets,
on a channel, with the sockets that its bytes came from; and a response that its dispatcher
has made, on its way through a socket. -/
inductive UdpAction
  | readFrom (servant socket : ℕ)
  | handlePacket (servant channel : ℕ) (origins : List ℕ) (packet : List Byte)
  | writeTo (servant socket : ℕ)
deriving DecidableEq, Repr

/-- The servant has to do with its own socket only. -/
def UdpAction.Own : UdpAction → Prop
  | readFrom servant socket => socket = servant
  | handlePacket servant _ origins packet => origins = List.replicate packet.length servant
  | writeTo servant socket => socket = servant

/-- The channels in the order of their creation, the tables of the loops, from uids to
channels, the datagrams pending on the socket of each servant, and the channel whose
packets a servant is handling. -/
structure UdpServants where
  channels : List ServantChannel
  table : Shards UInt64 ℕ
  queues : ℕ → List Datagram
  handling : ℕ → Option ℕ
  log : List UdpAction

/-- `handlePackets` is one iteration of the loop of that name, `respond i` the response to
the packet that is the `i`th entry of the log. -/
inductive UdpServantEvent
  | arrive (servant : ℕ) (d : Datagram)
  | onRead (servant : ℕ) (again : Bool)
  | handlePackets (servant : ℕ)
  | respond (i : ℕ)
  | onWrite (uid : UInt64)
  | removeChannel (uid : UInt64)
deriving DecidableEq, Repr

namespace UdpServants

def init (n : ℕ) : UdpServants := ⟨[],.empty n,fun _ => [],fun _ => none,[]⟩

def getByUid (s : UdpServants) (uid : UInt64) : ℕ := uid.toNat%s.table.length

def findChannel (s : UdpServants) (uid : UInt64) : Option ℕ := s.table.get? (s.getByUid uid) uid

def setChannel (s : UdpServants) (x : ℕ) (c : ServantChannel) : UdpServants :=
  { s with channels := s.channels.set x c }

def createChannel (s : UdpServants) (servant : ℕ) (uid : UInt64) : UdpServants :=
  { s with
    channels := s.channels ++ [⟨uid,servant,[],[]⟩]
    table := s.table.put (s.getByUid uid) uid s.channels.length }

def removeChannel (s : UdpServants) (uid : UInt64) : UdpServants :=
  { s with table := s.table.remove (s.getByUid uid) uid }

def handle (s : UdpServants) (servant : ℕ) (channel : Option ℕ) : UdpServants :=
  { s with handling := Function.update s.handling servant channel }

def readChannel (s : UdpServants) (servant x : ℕ) (c : ServantChannel) (again : Bool) :
    UdpServants :=
  let s := { s with log := s.log ++ [UdpAction.readFrom servant c.socket] }
  match s.queues c.socket with
  -- the error is `EAGAIN`
  | [] => s.handle servant (some x)
  | d :: rest =>
    let s := { s with queues := Function.update s.queues c.socket rest }
    let bytes := (d.bytes.take g_max_udp_packet_length).map fun b => (c.socket,b)
    if bytes.length = 0 ∧ ¬again then s.removeChannel c.uid
    else (s.setChannel x { c with readBuf := c.readBuf ++ bytes }).handle servant (some x)

def doRead (hash : String → UInt64) (s : UdpServants) (servant : ℕ) (again : Bool) :
    Option UdpServants :=
  match s.queues servant with
  | [] => none
  | d :: _ =>
    -- the peek sees no byte
    if (d.bytes.take 1).length = 0 then some s
    else
      let uid := MyUdpChannel.createUid hash d.sender
      match s.findChannel uid with
      | some x => (s.channels[x]?).map fun c => s.readChannel servant x c again
      | none =>
        -- there is no loop to put a channel into
        if s.table.length = 0 then some s
        else some ((s.createChannel servant uid).readChannel servant s.channels.length
          ⟨uid,servant,[],[]⟩ again)

def handlePackets (s : UdpServants) (servant x : ℕ) (c : ServantChannel) : UdpServants :=
  let (reader,again) := handlePacketsBody MyMagicCodec ⟨c.readBuf.map Prod.snd,[]⟩
  let taken := c.readBuf.length-reader.readBuf.length
  let origins := (c.readBuf.take taken).map Prod.fst
  let s := s.setChannel x { c with readBuf := c.readBuf.drop taken }
  let s := if .removeChannel ∈ reader.events then s.removeChannel c.uid else s
  let s := { s with
    log := s.log ++ (reader.events.filterMap ServantEvent.packet).map
      fun packet => UdpAction.handlePacket servant x origins packet }
  s.handle servant (if again then some x else none)

def respond (s : UdpServants) (servant x : ℕ) : UdpServants :=
  match s.channels[x]? with
  | none => s
  | some c => s.setChannel x { c with writeBuf := c.writeBuf ++ [servant] }

def onWrite (s : UdpServants) (uid : UInt64) : UdpServants :=
  match (s.findChannel uid).bind fun x => (s.channels[x]?).map fun c => (x,c) with
  | none => s
  | some (x,c) =>
    let s := s.setChannel x { c with writeBuf := [] }
    { s with log := s.log ++ c.writeBuf.map fun servant => UdpAction.writeTo servant c.socket }

/-- The loop of a servant reads when it is not handling packets. -/
def step (hash : String → UInt64) (s : UdpServants) : UdpServantEvent → Option UdpServants
  | .arrive servant d =>
    some { s with queues := Function.update s.queues servant (s.queues servant ++ [d]) }
  | .onRead servant again =>
    if s.handling servant = none then s.doRead hash servant again else none
  | .handlePackets servant => (s.handling servant).bind fun x =>
    (s.channels[x]?).map fun c => s.handlePackets servant x c
  | .respond i =>
    match s.log[i]? with
    | some (.handlePacket servant x _ _) => some (s.respond servant x)
    | _ => none
  | .onWrite uid => some (s.onWrite uid)
  | .removeChannel uid => some (s.removeChannel uid)

def Isolated (s : UdpServants) : Prop := ∀ action ∈ s.log, action.Own

def bufferOf (s : UdpServants) (x : ℕ) : List (ℕ × Byte) :=
  ((s.channels[x]?).map ServantChannel.readBuf).getD []

/-- The datagram at the head of the servant's own socket is read, and its bytes are put behind
those in the buffer of a channel for its sender that the servant has created. -/
def ReadsOwn (hash : String → UInt64) (s : UdpServants) (servant : ℕ) (t : UdpServants) : Prop :=
  ∃ d rest x c, s.queues servant = d :: rest ∧
    t.queues = Function.update s.queues servant rest ∧
    t.log = s.log ++ [.readFrom servant servant] ∧ t.handling servant = some x ∧
    t.findChannel (MyUdpChannel.createUid hash d.sender) = some x ∧ t.channels[x]? = some c ∧
    c.socket = servant ∧ c.readBuf = s.bufferOf x ++
      (d.bytes.take g_max_udp_packet_length).map fun b => (servant,b)

/-- The packet at the front of the buffer goes to the dispatcher of the servant, and all of its
bytes are from the servant's socket; where there is none, the packet loop ends. -/
def HandlesOwn (s : UdpServants) (servant x : ℕ) (t : UdpServants) : Prop :=
  let buf := (s.bufferOf x).map Prod.snd
  if 0 < getPacketLength buf ∧ getPacketLength buf ≤ buf.length then
    t.log = s.log ++ [.handlePacket servant x (List.replicate (getPacketLength buf) servant)
      (buf.take (getPacketLength buf))] ∧
    t.bufferOf x = (s.bufferOf x).drop (getPacketLength buf) ∧ t.handling servant = some x
  else t.log = s.log ∧ t.bufferOf x = s.bufferOf x ∧ t.handling servant = none

/-- What a step is for: datagrams that arrive at the socket of a servant wait there, are read
from there by its read events, their packets are handled by its dispatcher, and the responses
wait in channels with its socket and go out through it. -/
def Serves (hash : String → UInt64) (s : UdpServants) : UdpServantEvent → Prop
  | .arrive servant d => ∃ t, s.step hash (.arrive servant d) = some t ∧
      t.queues = Function.update s.queues servant (s.queues servant ++ [d])
  | .onRead servant again => s.handling servant = none → s.queues servant ≠ [] →
      ∃ t, s.step hash (.onRead servant again) = some t ∧ s.ReadsOwn hash servant t
  | .handlePackets servant => ∀ x ∈ s.handling servant,
      ∃ t, s.step hash (.handlePackets servant) = some t ∧ s.HandlesOwn servant x t
  | .respond i => ∀ servant x origins packet,
      s.log[i]? = some (.handlePacket servant x origins packet) →
      ∃ t c, s.step hash (.respond i) = some t ∧ s.channels[x]? = some c ∧ c.socket = servant ∧
        t.channels[x]? = some { c with writeBuf := c.writeBuf ++ [servant] }
  | .onWrite uid => ∀ x ∈ s.findChannel uid,
      ∃ t c, s.step hash (.onWrite uid) = some t ∧ s.channels[x]? = some c ∧
        t.log = s.log ++ List.replicate c.writeBuf.length (.writeTo c.socket c.socket) ∧
        t.channels[x]? = some { c with writeBuf := [] }
  | .removeChannel _ => True

/-- A datagram that a servant reads is not empty, there is a loop, and the channel that it finds
for the sender is its own; and its packet loop can read a length that is not 0. -/
def Allowed (hash : String → UInt64) (s : UdpServants) : UdpServantEvent → Prop
  | .onRead servant _ => s.handling servant = none → ∀ d ∈ (s.queues servant).head?,
      d.bytes ≠ [] ∧ 0 < s.table.length ∧
      ∀ x ∈ s.findChannel (MyUdpChannel.createUid hash d.sender), ∀ c ∈ s.channels[x]?,
        c.socket = servant
  | .handlePackets servant => ∀ x ∈ s.handling servant, s.bufferOf x ≠ [] →
      0 < getPacketLength ((s.bufferOf x).map Prod.snd)
  | _ => True

def arrivals (servant : ℕ) (events : List UdpServantEvent) : List Datagram :=
  events.filterMap fun
    | .arrive other d => if other = servant then some d else none
    | _ => none

def reads (servant : ℕ) (events : List UdpServantEvent) : ℕ :=
  events.countP fun
    | .onRead other _ => other = servant
    | _ => false

def socketOf (s : UdpServants) (x : ℕ) : Option ℕ := (s.channels[x]?).map ServantChannel.socket

/-- What a channel has in its buffers belongs to the servant that created it, and a servant
handles, and has handled, only packets of channels that it created. -/
structure Inv (s : UdpServants) : Prop where
  isolated : s.Isolated
  read : ∀ c ∈ s.channels, ∀ b ∈ c.readBuf, b.1 = c.socket
  written : ∀ c ∈ s.channels, ∀ servant ∈ c.writeBuf, servant = c.socket
  handling : ∀ servant x, s.handling servant = some x → s.socketOf x = some servant
  handled : ∀ servant x origins packet, .handlePacket servant x origins packet ∈ s.log →
    s.socketOf x = some servant
  table : ∀ uid x, s.findChannel uid = some x → x < s.channels.length

variable {hash : String → UInt64} {s t : UdpServants} {servant x : ℕ} {c c' : ServantChannel}

theorem socketOf_setChannel (hc : s.channels[x]? = some c) (hs : c'.socket = c.socket) (y : ℕ) :
    (s.setChannel x c').socketOf y = s.socketOf y := by
  rw [socketOf, socketOf, setChannel, ← List.getElem?_map, ← List.getElem?_map,
    map_set_of_getElem? hc hs]

theorem socketOf_setChannel_self (hc : s.channels[x]? = some c) (c' : ServantChannel) :
    (s.setChannel x c').socketOf x = some c'.socket := by
  rw [socketOf, setChannel, getElem?_set_of_getElem? hc, if_pos rfl, Option.map_some]

theorem inv_setChannel (h : s.Inv) (hc : s.channels[x]? = some c) (hs : c'.socket = c.socket)
    (hread : ∀ b ∈ c'.readBuf, b.1 = c.socket)
    (hwritten : ∀ servant ∈ c'.writeBuf, servant = c.socket) :
    (s.setChannel x c').Inv := by
  have hsocket (y : ℕ) : (s.setChannel x c').socketOf y = s.socketOf y :=
    socketOf_setChannel hc hs y
  refine ⟨h.isolated, ?_, ?_, ?_, ?_, ?_⟩
  · intro d hd
    rcases List.mem_or_eq_of_mem_set hd with hd | rfl
    · exact h.read d hd
    · rwa [hs]
  · intro d hd
    rcases List.mem_or_eq_of_mem_set hd with hd | rfl
    · exact h.written d hd
    · rwa [hs]
  · intro servant y hy
    rw [hsocket]
    exact h.handling servant y hy
  · intro servant y origins packet hmem
    rw [hsocket]
    exact h.handled servant y origins packet hmem
  · intro uid y hy
    rw [setChannel, List.length_set]
    exact h.table uid y hy

theorem inv_handle (h : s.Inv) {channel : Option ℕ}
    (hchannel : ∀ x ∈ channel, s.socketOf x = some servant) : (s.handle servant channel).Inv := by
  refine ⟨h.isolated, h.read, h.written, ?_, h.handled, h.table⟩
  intro other y hy
  dsimp only [handle] at hy
  rw [Function.update_apply] at hy
  split at hy
  · next heq =>
    rw [heq]
    exact hchannel y hy
  · exact h.handling other y hy

theorem inv_log (h : s.Inv) {actions : List UdpAction} (hown : ∀ action ∈ actions, action.Own)
    (hsocket : ∀ servant x origins packet, .handlePacket servant x origins packet ∈ actions →
      s.socketOf x = some servant) : Inv { s with log := s.log ++ actions } := by
  refine ⟨?_, h.read, h.written, h.handling, ?_, h.table⟩
  · intro action hmem
    rcases List.mem_append.mp hmem with hmem | hmem
    · exact h.isolated action hmem
    · exact hown action hmem
  · intro servant y origins packet hmem
    rcases List.mem_append.mp hmem with hmem | hmem
    · exact h.handled servant y origins packet hmem
    · exact hsocket servant y origins packet hmem

theorem inv_removeChannel (h : s.Inv) (uid : UInt64) : (s.removeChannel uid).Inv := by
  refine ⟨h.isolated, h.read, h.written, h.handling, h.handled, ?_⟩
  intro uid' x hx
  have hfind : (s.removeChannel uid).findChannel uid' =
      if uid = uid' then none else s.findChannel uid' :=
    Shards.get?_remove_mod s.table UInt64.toNat uid uid'
  rw [hfind] at hx
  split at hx
  · cases hx
  · exact h.table uid' x hx

theorem inv_queues (h : s.Inv) (queues : ℕ → List Datagram) : Inv { s with queues := queues } :=
  ⟨h.isolated, h.read, h.written, h.handling, h.handled, h.table⟩

theorem socketOf_eq (hc : s.channels[x]? = some c) : s.socketOf x = some c.socket := by
  rw [socketOf, hc, Option.map_some]

theorem findChannel_createChannel (hn : 0 < s.table.length) (servant : ℕ) (uid uid' : UInt64) :
    (s.createChannel servant uid).findChannel uid' =
      if uid = uid' then some s.channels.length else s.findChannel uid' :=
  Shards.get?_put_mod s.table hn UInt64.toNat uid s.channels.length uid'

theorem inv_createChannel (h : s.Inv) (hn : 0 < s.table.length) (servant : ℕ) (uid : UInt64) :
    (s.createChannel servant uid).Inv := by
  have hsocket {y owner : ℕ} (hy : s.socketOf y = some owner) :
      (s.createChannel servant uid).socketOf y = some owner := by
    obtain ⟨d, hd, rfl⟩ := Option.map_eq_some_iff.mp hy
    apply socketOf_eq
    rw [createChannel, List.getElem?_append_left (List.getElem?_eq_some_iff.mp hd).1, hd]
  refine ⟨h.isolated, ?_, ?_, fun owner y hy => hsocket (h.handling owner y hy),
    fun owner y origins packet hmem => hsocket (h.handled owner y origins packet hmem), ?_⟩
  · intro d hd
    rcases List.mem_append.mp hd with hd | hd
    · exact h.read d hd
    · rw [List.mem_singleton.mp hd]
      exact fun _ hb => absurd hb List.not_mem_nil
  · intro d hd
    rcases List.mem_append.mp hd with hd | hd
    · exact h.written d hd
    · rw [List.mem_singleton.mp hd]
      exact fun _ hb => absurd hb List.not_mem_nil
  · intro uid' x hx
    rw [findChannel_createChannel hn] at hx
    rw [createChannel, List.length_append, List.length_singleton]
    split at hx
    · cases hx
      omega
    · exact Nat.lt_succ_of_lt (h.table uid' x hx)

theorem inv_readChannel (h : s.Inv) (hc : s.channels[x]? = some c) (hs : c.socket = servant)
    (again : Bool) : (s.readChannel servant x c again).Inv := by
  have hmem : c ∈ s.channels := List.mem_of_getElem? hc
  have hlog : Inv { s with log := s.log ++ [UdpAction.readFrom servant c.socket] } :=
    inv_log h (by simpa [UdpAction.Own] using hs) (by simp)
  have hsocket : s.socketOf x = some servant := hs ▸ socketOf_eq hc
  unfold readChannel
  dsimp only
  split
  · exact inv_handle hlog fun y hy => Option.some.inj hy ▸ hsocket
  · next d rest hq =>
    have hqueues := inv_queues hlog (Function.update s.queues c.socket rest)
    split
    · exact inv_removeChannel hqueues c.uid
    · refine inv_handle ?_ ?_
      · refine inv_setChannel hqueues hc rfl ?_ (h.written c hmem)
        intro b hb
        rcases List.mem_append.mp hb with hb | hb
        · exact h.read c hmem b hb
        · obtain ⟨_, _, rfl⟩ := List.mem_map.mp hb
          rfl
      · intro y hy
        obtain rfl := Option.some.inj hy
        exact (socketOf_setChannel_self hc _).trans (congrArg some hs)

theorem inv_doRead (h : s.Inv) {again : Bool} (hidle : s.handling servant = none)
    (hallowed : s.Allowed hash (.onRead servant again))
    (hread : s.doRead hash servant again = some t) : t.Inv := by
  unfold doRead at hread
  split at hread
  · cases hread
  · next d rest hq =>
    split at hread
    · cases hread
      exact h
    · next hne =>
      dsimp only at hread
      split at hread
      · next x hx =>
        obtain ⟨c, hc, rfl⟩ := Option.map_eq_some_iff.mp hread
        exact inv_readChannel h hc ((hallowed hidle d (by rw [hq]; rfl)).2.2 x hx c hc) again
      · split at hread
        · cases hread
          exact h
        · next hn =>
          cases hread
          refine inv_readChannel (inv_createChannel h (Nat.pos_of_ne_zero hn) servant _) ?_ rfl
            again
          rw [createChannel, List.getElem?_concat_length]

/-- A packet is as long as what its iteration takes off the buffer. -/
theorem length_packet (buf : List Byte) :
    ∀ packet ∈ (handlePacketsBody MyMagicCodec ⟨buf,[]⟩).1.events.filterMap ServantEvent.packet,
      packet.length = buf.length-(handlePacketsBody MyMagicCodec ⟨buf,[]⟩).1.readBuf.length := by
  intro packet hpacket
  rcases handlePacketsBody_cases ⟨buf,[]⟩ with ⟨_, hb⟩ | ⟨_, hb⟩ | ⟨_, hb⟩ | ⟨_, hle, hb⟩
  · rw [hb] at hpacket
    cases hpacket
  · rw [hb] at hpacket
    cases hpacket
  · rw [hb] at hpacket
    cases hpacket
  · rw [hb] at hpacket
    obtain rfl := List.mem_singleton.mp hpacket
    rw [hb, List.length_take, List.length_drop]
    dsimp only at hle ⊢
    omega

theorem inv_handlePackets (h : s.Inv) (hc : s.channels[x]? = some c) (hs : c.socket = servant) :
    (s.handlePackets servant x c).Inv := by
  have hmem : c ∈ s.channels := List.mem_of_getElem? hc
  have hlength := length_packet (c.readBuf.map Prod.snd)
  unfold handlePackets
  dsimp only
  generalize handlePacketsBody MyMagicCodec ⟨c.readBuf.map Prod.snd,[]⟩ = result at hlength ⊢
  obtain ⟨reader, again⟩ := result
  have htaken : Inv (s.setChannel x
      { c with readBuf := c.readBuf.drop (c.readBuf.length-reader.readBuf.length) }) :=
    inv_setChannel h hc rfl (fun b hb => h.read c hmem b (List.mem_of_mem_drop hb))
      (h.written c hmem)
  have hsocket : socketOf (s.setChannel x
      { c with readBuf := c.readBuf.drop (c.readBuf.length-reader.readBuf.length) }) x =
      some servant := (socketOf_setChannel_self hc _).trans (congrArg some hs)
  refine inv_handle (inv_log ?_ ?_ ?_) ?_
  · split
    · exact inv_removeChannel htaken c.uid
    · exact htaken
  · intro action haction
    obtain ⟨packet, hpacket, rfl⟩ := List.mem_map.mp haction
    refine List.eq_replicate_iff.mpr ⟨?_, ?_⟩
    · rw [hlength packet hpacket, List.length_map, List.length_map, List.length_take]
      exact Nat.min_eq_left (Nat.sub_le _ _)
    · intro origin horigin
      obtain ⟨b, hb, rfl⟩ := List.mem_map.mp horigin
      rw [h.read c hmem b (List.mem_of_mem_take hb), hs]
  · intro owner y origins packet haction
    obtain ⟨_, _, heq⟩ := List.mem_map.mp haction
    cases heq
    split
    · exact hsocket
    · exact hsocket
  · intro y hy
    obtain ⟨_, hy⟩ := Option.ite_none_right_eq_some.mp hy
    obtain rfl := Option.some.inj hy
    split
    · exact hsocket
    · exact hsocket

theorem inv_respond (h : s.Inv) (hx : s.socketOf x = some servant) :
    (s.respond servant x).Inv := by
  unfold respond
  split
  · exact h
  · next c hc =>
    have hmem : c ∈ s.channels := List.mem_of_getElem? hc
    refine inv_setChannel h hc rfl (h.read c hmem) ?_
    intro v hv
    rcases List.mem_append.mp hv with hv | hv
    · exact h.written c hmem v hv
    · rw [List.mem_singleton.mp hv]
      exact Option.some.inj (hx.symm.trans (socketOf_eq hc))

theorem inv_onWrite (h : s.Inv) (uid : UInt64) : (s.onWrite uid).Inv := by
  unfold onWrite
  split
  · exact h
  · next x c hfound =>
    obtain ⟨y, _, hmap⟩ := Option.bind_eq_some_iff.mp hfound
    obtain ⟨c, hc, heq⟩ := Option.map_eq_some_iff.mp hmap
    cases heq
    have hmem : c ∈ s.channels := List.mem_of_getElem? hc
    refine inv_log ?_ ?_ ?_
    · refine inv_setChannel h hc rfl (h.read c hmem) ?_
      exact fun _ hv => absurd hv List.not_mem_nil
    · intro action haction
      obtain ⟨v, hv, rfl⟩ := List.mem_map.mp haction
      exact (h.written c hmem v hv).symm
    · intro owner y origins packet haction
      obtain ⟨_, _, heq⟩ := List.mem_map.mp haction
      cases heq

theorem inv_step (h : s.Inv) {event : UdpServantEvent} (hallowed : s.Allowed hash event)
    (hstep : s.step hash event = some t) : t.Inv := by
  cases event with
  | arrive servant d =>
    cases hstep
    exact inv_queues h _
  | onRead servant again =>
    obtain ⟨hidle, hstep⟩ := Option.ite_none_right_eq_some.mp hstep
    exact inv_doRead h hidle hallowed hstep
  | handlePackets servant =>
    obtain ⟨x, hx, hstep⟩ := Option.bind_eq_some_iff.mp hstep
    obtain ⟨c, hc, rfl⟩ := Option.map_eq_some_iff.mp hstep
    have hs := Option.some.inj ((socketOf_eq hc).symm.trans (h.handling servant x hx))
    exact inv_handlePackets h hc hs
  | respond i =>
    simp only [step] at hstep
    split at hstep
    · next servant x origins packet hlog =>
      cases hstep
      exact inv_respond h (h.handled servant x origins packet (List.mem_of_getElem? hlog))
    · cases hstep
  | onWrite uid =>
    cases hstep
    exact inv_onWrite h uid
  | removeChannel uid =>
    cases hstep
    exact inv_removeChannel h uid

theorem bufferOf_eq (hc : s.channels[x]? = some c) : s.bufferOf x = c.readBuf := by
  rw [bufferOf, hc]
  rfl

/-- The buffer of a new channel is empty. -/
theorem bufferOf_createChannel (s : UdpServants) (servant : ℕ) (uid : UInt64) (y : ℕ) :
    (s.createChannel servant uid).bufferOf y = s.bufferOf y := by
  unfold bufferOf createChannel
  dsimp only
  rcases Nat.lt_trichotomy y s.channels.length with hlt | rfl | hgt
  · rw [List.getElem?_append_left hlt]
  · rw [List.getElem?_concat_length, List.getElem?_eq_none le_rfl]
    rfl
  · rw [List.getElem?_eq_none (by rw [List.length_append, List.length_singleton]; omega),
      List.getElem?_eq_none hgt.le]

/-- One byte is peeked at, which an empty datagram does not have. -/
theorem peek_iff {d : Datagram} : (d.bytes.take 1).length = 0 ↔ d.bytes = [] := by
  rw [List.length_eq_zero_iff, List.take_eq_nil_iff]
  exact or_iff_right Nat.one_ne_zero

theorem readsOwn_readChannel {d : Datagram} {rest : List Datagram}
    (hc : s.channels[x]? = some c) (hs : c.socket = servant)
    (hfind : s.findChannel (MyUdpChannel.createUid hash d.sender) = some x)
    (hq : s.queues servant = d :: rest) (hne : d.bytes ≠ []) (again : Bool) :
    s.ReadsOwn hash servant (s.readChannel servant x c again) := by
  subst hs
  have hbytes : ((d.bytes.take g_max_udp_packet_length).map fun b => (c.socket,b)).length ≠ 0 := by
    rw [List.length_map, List.length_take]
    have hpos := List.length_pos_iff.mpr hne
    unfold g_max_udp_packet_length
    omega
  have hread : s.readChannel c.socket x c again =
      (setChannel { s with
        log := s.log ++ [UdpAction.readFrom c.socket c.socket]
        queues := Function.update s.queues c.socket rest } x
        { c with readBuf := c.readBuf ++
          (d.bytes.take g_max_udp_packet_length).map fun b => (c.socket,b) }).handle c.socket
            (some x) := by
    unfold readChannel
    dsimp only
    rw [hq]
    dsimp only
    rw [if_neg fun h => hbytes h.1]
  rw [hread]
  refine ⟨d, rest, x, { c with readBuf := c.readBuf ++
    (d.bytes.take g_max_udp_packet_length).map fun b => (c.socket,b) }, hq, rfl, rfl, ?_, hfind, ?_,
    rfl, ?_⟩
  · exact Function.update_self c.socket (some x) s.handling
  · dsimp only [handle, setChannel]
    rw [getElem?_set_of_getElem? hc, if_pos rfl]
  · rw [bufferOf_eq hc]

theorem serves_onRead_of_allowed (h : s.Inv) {again : Bool}
    (hallowed : s.Allowed hash (.onRead servant again)) :
    s.Serves hash (.onRead servant again) := by
  intro hidle hpending
  obtain ⟨d, rest, hq⟩ := List.exists_cons_of_ne_nil hpending
  obtain ⟨hne, hn, hown⟩ := hallowed hidle d (by rw [hq]; rfl)
  have hstep : s.step hash (.onRead servant again) = s.doRead hash servant again := if_pos hidle
  rw [hstep]
  unfold doRead
  rw [hq]
  dsimp only
  rw [if_neg (mt peek_iff.mp hne)]
  cases hfind : s.findChannel (MyUdpChannel.createUid hash d.sender) with
  | some x =>
    have hlt := h.table _ x hfind
    have hc := List.getElem?_eq_getElem hlt
    have hs := hown x hfind _ hc
    dsimp only
    rw [hc, Option.map_some]
    exact ⟨_, rfl, readsOwn_readChannel hc hs hfind hq hne again⟩
  | none =>
    dsimp only
    rw [if_neg hn.ne']
    have hc : (s.createChannel servant (MyUdpChannel.createUid hash d.sender)).channels[
        s.channels.length]? = some ⟨MyUdpChannel.createUid hash d.sender,servant,[],[]⟩ := by
      rw [createChannel, List.getElem?_concat_length]
    have hfound : (s.createChannel servant (MyUdpChannel.createUid hash d.sender)).findChannel
        (MyUdpChannel.createUid hash d.sender) = some s.channels.length := by
      rw [findChannel_createChannel hn, if_pos rfl]
    obtain ⟨d', rest', x, c, hq', hqueues, hlog, hhandling, hfind', hc', hs, hbuf⟩ :=
      readsOwn_readChannel hc rfl hfound hq hne again
    obtain ⟨rfl, rfl⟩ := List.cons.inj (hq.symm.trans hq')
    rw [bufferOf_createChannel] at hbuf
    exact ⟨_, rfl, d, rest, x, c, hq, hqueues, hlog, hhandling, hfind', hc', hs, hbuf⟩

theorem inv_init (n : ℕ) : (init n).Inv := by
  refine ⟨?_, ?_, ?_, ?_, ?_, ?_⟩
  · exact fun _ h => absurd h List.not_mem_nil
  · exact fun _ h => absurd h List.not_mem_nil
  · exact fun _ h => absurd h List.not_mem_nil
  · exact fun _ _ h => nomatch h
  · exact fun _ _ _ _ h => absurd h List.not_mem_nil
  · intro uid x hx
    rw [findChannel, init, Shards.get?_empty] at hx
    cases hx

theorem queues_handlePackets (s : UdpServants) (servant x : ℕ) (c : ServantChannel) :
    (s.handlePackets servant x c).queues = s.queues := by
  unfold handlePackets
  dsimp only [handle]
  split
  · rfl
  · rfl

theorem queues_respond (s : UdpServants) (servant x : ℕ) :
    (s.respond servant x).queues = s.queues := by
  unfold respond
  split
  · rfl
  · rfl

theorem queues_onWrite (s : UdpServants) (uid : UInt64) : (s.onWrite uid).queues = s.queues := by
  unfold onWrite
  split
  · rfl
  · rfl

/-- What a step does to the datagrams that wait for a servant. -/
theorem queues_step (h : s.Inv) {event : UdpServantEvent} (hallowed : s.Allowed hash event)
    (hstep : s.step hash event = some t) (servant : ℕ) :
    ∃ taken : List Datagram, taken.length = reads servant [event] ∧
      s.queues servant ++ arrivals servant [event] = taken ++ t.queues servant := by
  cases event with
  | arrive other d =>
    cases hstep
    refine ⟨[], rfl, ?_⟩
    dsimp only
    rw [queues_arrive, List.nil_append, arrivals]
    split <;> simp [*]
  | onRead other again =>
    obtain ⟨hidle, hread⟩ := Option.ite_none_right_eq_some.mp hstep
    have hpending : s.queues other ≠ [] := by
      intro hnil
      rw [doRead, hnil] at hread
      cases hread
    obtain ⟨t', ht', d, rest, _, _, hq, hqueues, -⟩ :=
      serves_onRead_of_allowed h hallowed hidle hpending
    obtain rfl := Option.some.inj (hstep.symm.trans ht')
    obtain ⟨taken, hlen, htaken⟩ := queues_read hq servant
    refine ⟨taken, ?_, ?_⟩
    · simp only [hlen, reads, List.countP_singleton, decide_eq_true_eq]
    · rw [hqueues, ← htaken]
      exact List.append_nil _
  | handlePackets other =>
    obtain ⟨x, _, hstep⟩ := Option.bind_eq_some_iff.mp hstep
    obtain ⟨c, _, rfl⟩ := Option.map_eq_some_iff.mp hstep
    rw [queues_handlePackets]
    exact ⟨[], rfl, List.append_nil _⟩
  | respond i =>
    simp only [step] at hstep
    split at hstep
    · cases hstep
      rw [queues_respond]
      exact ⟨[], rfl, List.append_nil _⟩
    · cases hstep
  | onWrite uid =>
    cases hstep
    rw [queues_onWrite]
    exact ⟨[], rfl, List.append_nil _⟩
  | removeChannel uid =>
    cases hstep
    exact ⟨[], rfl, List.append_nil _⟩

end UdpServants
end EchoFrame
