import EchoFrame.PooledServant
import EchoFrame.SKBufferFifo
import EchoFrame.UdpServant
import Mathlib.Data.Fintype.Basic

/-! The servant on its real buffers. A TCP channel reads into one `MySKBuffer` and writes from
another; as long as they need not grow, the servant does what it does on queues of bytes. -/
namespace EchoFrame
open Verif MyMagicMessage MyServant

namespace MySKBuffer

variable {b : MySKBuffer} {bytes : List Byte}

structure Holds (b : MySKBuffer) (bytes : List Byte) : Prop where
  ordered : b.Ordered
  contents : b.contents = bytes
  capacity : b.head.capacity = g_default_skbuffer_capacity

theorem Holds.length (h : b.Holds bytes) : b.head.writeable-b.head.readable = bytes.length := by
  rw [← h.contents, length_contents h.ordered]

theorem Holds.getReadableLength (h : b.Holds bytes) : b.getReadableLength = some bytes.length := by
  rw [getReadableLength_eq h.ordered, h.length]

theorem Holds.exposed (h : b.Holds bytes) (length : ℕ) :
    b.exposed length = some (bytes.take length) := by
  rw [exposed_eq h.ordered, h.contents]

theorem holds_create (junk : ℕ → Byte) :
    ∃ b, create junk g_default_skbuffer_capacity = some b ∧ b.Holds [] := by
  have hlt : g_default_skbuffer_capacity < 2^32 := by decide
  obtain ⟨b, hb, hordered, hnil⟩ := create_spec junk g_default_skbuffer_capacity hlt
  refine ⟨b, hb, hordered, hnil, ?_⟩
  rw [create_eq junk g_default_skbuffer_capacity hlt] at hb
  rw [← Option.some.inj hb]

/-- A request that fits beside the unread bytes is served in the block as it is. -/
theorem makeRoom_of_holds (junk : ℕ → Byte) (h : b.Holds bytes) {length : ℕ}
    (hfits : bytes.length+length ≤ g_default_skbuffer_capacity) :
    ∃ b', b.makeRoom junk length = some b' ∧ b'.Holds bytes ∧
      b'.head.writeable+length ≤ b'.head.capacity := by
  obtain ⟨hordered, hcontents, hcapacity, hused⟩ := rewind_spec h.ordered
  have hlength := h.length
  have hwriteable := hordered.writeable_le
  have hsmall : g_default_skbuffer_capacity = 16384 := rfl
  rw [h.capacity] at hcapacity
  have hl : length < 2^32 := by omega
  rcases makeRoom_cases junk length hl h.ordered with ⟨hroom, hin⟩ | ⟨hroom, _, _⟩ | ⟨_, _, hgrows⟩
  · refine ⟨b.rewind, hroom, ⟨hordered, hcontents.trans h.contents, hcapacity⟩, ?_⟩
    rw [h.capacity] at hin
    omega
  · obtain ⟨b', hsort, hordered', hcontents', hhead⟩ := sort_spec hordered
    refine ⟨b', hroom.trans hsort, ⟨hordered', ?_, ?_⟩, ?_⟩
    · rw [hcontents', hcontents, h.contents]
    · rw [hhead]
      exact hcapacity
    · rw [hhead]
      dsimp only
      omega
  · rw [h.capacity, hlength] at hgrows
    exact absurd hfits (Nat.not_le.mpr hgrows)

/-- The bytes that a caller stores in the region that it gets. -/
theorem holds_fill (h : b.Holds bytes) {length : ℕ} {more : List Byte}
    (hfit : b.head.writeable+length ≤ b.head.capacity) (hmore : more.length ≤ length) :
    ∃ b', b.put b.head.writeable more = some b' ∧ b'.head = b.head ∧
      (b'.moveWriteable more.length).Holds (bytes ++ more) := by
  obtain ⟨b', hput, hhead, hordered, hcontents⟩ := fill_spec h.ordered hfit hmore hmore
  refine ⟨b', hput, hhead, hordered, ?_, ?_⟩
  · rw [hcontents le_rfl, h.contents, List.take_length]
  · exact (congrArg SKBufferHead.capacity hhead).trans h.capacity

/-- A read of the socket into the region of `writeable`. -/
theorem holds_writeable (junk : ℕ → Byte) (h : b.Holds bytes) {length : ℕ} {more : List Byte}
    (hfits : bytes.length+length ≤ g_default_skbuffer_capacity) (hmore : more.length ≤ length) :
    ∃ b', b.step (.writeable length more more.length, junk) = some b' ∧
      b'.Holds (bytes ++ more) := by
  obtain ⟨b₁, hroom, h₁, hfit⟩ := makeRoom_of_holds junk h hfits
  obtain ⟨b₂, hput, _, h₂⟩ := holds_fill h₁ hfit hmore
  refine ⟨b₂.moveWriteable more.length, ?_, h₂⟩
  simp only [step, writeable, hroom, hput, Option.bind_eq_bind, Option.bind_some]

/-- A response that is copied into the region of `getWriteableAndMove`. -/
theorem holds_getWriteableAndMove (junk : ℕ → Byte) (h : b.Holds bytes) {more : List Byte}
    (hfits : bytes.length+more.length ≤ g_default_skbuffer_capacity) :
    ∃ b', b.step (.getWriteableAndMove more, junk) = some b' ∧ b'.Holds (bytes ++ more) := by
  obtain ⟨b₁, hroom, h₁, hfit⟩ := makeRoom_of_holds junk h hfits
  obtain ⟨b₂, hput, _, h₂⟩ := holds_fill h₁ hfit le_rfl
  refine ⟨b₂.moveWriteable more.length, ?_, h₂⟩
  obtain ⟨data, hstore, hput⟩ := Option.bind_eq_some_iff.mp hput
  obtain rfl := Option.some.inj hput
  simp only [step, getWriteableAndMove, hroom, put, moveWriteable, hstore, Option.bind_eq_bind,
    Option.bind_some]

theorem holds_moveReadable (h : b.Holds bytes) {length : ℕ} (hle : length ≤ bytes.length) :
    (b.moveReadable length).Holds (bytes.drop length) := by
  rw [← h.length] at hle
  obtain ⟨hordered, hcontents⟩ := moveReadable_spec h.ordered hle
  exact ⟨hordered, by rw [hcontents, h.contents], h.capacity⟩

/-- `getReadableAndMove(&length)` with as many bytes there, and the bytes at the pointer. -/
theorem getReadableAndMove_of_holds (h : b.Holds bytes) {length : ℕ} (hpos : 0 < length)
    (hle : length ≤ bytes.length) :
    b.getReadableAndMove length = some (b.moveReadable length, some b.head.readable, length) ∧
      load b.data b.head.readable length = some (bytes.take length) := by
  have hlength := h.length
  have hdata := h.ordered.data_len
  have hwriteable := h.ordered.writeable_le
  constructor
  · unfold getReadableAndMove
    rw [h.getReadableLength, Option.bind_eq_bind, Option.bind_some, if_neg (by omega),
      if_neg (by omega)]
  · rw [load_eq_some (by omega), ← h.contents, contents, List.take_take, Nat.min_eq_left (by omega)]

end MySKBuffer

abbrev ReadPiece := { bytes : List Byte // bytes.length ≤ 1024 }

def ReadPiece.none : ReadPiece := ⟨[], Nat.zero_le _⟩

structure BufferedChannel where
  readBuf : MySKBuffer
  writeBuf : MySKBuffer
  events : List ServantEvent := []
  handling : Bool := false
  accepted : List Byte := []
  removed : Bool := false

namespace BufferedChannel

/-- The constructor of the channel; `junk` is what `malloc` leaves in a block. -/
def create (junk : ℕ → Byte) : Option BufferedChannel := do
  let readBuf ← MySKBuffer.create junk g_default_skbuffer_capacity
  let writeBuf ← MySKBuffer.create junk g_default_skbuffer_capacity
  some { readBuf, writeBuf }

def readOnce (junk : ℕ → Byte) (c : BufferedChannel) (piece : ReadPiece) :
    Option BufferedChannel := do
  let readBuf ← c.readBuf.step (.writeable 1024 piece.1 piece.1.length, junk)
  some { c with readBuf }

/-- `onRead`, up to the `read` that finds nothing more, which asks for room as well. -/
def onRead (junk : ℕ → Byte) (c : BufferedChannel) (reads : List ReadPiece) :
    Option BufferedChannel :=
  (reads ++ [ReadPiece.none]).foldlM (readOnce junk) c

def fetchPacket (c : BufferedChannel) (length : ℕ) : Option (List Byte × BufferedChannel) := do
  let (readBuf, ptr, readLen) ← c.readBuf.getReadableAndMove length
  let packet ← match ptr with
    | none => some []
    | some off => load readBuf.data off readLen
  some (packet, { c with readBuf })

def emit (c : BufferedChannel) (events : List ServantEvent) : BufferedChannel :=
  { c with events := c.events ++ events }

def onReadComplete (c : BufferedChannel) (buf : List Byte) : Option BufferedChannel :=
  let packetLen := MyMagicMessage.getPacketLength buf
  if packetLen = 0 then some (c.emit [.removeChannel])
  else do
    let (packet, c) ← c.fetchPacket packetLen
    some (c.emit [.handlePacket packet])

def handlePacketsBody (c : BufferedChannel) : Option (BufferedChannel × Bool) := do
  let len ← c.readBuf.getReadableLength
  if len = 0 then some (c, false)
  else
    let buf ← c.readBuf.exposed len
    match isPacketComplete buf with
    | .kPacketStatusIncomplete => some (c, false)
    | .kPacketStatusError => some (c.emit [.handleClose, .removeChannel], false)
    | .kPacketStatusComplete => do
      let c ← c.onReadComplete buf
      some (c, true)

def sendPayload (junk : ℕ → Byte) (c : BufferedChannel) (rsp : List Byte) :
    Option BufferedChannel :=
  if c.removed then some c
  else do
    let writeBuf ← c.writeBuf.step (.getWriteableAndMove rsp, junk)
    some { c with writeBuf }

def onWrite (c : BufferedChannel) (rooms : List ℕ) : Option BufferedChannel :=
  if c.removed then some c
  else do
    let len ← c.writeBuf.getReadableLength
    let buf ← c.writeBuf.exposed len
    let send := WriteChannel.writeLoop len rooms 0
    some { c with
      writeBuf := c.writeBuf.moveReadable len, accepted := c.accepted ++ buf.take send
      removed := send < len }

structure Backs (b : BufferedChannel) (c : ServedChannel) : Prop where
  read : b.readBuf.Holds c.reader.readBuf
  write : b.writeBuf.Holds c.writer.writeBuf
  events : b.events = c.reader.events
  handling : b.handling = c.handling
  accepted : b.accepted = c.writer.accepted
  removed : b.removed = c.writer.removed

variable {b : BufferedChannel} {c : ServedChannel}

theorem backs_create (junk : ℕ → Byte) : ∃ b, create junk = some b ∧ b.Backs {} := by
  obtain ⟨buffer, hcreate, hholds⟩ := MySKBuffer.holds_create junk
  refine ⟨{ readBuf := buffer, writeBuf := buffer }, ?_, hholds, hholds, rfl, rfl, rfl, rfl⟩
  simp only [create, hcreate, Option.bind_eq_bind, Option.bind_some]

/-- What a channel has read is there, as long as each `read` finds its 1024 bytes of room. -/
theorem backs_reads (junk : ℕ → Byte) {reads : List ReadPiece} (h : b.Backs c)
    (hfits : c.reader.readBuf.length+(reads.map (·.1)).flatten.length+1024 ≤
      g_default_skbuffer_capacity) :
    ∃ b', reads.foldlM (readOnce junk) b = some b' ∧
      b'.Backs { c with reader := c.reader.receive (reads.map (·.1)).flatten } := by
  induction reads generalizing b c with
  | nil =>
    refine ⟨b, rfl, ?_⟩
    have hsame : c.reader.receive [] = c.reader := by
      unfold ReadChannel.receive
      rw [List.append_nil]
    rw [List.map_nil, List.flatten_nil, hsame]
    exact h
  | cons piece reads ih =>
    rw [List.map_cons, List.flatten_cons, List.length_append] at hfits
    obtain ⟨readBuf, hstep, hholds⟩ := MySKBuffer.holds_writeable junk h.read
      (by omega : c.reader.readBuf.length+1024 ≤ _) piece.2
    have hmid : Backs { b with readBuf } { c with reader := c.reader.receive piece.1 } :=
      ⟨hholds, h.write, h.events, h.handling, h.accepted, h.removed⟩
    have hroom : (c.reader.readBuf ++ piece.1).length+(reads.map (·.1)).flatten.length+1024 ≤
        g_default_skbuffer_capacity := by
      rw [List.length_append]
      omega
    obtain ⟨b', hreads, hbacks⟩ := ih hmid hroom
    refine ⟨b', ?_, ?_⟩
    · rw [List.foldlM_cons, readOnce, hstep]
      exact hreads
    · rw [List.map_cons, List.flatten_cons]
      have hboth : (c.reader.receive piece.1).receive (reads.map (·.1)).flatten =
          c.reader.receive (piece.1 ++ (reads.map (·.1)).flatten) := by
        unfold ReadChannel.receive
        rw [List.append_assoc]
      rw [← hboth]
      exact hbacks

theorem backs_onRead (junk : ℕ → Byte) {reads : List ReadPiece} (h : b.Backs c)
    (hfits : c.reader.readBuf.length+(reads.map (·.1)).flatten.length+1024 ≤
      g_default_skbuffer_capacity) :
    ∃ b', b.onRead junk reads = some b' ∧
      b'.Backs { c with reader := c.reader.receive (reads.map (·.1)).flatten } := by
  have hlast : ((reads ++ [ReadPiece.none]).map (·.1)).flatten = (reads.map (·.1)).flatten := by
    rw [List.map_append, List.flatten_append]
    exact List.append_nil _
  rw [← hlast] at hfits ⊢
  exact backs_reads junk h hfits

/-- A packet leaves both as it was cut off. -/
theorem backs_fetchPacket (h : b.Backs c) {length : ℕ} (hpos : 0 < length)
    (hle : length ≤ c.reader.readBuf.length) :
    ∃ b', b.fetchPacket length = some (c.reader.readBuf.take length, b') ∧
      b'.Backs { c with reader := (c.reader.fetchPacket length).2 } := by
  obtain ⟨hmove, hload⟩ := MySKBuffer.getReadableAndMove_of_holds h.read hpos hle
  refine ⟨{ b with readBuf := b.readBuf.moveReadable length }, ?_, ?_⟩
  · unfold fetchPacket
    rw [hmove]
    simp only [Option.bind_eq_bind, Option.bind_some]
    exact congrArg (Option.bind · _) hload
  · exact ⟨MySKBuffer.holds_moveReadable h.read hle, h.write, h.events, h.handling, h.accepted,
      h.removed⟩

theorem backs_emit (h : b.Backs c) (events : List ServantEvent) :
    (b.emit events).Backs { c with reader := c.reader.emit events } :=
  ⟨h.read, h.write, congrArg (· ++ events) h.events, h.handling, h.accepted, h.removed⟩

theorem backs_onReadComplete (h : b.Backs c)
    (hcomplete : getPacketLength c.reader.readBuf ≤ c.reader.readBuf.length) :
    ∃ b', b.onReadComplete c.reader.readBuf = some b' ∧ b'.Backs { c with
      reader := MyServant.onReadComplete MyMagicCodec c.reader c.reader.readBuf } := by
  unfold onReadComplete MyServant.onReadComplete
  have hlength : MyMagicCodec.getPacketLength c.reader.readBuf =
      getPacketLength c.reader.readBuf := rfl
  rw [hlength]
  by_cases hzero : getPacketLength c.reader.readBuf = 0
  · rw [if_pos hzero]
    dsimp only
    rw [if_pos hzero]
    exact ⟨_, rfl, backs_emit h _⟩
  · obtain ⟨b', hfetch, hbacks⟩ := backs_fetchPacket h (Nat.pos_of_ne_zero hzero) hcomplete
    rw [if_neg hzero, hfetch]
    dsimp only
    rw [if_neg hzero]
    exact ⟨_, rfl, backs_emit hbacks _⟩

/-- An iteration of `handlePackets` on the buffer is the one on its bytes. -/
theorem backs_handlePacketsBody (h : b.Backs c) :
    ∃ b', b.handlePacketsBody =
        some (b', (MyServant.handlePacketsBody MyMagicCodec c.reader).2) ∧
      b'.Backs { c with reader := (MyServant.handlePacketsBody MyMagicCodec c.reader).1 } := by
  unfold handlePacketsBody MyServant.handlePacketsBody
  rw [h.read.getReadableLength, Option.bind_eq_bind, Option.bind_some, h.read.exposed,
    List.take_length]
  by_cases hnil : c.reader.readBuf.length = 0
  · rw [if_pos hnil, if_pos hnil]
    exact ⟨b, rfl, h⟩
  · rw [if_neg hnil, if_neg hnil]
    have hstatus : MyMagicCodec.isPacketComplete c.reader.readBuf =
        isPacketComplete c.reader.readBuf := rfl
    rw [hstatus, Option.bind_eq_bind, Option.bind_some]
    by_cases hcomplete : getPacketLength c.reader.readBuf ≤ c.reader.readBuf.length
    · obtain ⟨b', hdone, hbacks⟩ := backs_onReadComplete h hcomplete
      rw [isPacketComplete, if_pos hcomplete]
      dsimp only
      rw [hdone]
      exact ⟨b', rfl, hbacks⟩
    · rw [isPacketComplete, if_neg hcomplete]
      exact ⟨b, rfl, h⟩

theorem backs_sendPayload (junk : ℕ → Byte) (h : b.Backs c) {rsp : List Byte}
    (hfits : c.writer.removed = false →
      c.writer.writeBuf.length+rsp.length ≤ g_default_skbuffer_capacity) :
    ∃ b', b.sendPayload junk rsp = some b' ∧ b'.Backs (c.sendPayload rsp) := by
  unfold sendPayload ServedChannel.sendPayload
  rw [h.removed]
  cases hremoved : c.writer.removed with
  | true => exact ⟨b, rfl, h⟩
  | false =>
    obtain ⟨writeBuf, hstep, hholds⟩ :=
      MySKBuffer.holds_getWriteableAndMove junk h.write (hfits hremoved)
    rw [if_neg Bool.false_ne_true, if_neg Bool.false_ne_true, hstep]
    exact ⟨_, rfl, h.read, hholds, h.events, h.handling, h.accepted, hremoved.symm⟩

theorem backs_onWrite (h : b.Backs c) (rooms : List ℕ) :
    ∃ b' writer, b.onWrite rooms = some b' ∧ c.writer.step (.onWrite rooms) = some writer ∧
      b'.Backs { c with writer } := by
  unfold onWrite
  rw [h.removed]
  cases hremoved : c.writer.removed with
  | true => exact ⟨b, c.writer, rfl, if_pos hremoved, h⟩
  | false =>
    have hmove := MySKBuffer.holds_moveReadable h.write le_rfl
    rw [List.drop_length] at hmove
    have hloop := WriteChannel.writeLoop_eq c.writer.writeBuf.length rooms (Nat.zero_le _)
    rw [if_neg Bool.false_ne_true, h.write.getReadableLength, Option.bind_eq_bind,
      Option.bind_some, h.write.exposed, List.take_length, Option.bind_eq_bind, Option.bind_some]
    refine ⟨_, _, rfl, WriteChannel.step_onWrite hremoved rooms, h.read, hmove, h.events,
      h.handling, ?_, ?_⟩
    · dsimp only
      rw [h.accepted, hloop, Nat.zero_add]
      congr 1
      rcases Nat.le_total c.writer.writeBuf.length (WriteChannel.roomBefore rooms) with hle | hle
      · rw [Nat.min_eq_left hle, List.take_length, List.take_of_length_le hle]
      · rw [Nat.min_eq_right hle]
    · dsimp only
      rw [hloop, Nat.zero_add]
      congr 1
      exact propext (by omega)

end BufferedChannel

variable {κ : Type} [DecidableEq κ]

structure BufferedServant (κ : Type) where
  channels : κ → BufferedChannel
  handlerExecutor : PoolLife (HandlerJob κ)

namespace BufferedServant

def initial (junk : ℕ → Byte) (num : ℕ) : Option (BufferedServant κ) := do
  let c ← BufferedChannel.create junk
  some { channels := fun _ => c, handlerExecutor := { workers_ := List.replicate num {} } }

def setChannel (s : BufferedServant κ) (k : κ) (c : BufferedChannel) : BufferedServant κ :=
  { s with channels := Function.update s.channels k c }

def exec (s : BufferedServant κ) (job : HandlerJob κ) : BufferedServant κ :=
  { s with handlerExecutor := s.handlerExecutor.exec job }

def handle (k : κ) (s : BufferedServant κ) : ServantEvent → BufferedServant κ
  | .handlePacket packet => s.exec (.handlePacket k packet)
  | .handleClose => s.exec .notify
  | .removeChannel => s.setChannel k { s.channels k with removed := true }

def runJob (junk : ℕ → Byte) (dispatchPayload : DispatchPayload) (s : BufferedServant κ) :
    HandlerJob κ → Option (BufferedServant κ)
  | .handlePacket k packet =>
    match MyDispatcher.handlePacket (MyMagicDispatcher.dispatchPacket dispatchPayload) packet
        true with
    | .ok answer =>
      (answer.sent.foldlM (BufferedChannel.sendPayload junk) (s.channels k)).map (s.setChannel k)
    | .error .skBufferOverflow => some s
    | .error _ => none
  | .notify => some s

inductive Event (κ : Type)
  | onRead (k : κ) (reads : List ReadPiece)
  | handlePackets (k : κ)
  | notify
  | work (i : ℕ) (notified : Bool)
  | onWrite (k : κ) (rooms : List ℕ)
  | remove (k : κ)

def step (junk : ℕ → Byte) (dispatchPayload : DispatchPayload) (s : BufferedServant κ) :
    Event κ → Option (BufferedServant κ)
  | .onRead k reads =>
    let c := s.channels k
    if c.handling || c.removed then none
    else (c.onRead junk reads).map fun d => s.setChannel k { d with handling := true }
  | .handlePackets k =>
    let c := s.channels k
    if c.handling then
      c.handlePacketsBody.map fun (d, again) =>
        (d.events.drop c.events.length).foldl (handle k)
          (s.setChannel k { d with handling := again })
    else none
  | .notify => some (s.exec .notify)
  | .work i notified =>
    match s.handlerExecutor.step (.work i notified) with
    | none => none
    | some pool =>
      (pool.ran.drop s.handlerExecutor.ran.length).foldlM (runJob junk dispatchPayload)
        { s with handlerExecutor := pool }
  | .onWrite k rooms => ((s.channels k).onWrite rooms).map (s.setChannel k)
  | .remove k => some (s.setChannel k { s.channels k with removed := true })

def Event.plain : Event κ → PooledServant.Event κ
  | .onRead k reads => .onRead k (reads.map (·.1)).flatten
  | .handlePackets k => .handlePackets k
  | .notify => .notify
  | .work i notified => .work i notified
  | .onWrite k rooms => .onWrite k rooms
  | .remove k => .remove k

end BufferedServant

/-- No buffer has to grow: every channel has the room that its next `read` asks for, and what it
has to write fits the block. -/
def PooledServant.Small (s : PooledServant κ) : Prop :=
  ∀ k, (s.channels k).reader.readBuf.length+1024 ≤ g_default_skbuffer_capacity ∧
    (s.channels k).writer.writeBuf.length ≤ g_default_skbuffer_capacity

instance [Fintype κ] (s : PooledServant κ) : Decidable s.Small :=
  inferInstanceAs (Decidable (∀ _ : κ, _))

def PooledServant.StaysSmall (dispatchPayload : DispatchPayload) (s : PooledServant κ)
    (event : PooledServant.Event κ) : Prop :=
  ∀ t ∈ s.step dispatchPayload event, t.Small

instance [Fintype κ] (dispatchPayload : DispatchPayload) (s : PooledServant κ)
    (event : PooledServant.Event κ) : Decidable (s.StaysSmall dispatchPayload event) :=
  inferInstanceAs (Decidable (∀ t ∈ _, _))

namespace BufferedServant

structure Backs (b : BufferedServant κ) (s : PooledServant κ) : Prop where
  channels : ∀ k, (b.channels k).Backs (s.channels k)
  handlerExecutor : b.handlerExecutor = s.handlerExecutor

variable {b : BufferedServant κ} {s : PooledServant κ} {dispatchPayload : DispatchPayload}

theorem backs_setChannel (h : b.Backs s) (k : κ) {c : BufferedChannel} {d : ServedChannel}
    (hk : c.Backs d) : (b.setChannel k c).Backs (s.setChannel k d) where
  channels k' := by
    rw [setChannel, PooledServant.setChannel]
    dsimp only
    by_cases heq : k' = k
    · subst heq
      rw [Function.update_self, Function.update_self]
      exact hk
    · rw [Function.update_of_ne heq, Function.update_of_ne heq]
      exact h.channels k'
  handlerExecutor := h.handlerExecutor

omit [DecidableEq κ] in
theorem backs_exec (h : b.Backs s) (job : HandlerJob κ) : (b.exec job).Backs (s.exec job) where
  channels := h.channels
  handlerExecutor := congrArg (·.exec job) h.handlerExecutor

theorem backs_removed {c : BufferedChannel} {d : ServedChannel} (h : c.Backs d) :
    BufferedChannel.Backs { c with removed := true } d.remove :=
  ⟨h.read, h.write, h.events, h.handling, h.accepted, rfl⟩

theorem backs_handle (h : b.Backs s) (k : κ) (events : List ServantEvent) :
    (events.foldl (handle k) b).Backs (events.foldl (PooledServant.handle k) s) := by
  induction events generalizing b s with
  | nil => exact h
  | cons event events ih =>
    apply ih
    cases event with
    | handlePacket packet => exact backs_exec h _
    | handleClose => exact backs_exec h _
    | removeChannel => exact backs_setChannel h k (backs_removed (h.channels k))

/-- A packet is answered with one response at most. -/
theorem sent_of_handlePacket {dispatchPacket : List Byte → Bool → Except Fault Dispatched}
    {packet : List Byte} {needResponse : Bool} {answer : Answer}
    (h : MyDispatcher.handlePacket dispatchPacket packet needResponse = .ok answer) :
    answer.sent = [] ∨ ∃ rsp, answer.sent = [rsp] := by
  unfold MyDispatcher.handlePacket at h
  cases hout : dispatchPacket packet needResponse with
  | error fault =>
    rw [hout] at h
    cases h
  | ok out =>
    rw [hout] at h
    simp only [bind, Except.bind] at h
    split at h
    · cases h
      exact .inl rfl
    · split at h
      · cases hrsp : out.response with
        | none =>
          rw [hrsp] at h
          cases h
        | some rsp =>
          rw [hrsp] at h
          cases h
          dsimp only
          split
          · exact .inr ⟨rsp, rfl⟩
          · exact .inl rfl
      · cases h
        exact .inl rfl

/-- A step of a worker runs one job at most. -/
theorem ran_of_run {α : Type} {thread thread' : MyThread α} {queue queue' ran : List α}
    {notified : Bool} (h : thread.run queue notified = some (thread', queue', ran)) :
    ran = [] ∨ ∃ job, ran = [job] := by
  rcases thread with ⟨exit_, exit_after_done_, point⟩
  cases point with
  | running job =>
    cases h
    exact .inr ⟨job, rfl⟩
  | left => cases h
  | _ =>
    cases h
    exact .inl rfl

/-- A job does the same on both, if the buffer has room for its answer. -/
theorem backs_runJob (junk : ℕ → Byte) (h : b.Backs s) (job : HandlerJob κ)
    (hsmall : ∀ t, s.runJob dispatchPayload job = some t → t.Small) :
    Option.Rel Backs (b.runJob junk dispatchPayload job) (s.runJob dispatchPayload job) := by
  cases job with
  | notify => exact .some h
  | handlePacket k packet =>
    unfold runJob PooledServant.runJob at *
    dsimp only at hsmall ⊢
    cases hanswer : MyDispatcher.handlePacket (MyMagicDispatcher.dispatchPacket dispatchPayload)
        packet true with
    | error fault =>
      cases fault with
      | skBufferOverflow => exact .some h
      | _ => exact .none
    | ok answer =>
      rw [hanswer] at hsmall
      dsimp only at hsmall ⊢
      rcases sent_of_handlePacket hanswer with hsent | ⟨rsp, hsent⟩
      · rw [hsent]
        exact .some (backs_setChannel h k (h.channels k))
      · rw [hsent] at hsmall ⊢
        have hafter := (hsmall _ rfl k).2
        rw [PooledServant.channels_setChannel, if_pos rfl] at hafter
        have hfits : (s.channels k).writer.removed = false →
            (s.channels k).writer.writeBuf.length+rsp.length ≤ g_default_skbuffer_capacity := by
          intro hremoved
          rw [List.foldl_cons, List.foldl_nil, ServedChannel.sendPayload, hremoved,
            if_neg Bool.false_ne_true] at hafter
          rwa [← List.length_append]
        obtain ⟨c, hsend, hbacks⟩ :=
          BufferedChannel.backs_sendPayload junk (h.channels k) hfits
        rw [List.foldlM_cons, hsend]
        exact .some (backs_setChannel h k hbacks)

/-- One step does the same on both, as long as no buffer has to grow. -/
theorem backs_step (junk : ℕ → Byte) (h : b.Backs s) (event : Event κ)
    (hsmall : s.StaysSmall dispatchPayload event.plain) :
    Option.Rel Backs (b.step junk dispatchPayload event)
      (s.step dispatchPayload event.plain) := by
  change ∀ t, s.step dispatchPayload event.plain = some t → t.Small at hsmall
  cases event with
  | onRead k reads =>
    unfold step PooledServant.step Event.plain at *
    dsimp only at hsmall ⊢
    rw [(h.channels k).handling, (h.channels k).removed]
    cases hbusy : (s.channels k).handling || (s.channels k).writer.removed with
    | true => exact .none
    | false =>
      rw [hbusy, if_neg Bool.false_ne_true] at hsmall
      have hafter := (hsmall _ rfl k).1
      rw [PooledServant.channels_setChannel, if_pos rfl] at hafter
      dsimp only [ReadChannel.receive] at hafter
      rw [List.length_append] at hafter
      obtain ⟨c, hread, hbacks⟩ := BufferedChannel.backs_onRead junk (h.channels k) hafter
      rw [if_neg Bool.false_ne_true, if_neg Bool.false_ne_true, hread]
      refine .some (backs_setChannel h k ?_)
      exact ⟨hbacks.read, hbacks.write, hbacks.events, rfl, hbacks.accepted, hbacks.removed⟩
  | handlePackets k =>
    unfold step PooledServant.step Event.plain
    dsimp only
    rw [(h.channels k).handling]
    cases hhandling : (s.channels k).handling with
    | false => exact .none
    | true =>
      obtain ⟨c, hbody, hbacks⟩ := BufferedChannel.backs_handlePacketsBody (h.channels k)
      rw [if_pos rfl, if_pos rfl, hbody, Option.map_some, hbacks.events, (h.channels k).events]
      refine .some (backs_handle (backs_setChannel h k ?_) k _)
      exact ⟨hbacks.read, hbacks.write, rfl, rfl, hbacks.accepted, hbacks.removed⟩
  | notify => exact .some (backs_exec h _)
  | work i notified =>
    unfold step PooledServant.step Event.plain at *
    dsimp only at hsmall ⊢
    rw [h.handlerExecutor]
    cases hpool : s.handlerExecutor.step (.work i notified) with
    | none => exact .none
    | some pool =>
      rw [hpool] at hsmall
      have hsame : Backs { b with handlerExecutor := pool } { s with handlerExecutor := pool } :=
        ⟨h.channels, rfl⟩
      obtain ⟨_, _, _, ran, _, hrun, hset⟩ := PoolLife.step_work hpool
      have hran : pool.ran.drop s.handlerExecutor.ran.length = ran := by
        rw [hset]
        exact List.drop_left
      dsimp only at hsmall ⊢
      rw [hran] at hsmall ⊢
      rcases ran_of_run hrun with rfl | ⟨job, rfl⟩
      · exact .some hsame
      · simp only [List.foldlM_cons, List.foldlM_nil, bind_pure] at hsmall ⊢
        exact backs_runJob junk hsame job hsmall
  | onWrite k rooms =>
    unfold step PooledServant.step Event.plain
    dsimp only
    obtain ⟨c, writer, hwrite, hstep, hbacks⟩ :=
      BufferedChannel.backs_onWrite (h.channels k) rooms
    rw [hwrite, hstep]
    exact .some (backs_setChannel h k hbacks)
  | remove k => exact .some (backs_setChannel h k (backs_removed (h.channels k)))

omit [DecidableEq κ] in
theorem backs_initial (junk : ℕ → Byte) (num : ℕ) :
    ∃ b : BufferedServant κ, initial junk num = some b ∧ b.Backs (.initial num) := by
  obtain ⟨c, hcreate, hbacks⟩ := BufferedChannel.backs_create junk
  refine ⟨{ channels := fun _ => c, handlerExecutor := { workers_ := List.replicate num {} } },
    ?_, fun _ => hbacks, rfl⟩
  rw [initial, hcreate]
  rfl

/-- The servant on its buffers takes the same steps as on queues of bytes, and refuses the same
ones, in every run in which no buffer has to grow; and then none has grown. -/
theorem buffers_transparent (junk : ℕ → Byte) (dispatchPayload : DispatchPayload) (num : ℕ)
    (events : List (Event κ))
    (hsmall : Along (PooledServant.StaysSmall dispatchPayload)
      (PooledServant.step dispatchPayload) (.initial num) (events.map Event.plain)) :
    ∃ b : BufferedServant κ, initial junk num = some b ∧
      Option.Rel Backs (run (step junk dispatchPayload) b events)
        (run (PooledServant.step dispatchPayload) (.initial num) (events.map Event.plain)) := by
  obtain ⟨b, hinitial, hbacks⟩ := @backs_initial κ junk num
  refine ⟨b, hinitial, ?_⟩
  exact rel_run (fun _ _ event h hsmall => backs_step junk h event hsmall) hbacks hsmall

def twoPieces : List (Event Bool) :=
  let requests := stream (twoCalls.map SentCall.frame)
  [.onRead true [⟨requests.take 9, by decide⟩, ⟨requests.drop 9, by decide⟩],
      .handlePackets true, .handlePackets true, .handlePackets true] ++
    List.replicate 6 (.work 0 true) ++ [.onWrite true [40, 40]]

theorem buffers_transparent_two : ∃ b b' : BufferedServant Bool,
    initial (fun _ => 7) 1 = some b ∧ run (step (fun _ => 7) echo) b twoPieces = some b' ∧
      (b'.channels true).accepted = SentCall.responses some twoCalls := by
  obtain ⟨b, hinitial, hsame⟩ :=
    buffers_transparent (fun _ => 7) echo 1 twoPieces (by decide +kernel)
  have haccepted : (run (PooledServant.step echo) (.initial 1) (twoPieces.map Event.plain)).map
      (fun s => (s.channels true).writer.accepted) = some (SentCall.responses some twoCalls) := by
    decide +kernel
  obtain ⟨s, hs, hresponses⟩ := Option.map_eq_some_iff.mp haccepted
  rw [hs] at hsame
  cases hrun : run (step (fun _ => 7) echo) b twoPieces with
  | none =>
    rw [hrun] at hsame
    cases hsame
  | some b' =>
    rw [hrun] at hsame
    cases hsame with
    | some hbacks => exact ⟨b, b', hinitial, hrun, (hbacks.channels true).accepted.trans hresponses⟩

end BufferedServant
end EchoFrame
