import EchoFrame.MagicMessage
import EchoFrame.Verif.DoWhile

/-! How a servant takes packets out of the read buffer of a channel. The buffer
is the queue of bytes that its reader left there. -/
namespace EchoFrame
open Verif

inductive ServantEvent
  | handlePacket (packet : List Byte)
  | handleClose
  | removeChannel
deriving DecidableEq, Repr

structure ReadChannel where
  readBuf : List Byte
  events : List ServantEvent
deriving DecidableEq, Repr

namespace ReadChannel

def empty : ReadChannel := ⟨[],[]⟩

def emit (c : ReadChannel) (es : List ServantEvent) : ReadChannel :=
  { c with events := c.events ++ es }

def receive (c : ReadChannel) (chunk : List Byte) : ReadChannel :=
  { c with readBuf := c.readBuf ++ chunk }

def fetchPacket (c : ReadChannel) (length : ℕ) : List Byte × ReadChannel :=
  (c.readBuf.take length,{ c with readBuf := c.readBuf.drop length })

end ReadChannel

namespace MyServant

def onReadError (c : ReadChannel) : ReadChannel := c.emit [.handleClose,.removeChannel]

def onReadComplete (codec : MyCodec) (c : ReadChannel) (buf : List Byte) : ReadChannel :=
  let packetLen := codec.getPacketLength buf
  -- the bytes stay in the buffer
  if packetLen = 0 then c.emit [.removeChannel]
  else
    let (packet,c) := c.fetchPacket packetLen
    c.emit [.handlePacket packet]

/-- One iteration of the loop of `handlePackets`. -/
def handlePacketsBody (codec : MyCodec) (c : ReadChannel) : ReadChannel × Bool :=
  if c.readBuf.length = 0 then (c,false)
  else match codec.isPacketComplete c.readBuf with
    | .kPacketStatusIncomplete => (c,false)
    | .kPacketStatusError => (onReadError c,false)
    -- the loop goes on whatever `onReadComplete` did
    | .kPacketStatusComplete => (onReadComplete codec c c.readBuf,true)

/-- `handlePackets` with the magic codec, left at `c'`. -/
def HandlesPackets (c c' : ReadChannel) : Prop := Exits (handlePacketsBody MyMagicCodec) c c'

def QuietAfterRemoval (es : List ServantEvent) : Prop :=
  es.Pairwise fun e e' => e = .removeChannel → ∀ packet, e' ≠ .handlePacket packet

/-- The length field cannot be read, or is zero, though there are bytes. -/
def Stalled (c : ReadChannel) : Prop :=
  c.readBuf ≠ [] ∧ MyMagicMessage.getPacketLength c.readBuf = 0

variable {c c' c'' : ReadChannel}

/-- What one iteration does with the magic codec: nothing is left, a packet is
dispatched, the channel is removed and nothing else, or more bytes are needed. -/
theorem handlePacketsBody_cases (c : ReadChannel) :
    (c.readBuf = [] ∧ handlePacketsBody MyMagicCodec c = (c,false)) ∨
    (Stalled c ∧ handlePacketsBody MyMagicCodec c = (c.emit [.removeChannel],true)) ∨
    (c.readBuf.length < MyMagicMessage.getPacketLength c.readBuf ∧
      handlePacketsBody MyMagicCodec c = (c,false)) ∨
    (0 < MyMagicMessage.getPacketLength c.readBuf ∧
      MyMagicMessage.getPacketLength c.readBuf ≤ c.readBuf.length ∧
      handlePacketsBody MyMagicCodec c =
        (⟨c.readBuf.drop (MyMagicMessage.getPacketLength c.readBuf),c.events ++
          [.handlePacket (c.readBuf.take (MyMagicMessage.getPacketLength c.readBuf))]⟩,true)) := by
  unfold handlePacketsBody
  simp only [MyMagicCodec, MyMagicMessage.isPacketComplete, List.length_eq_zero_iff]
  by_cases hnil : c.readBuf = []
  · exact .inl ⟨hnil, if_pos hnil⟩
  rw [if_neg hnil]
  by_cases hle : MyMagicMessage.getPacketLength c.readBuf ≤ c.readBuf.length
  · simp only [hle, ↓reduceIte, onReadComplete]
    by_cases h0 : MyMagicMessage.getPacketLength c.readBuf = 0
    · exact .inr (.inl ⟨⟨hnil, h0⟩, by rw [if_pos h0]⟩)
    · exact .inr (.inr (.inr ⟨Nat.pos_of_ne_zero h0, trivial, by rw [if_neg h0]; rfl⟩))
  · simp only [hle, ↓reduceIte]
    exact .inr (.inr (.inl ⟨Nat.lt_of_not_le hle, trivial⟩))

theorem handlePacketsBody_nil (h : c.readBuf = []) :
    handlePacketsBody MyMagicCodec c = (c,false) := by
  rw [handlePacketsBody, if_pos (List.length_eq_zero_iff.mpr h)]

theorem handlePacketsBody_stalled (h : Stalled c) :
    handlePacketsBody MyMagicCodec c = (c.emit [.removeChannel],true) := by
  obtain ⟨hne, h0⟩ := h
  rcases handlePacketsBody_cases c with ⟨hnil, _⟩ | ⟨_, hb⟩ | ⟨hlt, _⟩ | ⟨hpos, _⟩
  · exact absurd hnil hne
  · exact hb
  · rw [h0] at hlt
    exact absurd hlt (Nat.not_lt_zero _)
  · exact absurd h0 hpos.ne'

theorem handlePacketsBody_short
    (h : c.readBuf.length < MyMagicMessage.getPacketLength c.readBuf) :
    handlePacketsBody MyMagicCodec c = (c,false) := by
  rcases handlePacketsBody_cases c with ⟨_, hb⟩ | ⟨⟨_, h0⟩, _⟩ | ⟨_, hb⟩ | ⟨_, hle, _⟩
  · exact hb
  · omega
  · exact hb
  · omega

theorem handlePacketsBody_packet (hpos : 0 < MyMagicMessage.getPacketLength c.readBuf)
    (hle : MyMagicMessage.getPacketLength c.readBuf ≤ c.readBuf.length) :
    handlePacketsBody MyMagicCodec c =
      (⟨c.readBuf.drop (MyMagicMessage.getPacketLength c.readBuf),c.events ++
        [.handlePacket (c.readBuf.take (MyMagicMessage.getPacketLength c.readBuf))]⟩,true) := by
  rcases handlePacketsBody_cases c with ⟨hnil, _⟩ | ⟨⟨_, h0⟩, _⟩ | ⟨hlt, _⟩ | ⟨_, _, hb⟩
  · have hlen : c.readBuf.length = 0 := List.length_eq_zero_iff.mpr hnil
    omega
  · omega
  · omega
  · exact hb

/-- A stalled channel is removed again and again, and the loop never ends. -/
theorem not_handlesPackets_of_stalled (h : Stalled c) : ¬ ∃ c', HandlesPackets c c' :=
  not_exits_of_stuck (fun _ hc => ⟨_, handlePacketsBody_stalled hc, hc⟩) h

/-- The last iteration found nothing, or too little. -/
theorem waits_of_stop (h : handlePacketsBody MyMagicCodec c = (c',false)) :
    c' = c ∧ (c.readBuf = [] ∨ c.readBuf.length < MyMagicMessage.getPacketLength c.readBuf) := by
  rcases handlePacketsBody_cases c with ⟨hnil, hb⟩ | ⟨_, hb⟩ | ⟨hlt, hb⟩ | ⟨_, _, hb⟩
  · cases hb.symm.trans h
    exact ⟨rfl, .inl hnil⟩
  · cases hb.symm.trans h
  · cases hb.symm.trans h
    exact ⟨rfl, .inr hlt⟩
  · cases hb.symm.trans h

/-- Each iteration before the last one took a packet. -/
theorem packet_of_again (h : handlePacketsBody MyMagicCodec c = (c',true))
    (hrest : HandlesPackets c' c'') :
    0 < MyMagicMessage.getPacketLength c.readBuf ∧
      MyMagicMessage.getPacketLength c.readBuf ≤ c.readBuf.length ∧
      c' = ⟨c.readBuf.drop (MyMagicMessage.getPacketLength c.readBuf),c.events ++
        [.handlePacket (c.readBuf.take (MyMagicMessage.getPacketLength c.readBuf))]⟩ := by
  rcases handlePacketsBody_cases c with ⟨_, hb⟩ | ⟨hs, _⟩ | ⟨_, hb⟩ | ⟨hpos, hle, hb⟩
  · cases hb.symm.trans h
  · -- the loop of a stalled channel is never left
    exact absurd ⟨_, .again h hrest⟩ (not_handlesPackets_of_stalled hs)
  · cases hb.symm.trans h
  · cases hb.symm.trans h
    exact ⟨hpos, hle, rfl⟩

end MyServant
end EchoFrame
