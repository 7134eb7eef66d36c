import EchoFrame.ClientSessions
import EchoFrame.Verif.DoWhile

/-! How a proxy takes packets off the connection of a client. -/
namespace EchoFrame
open Verif

/-- How `onRead` of a client ends: the socket is drained, the peer has closed
it, or the read has failed. -/
inductive ReadResult
  | drained
  | closed
  | failed
deriving DecidableEq, Repr

structure ProxyState where
  loops : ClientLoops
  tasks : List SessionTask

namespace MyClient

def receive (c : MyClient) (bytes : List Byte) : MyClient :=
  { c with readBuffer := c.readBuffer ++ bytes }

def fetchPayload (c : MyClient) (length : ℕ) : List Byte × MyClient :=
  (c.readBuffer.take length,{ c with readBuffer := c.readBuffer.drop length })

/-- A TCP client empties its buffer when it disconnects. -/
def disconnect (c : MyClient) : MyClient :=
  match c.config.clientType with
  | .kClientTypeTcp => { c with readBuffer := [] }
  | .kClientTypeUdp => c

end MyClient

namespace MyProxy

def onDisconnect (s : ProxyState) (uid : UInt32) (client : MyClient) : ProxyState :=
  if client.config.autoReconnect then
    { s with loops := s.loops.setClient uid client.disconnect }
  else { s with loops := s.loops.removeClient uid }

/-- The packet of a complete frame. An exception of `decode` leaves `onRead`. -/
def handleFrame (s : ProxyState) (iobuf : List Byte) : ProxyState × Bool :=
  match MyMagicMessage.decode iobuf with
  | none => (s,false)
  | some magicMsg =>
    let (loops,task) := handlePacket s.loops magicMsg
    (⟨loops,s.tasks ++ task.toList⟩,true)

def onReadBody (codec : MyCodec) (uid : UInt32) (s : ProxyState) : ProxyState × Bool :=
  match s.loops.findClient uid with
  | none => (s,false)
  | some client =>
    if client.readBuffer.length = 0 then (s,false)
    else match codec.isPacketComplete client.readBuffer with
      | .kPacketStatusIncomplete => (s,false)
      | .kPacketStatusError => (onDisconnect s uid client,false)
      | .kPacketStatusComplete =>
        let packetLength := codec.getPacketLength client.readBuffer
        -- `onRead` returns, and the bytes stay
        if packetLength = 0 then (s,false)
        else
          let (iobuf,client) := client.fetchPayload packetLength
          handleFrame { s with loops := s.loops.setClient uid client } iobuf

/-- `onRead`, when the socket of the client held under `uid` has given `bytes`. -/
def OnRead (codec : MyCodec) (uid : UInt32) (bytes : List Byte) (result : ReadResult)
    (s t : ProxyState) : Prop :=
  match s.loops.findClient uid with
  | none => t = s
  | some client =>
    let client := client.receive bytes
    let s := { s with loops := s.loops.setClient uid client }
    match result with
    | .drained => Exits (onReadBody codec uid) s t
    -- the bytes that came with the end of the stream are not looked at
    | _ => t = onDisconnect s uid client

def nextPacket (codec : MyCodec) (client : MyClient) : List Byte :=
  (client.fetchPayload (codec.getPacketLength client.readBuffer)).1

def fetched (codec : MyCodec) (uid : UInt32) (s : ProxyState) (client : MyClient) : ProxyState :=
  { s with loops := s.loops.setClient uid
             (client.fetchPayload (codec.getPacketLength client.readBuffer)).2 }

variable {codec : MyCodec} {uid : UInt32} {s t : ProxyState} {cont : Bool}

/-- What one iteration does: it leaves the loop, the connection with it if the
packet is in error, or it takes a packet off the buffer and handles it. -/
theorem onReadBody_cases (codec : MyCodec) (uid : UInt32) (s : ProxyState) :
    onReadBody codec uid s = (s,false) ∨
    ∃ client, s.loops.findClient uid = some client ∧
      (onReadBody codec uid s = (onDisconnect s uid client,false) ∨
      codec.isPacketComplete client.readBuffer = .kPacketStatusComplete ∧
      0 < codec.getPacketLength client.readBuffer ∧ 0 < client.readBuffer.length ∧
      onReadBody codec uid s =
        handleFrame (fetched codec uid s client) (nextPacket codec client)) := by
  unfold onReadBody
  cases hc : s.loops.findClient uid with
  | none => exact .inl rfl
  | some client =>
    by_cases hlen : client.readBuffer.length = 0
    · exact .inl (by simp only [hlen, ↓reduceIte])
    · simp only [hlen, ↓reduceIte]
      cases hst : codec.isPacketComplete client.readBuffer with
      | kPacketStatusIncomplete => exact .inl rfl
      | kPacketStatusError => exact .inr ⟨client, rfl, .inl rfl⟩
      | kPacketStatusComplete =>
        by_cases hpl : codec.getPacketLength client.readBuffer = 0
        · exact .inl (by simp only [hpl, ↓reduceIte])
        · refine .inr ⟨client, rfl, .inr ⟨hst, Nat.pos_of_ne_zero hpl,
            Nat.pos_of_ne_zero hlen, ?_⟩⟩
          simp only [hpl, ↓reduceIte]
          rfl

end MyProxy
end EchoFrame
