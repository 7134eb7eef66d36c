import EchoFrame.MagicCodec

/-! How the dispatcher of a server answers a packet. A `unique_ptr` to a buffer is
the bytes the buffer holds, or `none`. -/
namespace EchoFrame
open Verif

/-- How a function can fail to return: it goes through a null pointer to a buffer,
throws the exception of `MyIOBuf`, leaves the bytes of a buffer or fails an assertion of it, or a
handler does not return. -/
inductive Fault
  | nullPointer
  | skBufferOverflow
  | outOfBounds
  | handler
deriving DecidableEq, Repr

def deref : Option (List Byte) → Except Fault (List Byte)
  | none => .error .nullPointer
  | some bytes => .ok bytes

def NullFree {α : Type} (x : Except Fault α) : Prop := x ≠ .error .nullPointer

theorem nullFree_ok {α : Type} (a : α) : NullFree (.ok a : Except Fault α) := by
  intro h
  cases h

inductive HandleResult
  | kHandleResultSuccess
  | kHandleResultClose
  | kHandleResultPacketInvalid
  | kHandleResultInternalServerError
deriving DecidableEq, Repr

/-- What a dispatch leaves behind: its result, the response, and whether the
context still wants one. -/
structure Dispatched where
  rv : HandleResult
  response : Option (List Byte)
  needResponse : Bool
deriving DecidableEq, Repr

/-- `dispatchPayload` of a dispatcher, for a request and the flag of the context. -/
abbrev DispatchPayload := Option (List Byte) → Bool → Except Fault Dispatched

structure Answer where
  rv : HandleResult
  sent : List (List Byte)
  closed : Bool
deriving DecidableEq, Repr

/-- The bytes of the buffer that `encode` makes. Which bytes `malloc` leaves in it does not show:
the messages that are sent fill it, or `encode` fails. -/
def MyMagicMessage.encoded (m : MyMagicMessage) : Except Fault (List Byte) :=
  match (HeldMessage.ofMessage m).encode fun _ => 0 with
  | none => .error .outOfBounds
  | some buffer => .ok buffer.contents

namespace MyMagicDispatcher

/-- The message of a response. Its flag is left at 0. -/
def rspMsg (reqMsg : MyMagicMessage) (rspBuf : Option (List Byte)) : MyMagicMessage where
  length := match rspBuf with
    | some bytes => .ofNat (MyMagicMessage.headLen+bytes.length)
    | none => .ofNat MyMagicMessage.headLen
  version := reqMsg.version
  flag := 0
  isRequest := 0
  requestId := reqMsg.requestId
  serverNumber := reqMsg.serverNumber
  payload := rspBuf

def dispatchPacket (dispatchPayload : DispatchPayload) (request : List Byte)
    (needResponse : Bool) : Except Fault Dispatched :=
  match MyMagicMessage.decode request with
  | none => .error .skBufferOverflow
  | some reqMsg =>
    if reqMsg.isHeartbeat then do
      let response ← MyMagicMessage.encoded { reqMsg with isRequest := 0 }
      .ok ⟨.kHandleResultSuccess,some response,needResponse⟩
    else do
      let out ← dispatchPayload reqMsg.payload needResponse
      if out.rv ≠ .kHandleResultSuccess then .ok { out with response := none }
      -- the handler may have changed the flag of the context
      else if out.needResponse then do
        let response ← (rspMsg reqMsg out.response).encoded
        .ok { out with response := some response }
      else .ok { out with response := none }

end MyMagicDispatcher

def MyDispatcher.handlePacket (dispatchPacket : List Byte → Bool → Except Fault Dispatched)
    (req : List Byte) (needResponse : Bool) : Except Fault Answer := do
  let out ← dispatchPacket req needResponse
  if out.rv ≠ .kHandleResultSuccess then .ok ⟨out.rv,[],true⟩
  else if out.needResponse then do
    let rsp ← deref out.response
    .ok ⟨out.rv,if rsp.length > 0 then [rsp] else [],false⟩
  else .ok ⟨out.rv,[],false⟩

end EchoFrame
