import EchoFrame.ClientSessions
import EchoFrame.MagicDispatch

/-! The payloads of the demo and the route protocol: how the dispatchers of their
servers and the proxies of their clients read them. -/
namespace EchoFrame
open Verif

def chars (s : String) : List Byte := s.toList.map fun c => .ofNat c.toNat

structure MyDemoMessage where
  cmd : List Byte
  msg : List Byte
deriving DecidableEq, Repr

namespace MyDemoMessage

def space : Byte := 32

/-- The position of the first space where it is positive as an `int32_t`. -/
def spacePos (m : List Byte) : Option ℕ :=
  (m.findIdx? (· == space)).filter fun pos => 0 < pos ∧ pos < 2^31

def decodeCmd (m : List Byte) : List Byte :=
  match spacePos m with
  | some pos => m.take pos
  | none => if m.length > 2 then m.take (m.length-2) else m

/-- The command and the body behind it, as `decode` of the handlers for user names
and passwords and of the proxy have it. -/
def decode (iobuf : Option (List Byte)) : Except Fault MyDemoMessage := do
  let cmd := decodeCmd (← deref iobuf)
  let buf ← deref iobuf
  -- the length of the body wraps if there is no room for the space
  if cmd.length+1 ≤ buf.length then .ok ⟨cmd,buf.drop (cmd.length+1)⟩ else .error .outOfBounds

def encode (m : MyDemoMessage) : List Byte := m.cmd ++ [space] ++ m.msg

end MyDemoMessage

structure MyDemoHandler where
  decode : Option (List Byte) → Except Fault MyDemoMessage
  invoke : List Byte → Bool → List Byte × Bool
  encode : MyDemoMessage → List Byte

def MyUserNameHandler : MyDemoHandler where
  decode := MyDemoMessage.decode
  invoke := fun req needResponse => (chars "Your name is " ++ req,needResponse)
  encode := MyDemoMessage.encode

def MyPasswordHandler : MyDemoHandler where
  decode := MyDemoMessage.decode
  invoke := fun req needResponse => (chars "Your password is " ++ req,needResponse)
  encode := MyDemoMessage.encode

def MyQuitHandler : MyDemoHandler where
  -- the body is left empty
  decode := fun msg => do
    let buf ← deref msg
    .ok ⟨MyDemoMessage.decodeCmd buf,[]⟩
  invoke := fun req _ => (chars "Connection disconnect now!" ++ req,false)
  encode := fun msg => msg.encode ++ chars "\r\n"

namespace MyDemoDispatcher

def getPacketCmd (msg : List Byte) : List Byte :=
  match MyDemoMessage.spacePos msg with
  | some pos => msg.take pos
  -- for one byte `size()-2` wraps, and the whole message is taken
  | none => if msg.length > 1 then msg.take (msg.length-2) else msg

def findHandler (cmd : List Byte) : Option MyDemoHandler :=
  if cmd = chars "username" then some MyUserNameHandler
  else if cmd = chars "password" then some MyPasswordHandler
  else if cmd = chars "quit" then some MyQuitHandler
  else none

def dispatchPayload : DispatchPayload := fun request needResponse => do
  let cmd := getPacketCmd (← deref request)
  match findHandler cmd with
  | none => .ok ⟨.kHandleResultPacketInvalid,none,needResponse⟩
  | some handler =>
    let reqMsg ← handler.decode request
    let (rspBody,needResponse) := handler.invoke reqMsg.msg needResponse
    .ok ⟨.kHandleResultSuccess,
      if needResponse then some (handler.encode ⟨reqMsg.cmd,rspBody⟩) else none,needResponse⟩

end MyDemoDispatcher

namespace MyDemoProxy

def decode (iobuf : Option (List Byte)) : Except Fault (Option MyDemoMessage) := do
  let message ← MyDemoMessage.decode iobuf
  .ok (some message)

end MyDemoProxy

inductive RouteCommandCode
  | kCommandCodeRegister
  | kCommandCodeOperate
  | kCommandCodePullTable
  | kCommandCodeHeartBeat
deriving DecidableEq, Repr

def RouteCommandCode.ofCode : ℕ → Option RouteCommandCode
  | 0 => some kCommandCodeRegister
  | 3 => some kCommandCodeOperate
  | 10 => some kCommandCodePullTable
  | 99 => some kCommandCodeHeartBeat
  | _ => none

/-- A command code and the message that the bytes behind it were parsed to. -/
structure MyRouteMessage (π : Type) where
  commandCode : ℕ
  payload : π

namespace MyRouteMessage

variable {π : Type}

/-- `parse` is `ParseFromArray` of the type that goes with the command. -/
def decode (parse : List Byte → Option π) (iobuf : Option (List Byte)) :
    Except Fault (Option (MyRouteMessage π)) := do
  let buf ← deref iobuf
  match readLe 4 buf with
  | none => .error .skBufferOverflow
  | some (commandCode,buf) =>
    match parse buf with
    | none => .ok none
    | some payload => .ok (some ⟨commandCode,payload⟩)

end MyRouteMessage

/-- What the route protocol takes from its messages: the parsers of the requests
and the responses by command, `doHandler` of the handlers, and how a message is written. -/
structure RouteMessages (π : Type) where
  parseReq : RouteCommandCode → List Byte → Option π
  parseRsp : RouteCommandCode → List Byte → Option π
  doHandler : RouteCommandCode → MyRouteMessage π → Bool →
    Except Unit (HandleResult × Option (MyRouteMessage π) × Bool)
  encode : MyRouteMessage π → List Byte

namespace MyRouteDispatcher

/-- All ones stands for a message that is too short. -/
def getPacketCmd (buf : List Byte) : ℕ := if buf.length < 4 then 2^32-1 else leNat (buf.take 4)

def dispatchPayload {π : Type} (route : RouteMessages π) : DispatchPayload :=
  fun request needResponse => do
    let cmd := getPacketCmd (← deref request)
    match RouteCommandCode.ofCode cmd with
    | none => .ok ⟨.kHandleResultPacketInvalid,none,needResponse⟩
    | some handler =>
      match ← MyRouteMessage.decode (route.parseReq handler) request with
      | none => .ok ⟨.kHandleResultInternalServerError,none,needResponse⟩
      | some req =>
        match route.doHandler handler req needResponse with
        | .error _ => .error .handler
        | .ok (rv,rsp,needResponse) =>
          if rv ≠ .kHandleResultSuccess then .ok ⟨rv,none,needResponse⟩
          else .ok ⟨.kHandleResultSuccess,if needResponse then rsp.map route.encode else none,
            needResponse⟩

end MyRouteDispatcher

namespace MyRouteProxy

def decode {π : Type} (route : RouteMessages π) (iobuf : Option (List Byte)) :
    Except Fault (Option (MyRouteMessage π)) := do
  let buf ← deref iobuf
  match readLe 4 buf with
  | none => .error .skBufferOverflow
  | some (cmd,_) =>
    match RouteCommandCode.ofCode cmd with
    | none => .ok none
    | some code => MyRouteMessage.decode (route.parseRsp code) iobuf

end MyRouteProxy

inductive ClientResult
  | kClientResultSuccess
  | kClientResultFail
deriving DecidableEq, Repr

def SessionTask.run {μ : Type} (decode : Option (List Byte) → Except Fault (Option μ)) :
    SessionTask → Except Fault ClientResult
  | .heartbeat _ => .ok .kClientResultSuccess
  | .data _ payload => do
    match ← decode payload with
    | none => .ok .kClientResultFail
    | some _ => .ok .kClientResultSuccess

end EchoFrame
