import EchoFrame.PayloadDispatch
import EchoFrame.Verif.Varint

/-! The handlers of the route server, and what its clients make of their responses. -/
namespace EchoFrame
open Verif

/-! The messages of the route protocol. -/

structure NodeInfo where
  host : List Byte := []
  port : UInt32 := 0
  serverName : List Byte := []
  servantName : List Byte := []
  status : Int32 := 0

structure TableItem where
  nodeId : List Byte := []
  nodeInfo : Option NodeInfo := none

structure RegisterReq where
  nodeInfo : Option NodeInfo := none
  version : UInt32 := 0

structure RegisterRsp where
  code : UInt32 := 0
  nodeId : List Byte := []

structure OperateReq where
  nodeId : List Byte := []
  status : UInt32 := 0

structure OperateRsp where
  code : UInt32 := 0
  nodeId : List Byte := []
  status : UInt32 := 0

structure PullTableReq where
  version : UInt32 := 0

structure PullTableRsp where
  version : UInt32 := 0
  strategy : Int32 := 0
  items : List TableItem := []

structure Heartbeat where
  version : UInt32 := 0

inductive ProtoMessage
  | registerReq (m : RegisterReq)
  | registerRsp (m : RegisterRsp)
  | operateReq (m : OperateReq)
  | operateRsp (m : OperateRsp)
  | pullTableReq (m : PullTableReq)
  | pullTableRsp (m : PullTableRsp)
  | heartbeat (m : Heartbeat)

namespace ProtoMessage

/-! The dynamic casts that the handlers use. -/

def asRegisterReq : ProtoMessage → Option RegisterReq
  | .registerReq m => some m
  | _ => none

def asOperateReq : ProtoMessage → Option OperateReq
  | .operateReq m => some m
  | _ => none

def asOperateRsp : ProtoMessage → Option OperateRsp
  | .operateRsp m => some m
  | _ => none

def asPullTableReq : ProtoMessage → Option PullTableReq
  | .pullTableReq m => some m
  | _ => none

def asHeartbeat : ProtoMessage → Option Heartbeat
  | .heartbeat m => some m
  | _ => none

end ProtoMessage

/-- `ParseFromArray` and `SerializeAsString` of one type. -/
structure Codec (τ : Type) where
  parse : List Byte → Option τ
  serialize : τ → List Byte

def Codec.Lawful {τ : Type} (c : Codec τ) : Prop := ∀ m, c.parse (c.serialize m) = some m

/-- The code that the build generates for the messages. -/
structure RouteCodec where
  registerReq : Codec RegisterReq
  registerRsp : Codec RegisterRsp
  operateReq : Codec OperateReq
  operateRsp : Codec OperateRsp
  pullTableReq : Codec PullTableReq
  pullTableRsp : Codec PullTableRsp
  heartbeat : Codec Heartbeat

namespace RouteCodec

variable (codec : RouteCodec)

def parseReq : RouteCommandCode → List Byte → Option ProtoMessage
  | .kCommandCodeRegister, bytes => (codec.registerReq.parse bytes).map .registerReq
  | .kCommandCodeOperate, bytes => (codec.operateReq.parse bytes).map .operateReq
  | .kCommandCodePullTable, bytes => (codec.pullTableReq.parse bytes).map .pullTableReq
  | .kCommandCodeHeartBeat, bytes => (codec.heartbeat.parse bytes).map .heartbeat

def parseRsp : RouteCommandCode → List Byte → Option ProtoMessage
  | .kCommandCodeRegister, bytes => (codec.registerRsp.parse bytes).map .registerRsp
  | .kCommandCodeOperate, bytes => (codec.operateRsp.parse bytes).map .operateRsp
  | .kCommandCodePullTable, bytes => (codec.pullTableRsp.parse bytes).map .pullTableRsp
  | .kCommandCodeHeartBeat, bytes => (codec.heartbeat.parse bytes).map .heartbeat

def serialize : ProtoMessage → List Byte
  | .registerReq m => codec.registerReq.serialize m
  | .registerRsp m => codec.registerRsp.serialize m
  | .operateReq m => codec.operateReq.serialize m
  | .operateRsp m => codec.operateRsp.serialize m
  | .pullTableReq m => codec.pullTableReq.serialize m
  | .pullTableRsp m => codec.pullTableRsp.serialize m
  | .heartbeat m => codec.heartbeat.serialize m

def LawfulRsp : RouteCommandCode → Prop
  | .kCommandCodeRegister => codec.registerRsp.Lawful
  | .kCommandCodeOperate => codec.operateRsp.Lawful
  | .kCommandCodePullTable => codec.pullTableRsp.Lawful
  | .kCommandCodeHeartBeat => codec.heartbeat.Lawful

end RouteCodec

namespace MyRouteMessage

/-- `getPayload`: the pointer is released, so nothing is left for another call. -/
def getPayload {τ : Type} (cast : ProtoMessage → Option τ) (payload : Option ProtoMessage) :
    Option τ × Option ProtoMessage :=
  (payload.bind cast, none)

def access {τ : Type} : Option τ → Except Unit τ
  | none => .error ()
  | some m => .ok m

def encode (codec : RouteCodec) (msg : MyRouteMessage ProtoMessage) : List Byte :=
  leBytes 4 msg.commandCode ++ codec.serialize msg.payload

end MyRouteMessage

/-- `doHandler`: the result, the response and the flag of the context. -/
abbrev DoHandler := MyRouteMessage ProtoMessage → Bool →
  Except Unit (HandleResult × Option (MyRouteMessage ProtoMessage) × Bool)

namespace RouteCommandCode

def code : RouteCommandCode → ℕ
  | kCommandCodeRegister => 0
  | kCommandCodeOperate => 3
  | kCommandCodePullTable => 10
  | kCommandCodeHeartBeat => 99

end RouteCommandCode

open MyRouteMessage RouteCommandCode

/-- A handler that logs its request, the only use of the payload, and answers with a message
of its own. -/
def logAndAnswer {τ : Type} (cast : ProtoMessage → Option τ) (command : RouteCommandCode)
    (rspMsg : ProtoMessage) : DoHandler := fun req needResponse => do
  let (payload, _) := getPayload cast (some req.payload)
  let _ ← access payload
  .ok (.kHandleResultSuccess, some ⟨command.code,rspMsg⟩, needResponse)

def MyRegisterHandler.doHandler : DoHandler :=
  logAndAnswer ProtoMessage.asRegisterReq kCommandCodeRegister
    (.registerRsp {code := 0, nodeId := chars "test_node_id"})

def MyOperateHandler.doHandler : DoHandler := fun req needResponse => do
  let (payload, rest) := getPayload ProtoMessage.asOperateReq (some req.payload)
  let _ ← access payload
  -- the payload is taken out of the message once more
  let (payload, _) := getPayload ProtoMessage.asOperateRsp rest
  let status := (← access payload).status
  .ok (.kHandleResultSuccess, some ⟨kCommandCodeOperate.code,
    .operateRsp {code := 0, nodeId := chars "test_node_id", status := status}⟩, needResponse)

def MyPullTableHandler.doHandler : DoHandler :=
  logAndAnswer ProtoMessage.asPullTableReq kCommandCodePullTable
    (.pullTableRsp {version := 1, strategy := 0})

def MyHeartbeatHandler.doHandler : DoHandler :=
  logAndAnswer ProtoMessage.asHeartbeat kCommandCodeHeartBeat (.heartbeat {})

def routeMessages (codec : RouteCodec) : RouteMessages ProtoMessage where
  parseReq := codec.parseReq
  parseRsp := codec.parseRsp
  doHandler
    | kCommandCodeRegister => MyRegisterHandler.doHandler
    | kCommandCodeOperate => MyOperateHandler.doHandler
    | kCommandCodePullTable => MyPullTableHandler.doHandler
    | kCommandCodeHeartBeat => MyHeartbeatHandler.doHandler
  encode := MyRouteMessage.encode codec

def routePayload (command : RouteCommandCode) (body : List Byte) : List Byte :=
  leBytes 4 command.code ++ body

/-- The server answers, the client accepts the answer under the same command, and the status
of an operation comes back. -/
def Answers (codec : RouteCodec) (command : RouteCommandCode) (body : List Byte)
    (req : ProtoMessage) : Prop :=
  ∃ bytes rsp,
    MyRouteDispatcher.dispatchPayload (routeMessages codec) (some (routePayload command body)) true =
      .ok ⟨.kHandleResultSuccess, some bytes, true⟩ ∧
    MyRouteProxy.decode (routeMessages codec) (some bytes) = .ok (some rsp) ∧
    rsp.commandCode = command.code ∧
    ∀ m, req = .operateReq m → ∃ m', rsp.payload = .operateRsp m' ∧ m'.status = m.status

variable {codec : RouteCodec} {command : RouteCommandCode} {body : List Byte}
  {req rspMsg : ProtoMessage} {needResponse : Bool}

theorem code_lt (command : RouteCommandCode) : command.code < 2^32 := by
  cases command <;> decide

theorem ofCode_code (command : RouteCommandCode) :
    RouteCommandCode.ofCode command.code = some command := by
  cases command <;> rfl

theorem readLe_code (command : RouteCommandCode) (body : List Byte) :
    readLe 4 (leBytes 4 command.code ++ body) = some (command.code, body) := by
  have hlt := code_lt command
  rw [readLe_append, Nat.mod_eq_of_lt (by omega)]

theorem getPacketCmd_routePayload (command : RouteCommandCode) (body : List Byte) :
    MyRouteDispatcher.getPacketCmd (routePayload command body) = command.code := by
  have hlt := code_lt command
  have htake : (routePayload command body).take 4 = leBytes 4 command.code := by
    rw [routePayload, List.take_append_of_le_length (length_leBytes 4 _).ge,
      List.take_of_length_le (length_leBytes 4 _).le]
  rw [MyRouteDispatcher.getPacketCmd, if_neg, htake, leNat_leBytes, Nat.mod_eq_of_lt (by omega)]
  rw [routePayload, List.length_append, length_leBytes]
  omega

theorem decode_code (parse : List Byte → Option ProtoMessage) (h : parse body = some req) :
    MyRouteMessage.decode parse (some (leBytes 4 command.code ++ body)) =
      .ok (some ⟨command.code,req⟩) := by
  simp only [MyRouteMessage.decode, deref, bind, Except.bind, readLe_code, h]

/-- A request is dispatched to the handler of its command. -/
theorem dispatchPayload_of_ok (hreq : codec.parseReq command body = some req)
    {rsp : MyRouteMessage ProtoMessage}
    (hdo : (routeMessages codec).doHandler command ⟨command.code,req⟩ true =
      .ok (.kHandleResultSuccess, some rsp, true)) :
    MyRouteDispatcher.dispatchPayload (routeMessages codec) (some (routePayload command body)) true =
      .ok ⟨.kHandleResultSuccess, some (MyRouteMessage.encode codec rsp), true⟩ := by
  have hdecode : MyRouteMessage.decode ((routeMessages codec).parseReq command)
      (some (routePayload command body)) = .ok (some ⟨command.code,req⟩) := decode_code _ hreq
  simp only [MyRouteDispatcher.dispatchPayload, deref, bind, Except.bind,
    getPacketCmd_routePayload, ofCode_code, hdecode, hdo]
  rfl

theorem dispatchPayload_of_error (hreq : codec.parseReq command body = some req)
    (hdo : (routeMessages codec).doHandler command ⟨command.code,req⟩ needResponse = .error ()) :
    MyRouteDispatcher.dispatchPayload (routeMessages codec) (some (routePayload command body))
      needResponse = .error .handler := by
  have hdecode : MyRouteMessage.decode ((routeMessages codec).parseReq command)
      (some (routePayload command body)) = .ok (some ⟨command.code,req⟩) := decode_code _ hreq
  simp only [MyRouteDispatcher.dispatchPayload, deref, bind, Except.bind,
    getPacketCmd_routePayload, ofCode_code, hdecode, hdo]

/-- The client takes a message that is written under a command it knows. -/
theorem decode_encode (hrsp : codec.parseRsp command (codec.serialize rspMsg) = some rspMsg) :
    MyRouteProxy.decode (routeMessages codec)
        (some (MyRouteMessage.encode codec ⟨command.code,rspMsg⟩)) =
      .ok (some ⟨command.code,rspMsg⟩) := by
  have hdecode : MyRouteMessage.decode ((routeMessages codec).parseRsp command)
      (some (MyRouteMessage.encode codec ⟨command.code,rspMsg⟩)) =
        .ok (some ⟨command.code,rspMsg⟩) := decode_code _ hrsp
  have hread : readLe 4 (MyRouteMessage.encode codec ⟨command.code,rspMsg⟩) =
      some (command.code, codec.serialize rspMsg) := readLe_code command _
  simp only [MyRouteProxy.decode, deref, bind, Except.bind, hread, ofCode_code, hdecode]

/-- The handler of operations finds nothing at its second access, and nothing of the type it
asks for either. -/
theorem operate_error (req : MyRouteMessage ProtoMessage) (needResponse : Bool) :
    MyOperateHandler.doHandler req needResponse = .error () := by
  simp only [MyOperateHandler.doHandler, getPayload, Option.bind_none, bind, Except.bind]
  cases access ((some req.payload).bind ProtoMessage.asOperateReq) with
  | error => rfl
  | ok => rfl

def answer : RouteCommandCode → ProtoMessage
  | kCommandCodeRegister => .registerRsp {code := 0, nodeId := chars "test_node_id"}
  | kCommandCodeOperate => .operateRsp {}
  | kCommandCodePullTable => .pullTableRsp {version := 1, strategy := 0}
  | kCommandCodeHeartBeat => .heartbeat {}

theorem doHandler_eq (hcommand : command ≠ kCommandCodeOperate)
    (hreq : codec.parseReq command body = some req) (needResponse : Bool) :
    (routeMessages codec).doHandler command ⟨command.code,req⟩ needResponse =
      .ok (.kHandleResultSuccess, some ⟨command.code,answer command⟩, needResponse) := by
  cases command with
  | kCommandCodeOperate => exact absurd rfl hcommand
  | kCommandCodeRegister | kCommandCodePullTable | kCommandCodeHeartBeat =>
    obtain ⟨m, -, rfl⟩ := Option.map_eq_some_iff.mp hreq
    rfl

theorem parseRsp_answer (hcommand : command ≠ kCommandCodeOperate)
    (hrsp : codec.LawfulRsp command) :
    codec.parseRsp command (codec.serialize (answer command)) = some (answer command) := by
  cases command with
  | kCommandCodeOperate => exact absurd rfl hcommand
  | kCommandCodeRegister | kCommandCodePullTable | kCommandCodeHeartBeat =>
    exact congrArg (Option.map _) (hrsp _)

/-- A request of another type than that of its command is none that was parsed. -/
theorem not_operateReq (hcommand : command ≠ kCommandCodeOperate)
    (hreq : codec.parseReq command body = some req) (m : OperateReq) : req ≠ .operateReq m := by
  rintro rfl
  cases command with
  | kCommandCodeOperate => exact hcommand rfl
  | kCommandCodeRegister | kCommandCodePullTable | kCommandCodeHeartBeat =>
    obtain ⟨_, -, he⟩ := Option.map_eq_some_iff.mp hreq
    cases he

/-- Every request is answered but those to change the status of a node. -/
theorem answers_iff (codec : RouteCodec) (command : RouteCommandCode) (body : List Byte)
    (req : ProtoMessage) (hreq : codec.parseReq command body = some req)
    (hrsp : codec.LawfulRsp command) :
    Answers codec command body req ↔ command ≠ kCommandCodeOperate := by
  constructor
  · rintro ⟨bytes, rsp, hdispatch, -⟩ rfl
    have herror := dispatchPayload_of_error hreq (operate_error ⟨_,req⟩ true)
    cases hdispatch.symm.trans herror
  · intro hcommand
    refine ⟨_, _, dispatchPayload_of_ok hreq (doHandler_eq hcommand hreq true),
      decode_encode (parseRsp_answer hcommand hrsp), rfl, ?_⟩
    exact fun m he => absurd he (not_operateReq hcommand hreq m)

/-- A field that is not set is not written. -/
def heartbeatCodec : Codec Heartbeat where
  parse
    | [] => some {}
    | tag :: bytes =>
      if tag = 8 then
        match readVarint bytes with
        | some (version, []) => some ⟨.ofNat version⟩
        | _ => none
      else none
  serialize m := if m.version = 0 then [] else 8 :: varint m.version.toNat

theorem heartbeatCodec_lawful : heartbeatCodec.Lawful := by
  rintro ⟨version⟩
  by_cases h0 : version = 0
  · subst h0
    rfl
  · have hread := readVarint_varint version.toNat []
    rw [List.append_nil] at hread
    have hbytes : heartbeatCodec.serialize ⟨version⟩ = 8 :: varint version.toNat := if_neg h0
    rw [hbytes]
    simp only [heartbeatCodec, if_true, hread, UInt32.ofNat_toNat]

def emptyCodec {τ : Type} (m : τ) : Codec τ where
  parse bytes := if bytes = [] then some m else none
  serialize _ := []

def sampleCodec : RouteCodec where
  registerReq := emptyCodec {}
  registerRsp := emptyCodec {}
  operateReq := emptyCodec {}
  operateRsp := emptyCodec {}
  pullTableReq := emptyCodec {}
  pullTableRsp := emptyCodec {}
  heartbeat := heartbeatCodec

/-- A heartbeat of version 300, whose body is three bytes. -/
theorem answers_heartbeat : Answers sampleCodec kCommandCodeHeartBeat [8,172,2] (.heartbeat ⟨300⟩) :=
  (answers_iff sampleCodec kCommandCodeHeartBeat [8,172,2] (.heartbeat ⟨300⟩) rfl
    heartbeatCodec_lawful).mpr (by decide)

/-- The operation of status 0 on the node without a name. -/
theorem not_answers :
    sampleCodec.parseReq kCommandCodeOperate [] = some (.operateReq {}) ∧
      MyRouteDispatcher.dispatchPayload (routeMessages sampleCodec)
        (some (routePayload kCommandCodeOperate [])) true = .error .handler ∧
      ¬ Answers sampleCodec kCommandCodeOperate [] (.operateReq {}) := by
  have hreq : sampleCodec.parseReq kCommandCodeOperate [] = some (.operateReq {}) := rfl
  have herror := dispatchPayload_of_error hreq (operate_error ⟨_,.operateReq {}⟩ true)
  refine ⟨hreq, herror, ?_⟩
  rintro ⟨bytes, rsp, hdispatch, -⟩
  cases hdispatch.symm.trans herror

end EchoFrame
