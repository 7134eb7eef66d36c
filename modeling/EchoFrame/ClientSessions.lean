import EchoFrame.MagicMessage
import EchoFrame.Verif.Shards

/-! Clients with their pending sessions, the loops that hold them, and what a
proxy does with a packet from the network. -/
namespace EchoFrame
open Verif Std

def kFlagData : Byte := 0

inductive ClientType
  | kClientTypeTcp
  | kClientTypeUdp
deriving DecidableEq, Repr

structure ClientConfig where
  host : String
  port : UInt16
  clientType : ClientType
  autoReconnect : Bool
deriving DecidableEq, Repr

/-- A session, the uid of the client it was built on, and the second of its construction. -/
structure MySession where
  id : ℕ
  client : UInt32
  builtAt : UInt32
deriving DecidableEq, Repr

/-- `(uid << 32) | MyTimeProvider::now()` -/
def MySession.requestId (s : MySession) : UInt64 :=
  (s.client.toUInt64 <<< 32) ||| s.builtAt.toUInt64

/-- `servant` names the proxy that the connect callback of the client belongs to. -/
structure MyClient where
  uid : UInt32
  servant : String
  config : ClientConfig
  requests : ExtTreeMap UInt64 MySession
  readBuffer : List Byte

namespace MyClient

def addSession (c : MyClient) (request : MySession) : MyClient :=
  { c with requests := c.requests.insert request.requestId request }

def removeSession (c : MyClient) (requestId : UInt64) : MyClient :=
  { c with requests := c.requests.erase requestId }

def findSession (c : MyClient) (requestId : UInt64) : Option MySession := c.requests[requestId]?

theorem findSession_addSession (c : MyClient) (request : MySession) (requestId : UInt64) :
    (c.addSession request).findSession requestId =
      if request.requestId = requestId then some request else c.findSession requestId := by
  unfold findSession addSession
  by_cases h : request.requestId = requestId
  · simp [h]
  · simp [ExtTreeMap.getElem?_insert, h]

theorem findSession_removeSession (c : MyClient) (removed requestId : UInt64) :
    (c.removeSession removed).findSession requestId =
      if removed = requestId then none else c.findSession requestId := by
  unfold findSession removeSession
  by_cases h : removed = requestId
  · simp [h]
  · simp [ExtTreeMap.getElem?_erase, h]

end MyClient

abbrev ClientLoops := Shards UInt32 MyClient

namespace ClientLoops

def loopOf (loops : ClientLoops) (uid : UInt32) : ℕ := (uid &&& 0xFFFF).toNat%loops.length

def findClient (loops : ClientLoops) (uid : UInt32) : Option MyClient :=
  Shards.get? loops (loops.loopOf uid) uid

def setClient (loops : ClientLoops) (uid : UInt32) (c : MyClient) : ClientLoops :=
  Shards.put loops (loops.loopOf uid) uid c

def removeClient (loops : ClientLoops) (uid : UInt32) : ClientLoops :=
  Shards.remove loops (loops.loopOf uid) uid

def pending (loops : ClientLoops) (uid : UInt32) (requestId : UInt64) : Option MySession :=
  (loops.findClient uid).bind fun c => c.findSession requestId

def removeSession (loops : ClientLoops) (uid : UInt32) (requestId : UInt64) : ClientLoops :=
  match loops.findClient uid with
  | none => loops
  | some client => loops.setClient uid (client.removeSession requestId)

theorem findClient_setClient {loops : ClientLoops} {uid : UInt32} {old : MyClient}
    (hold : loops.findClient uid = some old) (c : MyClient) (uid' : UInt32) :
    (loops.setClient uid c).findClient uid' =
      if uid = uid' then some c else loops.findClient uid' := by
  have hn : 0 < loops.length := Nat.zero_lt_of_lt (Shards.lt_length_of_get? hold)
  exact Shards.get?_put_mod loops hn (fun uid => (uid &&& 0xFFFF).toNat) uid c uid'

theorem findClient_setClient_self {loops : ClientLoops} {uid : UInt32} {old : MyClient}
    (hold : loops.findClient uid = some old) (c : MyClient) :
    (loops.setClient uid c).findClient uid = some c :=
  (findClient_setClient hold c uid).trans (if_pos rfl)

theorem findClient_removeClient (loops : ClientLoops) (uid uid' : UInt32) :
    (loops.removeClient uid).findClient uid' =
      if uid = uid' then none else loops.findClient uid' :=
  Shards.get?_remove_mod loops (fun uid => (uid &&& 0xFFFF).toNat) uid uid'

theorem pending_eq {loops : ClientLoops} {uid : UInt32} {client : MyClient}
    (hc : loops.findClient uid = some client) (requestId : UInt64) :
    loops.pending uid requestId = client.findSession requestId := by
  rw [pending, hc, Option.bind_some]

theorem pending_setClient {loops : ClientLoops} {uid : UInt32} {old : MyClient}
    (hold : loops.findClient uid = some old) (c : MyClient) (other : UInt32)
    (requestId : UInt64) : (loops.setClient uid c).pending other requestId =
      if uid = other then c.findSession requestId else loops.pending other requestId := by
  rw [pending, findClient_setClient hold]
  split <;> rfl

theorem pending_setClient_of_requests {loops : ClientLoops} {uid : UInt32} {old c : MyClient}
    (hold : loops.findClient uid = some old) (hreq : c.requests = old.requests) (other : UInt32)
    (requestId : UInt64) :
    (loops.setClient uid c).pending other requestId = loops.pending other requestId := by
  rw [pending_setClient hold]
  split
  · next h => rw [← h, pending_eq hold, MyClient.findSession, MyClient.findSession, hreq]
  · rfl

theorem pending_removeClient (loops : ClientLoops) (uid other : UInt32) (requestId : UInt64) :
    (loops.removeClient uid).pending other requestId =
      if uid = other then none else loops.pending other requestId := by
  rw [pending, findClient_removeClient]
  split <;> rfl

theorem findClient_removeSession {loops : ClientLoops} {other : UInt32} {c : MyClient}
    (hc : loops.findClient other = some c) (uid : UInt32) (removed : UInt64) :
    ∃ requests, (loops.removeSession uid removed).findClient other =
      some { c with requests := requests } := by
  cases hu : loops.findClient uid with
  | none =>
    simp only [removeSession, hu]
    exact ⟨c.requests, hc⟩
  | some client =>
    simp only [removeSession, hu]
    rw [findClient_setClient hu]
    split
    · next h =>
      rw [h, hc] at hu
      cases hu
      exact ⟨_, rfl⟩
    · exact ⟨c.requests, hc⟩

theorem pending_removeSession (loops : ClientLoops) (uid : UInt32) (removed : UInt64)
    (other : UInt32) (requestId : UInt64) :
    (loops.removeSession uid removed).pending other requestId =
      if uid = other ∧ removed = requestId then none else loops.pending other requestId := by
  cases hc : loops.findClient uid with
  | none =>
    simp only [removeSession, hc]
    split
    · next h => rw [← h.1, pending, hc, Option.bind_none]
    · rfl
  | some client =>
    simp only [removeSession, hc]
    rw [pending_setClient hc, MyClient.findSession_removeSession]
    by_cases hu : uid = other
    · subst hu
      simp only [↓reduceIte, true_and, pending_eq hc]
    · simp only [hu, ↓reduceIte, false_and]

def oneClient (uid : UInt32) : ClientLoops :=
  Shards.put (.empty 1) 0 uid ⟨uid,"demo",⟨"127.0.0.1",8888,.kClientTypeTcp,true⟩,∅,[]⟩

theorem pending_oneClient (uid other : UInt32) (requestId : UInt64) :
    (oneClient uid).pending other requestId = none := by
  have hlt : 0 < (Shards.empty 1 : ClientLoops).length := by decide
  rw [pending, findClient, oneClient, Shards.get?_put _ hlt, Shards.get?_empty]
  split
  · exact ExtTreeMap.getElem?_empty
  · rfl

end ClientLoops

def MySession.answer (session : MySession) : MyMagicMessage :=
  { MyMagicMessage.heartbeatRequest session.requestId with isRequest := 0 }

/-- What `handlePacket` leaves to the executor: the session gets no payload, or
the payload of a message once it is decoded. -/
inductive SessionTask
  | heartbeat (request : MySession)
  | data (request : MySession) (payload : Option (List Byte))
deriving DecidableEq, Repr

def SessionTask.request : SessionTask → MySession
  | heartbeat request => request
  | data request _ => request

def clientIdOf (requestId : UInt64) : UInt32 := (requestId >>> 32).toUInt32

/-- The task for a message of a kind that sessions wait for. -/
def taskFor (magicMsg : MyMagicMessage) (request : MySession) : Option SessionTask :=
  if magicMsg.flag = kFlagHeartbeat then some (.heartbeat request)
  else if magicMsg.flag = kFlagData then some (.data request magicMsg.payload)
  else none

/-- `ServantProxy::handlePacket`, once the message is decoded. The session is
removed before its kind is looked at. -/
def handlePacket (loops : ClientLoops) (magicMsg : MyMagicMessage) :
    ClientLoops × Option SessionTask :=
  let clientId := clientIdOf magicMsg.requestId
  match loops.findClient clientId with
  | none => (loops,none)
  | some client => match client.findSession magicMsg.requestId with
    | none => (loops,none)
    | some request =>
      -- the connection that the packet came from is not looked at
      (loops.setClient clientId (client.removeSession magicMsg.requestId),taskFor magicMsg request)

theorem toNat_requestId (s : MySession) :
    s.requestId.toNat = s.client.toNat*2^32+s.builtAt.toNat := by
  have hc := s.client.toNat_lt
  have hb := s.builtAt.toNat_lt
  have hlt : s.client.toNat <<< 32 < 2^64 := by
    rw [Nat.shiftLeft_eq]
    omega
  calc s.requestId.toNat = s.client.toNat <<< 32%2^64 ||| s.builtAt.toNat := by
        rw [MySession.requestId, UInt64.toNat_or, UInt64.toNat_shiftLeft, UInt32.toNat_toUInt64,
          UInt32.toNat_toUInt64]
        rfl
    _ = s.client.toNat <<< 32 ||| s.builtAt.toNat := by rw [Nat.mod_eq_of_lt hlt]
    _ = s.client.toNat <<< 32+s.builtAt.toNat := (Nat.shiftLeft_add_eq_or_of_lt hb _).symm
    _ = s.client.toNat*2^32+s.builtAt.toNat := by rw [Nat.shiftLeft_eq]

/-- Sessions share a request id only if client and second agree. -/
theorem requestId_inj {s t : MySession} :
    s.requestId = t.requestId ↔ s.client = t.client ∧ s.builtAt = t.builtAt := by
  constructor
  · intro h
    have hn := congrArg UInt64.toNat h
    have hs := s.builtAt.toNat_lt
    have ht := t.builtAt.toNat_lt
    rw [toNat_requestId, toNat_requestId] at hn
    exact ⟨UInt32.toNat_inj.mp (by omega), UInt32.toNat_inj.mp (by omega)⟩
  · rintro ⟨hc, hb⟩
    rw [MySession.requestId, MySession.requestId, hc, hb]

theorem clientIdOf_requestId (s : MySession) : clientIdOf s.requestId = s.client := by
  have hb := s.builtAt.toNat_lt
  have hc := s.client.toNat_lt
  apply UInt32.toNat_inj.mp
  rw [clientIdOf, UInt64.toNat_toUInt32, UInt64.toNat_shiftRight, toNat_requestId,
    Nat.shiftRight_eq_div_pow]
  simp only [UInt64.reduceToNat, Nat.reduceMod]
  omega

theorem request_of_taskFor {m : MyMagicMessage} {request : MySession} {task : SessionTask}
    (h : taskFor m request = some task) : task.request = request := by
  unfold taskFor at h
  split_ifs at h <;> cases h <;> rfl

/-- A packet ends the session that waits under its request id, at the client
that the request id names. -/
theorem handlePacket_eq (loops : ClientLoops) (m : MyMagicMessage) :
    handlePacket loops m =
      ((loops.pending (clientIdOf m.requestId) m.requestId).elim loops fun _ =>
        loops.removeSession (clientIdOf m.requestId) m.requestId,
      (loops.pending (clientIdOf m.requestId) m.requestId).bind (taskFor m)) := by
  cases hc : loops.findClient (clientIdOf m.requestId) with
  | none =>
    simp only [handlePacket, ClientLoops.pending, hc, Option.bind_none, Option.elim_none]
  | some client =>
    cases hr : client.findSession m.requestId with
    | none =>
      simp only [handlePacket, ClientLoops.pending, hc, hr, Option.bind_some, Option.bind_none,
        Option.elim_none]
    | some request =>
      simp only [handlePacket, ClientLoops.pending, ClientLoops.removeSession, hc, hr,
        Option.bind_some, Option.elim_some]

theorem pending_handlePacket (loops : ClientLoops) (m : MyMagicMessage) (other : UInt32)
    (requestId : UInt64) : (handlePacket loops m).1.pending other requestId =
      if clientIdOf m.requestId = other ∧ m.requestId = requestId then none
      else loops.pending other requestId := by
  rw [handlePacket_eq]
  cases hp : loops.pending (clientIdOf m.requestId) m.requestId with
  | none =>
    split
    · next h => rw [← h.1, ← h.2, Option.elim_none, hp]
    · rfl
  | some request => exact ClientLoops.pending_removeSession ..

theorem findClient_handlePacket {loops : ClientLoops} {uid : UInt32} {c : MyClient}
    (hc : loops.findClient uid = some c) (m : MyMagicMessage) :
    ∃ requests, (handlePacket loops m).1.findClient uid = some { c with requests := requests } := by
  rw [handlePacket_eq]
  cases loops.pending (clientIdOf m.requestId) m.requestId with
  | none => exact ⟨c.requests, hc⟩
  | some request => exact ClientLoops.findClient_removeSession hc _ _

theorem request_of_handlePacket {loops : ClientLoops} {m : MyMagicMessage} {task : SessionTask}
    (h : (handlePacket loops m).2 = some task) :
    loops.pending (clientIdOf m.requestId) m.requestId = some task.request := by
  rw [handlePacket_eq] at h
  obtain ⟨request, hp, ht⟩ := Option.bind_eq_some_iff.mp h
  rw [hp, request_of_taskFor ht]

end EchoFrame
