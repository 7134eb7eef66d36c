import EchoFrame.ClientFraming
import EchoFrame.ServerAnswers
import Mathlib.Data.List.Forall2

/-! Calls and their answers, from the sessions of the clients over the stream to the
server, its dispatcher and the stream back, to the tasks for the same sessions. -/
namespace EchoFrame
open Verif MyMagicMessage MyServant

/-- What the messages from the network change: the sessions that wait, by the uid of
their client and their request id, and the tasks for those that are answered. -/
structure Sessions where
  pending : UInt32 → UInt64 → Option MySession
  tasks : List SessionTask

namespace Sessions

/-- A message ends the session it names, which gets its task. -/
def message (v : Sessions) (m : MyMagicMessage) : Sessions where
  pending uid requestId :=
    if clientIdOf m.requestId = uid ∧ m.requestId = requestId then none else v.pending uid requestId
  tasks := v.tasks ++ ((v.pending (clientIdOf m.requestId) m.requestId).bind (taskFor m)).toList

def packet (v : Sessions) (bytes : List Byte) : Sessions :=
  match decode bytes with
  | none => v
  | some m => v.message m

def answer (v : Sessions) (request : MySession) (task : SessionTask) : Sessions where
  pending uid requestId :=
    if request.client = uid ∧ request.requestId = requestId then none else v.pending uid requestId
  tasks := v.tasks ++ [task]

theorem pending_answer_self (v : Sessions) (request : MySession) (task : SessionTask) :
    (v.answer request task).pending request.client request.requestId = none :=
  if_pos ⟨rfl, rfl⟩

theorem pending_answer_of_ne (v : Sessions) {request : MySession} (task : SessionTask)
    (uid : UInt32) {requestId : UInt64} (hne : request.requestId ≠ requestId) :
    (v.answer request task).pending uid requestId = v.pending uid requestId :=
  if_neg fun hboth => hne hboth.2

theorem message_of_pending {v : Sessions} {m : MyMagicMessage} {request : MySession}
    {task : SessionTask} (hid : m.requestId = request.requestId)
    (hpending : v.pending request.client request.requestId = some request)
    (htask : taskFor m request = some task) : v.message m = v.answer request task := by
  unfold message answer
  rw [hid, clientIdOf_requestId, hpending, Option.bind_some, htask]
  rfl

end Sessions

namespace ProxyState

def sessions (s : ProxyState) : Sessions where
  pending := s.loops.pending
  tasks := s.tasks

variable {s t : ProxyState} {uid : UInt32} {client : MyClient} {calls : List ProxyCall}

/-- The sessions do not depend on the bytes that are buffered. -/
theorem sessions_setClient (hc : s.loops.findClient uid = some client) (c : MyClient)
    (hrequests : c.requests = client.requests) :
    sessions { s with loops := s.loops.setClient uid c } = s.sessions := by
  have hpending : (s.loops.setClient uid c).pending = s.loops.pending := by
    funext other requestId
    exact ClientLoops.pending_setClient_of_requests hc hrequests other requestId
  simp only [sessions, hpending]

theorem sessions_handleFrame (s : ProxyState) (iobuf : List Byte) :
    (MyProxy.handleFrame s iobuf).1.sessions = s.sessions.packet iobuf := by
  unfold MyProxy.handleFrame Sessions.packet
  cases decode iobuf with
  | none => rfl
  | some m =>
    have hpending : (handlePacket s.loops m).1.pending = (s.sessions.message m).pending := by
      funext other requestId
      exact pending_handlePacket s.loops m other requestId
    have htask := congrArg Prod.snd (handlePacket_eq s.loops m)
    simp only [sessions, hpending, htask, Sessions.message]

/-- The magic codec finds no packet to be in error. -/
theorem isPacketComplete_ne_error (buf : List Byte) :
    isPacketComplete buf ≠ .kPacketStatusError := by
  unfold isPacketComplete
  split
  · exact PacketStatus.noConfusion
  · exact PacketStatus.noConfusion

/-- An iteration of the loop of `onRead` makes no call and is the last one, or it hands
over one packet. -/
theorem sessions_onReadBody (uid : UInt32) (s : ProxyState) :
    (MyProxy.onReadCall MyMagicCodec uid s = [] ∧
        MyProxy.onReadBody MyMagicCodec uid s = (s, false)) ∨
      ∃ bytes, MyProxy.onReadCall MyMagicCodec uid s = [.handlePacket bytes] ∧
        (MyProxy.onReadBody MyMagicCodec uid s).1.sessions = s.sessions.packet bytes := by
  unfold MyProxy.onReadCall MyProxy.onReadBody
  cases hc : s.loops.findClient uid with
  | none => exact .inl ⟨rfl, rfl⟩
  | some client =>
    dsimp only
    by_cases hnil : client.readBuffer.length = 0
    · rw [if_pos hnil, if_pos hnil]
      exact .inl ⟨rfl, rfl⟩
    · rw [if_neg hnil, if_neg hnil]
      cases hstatus : MyMagicCodec.isPacketComplete client.readBuffer with
      | kPacketStatusIncomplete => exact .inl ⟨rfl, rfl⟩
      | kPacketStatusError => exact absurd hstatus (isPacketComplete_ne_error _)
      | kPacketStatusComplete =>
        dsimp only
        split
        · exact .inl ⟨rfl, rfl⟩
        · refine .inr ⟨_, rfl, ?_⟩
          have hset := sessions_setClient hc (client.fetchPayload
            (MyMagicCodec.getPacketLength client.readBuffer)).2 rfl
          rw [sessions_handleFrame, hset]
          rfl

/-- What the packets of one event do to the sessions, one after the other. -/
theorem sessions_of_emits (h : Emits (MyProxy.onReadBody MyMagicCodec uid)
    (MyProxy.onReadCall MyMagicCodec uid) s calls t) :
    ∃ packets : List (List Byte), calls = packets.map .handlePacket ∧
      t.sessions = packets.foldl Sessions.packet s.sessions := by
  induction h with
  | @stop s t h =>
    rcases sessions_onReadBody uid s with ⟨hcall, hbody⟩ | ⟨bytes, hcall, hsessions⟩
    · cases hbody.symm.trans h
      exact ⟨[], hcall, rfl⟩
    · rw [h] at hsessions
      exact ⟨[bytes], hcall, hsessions⟩
  | @again s t u calls h _ ih =>
    rcases sessions_onReadBody uid s with ⟨_, hbody⟩ | ⟨bytes, hcall, hsessions⟩
    · cases hbody.symm.trans h
    · rw [h] at hsessions
      obtain ⟨packets, rfl, ht⟩ := ih
      refine ⟨bytes :: packets, ?_, ?_⟩
      · rw [hcall]
        rfl
      · rw [ht, List.foldl_cons, ← hsessions]

theorem sessions_of_arrival {reads : List (List Byte)}
    (h : MyProxy.OnReadCalls MyMagicCodec uid (.arrival reads) s calls t) :
    ∃ packets : List (List Byte), calls = packets.map .handlePacket ∧
      t.sessions = packets.foldl Sessions.packet s.sessions := by
  unfold MyProxy.OnReadCalls at h
  cases hc : s.loops.findClient uid with
  | none =>
    rw [hc] at h
    obtain ⟨rfl, rfl⟩ := h
    exact ⟨[], rfl, rfl⟩
  | some client =>
    simp only [hc, MyClient.onRead_eq, ReadEvent.closes_eq] at h
    obtain ⟨packets, hcalls, ht⟩ := sessions_of_emits h
    refine ⟨packets, hcalls, ?_⟩
    rw [ht, sessions_setClient hc (client.receive (ReadEvent.arrival reads).bytes) rfl]

/-- The events of a connection, as far as the sessions go, are the packets they hand over. -/
theorem sessions_of_reads {arrivals : List (List (List Byte))}
    (h : MyProxy.Reads MyMagicCodec uid s (arrivals.map .arrival) calls t) :
    ∃ packets : List (List Byte), calls = packets.map .handlePacket ∧
      t.sessions = packets.foldl Sessions.packet s.sessions := by
  induction arrivals generalizing s calls with
  | nil =>
    cases h
    exact ⟨[], rfl, rfl⟩
  | cons reads arrivals ih =>
    cases h with
    | cons h hrest =>
      obtain ⟨packets, rfl, hmid⟩ := sessions_of_arrival h
      obtain ⟨packets', rfl, ht⟩ := ih hrest
      refine ⟨packets ++ packets', List.map_append.symm, ?_⟩
      rw [List.foldl_append, ← hmid, ht]

end ProxyState

def MyMagicMessage.dataRequest (requestId : UInt64) (payload : List Byte) : MyMagicMessage where
  length := .ofNat (headLen+payload.length)
  version := 1
  flag := kFlagData
  isRequest := 1
  requestId := requestId
  serverNumber := 0
  payload := some payload

/-- A session and what is sent for it: a heartbeat, or a payload that is not empty and
that the length field can count. -/
structure SentCall where
  session : MySession
  payload : Option (List Byte)
  fits : ∀ bytes ∈ payload, bytes ≠ [] ∧ headLen+bytes.length < 2^32

namespace SentCall

def request (call : SentCall) : MyMagicMessage :=
  match call.payload with
  | none => heartbeatRequest call.session.requestId
  | some bytes => dataRequest call.session.requestId bytes

/-- What the server answers when the payload is served with `serve`. -/
def response (serve : List Byte → Option (List Byte)) (call : SentCall) : MyMagicMessage :=
  match call.payload with
  | none => { call.request with isRequest := 0 }
  | some bytes => MyMagicDispatcher.rspMsg call.request (serve bytes)

/-- The task for the session once it is answered. An empty payload arrives as none. -/
def task (serve : List Byte → Option (List Byte)) (call : SentCall) : SessionTask :=
  match call.payload with
  | none => .heartbeat call.session
  | some bytes => .data call.session ((serve bytes).filter fun bs => !bs.isEmpty)

/-- The dispatcher of the server answers the payload, with no more than a frame holds. -/
def Served (dispatchPayload : DispatchPayload) (serve : List Byte → Option (List Byte))
    (call : SentCall) : Prop :=
  ∀ bytes ∈ call.payload, headLen+((serve bytes).getD []).length < 2^32 ∧
    dispatchPayload (some bytes) true = .ok ⟨.kHandleResultSuccess, serve bytes, true⟩

variable {dispatchPayload : DispatchPayload} {serve : List Byte → Option (List Byte)}

theorem length_request (call : SentCall) :
    call.request.length.toNat = headLen+(call.request.payload.getD []).length := by
  have hfits := call.fits
  unfold request
  cases hpayload : call.payload with
  | none => rfl
  | some bytes =>
    have hlt := (hfits bytes hpayload).2
    exact UInt32.toNat_ofNat_of_lt hlt

def frame (call : SentCall) : Frame := call.request.frame call.length_request

theorem decode_frame (call : SentCall) : decode call.frame.bytes = some call.request := by
  apply decode_encode
  have hfits := call.fits
  unfold request
  cases hpayload : call.payload with
  | none => exact fun h => nomatch h
  | some bytes => exact fun h => (hfits bytes hpayload).1 (Option.some.inj h)

theorem requestId_request (call : SentCall) : call.request.requestId = call.session.requestId := by
  unfold request
  cases call.payload <;> rfl

theorem requestId_response (call : SentCall) :
    (call.response serve).requestId = call.session.requestId := by
  rw [← requestId_request call]
  unfold response
  cases call.payload <;> rfl

theorem length_response {call : SentCall} (h : call.Served dispatchPayload serve) :
    (call.response serve).length.toNat = headLen+((call.response serve).payload.getD []).length := by
  unfold response
  cases hpayload : call.payload with
  | none => exact call.length_request
  | some bytes => exact (rspMsg_length_iff call.request (serve bytes)).mpr (h bytes hpayload).1

def responseFrame {call : SentCall} (h : call.Served dispatchPayload serve) : Frame :=
  (call.response serve).frame (length_response h)

/-- The packet of a call is answered with its response, and with nothing else. -/
theorem handlePacket_frame {call : SentCall} (h : call.Served dispatchPayload serve) :
    MyDispatcher.handlePacket (MyMagicDispatcher.dispatchPacket dispatchPayload) call.frame.bytes
      true = .ok (answerWith true (call.response serve).encode) := by
  have hdecode := call.decode_frame
  unfold response
  cases hpayload : call.payload with
  | none =>
    refine MyDispatcher.handlePacket_heartbeat hdecode ?_ call.length_request
    rw [request, hpayload]
    rfl
  | some bytes =>
    have hrequest : call.request = dataRequest call.session.requestId bytes := by
      rw [request, hpayload]
    obtain ⟨hfits, hserved⟩ := h bytes hpayload
    rw [hrequest] at hdecode ⊢
    exact MyDispatcher.handlePacket_response hdecode rfl hserved rfl fun _ => hfits

/-- The response ends the session of its call, and the task is for this session. -/
theorem packet_response {call : SentCall} {v : Sessions}
    (hpending : v.pending call.session.client call.session.requestId = some call.session) :
    v.packet (call.response serve).encode = v.answer call.session (call.task serve) := by
  unfold Sessions.packet
  rw [decode_encode_filter]
  have hid : MyMagicMessage.requestId { call.response serve with
      payload := (call.response serve).payload.filter fun bs => !bs.isEmpty } =
      call.session.requestId := requestId_response call
  refine Sessions.message_of_pending hid hpending ?_
  unfold response task request
  cases call.payload <;> rfl

/-- The responses end the sessions of their calls, in whatever order they come, and leave
the others alone. -/
theorem packets_responses {calls : List SentCall} {v : Sessions}
    (hpending : ∀ call ∈ calls,
      v.pending call.session.client call.session.requestId = some call.session)
    (hdistinct : (calls.map fun call => call.session.requestId).Nodup) :
    let t := (calls.map fun call => (call.response serve).encode).foldl Sessions.packet v
    t.tasks = v.tasks ++ calls.map (task serve) ∧
      (∀ call ∈ calls, t.pending call.session.client call.session.requestId = none) ∧
      ∀ uid requestId, (∀ call ∈ calls, call.session.requestId ≠ requestId) →
        t.pending uid requestId = v.pending uid requestId := by
  induction calls generalizing v with
  | nil => exact ⟨(List.append_nil _).symm, fun _ h => absurd h List.not_mem_nil, fun _ _ _ => rfl⟩
  | cons call calls ih =>
    rw [List.forall_mem_cons] at hpending
    obtain ⟨hcall, hpending⟩ := hpending
    rw [List.map_cons, List.nodup_cons] at hdistinct
    obtain ⟨hnot, hdistinct⟩ := hdistinct
    have hother (other : SentCall) (hmem : other ∈ calls) :
        call.session.requestId ≠ other.session.requestId := fun heq =>
      hnot (List.mem_map.mpr ⟨other, hmem, heq.symm⟩)
    rw [List.map_cons, List.foldl_cons, packet_response hcall]
    have hnext : ∀ other ∈ calls, (v.answer call.session (call.task serve)).pending
        other.session.client other.session.requestId = some other.session := by
      intro other hmem
      rw [Sessions.pending_answer_of_ne v _ _ (hother other hmem)]
      exact hpending other hmem
    obtain ⟨htasks, hended, hkept⟩ := ih hnext hdistinct
    refine ⟨?_, ?_, ?_⟩
    · rw [htasks]
      exact List.append_assoc v.tasks [call.task serve] (calls.map (task serve))
    · rw [List.forall_mem_cons]
      refine ⟨?_, hended⟩
      rw [hkept _ _ fun other h heq => hother other h heq.symm]
      exact Sessions.pending_answer_self v call.session _
    · intro uid requestId hne
      rw [List.forall_mem_cons] at hne
      rw [hkept uid requestId hne.2]
      exact Sessions.pending_answer_of_ne v _ uid hne.1

end SentCall

theorem progress_zero (frames : List Frame) : progress frames 0 = .empty := by
  obtain ⟨_, hzero⟩ := Nat.add_eq_zero_iff.mp (length_complete_add_residue frames 0)
  cases frames with
  | nil => rfl
  | cons f fs =>
    have hhead := f.headLen_le
    have hnot : ¬ f.bytes.length ≤ 0 := by
      unfold headLen at hhead
      omega
    rw [progress, hzero, complete, if_neg hnot]
    rfl

/-- A channel that gets a stream whose cuts are clear hands all frames over. -/
theorem receives_of_cutsClear {frames : List Frame} {chunks : List (List Byte)}
    (hcut : chunks.flatten = stream frames) (hclear : CutsClear frames 0 chunks) :
    Receives .empty chunks ⟨[], dispatches frames⟩ := by
  have hreceives := (receives_iff (Nat.zero_le _) hcut.symm
    (progress frames (stream frames).length)).mpr ⟨hclear, rfl⟩
  obtain ⟨hcomplete, _, hresidue⟩ := split_stream frames
  have hend : progress frames (stream frames).length = ⟨[], dispatches frames⟩ := by
    rw [progress, hcomplete, hresidue, List.take_zero]
  rwa [progress_zero, hend] at hreceives

namespace SentCall

variable {dispatchPayload : DispatchPayload} {serve : List Byte → Option (List Byte)}

def Answers (dispatchPayload : DispatchPayload) (calls : List SentCall) (answers : List Answer) :
    Prop :=
  List.Forall₂ (fun call answer => MyDispatcher.handlePacket
    (MyMagicDispatcher.dispatchPacket dispatchPayload) call.frame.bytes true = .ok answer)
    calls answers

theorem answers_eq {calls : List SentCall} {answers : List Answer}
    (hserved : ∀ call ∈ calls, call.Served dispatchPayload serve)
    (h : Answers dispatchPayload calls answers) :
    answers = calls.map fun call => answerWith true (call.response serve).encode := by
  induction h with
  | nil => rfl
  | cons hanswer _ ih =>
    rw [List.forall_mem_cons] at hserved
    rw [List.map_cons, ← ih hserved.2]
    congr 1
    exact Except.ok.inj (hanswer.symm.trans (handlePacket_frame hserved.1))

theorem exists_answers {calls : List SentCall}
    (hserved : ∀ call ∈ calls, call.Served dispatchPayload serve) :
    ∃ answers, Answers dispatchPayload calls answers := by
  refine ⟨calls.map fun call => answerWith true (call.response serve).encode, ?_⟩
  rw [Answers, List.forall₂_map_right_iff, List.forall₂_same]
  exact fun call hmem => handlePacket_frame (hserved call hmem)

/-- The responses to some calls are a stream of frames. -/
theorem exists_responseFrames {calls : List SentCall}
    (hserved : ∀ call ∈ calls, call.Served dispatchPayload serve) :
    ∃ frames : List Frame,
      frames.map Frame.bytes = calls.map fun call => (call.response serve).encode := by
  refine ⟨calls.pmap (fun _ h => responseFrame h) hserved, ?_⟩
  rw [List.map_pmap]
  exact List.pmap_eq_map _

/-- The bytes of some responses, cut in any way, are as many packets for the sessions. -/
theorem sessions_of_responses {received : List SentCall}
    (hserved : ∀ call ∈ received, call.Served dispatchPayload serve) {uid : UInt32}
    {s t : ProxyState} (hconn : MyProxy.bufferOf uid s = some [])
    {arrivals : List (List (List Byte))} {made : List ProxyCall}
    (harrivals : arrivals.flatten.flatten =
      (received.map fun call => (call.response serve).encode).flatten)
    (h : MyProxy.Reads MyMagicCodec uid s (arrivals.map .arrival) made t) :
    MyProxy.bufferOf uid t = some [] ∧ t.sessions =
      (received.map fun call => (call.response serve).encode).foldl Sessions.packet s.sessions := by
  obtain ⟨frames, hframes⟩ := exists_responseFrames hserved
  obtain ⟨packets, rest, hcut, hspent, ht, hmade⟩ := MyProxy.cuts_of_reads hconn h
  obtain ⟨packets', hmade', hsessions⟩ := ProxyState.sessions_of_reads h
  have hstream : stream frames = arrivals.flatten.flatten := by
    rw [harrivals, ← hframes, stream, List.flatMap_def]
  rw [List.nil_append, ← hstream] at hcut
  obtain ⟨rfl, rfl⟩ := MyProxy.packets_of_stream hcut (hspent (.inl rfl))
  have hsame : packets' = received.map fun call => (call.response serve).encode := by
    rw [← hframes]
    refine List.map_injective_iff.mpr ?_ (hmade'.symm.trans hmade)
    exact fun _ _ heq => ProxyCall.handlePacket.inj heq
  rw [hsame] at hsessions
  exact ⟨ht, hsessions⟩

/-- The bytes of the responses end the sessions of the calls in the order of the responses,
each with its own task, and no other session. -/
theorem reads_responses {calls : List SentCall}
    (hserved : ∀ call ∈ calls, call.Served dispatchPayload serve) {uid : UInt32}
    {s t : ProxyState} (hconn : MyProxy.bufferOf uid s = some [])
    (hpending : ∀ call ∈ calls,
      s.loops.pending call.session.client call.session.requestId = some call.session)
    (hdistinct : (calls.map fun call => call.session.requestId).Nodup)
    {arrivals : List (List (List Byte))} {made : List ProxyCall}
    (harrivals : arrivals.flatten.flatten =
      (calls.map fun call => (call.response serve).encode).flatten)
    (h : MyProxy.Reads MyMagicCodec uid s (arrivals.map .arrival) made t) :
    MyProxy.bufferOf uid t = some [] ∧ t.tasks = s.tasks ++ calls.map (task serve) ∧
      (∀ call ∈ calls, t.loops.pending call.session.client call.session.requestId = none) ∧
      ∀ uid requestId, (∀ call ∈ calls, call.session.requestId ≠ requestId) →
        t.loops.pending uid requestId = s.loops.pending uid requestId := by
  obtain ⟨ht, hsessions⟩ := sessions_of_responses hserved hconn harrivals h
  obtain ⟨htasks, hended, hkept⟩ :=
    @packets_responses serve calls s.sessions hpending hdistinct
  rw [← hsessions] at htasks hended hkept
  exact ⟨ht, htasks, hended, hkept⟩

end SentCall

open SentCall in
/-- Calls on one connection. However their bytes are cut on the way, as long as no cut leaves
one to four bytes of a frame, the server hands each packet to the dispatcher once; and in
whatever order it answers, and however the bytes of the answers are cut, each call gets the
answer to its own payload, its session waits no more, and no other session is touched. -/
theorem exchange_completes {dispatchPayload : DispatchPayload}
    {serve : List Byte → Option (List Byte)} {calls : List SentCall}
    (hserved : ∀ call ∈ calls, call.Served dispatchPayload serve) {uid : UInt32} {s : ProxyState}
    (hconn : MyProxy.bufferOf uid s = some [])
    (hpending : ∀ call ∈ calls,
      s.loops.pending call.session.client call.session.requestId = some call.session)
    (hdistinct : (calls.map fun call => call.session.requestId).Nodup)
    {chunks : List (List Byte)} (hchunks : chunks.flatten = stream (calls.map frame))
    (hclear : CutsClear (calls.map frame) 0 chunks) :
    ∃ channel, Receives .empty chunks channel ∧ channel.readBuf = [] ∧
      channel.events = (calls.map fun call => .handlePacket call.frame.bytes) ∧
      ∀ order, order.Perm calls → ∀ answers, Answers dispatchPayload order answers →
        ∀ arrivals : List (List (List Byte)),
          arrivals.flatten.flatten = (answers.flatMap Answer.sent).flatten →
        (∃ made t, MyProxy.Reads MyMagicCodec uid s (arrivals.map .arrival) made t) ∧
        ∀ made t, MyProxy.Reads MyMagicCodec uid s (arrivals.map .arrival) made t →
          MyProxy.bufferOf uid t = some [] ∧ t.tasks = s.tasks ++ order.map (task serve) ∧
          (∀ call ∈ calls, t.loops.pending call.session.client call.session.requestId = none) ∧
          ∀ uid requestId, (∀ call ∈ calls, call.session.requestId ≠ requestId) →
            t.loops.pending uid requestId = s.loops.pending uid requestId := by
  refine ⟨_, receives_of_cutsClear hchunks hclear, rfl, List.map_map, ?_⟩
  intro order horder answers hanswers arrivals harrivals
  refine ⟨MyProxy.reads_return _ _ _ _, ?_⟩
  intro made t hreads
  have hserved' : ∀ call ∈ order, call.Served dispatchPayload serve := fun call hmem =>
    hserved call (horder.subset hmem)
  have hbytes : arrivals.flatten.flatten =
      (order.map fun call => (call.response serve).encode).flatten := by
    rw [harrivals, answers_eq hserved' hanswers, List.flatMap_map]
    exact congrArg List.flatten List.map_eq_flatMap.symm
  obtain ⟨hbuffer, htasks, hended, hkept⟩ := reads_responses hserved' hconn
    (fun call hmem => hpending call (horder.subset hmem))
    ((horder.map _).nodup_iff.mpr hdistinct) hbytes hreads
  refine ⟨hbuffer, htasks, fun call hmem => hended call (horder.symm.subset hmem), ?_⟩
  intro uid requestId hne
  exact hkept uid requestId fun call hmem => hne call (horder.subset hmem)

def heartbeatCall : SentCall := ⟨⟨0, 0x70001, 5⟩, none, by simp⟩

def dataCall : SentCall := ⟨⟨1, 0x70001, 6⟩, some [8, 9], by decide⟩

def twoCalls : List SentCall := [heartbeatCall, dataCall]

def twoSessions : ProxyState where
  loops := (ClientLoops.oneClient 0x70001).setClient 0x70001
    (((MyClient.mk 0x70001 "demo" ⟨"127.0.0.1", 8888, .kClientTypeTcp, true⟩ ∅ []).addSession
      ⟨0, 0x70001, 5⟩).addSession ⟨1, 0x70001, 6⟩)
  tasks := []

theorem bufferOf_twoSessions : MyProxy.bufferOf 0x70001 twoSessions = some [] := rfl

theorem pending_twoCalls : ∀ call ∈ twoCalls,
    twoSessions.loops.pending call.session.client call.session.requestId = some call.session := by
  simp only [twoCalls, List.forall_mem_cons]
  exact ⟨rfl, rfl, fun _ h => absurd h List.not_mem_nil⟩

def echo : DispatchPayload := fun payload needResponse =>
  .ok ⟨.kHandleResultSuccess, payload, needResponse⟩

theorem served_echo (call : SentCall) : call.Served echo some := fun bytes hbytes =>
  ⟨(call.fits bytes hbytes).2, rfl⟩

/-- The server echoes payloads; the requests come in two chunks, and the answers the other
way round in one read. -/
theorem exchange_completes_two :
    let requests := stream (twoCalls.map SentCall.frame)
    let responses := (twoCalls.reverse.map fun call => (call.response some).encode).flatten
    (∃ channel, Receives .empty [requests.take 9, requests.drop 9] channel) ∧
    ∀ made t, MyProxy.Reads MyMagicCodec 0x70001 twoSessions [.arrival [responses]] made t →
      t.tasks = [.data ⟨1, 0x70001, 6⟩ (some [8, 9]), .heartbeat ⟨0, 0x70001, 5⟩] := by
  intro requests responses
  have hchunks : [requests.take 9, requests.drop 9].flatten = stream (twoCalls.map SentCall.frame) := by
    decide
  obtain ⟨channel, hreceives, -, -, hall⟩ :=
    exchange_completes (fun call _ => served_echo call) bufferOf_twoSessions pending_twoCalls
      (by decide) hchunks (by decide)
  refine ⟨⟨channel, hreceives⟩, ?_⟩
  intro made t hreads
  have hanswers : SentCall.Answers echo twoCalls.reverse
      (twoCalls.reverse.map fun call => answerWith true (call.response some).encode) :=
    .cons rfl (.cons rfl .nil)
  exact ((hall _ (List.reverse_perm _) _ hanswers [[responses]] (by decide)).2 made t hreads).2.1

end EchoFrame
