import EchoFrame.Exchange
import EchoFrame.UdpDatagrams
import EchoFrame.UdpWriteQueue
import Mathlib.Data.List.TakeWhile

/-! Calls and their answers over UDP, where datagrams are lost, doubled and reordered. -/
namespace EchoFrame
open Verif MyMagicMessage MyServant

/-- The loop of `onRead` of a UDP client: each datagram is put behind the bytes that are
buffered, as far as it fits; a read that finds no more, or an empty datagram, ends it. -/
def MyUdpClient.onRead (c : MyClient) : List (List Byte) → ℤ → MyClient × ℤ
  | [], _ => (c, -1)
  | datagram :: datagrams, rv =>
    let bytes := datagram.take g_max_udp_packet_length
    if bytes.length ≤ 0 then (c, -1)
    else MyUdpClient.onRead (c.receive bytes) datagrams (rv+bytes.length)

/-- A read event of a UDP client: the datagrams before an empty one, of which the end may be
cut off. -/
def udpArrival (datagrams : List (List Byte)) : ReadEvent :=
  .arrival ((datagrams.map fun d => d.take g_max_udp_packet_length).takeWhile fun bytes =>
    !bytes.isEmpty)

/-- The client has then what a TCP client has of as many reads. -/
theorem MyUdpClient.onRead_eq (c : MyClient) (datagrams : List (List Byte)) :
    MyUdpClient.onRead c datagrams 0 = c.onRead (udpArrival datagrams) := by
  have hloop (rv : ℤ) : MyUdpClient.onRead c datagrams rv = readLoop MyClient.receive .drained
      ((datagrams.map fun d => d.take g_max_udp_packet_length).takeWhile fun bytes =>
        !bytes.isEmpty) rv c := by
    induction datagrams generalizing c rv with
    | nil => rfl
    | cons d datagrams ih =>
      rw [MyUdpClient.onRead, List.map_cons]
      cases hbytes : d.take g_max_udp_packet_length with
      | nil => rfl
      | cons byte bytes =>
        rw [List.takeWhile_cons_of_pos rfl, readLoop, ← ih]
        rfl
  exact hloop 0

/-- Datagrams that are not empty nor too long arrive as they are. -/
theorem map_udpArrival {arrivals : List (List (List Byte))}
    (hne : ∀ d ∈ arrivals.flatten, d ≠ [])
    (hlen : ∀ d ∈ arrivals.flatten, d.length ≤ g_max_udp_packet_length) :
    arrivals.map udpArrival = arrivals.map .arrival := by
  apply List.map_congr_left
  intro datagrams hdatagrams
  have hmem {d : List Byte} (hd : d ∈ datagrams) : d ∈ arrivals.flatten :=
    List.mem_flatten.mpr ⟨datagrams, hdatagrams, hd⟩
  have hsame : datagrams.map (fun d => d.take g_max_udp_packet_length) = datagrams := by
    conv_rhs => rw [← List.map_id datagrams]
    apply List.map_congr_left
    intro d hd
    exact List.take_of_length_le (hlen d (hmem hd))
  have hall : datagrams.takeWhile (fun bytes => !bytes.isEmpty) = datagrams := by
    rw [List.takeWhile_eq_self_iff]
    intro d hd
    rw [Bool.not_eq_true', List.isEmpty_eq_false_iff]
    exact hne d (hmem hd)
  rw [udpArrival, hsame, hall]

namespace UdpWriteChannel

/-- What the channel holds after some responses and write events. -/
theorem holds_of_run {c d : UdpWriteChannel} {responses waiting : List (List Byte)}
    (h : c.Holds responses waiting) {events : List UdpWriteEvent}
    (hfits : ∀ event ∈ events, event.Fits) (hrun : run step c events = some d) :
    ∃ left, d.Holds (responses ++ events.filterMap UdpWriteEvent.response) left := by
  induction events generalizing c responses waiting with
  | nil =>
    rw [run_nil] at hrun
    cases hrun
    rw [List.filterMap_nil, List.append_nil]
    exact ⟨waiting, h⟩
  | cons event events ih =>
    obtain ⟨mid, hstep, hrun⟩ := run_cons_eq_some.mp hrun
    rw [List.forall_mem_cons] at hfits
    cases event with
    | sendResponse buf =>
      cases hstep
      obtain ⟨left, hleft⟩ := ih (h.sendResponse hfits.1) hfits.2 hrun
      rw [List.append_assoc] at hleft
      exact ⟨left, hleft⟩
    | onWrite takes =>
      obtain ⟨next, waiting', hnext, hholds, -⟩ := h.onWrite takes
      obtain rfl := Option.some.inj (hnext.symm.trans hstep)
      exact ih hholds hfits.2 hrun

/-- Every datagram that `sendto` is given is a response. -/
theorem mem_response_of_mem_calls {events : List UdpWriteEvent}
    (hfits : ∀ event ∈ events, event.Fits) {c : UdpWriteChannel}
    (hrun : run step empty events = some c) {d : List Byte} {taken : Bool}
    (hd : (d, taken) ∈ c.calls) : d ∈ events.filterMap UdpWriteEvent.response := by
  have hempty : empty.Holds [] [] := ⟨by simp, rfl, rfl, by simp [empty]⟩
  obtain ⟨left, hleft⟩ := holds_of_run hempty hfits hrun
  have hmem : d ∈ ([] ++ events.filterMap UdpWriteEvent.response).filter (· ≠ []) := by
    rw [← hleft.calls]
    exact List.mem_append_left _ (List.mem_map.mpr ⟨_, hd, rfl⟩)
  exact List.mem_of_mem_filter hmem

end UdpWriteChannel

namespace UdpReader

/-- Datagrams that are frames go to the dispatcher as they are, in their order. -/
theorem exists_iterate_frames (packets : List (List Byte)) {frames : List Frame}
    (hlen : ∀ f ∈ frames, f.bytes.length ≤ g_max_udp_packet_length) :
    ∃ i, step^[i] ⟨frames.map Frame.bytes, ⟨[], packets.map .handlePacket⟩, false⟩ =
      ⟨[], ⟨[], (packets ++ frames.map Frame.bytes).map .handlePacket⟩, false⟩ := by
  induction frames generalizing packets with
  | nil =>
    refine ⟨0, ?_⟩
    rw [List.map_nil, List.append_nil]
    rfl
  | cons f frames ih =>
    rw [List.forall_mem_cons] at hlen
    have hne : f.bytes ≠ [] := (cuts_frame f).ne_nil f.bytes List.mem_cons_self
    have hsettles : Settles ([] ++ f.bytes) := (settles_cut_iff (cuts_frame f)).mpr .done
    obtain ⟨j, packets', rest, hj, hcut, hwaits⟩ :=
      exists_iterate_of_settles (frames.map Frame.bytes) packets hne hlen.1 hsettles
    rw [List.nil_append] at hcut
    obtain ⟨more, rfl⟩ := hcut.prefix_of_waits hwaits (cuts_frame f)
    have hflat := hcut.flatten_append
    rw [List.singleton_append, List.flatten_cons, List.append_assoc] at hflat
    obtain ⟨hmore, hrest⟩ := List.append_eq_nil_iff.mp (List.append_right_eq_self.mp hflat)
    have hnone : more = [] := by
      cases more with
      | nil => rfl
      | cons packet more =>
        have hpacket := hcut.ne_nil packet (List.mem_append_right _ List.mem_cons_self)
        exact absurd (List.append_eq_nil_iff.mp hmore).1 hpacket
    rw [hnone, hrest] at hj
    obtain ⟨i, hi⟩ := ih (packets ++ [f.bytes]) hlen.2
    refine ⟨i+j, ?_⟩
    rw [Function.iterate_add_apply, List.map_cons, hj, List.append_nil, hi, List.append_assoc]
    rfl

end UdpReader

namespace SentCall

variable {dispatchPayload : DispatchPayload} {serve : List Byte → Option (List Byte)}
  {calls received answered : List SentCall} {v w : Sessions} {call : SentCall}

/-- After some responses: the calls that were answered, each once and with its own task, are
no longer pending, and nothing else has changed. -/
structure AnsweredOnce (serve : List Byte → Option (List Byte)) (v : Sessions)
    (answered : List SentCall) (w : Sessions) : Prop where
  once : (answered.map fun call => call.session.requestId).Nodup
  tasks : w.tasks = v.tasks ++ answered.map (task serve)
  ended : ∀ call ∈ answered, w.pending call.session.client call.session.requestId = none
  kept : ∀ uid requestId, (∀ call ∈ answered, call.session.requestId ≠ requestId) →
    w.pending uid requestId = v.pending uid requestId

theorem answeredOnce_nil (serve : List Byte → Option (List Byte)) (v : Sessions) :
    AnsweredOnce serve v [] v :=
  ⟨.nil, (List.append_nil _).symm, fun _ h => absurd h List.not_mem_nil, fun _ _ _ => rfl⟩

/-- A message for a session that is not waiting changes nothing. -/
theorem message_of_ended {m : MyMagicMessage}
    (hended : v.pending (clientIdOf m.requestId) m.requestId = none) : v.message m = v := by
  unfold Sessions.message
  rw [hended]
  have htasks : v.tasks ++ ((none : Option MySession).bind (taskFor m)).toList = v.tasks :=
    List.append_nil _
  have hpending : (fun uid requestId => if clientIdOf m.requestId = uid ∧ m.requestId = requestId
      then none else v.pending uid requestId) = v.pending := by
    funext uid requestId
    split
    · next h =>
      rw [← h.1, ← h.2]
      exact hended.symm
    · rfl
  rw [htasks, hpending]

theorem packet_of_ended (hended : v.pending call.session.client call.session.requestId = none) :
    v.packet (call.response serve).encode = v := by
  unfold Sessions.packet
  rw [decode_encode_filter]
  apply message_of_ended
  have hid : MyMagicMessage.requestId { call.response serve with
      payload := (call.response serve).payload.filter fun bs => !bs.isEmpty } =
      call.session.requestId := requestId_response call
  rw [hid, clientIdOf_requestId]
  exact hended

/-- One more response answers its call, if it is the first one to it. -/
theorem answeredOnce_packet (h : AnsweredOnce serve v answered w)
    (hpending : v.pending call.session.client call.session.requestId = some call.session) :
    ∃ answered', AnsweredOnce serve v answered' (w.packet (call.response serve).encode) ∧
      (∀ c ∈ answered', c ∈ answered ∨ c = call) ∧ (∀ c ∈ answered, c ∈ answered') ∧
      ∃ c ∈ answered', c.session.requestId = call.session.requestId := by
  by_cases hmem : ∃ c ∈ answered, c.session.requestId = call.session.requestId
  · obtain ⟨c, hc, hid⟩ := hmem
    have hclient : c.session.client = call.session.client := by
      rw [← clientIdOf_requestId c.session, hid, clientIdOf_requestId]
    have hended := h.ended c hc
    rw [hid, hclient] at hended
    rw [packet_of_ended hended]
    exact ⟨answered, h, fun _ => .inl, fun _ => id, c, hc, hid⟩
  · have hne : ∀ c ∈ answered, c.session.requestId ≠ call.session.requestId :=
      fun c hc hid => hmem ⟨c, hc, hid⟩
    rw [← h.kept _ _ hne] at hpending
    rw [packet_response hpending]
    refine ⟨answered ++ [call], ⟨?_, ?_, ?_, ?_⟩, ?_, ?_, call, ?_, rfl⟩
    · rw [List.map_append, List.nodup_append]
      refine ⟨h.once, List.pairwise_singleton _ _, ?_⟩
      rintro _ hid _ hsame rfl
      obtain ⟨c, hc, hid⟩ := List.mem_map.mp hid
      exact hne c hc (hid.trans (List.mem_singleton.mp hsame))
    · rw [List.map_append, ← List.append_assoc, ← h.tasks]
      rfl
    · intro c hc
      rcases List.mem_append.mp hc with hc | hc
      · rw [Sessions.pending_answer_of_ne w _ _ (hne c hc).symm]
        exact h.ended c hc
      · obtain rfl := List.mem_singleton.mp hc
        exact Sessions.pending_answer_self w c.session _
    · intro uid requestId hnot
      have hcall := hnot call (List.mem_append_right _ List.mem_cons_self)
      rw [Sessions.pending_answer_of_ne w _ uid hcall]
      exact h.kept uid requestId fun c hc => hnot c (List.mem_append_left _ hc)
    · intro c hc
      exact (List.mem_append.mp hc).imp_right List.mem_singleton.mp
    · exact fun c hc => List.mem_append_left _ hc
    · exact List.mem_append_right _ List.mem_cons_self

/-- Responses that come any number of times and in any order answer each call once. -/
theorem answeredOnce_packets (received : List SentCall) (h : AnsweredOnce serve v answered w)
    (hpending : ∀ call ∈ received,
      v.pending call.session.client call.session.requestId = some call.session) :
    ∃ answered', AnsweredOnce serve v answered'
        ((received.map fun call => (call.response serve).encode).foldl Sessions.packet w) ∧
      (∀ c ∈ answered', c ∈ answered ∨ c ∈ received) ∧ (∀ c ∈ answered, c ∈ answered') ∧
      ∀ call ∈ received, ∃ c ∈ answered', c.session.requestId = call.session.requestId := by
  induction received generalizing answered w with
  | nil => exact ⟨answered, h, fun _ => .inl, fun _ => id, fun _ hc => absurd hc List.not_mem_nil⟩
  | cons call received ih =>
    rw [List.forall_mem_cons] at hpending
    obtain ⟨next, hnext, hfrom, hkeeps, c, hc, hid⟩ := answeredOnce_packet h hpending.1
    obtain ⟨last, hlast, hfrom', hkeeps', hall⟩ := ih hnext hpending.2
    refine ⟨last, hlast, ?_, fun c hc => hkeeps' c (hkeeps c hc), ?_⟩
    · intro c hc
      rw [List.mem_cons]
      rcases hfrom' c hc with hc | hc
      · exact (hfrom c hc).imp_right .inl
      · exact .inr (.inr hc)
    · rw [List.forall_mem_cons]
      exact ⟨⟨c, hkeeps' c hc, hid⟩, hall⟩

/-- What is received of the datagrams of some answers is the responses to some calls. -/
theorem exists_received {requests : List SentCall} {datagrams : List (List Byte)}
    (hmem : ∀ d ∈ datagrams, ∃ call ∈ requests, d = (call.response serve).encode) :
    ∃ received : List SentCall, (∀ call ∈ received, call ∈ requests) ∧
      datagrams = received.map fun call => (call.response serve).encode := by
  induction datagrams with
  | nil => exact ⟨[], fun _ h => absurd h List.not_mem_nil, rfl⟩
  | cons d datagrams ih =>
    rw [List.forall_mem_cons] at hmem
    obtain ⟨call, hcall, rfl⟩ := hmem.1
    obtain ⟨received, hreceived, rfl⟩ := ih hmem.2
    exact ⟨call :: received, List.forall_mem_cons.mpr ⟨hcall, hreceived⟩, rfl⟩

end SentCall

open SentCall in
/-- Calls of a UDP client. Of the requests any may be lost, come twice or in another order;
the server hands each datagram that comes to the dispatcher as its own packet. Of the answers
that go through the write queue of the channel, `sendto` may fail, and any that it takes may
again be lost, come twice or late: every session gets at most one task, with the answer to its
own payload, and gets it if any of its answers comes. -/
theorem udp_exchange {dispatchPayload : DispatchPayload}
    {serve : List Byte → Option (List Byte)} {calls : List SentCall}
    (hserved : ∀ call ∈ calls, call.Served dispatchPayload serve) {uid : UInt32} {s : ProxyState}
    (hconn : MyProxy.bufferOf uid s = some [])
    (hpending : ∀ call ∈ calls,
      s.loops.pending call.session.client call.session.requestId = some call.session)
    {requests : List SentCall} (hrequests : ∀ call ∈ requests, call ∈ calls)
    (hlen : ∀ call ∈ requests, call.frame.bytes.length ≤ g_max_udp_packet_length) :
    (∃ i, UdpReader.step^[i] (.start (requests.map fun call => call.frame.bytes)) =
      ⟨[], ⟨[], requests.map fun call => .handlePacket call.frame.bytes⟩, false⟩) ∧
    ∀ answers, Answers dispatchPayload requests answers →
    ∀ events channel, (∀ event ∈ events, event.Fits) →
      (∀ buf ∈ events.filterMap UdpWriteEvent.response, buf ∈ answers.flatMap Answer.sent) →
      run UdpWriteChannel.step .empty events = some channel →
      ∀ arrivals : List (List (List Byte)),
        (∀ d ∈ arrivals.flatten, (d, true) ∈ channel.calls ∧
          d.length ≤ g_max_udp_packet_length) →
      (∃ made t, MyProxy.Reads MyMagicCodec uid s (arrivals.map udpArrival) made t) ∧
      ∀ made t, MyProxy.Reads MyMagicCodec uid s (arrivals.map udpArrival) made t →
        ∃ answered : List SentCall, (∀ call ∈ answered, call ∈ requests) ∧
          AnsweredOnce serve s.sessions answered t.sessions ∧
          ∀ d ∈ arrivals.flatten, ∃ call ∈ answered,
            (decode d).map MyMagicMessage.requestId = some call.session.requestId := by
  constructor
  · have hlen' : ∀ f ∈ requests.map frame, f.bytes.length ≤ g_max_udp_packet_length := by
      intro f hf
      obtain ⟨call, hcall, rfl⟩ := List.mem_map.mp hf
      exact hlen call hcall
    obtain ⟨i, hi⟩ := UdpReader.exists_iterate_frames [] hlen'
    refine ⟨i, ?_⟩
    rw [List.nil_append, List.map_map, List.map_map] at hi
    exact hi
  · intro answers hanswers events channel hfits hevents hrun arrivals harrivals
    refine ⟨MyProxy.reads_return _ _ _ _, ?_⟩
    intro made t hreads
    have hserved' : ∀ call ∈ requests, call.Served dispatchPayload serve :=
      fun call hcall => hserved call (hrequests call hcall)
    rw [answers_eq hserved' hanswers] at hevents
    have hmem : ∀ d ∈ arrivals.flatten, ∃ call ∈ requests, d = (call.response serve).encode := by
      intro d hd
      have hqueued := UdpWriteChannel.mem_response_of_mem_calls hfits hrun (harrivals d hd).1
      obtain ⟨answer, hanswer, hsent⟩ := List.mem_flatMap.mp (hevents d hqueued)
      obtain ⟨call, hcall, rfl⟩ := List.mem_map.mp hanswer
      exact ⟨call, hcall, List.mem_singleton.mp hsent⟩
    have hne : ∀ d ∈ arrivals.flatten, d ≠ [] := by
      intro d hd
      obtain ⟨call, -, rfl⟩ := hmem d hd
      exact List.ne_nil_of_length_pos (length_encode_pos _)
    rw [map_udpArrival hne fun d hd => (harrivals d hd).2] at hreads
    obtain ⟨received, hreceived, hdatagrams⟩ := exists_received hmem
    have hsessions := (sessions_of_responses (fun call hcall => hserved' call (hreceived call hcall))
      hconn (congrArg List.flatten hdatagrams) hreads).2
    obtain ⟨answered, hanswered, hfrom, -, hall⟩ := answeredOnce_packets received
      (answeredOnce_nil serve s.sessions)
      fun call hcall => hpending call (hrequests call (hreceived call hcall))
    rw [← hsessions] at hanswered
    refine ⟨answered, ?_, hanswered, ?_⟩
    · intro call hcall
      exact hreceived call ((hfrom call hcall).resolve_left List.not_mem_nil)
    · intro d hd
      rw [hdatagrams] at hd
      obtain ⟨call, hcall, rfl⟩ := List.mem_map.mp hd
      obtain ⟨c, hc, hid⟩ := hall call hcall
      refine ⟨c, hc, ?_⟩
      rw [decode_encode_filter, Option.map_some, hid]
      exact congrArg some (requestId_response call)

/-- What the channel is given: the first answer to the call with two bytes is taken, the answer
to the heartbeat is refused, and the second one is taken. -/
def threeAnswers : List UdpWriteEvent :=
  [.sendResponse (dataCall.response some).encode, .onWrite [true],
    .sendResponse (heartbeatCall.response some).encode,
    .sendResponse (dataCall.response some).encode, .onWrite [false, true]]

/-- The call with two bytes is sent twice, and the server answers it before the heartbeat; the
answer to the heartbeat is not sent, the other one comes three times. -/
theorem udp_exchange_two : ∃ channel, run UdpWriteChannel.step .empty threeAnswers = some channel ∧
    ∃ made t, MyProxy.Reads MyMagicCodec 0x70001 twoSessions
      ([[(dataCall.response some).encode, (dataCall.response some).encode],
        [(dataCall.response some).encode]].map udpArrival) made t ∧
    ∃ answered : List SentCall, (∀ call ∈ answered, call ∈ [dataCall, heartbeatCall, dataCall]) ∧
      SentCall.AnsweredOnce some twoSessions.sessions answered t.sessions := by
  have hrequests : ∀ call ∈ [dataCall, heartbeatCall, dataCall], call ∈ twoCalls := by
    simp only [List.forall_mem_cons]
    exact ⟨.tail _ (.head _), .head _, .tail _ (.head _), fun _ h => absurd h List.not_mem_nil⟩
  have hlen : ∀ call ∈ [dataCall, heartbeatCall, dataCall],
      call.frame.bytes.length ≤ g_max_udp_packet_length := by decide
  have hanswers : SentCall.Answers echo [dataCall, heartbeatCall, dataCall]
      [answerWith true (dataCall.response some).encode,
        answerWith true (heartbeatCall.response some).encode,
        answerWith true (dataCall.response some).encode] :=
    .cons rfl (.cons rfl (.cons rfl .nil))
  have hfits : ∀ event ∈ threeAnswers, event.Fits := by
    have hdata : (dataCall.response some).encode.length+4 < 2^32 := by decide
    have hheartbeat : (heartbeatCall.response some).encode.length+4 < 2^32 := by decide
    unfold threeAnswers
    simp only [List.forall_mem_cons]
    exact ⟨hdata, trivial, hheartbeat, hdata, trivial, fun _ h => absurd h List.not_mem_nil⟩
  have hrun : run UdpWriteChannel.step .empty threeAnswers = some
      ⟨[], [((dataCall.response some).encode, true), ((heartbeatCall.response some).encode, false),
        ((dataCall.response some).encode, true)], [0, 0]⟩ := by decide
  obtain ⟨⟨made, t, hreads⟩, hall⟩ := (udp_exchange (fun call _ => served_echo call)
    bufferOf_twoSessions pending_twoCalls hrequests hlen).2 _ hanswers threeAnswers _ hfits
    (by decide) hrun
    [[(dataCall.response some).encode, (dataCall.response some).encode],
      [(dataCall.response some).encode]] (by decide)
  obtain ⟨answered, hfrom, hanswered, -⟩ := hall made t hreads
  exact ⟨_, hrun, made, t, hreads, answered, hfrom, hanswered⟩

end EchoFrame
