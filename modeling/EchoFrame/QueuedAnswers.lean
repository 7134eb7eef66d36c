import EchoFrame.Exchange
import EchoFrame.TcpWriteQueue

/-! Answers on their way through the write queue of a channel, its socket and the reads of the
client, whatever each of them takes at a time. -/
namespace EchoFrame
open Verif MyMagicMessage MyServant

namespace WriteChannel

/-- The socket has taken a front part of the responses, and as long as the channel lives the
rest of them waits. -/
structure Sound (responses : List Byte) (c : WriteChannel) : Prop where
  accepted : c.accepted <+: responses
  waits : c.removed = false → c.accepted ++ c.writeBuf = responses

variable {c d : WriteChannel} {responses : List Byte}

theorem sound_step (h : Sound responses c) {event : WriteEvent} (hstep : c.step event = some d) :
    Sound (responses ++ event.response) d := by
  cases hremoved : c.removed with
  | true =>
    cases event with
    | sendResponse buf =>
      rw [step, if_pos hremoved] at hstep
      cases hstep
    | onWrite rooms =>
      rw [step, if_pos hremoved] at hstep
      cases hstep
      rw [WriteEvent.response, List.append_nil]
      exact h
  | false =>
    have hwaits := h.waits hremoved
    cases event with
    | sendResponse buf =>
      rw [step_sendResponse hremoved] at hstep
      cases hstep
      refine ⟨h.accepted.trans (List.prefix_append _ _), fun _ => ?_⟩
      rw [← hwaits, List.append_assoc]
      rfl
    | onWrite rooms =>
      rw [step_onWrite hremoved] at hstep
      cases hstep
      rw [WriteEvent.response, List.append_nil]
      constructor
      · rw [← hwaits]
        exact (List.prefix_append_right_inj c.accepted).mpr (List.take_prefix _ _)
      · intro hlives
        have hroom := Nat.le_of_not_lt (of_decide_eq_false hlives)
        rw [List.take_of_length_le hroom, List.append_nil]
        exact hwaits

theorem sound_run {events : List WriteEvent} (h : Sound responses c)
    (hrun : run step c events = some d) :
    Sound (responses ++ events.flatMap WriteEvent.response) d := by
  induction events generalizing c responses with
  | nil =>
    rw [run_nil] at hrun
    cases hrun
    rw [List.flatMap_nil, List.append_nil]
    exact h
  | cons event events ih =>
    obtain ⟨mid, hstep, hrun⟩ := run_cons_eq_some.mp hrun
    have hmid := ih (sound_step h hstep) hrun
    rw [List.append_assoc] at hmid
    rwa [List.flatMap_cons]

end WriteChannel

namespace MyProxy

theorem stream_take_isPrefix (frames : List Frame) (n : ℕ) :
    stream (frames.take n) <+: stream frames := by
  have hsplit : stream (frames.take n) ++ stream (frames.drop n) = stream frames := by
    unfold stream
    rw [← List.flatMap_append, List.take_append_drop]
  exact ⟨_, hsplit⟩

/-- Of a front part of a stream the client cuts off the frames that have come whole. -/
theorem packets_of_prefix {frames : List Frame} {received rest : List Byte}
    {packets : List (List Byte)} (hreceived : received <+: stream frames)
    (hcut : Cuts getPacketLength received packets rest) (hspent : Spent packets rest) :
    ∃ n ≤ frames.length, packets = (frames.take n).map Frame.bytes ∧
      (n < frames.length → received.length < (stream (frames.take (n+1))).length) := by
  obtain ⟨more, hmore⟩ := hreceived
  have hpackets : packets <+: frames.map Frame.bytes := by
    have hall := cuts_stream frames []
    have hlonger := hcut.append lengthStable more
    rw [hmore] at hlonger
    rw [List.append_nil] at hall
    exact hall.prefix_of_waits (.inl rfl) hlonger
  have htake := List.prefix_iff_eq_take.mp hpackets
  have hlength := hpackets.length_le
  rw [List.length_map] at hlength
  rw [← List.map_take] at htake
  refine ⟨packets.length, hlength, htake, fun hlt => ?_⟩
  by_contra hge
  have hwhole : stream (frames.take (packets.length+1)) <+: received := by
    apply List.prefix_of_prefix_length_le (stream_take_isPrefix frames _) ⟨more, hmore⟩
    exact Nat.le_of_not_lt hge
  obtain ⟨tail, htail⟩ := hwhole
  rw [← htail] at hcut
  have hcount := (frames_prefix_of_spent hcut hspent).length_le
  rw [List.length_map, List.length_take] at hcount
  omega

end MyProxy

namespace SentCall

variable {dispatchPayload : DispatchPayload} {serve : List Byte → Option (List Byte)}

def responses (serve : List Byte → Option (List Byte)) (calls : List SentCall) : List Byte :=
  (calls.map fun call => (call.response serve).encode).flatten

theorem responses_append (serve : List Byte → Option (List Byte)) (calls more : List SentCall) :
    responses serve (calls ++ more) = responses serve calls ++ responses serve more := by
  unfold responses
  rw [List.map_append, List.flatten_append]

theorem responses_take_isPrefix (serve : List Byte → Option (List Byte)) (calls : List SentCall)
    (n : ℕ) : responses serve (calls.take n) <+: responses serve calls := by
  refine ⟨responses serve (calls.drop n), ?_⟩
  rw [← responses_append, List.take_append_drop]

theorem stream_responseFrames {calls : List SentCall} {frames : List Frame}
    (hframes : frames.map Frame.bytes = calls.map fun call => (call.response serve).encode) :
    stream frames = responses serve calls := by
  rw [stream, List.flatMap_def, hframes]
  rfl

theorem map_take_responseFrames {calls : List SentCall} {frames : List Frame}
    (hframes : frames.map Frame.bytes = calls.map fun call => (call.response serve).encode)
    (n : ℕ) : (frames.take n).map Frame.bytes =
      (calls.take n).map fun call => (call.response serve).encode := by
  rw [List.map_take, hframes, ← List.map_take]

/-- A front part of the responses is for the sessions the packets of the first calls. -/
theorem sessions_of_prefix {calls : List SentCall}
    (hserved : ∀ call ∈ calls, call.Served dispatchPayload serve) {uid : UInt32}
    {s t : ProxyState} (hconn : MyProxy.bufferOf uid s = some [])
    {arrivals : List (List (List Byte))} {made : List ProxyCall}
    (harrivals : arrivals.flatten.flatten <+: responses serve calls)
    (h : MyProxy.Reads MyMagicCodec uid s (arrivals.map .arrival) made t) :
    ∃ n ≤ calls.length,
      t.sessions = ((calls.take n).map fun call => (call.response serve).encode).foldl
        Sessions.packet s.sessions ∧
      (n < calls.length →
        arrivals.flatten.flatten.length < (responses serve (calls.take (n+1))).length) := by
  obtain ⟨frames, hframes⟩ := exists_responseFrames hserved
  have hcount : frames.length = calls.length := by
    have hlengths := congrArg List.length hframes
    rwa [List.length_map, List.length_map] at hlengths
  obtain ⟨packets, rest, hcut, hspent, ht, hmade⟩ := MyProxy.cuts_of_reads hconn h
  obtain ⟨packets', hmade', hsessions⟩ := ProxyState.sessions_of_reads h
  rw [List.nil_append] at hcut
  rw [← stream_responseFrames hframes] at harrivals
  obtain ⟨n, hn, hpackets, hnext⟩ := MyProxy.packets_of_prefix harrivals hcut (hspent (.inl rfl))
  rw [hcount] at hn hnext
  refine ⟨n, hn, ?_, fun hlt => ?_⟩
  · have hsame : packets' = packets := by
      refine List.map_injective_iff.mpr ?_ (hmade'.symm.trans hmade)
      exact fun _ _ heq => ProxyCall.handlePacket.inj heq
    rw [hsessions, hsame, hpackets, map_take_responseFrames hframes]
  · rw [← stream_responseFrames (map_take_responseFrames hframes (n+1))]
    exact hnext hlt

/-- A front part of the responses ends the sessions of the first calls, each with the answer to its
own payload, and no other session; all of the responses end all. -/
theorem ended_of_prefix {calls : List SentCall}
    (hserved : ∀ call ∈ calls, call.Served dispatchPayload serve) {uid : UInt32}
    {s t : ProxyState} (hconn : MyProxy.bufferOf uid s = some [])
    (hpending : ∀ call ∈ calls,
      s.loops.pending call.session.client call.session.requestId = some call.session)
    (hdistinct : (calls.map fun call => call.session.requestId).Nodup)
    {arrivals : List (List (List Byte))} {made : List ProxyCall}
    (harrivals : arrivals.flatten.flatten <+: responses serve calls)
    (h : MyProxy.Reads MyMagicCodec uid s (arrivals.map .arrival) made t) :
    ∃ n ≤ calls.length, t.tasks = s.tasks ++ (calls.take n).map (task serve) ∧
      (∀ call ∈ calls.take n,
        t.loops.pending call.session.client call.session.requestId = none) ∧
      (∀ uid requestId, (∀ call ∈ calls.take n, call.session.requestId ≠ requestId) →
        t.loops.pending uid requestId = s.loops.pending uid requestId) ∧
      (arrivals.flatten.flatten = responses serve calls → n = calls.length) := by
  obtain ⟨n, hn, hsessions, hnext⟩ := sessions_of_prefix hserved hconn harrivals h
  have hmem {call : SentCall} (hcall : call ∈ calls.take n) : call ∈ calls :=
    List.mem_of_mem_take hcall
  have hfirst : ((calls.take n).map fun call => call.session.requestId).Nodup := by
    rw [List.map_take]
    exact hdistinct.sublist (List.take_sublist _ _)
  obtain ⟨htasks, hended, hkept⟩ := @packets_responses serve (calls.take n) s.sessions
    (fun call hcall => hpending call (hmem hcall)) hfirst
  rw [← hsessions] at htasks hended hkept
  refine ⟨n, hn, htasks, hended, hkept, ?_⟩
  intro hcame
  by_contra hne
  have hshort := hnext (Nat.lt_of_le_of_ne hn hne)
  have hfront := (responses_take_isPrefix serve calls (n+1)).length_le
  rw [hcame] at hshort
  exact absurd hshort (Nat.not_lt.mpr hfront)

end SentCall

open SentCall in
/-- Answers of one connection. Whatever the socket of the channel takes at each write, and
however much of that reaches the client, in whatever pieces: the first few calls in the order of
the answers get the answers to their own payloads, the others wait as before. All are answered
once everything was sent and has come. -/
theorem answers_through_queue {dispatchPayload : DispatchPayload}
    {serve : List Byte → Option (List Byte)} {calls : List SentCall}
    (hserved : ∀ call ∈ calls, call.Served dispatchPayload serve) {uid : UInt32} {s : ProxyState}
    (hconn : MyProxy.bufferOf uid s = some [])
    (hpending : ∀ call ∈ calls,
      s.loops.pending call.session.client call.session.requestId = some call.session)
    (hdistinct : (calls.map fun call => call.session.requestId).Nodup)
    {answers : List Answer} (hanswers : Answers dispatchPayload calls answers)
    {events : List WriteEvent}
    (hevents : events.flatMap WriteEvent.response = (answers.flatMap Answer.sent).flatten)
    {channel : WriteChannel} (hrun : run WriteChannel.step .empty events = some channel)
    {arrivals : List (List (List Byte))}
    (harrivals : arrivals.flatten.flatten <+: channel.accepted) :
    (∃ made t, MyProxy.Reads MyMagicCodec uid s (arrivals.map .arrival) made t) ∧
    ∀ made t, MyProxy.Reads MyMagicCodec uid s (arrivals.map .arrival) made t →
      ∃ n ≤ calls.length, t.tasks = s.tasks ++ (calls.take n).map (task serve) ∧
        (∀ call ∈ calls.take n,
          t.loops.pending call.session.client call.session.requestId = none) ∧
        (∀ uid requestId, (∀ call ∈ calls.take n, call.session.requestId ≠ requestId) →
          t.loops.pending uid requestId = s.loops.pending uid requestId) ∧
        (channel.removed = false → channel.writeBuf = [] →
          arrivals.flatten.flatten = channel.accepted → n = calls.length) := by
  refine ⟨MyProxy.reads_return _ _ _ _, ?_⟩
  intro made t hreads
  have hresponses : events.flatMap WriteEvent.response = responses serve calls := by
    rw [hevents, answers_eq hserved hanswers, List.flatMap_map]
    exact congrArg List.flatten List.map_eq_flatMap.symm
  have hempty : WriteChannel.Sound [] .empty := ⟨List.prefix_rfl, fun _ => rfl⟩
  have hsound := WriteChannel.sound_run hempty hrun
  rw [List.nil_append, hresponses] at hsound
  obtain ⟨n, hn, htasks, hended, hkept, hall⟩ := ended_of_prefix hserved hconn hpending hdistinct
    (harrivals.trans hsound.accepted) hreads
  refine ⟨n, hn, htasks, hended, hkept, ?_⟩
  intro hlives hempty hcame
  have haccepted := hsound.waits hlives
  rw [hempty, List.append_nil] at haccepted
  exact hall (hcame.trans haccepted)

/-- The server echoes payloads. The socket takes the first answer and four bytes of the second
one before it refuses, and the client gets them one by one. -/
theorem answers_through_queue_two :
    let first := ((twoCalls.reverse.map fun call => (call.response some).encode).headD [])
    let second := ((twoCalls.map fun call => (call.response some).encode).headD [])
    let events : List WriteEvent := [.sendResponse first, .sendResponse second,
      .onWrite [5, first.length-5, 4, 0]]
    let arrivals := (first ++ second.take 4).map fun b => [[b]]
    run WriteChannel.step .empty events = some ⟨[], first ++ second.take 4, true⟩ ∧
    ∃ made t, MyProxy.Reads MyMagicCodec 0x70001 twoSessions (arrivals.map .arrival) made t ∧
      ∃ n ≤ 2, t.tasks = (twoCalls.reverse.take n).map (SentCall.task some) := by
  intro first second events arrivals
  have hanswers : SentCall.Answers echo twoCalls.reverse
      (twoCalls.reverse.map fun call => answerWith true (call.response some).encode) :=
    .cons rfl (.cons rfl .nil)
  have hrun : run WriteChannel.step .empty events =
      some ⟨[], first ++ second.take 4, true⟩ := by decide
  have harrivals : arrivals.flatten.flatten <+: first ++ second.take 4 := by decide
  obtain ⟨⟨made, t, hreads⟩, hall⟩ := answers_through_queue (fun call _ => served_echo call)
    bufferOf_twoSessions (fun call hcall => pending_twoCalls call (List.mem_reverse.mp hcall))
    (by decide) hanswers (by decide) hrun harrivals
  obtain ⟨n, hn, htasks, -⟩ := hall made t hreads
  exact ⟨hrun, made, t, hreads, n, hn, htasks⟩

end EchoFrame
