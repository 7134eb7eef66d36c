import EchoFrame.ProxyCalls

/-! What becomes of the data that a connection gave before its end. -/
namespace EchoFrame
open Verif MyMagicMessage MyServant

def arrived (arrivals : List (List (List Byte))) : List Byte := arrivals.flatten.flatten

/-- No frame is completed by the bytes of the event that sees the end. -/
def EndCompletesNone (arrivals : List (List (List Byte))) (last : ReadEvent) : Prop :=
  ∀ frames tail, arrived arrivals ++ last.bytes = stream frames ++ tail →
    (stream frames).length ≤ (arrived arrivals).length

def ServantEvent.packet : ServantEvent → Option (List Byte)
  | handlePacket packet => some packet
  | _ => none

def ProxyCall.packet : ProxyCall → Option (List Byte)
  | handlePacket iobuf => some iobuf
  | onDisconnect => none

namespace MyServant

inductive Reads : ReadChannel → List ReadEvent → ReadChannel → Prop
  | nil (c : ReadChannel) : Reads c [] c
  | cons {c c' c'' : ReadChannel} {ev : ReadEvent} {evs : List ReadEvent} (h : OnRead ev c c')
      (hrest : Reads c' evs c'') : Reads c (ev :: evs) c''

/-- The servant gets to the end of the stream, and by then every complete frame
went to the dispatcher. -/
def HandsOver (arrivals : List (List (List Byte))) (last : ReadEvent) : Prop :=
  ∃ c c', Reads .empty (arrivals.map .arrival) c ∧ OnRead last c c' ∧
    ∀ frames tail, arrived arrivals ++ last.bytes = stream frames ++ tail →
      dispatches frames <+: c'.events

/-- After each event the buffer is one on which `handlePackets` returns. -/
def Returns (arrivals : List (List (List Byte))) : Prop := ∀ n, Settles (arrived (arrivals.take n))

end MyServant

namespace MyProxy

/-- Every complete frame went to `handlePacket` by the time of the end. -/
def HandsOver (uid : UInt32) (s : ProxyState) (arrivals : List (List (List Byte)))
    (last : ReadEvent) : Prop :=
  ∃ calls t calls' u, Reads MyMagicCodec uid s (arrivals.map .arrival) calls t ∧
    OnReadCalls MyMagicCodec uid last t calls' u ∧
    ∀ frames tail, arrived arrivals ++ last.bytes = stream frames ++ tail →
      (frames.map fun f => ProxyCall.handlePacket f.bytes) <+: calls ++ calls'

end MyProxy

variable {arrivals : List (List (List Byte))} {last : ReadEvent} {packets : List (List Byte)}
  {rest : List Byte}

theorem arrived_nil : arrived [] = [] := rfl

theorem arrived_cons (reads : List (List Byte)) (arrivals : List (List (List Byte))) :
    arrived (reads :: arrivals) = reads.flatten ++ arrived arrivals := by
  rw [arrived, List.flatten_cons, List.flatten_append]
  rfl

theorem map_prefix_append_iff {α β : Type} {f : α → β} (g : β → Option α)
    (hg : ∀ a, g (f a) = some a) {tail : List β} (htail : tail.filterMap g = [])
    (as bs : List α) : as.map f <+: bs.map f ++ tail ↔ as <+: bs := by
  constructor
  · intro h
    have hfm := h.filterMap g
    simpa [List.filterMap_map, Function.comp_def, hg, htail] using hfm
  · intro h
    exact (h.map f).trans (List.prefix_append _ _)

/-- The frames of a stream are among the packets cut off its first part, for all
frames, exactly when none of them ends behind that part. -/
theorem frames_cut_iff (hcut : Cuts getPacketLength (arrived arrivals) packets rest)
    (hspent : MyProxy.Spent packets rest) :
    (∀ frames tail, arrived arrivals ++ last.bytes = stream frames ++ tail →
      frames.map Frame.bytes <+: packets) ↔ EndCompletesNone arrivals last := by
  constructor
  · intro h frames tail heq
    obtain ⟨more, hmore⟩ := h frames tail heq
    have hsplit := hcut.flatten_append
    rw [← hmore, List.flatten_append, ← List.flatMap_def] at hsplit
    rw [← hsplit, List.append_assoc, List.length_append]
    exact Nat.le_add_right _ _
  · intro h frames tail heq
    obtain ⟨tail', htail⟩ : ∃ tail', arrived arrivals = stream frames ++ tail' := by
      obtain ⟨tail', htail⟩ := List.prefix_of_prefix_length_le ⟨tail, heq.symm⟩
        (List.prefix_append (arrived arrivals) last.bytes) (h frames tail heq)
      exact ⟨tail', htail.symm⟩
    rw [htail] at hcut
    exact MyProxy.frames_prefix_of_spent hcut hspent

namespace MyServant

theorem cuts_of_reads {c c' : ReadChannel} (h : Reads c (arrivals.map .arrival) c') :
    ∃ packets, Cuts getPacketLength (c.readBuf ++ arrived arrivals) packets c'.readBuf ∧
      (Waits getPacketLength c.readBuf → Waits getPacketLength c'.readBuf) ∧
      c'.events = c.events ++ packets.map .handlePacket := by
  induction arrivals generalizing c with
  | nil =>
    cases h
    refine ⟨[], ?_, id, (List.append_nil _).symm⟩
    rw [arrived_nil, List.append_nil]
    exact .nil _
  | cons reads arrivals ih =>
    cases h with
    | cons h hrest =>
      obtain ⟨packets, hcut, hw, hev⟩ := cuts_of_handlesPackets ((onRead_arrival_iff _ _ _).mp h)
      obtain ⟨packets', hcut', hw', hev'⟩ := ih hrest
      refine ⟨packets ++ packets', ?_, fun _ => hw' hw, ?_⟩
      · rw [arrived_cons, ← List.append_assoc]
        exact (hcut.append lengthStable _).trans hcut'
      · rw [hev', hev, List.map_append, List.append_assoc]
        rfl

/-- The events return one after the other exactly when the stream settles after each. -/
theorem reads_iff_settles {c : ReadChannel} (hc : Settles c.readBuf) :
    (∃ c', Reads c (arrivals.map .arrival) c') ↔
      ∀ n, Settles (c.readBuf ++ arrived (arrivals.take n)) := by
  induction arrivals generalizing c with
  | nil =>
    constructor
    · intro _ n
      rw [List.take_nil, arrived_nil, List.append_nil]
      exact hc
    · exact fun _ => ⟨c, .nil c⟩
  | cons reads arrivals ih =>
    have hnext {c' : ReadChannel} (h : HandlesPackets (c.receive reads.flatten) c') (n : ℕ) :
        Settles (c.readBuf ++ arrived ((reads :: arrivals).take (n+1))) ↔
          Settles (c'.readBuf ++ arrived (arrivals.take n)) := by
      obtain ⟨packets, hcut, -, -⟩ := cuts_of_handlesPackets h
      rw [List.take_succ_cons, arrived_cons, ← List.append_assoc]
      exact settles_cut_iff (hcut.append lengthStable _)
    constructor
    · rintro ⟨c'', h⟩ n
      cases h with
      | @cons _ c' _ _ _ h hrest =>
        have h := (onRead_arrival_iff _ _ _).mp h
        obtain ⟨packets, hcut, -, -⟩ := cuts_of_handlesPackets h
        have hc' := (settles_cut_iff hcut).mp (settles_of_handlesPackets h)
        cases n with
        | zero =>
          rw [List.take_zero, arrived_nil, List.append_nil]
          exact hc
        | succ n => exact (hnext h n).mpr ((ih hc').mp ⟨c'', hrest⟩ n)
    · intro h
      have hone := h 1
      rw [List.take_succ_cons, List.take_zero, arrived_cons, arrived_nil, List.append_nil] at hone
      obtain ⟨c', hc'⟩ := handlesPackets_of_settles hone c.events
      have hrest (n : ℕ) : Settles (c'.readBuf ++ arrived (arrivals.take n)) :=
        (hnext hc' n).mp (h (n+1))
      obtain ⟨packets, hcut, -, -⟩ := cuts_of_handlesPackets hc'
      obtain ⟨c'', h''⟩ := (ih ((settles_cut_iff hcut).mp hone)).mpr hrest
      exact ⟨c'', .cons ((onRead_arrival_iff _ _ _).mpr hc') h''⟩

theorem dispatches_prefix_iff (frames : List Frame) (packets : List (List Byte)) :
    dispatches frames <+: packets.map ServantEvent.handlePacket ++ [.handleClose,.removeChannel] ↔
      frames.map Frame.bytes <+: packets := by
  have hd : dispatches frames = (frames.map Frame.bytes).map ServantEvent.handlePacket := by
    rw [List.map_map]
    rfl
  rw [hd]
  exact map_prefix_append_iff ServantEvent.packet (fun _ => rfl) rfl _ _

theorem handsOver_iff (hend : last.result ≠ .drained) :
    HandsOver arrivals last ↔ Returns arrivals ∧ EndCompletesNone arrivals last := by
  have hevents {c c' : ReadChannel} (h : Reads .empty (arrivals.map .arrival) c)
      (ho : OnRead last c c') : ∃ packets rest, Cuts getPacketLength (arrived arrivals) packets rest ∧
        MyProxy.Spent packets rest ∧
        c'.events = packets.map .handlePacket ++ [.handleClose,.removeChannel] := by
    obtain ⟨packets, hcut, hw, hev⟩ := cuts_of_reads h
    obtain rfl := (onRead_end_iff hend c c').mp ho
    refine ⟨packets, c.readBuf, hcut, .inl (hw (.inl rfl)), ?_⟩
    rw [onReadError, ReadChannel.emit, ReadChannel.receive, hev]
    rfl
  constructor
  · rintro ⟨c, c', h, ho, hall⟩
    refine ⟨(reads_iff_settles .done).mp ⟨c, h⟩, ?_⟩
    obtain ⟨packets, rest, hcut, hspent, hev⟩ := hevents h ho
    rw [← frames_cut_iff hcut hspent]
    intro frames tail heq
    have hpre := hall frames tail heq
    rw [hev] at hpre
    exact (dispatches_prefix_iff _ _).mp hpre
  · rintro ⟨hret, hnone⟩
    obtain ⟨c, h⟩ := (reads_iff_settles (c := .empty) .done).mpr hret
    have ho := (onRead_end_iff hend c _).mpr rfl
    obtain ⟨packets, rest, hcut, hspent, hev⟩ := hevents h ho
    refine ⟨c, _, h, ho, ?_⟩
    intro frames tail heq
    rw [hev]
    exact (dispatches_prefix_iff _ _).mpr ((frames_cut_iff hcut hspent).mpr hnone frames tail heq)

end MyServant

namespace MyProxy

theorem calls_prefix_iff (frames : List Frame) (packets : List (List Byte)) :
    (frames.map fun f => ProxyCall.handlePacket f.bytes) <+:
      packets.map ProxyCall.handlePacket ++ [.onDisconnect] ↔
      frames.map Frame.bytes <+: packets := by
  have hd : (frames.map fun f => ProxyCall.handlePacket f.bytes) =
      (frames.map Frame.bytes).map ProxyCall.handlePacket := by
    rw [List.map_map]
    rfl
  rw [hd]
  exact map_prefix_append_iff ProxyCall.packet (fun _ => rfl) rfl _ _

theorem handsOver_iff {uid : UInt32} {s : ProxyState} (hend : last.result ≠ .drained)
    (hs : bufferOf uid s = some []) :
    HandsOver uid s arrivals last ↔ EndCompletesNone arrivals last := by
  have hcalls {calls calls' : List ProxyCall} {t u : ProxyState}
      (h : Reads MyMagicCodec uid s (arrivals.map .arrival) calls t)
      (ho : OnReadCalls MyMagicCodec uid last t calls' u) :
      ∃ packets rest, Cuts getPacketLength (arrived arrivals) packets rest ∧ Spent packets rest ∧
        calls ++ calls' = packets.map .handlePacket ++ [.onDisconnect] := by
    obtain ⟨packets, rest, hcut, hspent, ht, rfl⟩ := cuts_of_reads hs h
    refine ⟨packets, rest, hcut, hspent (.inl rfl), ?_⟩
    rw [onReadCalls_end hend ht ho]
  constructor
  · rintro ⟨calls, t, calls', u, h, ho, hall⟩
    obtain ⟨packets, rest, hcut, hspent, heq⟩ := hcalls h ho
    rw [← frames_cut_iff hcut hspent]
    intro frames tail htail
    have hpre := hall frames tail htail
    rw [heq] at hpre
    exact (calls_prefix_iff _ _).mp hpre
  · intro hnone
    obtain ⟨calls, t, h⟩ := reads_return MyMagicCodec uid (arrivals.map .arrival) s
    obtain ⟨u, hu⟩ := onRead_returns MyMagicCodec uid last.bytes last.result t
    obtain ⟨calls', ho⟩ := (onRead_iff_calls last).mp hu
    obtain ⟨packets, rest, hcut, hspent, heq⟩ := hcalls h ho
    refine ⟨calls, t, calls', u, h, ho, ?_⟩
    intro frames tail htail
    rw [heq]
    exact (calls_prefix_iff _ _).mpr ((frames_cut_iff hcut hspent).mpr hnone frames tail htail)

end MyProxy

/-- Every complete frame that came before the end of its stream is handled, on
both sides, exactly when the event that sees the end completes none; a servant
must besides get there, which `handlePackets` can prevent. -/
theorem frames_before_end_iff (arrivals : List (List (List Byte))) (last : ReadEvent)
    (hend : last.result ≠ .drained) :
    (MyServant.HandsOver arrivals last ↔
      MyServant.Returns arrivals ∧ EndCompletesNone arrivals last) ∧
    ∀ uid s, MyProxy.bufferOf uid s = some [] →
      (MyProxy.HandsOver uid s arrivals last ↔ EndCompletesNone arrivals last) :=
  ⟨MyServant.handsOver_iff hend, fun _ _ hs => MyProxy.handsOver_iff hend hs⟩

/-- A frame arrives, and the end of the stream in an event of its own. -/
theorem frames_before_end_heartbeat :
    let frame := heartbeatFrame 7
    MyServant.HandsOver [[frame.bytes]] ⟨[],.closed⟩ ∧
      MyProxy.HandsOver 0x70001 ⟨.oneClient 0x70001,[]⟩ [[frame.bytes]] ⟨[],.closed⟩ := by
  intro frame
  obtain ⟨hserver, hclient⟩ :=
    frames_before_end_iff [[frame.bytes]] ⟨[],.closed⟩ ReadResult.noConfusion
  have hnone : EndCompletesNone [[frame.bytes]] ⟨[],.closed⟩ := by
    intro frames tail heq
    have hl := congrArg List.length heq
    rw [List.length_append, List.length_append] at hl
    exact (Nat.le_add_right _ _).trans hl.ge
  refine ⟨hserver.mpr ⟨?_, hnone⟩, (hclient 0x70001 ⟨.oneClient 0x70001,[]⟩ rfl).mpr hnone⟩
  intro n
  cases n with
  | zero => exact .done
  | succ n =>
    rw [List.take_succ_cons, List.take_nil]
    exact .packet (by decide) (by decide) .done

/-- A frame and the end of the stream in one event: neither side handles the frame. -/
theorem frame_with_end_lost :
    let frame := heartbeatFrame 7
    ¬ MyServant.HandsOver [] ⟨[frame.bytes],.closed⟩ ∧
      ¬ MyProxy.HandsOver 0x70001 ⟨.oneClient 0x70001,[]⟩ [] ⟨[frame.bytes],.closed⟩ := by
  intro frame
  have hlost : ¬ EndCompletesNone [] ⟨[frame.bytes],.closed⟩ := by
    intro h
    have hle := h [frame] [] (by decide)
    exact absurd hle (by decide)
  refine ⟨?_, ?_⟩
  · rw [MyServant.handsOver_iff ReadResult.noConfusion]
    exact fun h => hlost h.2
  · rw [MyProxy.handsOver_iff ReadResult.noConfusion rfl]
    exact hlost

end EchoFrame
