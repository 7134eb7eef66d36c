import EchoFrame.ReadToEnd
import EchoFrame.UdpServant
import Mathlib.Data.List.Infix
import Mathlib.Logic.Function.Iterate

/-! The datagrams of one peer, put into packets by the servant that reads them. -/
namespace EchoFrame
open Verif MyMagicMessage MyServant

/-- The datagrams that are pending on the socket of the servant, the channel of the peer,
and whether the loop of `handlePackets` is running. -/
structure UdpReader where
  queue : List (List Byte)
  channel : ReadChannel
  handling : Bool
deriving DecidableEq, Repr

namespace UdpReader

def start (datagrams : List (List Byte)) : UdpReader := ⟨datagrams,.empty,false⟩

/-- One iteration of `handlePackets`, or `doRead` of the next datagram. -/
def step (s : UdpReader) : UdpReader :=
  if s.handling then
    let (channel,again) := handlePacketsBody MyMagicCodec s.channel
    { s with channel := channel, handling := again }
  else match s.queue with
    | [] => s
    | d :: queue =>
      -- the peek sees no byte, and the datagram stays
      if (d.take 1).length = 0 then s
      else ⟨queue,s.channel.receive (d.take g_max_udp_packet_length),true⟩

def packets (s : UdpReader) : List (List Byte) := s.channel.events.filterMap ServantEvent.packet

/-- After some steps the `n`th datagram has been dispatched as a packet of its own: it comes
right after the packets made of the datagrams before it. -/
def Dispatched (datagrams : List (List Byte)) (n : ℕ) (d : List Byte) : Prop :=
  ∃ k pre post, (step^[k] (start datagrams)).packets = pre ++ d :: post ∧
    pre.flatten = (datagrams.take n).flatten

/-- The datagrams come to an end with a packet, none of them is empty, and the packet loop
is left after each. -/
structure WellCut (datagrams : List (List Byte)) : Prop where
  nonempty : ∀ d ∈ datagrams, d ≠ []
  settles : ∀ m, Settles (datagrams.take m).flatten
  whole : ∃ packets, Cuts getPacketLength datagrams.flatten packets []

structure Sound (datagrams : List (List Byte)) (s : UdpReader) (k : ℕ) : Prop where
  queue : s.queue = datagrams.drop k
  cuts : Cuts getPacketLength (datagrams.take k).flatten s.packets s.channel.readBuf
  nonempty : ∀ d ∈ datagrams.take k, d ≠ []
  settles : ∀ m < k, Settles (datagrams.take m).flatten
  idle : s.handling = false → Settles s.channel.readBuf

variable {datagrams : List (List Byte)} {s : UdpReader} {k n : ℕ} {d : List Byte}

theorem sound_start (datagrams : List (List Byte)) : Sound datagrams (start datagrams) 0 :=
  ⟨rfl, .nil [], by simp, fun m hm => absurd hm (Nat.not_lt_zero m), fun _ => .done⟩

/-- One iteration of the packet loop. -/
theorem sound_handle (h : Sound datagrams s k) (hs : s.handling = true) :
    Sound datagrams s.step k := by
  rw [step, if_pos hs]
  rcases handlePacketsBody_cases s.channel with ⟨hnil, hb⟩ | ⟨hst, hb⟩ | ⟨hlt, hb⟩ |
    ⟨hpos, hle, hb⟩
  · rw [hb]
    refine ⟨h.queue, h.cuts, h.nonempty, h.settles, fun _ => ?_⟩
    rw [hnil]
    exact .done
  · rw [hb]
    refine ⟨h.queue, ?_, h.nonempty, h.settles, by simp⟩
    have hsame : (s.channel.emit [.removeChannel]).events.filterMap ServantEvent.packet =
        s.packets := by
      simp [ReadChannel.emit, packets, ServantEvent.packet]
    rw [packets, hsame]
    exact h.cuts
  · rw [hb]
    exact ⟨h.queue, h.cuts, h.nonempty, h.settles, fun _ => .incomplete hlt⟩
  · rw [hb]
    refine ⟨h.queue, ?_, h.nonempty, h.settles, by simp⟩
    have hcut := h.cuts.trans (.cons hpos hle (.nil _))
    simpa [packets, ServantEvent.packet] using hcut

theorem take_succ_of_drop {queue : List (List Byte)} (h : datagrams.drop k = d :: queue) :
    datagrams.take (k+1) = datagrams.take k ++ [d] ∧ datagrams.drop (k+1) = queue := by
  have hget : datagrams[k]? = some d := by
    rw [← List.head?_drop, h, List.head?_cons]
  constructor
  · rw [List.take_add_one, hget, Option.toList_some]
  · rw [← List.drop_drop, h, List.drop_one, List.tail_cons]

/-- The next datagram is read, unless it is empty. -/
theorem sound_read (hlen : ∀ d ∈ datagrams, d.length ≤ g_max_udp_packet_length)
    (h : Sound datagrams s k) (hs : s.handling = false) : ∃ k, Sound datagrams s.step k := by
  rw [step, if_neg (by simp [hs])]
  split
  · exact ⟨k, h⟩
  · next d queue hq =>
    split
    · exact ⟨k, h⟩
    · next hne =>
      obtain ⟨htake, hdrop⟩ := take_succ_of_drop (h.queue.symm.trans hq)
      have hmem : d ∈ datagrams := List.mem_of_mem_drop (h.queue ▸ hq ▸ List.mem_cons_self)
      have hall : d.take g_max_udp_packet_length = d := List.take_of_length_le (hlen d hmem)
      have hflat : (datagrams.take (k+1)).flatten = (datagrams.take k).flatten ++ d := by
        rw [htake, List.flatten_append, List.flatten_singleton]
      refine ⟨k+1, hdrop.symm, ?_, ?_, ?_, by simp⟩
      · rw [hflat, hall]
        exact h.cuts.append lengthStable d
      · intro d' hd'
        rw [htake] at hd'
        rcases List.mem_append.mp hd' with hd' | hd'
        · exact h.nonempty d' hd'
        · rw [List.mem_singleton.mp hd']
          rintro rfl
          exact hne rfl
      · intro m hm
        rcases Nat.lt_succ_iff_lt_or_eq.mp hm with hm | rfl
        · exact h.settles m hm
        · exact (settles_cut_iff h.cuts).mpr (h.idle hs)

theorem sound_iterate (hlen : ∀ d ∈ datagrams, d.length ≤ g_max_udp_packet_length) (i : ℕ) :
    ∃ k, Sound datagrams (step^[i] (start datagrams)) k := by
  induction i with
  | zero => exact ⟨0, sound_start datagrams⟩
  | succ i ih =>
    obtain ⟨k, h⟩ := ih
    rw [Function.iterate_succ_apply']
    cases hs : (step^[i] (start datagrams)).handling with
    | true => exact ⟨k, sound_handle h hs⟩
    | false => exact sound_read hlen h hs

theorem exists_cuts_of_settles {buf : List Byte} (h : Settles buf) :
    ∃ packets rest, Cuts getPacketLength buf packets rest ∧
      (rest = [] ∨ rest.length < getPacketLength rest) := by
  induction h with
  | done => exact ⟨[], [], .nil [], .inl rfl⟩
  | @incomplete buf h => exact ⟨[], buf, .nil buf, .inr h⟩
  | packet hpos hle _ ih =>
    obtain ⟨packets, rest, hcut, hw⟩ := ih
    exact ⟨_, rest, .cons hpos hle hcut, hw⟩

/-- A datagram is put into packets of its own only behind datagrams that leave nothing. -/
theorem wellCut_of_dispatched (hlen : ∀ d ∈ datagrams, d.length ≤ g_max_udp_packet_length)
    (hne : d ≠ []) (h : Dispatched datagrams n d) : WellCut (datagrams.take n) := by
  obtain ⟨i, pre, post, hpackets, hpre⟩ := h
  obtain ⟨k, hsound⟩ := sound_iterate hlen i
  have hcuts := hsound.cuts
  rw [hpackets] at hcuts
  have hlt : n < k := by
    by_contra hle
    have hsub : (datagrams.take k).flatten.length ≤ (datagrams.take n).flatten.length :=
      ((List.take_prefix_take_left (Nat.le_of_not_lt hle)).flatten).length_le
    have hall := congrArg List.length hcuts.flatten_append
    rw [List.flatten_append, List.flatten_cons, hpre, List.length_append, List.length_append,
      List.length_append] at hall
    have hd := List.length_pos_iff.mpr hne
    omega
  have hbefore : datagrams.take n <+: datagrams.take k := List.take_prefix_take_left hlt.le
  refine ⟨fun d hd => hsound.nonempty d (hbefore.subset hd), ?_, ?_⟩
  · intro m
    rw [List.take_take]
    exact hsound.settles _ ((Nat.min_le_right m n).trans_lt hlt)
  · obtain ⟨more, hmore⟩ := hbefore.flatten
    rw [← hmore] at hcuts
    obtain ⟨packets, rest, hcut, hw⟩ := exists_cuts_of_settles (hsound.settles n hlt)
    obtain rfl : rest = [] := hcut.rest_eq_nil lengthStable hw hcuts hpre
    exact ⟨packets, hcut⟩

theorem exists_iterate_of_handlesPackets {c c' : ReadChannel} (queue : List (List Byte))
    (h : HandlesPackets c c') : ∃ i, step^[i] ⟨queue,c,true⟩ = ⟨queue,c',false⟩ := by
  induction h with
  | @stop c c' h => exact ⟨1, by simp [step, h]⟩
  | @again c c' c'' h _ ih =>
    obtain ⟨i, hi⟩ := ih
    refine ⟨i+1, ?_⟩
    rw [Function.iterate_succ_apply, ← hi]
    simp [step, h]

/-- A datagram is read, and what it completes is put into packets. -/
theorem exists_iterate_of_settles {rest : List Byte} (queue : List (List Byte))
    (packets : List (List Byte)) (hne : d ≠ []) (hle : d.length ≤ g_max_udp_packet_length)
    (h : Settles (rest ++ d)) :
    ∃ i packets' rest', step^[i] ⟨d :: queue,⟨rest,packets.map .handlePacket⟩,false⟩ =
        ⟨queue,⟨rest',(packets ++ packets').map .handlePacket⟩,false⟩ ∧
      Cuts getPacketLength (rest ++ d) packets' rest' ∧ Waits getPacketLength rest' := by
  obtain ⟨c, hc⟩ := handlesPackets_of_settles h (packets.map .handlePacket)
  obtain ⟨packets', hcut, hw, hevents⟩ := cuts_of_handlesPackets hc
  obtain ⟨i, hi⟩ := exists_iterate_of_handlesPackets queue hc
  refine ⟨i+1, packets', c.readBuf, ?_, hcut, hw⟩
  have hfirst : step ⟨d :: queue,⟨rest,packets.map .handlePacket⟩,false⟩ =
      ⟨queue,⟨rest ++ d,packets.map .handlePacket⟩,true⟩ := by
    simp [step, ReadChannel.receive, List.take_of_length_le hle, hne]
  rw [Function.iterate_succ_apply, hfirst, hi, List.map_append, ← hevents]

theorem exists_iterate_of_wellCut (hlen : ∀ d ∈ datagrams, d.length ≤ g_max_udp_packet_length)
    (hn : n < datagrams.length) (h : WellCut (datagrams.take n)) {m : ℕ} (hm : m ≤ n) :
    ∃ i packets rest,
      step^[i] (start datagrams) = ⟨datagrams.drop m,⟨rest,packets.map .handlePacket⟩,false⟩ ∧
      Cuts getPacketLength (datagrams.take m).flatten packets rest ∧ Waits getPacketLength rest := by
  induction m with
  | zero => exact ⟨0, [], [], rfl, .nil [], .inl rfl⟩
  | succ m ih =>
    obtain ⟨i, packets, rest, hi, hcut, -⟩ := ih (Nat.le_of_succ_le hm)
    have hlt : m < datagrams.length := hm.trans_lt' (Nat.lt_succ_self m) |>.trans hn
    have hdrop : datagrams.drop m = datagrams[m] :: datagrams.drop (m+1) :=
      List.drop_eq_getElem_cons hlt
    have htake : (datagrams.take (m+1)).flatten = (datagrams.take m).flatten ++ datagrams[m] := by
      rw [(take_succ_of_drop hdrop).1, List.flatten_append, List.flatten_singleton]
    have hmem : datagrams[m] ∈ datagrams.take n :=
      List.mem_take_iff_getElem.mpr ⟨m, by omega, rfl⟩
    have happ := hcut.append lengthStable datagrams[m]
    have hsettles : Settles (rest ++ datagrams[m]) := by
      have hall := h.settles (m+1)
      rw [List.take_take, Nat.min_eq_left hm, htake] at hall
      exact (settles_cut_iff happ).mp hall
    obtain ⟨j, packets', rest', hj, hcut', hw⟩ := exists_iterate_of_settles
      (datagrams.drop (m+1)) packets (h.nonempty _ hmem) (hlen _ (List.mem_of_mem_take hmem)) hsettles
    refine ⟨j+i, packets ++ packets', rest', ?_, ?_, hw⟩
    · rw [Function.iterate_add_apply, hi, hdrop, hj]
    · rw [htake]
      exact happ.trans hcut'

theorem cuts_frame (f : Frame) : Cuts getPacketLength f.bytes [f.bytes] [] := by
  simpa [stream] using cuts_stream [f] []

theorem packets_map (queue : List (List Byte)) (rest : List Byte) (packets : List (List Byte)) :
    UdpReader.packets ⟨queue,⟨rest,packets.map .handlePacket⟩,false⟩ = packets := by
  simp [UdpReader.packets, List.filterMap_map, Function.comp_def, ServantEvent.packet]

theorem dispatched_of_wellCut {f : Frame}
    (hlen : ∀ d ∈ datagrams, d.length ≤ g_max_udp_packet_length)
    (hd : datagrams[n]? = some f.bytes) (h : WellCut (datagrams.take n)) :
    Dispatched datagrams n f.bytes := by
  obtain ⟨hn, hget⟩ := List.getElem?_eq_some_iff.mp hd
  have hdrop : datagrams.drop n = f.bytes :: datagrams.drop (n+1) := by
    rw [List.drop_eq_getElem_cons hn, hget]
  have hne : f.bytes ≠ [] := (cuts_frame f).ne_nil f.bytes List.mem_cons_self
  obtain ⟨i, packets, rest, hi, hcut, hw⟩ := exists_iterate_of_wellCut hlen hn h le_rfl
  obtain ⟨whole, hwhole⟩ := h.whole
  obtain ⟨more, rfl⟩ := hcut.prefix_of_waits hw hwhole
  have hflat := hcut.flatten_append
  have hrest : more.flatten = [] ∧ rest = [] := by
    have hsame := hflat.trans hwhole.flatten_append.symm
    rw [List.flatten_append, List.append_assoc, List.append_right_inj] at hsame
    exact List.append_eq_nil_iff.mp hsame
  obtain ⟨-, rfl⟩ := hrest
  have hsettles : Settles ([] ++ f.bytes) := (settles_cut_iff (cuts_frame f)).mpr .done
  obtain ⟨j, packets', rest', hj, hcut', hw'⟩ := exists_iterate_of_settles
    (datagrams.drop (n+1)) (whole ++ more) hne (hlen _ (List.mem_of_getElem? hd)) hsettles
  obtain ⟨post, rfl⟩ := hcut'.prefix_of_waits hw' (cuts_frame f)
  refine ⟨j+i, whole ++ more, post, ?_, ?_⟩
  · rw [Function.iterate_add_apply, hi, hdrop, hj, packets_map]
    rfl
  · rw [← hflat, List.append_nil]

theorem cuts_frames (frames : List Frame) :
    Cuts getPacketLength (frames.map Frame.bytes).flatten (frames.map Frame.bytes) [] := by
  have hcut := cuts_stream frames []
  rwa [List.append_nil, stream, List.flatMap_def] at hcut

/-- A peer that sends one frame in each datagram. -/
theorem wellCut_frames (frames : List Frame) : WellCut (frames.map Frame.bytes) := by
  refine ⟨(cuts_frames frames).ne_nil, ?_, ⟨_, cuts_frames frames⟩⟩
  intro m
  rw [← List.map_take]
  exact (settles_cut_iff (cuts_frames (frames.take m))).mpr .done

theorem dispatched_iff_wellCut {f : Frame}
    (hlen : ∀ d ∈ datagrams, d.length ≤ g_max_udp_packet_length)
    (hd : datagrams[n]? = some f.bytes) :
    Dispatched datagrams n f.bytes ↔ WellCut (datagrams.take n) :=
  ⟨wellCut_of_dispatched hlen ((cuts_frame f).ne_nil f.bytes List.mem_cons_self),
    dispatched_of_wellCut hlen hd⟩

/-- Every datagram that is one frame is dispatched as that frame, exactly if the datagrams
before each of them are cut without a rest. -/
theorem frames_dispatched_iff (datagrams : List (List Byte))
    (hlen : ∀ d ∈ datagrams, d.length ≤ g_max_udp_packet_length) :
    (∀ n (f : Frame), datagrams[n]? = some f.bytes → Dispatched datagrams n f.bytes) ↔
      ∀ n (f : Frame), datagrams[n]? = some f.bytes → WellCut (datagrams.take n) :=
  forall₃_congr fun _ _ hd => dispatched_iff_wellCut hlen hd

theorem heartbeats_dispatched :
    Dispatched [(heartbeatFrame 1).bytes,(heartbeatFrame 2).bytes] 1 (heartbeatFrame 2).bytes := by
  have hlen : ∀ d ∈ [(heartbeatFrame 1).bytes,(heartbeatFrame 2).bytes],
      d.length ≤ g_max_udp_packet_length := by decide
  refine (frames_dispatched_iff _ hlen).mpr ?_ 1 (heartbeatFrame 2) rfl
  intro n _ _
  have hcut := wellCut_frames ([heartbeatFrame 1,heartbeatFrame 2].take n)
  rwa [List.map_take] at hcut

/-- A heartbeat after a datagram that announces 100 bytes, after one of two bytes, and after
an empty one. -/
theorem heartbeat_not_dispatched :
    ¬Dispatched [[100,0,0,0,1],(heartbeatFrame 1).bytes] 1 (heartbeatFrame 1).bytes ∧
      ¬Dispatched [[20,0],(heartbeatFrame 1).bytes] 1 (heartbeatFrame 1).bytes ∧
      ¬Dispatched [[],(heartbeatFrame 1).bytes] 1 (heartbeatFrame 1).bytes := by
  refine ⟨?_, ?_, ?_⟩
  · rw [dispatched_iff_wellCut (by decide) rfl]
    rintro ⟨-, -, packets, hcut⟩
    cases hcut with
    | cons _ hle _ => exact absurd hle (by decide)
  · rw [dispatched_iff_wellCut (by decide) rfl]
    intro h
    cases h.settles 1 with
    | incomplete hlt => exact absurd hlt (by decide)
    | packet hpos _ _ => exact absurd hpos (by decide)
  · rw [dispatched_iff_wellCut (by decide) rfl]
    intro h
    exact h.nonempty [] List.mem_cons_self rfl

end UdpReader
end EchoFrame
