import EchoFrame.ServerPackets

/-! When the packet loop of a servant ends. -/
namespace EchoFrame
open Verif
namespace MyServant

/-- Packets as long as their own length fields say, then nothing, or a piece of
a packet that shows a length field beyond the bytes that are there. -/
inductive Settles : List Byte → Prop
  | done : Settles []
  | incomplete {buf : List Byte} (h : buf.length < MyMagicMessage.getPacketLength buf) : Settles buf
  | packet {buf : List Byte} (hpos : 0 < MyMagicMessage.getPacketLength buf)
      (hle : MyMagicMessage.getPacketLength buf ≤ buf.length)
      (hrest : Settles (buf.drop (MyMagicMessage.getPacketLength buf))) : Settles buf

variable {c c' : ReadChannel}

theorem handlesPackets_of_settles {buf : List Byte} (h : Settles buf) (es : List ServantEvent) :
    ∃ c', HandlesPackets ⟨buf,es⟩ c' := by
  induction h generalizing es with
  | done => exact ⟨_, .stop (handlePacketsBody_nil rfl)⟩
  | incomplete h => exact ⟨_, .stop (handlePacketsBody_short h)⟩
  | packet hpos hle _ ih =>
    obtain ⟨c', hc'⟩ := ih _
    exact ⟨c', .again (handlePacketsBody_packet hpos hle) hc'⟩

theorem settles_of_handlesPackets (h : HandlesPackets c c') : Settles c.readBuf := by
  induction h with
  | stop h =>
    obtain ⟨-, hnil | hlt⟩ := waits_of_stop h
    · rw [hnil]
      exact .done
    · exact .incomplete hlt
  | again h hrest ih =>
    obtain ⟨hpos, hle, rfl⟩ := packet_of_again h hrest
    exact .packet hpos hle ih

/-- Once the channel is removed it is stalled, and only removed again. -/
structure RemovedStalls (c : ReadChannel) : Prop where
  stalled : .removeChannel ∈ c.events → Stalled c
  quiet : QuietAfterRemoval c.events

theorem removedStalls_body {cont : Bool} (hc : RemovedStalls c)
    (h : handlePacketsBody MyMagicCodec c = (c',cont)) : RemovedStalls c' := by
  obtain ⟨hst, hq⟩ := hc
  rcases handlePacketsBody_cases c with ⟨_, hb⟩ | ⟨hs, hb⟩ | ⟨_, hb⟩ | ⟨hpos, hle, hb⟩
  · cases hb.symm.trans h
    exact ⟨hst, hq⟩
  · cases hb.symm.trans h
    refine ⟨fun _ => hs, List.pairwise_append.mpr ⟨hq, List.pairwise_singleton _ _, ?_⟩⟩
    intro e _ e' he' _ packet
    rw [List.mem_singleton.mp he']
    exact ServantEvent.noConfusion
  · cases hb.symm.trans h
    exact ⟨hst, hq⟩
  · cases hb.symm.trans h
    have hlive : .removeChannel ∉ c.events := fun hm => hpos.ne' (hst hm).2
    refine ⟨?_, List.pairwise_append.mpr ⟨hq, List.pairwise_singleton _ _, ?_⟩⟩
    · intro hm
      rcases List.mem_append.mp hm with hm | hm
      · exact absurd hm hlive
      · cases List.mem_singleton.mp hm
    · intro e he _ _ heq
      exact absurd (heq ▸ he) hlive

theorem quiet_of_passes (hc : RemovedStalls c) (h : Passes (handlePacketsBody MyMagicCodec) c c') :
    QuietAfterRemoval c'.events :=
  (h.invariant (fun _ _ _ hs hb => removedStalls_body hs hb) hc).quiet

/-- The loop ends on exactly the settled buffers; on every buffer, no packet is
dispatched after the channel was removed. -/
theorem handlePackets_ends_iff (buf : List Byte) :
    ((∃ c', HandlesPackets ⟨buf,[]⟩ c') ∧
      ∀ c', Passes (handlePacketsBody MyMagicCodec) ⟨buf,[]⟩ c' → QuietAfterRemoval c'.events) ↔
    Settles buf := by
  constructor
  · rintro ⟨⟨_, h⟩, _⟩
    exact settles_of_handlesPackets h
  · intro h
    have hstart : RemovedStalls ⟨buf,[]⟩ := ⟨fun hm => absurd hm List.not_mem_nil, .nil⟩
    exact ⟨handlesPackets_of_settles h [], fun _ => quiet_of_passes hstart⟩

/-- Two bytes of a message keep the loop running for ever. -/
theorem handlePackets_diverges_two :
    ¬ ∃ c', HandlesPackets ⟨[20,0],[]⟩ c' :=
  not_handlesPackets_of_stalled ⟨by decide, rfl⟩

end MyServant
end EchoFrame
