import EchoFrame.ProxyCalls

/-! A proxy takes the frames of a stream out of the chunks it arrives in. A piece
too short to show its length field passes for a complete packet of length 0, and
the loop leaves it where it is. -/
namespace EchoFrame
open Verif MyMagicMessage MyServant
namespace MyProxy

variable {packets : List (List Byte)} {rest : List Byte}

/-- A stream of frames is cut into these frames and nothing else. -/
theorem packets_of_stream {frames : List Frame} (hcut : Cuts getPacketLength (stream frames) packets rest)
    (hspent : Spent packets rest) : packets = frames.map Frame.bytes ∧ rest = [] := by
  have hcut' : Cuts getPacketLength (stream frames ++ []) packets rest := by
    rwa [List.append_nil]
  obtain ⟨more, hmore⟩ := frames_prefix_of_spent hcut' hspent
  have hflat := hcut.flatten_append
  rw [← hmore, List.flatten_append, ← List.flatMap_def, List.append_assoc] at hflat
  obtain ⟨hnil, hrest⟩ := List.append_eq_nil_iff.mp (List.append_right_eq_self.mp hflat)
  have hnone : more = [] := by
    cases more with
    | nil => rfl
    | cons packet more =>
      have hne := hcut.ne_nil packet (hmore ▸ List.mem_append_right _ List.mem_cons_self)
      exact absurd (List.append_eq_nil_iff.mp hnil).1 hne
  exact ⟨by rw [← hmore, hnone, List.append_nil], hrest⟩

/-- However the stream is cut into chunks, each of them one read event with one
read or several, `handlePacket` gets the frames, in order and byte for byte,
nothing is left, and the connection is kept. -/
theorem frames_handled {uid : UInt32} {s : ProxyState} (hs : bufferOf uid s = some [])
    (frames : List Frame) (chunks : List (List (List Byte)))
    (hcut : (chunks.map List.flatten).flatten = stream frames) :
    (∃ calls t, Reads MyMagicCodec uid s (chunks.map .arrival) calls t) ∧
    ∀ calls t, Reads MyMagicCodec uid s (chunks.map .arrival) calls t →
      calls = (frames.map fun f => .handlePacket f.bytes) ∧ bufferOf uid t = some [] := by
  refine ⟨reads_return _ _ _ _, ?_⟩
  intro calls t h
  obtain ⟨packets, rest, hp, hspent, ht, rfl⟩ := cuts_of_reads hs h
  rw [List.nil_append, List.flatten_flatten, hcut] at hp
  obtain ⟨rfl, rfl⟩ := packets_of_stream hp (hspent (.inl rfl))
  refine ⟨?_, ht⟩
  rw [List.map_map]
  rfl

/-- Two frames in three chunks, the first of two bytes and the second across both
frames, read in two pieces. -/
theorem frames_handled_three_chunks :
    let frames := [heartbeatFrame 7,heartbeatFrame 8]
    let chunks := [[(stream frames).take 2],
      [((stream frames).drop 2).take 13,((stream frames).drop 15).take 7],[(stream frames).drop 22]]
    (∃ calls t, Reads MyMagicCodec 0x70001 ⟨.oneClient 0x70001,[]⟩ (chunks.map .arrival) calls t) ∧
    ∀ calls t, Reads MyMagicCodec 0x70001 ⟨.oneClient 0x70001,[]⟩ (chunks.map .arrival) calls t →
      calls = (frames.map fun f => .handlePacket f.bytes) ∧ bufferOf 0x70001 t = some [] :=
  frames_handled rfl [heartbeatFrame 7,heartbeatFrame 8] _ (by decide)

end MyProxy
end EchoFrame
