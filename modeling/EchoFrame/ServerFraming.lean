import EchoFrame.ServerPackets

/-! A servant takes the frames of a stream out of the chunks it arrives in. -/
namespace EchoFrame
open Verif

theorem Frame.getPacketLength_append (f : Frame) (rest : List Byte) :
    MyMagicMessage.getPacketLength (f.bytes ++ rest) = f.bytes.length := by
  have hle := f.headLen_le
  unfold MyMagicMessage.headLen at hle
  rw [← f.length_field]
  refine MyMagicMessage.getPacketLength_congr ?_ (by omega) ?_
  · rw [List.length_append]
    omega
  · exact List.take_append_of_le_length (by omega)

theorem Frame.getPacketLength_take (f : Frame) {k : ℕ} (hk : 4 < k) :
    MyMagicMessage.getPacketLength (f.bytes.take k) = f.bytes.length := by
  have hle := f.headLen_le
  unfold MyMagicMessage.headLen at hle
  rw [← f.length_field]
  refine MyMagicMessage.getPacketLength_congr ?_ (by omega) ?_
  · rw [List.length_take]
    omega
  · rw [List.take_take, Nat.min_eq_left hk.le]

namespace MyServant

def stream (frames : List Frame) : List Byte := frames.flatMap Frame.bytes

def dispatches (frames : List Frame) : List ServantEvent :=
  frames.map fun f => .handlePacket f.bytes

def complete : List Frame → ℕ → List Frame
  | [], _ => []
  | f :: fs, k => if f.bytes.length ≤ k then f :: complete fs (k-f.bytes.length) else []

def remaining : List Frame → ℕ → List Frame
  | [], _ => []
  | f :: fs, k => if f.bytes.length ≤ k then remaining fs (k-f.bytes.length) else f :: fs

/-- How many of the first `k` bytes belong to a frame that they do not complete. -/
def residue : List Frame → ℕ → ℕ
  | [], k => k
  | f :: fs, k => if f.bytes.length ≤ k then residue fs (k-f.bytes.length) else k

/-- A cut after `k` bytes does not leave one to four bytes of a frame. -/
def CutClear (frames : List Frame) (k : ℕ) : Prop := residue frames k = 0 ∨ 4 < residue frames k

/-- No cut between the chunks, the first of which starts at `k`, leaves one to
four bytes of a frame. -/
def CutsClear (frames : List Frame) : ℕ → List (List Byte) → Prop
  | _, [] => True
  | k, chunk :: chunks =>
    CutClear frames (k+chunk.length) ∧ CutsClear frames (k+chunk.length) chunks

instance decidableCutsClear (frames : List Frame) : ∀ k chunks, Decidable (CutsClear frames k chunks)
  | _, [] => .isTrue trivial
  | k, chunk :: chunks =>
    have := decidableCutsClear frames (k+chunk.length) chunks
    inferInstanceAs (Decidable ((residue frames (k+chunk.length) = 0 ∨
      4 < residue frames (k+chunk.length)) ∧ CutsClear frames (k+chunk.length) chunks))

/-- The chunks arrive one after the other, and `handlePackets` returns after each. -/
inductive Receives : ReadChannel → List (List Byte) → ReadChannel → Prop
  | nil (c : ReadChannel) : Receives c [] c
  | cons {c c' c'' : ReadChannel} {chunk : List Byte} {chunks : List (List Byte)}
      (h : HandlesPackets (c.receive chunk) c') (hrest : Receives c' chunks c'') :
      Receives c (chunk :: chunks) c''

/-- The channel after the first `k` bytes of the stream: the complete frames are
dispatched and the others wait in the buffer. -/
def progress (frames : List Frame) (k : ℕ) : ReadChannel :=
  ⟨(stream (remaining frames k)).take (residue frames k),dispatches (complete frames k)⟩

theorem stream_cons (f : Frame) (fs : List Frame) : stream (f :: fs) = f.bytes ++ stream fs :=
  List.flatMap_cons

theorem stream_split (fs : List Frame) (k : ℕ) :
    stream (complete fs k) ++ stream (remaining fs k) = stream fs := by
  induction fs generalizing k with
  | nil => rfl
  | cons f fs ih =>
    by_cases hk : f.bytes.length ≤ k
    · rw [complete, if_pos hk, remaining, if_pos hk, stream_cons, stream_cons]
      calc f.bytes ++ stream (complete fs (k-f.bytes.length)) ++
            stream (remaining fs (k-f.bytes.length))
          = f.bytes ++ (stream (complete fs (k-f.bytes.length)) ++
            stream (remaining fs (k-f.bytes.length))) := List.append_assoc ..
        _ = f.bytes ++ stream fs := by rw [ih]
    · rw [complete, if_neg hk, remaining, if_neg hk]
      rfl

theorem length_complete_add_residue (fs : List Frame) (k : ℕ) :
    (stream (complete fs k)).length+residue fs k = k := by
  induction fs generalizing k with
  | nil => exact Nat.zero_add k
  | cons f fs ih =>
    by_cases hk : f.bytes.length ≤ k
    · have hrest := ih (k-f.bytes.length)
      rw [complete, if_pos hk, residue, if_pos hk, stream_cons, List.length_append]
      omega
    · rw [complete, if_neg hk, residue, if_neg hk]
      exact Nat.zero_add k

/-- The split at `k+n` is that of the rest, behind the split at `k`. -/
theorem split_add (fs : List Frame) (k n : ℕ) :
    complete fs (k+n) = complete fs k ++ complete (remaining fs k) (residue fs k+n) ∧
    remaining fs (k+n) = remaining (remaining fs k) (residue fs k+n) ∧
    residue fs (k+n) = residue (remaining fs k) (residue fs k+n) := by
  induction fs generalizing k with
  | nil => exact ⟨rfl, rfl, rfl⟩
  | cons f fs ih =>
    by_cases hk : f.bytes.length ≤ k
    · obtain ⟨hc, hrem, hres⟩ := ih (k-f.bytes.length)
      have hkn : f.bytes.length ≤ k+n := Nat.le_add_right_of_le hk
      have hsub : k+n-f.bytes.length = k-f.bytes.length+n := by omega
      simp only [complete, remaining, residue, hk, hkn, ↓reduceIte, hsub, List.cons_append]
      exact ⟨congrArg _ hc, hrem, hres⟩
    · simp only [complete, remaining, residue, hk, ↓reduceIte, List.nil_append, and_self]

theorem split_stream (fs : List Frame) :
    complete fs (stream fs).length = fs ∧ remaining fs (stream fs).length = [] ∧
      residue fs (stream fs).length = 0 := by
  induction fs with
  | nil => exact ⟨rfl, rfl, rfl⟩
  | cons f fs ih =>
    have hle : f.bytes.length ≤ f.bytes.length+(stream fs).length := Nat.le_add_right _ _
    simp only [stream_cons, List.length_append, complete, remaining, residue, hle, ↓reduceIte,
      Nat.add_sub_cancel_left, ih, and_self]

theorem take_stream_of_le {f : Frame} {fs : List Frame} {k : ℕ} (hk : f.bytes.length ≤ k) :
    (stream (f :: fs)).take k = f.bytes ++ (stream fs).take (k-f.bytes.length) := by
  rw [stream_cons, List.take_append, List.take_of_length_le hk]

theorem take_stream_of_lt {f : Frame} {fs : List Frame} {k : ℕ} (hk : k < f.bytes.length) :
    (stream (f :: fs)).take k = f.bytes.take k := by
  rw [stream_cons, List.take_append_of_le_length hk.le]

theorem takes_frame (f : Frame) (rest : List Byte) (es : List ServantEvent) :
    handlePacketsBody MyMagicCodec ⟨f.bytes ++ rest,es⟩ =
      (⟨rest,es ++ [.handlePacket f.bytes]⟩,true) := by
  have hhead := f.headLen_le
  have hpl := f.getPacketLength_append rest
  unfold MyMagicMessage.headLen at hhead
  have hbody := handlePacketsBody_packet (c := ⟨f.bytes ++ rest,es⟩) (by rw [hpl]; omega)
    (by rw [hpl, List.length_append]; exact Nat.le_add_right _ _)
  rwa [hpl, List.drop_left, List.take_left] at hbody

/-- The loop on the first `k` bytes of a stream: it takes out the frames they
complete, one an iteration, and ends if the cut is clear. -/
theorem handlesPackets_of_cut (fs : List Frame) (k : ℕ) (hk : k ≤ (stream fs).length)
    (hclear : CutClear fs k) (es : List ServantEvent) :
    HandlesPackets ⟨(stream fs).take k,es⟩
      ⟨(stream (remaining fs k)).take (residue fs k),es ++ dispatches (complete fs k)⟩ := by
  induction fs generalizing k es with
  | nil =>
    simp only [stream, remaining, complete, dispatches, List.flatMap_nil, List.take_nil,
      List.map_nil, List.append_nil]
    exact .stop (handlePacketsBody_nil rfl)
  | cons f fs ih =>
    rw [stream_cons, List.length_append] at hk
    by_cases hfk : f.bytes.length ≤ k
    · simp only [CutClear, residue, hfk, ↓reduceIte] at hclear
      simp only [residue, remaining, complete, hfk, ↓reduceIte]
      have hrest := ih (k-f.bytes.length) (by omega) hclear (es ++ [.handlePacket f.bytes])
      rw [List.append_assoc] at hrest
      rw [take_stream_of_le hfk]
      exact .again (takes_frame f _ es) hrest
    · simp only [CutClear, residue, hfk, ↓reduceIte] at hclear
      simp only [residue, remaining, complete, hfk, ↓reduceIte, dispatches, List.map_nil,
        List.append_nil]
      rw [take_stream_of_lt (Nat.lt_of_not_le hfk)]
      rcases hclear with rfl | h4
      · exact .stop (handlePacketsBody_nil rfl)
      · refine .stop (handlePacketsBody_short ?_)
        rw [f.getPacketLength_take h4, List.length_take]
        omega

/-- One to four bytes of a frame stall the loop, whatever was complete before them. -/
theorem not_handlesPackets_of_cut (fs : List Frame) (k : ℕ) (hk : k ≤ (stream fs).length)
    (hcut : ¬ CutClear fs k) (es : List ServantEvent) :
    ¬ ∃ c', HandlesPackets ⟨(stream fs).take k,es⟩ c' := by
  induction fs generalizing k es with
  | nil => exact absurd (.inl (Nat.le_zero.mp hk)) hcut
  | cons f fs ih =>
    have hhead := f.headLen_le
    unfold MyMagicMessage.headLen at hhead
    rw [stream_cons, List.length_append] at hk
    by_cases hfk : f.bytes.length ≤ k
    · simp only [CutClear, residue, hfk, ↓reduceIte] at hcut
      rintro ⟨c', h⟩
      rw [take_stream_of_le hfk] at h
      exact ih (k-f.bytes.length) (by omega) hcut _ ⟨c', h.of_again (takes_frame f _ es)⟩
    · simp only [CutClear, residue, hfk, ↓reduceIte, not_or] at hcut
      rw [take_stream_of_lt (Nat.lt_of_not_le hfk)]
      have hlen : (f.bytes.take k).length = k := by
        rw [List.length_take]
        omega
      have h0 : MyMagicMessage.getPacketLength (f.bytes.take k) = 0 :=
        MyMagicMessage.getPacketLength_of_le (by omega)
      have hne : f.bytes.take k ≠ [] := by
        rw [← List.length_pos_iff]
        omega
      exact not_handlesPackets_of_stalled ⟨hne, h0⟩

/-- A chunk that goes on with the stream takes the channel from one point of it
to the next, exactly when the cut behind the chunk is clear. -/
theorem handlesPackets_receive_iff {frames : List Frame} {k : ℕ} {chunk rest : List Byte}
    (hk : k ≤ (stream frames).length) (hcut : (stream frames).drop k = chunk ++ rest)
    (c' : ReadChannel) :
    HandlesPackets ((progress frames k).receive chunk) c' ↔
      CutClear frames (k+chunk.length) ∧ c' = progress frames (k+chunk.length) := by
  obtain ⟨hc, hrem, hres⟩ := split_add frames k chunk.length
  have hsplit := stream_split frames k
  have hlen := length_complete_add_residue frames k
  have hdrop : (stream (remaining frames k)).drop (residue frames k) = chunk ++ rest := by
    have hd := congrArg (List.drop k) hsplit
    rw [hcut, List.drop_append, List.drop_of_length_le (by omega), List.nil_append] at hd
    rw [← hd]
    congr 1
    omega
  have hbuf : (stream (remaining frames k)).take (residue frames k) ++ chunk =
      (stream (remaining frames k)).take (residue frames k+chunk.length) := by
    rw [List.take_add, hdrop, List.take_left]
  have hle : residue frames k+chunk.length ≤ (stream (remaining frames k)).length := by
    have hl := congrArg List.length hdrop
    have hs := congrArg List.length hsplit
    simp only [List.length_drop, List.length_append] at hl hs
    omega
  have hclear : CutClear frames (k+chunk.length) ↔
      CutClear (remaining frames k) (residue frames k+chunk.length) := by
    unfold CutClear
    rw [hres]
  have hnext : progress frames (k+chunk.length) =
      ⟨(stream (remaining (remaining frames k) (residue frames k+chunk.length))).take
          (residue (remaining frames k) (residue frames k+chunk.length)),
        dispatches (complete frames k) ++
          dispatches (complete (remaining frames k) (residue frames k+chunk.length))⟩ := by
    rw [progress, hc, hrem, hres, dispatches, List.map_append]
    rfl
  rw [hclear, hnext]
  simp only [ReadChannel.receive, progress, hbuf]
  constructor
  · intro h
    by_cases hok : CutClear (remaining frames k) (residue frames k+chunk.length)
    · exact ⟨hok, h.unique (handlesPackets_of_cut _ _ hle hok _)⟩
    · exact absurd ⟨c', h⟩ (not_handlesPackets_of_cut _ _ hle hok _)
  · rintro ⟨hok, rfl⟩
    exact handlesPackets_of_cut _ _ hle hok _

theorem receives_iff {frames : List Frame} {k : ℕ} {chunks : List (List Byte)}
    (hk : k ≤ (stream frames).length) (hcut : (stream frames).drop k = chunks.flatten)
    (c' : ReadChannel) :
    Receives (progress frames k) chunks c' ↔
      CutsClear frames k chunks ∧ c' = progress frames (stream frames).length := by
  -- on the chunks: between two of them the channel is at a point of the stream
  induction chunks generalizing k with
  | nil =>
    have hend : k = (stream frames).length := Nat.le_antisymm hk (List.drop_eq_nil_iff.mp hcut)
    subst hend
    constructor
    · intro h
      cases h
      exact ⟨trivial, rfl⟩
    · rintro ⟨-, rfl⟩
      exact .nil _
  | cons chunk chunks ih =>
    rw [List.flatten_cons] at hcut
    have hk' : k+chunk.length ≤ (stream frames).length := by
      have hl := congrArg List.length hcut
      rw [List.length_drop, List.length_append] at hl
      omega
    have hcut' : (stream frames).drop (k+chunk.length) = chunks.flatten := by
      rw [← List.drop_drop, hcut, List.drop_left]
    constructor
    · intro h
      cases h with
      | cons h hrest =>
        obtain ⟨hok, rfl⟩ := (handlesPackets_receive_iff hk hcut _).mp h
        obtain ⟨hcs, hc⟩ := (ih hk' hcut').mp hrest
        exact ⟨⟨hok, hcs⟩, hc⟩
    · rintro ⟨⟨hok, hcs⟩, hc⟩
      exact .cons ((handlesPackets_receive_iff hk hcut _).mpr ⟨hok, rfl⟩)
        ((ih hk' hcut').mpr ⟨hcs, hc⟩)

/-- The dispatcher gets the frames of the stream, in order and byte for byte,
and nothing else happens to the channel, exactly when no cut leaves one to four
bytes of a frame. -/
theorem frames_delivered_iff (frames : List Frame) (chunks : List (List Byte))
    (hcut : chunks.flatten = stream frames) :
    (∃ c, Receives .empty chunks c ∧ c.events = dispatches frames ∧ c.readBuf = []) ↔
      CutsClear frames 0 chunks := by
  obtain ⟨hc, hrem, hres⟩ := split_stream frames
  have hstart : progress frames 0 = .empty := by
    obtain ⟨h0, hr0⟩ := Nat.add_eq_zero_iff.mp (length_complete_add_residue frames 0)
    cases frames with
    | nil => rfl
    | cons f fs =>
      have hpos : ¬ f.bytes.length ≤ 0 := by
        have hhead := f.headLen_le
        unfold MyMagicMessage.headLen at hhead
        omega
      rw [progress, hr0, complete, if_neg hpos]
      rfl
  have hend : progress frames (stream frames).length = ⟨[],dispatches frames⟩ := by
    rw [progress, hc, hrem, hres, List.take_zero]
  have hiff := receives_iff (Nat.zero_le _) hcut.symm
  rw [hstart, hend] at hiff
  constructor
  · rintro ⟨c, h, -, -⟩
    exact ((hiff c).mp h).1
  · intro h
    exact ⟨_, (hiff _).mpr ⟨h, rfl⟩, rfl, rfl⟩

/-- Two frames, one of them cut in its header, and the next chunk across both. -/
theorem frames_delivered_three_chunks :
    let frames := [MyMagicMessage.heartbeatFrame 7,MyMagicMessage.heartbeatFrame 8]
    ∃ c, Receives .empty
        [(stream frames).take 9,((stream frames).drop 9).take 20,(stream frames).drop 29] c ∧
      c.events = dispatches frames ∧ c.readBuf = [] :=
  (frames_delivered_iff [MyMagicMessage.heartbeatFrame 7,MyMagicMessage.heartbeatFrame 8]
    _ (by decide)).mpr (by decide)

/-- A frame of twenty bytes whose first two arrive on their own is not delivered. -/
theorem frame_cut_after_two_bytes_lost :
    let frame := MyMagicMessage.heartbeatFrame 7
    let chunks := [frame.bytes.take 2,frame.bytes.drop 2]
    chunks.flatten = stream [frame] ∧ (∀ chunk ∈ chunks, chunk ≠ []) ∧
      ¬ ∃ c, Receives .empty chunks c ∧ c.events = dispatches [frame] ∧ c.readBuf = [] := by
  refine ⟨by decide, by decide, ?_⟩
  rintro ⟨_, h, -, -⟩
  cases h with
  | cons h _ => exact not_handlesPackets_of_stalled ⟨by decide, by decide⟩ ⟨_, h⟩

end MyServant
end EchoFrame
