import EchoFrame.SKBuffer

/-! What each operation of the buffer does to an ordered buffer. `makeRoom` is
followed through its three outcomes, the raw copy of `incr` included. -/
namespace EchoFrame
open Verif

theorem SKBufferHead.ofBytes_bytes (h : SKBufferHead) (rest : List Byte)
    (hc : h.capacity < 2^32) (hr : h.readable < 2^32) (hw : h.writeable < 2^32) :
    SKBufferHead.ofBytes (h.bytes ++ rest) = h := by
  have hpow : (256:ℕ)^4 = 2^32 := by norm_num
  have h4 (m xs : List Byte) (n : ℕ) : (leBytes 4 n ++ xs).take 4 = leBytes 4 n := by
    rw [List.take_append_of_le_length (by simp), List.take_of_length_le (by simp)]
  have hd (xs : List Byte) (n : ℕ) : (leBytes 4 n ++ xs).drop 4 = xs := by
    rw [List.drop_append_of_le_length (by simp), List.drop_of_length_le (by simp), List.nil_append]
  have hd8 (xs : List Byte) (m n : ℕ) : (leBytes 4 m ++ (leBytes 4 n ++ xs)).drop 8 = xs := by
    rw [show 8 = 4+4 from rfl, ← List.drop_drop, hd, hd]
  unfold SKBufferHead.ofBytes SKBufferHead.bytes
  simp only [List.append_assoc, hd, hd8, h4 [], leNat_leBytes, hpow, Nat.mod_eq_of_lt hc,
    Nat.mod_eq_of_lt hr, Nat.mod_eq_of_lt hw]

namespace MySKBuffer

theorem length_headBytes (h : SKBufferHead) : h.bytes.length = sizeofHead := by
  simp only [SKBufferHead.bytes, List.length_append, length_leBytes, sizeofHead]

theorem ofBlock_append (minCapacity : ℕ) (h : SKBufferHead) (data : List Byte)
    (hc : h.capacity < 2^32) (hr : h.readable < 2^32) (hw : h.writeable < 2^32) :
    ofBlock minCapacity (h.bytes ++ data) = ⟨minCapacity,h,data⟩ := by
  have hd : (h.bytes ++ data).drop sizeofHead = data := by
    rw [← length_headBytes h, List.drop_left]
  rw [ofBlock, SKBufferHead.ofBytes_bytes h data hc hr hw, hd]

/-- The data area of a fresh block: zero but for its last twelve bytes, which
the memset in `InitHead` does not reach. -/
def freshData (junk : ℕ → Byte) (capacity : ℕ) : List Byte :=
  (List.replicate capacity 0 ++
    ((List.range (capacity+sizeofHead)).map junk).drop capacity).drop sizeofHead

theorem length_freshData (junk : ℕ → Byte) (capacity : ℕ) :
    (freshData junk capacity).length = capacity := by
  simp only [freshData, List.length_drop, List.length_append, List.length_replicate,
    List.length_map, List.length_range]
  omega

theorem initHead_eq (junk : ℕ → Byte) (capacity : ℕ) :
    initHead junk capacity =
      some (SKBufferHead.bytes ⟨capacity,0,0⟩ ++ freshData junk capacity) := by
  have hlen : ((List.range (capacity+sizeofHead)).map junk).length = capacity+sizeofHead := by
    rw [List.length_map, List.length_range]
  unfold initHead
  simp only [Option.bind_eq_bind]
  rw [store_zero (by rw [List.length_replicate, hlen]; omega), Option.bind_some,
    store_zero (by
      rw [length_headBytes, List.length_append, List.length_replicate, List.length_drop, hlen]
      omega),
    length_headBytes, List.length_replicate]
  rfl

theorem create_eq (junk : ℕ → Byte) (capacity : ℕ) (hc : capacity < 2^32) :
    create junk capacity = some ⟨capacity,⟨capacity,0,0⟩,freshData junk capacity⟩ := by
  unfold create
  rw [initHead_eq, Option.bind_eq_bind, Option.bind_some,
    ofBlock_append _ _ _ hc (by norm_num) (by norm_num)]

/-- A new buffer is ordered and exposes nothing. -/
theorem create_spec (junk : ℕ → Byte) (capacity : ℕ) (hc : capacity < 2^32) :
    ∃ b, create junk capacity = some b ∧ b.Ordered ∧ b.contents = [] := by
  refine ⟨_, create_eq junk capacity hc, ?_, rfl⟩
  exact ⟨length_freshData junk capacity, rfl, le_rfl, Nat.zero_le _, hc⟩

variable {b : MySKBuffer}

theorem Ordered.readable_lt (hb : b.Ordered) : b.head.readable < 2^32 :=
  (hb.readable_le.trans hb.writeable_le).trans_lt hb.capacity_lt

theorem Ordered.writeable_lt (hb : b.Ordered) : b.head.writeable < 2^32 :=
  hb.writeable_le.trans_lt hb.capacity_lt

theorem getReadableLength_eq (hb : b.Ordered) :
    b.getReadableLength = some (b.head.writeable-b.head.readable) := if_pos hb.readable_le

theorem getWriteableLength_eq (hb : b.Ordered) :
    b.getWriteableLength = some (b.head.capacity-(b.head.writeable-b.head.readable)) := by
  have hw := hb.writeable_le
  unfold getWriteableLength
  rw [getReadableLength_eq hb, Option.bind_eq_bind, Option.bind_some, if_pos (by omega)]

theorem length_contents (hb : b.Ordered) :
    b.contents.length = b.head.writeable-b.head.readable := by
  have hd := hb.data_len
  have hw := hb.writeable_le
  rw [contents, List.length_take, List.length_drop]
  omega

/-- Compaction keeps the readable bytes. -/
theorem sort_spec (hb : b.Ordered) :
    ∃ b', b.sort = some b' ∧ b'.Ordered ∧ b'.contents = b.contents ∧
      b'.head = ⟨b.head.capacity, 0, b.head.writeable-b.head.readable⟩ := by
  have hd := hb.data_len
  have hr := hb.readable_le
  have hw := hb.writeable_le
  have hc := hb.capacity_lt
  by_cases h0 : b.head.readable = 0
  · refine ⟨b, if_pos h0, hb, rfl, ?_⟩
    rw [h0, Nat.sub_zero, ← h0]
  · let len := b.head.writeable-b.head.readable
    have hpad : u32 (b.head.capacity+2^32-len) = b.head.capacity-len := by
      unfold u32
      omega
    have hlen : ((b.data.drop b.head.readable).take len).length = len := by
      rw [List.length_take, List.length_drop]
      omega
    have hload : load b.data b.head.readable len = some b.contents :=
      load_eq_some (by omega)
    have hcl : b.contents.length = len := hlen
    have hmove : store b.data 0 b.contents = some (b.contents ++ b.data.drop len) := by
      rw [store_zero (by omega), hcl]
    have hzero : store (b.contents ++ b.data.drop len) len
        (List.replicate (b.head.capacity-len) 0) =
        some (b.contents ++ List.replicate (b.head.capacity-len) 0) := by
      rw [store_eq_some (by
        simp only [List.length_append, List.length_replicate, List.length_drop]
        omega), List.take_left' hcl, List.drop_of_length_le (by
        simp only [List.length_append, List.length_replicate, List.length_drop]
        omega), List.append_nil]
    refine ⟨⟨b.minCapacity, ⟨b.head.capacity,0,len⟩,
      b.contents ++ List.replicate (b.head.capacity-len) 0⟩, ?_, ?_, ?_, rfl⟩
    · unfold sort
      rw [if_neg h0, getReadableLength_eq hb]
      simp only [Option.bind_eq_bind, Option.bind_some]
      rw [hload, Option.bind_some, hmove, Option.bind_some, hpad, hzero, Option.bind_some]
    · refine ⟨?_, hb.min_eq, Nat.zero_le _, ?_, hc⟩
      · simp only [List.length_append, List.length_replicate]
        omega
      · change b.head.writeable-b.head.readable ≤ b.head.capacity
        omega
    · exact List.take_left' hcl

/-- Whatever `sort` was given, the header it leaves. -/
theorem sort_head {b' : MySKBuffer} (h : b.sort = some b') :
    (b.head.readable = 0 ∨ b.head.readable ≤ b.head.writeable) ∧
      b'.head = ⟨b.head.capacity, 0, b.head.writeable-b.head.readable⟩ := by
  unfold sort at h
  split at h
  · next h0 =>
    cases h
    refine ⟨Or.inl h0, ?_⟩
    rw [h0, Nat.sub_zero, ← h0]
  · simp only [Option.bind_eq_bind, Option.bind_eq_some_iff] at h
    obtain ⟨len, hlen, _, _, _, _, _, _, hb'⟩ := h
    unfold getReadableLength at hlen
    split at hlen
    · next hr =>
      cases hlen
      cases hb'
      exact ⟨Or.inr hr, rfl⟩
    · cases hlen

theorem rewind_cases (b : MySKBuffer) :
    (b.head.readable = b.head.writeable ∧ b.rewind.head = ⟨b.head.capacity,0,0⟩) ∨
    (b.head.readable ≠ b.head.writeable ∧ b.rewind = b) := by
  unfold rewind
  split
  · next h => exact Or.inl ⟨h, rfl⟩
  · next h => exact Or.inr ⟨h, rfl⟩

theorem rewind_spec (hb : b.Ordered) :
    b.rewind.Ordered ∧ b.rewind.contents = b.contents ∧
      b.rewind.head.capacity = b.head.capacity ∧
      b.rewind.head.writeable-b.rewind.head.readable = b.head.writeable-b.head.readable := by
  unfold rewind
  split
  · next h =>
    refine ⟨⟨hb.data_len, hb.min_eq, le_rfl, Nat.zero_le _, hb.capacity_lt⟩, ?_, rfl, ?_⟩
    · simp only [contents, h, Nat.sub_self, List.take_zero]
    · simp only [h, Nat.sub_self]
  · exact ⟨hb, rfl, rfl, rfl⟩

end MySKBuffer
end EchoFrame
