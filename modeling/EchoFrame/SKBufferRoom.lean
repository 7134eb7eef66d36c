import EchoFrame.SKBufferSpec
import Mathlib.Tactic.IntervalCases

/-! Growth and the region handed out. `makeRoom` is followed through its outcomes,
the raw copy of `incr` included. -/
namespace EchoFrame
open Verif

namespace MySKBuffer

variable {b : MySKBuffer}

theorem leBytes_four_of_small {n : ℕ} (h : n < 256) : leBytes 4 n = [UInt8.ofNat n,0,0,0] := by
  have hn : n/256 = 0 := by omega
  rw [leBytes, hn, leBytes_zero]
  rfl

/-- The buffer that the copy in `incr` builds before `sort` runs: eight bytes
of the copied count went to the cursors, so that many data bytes stay behind,
and a block of less than five bytes does not carry `writeable_` over at all. -/
def grown (junk : ℕ → Byte) (b : MySKBuffer) : MySKBuffer where
  minCapacity := u32 (b.head.capacity+b.minCapacity)
  head := ⟨u32 (b.head.capacity+b.minCapacity), b.head.readable,
    if 5 ≤ b.head.capacity then b.head.writeable else 0⟩
  data := b.data.take (b.head.capacity-8) ++
    (freshData junk (u32 (b.head.capacity+b.minCapacity))).drop (b.head.capacity-8)

theorem grown_head (junk : ℕ → Byte) (hb : b.Ordered) :
    (grown junk b).head = ⟨u32 (2*b.head.capacity), b.head.readable,
      if 5 ≤ b.head.capacity then b.head.writeable else 0⟩ := by
  rw [grown, hb.min_eq, two_mul]

/-- The raw copy of `incr`, header and data together. -/
theorem copied_eq (hb : b.Ordered) (fresh : List Byte) :
    ((leBytes 4 b.head.readable ++ leBytes 4 b.head.writeable ++ b.data).take b.head.capacity ++
      (List.replicate 8 0 ++ fresh).drop b.head.capacity) =
    leBytes 4 b.head.readable ++ leBytes 4 (if 5 ≤ b.head.capacity then b.head.writeable else 0) ++
      (b.data.take (b.head.capacity-8) ++ fresh.drop (b.head.capacity-8)) := by
  have hd := hb.data_len
  have hr := hb.readable_le
  have hw := hb.writeable_le
  obtain ⟨_, ⟨c,r,w⟩, data⟩ := b
  dsimp only at hd hr hw ⊢
  by_cases h8 : 8 ≤ c
  · -- both cursors are copied, and data after them
    have hlen : (leBytes 4 r ++ leBytes 4 w).length = 8 := by simp
    rw [if_pos (by omega), List.take_append, List.take_of_length_le (by omega), hlen,
      List.drop_append, List.drop_of_length_le (by simpa using h8), List.nil_append,
      List.length_replicate, List.append_assoc]
  · -- the copy ends within the cursors, which are single bytes here
    rw [leBytes_four_of_small (show r < 256 by omega), leBytes_four_of_small (show w < 256 by omega)]
    have hc : c < 8 := by omega
    have hdata : data.take (c-8) = [] := by rw [show c-8 = 0 by omega, List.take_zero]
    rw [hdata, show c-8 = 0 by omega]
    interval_cases c
    · obtain rfl : w = 0 := by omega
      obtain rfl : r = 0 := by omega
      simp [List.replicate]
    all_goals simp [leBytes_four_of_small (show w < 256 by omega), List.replicate]

/-- The bytes that `incr` copies are there: the cursors and the data, or a part of them. -/
theorem load_copied (hb : b.Ordered) :
    load b.block 4 b.head.capacity =
      some ((leBytes 4 b.head.readable ++ leBytes 4 b.head.writeable ++ b.data).take
        b.head.capacity) := by
  have hblock : b.block.drop 4 = leBytes 4 b.head.readable ++ leBytes 4 b.head.writeable ++ b.data := by
    simp only [block, SKBufferHead.bytes, List.append_assoc]
    rw [List.drop_append_of_le_length (by simp), List.drop_of_length_le (by simp), List.nil_append]
  have hblen : b.block.length = b.head.capacity+12 := by
    rw [block, List.length_append, length_headBytes, hb.data_len, sizeofHead, Nat.add_comm]
  rw [load_eq_some (by omega), hblock]

theorem length_copied (hb : b.Ordered) :
    ((leBytes 4 b.head.readable ++ leBytes 4 b.head.writeable ++ b.data).take
      b.head.capacity).length = b.head.capacity := by
  simp only [List.length_take, List.length_append, length_leBytes, hb.data_len]
  omega

theorem incr_eq (junk : ℕ → Byte) (hb : b.Ordered) :
    b.incr junk =
      if b.head.capacity ≤ u32 (2*b.head.capacity)+8 then sort (grown junk b) else none := by
  have hr := hb.readable_lt
  have hw := hb.writeable_lt
  have hnc : u32 (b.head.capacity+b.minCapacity) = u32 (2*b.head.capacity) := by
    rw [hb.min_eq, two_mul]
  have hlt := u32_lt (2*b.head.capacity)
  set nc := u32 (2*b.head.capacity) with hncdef
  set fresh := freshData junk nc with hfresh
  have hflen : fresh.length = nc := length_freshData junk nc
  have hnew : SKBufferHead.bytes ⟨nc,0,0⟩ ++ fresh = leBytes 4 nc ++ (List.replicate 8 0 ++ fresh) := by
    simp only [SKBufferHead.bytes, leBytes_zero, List.append_assoc]
    rfl
  unfold incr
  simp only [hnc, initHead_eq, Option.bind_eq_bind, Option.bind_some, load_copied hb, hnew, ← hfresh]
  unfold store
  rw [length_copied hb]
  have hlen : (leBytes 4 nc ++ (List.replicate 8 0 ++ fresh)).length = nc+12 := by
    simp only [List.length_append, length_leBytes, List.length_replicate, hflen]
    omega
  by_cases hfit : b.head.capacity ≤ nc+8
  · rw [if_pos (by omega), if_pos hfit, Option.bind_some]
    have htake : (leBytes 4 nc ++ (List.replicate 8 0 ++ fresh)).take 4 = leBytes 4 nc :=
      List.take_left' (length_leBytes 4 nc)
    have hdrop : (leBytes 4 nc ++ (List.replicate 8 0 ++ fresh)).drop (4+b.head.capacity) =
        (List.replicate 8 0 ++ fresh).drop b.head.capacity := by
      rw [← List.drop_drop, List.drop_left' (length_leBytes 4 nc)]
    rw [htake, hdrop, List.append_assoc, copied_eq hb fresh]
    have hw' : (if 5 ≤ b.head.capacity then b.head.writeable else 0) < 2^32 := by
      split <;> omega
    have hparse := ofBlock_append nc
      ⟨nc, b.head.readable, if 5 ≤ b.head.capacity then b.head.writeable else 0⟩
      (b.data.take (b.head.capacity-8) ++ fresh.drop (b.head.capacity-8)) hlt hr hw'
    simp only [SKBufferHead.bytes, List.append_assoc] at hparse ⊢
    rw [hparse]
    simp only [grown, hnc, ← hfresh]
  · rw [if_neg (by omega), if_neg hfit, Option.bind_none]

/-- What a request for `length` bytes needs: the end of the region must not wrap,
and it must fit the block as it is or the block doubled once. Below five bytes
the doubled block starts with `writeable_` lost. -/
def Roomy (b : MySKBuffer) (length : ℕ) : Prop :=
  b.rewind.head.writeable+length < 2^32 ∧
  (b.head.writeable-b.head.readable+length ≤ b.head.capacity ∨
    2*b.head.capacity < 2^32 ∧
      if b.head.readable = b.head.writeable ∨ 5 ≤ b.head.capacity then
        b.head.writeable-b.head.readable+length ≤ 2*b.head.capacity
      else b.head.readable = 0 ∧ length ≤ 2*b.head.capacity)

instance (b : MySKBuffer) (length : ℕ) : Decidable (Roomy b length) := by
  unfold Roomy
  infer_instance

/-- The request makes the block grow while bytes are unread. -/
def Grows (b : MySKBuffer) (length : ℕ) : Prop :=
  b.head.readable ≠ b.head.writeable ∧
    b.head.capacity < b.head.writeable-b.head.readable+length

/-- The growth copy reaches every unread byte. -/
def CopyReaches (b : MySKBuffer) (length : ℕ) : Prop :=
  Grows b length → b.head.writeable+8 ≤ b.head.capacity

instance (b : MySKBuffer) (length : ℕ) : Decidable (CopyReaches b length) := by
  unfold CopyReaches Grows
  infer_instance

/-- The outcomes of `makeRoom`: the region is handed out as it stands, after
compaction, or after growth. -/
theorem makeRoom_cases (junk : ℕ → Byte) (length : ℕ) (hl : length < 2^32) (hb : b.Ordered) :
    (b.makeRoom junk length = some b.rewind ∧
      (b.rewind.head.writeable+length ≤ b.head.capacity ∨
        2^32 ≤ b.rewind.head.writeable+length)) ∨
    (b.makeRoom junk length = b.rewind.sort ∧ b.rewind.head.writeable+length < 2^32 ∧
      b.head.writeable-b.head.readable+length ≤ b.head.capacity) ∨
    (b.makeRoom junk length = b.rewind.incr junk ∧ b.rewind.head.writeable+length < 2^32 ∧
      b.head.capacity < b.head.writeable-b.head.readable+length) := by
  obtain ⟨hord, _, hcap, hused⟩ := rewind_spec hb
  have hw := hord.writeable_le
  have hwl := hord.writeable_lt
  have hc := hb.capacity_lt
  have hr := hb.readable_le
  have hwc := hb.writeable_le
  unfold makeRoom
  dsimp only
  rw [hcap, getWriteableLength_eq hord, hcap, hused, Option.bind_eq_bind, Option.bind_some]
  -- an end that wraps passes for one within the block
  by_cases hwrap : 2^32 ≤ b.rewind.head.writeable+length
  · have hu := u32_add_wrap hwl hl hwrap
    rw [if_neg (by omega)]
    exact Or.inl ⟨rfl, Or.inr hwrap⟩
  · have hu : u32 (b.rewind.head.writeable+length) = b.rewind.head.writeable+length :=
      u32_of_lt (by omega)
    rw [hu]
    by_cases hfit : b.rewind.head.writeable+length ≤ b.head.capacity
    · rw [if_neg (by omega)]
      exact Or.inl ⟨rfl, Or.inl hfit⟩
    · rw [if_pos (by omega)]
      by_cases hroom : length ≤ b.head.capacity-(b.head.writeable-b.head.readable)
      · rw [if_pos hroom]
        exact Or.inr (Or.inl ⟨rfl, by omega, by omega⟩)
      · rw [if_neg hroom]
        exact Or.inr (Or.inr ⟨rfl, by omega, by omega⟩)

/-- A doubled block keeps the order of the cursors unless it lost `writeable_`,
and it keeps every unread byte that the copy reaches. -/
theorem grown_spec (junk : ℕ → Byte) (hb : b.Ordered) (h2 : 2*b.head.capacity < 2^32) :
    (5 ≤ b.head.capacity ∨ b.head.readable = 0 → (grown junk b).Ordered) ∧
    (b.head.readable = b.head.writeable ∨ b.head.writeable+8 ≤ b.head.capacity →
      (grown junk b).contents = b.contents) := by
  have hd := hb.data_len
  have hr := hb.readable_le
  have hw := hb.writeable_le
  have hnc : u32 (b.head.capacity+b.minCapacity) = 2*b.head.capacity := by
    rw [hb.min_eq, ← two_mul, u32_of_lt h2]
  have htake : (b.data.take (b.head.capacity-8)).length = b.head.capacity-8 := by
    rw [List.length_take]
    omega
  constructor
  · intro hcase
    refine ⟨?_, rfl, ?_, ?_, ?_⟩
    · simp only [grown, hnc, List.length_append, htake, List.length_drop, length_freshData]
      omega
    · change b.head.readable ≤ if _ then _ else _
      split <;> omega
    · change (if _ then _ else _) ≤ u32 _
      rw [hnc]
      split <;> omega
    · change u32 _ < _
      rwa [hnc]
  · rintro (he | hreach)
    · have hz : (if 5 ≤ b.head.capacity then b.head.writeable else 0)-b.head.readable = 0 := by
        split <;> omega
      simp only [contents, grown, hz, List.take_zero]
      rw [he, Nat.sub_self, List.take_zero]
    · simp only [contents, grown]
      rw [if_pos (by omega), List.drop_append_of_le_length (by omega),
        List.take_append_of_le_length (by rw [List.length_drop, htake]; omega),
        List.drop_take, List.take_take]
      congr 1
      omega

/-- The growth step hands on an ordered buffer, compacted into a doubled block. -/
theorem incr_spec (junk : ℕ → Byte) (hb : b.Ordered) (h2 : 2*b.head.capacity < 2^32)
    (hcase : 5 ≤ b.head.capacity ∨ b.head.readable = 0) :
    ∃ b', b.incr junk = some b' ∧ b'.Ordered ∧
      b'.head = ⟨2*b.head.capacity, 0, (if 5 ≤ b.head.capacity then b.head.writeable else 0)-
        b.head.readable⟩ ∧
      (b.head.readable = b.head.writeable ∨ b.head.writeable+8 ≤ b.head.capacity →
        b'.contents = b.contents) := by
  obtain ⟨hord, hkeep⟩ := grown_spec junk hb h2
  obtain ⟨b', hsort, hord', hcont, hhead⟩ := sort_spec (hord hcase)
  refine ⟨b', ?_, hord', ?_, fun h => hcont.trans (hkeep h)⟩
  · rw [incr_eq junk hb, u32_of_lt h2, if_pos (by omega), hsort]
  · rw [hhead, grown_head junk hb, u32_of_lt h2]

/-- A roomy request is served: the region lies inside the block, and no byte is
lost where the growth copy reaches them all. -/
theorem makeRoom_spec (junk : ℕ → Byte) {length : ℕ} (hl : length < 2^32) (hb : b.Ordered)
    (hroom : Roomy b length) :
    ∃ b', b.makeRoom junk length = some b' ∧ b'.Ordered ∧
      b'.head.writeable+length ≤ b'.head.capacity ∧
      (CopyReaches b length → b'.contents = b.contents) := by
  obtain ⟨hord, hcont, hcap, hused⟩ := rewind_spec hb
  have hr := hb.readable_le
  rcases makeRoom_cases junk length hl hb with ⟨hm, hfit⟩ | ⟨hm, _, hfit⟩ | ⟨hm, _, hgrow⟩
  · have hin : b.rewind.head.writeable+length ≤ b.head.capacity :=
      hfit.resolve_right (by have := hroom.1; omega)
    exact ⟨b.rewind, hm, hord, by rw [hcap]; exact hin, fun _ => hcont⟩
  · obtain ⟨b', hs, hord', hc', hhead⟩ := sort_spec hord
    refine ⟨b', hm.trans hs, hord', ?_, fun _ => hc'.trans hcont⟩
    rw [hhead]
    dsimp only
    omega
  · have h2 : 2*b.head.capacity < 2^32 := (hroom.2.resolve_left (by omega)).1
    have hlim := (hroom.2.resolve_left (by omega)).2
    have hcase : 5 ≤ b.rewind.head.capacity ∨ b.rewind.head.readable = 0 := by
      rw [hcap]
      by_cases he : b.head.readable = b.head.writeable
      · exact Or.inr (by rw [rewind, if_pos he])
      · by_cases h5 : 5 ≤ b.head.capacity
        · exact Or.inl h5
        · rw [if_neg (not_or_intro he h5)] at hlim
          exact Or.inr (by rw [rewind, if_neg he, hlim.1])
    obtain ⟨b', hi, hord', hhead, hkeep⟩ := incr_spec junk hord (hcap ▸ h2) hcase
    refine ⟨b', hm.trans hi, hord', ?_, ?_⟩
    · rw [hhead, hcap]
      dsimp only
      split_ifs at hlim ⊢ <;> omega
    · intro hreach
      refine (hkeep ?_).trans hcont
      unfold rewind
      split
      · exact Or.inl rfl
      · next hne => exact Or.inr (hreach ⟨hne, hgrow⟩)

end MySKBuffer
end EchoFrame
