import EchoFrame.SKBufferOps

/-! The regions handed out by the buffer, over every run of its operations. -/
namespace EchoFrame
open Verif

namespace MySKBuffer

/-- The region handed out for `length` bytes ends inside the data area. -/
def RegionFits (junk : ℕ → Byte) (b : MySKBuffer) (length : ℕ) : Prop :=
  ∃ b' ∈ b.makeRoom junk length, b'.data.length = b'.head.capacity ∧
    b'.head.writeable+length ≤ b'.head.capacity

instance (junk : ℕ → Byte) (b : MySKBuffer) (length : ℕ) : Decidable (RegionFits junk b length) :=
  inferInstanceAs (Decidable (∃ b' ∈ _, _ ∧ _))

/-- The operation runs, hands out no region beyond the data area and leaves the
cursors in order. -/
def StaysInside (b : MySKBuffer) (a : BufferOp × (ℕ → Byte)) : Prop :=
  (∀ length ∈ a.1.request, RegionFits a.2 b length) ∧
    ∃ b', b.step a = some b' ∧ b'.head.readable ≤ b'.head.writeable ∧
      b'.head.writeable ≤ b'.head.capacity

variable {b : MySKBuffer}

/-- Room is exactly what a region needs to fit. -/
theorem regionFits_iff (junk : ℕ → Byte) {length : ℕ} (hl : length < 2^32) (hb : b.Ordered) :
    RegionFits junk b length ↔ Roomy b length := by
  constructor
  · rintro ⟨b', hm, _, hfit⟩
    obtain ⟨hord, _, hcap, hused⟩ := rewind_spec hb
    have hr := hb.readable_le
    have hw := hb.writeable_le
    have hc := hb.capacity_lt
    rcases makeRoom_cases junk length hl hb with ⟨hm', hcase⟩ | ⟨_, hlt, hin⟩ | ⟨hm', hlt, hgrow⟩
    · obtain rfl := Option.some.inj (hm'.symm.trans hm)
      have hro := hord.readable_le
      exact ⟨by omega, Or.inl (by omega)⟩
    · exact ⟨hlt, Or.inl hin⟩
    · -- the growth step: the doubled block may be too small, wrapped or without `writeable_`
      rw [hm', incr_eq junk hord, hcap] at hm
      split at hm
      · obtain ⟨hle, hhead⟩ := sort_head hm
        rw [hhead] at hfit
        rw [grown_head junk hord, hcap] at hfit hle
        dsimp only at hfit hle
        have h2 : 2*b.head.capacity < 2^32 := by
          by_contra hge
          have hnw : u32 (2*b.head.capacity) = 2*b.head.capacity-2^32 := by
            unfold u32
            omega
          rw [hnw, if_pos (by omega)] at hfit
          omega
        rw [u32_of_lt h2] at hfit
        refine ⟨hlt, Or.inr ⟨h2, ?_⟩⟩
        rcases rewind_cases b with ⟨he, hrw⟩ | ⟨hne, hrw⟩
        · rw [if_pos (Or.inl he)]
          rw [hrw] at hfit
          dsimp only at hfit
          omega
        · rw [hrw] at hfit hle
          by_cases h5 : 5 ≤ b.head.capacity
          · rw [if_pos h5] at hfit
            rw [if_pos (Or.inr h5)]
            omega
          · rw [if_neg h5] at hfit hle
            rw [if_neg (not_or_intro hne h5)]
            omega
      · cases hm
  · intro hroom
    obtain ⟨b', hm, hord, hfit, _⟩ := makeRoom_spec junk hl hb hroom
    exact ⟨b', hm, hord.data_len, hfit⟩

/-- Every region lies inside the allocated block and the cursors stay in order,
throughout a run, exactly when no request of the run exceeds the room there is. -/
theorem regions_stay_inside (junk : ℕ → Byte) {capacity : ℕ} (hc : capacity < 2^32)
    (hb : create junk capacity = some b) (as : List (BufferOp × (ℕ → Byte)))
    (hr : Along Respects step b as) :
    Along StaysInside step b as ↔ Along AsksForRoom step b as := by
  obtain ⟨b₀, hb₀, hord, _⟩ := create_spec junk capacity hc
  obtain rfl := Option.some.inj (hb₀.symm.trans hb)
  refine along_iff_along ?_ ?_ hord hr
  · intro s a hs hresp
    constructor
    · intro h length hl
      exact (regionFits_iff a.2 (lt_of_request hresp hl) hs).mp (h.1 length hl)
    · intro h
      obtain ⟨b', hstep, hord', _⟩ := step_spec hs hresp h
      refine ⟨?_, b', hstep, hord'.readable_le, hord'.writeable_le⟩
      intro length hl
      exact (regionFits_iff a.2 (lt_of_request hresp hl) hs).mpr (h length hl)
  · intro s a t hs hresp hroom ht
    obtain ⟨b', hstep, hord', _⟩ := step_spec hs hresp hroom
    exact Option.some.inj (hstep.symm.trans ht) ▸ hord'

/-- A buffer of four bytes serves a region of eight, after one growth step. -/
theorem regions_stay_inside_four :
    Along StaysInside step ⟨4,⟨4,0,0⟩,[0,0,0,0]⟩
      [(.getWriteableAndMove [1,2,3,4,5,6,7,8],fun _ => 0),(.readable 8 3,fun _ => 0)] :=
  (regions_stay_inside (fun _ => 0) (show 4 < 2^32 by decide) (by decide +kernel) _
    (by decide +kernel)).mpr (by decide +kernel)

/-- A region longer than twice the capacity is handed out beyond the block: the
buffer grows once only. -/
theorem request_beyond_doubling_overflows :
    ∃ b, create (fun _ => 0) 16 = some b ∧
      Along Respects step b [(.getWriteableAndMove (List.replicate 40 7),fun _ => 0)] ∧
      ¬ Along StaysInside step b [(.getWriteableAndMove (List.replicate 40 7),fun _ => 0)] := by
  obtain ⟨b, hb, hord, _⟩ := create_spec (fun _ => 0) 16 (by decide)
  refine ⟨b, hb, ⟨show 40 < 2^32 by decide, fun _ _ => trivial⟩, ?_⟩
  intro h
  have hroom := (regionFits_iff (fun _ => 0) (by decide) hord).mp (h.1.1 40 rfl)
  cases hb
  revert hroom
  decide

end MySKBuffer
end EchoFrame
