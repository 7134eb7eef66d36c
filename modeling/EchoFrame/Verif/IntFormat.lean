import Mathlib.Algebra.Order.Ring.Int
import Mathlib.Tactic.Positivity
import Mathlib.Tactic.Common
import Mathlib.Tactic.Ring

/-! Integer formats, the wrapping conversion between them, and the conversions
that a C comparison makes of its operands. -/
namespace Verif

structure IntFormat where
  bits : ℕ
  signed : Bool
  pos : 0 < bits
  deriving DecidableEq

namespace IntFormat

def min (f : IntFormat) : ℤ := if f.signed then -2^(f.bits-1) else 0

def max (f : IntFormat) : ℤ := if f.signed then 2^(f.bits-1)-1 else 2^f.bits-1

def Holds (f : IntFormat) (v : ℤ) : Prop := f.min ≤ v ∧ v ≤ f.max

instance (f : IntFormat) (v : ℤ) : Decidable (f.Holds v) := inferInstanceAs (Decidable (_ ∧ _))

/-- The values of a format. -/
@[ext]
structure Value (f : IntFormat) where
  val : ℤ
  holds : f.Holds val
  deriving DecidableEq

/-- The representable value of the same residue. -/
def wrap (f : IntFormat) (v : ℤ) : ℤ := (v-f.min)%2^f.bits+f.min

def int : IntFormat := ⟨32, true, by decide⟩

def promote (f : IntFormat) : IntFormat := if f.bits < int.bits then int else f

def common (f g : IntFormat) : IntFormat :=
  if f.bits = g.bits then (if f.signed then g else f) else if f.bits < g.bits then g else f

/-- The type in which values of the two types are compared. -/
def usual (f g : IntFormat) : IntFormat := common f.promote g.promote

/-- The comparison `v > w` of operands of types `f` and `g`. -/
def greater (f g : IntFormat) (v w : ℤ) : Bool := (usual f g).wrap w < (usual f g).wrap v

variable {f g : IntFormat} {v w : ℤ}

theorem two_pow_pos (n : ℕ) : (0:ℤ) < 2^n := by positivity

theorem two_pow_bits (f : IntFormat) : (2:ℤ)^f.bits = 2*2^(f.bits-1) := by
  rw [← pow_succ', Nat.sub_add_cancel f.pos]

theorem max_eq (f : IntFormat) : f.max = f.min+2^f.bits-1 := by
  have hbits := f.two_pow_bits
  unfold max min
  split <;> omega

theorem min_nonpos (f : IntFormat) : f.min ≤ 0 := by
  have hpos := two_pow_pos (f.bits-1)
  unfold min
  split <;> omega

theorem max_nonneg (f : IntFormat) : 0 ≤ f.max := by
  have hpos := two_pow_pos (f.bits-1)
  have hbits := f.two_pow_bits
  unfold max
  split <;> omega

theorem holds_zero (f : IntFormat) : f.Holds 0 := ⟨f.min_nonpos, f.max_nonneg⟩

theorem holds_max (f : IntFormat) : f.Holds f.max := ⟨f.min_nonpos.trans f.max_nonneg, le_rfl⟩

theorem holds_wrap (f : IntFormat) (v : ℤ) : f.Holds (f.wrap v) := by
  have hpos := two_pow_pos f.bits
  have hnonneg := Int.emod_nonneg (v-f.min) hpos.ne'
  have hlt := Int.emod_lt_of_pos (v-f.min) hpos
  have hmax := f.max_eq
  unfold Holds wrap
  omega

theorem wrap_of_holds (h : f.Holds v) : f.wrap v = v := by
  have hmax := f.max_eq
  have hlo := h.1
  have hhi := h.2
  rw [wrap, Int.emod_eq_of_lt (by omega) (by omega), Int.sub_add_cancel]

theorem dvd_wrap_sub (f : IntFormat) (v : ℤ) : (2:ℤ)^f.bits ∣ f.wrap v-v := by
  have hmod := Int.emod_add_mul_ediv (v-f.min) (2^f.bits)
  refine ⟨-((v-f.min)/2^f.bits), ?_⟩
  rw [wrap, Int.mul_neg]
  omega

/-- Two representable values of one residue are equal. -/
theorem eq_of_dvd_sub (hv : f.Holds v) (hw : f.Holds w) (h : (2:ℤ)^f.bits ∣ v-w) : v = w := by
  have hmax := f.max_eq
  have hlt : |v-w| < 2^f.bits := by
    have := hv.1
    have := hv.2
    have := hw.1
    have := hw.2
    rw [abs_lt]
    constructor <;> omega
  have hzero := Int.eq_zero_of_abs_lt_dvd h hlt
  omega

theorem wrap_eq_iff (hw : f.Holds w) : f.wrap v = w ↔ (2:ℤ)^f.bits ∣ v-w := by
  have hdvd := f.dvd_wrap_sub v
  constructor
  · intro h
    rw [h] at hdvd
    exact (Int.dvd_neg.mpr hdvd).trans (by rw [Int.neg_sub])
  · intro h
    apply eq_of_dvd_sub (f.holds_wrap v) hw
    have hsum := Int.dvd_add hdvd h
    rwa [sub_add_sub_cancel] at hsum

theorem wrap_eq_zero_iff : f.wrap v = 0 ↔ (2:ℤ)^f.bits ∣ v := by
  rw [wrap_eq_iff f.holds_zero, Int.sub_zero]

/-! The range of a type grows with its width. -/

theorem two_pow_le_of_le {m n : ℕ} (h : m ≤ n) : (2:ℤ)^m ≤ 2^n :=
  pow_le_pow_right₀ (by decide) h

theorem max_le_of_bits_lt (h : f.bits < g.bits) : f.max ≤ g.max := by
  have hlt := two_pow_le_of_le (Nat.le_sub_one_of_lt h)
  have hf := f.two_pow_bits
  have hg := g.two_pow_bits
  have hpos := two_pow_pos (f.bits-1)
  unfold max
  split <;> split <;> omega

theorem min_le_of_bits_lt (hg : g.signed = true) (h : f.bits < g.bits) : g.min ≤ f.min := by
  have hle := two_pow_le_of_le (Nat.sub_le_sub_right h.le 1)
  have hpos := two_pow_pos (g.bits-1)
  rw [min, min, hg, if_pos rfl]
  split <;> omega

theorem holds_promote (h : f.Holds v) : f.promote.Holds v := by
  unfold promote
  split
  · next hlt => exact ⟨(min_le_of_bits_lt rfl hlt).trans h.1, h.2.trans (max_le_of_bits_lt hlt)⟩
  · exact h

/-- A value that is not negative keeps its value in a common type. -/
theorem holds_common_left (h : f.Holds v) (hv : 0 ≤ v) : (common f g).Holds v := by
  have hmin := (common f g).min_nonpos
  refine ⟨hmin.trans hv, ?_⟩
  have hf := f.two_pow_bits
  have hpos := two_pow_pos (f.bits-1)
  have hv' := h.2
  unfold common
  split
  · next heq =>
    split
    · next hs =>
      rw [max, if_pos hs] at hv'
      unfold max
      rw [← heq]
      split <;> omega
    · exact hv'
  · split
    · next hlt => exact hv'.trans (max_le_of_bits_lt hlt)
    · exact hv'

theorem common_comm_of_ne (h : f.bits ≠ g.bits) : common f g = common g f := by
  rw [common, common, if_neg h, if_neg h.symm]
  rcases Nat.lt_or_gt_of_ne h with hlt | hlt
  · rw [if_pos hlt, if_neg hlt.not_gt]
  · rw [if_neg hlt.not_gt, if_pos hlt]

theorem holds_common_right (h : g.Holds v) (hv : 0 ≤ v) : (common f g).Holds v := by
  by_cases heq : f.bits = g.bits
  · rw [common, if_pos heq]
    split
    · exact h
    · next hs =>
      have hmin := f.min_nonpos
      have hg := g.two_pow_bits
      have hpos := two_pow_pos (g.bits-1)
      have hv' := h.2
      unfold max at hv'
      refine ⟨hmin.trans hv, ?_⟩
      rw [max, if_neg hs, heq]
      split at hv' <;> omega
  · rw [common_comm_of_ne heq]
    exact holds_common_left h hv

/-- A value keeps its value in the common type, or that type is unsigned and the other
operand's own. -/
theorem holds_common_or (h : f.Holds v) :
    (common f g).Holds v ∨ common f g = g ∧ g.signed = false := by
  unfold common
  split
  · next heq =>
    split
    · next hs =>
      cases hg : g.signed with
      | false => exact .inr ⟨rfl, rfl⟩
      | true =>
        have he : g = f := by
          cases f
          cases g
          simp_all
        rw [he]
        exact .inl h
    · exact .inl h
  · split
    · next hlt =>
      cases hg : g.signed with
      | false => exact .inr ⟨rfl, rfl⟩
      | true => exact .inl ⟨(min_le_of_bits_lt hg hlt).trans h.1, h.2.trans (max_le_of_bits_lt hlt)⟩
    · exact .inl h

/-- A type that stays unsigned is not promoted. -/
theorem promote_of_unsigned (h : f.promote.signed = false) : f.promote = f := by
  unfold promote at h ⊢
  split at h
  · cases h
  · next hlt => rw [if_neg hlt]

/-- Against the upper limit of a type the comparison is that of the numbers, whatever is
converted. -/
theorem greater_max_iff (hv : f.Holds v) : greater f g v g.max = true ↔ g.max < v := by
  have hmax : (usual f g).wrap g.max = g.max := by
    apply wrap_of_holds
    apply holds_common_right _ g.max_nonneg
    exact holds_promote g.holds_max
  rw [greater, decide_eq_true_iff, hmax]
  have hp := holds_promote hv
  by_cases hneg : v < 0
  · have hle : ¬ g.max < v := by
      have := g.max_nonneg
      omega
    rcases holds_common_or (g := g.promote) hp with h | ⟨hcommon, hu⟩
    · rw [usual, wrap_of_holds h]
    · rw [usual, hcommon, promote_of_unsigned hu]
      have hle' := (g.holds_wrap v).2
      constructor <;> omega
  · rw [usual, wrap_of_holds (holds_common_left hp (Int.not_lt.mp hneg))]

end IntFormat
end Verif
