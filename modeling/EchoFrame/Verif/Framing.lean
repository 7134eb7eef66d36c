import Mathlib.Data.List.Basic
import Mathlib.Tactic.Common

/-! Packets on a stream. `len buf` is the length of the packet at the front of
`buf`, and 0 as long as it cannot be told. -/
namespace Verif

variable {α : Type*} {len : List α → ℕ}

/-- `Cuts len buf packets rest`: the packets come off the front of `buf` one after
the other, and `rest` is left. -/
inductive Cuts (len : List α → ℕ) : List α → List (List α) → List α → Prop
  | nil (buf : List α) : Cuts len buf [] buf
  | cons {buf rest : List α} {packets : List (List α)} (hpos : 0 < len buf)
      (hle : len buf ≤ buf.length) (h : Cuts len (buf.drop (len buf)) packets rest) :
      Cuts len buf (buf.take (len buf) :: packets) rest

def Waits (len : List α → ℕ) (buf : List α) : Prop := len buf = 0 ∨ buf.length < len buf

/-- What comes later on the stream does not change a length that can be told. -/
def LengthStable (len : List α → ℕ) : Prop :=
  ∀ buf more, 0 < len buf → len (buf ++ more) = len buf

variable {buf mid rest : List α} {packets packets' : List (List α)}

theorem Cuts.flatten_append (h : Cuts len buf packets rest) : packets.flatten ++ rest = buf := by
  induction h with
  | nil => rfl
  | cons _ _ _ ih => rw [List.flatten_cons, List.append_assoc, ih, List.take_append_drop]

theorem Cuts.ne_nil (h : Cuts len buf packets rest) : ∀ packet ∈ packets, packet ≠ [] := by
  induction h with
  | nil => exact fun _ h => absurd h List.not_mem_nil
  | cons hpos hle _ ih =>
    intro packet hmem
    rcases List.mem_cons.mp hmem with rfl | hmem
    · rw [← List.length_pos_iff, List.length_take]
      omega
    · exact ih packet hmem

theorem Cuts.trans (h : Cuts len buf packets mid) (h' : Cuts len mid packets' rest) :
    Cuts len buf (packets ++ packets') rest := by
  induction h with
  | nil => exact h'
  | cons hpos hle _ ih => exact .cons hpos hle (ih h')

theorem Cuts.append (hlen : LengthStable len) (h : Cuts len buf packets rest) (more : List α) :
    Cuts len (buf ++ more) packets (rest ++ more) := by
  induction h with
  | nil => exact .nil _
  | @cons buf rest packets hpos hle _ ih =>
    have heq := hlen buf more hpos
    have hcut : Cuts len (buf ++ more) ((buf ++ more).take (len (buf ++ more)) :: packets)
        (rest ++ more) := by
      refine .cons (heq ▸ hpos) ?_ ?_
      · rw [heq, List.length_append]
        exact Nat.le_add_right_of_le hle
      · rw [heq, List.drop_append_of_le_length hle]
        exact ih
    rwa [heq, List.take_append_of_le_length hle] at hcut

/-- Of two ways to cut a stream one goes on where the other ends. -/
theorem Cuts.comparable {rest' : List α} (h : Cuts len buf packets rest)
    (h' : Cuts len buf packets' rest') : packets <+: packets' ∨ packets' <+: packets := by
  induction h generalizing packets' with
  | nil => exact .inl List.nil_prefix
  | cons _ _ _ ih =>
    cases h' with
    | nil => exact .inr List.nil_prefix
    | cons _ _ h' =>
      rw [List.prefix_cons_inj, List.prefix_cons_inj]
      exact ih h'

theorem Cuts.prefix_of_waits {rest' : List α} (h : Cuts len buf packets rest)
    (hw : Waits len rest) (h' : Cuts len buf packets' rest') : packets' <+: packets := by
  induction h generalizing packets' with
  | nil =>
    cases h' with
    | nil => exact List.nil_prefix
    | cons hpos hle _ => rcases hw with h0 | hlt <;> omega
  | cons _ _ _ ih =>
    cases h' with
    | nil => exact List.nil_prefix
    | cons _ _ h' =>
      rw [List.prefix_cons_inj]
      exact ih hw h'

/-- A cut that goes on past `buf` and has a border at its end cuts `buf` without a rest. -/
theorem Cuts.rest_eq_nil (hlen : LengthStable len) {more rest' : List α}
    {pre post : List (List α)} (h : Cuts len buf packets rest)
    (hw : rest = [] ∨ rest.length < len rest)
    (h' : Cuts len (buf ++ more) (pre ++ post) rest') (hborder : pre.flatten = buf) :
    rest = [] := by
  induction h generalizing pre with
  | nil buf =>
    cases pre with
    | nil => exact hborder.symm
    | cons packet pre =>
      refine hw.resolve_right fun hlt => ?_
      have hpacket : packet = (buf ++ more).take (len (buf ++ more)) := by
        cases h'
        rfl
      have hle : len (buf ++ more) ≤ (buf ++ more).length := by
        cases h'
        assumption
      have hlength := congrArg List.length hborder
      rw [List.flatten_cons, List.length_append, hpacket, List.length_take, Nat.min_eq_left hle,
        hlen buf more (Nat.zero_lt_of_lt hlt)] at hlength
      omega
  | @cons buf rest packets hpos hle _ ih =>
    have heq := hlen buf more hpos
    cases pre with
    | nil =>
      rw [← hborder] at hpos hle
      exact absurd (Nat.lt_of_lt_of_le hpos hle) (Nat.lt_irrefl 0)
    | cons packet pre =>
      have hpacket : packet = buf.take (len buf) := by
        cases h'
        rw [heq, List.take_append_of_le_length hle]
      have hnext : Cuts len (buf.drop (len buf) ++ more) (pre ++ post) rest' := by
        cases h' with
        | cons _ _ hnext => rwa [heq, List.drop_append_of_le_length hle] at hnext
      refine ih hw hnext ?_
      rw [List.flatten_cons, hpacket] at hborder
      exact List.append_cancel_left (hborder.trans (List.take_append_drop _ _).symm)

end Verif
