import EchoFrame.MachineInt
import EchoFrame.Verif.DoWhile
import EchoFrame.Verif.Search

/-! The loop of `replace` of `MyCommon`. -/
namespace EchoFrame
open Verif

def replaceAt (rv : List Byte) (pos n : ℕ) (r : List Byte) : List Byte :=
  rv.take pos ++ (r ++ rv.drop (pos+n))

structure ReplaceState where
  rv : List Byte
  pos : ℕ
  deriving DecidableEq

/-- The leftmost occurrences that do not overlap are replaced, the text that is put in is
left alone. -/
inductive Replaced (o r : List Byte) : List Byte → List Byte → Prop
  | rest {s : List Byte} (h : ¬ o <:+: s) : Replaced o r s s
  | first {p s t : List Byte} (hp : FirstAt o (p ++ (o ++ s)) p.length)
      (hrest : Replaced o r s t) : Replaced o r (p ++ (o ++ s)) (p ++ (r ++ t))

/-- The first occurrence alone is replaced. -/
inductive ReplacedFirst (o r : List Byte) : List Byte → List Byte → Prop
  | rest {s : List Byte} (h : ¬ o <:+: s) : ReplacedFirst o r s s
  | first {p s : List Byte} (hp : FirstAt o (p ++ (o ++ s)) p.length) :
      ReplacedFirst o r (p ++ (o ++ s)) (p ++ (r ++ s))

/-- `o` occurs once more after its first occurrence. -/
def OccursAgain (o str : List Byte) : Prop :=
  ∃ p s, str = p ++ (o ++ s) ∧ FirstAt o str p.length ∧ o <:+: s

namespace MyCommon

def replaceBody (o r : List Byte) (st : ReplaceState) : ReplaceState × Bool :=
  match find o st.rv st.pos with
  | none => (st, false)
  | some pos => (⟨replaceAt st.rv pos o.length r, pos+r.length⟩, true)

/-- `none` where the loop does not end, the mode is not looked at. -/
def replace (str o r : List Byte) (_recursion : Bool) : Option (List Byte) :=
  (execLoop (replaceBody o r) (str.length+1) ⟨str,0⟩).map (·.rv)

/-- The loop ends, and where there is something to replace its result is that of the mode. -/
structure Replaces (str o r : List Byte) (recursion : Bool) : Prop where
  ends : ∃ st, Exits (replaceBody o r) ⟨str,0⟩ st
  exact : o ≠ [] → ∀ st, Exits (replaceBody o r) ⟨str,0⟩ st →
    if recursion then Replaced o r str st.rv else ReplacedFirst o r str st.rv

end MyCommon

variable {o r s t u str : List Byte} {st : ReplaceState}

theorem Replaced.self (h : Replaced o o s t) : t = s := by
  induction h with
  | rest _ => rfl
  | first _ _ ih => rw [ih]

/-- Every replacement changes the length by the same amount. -/
theorem Replaced.length_eq (h : Replaced o r s t) :
    ∃ k, t.length+k*o.length = s.length+k*r.length ∧ (o <:+: s → 0 < k) := by
  induction h with
  | rest h => exact ⟨0, by omega, fun ho => absurd ho h⟩
  | @first p s t _ _ ih =>
    obtain ⟨k, hk, -⟩ := ih
    refine ⟨k+1, ?_, fun _ => Nat.succ_pos k⟩
    simp only [List.length_append, Nat.add_mul, Nat.one_mul]
    omega

theorem eq_of_firstAt {p q : List Byte} (hs : p ++ (o ++ s) = q ++ (o ++ t))
    (hp : FirstAt o (p ++ (o ++ s)) p.length) (hq : FirstAt o (q ++ (o ++ t)) q.length) :
    p = q ∧ s = t := by
  rw [← hs] at hq
  obtain ⟨hpq, hrest⟩ := List.append_inj hs (hp.unique hq)
  exact ⟨hpq, List.append_cancel_left hrest⟩

/-- Replacing by something else changes the text. -/
theorem Replaced.ne (h : Replaced o r s t) (ho : o <:+: s) (hr : r ≠ o) : t ≠ s := by
  intro he
  obtain ⟨k, hk, hpos⟩ := h.length_eq
  have hlen : o.length = r.length := by
    rw [he] at hk
    exact Nat.eq_of_mul_eq_mul_left (hpos ho) (Nat.add_left_cancel hk)
  cases h with
  | rest h => exact h ho
  | first _ _ => exact hr (List.append_inj_left (List.append_cancel_left he) hlen.symm)

theorem replacedFirst_iff (h : Replaced o r s t) :
    ReplacedFirst o r s t ↔ r = o ∨ ¬ OccursAgain o s := by
  cases h with
  | rest h =>
    refine iff_of_true (.rest h) (.inr ?_)
    rintro ⟨p, u, rfl, -, -⟩
    exact h ⟨p, u, List.append_assoc p o u⟩
  | @first p s t hp hrest =>
    constructor
    · intro h
      by_contra hnot
      obtain ⟨hr, hagain⟩ := not_or.mp hnot
      obtain ⟨q, u, hs, hq, hin⟩ := not_not.mp hagain
      rw [hs] at hq
      obtain ⟨rfl, rfl⟩ := eq_of_firstAt hs hp hq
      apply hrest.ne hin hr
      generalize hx : p ++ (o ++ s) = x, hy : p ++ (r ++ t) = y at h
      cases h with
      | rest hnot => exact absurd ⟨p, s, by rw [List.append_assoc, hx]⟩ hnot
      | first hq =>
        obtain ⟨rfl, rfl⟩ := eq_of_firstAt hx hp hq
        exact List.append_cancel_left (List.append_cancel_left hy)
    · rintro (rfl | hnot)
      · rw [hrest.self]
        exact .first hp
      · cases hrest with
        | rest _ => exact .first hp
        | @first q s' _ _ _ =>
          exact absurd ⟨p, _, rfl, hp, ⟨q, s', List.append_assoc q o s'⟩⟩ hnot

theorem exists_replaced (ho : o ≠ []) (r s : List Byte) : ∃ t, Replaced o r s t := by
  induction hn : s.length using Nat.strongRecOn generalizing s with
  | _ n ih =>
    by_cases hin : o <:+: s
    · obtain ⟨i, hi⟩ := exists_firstAt_iff.mpr hin
      obtain ⟨p, u, rfl, rfl⟩ := occursAt_iff.mp hi.occurs
      have hpos := List.length_pos_of_ne_nil ho
      rw [List.length_append, List.length_append] at hn
      obtain ⟨t, ht⟩ := ih u.length (by omega) u rfl
      exact ⟨_, .first hi ht⟩
    · exact ⟨s, .rest hin⟩

namespace MyCommon

theorem replaceBody_rest {done : List Byte} (h : ¬ o <:+: s) :
    replaceBody o r ⟨done ++ s, done.length⟩ = (⟨done ++ s, done.length⟩, false) := by
  have hnone : find o (done ++ s) done.length = none := by
    rw [find_eq_none_iff (by rw [List.length_append]; omega), List.drop_left]
    exact h
  rw [replaceBody]
  dsimp only
  rw [hnone]

theorem replaceBody_first {done p : List Byte} (hp : FirstAt o (p ++ (o ++ s)) p.length) :
    replaceBody o r ⟨done ++ (p ++ (o ++ s)), done.length⟩ =
      (⟨done ++ (p ++ (r ++ s)), (done ++ (p ++ r)).length⟩, true) := by
  have hsome : find o (done ++ (p ++ (o ++ s))) done.length = some (done.length+p.length) := by
    rw [find_eq_some_iff (by rw [List.length_append]; omega), List.drop_left]
    exact ⟨p.length, rfl, hp⟩
  have hat : replaceAt (done ++ (p ++ (o ++ s))) (done.length+p.length) o.length r =
      done ++ (p ++ (r ++ s)) := by
    have hpre : done ++ (p ++ (o ++ s)) = (done ++ p) ++ (o ++ s) := (List.append_assoc ..).symm
    rw [replaceAt, hpre, ← List.length_append, List.take_left, ← List.drop_drop, List.drop_left,
      List.drop_left, List.append_assoc]
  rw [replaceBody]
  dsimp only
  rw [hsome]
  dsimp only
  rw [hat, List.length_append, List.length_append, Nat.add_assoc]

/-- What is before the position stays, what is after it is replaced. -/
theorem exits_replace (h : Replaced o r s t) (done : List Byte) :
    ∃ pos, Exits (replaceBody o r) ⟨done ++ s, done.length⟩ ⟨done ++ t, pos⟩ := by
  induction h generalizing done with
  | rest h => exact ⟨_, .stop (replaceBody_rest h)⟩
  | @first p s t hp _ ih =>
    obtain ⟨pos, hpos⟩ := ih (done ++ (p ++ r))
    refine ⟨pos, .again (replaceBody_first hp) ?_⟩
    rw [List.append_assoc, List.append_assoc, List.append_assoc, List.append_assoc] at hpos
    exact hpos

theorem replaced_of_exits (ho : o ≠ []) (h : Exits (replaceBody o r) ⟨str,0⟩ st) :
    Replaced o r str st.rv := by
  obtain ⟨t, ht⟩ := exists_replaced ho r str
  obtain ⟨pos, hpos⟩ := exits_replace ht []
  rw [h.unique hpos]
  exact ht

theorem replace_ends (ho : o ≠ []) (r str : List Byte) :
    ∃ st, Exits (replaceBody o r) ⟨str,0⟩ st := by
  obtain ⟨t, ht⟩ := exists_replaced ho r str
  obtain ⟨pos, hpos⟩ := exits_replace ht []
  exact ⟨_, hpos⟩

/-- The empty text is found wherever the search begins. -/
theorem replace_stuck (r str : List Byte) :
    ¬ ∃ st, Exits (replaceBody [] r) ⟨str,0⟩ st := by
  apply not_exits_of_stuck (I := fun st => st.pos ≤ st.rv.length) _ (Nat.zero_le _)
  intro st hst
  have hsome : find [] st.rv st.pos = some st.pos := by
    rw [find_eq_some_iff hst]
    exact ⟨0, rfl, occursAt_nil (Nat.zero_le _), fun j hj => absurd hj (Nat.not_lt_zero j)⟩
  refine ⟨⟨replaceAt st.rv st.pos 0 r, st.pos+r.length⟩, ?_, ?_⟩
  · rw [replaceBody, hsome]
    rfl
  · dsimp only
    rw [replaceAt, List.length_append, List.length_append, List.length_take, Nat.min_eq_left hst]
    omega

/-- What is left to search shrinks by what is replaced. -/
theorem left_lt_of_replace (ho : o ≠ []) {st st' : ReplaceState}
    (h : replaceBody o r st = (st', true)) :
    st'.rv.length-st'.pos < st.rv.length-st.pos := by
  have hpos := List.length_pos_of_ne_nil ho
  unfold replaceBody at h
  split at h
  · cases h
  · next pos hfind =>
    cases h
    obtain ⟨hle, hocc⟩ := occursAt_of_find hfind
    have hlen := hocc.add_length_le
    dsimp only
    rw [replaceAt, List.length_append, List.length_append, List.length_take, List.length_drop,
      Nat.min_eq_left hocc.1]
    omega

theorem replace_eq_some_iff (ho : o ≠ []) {recursion : Bool} :
    replace str o r recursion = some t ↔
      ∃ pos, Exits (replaceBody o r) ⟨str,0⟩ ⟨t,pos⟩ := by
  have hexec (st : ReplaceState) :
      Exits (replaceBody o r) ⟨str,0⟩ st ↔
        execLoop (replaceBody o r) (str.length+1) ⟨str,0⟩ = some st := by
    apply exits_iff_execLoop (fun st => st.rv.length-st.pos)
    · exact fun _ _ h => left_lt_of_replace ho h
    · exact Nat.lt_succ_self str.length
  rw [replace, Option.map_eq_some_iff]
  simp only [hexec]
  constructor
  · rintro ⟨⟨rv, pos⟩, h, rfl⟩
    exact ⟨pos, h⟩
  · rintro ⟨pos, h⟩
    exact ⟨⟨t,pos⟩, h, rfl⟩

/-- The loop ends exactly for a text that is not empty, and does what the mode says exactly
where all occurrences are to be replaced, or that makes no difference. -/
theorem replaces_iff (str o r : List Byte) (recursion : Bool) :
    Replaces str o r recursion ↔
      o ≠ [] ∧ (recursion = true ∨ r = o ∨ ¬ OccursAgain o str) := by
  constructor
  · intro h
    have ho : o ≠ [] := by
      rintro rfl
      exact replace_stuck r str h.ends
    refine ⟨ho, ?_⟩
    obtain ⟨st, hst⟩ := h.ends
    have hmode := h.exact ho st hst
    cases recursion with
    | true => exact .inl rfl
    | false => exact .inr ((replacedFirst_iff (replaced_of_exits ho hst)).mp hmode)
  · rintro ⟨ho, hcase⟩
    refine ⟨replace_ends ho r str, ?_⟩
    intro _ st hst
    have hall := replaced_of_exits ho hst
    cases recursion with
    | true => exact hall
    | false => exact (replacedFirst_iff hall).mpr (hcase.resolve_left (by decide))

/-- Text that is put in is not searched again. -/
example : replace [97,97,97] [97] [97,97] true = some [97,97,97,97,97,97] := by decide

/-- With `a` for `b` in `bb` the mode is ignored, and an empty text is replaced for ever. -/
theorem not_replaces :
    ¬ Replaces [98,98] [98] [97] false ∧ ¬ Replaces [97] [] [98] true := by
  constructor
  · intro h
    have hexits : Exits (replaceBody [98] [97]) ⟨[98,98],0⟩ ⟨[97,97],2⟩ :=
      Exits.of_execLoop (n := 3) rfl
    have hagain : OccursAgain [98] [98,98] := by
      refine ⟨[], [98], rfl, ⟨by decide, ?_⟩, ⟨[], [], rfl⟩⟩
      exact fun j hj => absurd hj (Nat.not_lt_zero j)
    have hmode := (replacedFirst_iff (replaced_of_exits (by decide) hexits)).mp
      (h.exact (by decide) _ hexits)
    exact hmode.elim (by decide) (fun hnot => hnot hagain)
  · intro h
    exact replace_stuck [98] [97] h.ends

end MyCommon
end EchoFrame
