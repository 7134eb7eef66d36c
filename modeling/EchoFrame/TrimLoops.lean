import EchoFrame.MachineInt
import EchoFrame.Verif.DoWhile
import EchoFrame.Verif.Search

/-! The loops of `trim`, `trimleft` and `trimright` of `MyCommon`. -/
namespace EchoFrame
open Verif

def eraseAt (rv : List Byte) (pos n : ℕ) : List Byte := rv.take pos ++ rv.drop (pos+n)

def copies (i : ℕ) (c : List Byte) : List Byte := (List.replicate i c).flatten

namespace MyCommon

def trimleftBody (c rv : List Byte) : List Byte × Bool :=
  match find c rv 0 with
  | none => (rv, false)
  | some pos => if pos ≠ 0 then (rv, false) else (eraseAt rv pos c.length, true)

def trimrightBody (c rv : List Byte) : List Byte × Bool :=
  match rfind c rv with
  | none => (rv, false)
  | some pos =>
    if pos+c.length ≠ rv.length then (rv, false) else (eraseAt rv pos c.length, true)

/-- `none` where the loop does not end. -/
def trimleft (str c : List Byte) : Option (List Byte) :=
  execLoop (trimleftBody c) (str.length+1) str

def trimright (str c : List Byte) : Option (List Byte) :=
  execLoop (trimrightBody c) (str.length+1) str

def trim (str c : List Byte) : Option (List Byte) :=
  (trimleft str c).bind fun rv => trimright rv c

/-- Every loop ends, and the result of `trim` is what is between the copies of a token that
is not empty. -/
structure Trims (str c : List Byte) : Prop where
  left : ∃ rv, Exits (trimleftBody c) str rv
  right : ∃ rv, Exits (trimrightBody c) str rv
  both : ∃ rv res, Exits (trimleftBody c) str rv ∧ Exits (trimrightBody c) rv res
  exact : c ≠ [] → ∀ rv res, Exits (trimleftBody c) str rv → Exits (trimrightBody c) rv res →
    (∃ i j, str = copies i c ++ res ++ copies j c) ∧ ¬ c <+: res ∧ ¬ c <:+ res

variable {c rv str res : List Byte}

theorem trimleftBody_token (c rv : List Byte) : trimleftBody c (c ++ rv) = (rv, true) := by
  have hfind : find c (c ++ rv) 0 = some 0 := find_zero_eq_zero_iff.mpr (List.prefix_append c rv)
  rw [trimleftBody, hfind]
  dsimp only
  rw [if_neg (not_not_intro rfl), eraseAt, List.take_zero, List.nil_append, Nat.zero_add,
    List.drop_left]

theorem trimleftBody_of_not (h : ¬ c <+: rv) : trimleftBody c rv = (rv, false) := by
  unfold trimleftBody
  split
  · rfl
  · next pos hpos =>
    rw [if_pos]
    rintro rfl
    exact h (find_zero_eq_zero_iff.mp hpos)

theorem trimrightBody_token (c rv : List Byte) : trimrightBody c (rv ++ c) = (rv, true) := by
  obtain ⟨pos, hpos, hlen⟩ := rfind_at_end_iff.mpr (List.suffix_append rv c)
  have hrv : pos = rv.length := by
    rw [List.length_append] at hlen
    omega
  rw [trimrightBody, hpos]
  dsimp only
  rw [if_neg (not_not_intro hlen), eraseAt, hlen, List.drop_length, List.append_nil, hrv,
    List.take_left]

theorem trimrightBody_of_not (h : ¬ c <:+ rv) : trimrightBody c rv = (rv, false) := by
  unfold trimrightBody
  split
  · rfl
  · next pos hpos =>
    rw [if_pos]
    intro hlen
    exact h (rfind_at_end_iff.mp ⟨pos, hpos, hlen⟩)

theorem iterate_left (i : ℕ) (c rv : List Byte) : (c ++ ·)^[i] rv = copies i c ++ rv := by
  induction i with
  | zero => rfl
  | succ i ih =>
    rw [Function.iterate_succ_apply', ih, copies, copies, List.replicate_succ, List.flatten_cons,
      List.append_assoc]

theorem iterate_right (i : ℕ) (c rv : List Byte) : (· ++ c)^[i] rv = rv ++ copies i c := by
  induction i with
  | zero => exact (List.append_nil rv).symm
  | succ i ih =>
    rw [Function.iterate_succ_apply', ih, copies, copies, List.replicate_succ',
      List.flatten_append, List.flatten_singleton, List.append_assoc]

/-- What the left loop ends with, an empty token never lets it end. -/
theorem exits_trimleft_iff :
    Exits (trimleftBody c) str rv ↔ (∃ i, str = copies i c ++ rv) ∧ ¬ c <+: rv := by
  have hundo : Exits (trimleftBody c) str rv ↔ (∃ i, str = (c ++ ·)^[i] rv) ∧ ¬ c <+: rv :=
    exits_undo_iff (trimleftBody_token c) (fun _ h => trimleftBody_of_not h)
  rw [hundo]
  simp only [iterate_left]

theorem exits_trimright_iff :
    Exits (trimrightBody c) str rv ↔ (∃ j, str = rv ++ copies j c) ∧ ¬ c <:+ rv := by
  have hundo : Exits (trimrightBody c) str rv ↔ (∃ j, str = (· ++ c)^[j] rv) ∧ ¬ c <:+ rv :=
    exits_undo_iff (trimrightBody_token c) (fun _ h => trimrightBody_of_not h)
  rw [hundo]
  simp only [iterate_right]

/-- A token that is not empty takes something away in every iteration. -/
theorem length_lt_of_trimleft (hc : c ≠ []) (h : trimleftBody c rv = (res, true)) :
    res.length < rv.length := by
  have hpos := List.length_pos_of_ne_nil hc
  have hrv : rv = c ++ res :=
    eq_of_undo (g := (c ++ ·)) (trimleftBody_token c) (fun _ h => trimleftBody_of_not h) h
  rw [hrv, List.length_append]
  omega

theorem length_lt_of_trimright (hc : c ≠ []) (h : trimrightBody c rv = (res, true)) :
    res.length < rv.length := by
  have hpos := List.length_pos_of_ne_nil hc
  have hrv : rv = res ++ c :=
    eq_of_undo (g := (· ++ c)) (trimrightBody_token c) (fun _ h => trimrightBody_of_not h) h
  rw [hrv, List.length_append]
  omega

theorem trimleft_ends (hc : c ≠ []) (str : List Byte) : ∃ rv, Exits (trimleftBody c) str rv :=
  exits_of_variant List.length (fun _ _ h => length_lt_of_trimleft hc h) str

theorem trimright_ends (hc : c ≠ []) (str : List Byte) : ∃ rv, Exits (trimrightBody c) str rv :=
  exits_of_variant List.length (fun _ _ h => length_lt_of_trimright hc h) str

theorem trimleft_eq_some_iff (hc : c ≠ []) :
    trimleft str c = some rv ↔ Exits (trimleftBody c) str rv :=
  (exits_iff_execLoop List.length (fun _ _ h => length_lt_of_trimleft hc h)
    (Nat.lt_succ_self _)).symm

theorem trimright_eq_some_iff (hc : c ≠ []) :
    trimright str c = some rv ↔ Exits (trimrightBody c) str rv :=
  (exits_iff_execLoop List.length (fun _ _ h => length_lt_of_trimright hc h)
    (Nat.lt_succ_self _)).symm

/-- Trimming on the right does not bring back a token on the left. -/
theorem exact_of_exits (hl : Exits (trimleftBody c) str rv) (hr : Exits (trimrightBody c) rv res) :
    (∃ i j, str = copies i c ++ res ++ copies j c) ∧ ¬ c <+: res ∧ ¬ c <:+ res := by
  obtain ⟨⟨i, hi⟩, hstart⟩ := exits_trimleft_iff.mp hl
  obtain ⟨⟨j, hj⟩, hend⟩ := exits_trimright_iff.mp hr
  refine ⟨⟨i, j, ?_⟩, ?_, hend⟩
  · rw [hi, hj, List.append_assoc]
  · intro hp
    apply hstart
    rw [hj]
    exact hp.trans (List.prefix_append res _)

theorem trim_eq_some_iff (hc : c ≠ []) :
    trim str c = some res ↔
      ∃ rv, Exits (trimleftBody c) str rv ∧ Exits (trimrightBody c) rv res := by
  rw [trim, Option.bind_eq_some_iff]
  simp only [trimleft_eq_some_iff hc, trimright_eq_some_iff hc]

theorem isSome_trim (hc : c ≠ []) (str : List Byte) : (trim str c).isSome = true := by
  obtain ⟨rv, hrv⟩ := trimleft_ends hc str
  obtain ⟨res, hres⟩ := trimright_ends hc rv
  exact Option.isSome_of_eq_some ((trim_eq_some_iff hc).mpr ⟨rv, hrv, hres⟩)

/-- What neither starts nor ends with the token stays as it is. -/
theorem trim_of_not (hl : ¬ c <+: str) (hr : ¬ c <:+ str) : trim str c = some str := by
  have hc : c ≠ [] := by
    rintro rfl
    exact hl List.nil_prefix
  rw [trim_eq_some_iff hc]
  refine ⟨str, exits_trimleft_iff.mpr ⟨⟨0, rfl⟩, hl⟩, exits_trimright_iff.mpr ⟨⟨0, ?_⟩, hr⟩⟩
  exact (List.append_nil str).symm

/-- Trimming ends, for every string, exactly with a token that is not empty. -/
theorem trims_iff (str c : List Byte) : Trims str c ↔ c ≠ [] := by
  constructor
  · intro h hc
    obtain ⟨rv, hrv⟩ := h.left
    exact (exits_trimleft_iff.mp hrv).2 (hc ▸ List.nil_prefix)
  · intro hc
    obtain ⟨rv, hrv⟩ := trimleft_ends hc str
    obtain ⟨res, hres⟩ := trimright_ends hc rv
    exact {
      left := ⟨rv, hrv⟩
      right := trimright_ends hc str
      both := ⟨rv, res, hrv, hres⟩
      exact := fun _ _ _ hl hr => exact_of_exits hl hr }

/-- The empty token is found at the front of every string and nothing is erased. -/
theorem not_trims : ¬ Trims [97] [] ∧ ¬ ∀ str c, Trims str c := by
  have hnot : ¬ Trims [97] [] := by
    rintro ⟨⟨rv, hrv⟩, -, -, -⟩
    exact (exits_trimleft_iff.mp hrv).2 List.nil_prefix
  exact ⟨hnot, fun h => hnot (h [97] [])⟩

/-- A token that overlaps itself: `aba` around `ba`. -/
example : trim [97,98,97,98,97,97,98,97] [97,98,97] = some [98,97] := by decide

end MyCommon
end EchoFrame
