import EchoFrame.MachineInt
import EchoFrame.Verif.DoWhile
import EchoFrame.Verif.Search

/-! The loop that `split` and `splitto` of `MyCommon` share. -/
namespace EchoFrame
open Verif

def substr (str : List Byte) (pos n : ℕ) : Option (List Byte) :=
  if str.length < pos then none else some ((str.drop pos).take n)

structure SplitState (τ : Type) where
  rv : List τ
  last_pos : ℕ
  threw : Bool

/-- The pieces that the loop finds: behind a match it goes on one character further. -/
inductive Pieces (d : List Byte) : List Byte → List (List Byte) → Prop
  | last {s : List Byte} (h : ¬ d <:+: s) : Pieces d s [s]
  | next {p s : List Byte} {ps : List (List Byte)} (hp : FirstAt d (p ++ (d ++ s)) p.length)
      (hrest : Pieces d ((d ++ s).drop 1) ps) : Pieces d (p ++ (d ++ s)) (p :: ps)

def kept (ignore_blank : Bool) (ps : List (List Byte)) : List (List Byte) :=
  ps.filter fun tmp => !(ignore_blank && tmp.isEmpty)

variable {τ : Type}

/-- What the loop does with a word, an empty one may be left out. -/
def SplitState.push (strto : List Byte → τ) (ignore_blank : Bool) (tmp : List Byte) (pos : ℕ)
    (st : SplitState τ) : SplitState τ :=
  if ignore_blank && tmp.isEmpty then {st with last_pos := pos}
  else {st with rv := st.rv ++ [strto tmp], last_pos := pos}

namespace MyCommon

def splitBody (strto : List Byte → τ) (str delimiter : List Byte) (ignore_blank : Bool)
    (st : SplitState τ) : SplitState τ × Bool :=
  match find delimiter str st.last_pos with
  | none =>
    match substr str st.last_pos (str.length-st.last_pos) with
    | none => ({st with threw := true}, false)
    | some tmp => (st.push strto ignore_blank tmp st.last_pos, false)
  | some pos =>
    match substr str st.last_pos (pos-st.last_pos) with
    | none => ({st with threw := true}, false)
    | some tmp => (st.push strto ignore_blank tmp (pos+1), true)

/-- `none` where the loop does not end or throws. -/
def split (strto : List Byte → τ) (str delimiter : List Byte) (ignore_blank : Bool) :
    Option (List τ) :=
  (execLoop (splitBody strto str delimiter ignore_blank) (str.length+2) ⟨[],0,false⟩).bind fun st =>
    if st.threw then none else some st.rv

/-- The same loop, for another container. -/
def splitto (strto : List Byte → τ) (str delimiter : List Byte) (ignore_blank : Bool) :
    Option (List τ) :=
  split strto str delimiter ignore_blank

end MyCommon

/-- Splitting without blanks ends, no piece contains the delimiter and joining them gives the
text back; leaving out blanks leaves out nothing else. -/
structure Splits (str d : List Byte) : Prop where
  inverse : ∃ ps, MyCommon.split id str d false = some ps ∧ (∀ p ∈ ps, ¬ d <:+: p) ∧
    d.intercalate ps = str
  blanks : ∀ ps, MyCommon.split id str d false = some ps →
    MyCommon.split id str d true = some (ps.filter (· ≠ []))

variable {d s str : List Byte} {ps : List (List Byte)}

theorem Pieces.ne_nil (h : Pieces d s ps) : ps ≠ [] := by
  cases h <;> exact List.cons_ne_nil _ _

/-- What is before the first occurrence has none in it. -/
theorem not_infix_of_firstAt {p : List Byte} (hd : d ≠ [])
    (hp : FirstAt d (p ++ (d ++ s)) p.length) : ¬ d <:+: p := by
  intro hin
  obtain ⟨j, hj⟩ := exists_occursAt_iff.mpr hin
  obtain ⟨q, t, rfl, rfl⟩ := occursAt_iff.mp hj
  have hpos := List.length_pos_of_ne_nil hd
  apply hp.before q.length
  · rw [List.length_append, List.length_append]
    omega
  · rw [List.append_assoc, List.append_assoc]
    exact occursAt_append rfl

theorem Pieces.not_infix (hd : d ≠ []) (h : Pieces d s ps) : ∀ p ∈ ps, ¬ d <:+: p := by
  induction h with
  | last h =>
    intro p hp
    rw [List.mem_singleton.mp hp]
    exact h
  | next hp _ ih =>
    intro q hq
    rcases List.mem_cons.mp hq with rfl | hq
    · exact not_infix_of_firstAt hd hp
    · exact ih q hq

/-- Every match leaves all but one character of the delimiter in the next piece. -/
theorem Pieces.length_intercalate (hd : d ≠ []) (h : Pieces d s ps) :
    ∃ k, (d.intercalate ps).length = s.length+k*(d.length-1) ∧ (d <:+: s → 0 < k) := by
  have hpos := List.length_pos_of_ne_nil hd
  induction h with
  | last h =>
    refine ⟨0, ?_, fun hin => absurd hin h⟩
    rw [List.intercalate_singleton, Nat.zero_mul, Nat.add_zero]
  | @next p s ps _ hrest ih =>
    obtain ⟨k, hk, -⟩ := ih
    refine ⟨k+1, ?_, fun _ => Nat.succ_pos k⟩
    rw [List.intercalate_cons_of_ne_nil hrest.ne_nil, List.length_append, List.length_append, hk,
      List.length_drop, Nat.add_mul, Nat.one_mul]
    simp only [List.length_append]
    omega

theorem Pieces.intercalate_of_length (hd : d.length = 1) (h : Pieces d s ps) :
    d.intercalate ps = s := by
  induction h with
  | last _ => exact List.intercalate_singleton
  | next _ hrest ih =>
    rw [List.intercalate_cons_of_ne_nil hrest.ne_nil, ih, List.drop_append_of_le_length hd.ge,
      List.drop_of_length_le hd.le, List.nil_append, List.append_assoc]

/-- Only a delimiter of one character is gone from the pieces as it is put back by joining. -/
theorem Pieces.intercalate_eq_iff (hd : d ≠ []) (h : Pieces d s ps) :
    d.intercalate ps = s ↔ d.length = 1 ∨ ¬ d <:+: s := by
  have hpos := List.length_pos_of_ne_nil hd
  constructor
  · intro heq
    by_contra hnot
    obtain ⟨hlen, hin⟩ := not_or.mp hnot
    obtain ⟨k, hk, hk0⟩ := h.length_intercalate hd
    rw [heq] at hk
    have hmul : 0 < k*(d.length-1) := Nat.mul_pos (hk0 (not_not.mp hin)) (by omega)
    omega
  · rintro (hlen | hnot)
    · exact h.intercalate_of_length hlen
    · cases h with
      | last _ => exact List.intercalate_singleton
      | @next p s _ _ _ => exact absurd ⟨p, s, List.append_assoc p d s⟩ hnot

theorem exists_pieces (hd : d ≠ []) (s : List Byte) : ∃ ps, Pieces d s ps := by
  have hpos := List.length_pos_of_ne_nil hd
  induction hn : s.length using Nat.strongRecOn generalizing s with
  | _ n ih =>
    by_cases hin : d <:+: s
    · obtain ⟨i, hi⟩ := exists_firstAt_iff.mpr hin
      obtain ⟨p, u, rfl, rfl⟩ := occursAt_iff.mp hi.occurs
      have hlt : ((d ++ u).drop 1).length < n := by
        rw [List.length_drop, List.length_append]
        rw [List.length_append, List.length_append] at hn
        omega
      obtain ⟨ps, hps⟩ := ih _ hlt _ rfl
      exact ⟨_, .next hi hps⟩
    · exact ⟨_, .last hin⟩

theorem substr_left (p s t : List Byte) :
    substr (p ++ (s ++ t)) p.length s.length = some s := by
  rw [substr, if_neg (by rw [List.length_append]; omega), List.drop_left, List.take_left]

theorem push_eq (strto : List Byte → τ) (ignore_blank : Bool) (tmp : List Byte) (pos : ℕ)
    (rv : List τ) (last_pos : ℕ) (threw : Bool) :
    SplitState.push strto ignore_blank tmp pos ⟨rv,last_pos,threw⟩ =
      ⟨rv ++ (kept ignore_blank [tmp]).map strto, pos, threw⟩ := by
  unfold SplitState.push kept
  by_cases h : (ignore_blank && tmp.isEmpty) = true
  · rw [if_pos h, List.filter_cons_of_neg (by rw [h]; decide), List.filter_nil, List.map_nil,
      List.append_nil]
  · rw [if_neg h]
    rw [Bool.not_eq_true] at h
    rw [List.filter_cons_of_pos (by rw [h]; rfl), List.filter_nil]
    rfl

namespace MyCommon

variable (strto : List Byte → τ) (ignore_blank : Bool)

theorem splitBody_last (h : ¬ d <:+: s) (done : List Byte) (rv : List τ) :
    splitBody strto (done ++ s) d ignore_blank ⟨rv,done.length,false⟩ =
      (⟨rv ++ (kept ignore_blank [s]).map strto, done.length, false⟩, false) := by
  have hnone : find d (done ++ s) done.length = none := by
    rw [find_eq_none_iff (by rw [List.length_append]; omega), List.drop_left]
    exact h
  have hsub : substr (done ++ s) done.length ((done ++ s).length-done.length) = some s := by
    have hs := substr_left done s []
    rwa [List.append_nil, ← Nat.add_sub_cancel_left (n := done.length) (m := s.length),
      ← List.length_append] at hs
  rw [splitBody]
  dsimp only
  rw [hnone]
  dsimp only
  rw [hsub]
  dsimp only
  rw [push_eq]

theorem splitBody_next {p : List Byte} (hp : FirstAt d (p ++ (d ++ s)) p.length)
    (done : List Byte) (rv : List τ) :
    splitBody strto (done ++ (p ++ (d ++ s))) d ignore_blank ⟨rv,done.length,false⟩ =
      (⟨rv ++ (kept ignore_blank [p]).map strto, done.length+p.length+1, false⟩, true) := by
  have hsome : find d (done ++ (p ++ (d ++ s))) done.length = some (done.length+p.length) := by
    rw [find_eq_some_iff (by rw [List.length_append]; omega), List.drop_left]
    exact ⟨p.length, rfl, hp⟩
  rw [splitBody]
  dsimp only
  rw [hsome]
  dsimp only
  rw [Nat.add_sub_cancel_left, substr_left]
  dsimp only
  rw [push_eq]

theorem kept_cons (p : List Byte) (ps : List (List Byte)) :
    kept ignore_blank (p :: ps) = kept ignore_blank [p] ++ kept ignore_blank ps := by
  rw [kept, kept, kept, ← List.filter_append, List.singleton_append]

/-- The loop pushes the pieces of what it has not gone over yet. -/
theorem exits_split (hd : d ≠ []) (h : Pieces d s ps) (done : List Byte) (rv : List τ) :
    ∃ pos, Exits (splitBody strto (done ++ s) d ignore_blank) ⟨rv,done.length,false⟩
      ⟨rv ++ (kept ignore_blank ps).map strto, pos, false⟩ := by
  induction h generalizing done rv with
  | last h => exact ⟨_, .stop (splitBody_last strto ignore_blank h done rv)⟩
  | @next p s ps hp _ ih =>
    obtain ⟨c, d', hcd⟩ := List.exists_cons_of_ne_nil hd
    have hstr : done ++ (p ++ (d ++ s)) = (done ++ (p ++ [c])) ++ (d ++ s).drop 1 := by
      rw [hcd, List.append_assoc, List.append_assoc]
      rfl
    have hlen : (done ++ (p ++ [c])).length = done.length+p.length+1 := by
      rw [List.length_append, List.length_append, List.length_singleton, Nat.add_assoc]
    have hnext := splitBody_next strto ignore_blank hp done rv
    obtain ⟨pos, hpos⟩ := ih (done ++ (p ++ [c])) (rv ++ (kept ignore_blank [p]).map strto)
    rw [hlen, ← hstr, List.append_assoc, ← List.map_append, ← kept_cons] at hpos
    exact ⟨pos, .again hnext hpos⟩

/-- Every match is behind the position. -/
theorem left_lt_of_split {str : List Byte} {st st' : SplitState τ}
    (h : splitBody strto str d ignore_blank st = (st', true)) :
    str.length+1-st'.last_pos < str.length+1-st.last_pos := by
  unfold splitBody at h
  split at h
  · split at h <;> cases h
  · next pos hfind =>
    obtain ⟨hle, hocc⟩ := occursAt_of_find hfind
    have hlen := hocc.1
    split at h
    · cases h
    · next tmp _ =>
      cases h
      rw [push_eq]
      dsimp only
      omega

theorem split_eq (hd : d ≠ []) (h : Pieces d str ps) :
    split strto str d ignore_blank = some ((kept ignore_blank ps).map strto) := by
  obtain ⟨pos, hpos⟩ := exits_split strto ignore_blank hd h [] []
  have hexec : execLoop (splitBody strto str d ignore_blank) (str.length+2) ⟨[],0,false⟩ =
      some ⟨(kept ignore_blank ps).map strto, pos, false⟩ := by
    refine (exits_iff_execLoop (fun st => str.length+1-st.last_pos) ?_ ?_).mp hpos
    · exact fun _ _ h => left_lt_of_split strto ignore_blank h
    · exact Nat.lt_succ_self (str.length+1)
  rw [split, hexec]
  rfl

theorem kept_false (ps : List (List Byte)) : kept false ps = ps :=
  List.filter_eq_self.mpr fun _ _ => rfl

theorem kept_true (ps : List (List Byte)) : kept true ps = ps.filter (· ≠ []) := by
  apply List.filter_congr
  intro p _
  cases p <;> rfl

/-- At one character the text is split as a list is. -/
theorem split_singleton (str : List Byte) (c : Byte) :
    split strto str [c] ignore_blank = some ((kept ignore_blank (str.splitOn c)).map strto) := by
  have hne : [c] ≠ [] := List.cons_ne_nil c []
  obtain ⟨ps, hps⟩ := exists_pieces hne str
  have hnot : ∀ p ∈ ps, c ∉ p := by
    intro p hp hc
    exact hps.not_infix hne p hp ((List.singleton_infix_iff c p).mpr hc)
  rw [split_eq strto ignore_blank hne hps, ← List.splitOn_intercalate c hnot hps.ne_nil,
    hps.intercalate_of_length rfl]

/-- The words between the occurrences of one character. -/
theorem split_words (str : List Byte) (c : Byte) :
    split id str [c] true = some ((str.splitOn c).filter (· ≠ [])) := by
  rw [split_singleton, kept_true, List.map_id]

/-- Words that are joined come back, without those that are empty. -/
theorem split_intercalate {words : List (List Byte)} {c : Byte} (hne : words ≠ [])
    (h : ∀ word ∈ words, c ∉ word) :
    split id ([c].intercalate words) [c] true = some (words.filter (· ≠ [])) := by
  rw [split_words, List.splitOn_intercalate c h hne]

/-- For a delimiter that is not empty the loop ends, and joining its pieces gives the text back
exactly where the delimiter is one character or does not occur. -/
theorem splits_iff (str : List Byte) {d : List Byte} (hd : d ≠ []) :
    Splits str d ↔ d.length = 1 ∨ ¬ d <:+: str := by
  obtain ⟨ps, hps⟩ := exists_pieces hd str
  have hfalse : split id str d false = some ps := by
    rw [split_eq id false hd hps, kept_false, List.map_id]
  have htrue : split id str d true = some (ps.filter (· ≠ [])) := by
    rw [split_eq id true hd hps, kept_true, List.map_id]
  rw [← hps.intercalate_eq_iff hd]
  constructor
  · intro h
    obtain ⟨ps', hps', -, hjoin⟩ := h.inverse
    rw [hfalse] at hps'
    cases hps'
    exact hjoin
  · intro hjoin
    refine ⟨⟨ps, hfalse, hps.not_infix hd, hjoin⟩, ?_⟩
    intro ps' hps'
    rw [hfalse] at hps'
    cases hps'
    exact htrue

/-- The text `a,b` at a comma. -/
theorem splits_comma : Splits [97,44,98] [44] :=
  (splits_iff _ (by decide)).mpr (.inl rfl)

/-- `abc` splits `abcd` into nothing and `bcd`. -/
theorem not_splits : ¬ Splits [97,98,99,100] [97,98,99] := by
  rintro ⟨⟨ps, hps, -, hjoin⟩, -⟩
  have hrun : split id [97,98,99,100] [97,98,99] false = some [[],[98,99,100]] := by decide
  rw [hrun] at hps
  cases hps
  exact absurd hjoin (by decide)

end MyCommon
end EchoFrame
