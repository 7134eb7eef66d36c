import EchoFrame.MachineInt
import EchoFrame.TimeoutMap
import EchoFrame.Verif.Entries

/-! Which keys `DoTimeout` expires, against the history of the operations before it. -/
namespace EchoFrame
open Verif Std
namespace MyTimeoutMap

variable {κ ν : Type} {cmp : κ → κ → Ordering}

def Op.touches (cmp : κ → κ → Ordering) (k : κ) : Op κ ν → Option UInt32
  | .insert now a _ | .update now a | .updateValue now a _ =>
    if cmp a k = .eq then some now else none
  | .erase _ | .movefirst _ | .clear | .set_timeout _ | .DoTimeout _ => none

/-- The second of the latest insert or update of `k`. -/
def lastTouch (cmp : κ → κ → Ordering) (ops : List (Op κ ν)) (k : κ) : Option UInt32 :=
  ops.foldl (fun last op => (op.touches cmp k).or last) none

variable [TransCmp cmp]

/-- The latest insert or update of `k` lies more than `timeout_` seconds before `now`. -/
def Stale (m : MyTimeoutMap κ ν cmp) (ops : List (Op κ ν)) (now : UInt32) (k : κ) : Prop :=
  ∃ t ∈ lastTouch cmp ops k, t.toNat+m.timeout_.toNat < now.toNat

/-- After a history of operations, `DoTimeout` reports each stale key that is present once, with
its value, and takes exactly these keys out. -/
structure Expires (m : MyTimeoutMap κ ν cmp) (ops : List (Op κ ν)) (now : UInt32) : Prop where
  once : (m.DoTimeout now).2.Pairwise fun c d => cmp c.1 d.1 ≠ .eq
  reported : ∀ k v, (∃ c ∈ (m.DoTimeout now).2, cmp c.1 k = .eq ∧ c.2 = v) ↔
    ∃ w, m.values_[k]? = some w ∧ w.v_ = v ∧ m.Stale ops now k
  values : ∀ k w, (m.DoTimeout now).1.values_[k]? = some w ↔
    m.values_[k]? = some w ∧ ¬m.Stale ops now k

variable {m m' : MyTimeoutMap κ ν cmp}

/-- `DoTimeout` gives no key another timestamp. -/
theorem stamp_of_stamp_DoTimeout {now t : UInt32} {k : κ}
    (h : (m.DoTimeout now).1.stamp k = some t) : m.stamp k = some t := by
  obtain ⟨w, hw, rfl⟩ := Option.map_eq_some_iff.mp h
  have hfold := foldl_timeoutKey_fst
    ((m.expired (now - m.timeout_)).flatMap fun it => it.2.keys_.toList) m.values_ []
  rw [DoTimeout, hfold, getElem?_foldl_erase] at hw
  rw [stamp, hw.1]
  rfl

theorem stamp_of_stamp_erase_with_nolock {k again a : κ} {t : UInt32}
    (h : (m.erase_with_nolock k again).stamp a = some t) : m.stamp a = some t := by
  cases hk : m.values_[k]? with
  | none =>
    rw [erase_with_nolock, hk] at h
    exact h
  | some vp =>
    rw [stamp_erase_with_nolock hk] at h
    split at h
    · cases h
    · exact h

theorem or_of_ite {p : Prop} [Decidable p] {now t : UInt32} {old : Option UInt32}
    (h : (if p then some now else old) = some t) :
    (if p then some now else none).or old = some t := by
  by_cases hp : p
  · rw [if_pos hp] at h ⊢
    exact h
  · rw [if_neg hp] at h ⊢
    exact h

/-- What both `update`s do to a timestamp, on a key that is present or not. -/
theorem touches_of_update {a k : κ} {now t : UInt32} {v : ValueWrapper ν → Option ν}
    (h : (match m.values_[a]? with
      | none => m
      | some vp => { m with values_ := m.values_.insert a ⟨now, v vp⟩ }.moveKey vp.ts_ now a).stamp k =
        some t) : (if cmp a k = .eq then some now else none).or (m.stamp k) = some t := by
  cases ha : m.values_[a]? with
  | none =>
    rw [ha] at h
    rw [if_neg]
    · exact h
    · intro heq
      rw [← stamp_congr m heq, stamp, ha] at h
      cases h
  | some vp =>
    simp only [ha] at h
    have hvalues : ({ m with values_ := m.values_.insert a ⟨now, v vp⟩ }.moveKey
        vp.ts_ now a).values_ = m.values_.insert a ⟨now, v vp⟩ := rfl
    rw [stamp_of_values_insert hvalues] at h
    exact or_of_ite h

/-- An operation leaves a timestamp as it was, or touches the key. -/
theorem touches_of_step {op : Op κ ν} (hstep : m.step op = some m') {k : κ} {t : UInt32}
    (h : m'.stamp k = some t) : ((op.touches cmp k).or (m.stamp k)) = some t := by
  cases op <;> cases hstep
  case insert now a v =>
    rw [stamp_insert] at h
    exact or_of_ite h
  case update now a => exact touches_of_update h
  case updateValue now a v => exact touches_of_update (v := fun _ => v) h
  case erase a => exact stamp_of_stamp_erase_with_nolock h
  case movefirst again =>
    unfold movefirst at h
    split at h
    · exact h
    · exact stamp_of_stamp_erase_with_nolock h
  case clear =>
    rw [stamp, clear, ExtTreeMap.getElem?_empty] at h
    cases h
  case set_timeout timeout => exact h
  case DoTimeout now => exact stamp_of_stamp_DoTimeout h

theorem lastTouch_of_run {ops : List (Op κ ν)} {last : κ → Option UInt32}
    (hlast : ∀ k t, m.stamp k = some t → last k = some t) (hr : run step m ops = some m')
    (k : κ) (t : UInt32) (h : m'.stamp k = some t) :
    ops.foldl (fun last op => (op.touches cmp k).or last) (last k) = some t := by
  -- `last` is carried along with the state, and stays right for the keys that are present
  induction ops generalizing m last with
  | nil =>
    rw [run_nil] at hr
    exact hlast k t (Option.some.inj hr ▸ h)
  | cons op ops ih =>
    obtain ⟨u, hu, hr⟩ := run_cons_eq_some.mp hr
    have hlast₁ : ∀ k t, u.stamp k = some t → (op.touches cmp k).or (last k) = some t := by
      intro k t hk
      have htouch := touches_of_step hu hk
      cases hop : op.touches cmp k with
      | some now =>
        rw [hop] at htouch
        exact htouch
      | none =>
        rw [hop] at htouch
        exact hlast k t htouch
    exact ih hlast₁ hr

/-- The timestamp of a key that is present is the second of its latest insert or update. -/
theorem stamp_eq_lastTouch {timeout_ : UInt32} {ops : List (Op κ ν)}
    (hr : run step (empty timeout_) ops = some m) {k : κ} {t : UInt32} (h : m.stamp k = some t) :
    lastTouch cmp ops k = some t := by
  have hlast : ∀ k t, (empty timeout_ : MyTimeoutMap κ ν cmp).stamp k = some t →
      (none : Option UInt32) = some t := by
    intro k t hk
    rw [stamp, empty, ExtTreeMap.getElem?_empty] at hk
    cases hk
  exact lastTouch_of_run hlast hr k t h

/-! The calls of `pred` on consistent indexes. -/

theorem foldl_timeoutKey_snd {ks : List κ} (hks : ks.Pairwise fun a b => cmp a b ≠ .eq)
    (values : ExtTreeMap κ (ValueWrapper ν) cmp) (calls : List (κ × Option ν)) :
    (ks.foldl timeoutKey (values, calls)).2 =
      calls ++ ks.map fun k => (k, (values[k]?).bind (·.v_)) := by
  induction ks generalizing values calls with
  | nil => exact (List.append_nil calls).symm
  | cons k ks ih =>
    rw [List.pairwise_cons] at hks
    have hlater : (ks.map fun a => (a, ((values.erase k)[a]?).bind (·.v_))) =
        ks.map fun a => (a, (values[a]?).bind (·.v_)) := by
      apply List.map_congr_left
      intro a ha
      rw [ExtTreeMap.getElem?_erase, if_neg (hks.1 a ha)]
    rw [List.foldl_cons, timeoutKey, ih hks.2, hlater, List.append_assoc]
    rfl

/-- No key is gone through twice. -/
theorem pairwise_expired (h : m.Consistent) (ts : UInt32) :
    ((m.expired ts).flatMap fun it => it.2.keys_.toList).Pairwise fun a b => cmp a b ≠ .eq := by
  apply List.pairwise_flatMap.mpr
  refine ⟨fun it _ => ExtTreeSet.distinct_toList, ?_⟩
  have hdistinct : (m.expired ts).Pairwise fun it it' => it.1 ≠ it'.1 := by
    apply List.Pairwise.filter
    exact (sorted_toList m.keys_).imp UInt32.ne_of_lt
  apply hdistinct.imp_of_mem
  rintro ⟨t, w⟩ ⟨t', w'⟩ hit hit' hne a ha b hb heq
  have hat : a ∈ (m.bucket t).keys_ := by
    rw [mem_bucket_iff]
    exact ⟨w, (mem_expired.mp hit).1, (exists_mem_toList_iff w.keys_ a).mp ⟨a, ha, ReflCmp.compare_self⟩⟩
  have hat' : a ∈ (m.bucket t').keys_ := by
    rw [mem_bucket_iff]
    refine ⟨w', (mem_expired.mp hit').1, (exists_mem_toList_iff w'.keys_ a).mp ⟨b, hb, ?_⟩⟩
    exact OrientedCmp.eq_comm.mp heq
  exact hne (h.bucket_unique hat hat')

/-- The keys in the buckets before `ts` are those whose timestamp is before `ts`. -/
theorem exists_expired_iff (h : m.Consistent) (ts : UInt32) (a : κ) :
    (∃ k ∈ (m.expired ts).flatMap fun it => it.2.keys_.toList, cmp k a = .eq) ↔
      ∃ w, m.values_[a]? = some w ∧ w.ts_ < ts := by
  have hnot := not_congr (forall_expired_iff m ts a)
  simp only [not_forall, ne_eq, not_not, exists_prop] at hnot
  rw [hnot]
  constructor
  · rintro ⟨t, ht, ha⟩
    obtain ⟨w, hw, rfl⟩ := (h a t).mp ha
    exact ⟨w, hw, ht⟩
  · rintro ⟨w, hw, ht⟩
    exact ⟨w.ts_, ht, (h a w.ts_).mpr ⟨w, hw, rfl⟩⟩

theorem calls_DoTimeout (h : m.Consistent) (now : UInt32) : (m.DoTimeout now).2 =
    ((m.expired (now - m.timeout_)).flatMap fun it => it.2.keys_.toList).map
      fun k => (k, (m.values_[k]?).bind (·.v_)) := by
  rw [DoTimeout, foldl_timeoutKey_snd (pairwise_expired h _)]
  exact List.nil_append _

theorem reported_iff (h : m.Consistent) (now : UInt32) (k : κ) (v : Option ν) :
    (∃ c ∈ (m.DoTimeout now).2, cmp c.1 k = .eq ∧ c.2 = v) ↔
      ∃ w, m.values_[k]? = some w ∧ w.v_ = v ∧ w.ts_ < now - m.timeout_ := by
  have hvalue {a : κ} {w : ValueWrapper ν} (ha : cmp a k = .eq) (hw : m.values_[k]? = some w) :
      (m.values_[a]?).bind (·.v_) = w.v_ := by
    rw [ExtTreeMap.getElem?_congr ha, hw]
    rfl
  rw [calls_DoTimeout h]
  constructor
  · rintro ⟨c, hc, heq, rfl⟩
    obtain ⟨a, ha, rfl⟩ := List.mem_map.mp hc
    obtain ⟨w, hw, ht⟩ := (exists_expired_iff h _ k).mp ⟨a, ha, heq⟩
    exact ⟨w, hw, (hvalue heq hw).symm, ht⟩
  · rintro ⟨w, hw, rfl, ht⟩
    obtain ⟨a, ha, heq⟩ := (exists_expired_iff h _ k).mpr ⟨w, hw, ht⟩
    exact ⟨_, List.mem_map.mpr ⟨a, ha, rfl⟩, heq, hvalue heq hw⟩

theorem consistent_of_run {timeout_ : UInt32} {ops : List (Op κ ν)}
    (hallowed : Along Allowed step (empty timeout_ : MyTimeoutMap κ ν cmp) ops)
    (hr : run step (empty timeout_) ops = some m) : m.Consistent := by
  refine invariant_of_run ?_ (consistent_empty timeout_) hallowed hr
  intro m op m' h hop hstep
  exact (consistent_step_iff h op hstep).mpr hop

/-- Which timestamps lie before the wrapped difference. -/
theorem lt_sub_iff_iff (t now timeout : UInt32) :
    (t < now - timeout ↔ t.toNat+timeout.toNat < now.toNat) ↔
      timeout ≤ now ∨ 2^32+now.toNat ≤ t.toNat+timeout.toNat := by
  rw [UInt32.lt_iff_toNat_lt]
  by_cases hle : timeout ≤ now
  · have hle' := UInt32.le_iff_toNat_le.mp hle
    rw [UInt32.toNat_sub_of_le _ _ hle]
    simp only [hle, true_or, iff_true]
    omega
  · have hlt := UInt32.lt_iff_toNat_lt.mp (UInt32.not_le.mp hle)
    rw [toNat_sub_of_lt (UInt32.not_le.mp hle)]
    simp only [hle, false_or]
    omega

theorem stale_iff {timeout_ : UInt32} {ops : List (Op κ ν)}
    (hr : run step (empty timeout_) ops = some m) (now : UInt32) {k : κ} {w : ValueWrapper ν}
    (hw : m.values_[k]? = some w) :
    m.Stale ops now k ↔ w.ts_.toNat+m.timeout_.toNat < now.toNat := by
  have hlast : lastTouch cmp ops k = some w.ts_ := by
    apply stamp_eq_lastTouch hr
    rw [stamp, hw]
    rfl
  rw [Stale, hlast]
  simp only [Option.mem_some_iff, exists_eq_left']

/-- On consistent indexes, the keys expired are the stale ones as far as the comparison of
timestamps is right. -/
theorem expires_iff_forall {timeout_ : UInt32} {ops : List (Op κ ν)} (h : m.Consistent)
    (hr : run step (empty timeout_) ops = some m) (now : UInt32) :
    m.Expires ops now ↔ ∀ (k : κ) (w : ValueWrapper ν), m.values_[k]? = some w →
      (w.ts_ < now - m.timeout_ ↔ w.ts_.toNat+m.timeout_.toNat < now.toNat) := by
  constructor
  · intro hexp k w hw
    rw [← stale_iff hr now hw]
    have hkept := hexp.values k w
    rw [getElem?_DoTimeout h, and_congr_right_iff] at hkept
    exact not_iff_not.mp (hkept hw)
  · intro hall
    have hstale {k : κ} {w : ValueWrapper ν} (hw : m.values_[k]? = some w) :
        w.ts_ < now - m.timeout_ ↔ m.Stale ops now k :=
      (hall k w hw).trans (stale_iff hr now hw).symm
    refine ⟨?_, ?_, ?_⟩
    · rw [calls_DoTimeout h, List.pairwise_map]
      exact pairwise_expired h _
    · intro k v
      rw [reported_iff h]
      refine exists_congr fun w => and_congr_right fun hw => and_congr_right fun _ => ?_
      exact hstale hw
    · intro k w
      rw [getElem?_DoTimeout h]
      refine and_congr_right fun hw => not_congr ?_
      exact hstale hw

/-- After a history that keeps the indexes consistent, `DoTimeout` expires the stale keys
exactly when its difference does not wrap, or wraps below every timestamp. -/
theorem DoTimeout_expires_iff {timeout_ : UInt32} {ops : List (Op κ ν)}
    (hallowed : Along Allowed step (empty timeout_ : MyTimeoutMap κ ν cmp) ops)
    (hr : run step (empty timeout_) ops = some m) (now : UInt32) :
    m.Expires ops now ↔ m.timeout_ ≤ now ∨
      ∀ (k : κ) (w : ValueWrapper ν), m.values_[k]? = some w →
        2^32+now.toNat ≤ w.ts_.toNat+m.timeout_.toNat := by
  rw [expires_iff_forall (consistent_of_run hallowed hr) hr]
  simp only [lt_sub_iff_iff]
  constructor
  · intro h
    by_cases hle : m.timeout_ ≤ now
    · exact .inl hle
    · exact .inr fun k w hw => (h k w hw).resolve_left hle
  · rintro (hle | hwrap) k w hw
    · exact .inl hle
    · exact .inr (hwrap k w hw)

/-- Key 7 was updated in time, key 8 was not. -/
theorem DoTimeout_expires_two_keys :
    let ops : List (Op ℕ ℕ) := [.insert 100 7 (some 1),.insert 101 8 (some 2),.update 140 7]
    ∃ m, run step (empty 30 : MyTimeoutMap ℕ ℕ compare) ops = some m ∧ m.Expires ops 150 := by
  intro ops
  have hall : Along Allowed step (empty 30 : MyTimeoutMap ℕ ℕ compare) ops := by
    simp [ops, Along, Allowed, step, empty, insert]
  exact ⟨_, rfl, (DoTimeout_expires_iff hall rfl 150).mpr (.inl (by decide))⟩

/-- A key is inserted again 30 seconds later, and reported from the bucket of its first second. -/
theorem not_expires_inserted_again :
    let ops : List (Op ℕ ℕ) := [.insert 100 7 (some 1),.insert 130 7 (some 2)]
    ∃ m, run step (empty 30 : MyTimeoutMap ℕ ℕ compare) ops = some m ∧
      (m.DoTimeout 140).2 = [(7,some 2)] ∧ ¬m.Expires ops 140 := by
  intro ops
  refine ⟨_, rfl, by decide, ?_⟩
  intro h
  obtain ⟨w, -, -, t, ht, hlt⟩ := (h.reported 7 (some 2)).mp ⟨(7,some 2), by decide, rfl, rfl⟩
  have hlast : lastTouch compare ops 7 = some 130 := rfl
  rw [hlast] at ht
  cases ht
  exact absurd hlt (by decide)

end MyTimeoutMap
end EchoFrame
