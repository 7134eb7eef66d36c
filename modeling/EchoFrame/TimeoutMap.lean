import EchoFrame.Verif.InverseIndex
import EchoFrame.Verif.Run
import Std.Data.ExtTreeMap
import Std.Data.ExtTreeSet

/-! `MyTimeoutMap`: values under their keys, each with the second it was last
touched, and the keys once more in a bucket for every second. -/
namespace EchoFrame
open Verif Std

variable {κ ν : Type} {cmp : κ → κ → Ordering}

/-- A null pointer is `none`. -/
structure ValueWrapper (ν : Type) where
  ts_ : UInt32
  v_ : Option ν

structure KeyWrapper (κ : Type) (cmp : κ → κ → Ordering) where
  ts_ : UInt32 := 0
  keys_ : ExtTreeSet κ cmp := ∅

structure MyTimeoutMap (κ ν : Type) (cmp : κ → κ → Ordering) where
  values_ : ExtTreeMap κ (ValueWrapper ν) cmp
  keys_ : ExtTreeMap UInt32 (KeyWrapper κ cmp)
  timeout_ : UInt32

namespace MyTimeoutMap

/-- `timeout_` has no initial value in the source. -/
def empty (timeout_ : UInt32) : MyTimeoutMap κ ν cmp := ⟨∅, ∅, timeout_⟩

def bucket (m : MyTimeoutMap κ ν cmp) (ts : UInt32) : KeyWrapper κ cmp := m.keys_.getD ts {}

theorem bucket_of_keys_insert {m m' : MyTimeoutMap κ ν cmp} {ts : UInt32} {w : KeyWrapper κ cmp}
    (h : m'.keys_ = m.keys_.insert ts w) (t : UInt32) :
    m'.bucket t = if ts = t then w else m.bucket t := by
  rw [bucket, h, ExtTreeMap.getD_insert]
  simp only [Std.compare_eq_iff_eq]
  rfl

theorem bucket_of_keys_erase {m m' : MyTimeoutMap κ ν cmp} {ts : UInt32}
    (h : m'.keys_ = m.keys_.erase ts) (t : UInt32) :
    m'.bucket t = if ts = t then {} else m.bucket t := by
  rw [bucket, h, ExtTreeMap.getD_erase]
  simp only [Std.compare_eq_iff_eq]
  rfl

section Operations
variable [TransCmp cmp]

def insert (m : MyTimeoutMap κ ν cmp) (now : UInt32) (k : κ) (v : Option ν) :
    MyTimeoutMap κ ν cmp :=
  { m with
    keys_ := m.keys_.insert now ⟨now, (m.bucket now).keys_.insert k⟩
    values_ := m.values_.insert k ⟨now, v⟩ }

/-- The two steps that both `update`s share: `k` moves from the bucket of `oldts`
to the one of `now`. -/
def moveKey (m : MyTimeoutMap κ ν cmp) (oldts now : UInt32) (k : κ) : MyTimeoutMap κ ν cmp :=
  let oldkp : KeyWrapper κ cmp := ⟨(m.bucket oldts).ts_, (m.bucket oldts).keys_.erase k⟩
  let m := { m with keys_ := m.keys_.insert oldts oldkp }
  { m with keys_ := m.keys_.insert now ⟨now, (m.bucket now).keys_.insert k⟩ }

def update (m : MyTimeoutMap κ ν cmp) (now : UInt32) (k : κ) : MyTimeoutMap κ ν cmp :=
  match m.values_[k]? with
  | none => m
  | some vp => { m with values_ := m.values_.insert k ⟨now, vp.v_⟩ }.moveKey vp.ts_ now k

def updateValue (m : MyTimeoutMap κ ν cmp) (now : UInt32) (k : κ) (v : Option ν) :
    MyTimeoutMap κ ν cmp :=
  match m.values_[k]? with
  | none => m
  | some vp => { m with values_ := m.values_.insert k ⟨now, v⟩ }.moveKey vp.ts_ now k

/-- `k` is a reference. The node of `values_` is erased before `k` is read for the
second time, and `again` is what it reads then. -/
def erase_with_nolock (m : MyTimeoutMap κ ν cmp) (k again : κ) : MyTimeoutMap κ ν cmp :=
  match m.values_[k]? with
  | none => m
  | some vp =>
    let kp : KeyWrapper κ cmp := ⟨(m.bucket vp.ts_).ts_, (m.bucket vp.ts_).keys_.erase again⟩
    { m with
      values_ := m.values_.erase k
      keys_ := if kp.keys_.isEmpty then m.keys_.erase vp.ts_ else m.keys_.insert vp.ts_ kp }

/-- The reference is to a key of the caller's, which outlives the node. -/
def erase (m : MyTimeoutMap κ ν cmp) (k : κ) : MyTimeoutMap κ ν cmp := m.erase_with_nolock k k

/-- Here the reference is to the key in the node itself, `it->first`. -/
def movefirst (m : MyTimeoutMap κ ν cmp) (again : κ) : Option ν × MyTimeoutMap κ ν cmp :=
  match m.values_.minKey? with
  | none => (none, m)
  | some k => ((m.values_[k]?).bind (·.v_), m.erase_with_nolock k again)

def clear (m : MyTimeoutMap κ ν cmp) : MyTimeoutMap κ ν cmp :=
  { m with keys_ := ∅, values_ := ∅ }

def set_timeout (m : MyTimeoutMap κ ν cmp) (timeout : UInt32) : MyTimeoutMap κ ν cmp :=
  { m with timeout_ := timeout }

/-- One round of the inner loop of `DoTimeout`; the calls of `pred` are kept beside. -/
def timeoutKey (acc : ExtTreeMap κ (ValueWrapper ν) cmp × List (κ × Option ν)) (k : κ) :
    ExtTreeMap κ (ValueWrapper ν) cmp × List (κ × Option ν) :=
  (acc.1.erase k, acc.2 ++ [(k, (acc.1[k]?).bind (·.v_))])

/-- The buckets from `keys_.begin()` to `keys_.lower_bound(ts)`. -/
def expired (m : MyTimeoutMap κ ν cmp) (ts : UInt32) : List (UInt32 × KeyWrapper κ cmp) :=
  m.keys_.toList.filter fun it => it.1 < ts

/-- The map afterwards, and the calls of `pred`; the overload without it makes none. -/
def DoTimeout (m : MyTimeoutMap κ ν cmp) (now : UInt32) :
    MyTimeoutMap κ ν cmp × List (κ × Option ν) :=
  let expired := m.expired (now - m.timeout_)
  let done := (expired.flatMap fun it => it.2.keys_.toList).foldl timeoutKey (m.values_, [])
  ({ m with
     values_ := done.1
     keys_ := (expired.map (·.1)).foldl (fun keys ts => keys.erase ts) m.keys_ }, done.2)

end Operations

/-- The operations that change the map, each with the clock it reads. -/
inductive Op (κ ν : Type)
  | insert (now : UInt32) (k : κ) (v : Option ν)
  | update (now : UInt32) (k : κ)
  | updateValue (now : UInt32) (k : κ) (v : Option ν)
  | erase (k : κ)
  | movefirst (again : κ)
  | clear
  | set_timeout (timeout : UInt32)
  | DoTimeout (now : UInt32)

variable [TransCmp cmp]

def step (m : MyTimeoutMap κ ν cmp) : Op κ ν → Option (MyTimeoutMap κ ν cmp)
  | .insert now k v => some (m.insert now k v)
  | .update now k => some (m.update now k)
  | .updateValue now k v => some (m.updateValue now k v)
  | .erase k => some (m.erase k)
  | .movefirst again => some (m.movefirst again).2
  | .clear => some m.clear
  | .set_timeout timeout => some (m.set_timeout timeout)
  | .DoTimeout now => some (m.DoTimeout now).1

/-- The two indexes agree: `k` is in `keys_[t]` exactly when `values_` holds it
with the timestamp `t`. -/
def Consistent (m : MyTimeoutMap κ ν cmp) : Prop :=
  ∀ k t, k ∈ (m.bucket t).keys_ ↔ ∃ w, m.values_[k]? = some w ∧ w.ts_ = t

/-- A key that is present is inserted again only in the second of its timestamp,
and a freed node still reads as its key. -/
def Allowed (m : MyTimeoutMap κ ν cmp) : Op κ ν → Prop
  | .insert now k _ => ∀ w, m.values_[k]? = some w → w.ts_ = now
  | .movefirst again => ∀ k, m.values_.minKey? = some k → cmp again k = .eq
  | _ => True

def stamp (m : MyTimeoutMap κ ν cmp) (k : κ) : Option UInt32 := (m.values_[k]?).map (·.ts_)

def keysAt (m : MyTimeoutMap κ ν cmp) (ts : UInt32) : Set κ := {k | k ∈ (m.bucket ts).keys_}

theorem consistent_iff_indexes (m : MyTimeoutMap κ ν cmp) :
    m.Consistent ↔ Indexes m.stamp m.keysAt := by
  simp only [Consistent, Indexes, keysAt, stamp, Set.mem_ofPred_eq, Option.map_eq_some_iff]

theorem stamp_congr (m : MyTimeoutMap κ ν cmp) {k a : κ} (h : cmp k a = .eq) :
    m.stamp k = m.stamp a := by
  rw [stamp, stamp, ExtTreeMap.getElem?_congr h]

theorem Consistent.bucket_unique {m : MyTimeoutMap κ ν cmp} (h : m.Consistent) {k : κ}
    {t t' : UInt32} (ht : k ∈ (m.bucket t).keys_) (ht' : k ∈ (m.bucket t').keys_) : t = t' :=
  Indexes.bucket_unique ((consistent_iff_indexes m).mp h) (k := k) ht ht'

/-! What each operation does to the timestamps and to the buckets. -/

theorem stamp_of_values_insert {m m' : MyTimeoutMap κ ν cmp} {k : κ} {w : ValueWrapper ν}
    (h : m'.values_ = m.values_.insert k w) (a : κ) :
    m'.stamp a = if cmp k a = .eq then some w.ts_ else m.stamp a := by
  rw [stamp, h, ExtTreeMap.getElem?_insert, apply_ite (Option.map _)]
  rfl

theorem stamp_of_values_erase {m m' : MyTimeoutMap κ ν cmp} {k : κ}
    (h : m'.values_ = m.values_.erase k) (a : κ) :
    m'.stamp a = if cmp k a = .eq then none else m.stamp a := by
  rw [stamp, h, ExtTreeMap.getElem?_erase, apply_ite (Option.map _)]
  rfl

theorem stamp_insert (m : MyTimeoutMap κ ν cmp) (now : UInt32) (k : κ) (v : Option ν) (a : κ) :
    (m.insert now k v).stamp a = if cmp k a = .eq then some now else m.stamp a :=
  stamp_of_values_insert (w := ⟨now, v⟩) rfl a

theorem mem_bucket_insert (m : MyTimeoutMap κ ν cmp) (now : UInt32) (k : κ) (v : Option ν)
    (a : κ) (t : UInt32) : a ∈ ((m.insert now k v).bucket t).keys_ ↔
      (now = t ∧ cmp k a = .eq) ∨ a ∈ (m.bucket t).keys_ := by
  rw [bucket_of_keys_insert (m := m) rfl]
  by_cases h : now = t
  · subst h
    rw [if_pos rfl, ExtTreeSet.mem_insert]
    simp only [true_and]
  · rw [if_neg h]
    simp only [h, false_and, false_or]

theorem mem_bucket_moveKey (m : MyTimeoutMap κ ν cmp) (oldts now : UInt32) (k a : κ)
    (t : UInt32) : a ∈ ((m.moveKey oldts now k).bucket t).keys_ ↔
      (now = t ∧ cmp k a = .eq) ∨
        (a ∈ (m.bucket t).keys_ ∧ ¬(oldts = t ∧ cmp k a = .eq)) := by
  let oldkp : KeyWrapper κ cmp := ⟨(m.bucket oldts).ts_, (m.bucket oldts).keys_.erase k⟩
  let left : MyTimeoutMap κ ν cmp := { m with keys_ := m.keys_.insert oldts oldkp }
  have hleft : a ∈ (left.bucket t).keys_ ↔
      a ∈ (m.bucket t).keys_ ∧ ¬(oldts = t ∧ cmp k a = .eq) := by
    rw [bucket_of_keys_insert (m := m) rfl]
    by_cases h : oldts = t
    · subst h
      rw [if_pos rfl, ExtTreeSet.mem_erase]
      simp only [true_and]
      exact and_comm
    · rw [if_neg h]
      simp only [h, false_and, not_false_eq_true, and_true]
  rw [← hleft]
  exact mem_bucket_insert left now k none a t

theorem mem_bucket_erase_with_nolock {m : MyTimeoutMap κ ν cmp} {k : κ} {vp : ValueWrapper ν}
    (hk : m.values_[k]? = some vp) (again a : κ) (t : UInt32) :
    a ∈ ((m.erase_with_nolock k again).bucket t).keys_ ↔
      a ∈ (m.bucket t).keys_ ∧ ¬(vp.ts_ = t ∧ cmp again a = .eq) := by
  let kp : KeyWrapper κ cmp := ⟨(m.bucket vp.ts_).ts_, (m.bucket vp.ts_).keys_.erase again⟩
  have hkeys : (m.erase_with_nolock k again).keys_ =
      if kp.keys_.isEmpty then m.keys_.erase vp.ts_ else m.keys_.insert vp.ts_ kp := by
    simp only [erase_with_nolock, hk, kp]
  by_cases ht : vp.ts_ = t
  · subst ht
    have hmem : a ∈ ((m.erase_with_nolock k again).bucket vp.ts_).keys_ ↔ a ∈ kp.keys_ := by
      by_cases he : kp.keys_.isEmpty
      · rw [if_pos he] at hkeys
        rw [bucket_of_keys_erase hkeys, if_pos rfl, ExtTreeSet.isEmpty_iff.mp he]
      · rw [if_neg he] at hkeys
        rw [bucket_of_keys_insert hkeys, if_pos rfl]
    rw [hmem, ExtTreeSet.mem_erase]
    simp only [true_and]
    exact and_comm
  · have hother : (m.erase_with_nolock k again).bucket t = m.bucket t := by
      by_cases he : kp.keys_.isEmpty
      · rw [if_pos he] at hkeys
        rw [bucket_of_keys_erase hkeys, if_neg ht]
      · rw [if_neg he] at hkeys
        rw [bucket_of_keys_insert hkeys, if_neg ht]
    rw [hother]
    simp only [ht, false_and, not_false_eq_true, and_true]

theorem stamp_erase_with_nolock {m : MyTimeoutMap κ ν cmp} {k : κ} {vp : ValueWrapper ν}
    (hk : m.values_[k]? = some vp) (again a : κ) :
    (m.erase_with_nolock k again).stamp a = if cmp k a = .eq then none else m.stamp a := by
  apply stamp_of_values_erase
  simp only [erase_with_nolock, hk]

/-! `DoTimeout` -/

theorem foldl_timeoutKey_fst (ks : List κ) (values : ExtTreeMap κ (ValueWrapper ν) cmp)
    (calls : List (κ × Option ν)) :
    (ks.foldl timeoutKey (values, calls)).1 = ks.foldl (fun values k => values.erase k) values := by
  induction ks generalizing values calls with
  | nil => rfl
  | cons k ks ih => exact ih _ _

/-- What is left after a list of keys has been erased. -/
theorem getElem?_foldl_erase {β : Type} (ks : List κ) (map : ExtTreeMap κ β cmp) (a : κ)
    (v : β) : (ks.foldl (fun map k => map.erase k) map)[a]? = some v ↔
      map[a]? = some v ∧ ∀ k ∈ ks, cmp k a ≠ .eq := by
  induction ks generalizing map with
  | nil => simp only [List.foldl_nil, List.not_mem_nil, false_imp_iff, implies_true, and_true]
  | cons k ks ih =>
    rw [List.foldl_cons, ih, ExtTreeMap.getElem?_erase, List.forall_mem_cons]
    by_cases h : cmp k a = .eq
    · rw [if_pos h]
      simp only [reduceCtorEq, h, ne_eq, not_true_eq_false, false_and, and_false]
    · rw [if_neg h]
      simp only [ne_eq, h, not_false_eq_true, true_and]

/-- The elements of a set as far as the comparison tells them apart. -/
theorem exists_mem_toList_iff (keys : ExtTreeSet κ cmp) (a : κ) :
    (∃ k ∈ keys.toList, cmp k a = .eq) ↔ a ∈ keys := by
  let same : BEq κ := ⟨fun a b => cmp a b == .eq⟩
  have lawful : LawfulBEqCmp cmp := ⟨beq_iff_eq.symm⟩
  have hcontains : keys.toList.contains a = keys.contains a := ExtTreeSet.contains_toList
  rw [← ExtTreeSet.contains_iff_mem, ← hcontains, List.contains_iff_exists_mem_beq]
  refine exists_congr fun k => and_congr_right fun _ => ?_
  rw [OrientedCmp.eq_comm]
  exact beq_iff_eq.symm

omit [TransCmp cmp] in
theorem mem_expired {m : MyTimeoutMap κ ν cmp} {ts t : UInt32} {w : KeyWrapper κ cmp} :
    (t, w) ∈ m.expired ts ↔ m.keys_[t]? = some w ∧ t < ts := by
  rw [expired, List.mem_filter, ExtTreeMap.mem_toList_iff_getElem?_eq_some, decide_eq_true_iff]

theorem mem_bucket_iff (m : MyTimeoutMap κ ν cmp) (a : κ) (t : UInt32) :
    a ∈ (m.bucket t).keys_ ↔ ∃ w, m.keys_[t]? = some w ∧ a ∈ w.keys_ := by
  rw [bucket, ExtTreeMap.getD_eq_getD_getElem?]
  cases m.keys_[t]? with
  | none => simp only [Option.getD_none, ExtTreeSet.not_mem_empty, reduceCtorEq, false_and,
      exists_false]
  | some w => simp only [Option.getD_some, Option.some.injEq, exists_eq_left']

theorem mem_bucket_DoTimeout (m : MyTimeoutMap κ ν cmp) (now : UInt32) (a : κ) (t : UInt32) :
    a ∈ ((m.DoTimeout now).1.bucket t).keys_ ↔
      ¬t < now - m.timeout_ ∧ a ∈ (m.bucket t).keys_ := by
  have hkeys (w : KeyWrapper κ cmp) : (m.DoTimeout now).1.keys_[t]? = some w ↔
      m.keys_[t]? = some w ∧ ¬t < now - m.timeout_ := by
    refine (getElem?_foldl_erase _ _ _ _).trans (and_congr_right fun hw => ?_)
    constructor
    · intro h hlt
      have hmem : (t, w) ∈ m.expired (now - m.timeout_) := mem_expired.mpr ⟨hw, hlt⟩
      exact h t (List.mem_map.mpr ⟨(t, w), hmem, rfl⟩) ReflCmp.compare_self
    · intro h t' ht' heq
      obtain ⟨it, hit, rfl⟩ := List.mem_map.mp ht'
      rw [Std.compare_eq_iff_eq] at heq
      exact h (heq ▸ (mem_expired.mp hit).2)
  rw [mem_bucket_iff, mem_bucket_iff]
  simp only [hkeys]
  grind

/-- The keys that `DoTimeout` goes through are those of the buckets before `ts`. -/
theorem forall_expired_iff (m : MyTimeoutMap κ ν cmp) (ts : UInt32) (a : κ) :
    (∀ k ∈ (m.expired ts).flatMap fun it => it.2.keys_.toList, cmp k a ≠ .eq) ↔
      ∀ t < ts, a ∉ (m.bucket t).keys_ := by
  constructor
  · intro h t ht ha
    obtain ⟨w, hw, ha⟩ := (mem_bucket_iff m a t).mp ha
    obtain ⟨k, hk, heq⟩ := (exists_mem_toList_iff w.keys_ a).mpr ha
    exact h k (List.mem_flatMap.mpr ⟨(t, w), mem_expired.mpr ⟨hw, ht⟩, hk⟩) heq
  · intro h k hk heq
    obtain ⟨⟨t, w⟩, hit, hk⟩ := List.mem_flatMap.mp hk
    obtain ⟨hw, ht⟩ := mem_expired.mp hit
    have ha : a ∈ w.keys_ := (exists_mem_toList_iff w.keys_ a).mp ⟨k, hk, heq⟩
    exact h t ht ((mem_bucket_iff m a t).mpr ⟨w, hw, ha⟩)

theorem getElem?_DoTimeout {m : MyTimeoutMap κ ν cmp} (h : m.Consistent) (now : UInt32) (a : κ)
    (w : ValueWrapper ν) : (m.DoTimeout now).1.values_[a]? = some w ↔
      m.values_[a]? = some w ∧ ¬w.ts_ < now - m.timeout_ := by
  have hfold := foldl_timeoutKey_fst
    ((m.expired (now - m.timeout_)).flatMap fun it => it.2.keys_.toList) m.values_ []
  rw [DoTimeout, hfold, getElem?_foldl_erase, forall_expired_iff]
  refine and_congr_right fun hw => ?_
  constructor
  · intro hgone hlt
    exact hgone w.ts_ hlt ((h a w.ts_).mpr ⟨w, hw, rfl⟩)
  · rintro hge t ht ha
    obtain ⟨w', hw', rfl⟩ := (h a t).mp ha
    rw [hw] at hw'
    exact hge (Option.some.inj hw' ▸ ht)

theorem stamp_DoTimeout {m : MyTimeoutMap κ ν cmp} (h : m.Consistent) (now : UInt32) (a : κ)
    (t : UInt32) : (m.DoTimeout now).1.stamp a = some t ↔
      ¬t < now - m.timeout_ ∧ m.stamp a = some t := by
  rw [stamp, stamp, Option.map_eq_some_iff, Option.map_eq_some_iff]
  simp only [getElem?_DoTimeout h]
  constructor
  · rintro ⟨w, ⟨hw, hge⟩, rfl⟩
    exact ⟨hge, w, hw, rfl⟩
  · rintro ⟨hge, w, hw, rfl⟩
    exact ⟨w, ⟨hw, hge⟩, rfl⟩

/-! Each operation on consistent indexes. -/

theorem consistent_empty (timeout_ : UInt32) :
    (empty timeout_ : MyTimeoutMap κ ν cmp).Consistent := by
  intro k t
  rw [mem_bucket_iff]
  simp only [empty, ExtTreeMap.getElem?_empty, reduceCtorEq, false_and, exists_false]

theorem consistent_insert_iff {m : MyTimeoutMap κ ν cmp} (h : m.Consistent) (now : UInt32)
    (k : κ) (v : Option ν) : (m.insert now k v).Consistent ↔ m.Allowed (.insert now k v) := by
  rw [consistent_iff_indexes] at h ⊢
  constructor
  · intro h' w hw
    by_contra hne
    have hold : k ∈ m.keysAt w.ts_ := (h k w.ts_).mpr (by rw [stamp, hw]; rfl)
    refine not_indexes_of_leftover (k := k) (t := w.ts_) ?_ ?_ h'
    · exact (mem_bucket_insert m now k v k w.ts_).mpr (.inr hold)
    · rw [stamp_insert, if_pos ReflCmp.compare_self]
      exact fun heq => hne (Option.some.inj heq).symm
  · intro hallow
    refine h.assign (e := fun a => cmp k a = .eq) (stamp_insert m now k v) ?_
    intro a t
    refine (mem_bucket_insert m now k v a t).trans ?_
    by_cases hka : cmp k a = .eq
    · rw [if_pos hka, Option.some.injEq, and_iff_left hka]
      refine or_iff_left_of_imp fun ha => ?_
      obtain ⟨w, hw, rfl⟩ := Option.map_eq_some_iff.mp ((stamp_congr m hka).trans ((h a t).mp ha))
      exact (hallow w hw).symm
    · rw [if_neg hka, or_iff_right fun hn => hka hn.2]
      rfl

/-- The common part of the `update`s, on a key that is present. -/
theorem consistent_touch {m : MyTimeoutMap κ ν cmp} (h : m.Consistent) {k : κ}
    {vp : ValueWrapper ν} (hk : m.values_[k]? = some vp) (now : UInt32) (v : Option ν) :
    ({ m with values_ := m.values_.insert k ⟨now, v⟩ }.moveKey vp.ts_ now k).Consistent := by
  rw [consistent_iff_indexes] at h ⊢
  have hstamp : m.stamp k = some vp.ts_ := by rw [stamp, hk]; rfl
  refine h.assign (e := fun a => cmp k a = .eq) (stamp_of_values_insert (w := ⟨now, v⟩) rfl) ?_
  intro a t
  refine (mem_bucket_moveKey _ vp.ts_ now k a t).trans ?_
  by_cases hka : cmp k a = .eq
  · rw [if_pos hka, Option.some.injEq, and_iff_left hka]
    refine or_iff_left_of_imp fun ha => absurd ⟨?_, hka⟩ ha.2
    have hat : m.stamp a = some t := (h a t).mp ha.1
    rw [← stamp_congr m hka, hstamp] at hat
    exact Option.some.inj hat
  · rw [if_neg hka, or_iff_right fun hn => hka hn.2]
    exact and_iff_left fun hn => hka hn.2

theorem consistent_update {m : MyTimeoutMap κ ν cmp} (h : m.Consistent) (now : UInt32) (k : κ) :
    (m.update now k).Consistent := by
  unfold update
  split
  · exact h
  · rename_i vp hk
    exact consistent_touch h hk now vp.v_

theorem consistent_updateValue {m : MyTimeoutMap κ ν cmp} (h : m.Consistent) (now : UInt32)
    (k : κ) (v : Option ν) : (m.updateValue now k v).Consistent := by
  unfold updateValue
  split
  · exact h
  · rename_i hk
    exact consistent_touch h hk now v

/-- The key that `erase_with_nolock` takes out of the bucket is the one that is read
back through the reference. -/
theorem consistent_erase_with_nolock_iff {m : MyTimeoutMap κ ν cmp} (h : m.Consistent) {k : κ}
    {vp : ValueWrapper ν} (hk : m.values_[k]? = some vp) (again : κ) :
    (m.erase_with_nolock k again).Consistent ↔ cmp again k = .eq := by
  rw [consistent_iff_indexes] at h ⊢
  have hstamp : m.stamp k = some vp.ts_ := by rw [stamp, hk]; rfl
  constructor
  · intro h'
    by_contra hne
    refine not_indexes_of_leftover (k := k) (t := vp.ts_) ?_ ?_ h'
    · refine (mem_bucket_erase_with_nolock hk again k vp.ts_).mpr ⟨?_, fun hn => hne hn.2⟩
      exact (h k vp.ts_).mpr hstamp
    · rw [stamp_erase_with_nolock hk, if_pos ReflCmp.compare_self]
      exact (Option.some_ne_none vp.ts_).symm
  · intro heq
    refine h.assign (e := fun a => cmp k a = .eq) (stamp_erase_with_nolock hk again) ?_
    intro a t
    refine (mem_bucket_erase_with_nolock hk again a t).trans ?_
    rw [TransCmp.congr_left heq]
    by_cases hka : cmp k a = .eq
    · rw [if_pos hka, and_iff_left hka]
      simp only [reduceCtorEq, iff_false, not_and, not_not]
      intro ha
      have hat : m.stamp a = some t := (h a t).mp ha
      rw [← stamp_congr m hka, hstamp] at hat
      exact Option.some.inj hat
    · rw [if_neg hka]
      exact and_iff_left fun hn => hka hn.2

theorem consistent_erase {m : MyTimeoutMap κ ν cmp} (h : m.Consistent) (k : κ) :
    (m.erase k).Consistent := by
  cases hk : m.values_[k]? with
  | none =>
    rw [erase, erase_with_nolock, hk]
    exact h
  | some vp => exact (consistent_erase_with_nolock_iff h hk k).mpr ReflCmp.compare_self

theorem consistent_movefirst_iff {m : MyTimeoutMap κ ν cmp} (h : m.Consistent) (again : κ) :
    (m.movefirst again).2.Consistent ↔ m.Allowed (.movefirst again) := by
  unfold movefirst Allowed
  cases hmin : m.values_.minKey? with
  | none => simp only [h, reduceCtorEq, false_imp_iff, implies_true]
  | some k =>
    have hmem : k ∈ m.values_ := ExtTreeMap.minKey?_mem hmin
    rw [ExtTreeMap.mem_iff_isSome_getElem?, Option.isSome_iff_exists] at hmem
    obtain ⟨vp, hk⟩ := hmem
    rw [consistent_erase_with_nolock_iff h hk]
    simp only [Option.some.injEq, forall_eq']

theorem consistent_DoTimeout {m : MyTimeoutMap κ ν cmp} (h : m.Consistent) (now : UInt32) :
    (m.DoTimeout now).1.Consistent := by
  rw [consistent_iff_indexes]
  exact ((consistent_iff_indexes m).mp h).restrict (p := fun t => ¬t < now - m.timeout_)
    (stamp_DoTimeout h now) (mem_bucket_DoTimeout m now)

/-- An operation keeps the indexes consistent exactly when it is allowed. -/
theorem consistent_step_iff {m m' : MyTimeoutMap κ ν cmp} (h : m.Consistent) (op : Op κ ν)
    (hstep : m.step op = some m') : m'.Consistent ↔ m.Allowed op := by
  cases op <;> cases hstep
  case insert now k v => exact consistent_insert_iff h now k v
  case update now k => exact iff_of_true (consistent_update h now k) trivial
  case updateValue now k v => exact iff_of_true (consistent_updateValue h now k v) trivial
  case erase k => exact iff_of_true (consistent_erase h k) trivial
  case movefirst again => exact consistent_movefirst_iff h again
  case clear => exact iff_of_true (consistent_empty m.timeout_) trivial
  case set_timeout timeout => exact iff_of_true h trivial
  case DoTimeout now => exact iff_of_true (consistent_DoTimeout h now) trivial

/-- The two indexes agree in every state of a run exactly when every operation of
it is allowed. -/
theorem indexes_consistent_iff_allowed (timeout_ : UInt32) (ops : List (Op κ ν)) :
    (∀ n m, run step (empty timeout_ : MyTimeoutMap κ ν cmp) (ops.take n) = some m →
      m.Consistent) ↔ Along Allowed step (empty timeout_ : MyTimeoutMap κ ν cmp) ops := by
  apply forall_run_take_iff_of_invariant
  · exact fun m h => h
  · intro m op h hsafe
    obtain ⟨m', hm'⟩ : ∃ m', m.step op = some m' := by cases op <;> exact ⟨_, rfl⟩
    exact (consistent_step_iff h op hm').mp (hsafe m' hm')
  · intro m op m' h hallow hm'
    exact (consistent_step_iff h op hm').mpr hallow
  · exact consistent_empty timeout_

/-- Inserted, updated and inserted again in the same second, then taken out while
the freed node still reads as its key. -/
theorem indexes_consistent_of_touched_key :
    ∃ m, run step (empty 30 : MyTimeoutMap ℕ ℕ compare)
      [.insert 100 7 (some 1),.update 101 7,.insert 101 7 (some 2),.movefirst 7,.DoTimeout 200] =
        some m ∧ m.Consistent := by
  have hall : Along Allowed step (empty 30 : MyTimeoutMap ℕ ℕ compare)
      [.insert 100 7 (some 1),.update 101 7,.insert 101 7 (some 2),.movefirst 7,
        .DoTimeout 200] := by
    simp [Along, Allowed, step, empty, insert, update, moveKey, ExtTreeMap.minKey?_insert]
  exact ⟨_, rfl, (indexes_consistent_iff_allowed 30 _).mpr hall 5 _ rfl⟩

/-- A key inserted again a second later is still in the bucket of the first one. -/
theorem not_indexes_consistent : ¬∀ (ops : List (Op ℕ ℕ)) n m,
    run step (empty 30 : MyTimeoutMap ℕ ℕ compare) (ops.take n) = some m → m.Consistent := by
  intro h
  have hlast := h [.insert 100 7 (some 1), .insert 101 7 (some 2)] 2 _ rfl 7 100
  simp [bucket, insert, empty, ExtTreeMap.getD_insert] at hlast

end MyTimeoutMap
end EchoFrame
