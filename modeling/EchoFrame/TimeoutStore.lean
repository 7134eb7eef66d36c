import EchoFrame.TimeoutExpiry

/-! `MyTimeoutMap` as a store: the entry under each key, whatever the buckets are. -/
namespace EchoFrame
open Verif Std

variable {κ ν : Type} {cmp : κ → κ → Ordering}

/-- What the map is for: each key has an entry or none, and entries grow old. -/
structure TimedStore (κ ν : Type) where
  entries : κ → Option (ValueWrapper ν)
  timeout_ : UInt32

namespace TimedStore

def First (cmp : κ → κ → Ordering) (s : TimedStore κ ν) (k : κ) : Prop :=
  ∀ a, (s.entries a).isSome → (cmp k a).isLE

/-- The entry under `k`, for all keys that compare equal to it. -/
def modify (cmp : κ → κ → Ordering) (s : TimedStore κ ν) (k : κ)
    (f : Option (ValueWrapper ν) → Option (ValueWrapper ν)) : TimedStore κ ν :=
  { s with entries := fun a => if cmp k a = .eq then f (s.entries a) else s.entries a }

open Classical in
noncomputable def step (cmp : κ → κ → Ordering) (s : TimedStore κ ν) :
    MyTimeoutMap.Op κ ν → TimedStore κ ν
  | .insert now k v => s.modify cmp k fun _ => some ⟨now, v⟩
  | .update now k => s.modify cmp k fun entry => entry.map fun w => ⟨now, w.v_⟩
  | .updateValue now k v => s.modify cmp k fun entry => entry.map fun _ => ⟨now, v⟩
  | .erase k => s.modify cmp k fun _ => none
  | .movefirst _ => { s with entries := fun a => if s.First cmp a then none else s.entries a }
  | .clear => { s with entries := fun _ => none }
  | .set_timeout timeout => { s with timeout_ := timeout }
  | .DoTimeout now =>
    { s with entries := fun a => (s.entries a).filter fun w => ¬w.ts_ < now - s.timeout_ }

/-- The store after some operations on an empty one. -/
noncomputable def after (cmp : κ → κ → Ordering) (timeout_ : UInt32)
    (ops : List (MyTimeoutMap.Op κ ν)) : TimedStore κ ν :=
  ops.foldl (step cmp) ⟨fun _ => none, timeout_⟩

end TimedStore

namespace MyTimeoutMap

variable [TransCmp cmp] {m m' : MyTimeoutMap κ ν cmp}

def find (m : MyTimeoutMap κ ν cmp) (k : κ) : Option ν := (m.values_[k]?).bind (·.v_)

/-- `size` has 32 bits. -/
def size (m : MyTimeoutMap κ ν cmp) : UInt32 := UInt32.ofNat m.values_.size

def store (m : MyTimeoutMap κ ν cmp) : TimedStore κ ν := ⟨fun k => m.values_[k]?, m.timeout_⟩

theorem entries_of_empty (hempty : m.values_ = ∅) (k : κ) : m.store.entries k = none := by
  have hnone : m.values_[k]? = none := by
    rw [hempty]
    exact ExtTreeMap.getElem?_empty
  exact hnone

theorem store_of_values_insert {k : κ} {w : ValueWrapper ν}
    (hvalues : m'.values_ = m.values_.insert k w) (htimeout : m'.timeout_ = m.timeout_) :
    m'.store = m.store.modify cmp k fun _ => some w := by
  unfold store TimedStore.modify
  rw [hvalues, htimeout]
  simp only [ExtTreeMap.getElem?_insert]

theorem store_of_values_erase {k : κ} (hvalues : m'.values_ = m.values_.erase k)
    (htimeout : m'.timeout_ = m.timeout_) :
    m'.store = m.store.modify cmp k fun _ => none := by
  unfold store TimedStore.modify
  rw [hvalues, htimeout]
  simp only [ExtTreeMap.getElem?_erase]

/-- A key without an entry is not touched. -/
theorem modify_of_absent {k : κ} (habsent : m.values_[k]? = none)
    {f : Option (ValueWrapper ν) → Option (ValueWrapper ν)} (hf : f none = none) :
    m.store.modify cmp k f = m.store := by
  unfold store TimedStore.modify
  congr 1
  funext a
  split
  · next heq =>
    dsimp only
    rw [← ExtTreeMap.getElem?_congr heq, habsent, hf]
  · rfl

/-- Under a key that is there, only its own entry is asked for. -/
theorem modify_of_present {k : κ} {w : ValueWrapper ν} (hpresent : m.values_[k]? = some w)
    (f : Option (ValueWrapper ν) → Option (ValueWrapper ν)) :
    m.store.modify cmp k f = m.store.modify cmp k fun _ => f (some w) := by
  unfold store TimedStore.modify
  congr 1
  funext a
  split
  · next heq =>
    dsimp only
    rw [← ExtTreeMap.getElem?_congr heq, hpresent]
  · rfl

/-- The first key of the map is first in the store, and no other one is. -/
theorem first_iff {k a : κ} (hmin : m.values_.minKey? = some k) :
    (m.store.First cmp a ∧ (m.store.entries a).isSome) ↔ cmp k a = .eq := by
  have hle := (ExtTreeMap.minKey?_eq_some_iff_getKey?_eq_self_and_forall.mp hmin).2
  have hmem : k ∈ m.values_ := ExtTreeMap.minKey?_mem hmin
  constructor
  · rintro ⟨hfirst, ha⟩
    have hka := hle a (ExtTreeMap.mem_iff_isSome_getElem?.mpr ha)
    have hak := hfirst k (ExtTreeMap.mem_iff_isSome_getElem?.mp hmem)
    exact OrientedCmp.isLE_antisymm hka hak
  · intro heq
    constructor
    · intro b hb
      have hkb := hle b (ExtTreeMap.mem_iff_isSome_getElem?.mpr hb)
      rwa [TransCmp.congr_left heq] at hkb
    · have ha : a ∈ m.values_ := (ExtTreeMap.mem_congr heq).mp hmem
      exact ExtTreeMap.mem_iff_isSome_getElem?.mp ha

theorem store_update (now : UInt32) (k : κ) :
    (m.update now k).store = m.store.modify cmp k fun entry => entry.map fun w => ⟨now, w.v_⟩ := by
  cases hk : m.values_[k]? with
  | none =>
    rw [update, hk]
    exact (modify_of_absent hk rfl).symm
  | some vp =>
    rw [update, hk, modify_of_present hk]
    exact store_of_values_insert rfl rfl

theorem store_updateValue (now : UInt32) (k : κ) (v : Option ν) :
    (m.updateValue now k v).store =
      m.store.modify cmp k fun entry => entry.map fun _ => ⟨now, v⟩ := by
  cases hk : m.values_[k]? with
  | none =>
    rw [updateValue, hk]
    exact (modify_of_absent hk rfl).symm
  | some vp =>
    rw [updateValue, hk, modify_of_present hk]
    exact store_of_values_insert rfl rfl

theorem store_erase_with_nolock (k again : κ) :
    (m.erase_with_nolock k again).store = m.store.modify cmp k fun _ => none := by
  cases hk : m.values_[k]? with
  | none =>
    rw [erase_with_nolock, hk]
    exact (modify_of_absent hk rfl).symm
  | some vp =>
    rw [erase_with_nolock, hk]
    exact store_of_values_erase rfl rfl

open Classical in
theorem store_movefirst (again : κ) : (m.movefirst again).2.store =
    { m.store with
      entries := fun a => if m.store.First cmp a then none else m.store.entries a } := by
  cases hmin : m.values_.minKey? with
  | none =>
    have hempty : m.values_ = ∅ := ExtTreeMap.minKey?_eq_none_iff.mp hmin
    rw [movefirst, hmin]
    have hnone (a : κ) : m.store.entries a = none := entries_of_empty hempty a
    simp only [hnone, ite_self]
    unfold store
    simp only [hempty, ExtTreeMap.getElem?_empty]
  | some k =>
    rw [movefirst, hmin]
    dsimp only
    rw [store_erase_with_nolock]
    unfold TimedStore.modify
    congr 1
    funext a
    cases ha : m.store.entries a with
    | none => rw [ite_self, ite_self]
    | some w =>
      have hfirst : m.store.First cmp a ↔ cmp k a = .eq := by
        rw [← first_iff hmin, ha]
        exact (and_iff_left rfl).symm
      simp only [hfirst]

theorem store_DoTimeout (h : m.Consistent) (now : UInt32) : (m.DoTimeout now).1.store =
    { m.store with
      entries := fun a => (m.store.entries a).filter fun w => ¬w.ts_ < now - m.timeout_ } := by
  unfold store
  congr 1
  funext a
  apply Option.ext
  intro w
  rw [getElem?_DoTimeout h, Option.filter_eq_some_iff, decide_eq_true_iff]

/-- Every operation does to the entries what it does to the store. -/
theorem store_step (h : m.Consistent) {op : Op κ ν} (hstep : m.step op = some m') :
    m'.store = m.store.step cmp op := by
  cases op with
  | insert now k v =>
    cases hstep
    exact store_of_values_insert rfl rfl
  | update now k =>
    cases hstep
    exact store_update now k
  | updateValue now k v =>
    cases hstep
    exact store_updateValue now k v
  | erase k =>
    cases hstep
    exact store_erase_with_nolock k k
  | movefirst again =>
    cases hstep
    exact store_movefirst again
  | clear =>
    cases hstep
    unfold store TimedStore.step clear
    simp only [ExtTreeMap.getElem?_empty]
  | set_timeout timeout =>
    cases hstep
    rfl
  | DoTimeout now =>
    cases hstep
    exact store_DoTimeout h now

/-- What a caller sees of a map is what the store holds. `expired` is what the next `DoTimeout`
reports. -/
structure Shows (m : MyTimeoutMap κ ν cmp) (s : TimedStore κ ν) : Prop where
  find : ∀ k, m.find k = (s.entries k).bind (·.v_)
  size : ∃ keys : List κ, keys.Pairwise (fun a b => cmp a b = .lt) ∧
    (∀ k, (s.entries k).isSome ↔ ∃ a ∈ keys, cmp a k = .eq) ∧
    m.size = UInt32.ofNat keys.length
  first : ∀ again k w, s.First cmp k → s.entries k = some w → (m.movefirst again).1 = w.v_
  last : ∀ again, (∀ k, s.entries k = none) → (m.movefirst again).1 = none
  expired : ∀ now k v, (∃ c ∈ (m.DoTimeout now).2, cmp c.1 k = .eq ∧ c.2 = v) ↔
    ∃ w, s.entries k = some w ∧ w.v_ = v ∧ w.ts_ < now - s.timeout_

theorem shows_store (h : m.Consistent) : m.Shows m.store where
  find := fun _ => rfl
  size := by
    refine ⟨m.values_.keys, ExtTreeMap.ordered_keys, fun k => ?_, ?_⟩
    · have hkeys : k ∈ m.values_ ↔ ∃ a ∈ m.values_.keys, cmp a k = .eq := by
        rw [ExtTreeMap.mem_iff_isSome_getElem?, Option.isSome_iff_exists]
        simp only [ExtTreeMap.getElem?_eq_some_iff_exists_compare_eq_eq_and_mem_toList,
          ← ExtTreeMap.map_fst_toList_eq_keys, List.mem_map]
        constructor
        · rintro ⟨w, a, heq, hmem⟩
          exact ⟨a, ⟨(a, w), hmem, rfl⟩, OrientedCmp.eq_symm heq⟩
        · rintro ⟨_, ⟨⟨a, w⟩, hmem, rfl⟩, heq⟩
          exact ⟨w, a, OrientedCmp.eq_symm heq, hmem⟩
      rw [← hkeys]
      exact ExtTreeMap.mem_iff_isSome_getElem?.symm
    · rw [ExtTreeMap.length_keys]
      rfl
  first := by
    intro again k w hfirst hk
    cases hmin : m.values_.minKey? with
    | none =>
      have hempty : m.values_ = ∅ := ExtTreeMap.minKey?_eq_none_iff.mp hmin
      rw [entries_of_empty hempty] at hk
      cases hk
    | some least =>
      have heq : cmp least k = .eq := by
        apply (first_iff hmin).mp
        rw [hk]
        exact ⟨hfirst, rfl⟩
      have hleast : m.values_[least]? = some w := (ExtTreeMap.getElem?_congr heq).trans hk
      rw [movefirst, hmin]
      dsimp only
      rw [hleast]
      rfl
  last := by
    intro again hnone
    cases hmin : m.values_.minKey? with
    | none => rw [movefirst, hmin]
    | some least =>
      rw [movefirst, hmin]
      dsimp only
      rw [show m.values_[least]? = none from hnone least]
      rfl
  expired := reported_iff h

/-- After any operations that keep the indexes consistent, a caller cannot tell the map from
the store that the same operations give. -/
theorem shows_after (timeout_ : UInt32) (ops : List (Op κ ν))
    (hallowed : Along Allowed step (empty timeout_ : MyTimeoutMap κ ν cmp) ops) :
    ∃ m, run step (empty timeout_ : MyTimeoutMap κ ν cmp) ops = some m ∧
      m.Shows (TimedStore.after cmp timeout_ ops) := by
  have hempty : (empty timeout_ : MyTimeoutMap κ ν cmp).store = ⟨fun _ => none, timeout_⟩ := by
    unfold store empty
    simp only [ExtTreeMap.getElem?_empty]
  have hstep : ∀ (m : MyTimeoutMap κ ν cmp) s op, (m.Consistent ∧ m.store = s) → m.Allowed op →
      ∃ m', m.step op = some m' ∧ (m'.Consistent ∧ m'.store = TimedStore.step cmp s op) := by
    rintro m s op ⟨hconsistent, rfl⟩ hop
    obtain ⟨m', hm'⟩ : ∃ m', m.step op = some m' := by cases op <;> exact ⟨_, rfl⟩
    exact ⟨m', hm', (consistent_step_iff hconsistent op hm').mpr hop,
      store_step hconsistent hm'⟩
  obtain ⟨m, hrun, hconsistent, hstore⟩ :=
    simulation_of_run hstep ⟨consistent_empty timeout_, hempty⟩ hallowed
  have hshows := shows_store hconsistent
  rw [hstore] at hshows
  exact ⟨m, hrun, hshows⟩

/-- Key 7 is updated with another value, key 8 is taken out as expired, key 9 is looked for. -/
theorem shows_after_two_keys :
    ∃ m, run step (empty 30 : MyTimeoutMap ℕ ℕ compare)
      [.insert 100 7 (some 1), .insert 101 8 (some 2), .updateValue 140 7 (some 3),
        .DoTimeout 150] = some m ∧
      m.Shows (TimedStore.after compare 30 [.insert 100 7 (some 1), .insert 101 8 (some 2),
        .updateValue 140 7 (some 3), .DoTimeout 150]) ∧
      m.find 7 = some 3 ∧ m.find 8 = none ∧ m.find 9 = none := by
  have hall : Along Allowed step (empty 30 : MyTimeoutMap ℕ ℕ compare)
      [.insert 100 7 (some 1), .insert 101 8 (some 2), .updateValue 140 7 (some 3),
        .DoTimeout 150] := by
    simp [Along, Allowed, step, empty, insert]
  obtain ⟨m, hrun, hshows⟩ := shows_after 30 _ hall
  refine ⟨m, hrun, hshows, ?_⟩
  cases hrun
  decide

end MyTimeoutMap

end EchoFrame
