import Mathlib.Data.List.Sort
import EchoFrame.PropertyTree
import EchoFrame.Verif.Decimal

/-! Arrays in a `MyPropertyTree`: the elements are children under the decimal texts of their
indices. -/
namespace EchoFrame
open Verif

namespace MyPropertyTreeNode

def is_array (node : MyPropertyTreeNode) : Bool := node.label.type = .array

/-- An element under the next index, and nothing where the node has a value. -/
def add (node : MyPropertyTreeNode) (v : PropertyValue) : MyPropertyTreeNode :=
  if node.label.type ≠ .trunk ∧ node.label.type ≠ .array then node
  else
    let idx := UInt32.ofNat node.childs.size
    (node.put (decimal idx.toNat) (new.set v)).relabel {node.label with type := .array}

/-- `get<std::string>`. No type is all of the three that would give an empty value. -/
def get (node : MyPropertyTreeNode) : List Byte :=
  if node.label.type = .trunk ∧ node.label.type = .array ∧ node.label.type = .null then []
  else node.label.get

def at_ (node : MyPropertyTreeNode) (idx : UInt32) : Except String (List Byte) :=
  if !is_array node then .error "Property is not array"
  else
    match get_child node (decimal idx.toNat) with
    | none => .error "index overflow"
    | some child => .ok (get child)

def get_array (node : MyPropertyTreeNode) : Except String (List (List Byte)) :=
  if !is_array node then .error "Property is not array"
  else .ok (node.childs.toList.map fun it => get it.2)

def array_size (node : MyPropertyTreeNode) : UInt32 := UInt32.ofNat node.childs.size

end MyPropertyTreeNode

namespace PropertyTree
open MyPropertyTreeNode

def pushOn (k : List Byte) (v : PropertyValue) (parent : MyPropertyTreeNode) :
    MyPropertyTreeNode :=
  add_child parent k (add ((get_child parent k).getD MyPropertyTreeNode.new) v)

theorem wellFormed_add {n : MyPropertyTreeNode} (h : n.WellFormed) (v : PropertyValue) :
    (add n v).WellFormed := by
  unfold add
  split
  · exact h
  · exact (KeyedTree.wellFormed_put h (KeyedTree.wellFormed_leaf _) _).relabel _

theorem wellFormed_pushOn {k : List Byte} {v : PropertyValue} (n : MyPropertyTreeNode)
    (h : n.WellFormed) : (pushOn k v n).WellFormed :=
  KeyedTree.wellFormed_put h (wellFormed_add (h.child k) v) k

def push_back (t : PropertyTree) (path k : List Byte) (v : PropertyValue) : PropertyTree :=
  if segments path = [] then t else t.modify (segments path) (pushOn k v) wellFormed_pushOn

def getNode (t : PropertyTree) (path k : List Byte) : Except String MyPropertyTreeNode :=
  if segments path = [] then .error "path is empty"
  else
    match t.root.find (segments path) with
    | none => .error "path not found"
    | some child =>
      match get_child child k with
      | none => .error "key not found"
      | some child => .ok child

def at_ (t : PropertyTree) (path k : List Byte) (idx : UInt32) : Except String (List Byte) :=
  (t.getNode path k).bind fun child => MyPropertyTreeNode.at_ child idx

def get_array (t : PropertyTree) (path k : List Byte) : Except String (List (List Byte)) :=
  (t.getNode path k).bind MyPropertyTreeNode.get_array

/-- The key is not looked at. -/
def array_size (t : PropertyTree) (path _k : List Byte) : Except String UInt32 :=
  if segments path = [] then .error "path is empty"
  else
    match t.root.find (segments path) with
    | none => .ok 0
    | some child => .ok (if is_array child then MyPropertyTreeNode.array_size child else 0)

def pushAll (t : PropertyTree) (path k : List Byte) (vs : List (List Byte)) : PropertyTree :=
  vs.foldl (fun t v => t.push_back path k (.string v)) t

/-- The three ways to an array find a list of texts there. -/
structure HasList (t : PropertyTree) (path k : List Byte) (vs : List (List Byte)) : Prop where
  array_size : ∃ n : UInt32, t.array_size path k = .ok n ∧ n.toNat = vs.length
  at_lt : ∀ (i : UInt32) v, vs[i.toNat]? = some v → t.at_ path k i = .ok v
  at_ge : ∀ i : UInt32, vs.length ≤ i.toNat → ∃ e, t.at_ path k i = .error e
  get_array : t.get_array path k = .ok vs

/-- The node at the end of the path is itself an array, and with one child more it has so many. -/
def ArrayAt (t : PropertyTree) (path : List Byte) (n : ℕ) : Prop :=
  ∃ parent, t.root.find (segments path) = some parent ∧ is_array parent = true ∧
    u32 (parent.childs.size+1) = n

end PropertyTree

def TextLE (i j : ℕ) : Prop := (compare (decimal i) (decimal j)).isLE = true

instance : DecidableRel TextLE := fun i j =>
  inferInstanceAs (Decidable ((compare (decimal i) (decimal j)).isLE = true))

def textOrder (n : ℕ) : List ℕ := (List.range n).insertionSort TextLE

theorem textLE_total (i j : ℕ) : TextLE i j ∨ TextLE j i := by
  unfold TextLE
  by_cases h : (compare (decimal i) (decimal j)).isLE = true
  · exact .inl h
  · exact .inr (Ordering.isLE_of_eq_lt (Std.OrientedCmp.lt_of_not_isLE h))

instance : Std.Total TextLE := ⟨textLE_total⟩

instance : IsTrans ℕ TextLE := ⟨fun _ _ _ hij hjk => Std.TransCmp.isLE_trans hij hjk⟩

theorem mem_textOrder {n i : ℕ} : i ∈ textOrder n ↔ i < n := by
  rw [textOrder, List.mem_insertionSort, List.mem_range]

theorem length_textOrder (n : ℕ) : (textOrder n).length = n := by
  rw [textOrder, List.length_insertionSort, List.length_range]

/-- Different indices have different texts. -/
theorem pairwise_textOrder (n : ℕ) :
    (textOrder n).Pairwise fun i j => compare (decimal i) (decimal j) = .lt := by
  have hle : (textOrder n).Pairwise TextLE := List.pairwise_insertionSort TextLE _
  have hne : (textOrder n).Nodup :=
    (List.perm_insertionSort TextLE (List.range n)).nodup_iff.mpr List.nodup_range
  apply hle.imp₂ _ hne
  intro i j hij hne
  apply (Ordering.isLE_iff_eq_lt_or_eq_eq.mp hij).resolve_right
  intro heq
  exact hne (decimal_injective (Std.LawfulEqCmp.eq_of_compare heq))

/-- From the eleventh on the indices are in another order than their texts. -/
theorem textOrder_of_le {n : ℕ} (h : n ≤ 10) : textOrder n = List.range n := by
  have h10 : (List.range 10).Pairwise TextLE := by decide +kernel
  exact (h10.sublist (List.range_sublist.mpr h)).insertionSort_eq

example : textOrder 12 = [0,1,10,11,2,3,4,5,6,7,8,9] := by decide +kernel

/-- Each text is the same as the one at the index that the order of the texts puts in its place. -/
def InTextOrder (vs : List (List Byte)) : Prop :=
  ∀ i j : ℕ, (textOrder vs.length)[i]? = some j → vs[i]? = vs[j]?

theorem getElem?_eq_getD {vs : List (List Byte)} {i : ℕ} (hi : i < vs.length) :
    vs[i]? = some (vs.getD i []) := by
  rw [List.getD_eq_getElem?_getD, List.getElem?_eq_getElem hi, Option.getD_some]

namespace MyPropertyTreeNode

def textNode (v : List Byte) : MyPropertyTreeNode := new.set (.string v)

def arrayOf (vs : List (List Byte)) : MyPropertyTreeNode :=
  vs.foldl (fun node v => add node (.string v)) new

/-- The node has the elements under the texts of their indices, and nothing else. -/
structure Elements (node : MyPropertyTreeNode) (vs : List (List Byte)) : Prop where
  wf : node.WellFormed
  type : node.label.type = if vs = [] then .trunk else .array
  size : node.childs.size = vs.length
  elem : ∀ i : ℕ, node.childs[decimal i]? = vs[i]?.map textNode
  key : ∀ key c, node.childs[key]? = some c → ∃ i, key = decimal i

variable {node : MyPropertyTreeNode} {vs : List (List Byte)} {v : List Byte}

theorem arrayOf_append (vs : List (List Byte)) (v : List Byte) :
    arrayOf (vs ++ [v]) = add (arrayOf vs) (.string v) := by
  rw [arrayOf, List.foldl_append]
  rfl

theorem elements_nil : Elements new [] where
  wf := KeyedTree.wellFormed_leaf _
  type := rfl
  size := rfl
  elem _ := KeyedTree.childs_leaf _ _
  key key c hc := by
    rw [new, KeyedTree.childs_leaf] at hc
    cases hc

theorem Elements.contains_eq_false (h : Elements node vs) :
    node.childs.contains (decimal vs.length) = false := by
  rw [Std.TreeMap.Raw.contains_eq_isSome_getElem? h.wf.childs, h.elem,
    List.getElem?_eq_none le_rfl]
  rfl

/-- The next index is free until the indices wrap. -/
theorem Elements.add_eq (h : Elements node vs) (hlen : vs.length < 2^32) (v : List Byte) :
    add node (.string v) =
      (node.put (decimal vs.length) (textNode v)).relabel {node.label with type := .array} := by
  have htype : ¬ (node.label.type ≠ .trunk ∧ node.label.type ≠ .array) := by
    rw [h.type]
    split <;> simp
  have hidx : (UInt32.ofNat node.childs.size).toNat = vs.length := by
    rw [h.size, UInt32.toNat_ofNat', Nat.mod_eq_of_lt hlen]
  rw [MyPropertyTreeNode.add, if_neg htype]
  dsimp only
  rw [hidx]
  rfl

theorem Elements.add (h : Elements node vs) (hlen : vs.length < 2^32) (v : List Byte) :
    Elements (add node (.string v)) (vs ++ [v]) := by
  rw [h.add_eq hlen]
  constructor
  case wf => exact (KeyedTree.wellFormed_put h.wf (KeyedTree.wellFormed_leaf _) _).relabel _
  case type =>
    rw [if_neg (List.append_ne_nil_of_right_ne_nil _ (List.cons_ne_nil v []))]
    rfl
  case size =>
    have hsize := Std.TreeMap.Raw.size_insert h.wf.childs (k := decimal vs.length)
      (v := textNode v)
    rw [h.contains_eq_false, h.size] at hsize
    rw [List.length_append]
    exact hsize
  case elem =>
    intro i
    rw [KeyedTree.childs_relabel]
    by_cases hi : vs.length = i
    · rw [← hi, KeyedTree.getElem?_put_self h.wf.childs, List.getElem?_concat_length,
        Option.map_some]
    · rw [KeyedTree.getElem?_put_of_ne h.wf.childs (fun he => hi (decimal_injective he)), h.elem,
        List.getElem?_append]
      split
      · rfl
      · rw [List.getElem?_eq_none (by omega), List.getElem?_eq_none]
        rw [List.length_singleton]
        omega
  case key =>
    intro key c hc
    by_cases hkey : decimal vs.length = key
    · exact ⟨vs.length, hkey.symm⟩
    · rw [KeyedTree.childs_relabel, KeyedTree.getElem?_put_of_ne h.wf.childs hkey] at hc
      exact h.key key c hc

theorem elements_arrayOf (hlen : vs.length ≤ 2^32) : Elements (arrayOf vs) vs := by
  induction vs using List.reverseRecOn with
  | nil => exact elements_nil
  | append_singleton vs v ih =>
    rw [List.length_append, List.length_singleton] at hlen
    rw [arrayOf_append]
    exact (ih (by omega)).add (by omega) v

/-- An index is found by its text. -/
theorem Elements.at_eq (h : Elements node vs) (hne : vs ≠ []) (idx : UInt32) :
    at_ node idx = match vs[idx.toNat]? with
      | some v => .ok v
      | none => .error "index overflow" := by
  have harray : is_array node = true := by
    rw [is_array, h.type, if_neg hne]
    rfl
  rw [at_, harray, Bool.not_true, if_neg Bool.false_ne_true, get_child, h.elem]
  cases vs[idx.toNat]? <;> rfl

/-- The map has the elements in the order of the texts of their indices. -/
theorem Elements.get_array_eq (h : Elements node vs) (hne : vs ≠ []) :
    get_array node = .ok ((textOrder vs.length).map fun i => vs.getD i []) := by
  have harray : is_array node = true := by
    rw [is_array, h.type, if_neg hne]
    rfl
  have hlist : node.childs.toList =
      (textOrder vs.length).map fun i => (decimal i, textNode (vs.getD i [])) := by
    apply toList_eq_of_pairwise h.wf.childs
    · exact List.pairwise_map.mpr (pairwise_textOrder vs.length)
    · intro key c
      rw [List.mem_map]
      constructor
      · rintro ⟨i, hi, heq⟩
        cases heq
        have hlt := mem_textOrder.mp hi
        rw [h.elem, getElem?_eq_getD hlt, Option.map_some]
      · intro hc
        obtain ⟨i, rfl⟩ := h.key key c hc
        rw [h.elem, Option.map_eq_some_iff] at hc
        obtain ⟨v, hv, rfl⟩ := hc
        refine ⟨i, mem_textOrder.mpr (List.getElem?_eq_some_iff.mp hv).1, ?_⟩
        rw [List.getD_eq_getElem?_getD, hv, Option.getD_some]
  rw [get_array, harray, Bool.not_true, if_neg Bool.false_ne_true, hlist, List.map_map]
  rfl

end MyPropertyTreeNode

theorem inTextOrder_iff {vs : List (List Byte)} :
    InTextOrder vs ↔ ((textOrder vs.length).map fun i => vs.getD i []) = vs := by
  have hplace {i j : ℕ} (hj : (textOrder vs.length)[i]? = some j) : vs[j]? = some (vs.getD j []) := by
    have hlt := mem_textOrder.mp (List.mem_of_getElem? hj)
    exact getElem?_eq_getD hlt
  constructor
  · intro h
    apply List.ext_getElem?
    intro i
    rw [List.getElem?_map]
    cases hj : (textOrder vs.length)[i]? with
    | none =>
      rw [List.getElem?_eq_none_iff, length_textOrder] at hj
      rw [List.getElem?_eq_none hj, Option.map_none]
    | some j => rw [h i j hj, hplace hj, Option.map_some]
  · intro h i j hj
    rw [← h, List.getElem?_map, hj, Option.map_some, h, hplace hj]

theorem inTextOrder_of_length_le {vs : List (List Byte)} (h : vs.length ≤ 10) : InTextOrder vs := by
  intro i j hj
  rw [textOrder_of_le h] at hj
  obtain ⟨hi, rfl⟩ := List.getElem?_eq_some_iff.mp hj
  rw [List.getElem_range]

namespace PropertyTree
open MyPropertyTreeNode

/-- What the pushes under a fresh key make of the node at the end of the path. -/
structure Pushed (k : List Byte) (parent node : MyPropertyTreeNode) (vs : List (List Byte)) :
    Prop where
  wf : node.WellFormed
  label : node.label = parent.label
  child : get_child node k = if vs = [] then none else some (arrayOf vs)
  size : node.childs.size = if vs = [] then parent.childs.size else parent.childs.size+1

variable {t : PropertyTree} {path k : List Byte} {vs : List (List Byte)}
  {parent node : MyPropertyTreeNode}

theorem Pushed.pushOn (h : Pushed k parent node vs) (v : List Byte) :
    Pushed k parent (pushOn k (.string v) node) (vs ++ [v]) := by
  have hne : vs ++ [v] ≠ [] := List.append_ne_nil_of_right_ne_nil _ (List.cons_ne_nil v [])
  have harray : (get_child node k).getD MyPropertyTreeNode.new = arrayOf vs := by
    rw [h.child]
    split
    · next hvs =>
      rw [hvs]
      rfl
    · rfl
  have hpush : PropertyTree.pushOn k (.string v) node = node.put k (arrayOf (vs ++ [v])) := by
    rw [PropertyTree.pushOn, harray, arrayOf_append]
    rfl
  constructor
  case wf => exact wellFormed_pushOn node h.wf
  case label =>
    rw [hpush]
    exact h.label
  case child => rw [hpush, if_neg hne, get_child, KeyedTree.getElem?_put_self h.wf.childs]
  case size =>
    have hsize := Std.TreeMap.Raw.size_insert h.wf.childs (k := k) (v := arrayOf (vs ++ [v]))
    have hk := h.child
    rw [get_child] at hk
    rw [Std.TreeMap.Raw.contains_eq_isSome_getElem? h.wf.childs, hk, h.size] at hsize
    rw [hpush, if_neg hne]
    refine hsize.trans ?_
    split <;> rfl

theorem pushAll_append (t : PropertyTree) (path k : List Byte) (vs : List (List Byte))
    (v : List Byte) :
    t.pushAll path k (vs ++ [v]) = (t.pushAll path k vs).push_back path k (.string v) := by
  rw [pushAll, List.foldl_append]
  rfl

theorem find_push_back (h : segments path ≠ []) (t : PropertyTree) (k : List Byte)
    (v : PropertyValue) :
    (t.push_back path k v).root.find (segments path) =
      some (pushOn k v (t.root.nodeAt {} (segments path))) := by
  rw [push_back, if_neg h]
  exact KeyedTree.find_modifyAt_self t.wf _

theorem pushed_pushAll (h : segments path ≠ []) (hfresh : t.root.find (location path k) = none)
    (vs : List (List Byte)) :
    Pushed k (t.root.nodeAt {} (segments path))
      ((t.pushAll path k vs).root.nodeAt {} (segments path)) vs := by
  induction vs using List.reverseRecOn with
  | nil =>
    have hnone : get_child (t.root.nodeAt {} (segments path)) k = none := by
      rw [get_child, ← KeyedTree.find_singleton, KeyedTree.find_nodeAt_cons]
      exact hfresh
    exact ⟨t.wf.nodeAt _, rfl, hnone, rfl⟩
  | append_singleton vs v ih =>
    rw [pushAll_append, KeyedTree.nodeAt.eq_1 _ (push_back _ _ _ _).root, find_push_back h,
      Option.getD_some]
    exact ih.pushOn v

theorem find_pushAll (h : segments path ≠ []) (hvs : vs ≠ []) (t : PropertyTree) (k : List Byte) :
    (t.pushAll path k vs).root.find (segments path) =
      some ((t.pushAll path k vs).root.nodeAt {} (segments path)) := by
  obtain ⟨ws, v, rfl⟩ := (List.eq_nil_or_concat vs).resolve_left hvs
  rw [List.concat_eq_append, pushAll_append, KeyedTree.nodeAt, find_push_back h, Option.getD_some]

theorem getNode_pushAll (h : segments path ≠ []) (hvs : vs ≠ [])
    (hfresh : t.root.find (location path k) = none) :
    (t.pushAll path k vs).getNode path k = .ok (arrayOf vs) := by
  rw [getNode, if_neg h, find_pushAll h hvs]
  dsimp only
  rw [(pushed_pushAll h hfresh vs).child, if_neg hvs]

theorem array_size_pushAll (h : segments path ≠ []) (hvs : vs ≠ [])
    (hfresh : t.root.find (location path k) = none) :
    (t.pushAll path k vs).array_size path k =
      .ok (if is_array (t.root.nodeAt {} (segments path)) then
        UInt32.ofNat ((t.root.nodeAt {} (segments path)).childs.size+1) else 0) := by
  have hpushed := pushed_pushAll h hfresh vs
  rw [array_size, if_neg h, find_pushAll h hvs]
  dsimp only
  rw [is_array, hpushed.label, MyPropertyTreeNode.array_size, hpushed.size, if_neg hvs, is_array]

/-- The elements are found one by one by their indices. -/
theorem at_pushAll (h : segments path ≠ []) (hvs : vs ≠ [])
    (hfresh : t.root.find (location path k) = none) (hlen : vs.length ≤ 2^32) (idx : UInt32) :
    (t.pushAll path k vs).at_ path k idx = match vs[idx.toNat]? with
      | some v => .ok v
      | none => .error "index overflow" := by
  rw [PropertyTree.at_, getNode_pushAll h hvs hfresh]
  exact (elements_arrayOf hlen).at_eq hvs idx

/-- All together they come in the order of the texts of their indices. -/
theorem get_array_pushAll (h : segments path ≠ []) (hvs : vs ≠ [])
    (hfresh : t.root.find (location path k) = none) (hlen : vs.length ≤ 2^32) :
    (t.pushAll path k vs).get_array path k =
      .ok ((textOrder vs.length).map fun i => vs.getD i []) := by
  rw [PropertyTree.get_array, getNode_pushAll h hvs hfresh]
  exact (elements_arrayOf hlen).get_array_eq hvs

/-- The number of elements is that of the children of the parent, if that is an array. -/
theorem exists_array_size_iff (h : segments path ≠ []) (hvs : vs ≠ [])
    (hfresh : t.root.find (location path k) = none) :
    (∃ n : UInt32, (t.pushAll path k vs).array_size path k = .ok n ∧ n.toNat = vs.length) ↔
      t.ArrayAt path vs.length := by
  have hpos := List.length_pos_of_ne_nil hvs
  rw [array_size_pushAll h hvs hfresh]
  constructor
  · rintro ⟨n, hn, hlen⟩
    obtain rfl := Except.ok.inj hn
    cases hfind : t.root.find (segments path) with
    | none =>
      rw [KeyedTree.nodeAt, hfind] at hlen
      exact absurd hlen hpos.ne
    | some parent =>
      rw [KeyedTree.nodeAt, hfind, Option.getD_some] at hlen
      refine ⟨parent, hfind, ?_⟩
      split at hlen
      · next harray => exact ⟨harray, hlen⟩
      · exact absurd hlen hpos.ne
  · rintro ⟨parent, hfind, harray, hlen⟩
    rw [KeyedTree.nodeAt, hfind, Option.getD_some, if_pos harray]
    exact ⟨_, rfl, hlen⟩

theorem ArrayAt.le {n : ℕ} (h : t.ArrayAt path n) : n ≤ 2^32 := by
  obtain ⟨parent, -, -, hsize⟩ := h
  rw [← hsize]
  exact (u32_lt _).le

/-- A list needs a place in the tree. -/
theorem HasList.segments_ne_nil (h : HasList t path k vs) : segments path ≠ [] := by
  intro hnil
  obtain ⟨n, hn, -⟩ := h.array_size
  rw [PropertyTree.array_size, if_pos hnil] at hn
  cases hn

/-- Nothing is made for an empty list, which is not found then. -/
theorem HasList.ne_nil (h : HasList t path k vs) (hfresh : t.root.find (location path k) = none) :
    vs ≠ [] := by
  rintro rfl
  have hget := h.get_array
  rw [PropertyTree.get_array, getNode, if_neg h.segments_ne_nil] at hget
  rw [location, KeyedTree.find_append] at hfresh
  cases hfind : t.root.find (segments path) with
  | none =>
    rw [hfind] at hget
    cases hget
  | some parent =>
    rw [hfind, Option.bind_some, KeyedTree.find_singleton] at hfresh
    rw [hfind] at hget
    dsimp only at hget
    rw [get_child, hfresh] at hget
    cases hget

/-- Texts that are pushed under a fresh key are found there as a list exactly where there are
some, in an order that is also that of the texts of their indices, and the parent happens to be
an array of the same size. -/
theorem hasList_pushAll_iff (t : PropertyTree) (path k : List Byte) (vs : List (List Byte))
    (hfresh : t.root.find (location path k) = none) :
    HasList (t.pushAll path k vs) path k vs ↔
      segments path ≠ [] ∧ vs ≠ [] ∧ InTextOrder vs ∧ t.ArrayAt path vs.length := by
  constructor
  · intro h
    have hpath := h.segments_ne_nil
    have hvs : vs ≠ [] := by
      rintro rfl
      exact h.ne_nil hfresh rfl
    have harray := (exists_array_size_iff hpath hvs hfresh).mp h.array_size
    have hget := h.get_array
    rw [get_array_pushAll hpath hvs hfresh harray.le] at hget
    exact ⟨hpath, hvs, inTextOrder_iff.mpr (Except.ok.inj hget), harray⟩
  · rintro ⟨hpath, hvs, horder, harray⟩
    have hat := at_pushAll hpath hvs hfresh harray.le
    constructor
    case array_size => exact (exists_array_size_iff hpath hvs hfresh).mpr harray
    case at_lt =>
      intro i v hv
      rw [hat, hv]
    case at_ge =>
      intro i hi
      rw [hat, List.getElem?_eq_none hi]
      exact ⟨_, rfl⟩
    case get_array =>
      rw [get_array_pushAll hpath hvs hfresh harray.le, inTextOrder_iff.mp horder]

/-- Two texts under a new key of an array that has one element. -/
theorem hasList_two :
    let t := new.push_back [97] [98] (.string [120])
    HasList (t.pushAll [97,47,98] [107] [[121],[122]]) [97,47,98] [107] [[121],[122]] := by
  intro t
  apply (hasList_pushAll_iff t _ _ _ (by decide +kernel)).mpr
  refine ⟨by decide, by decide, inTextOrder_of_length_le (by decide), ?_⟩
  exact ⟨_, rfl, rfl, by decide +kernel⟩

/-- One text in a new tree: the array has the size 0. Eleven texts in a new tree: the last one
comes third. -/
theorem not_hasList :
    new.root.find (location [97] [107]) = none ∧
      (new.pushAll [97] [107] [[118]]).array_size [97] [107] = .ok 0 ∧
      ¬ HasList (new.pushAll [97] [107] [[118]]) [97] [107] [[118]] ∧
      (new.pushAll [97] [107] ((List.range 11).map decimal)).get_array [97] [107] =
        .ok ([0,1,10,2,3,4,5,6,7,8,9].map decimal) := by
  have hsize : (new.pushAll [97] [107] [[118]]).array_size [97] [107] = .ok 0 := by decide +kernel
  refine ⟨rfl, hsize, ?_, by decide +kernel⟩
  intro h
  obtain ⟨n, hn, hlen⟩ := h.array_size
  rw [hsize] at hn
  cases hn
  exact absurd hlen (by decide)

end PropertyTree

end EchoFrame
