import EchoFrame.SplitLoop
import EchoFrame.Verif.KeyedTree

/-! `set`, `get` and `GetAllKeys` of a `MyPropertyTree`, where leaves and inner nodes share the
maps of children. -/
namespace EchoFrame
open Verif

inductive PropertyType
  | string
  | bool
  | null
  | integral
  | floating
  | array
  | trunk
  deriving DecidableEq, Repr

/-- `std::variant<int64_t, bool, double, std::string>`, a `double` by its bits. -/
inductive PropertyValue
  | integral (v : Int64)
  | bool (v : Bool)
  | floating (bits : UInt64)
  | string (v : List Byte)
  deriving DecidableEq

/-- What a node has besides its children. Its key is the one that it has among them. -/
structure MyProperty where
  type : PropertyType := .trunk
  v : PropertyValue := .integral 0
  deriving DecidableEq

abbrev MyPropertyTreeNode := KeyedTree (List Byte) MyProperty compare

namespace MyProperty

/-- `get<std::string>`: where the variant holds something else the exception is caught. -/
def get (property : MyProperty) : List Byte :=
  match property.v with
  | .string v => v
  | .integral _ | .bool _ | .floating _ => []

def set (property : MyProperty) : PropertyValue → MyProperty
  | .integral v => {property with type := .integral, v := .integral v}
  | .bool v => {property with type := .bool, v := .bool v}
  | .floating v => {property with type := .floating, v := .floating v}
  | .string v => {property with type := .string, v := .string v}

end MyProperty

namespace MyPropertyTreeNode

def new : MyPropertyTreeNode := .leaf {}

def set (node : MyPropertyTreeNode) (v : PropertyValue) : MyPropertyTreeNode :=
  node.relabel (node.label.set v)

def get_child (node : MyPropertyTreeNode) (k : List Byte) : Option MyPropertyTreeNode :=
  node.childs[k]?

def add_child (node : MyPropertyTreeNode) (k : List Byte) (child : MyPropertyTreeNode) :
    MyPropertyTreeNode :=
  node.put k child

end MyPropertyTreeNode

theorem isSome_segments (path : List Byte) : (MyCommon.split id path [47] true).isSome = true := by
  rw [MyCommon.split_words]
  rfl

def segments (path : List Byte) : List (List Byte) :=
  (MyCommon.split id path [47] true).get (isSome_segments path)

def location (path k : List Byte) : List (List Byte) := segments path ++ [k]

structure PropertyTree where
  root : MyPropertyTreeNode
  wf : root.WellFormed

namespace PropertyTree
open MyPropertyTreeNode

def new : PropertyTree := ⟨MyPropertyTreeNode.new, KeyedTree.wellFormed_leaf _⟩

def modify (t : PropertyTree) (path : List (List Byte))
    (f : MyPropertyTreeNode → MyPropertyTreeNode)
    (hf : ∀ n, n.WellFormed → (f n).WellFormed) : PropertyTree :=
  ⟨KeyedTree.modifyAt {} f path t.root, KeyedTree.wellFormed_modifyAt hf t.wf path⟩

theorem wellFormed_set {k : List Byte} {v : PropertyValue} (n : MyPropertyTreeNode)
    (h : n.WellFormed) : (n.add_child k (MyPropertyTreeNode.new.set v)).WellFormed :=
  KeyedTree.wellFormed_put h (KeyedTree.wellFormed_leaf _) k

def set (t : PropertyTree) (path k : List Byte) (v : PropertyValue) : PropertyTree :=
  if segments path = [] then t
  else t.modify (segments path) (fun parent => parent.add_child k (MyPropertyTreeNode.new.set v))
    wellFormed_set

def get (t : PropertyTree) (path k v : List Byte) : List Byte :=
  if segments path = [] then v
  else
    match t.root.find (segments path) with
    | none => v
    | some child =>
      match get_child child k with
      | none => v
      | some child => child.label.get

/-- `none` where a null pointer is dereferenced. -/
def GetAllKeys (t : PropertyTree) (path : List Byte) : Option (List (List Byte)) :=
  if segments path = [] then some []
  else (t.root.find (segments path)).map fun child => child.childs.keys

def afterSets (calls : List (List Byte × List Byte × List Byte)) : PropertyTree :=
  calls.foldl (fun t call => t.set call.1 call.2.1 (.string call.2.2)) new

end PropertyTree

/-- The text at each location that has a node. Inner nodes have an empty one. -/
abbrev PropertyStore := List (List Byte) → Option (List Byte)

namespace PropertyStore

/-- A text takes the place of all that was below its location, and the nodes on the way to it
are there from then on. -/
def set (s : PropertyStore) (p : List (List Byte)) (k v : List Byte) : PropertyStore := fun q =>
  if p ++ [k] <+: q then (if q = p ++ [k] then some v else none)
  else if q <+: p then some ((s q).getD [])
  else s q

def Blank (s : PropertyStore) (q : List (List Byte)) : Prop := ∀ v, s q = some v → v = []

variable {s : PropertyStore} {p q : List (List Byte)} {k v : List Byte}

theorem set_self (s : PropertyStore) (p : List (List Byte)) (k v : List Byte) :
    s.set p k v (p ++ [k]) = some v := by
  rw [set, if_pos List.prefix_rfl, if_pos rfl]

theorem set_of_ne (s : PropertyStore) (hq : q ≠ p ++ [k]) (v : List Byte) :
    s.set p k v q = if p ++ [k] <+: q then none
      else if q <+: p then some ((s q).getD []) else s q := by
  rw [set, if_neg hq]

theorem Blank.set (h : s.Blank q) (hq : q ≠ p ++ [k]) (v : List Byte) : (s.set p k v).Blank q := by
  intro w hw
  rw [set_of_ne s hq] at hw
  split at hw
  · cases hw
  · split at hw
    · cases hw
      cases hs : s q with
      | none => rfl
      | some u => exact h u hs
    · exact h w hw

end PropertyStore

namespace PropertyTree
open MyPropertyTreeNode

def view (t : PropertyTree) : PropertyStore := fun q => (t.root.labelAt q).map MyProperty.get

/-- What `set`, `get` and `GetAllKeys` of a tree promise of each other after the calls of `set`. -/
structure Lawful (t : PropertyTree) (calls : List (List Byte × List Byte × List Byte)) : Prop where
  get_set : ∀ path k v d, segments path ≠ [] → (t.set path k (.string v)).get path k d = v
  frame : ∀ path k v path' k' d, segments path ≠ [] → segments path' ≠ [] →
    location path' k' ≠ location path k →
    (t.set path k (.string v)).get path' k' d =
      if location path k <+: location path' k' then d
      else if location path' k' <+: segments path ∧ t.root.find (location path' k') = none then []
      else t.get path' k' d
  unset : ∀ path k d, segments path ≠ [] →
    (∀ call ∈ calls, segments call.1 ≠ [] → location call.1 call.2.1 ≠ location path k) →
    t.get path k d = if (t.root.find (location path k)).isSome then [] else d
  keys : ∀ path, segments path ≠ [] → (t.root.find (segments path)).isSome →
    ∃ keys, t.GetAllKeys path = some keys ∧ keys.Nodup ∧
      ∀ k, k ∈ keys ↔ (t.root.find (location path k)).isSome

variable {t : PropertyTree} {path k v : List Byte} {q : List (List Byte)}

theorem view_eq_none_iff : t.view q = none ↔ t.root.find q = none := by
  rw [view, Option.map_eq_none_iff, KeyedTree.labelAt, Option.map_eq_none_iff]

/-- A tree does what its store does. -/
theorem view_set (h : segments path ≠ []) (t : PropertyTree) (k v : List Byte) :
    (t.set path k (.string v)).view = t.view.set (segments path) k v := by
  funext q
  have hlabel : (t.set path k (.string v)).root.labelAt q =
      if segments path ++ [k] <+: q then
        (if q = segments path ++ [k] then some (MyProperty.set {} (.string v)) else none)
      else if q <+: segments path then some ((t.root.labelAt q).getD {})
      else t.root.labelAt q := by
    rw [set, if_neg h]
    exact KeyedTree.labelAt_put_leaf t.wf (segments path) k _ q
  rw [view, hlabel, PropertyStore.set]
  split
  · split <;> rfl
  · split
    · rw [view]
      cases t.root.labelAt q <;> rfl
    · rfl

theorem get_eq_view (h : segments path ≠ []) (t : PropertyTree) (k d : List Byte) :
    t.get path k d = (t.view (location path k)).getD d := by
  rw [get, if_neg h, view, KeyedTree.labelAt, location, KeyedTree.find_append]
  cases t.root.find (segments path) with
  | none => rfl
  | some child =>
    dsimp only [Option.bind_some]
    rw [get_child, KeyedTree.find_singleton]
    cases child.childs[k]? <;> rfl

/-- The path `/a//` is that of `a`. -/
example : (afterSets [([97],[98],[118])]).get [47,97,47,47] [98] [100] = [118] := by
  decide +kernel

/-- A call of `set` leaves the other locations alone, but for those below and those on the way. -/
theorem get_set_of_ne {path' k' d : List Byte} (hpath : segments path ≠ [])
    (hpath' : segments path' ≠ []) (hne : location path' k' ≠ location path k) :
    (t.set path k (.string v)).get path' k' d =
      if location path k <+: location path' k' then d
      else if location path' k' <+: segments path ∧ t.root.find (location path' k') = none then []
      else t.get path' k' d := by
  rw [get_eq_view hpath', get_eq_view hpath', view_set hpath, PropertyStore.set_of_ne _ hne]
  by_cases hbelow : location path k <+: location path' k'
  · rw [if_pos hbelow, ← location, if_pos hbelow, Option.getD_none]
  rw [if_neg hbelow, ← location, if_neg hbelow]
  by_cases hon : location path' k' <+: segments path
  · rw [if_pos hon, Option.getD_some]
    cases hview : t.view (location path' k') with
    | none => rw [if_pos ⟨hon, view_eq_none_iff.mp hview⟩, Option.getD_none]
    | some w =>
      rw [if_neg, Option.getD_some, Option.getD_some]
      rintro ⟨-, hnone⟩
      rw [view_eq_none_iff.mpr hnone] at hview
      cases hview
  · rw [if_neg hon, if_neg (fun hand => hon hand.1)]

theorem blank_new (q : List (List Byte)) : new.view.Blank q := by
  intro v hv
  cases q with
  | nil => exact (Option.some.inj hv).symm
  | cons k q =>
    rw [view_eq_none_iff.mpr (KeyedTree.find_leaf _ k q)] at hv
    cases hv

/-- Without a call of `set` at a location it gets no text. -/
theorem blank_afterSets {calls : List (List Byte × List Byte × List Byte)}
    (h : ∀ call ∈ calls, segments call.1 ≠ [] → location call.1 call.2.1 ≠ q) :
    (afterSets calls).view.Blank q := by
  induction calls using List.reverseRecOn with
  | nil => exact blank_new q
  | append_singleton calls call ih =>
    have hrest := ih fun call' hmem => h call' (List.mem_append_left _ hmem)
    rw [afterSets, List.foldl_append, List.foldl_cons, List.foldl_nil]
    by_cases hpath : segments call.1 = []
    · rw [set, if_pos hpath]
      exact hrest
    · rw [view_set hpath]
      have hne := h call (List.mem_append_right _ (List.mem_singleton.mpr rfl)) hpath
      exact hrest.set hne.symm call.2.2

theorem GetAllKeys_eq (h : segments path ≠ []) {n : MyPropertyTreeNode}
    (hn : t.root.find (segments path) = some n) : t.GetAllKeys path = some n.childs.keys := by
  rw [GetAllKeys, if_neg h, hn]
  rfl

theorem mem_keys_iff {n : MyPropertyTreeNode} (hn : t.root.find (segments path) = some n) :
    k ∈ n.childs.keys ↔ (t.root.find (location path k)).isSome = true := by
  have hwf := (t.wf.find hn).childs
  rw [Std.TreeMap.Raw.mem_keys hwf, Std.TreeMap.Raw.mem_iff_isSome_getElem? hwf, location,
    KeyedTree.find_append, hn, Option.bind_some, KeyedTree.find_singleton]

/-- Every tree that calls of `set` lead to is lawful. -/
theorem lawful_afterSets (calls : List (List Byte × List Byte × List Byte)) :
    (afterSets calls).Lawful calls := by
  generalize ht : afterSets calls = t
  constructor
  case get_set =>
    intro path k v d hpath
    rw [get_eq_view hpath, view_set hpath, location, PropertyStore.set_self, Option.getD_some]
  case frame =>
    intro path k v path' k' d hpath hpath' hne
    exact get_set_of_ne hpath hpath' hne
  case unset =>
    intro path k d hpath hcalls
    have hblank := blank_afterSets hcalls
    rw [ht] at hblank
    rw [get_eq_view hpath]
    cases hview : t.view (location path k) with
    | none => rw [view_eq_none_iff.mp hview, if_neg (by decide), Option.getD_none]
    | some v =>
      have hsome : (t.root.find (location path k)).isSome = true := by
        rw [Option.isSome_iff_ne_none, Ne, ← view_eq_none_iff, hview]
        exact Option.some_ne_none v
      rw [if_pos hsome, Option.getD_some, hblank v hview]
  case keys =>
    intro path hpath hsome
    obtain ⟨n, hn⟩ := Option.isSome_iff_exists.mp hsome
    exact ⟨_, GetAllKeys_eq hpath hn, Std.TreeMap.Raw.nodup_keys (t.wf.find hn).childs,
      fun _ => mem_keys_iff hn⟩

/-- A node that is set again loses what is below it, a node on the way to a new one has an empty
text where there was none, and the keys of a missing node are asked of a null pointer. -/
theorem not_independent_locations :
    let t := afterSets [([97,47,98],[99],[118])]
    location [97] [98] ≠ location [97,47,98] [99] ∧
      t.get [97,47,98] [99] [100] = [118] ∧
      (t.set [97] [98] (.string [119])).get [97,47,98] [99] [100] = [100] ∧
      new.get [97] [98] [100] = [100] ∧ t.get [97] [98] [100] = [] ∧
      t.GetAllKeys [113] = none := by
  decide +kernel

end PropertyTree
end EchoFrame
