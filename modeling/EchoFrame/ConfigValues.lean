import EchoFrame.PropertyTree
import EchoFrame.XmlVisit

/-! A configuration file and its reader: the visit that fills a `MyPropertyTree` node by node,
and what `get` finds in that tree. -/
namespace EchoFrame
open Verif

def utf8 (s : String) : List Byte := s.toUTF8.data.toList

theorem utf8_injective : Function.Injective utf8 := by
  intro s t h
  apply String.toByteArray_inj.mp
  apply ByteArray.ext
  exact Array.toList_inj.mp h

/-- What a node holds: a text that was appended, or nothing on an inner node. -/
def property : Option String → MyProperty
  | none => {}
  | some v => MyProperty.set {} (.string (utf8 v))

namespace PropertyTree

def addAt (t : PropertyTree) (parent : List (List Byte)) (k : List Byte)
    (child : MyProperty) : PropertyTree :=
  t.modify parent (fun n => n.add_child k (.leaf child)) fun _ h =>
    KeyedTree.wellFormed_put h (KeyedTree.wellFormed_leaf _) k

def append (t : PropertyTree) (parent : List (List Byte)) (k v : List Byte) : PropertyTree :=
  t.addAt parent k (MyPropertyTreeNode.new.set (.string v)).label

end PropertyTree

/-- The arguments of one call of `visit`, where `parent` is the way to the node in the tree. -/
structure ConfigVisit where
  node : XMLNode
  up : List XMLNode
  parent : Option (List (List Byte))
  tree : PropertyTree

namespace ConfigVisit
open XMLNode

/-- `visit(node->Parent()->NextSibling(), parent->parent().get())`. -/
def climb (up : List XMLNode) (parent : List (List Byte)) (tree : PropertyTree) : ConfigVisit :=
  ⟨up.headD .null, up.tail, if parent = [] then none else some parent.dropLast, tree⟩

/-- One call of `visit`, and whether it ends with another one. -/
def visit (s : ConfigVisit) : ConfigVisit × Bool :=
  match s.node, s.parent with
  | .null, _ | _, none => (s, false)
  | node@(.element name children next), some parent =>
    match node.GetText with
    | some v =>
      let tree := s.tree.append parent (utf8 name) (utf8 v)
      if next = .null then (climb s.up parent tree, true)
      else (⟨next, s.up, some parent, tree⟩, true)
    | none =>
      if children = .null then (climb s.up parent s.tree, true)
      else
        let tree := s.tree.addAt parent (utf8 name) {}
        (⟨children, next :: s.up, some (parent ++ [utf8 name]), tree⟩, true)
  | .text .., some _ | .comment .., some _ => (s, false)

def start (root : XMLNode) : ConfigVisit := ⟨root, [], some [], PropertyTree.new⟩

end ConfigVisit

/-- The nodes of a tree are those of the map from the paths, under the bytes of the names. -/
structure Stores (t : PropertyTree) (tree : MyPropertyTree) : Prop where
  nodes : ∀ path : List String, t.root.labelAt (path.map utf8) = (tree path).map property
  names : ∀ q, t.root.labelAt q ≠ none → ∃ path : List String, q = path.map utf8

namespace Stores

variable {t : PropertyTree} {tree : MyPropertyTree}

theorem new : Stores PropertyTree.new MyPropertyTree.new where
  nodes path := by
    cases path with
    | nil => rfl
    | cons name path => rfl
  names q hq := by
    cases q with
    | nil => exact ⟨[], rfl⟩
    | cons k q => exact absurd rfl hq

/-- A new child below a node that is there. -/
theorem labelAt_addAt {parent : List (List Byte)} (hparent : (t.root.find parent).isSome)
    (k : List Byte) (child : MyProperty) (q : List (List Byte)) :
    (t.addAt parent k child).root.labelAt q =
      if parent ++ [k] <+: q then (if q = parent ++ [k] then some child else none)
      else t.root.labelAt q := by
  refine (KeyedTree.labelAt_put_leaf t.wf parent k child q).trans ?_
  apply ite_congr rfl (fun _ => rfl)
  intro _
  split
  · next hq =>
    obtain ⟨rest, rfl⟩ := hq
    obtain ⟨n, hn⟩ := Option.isSome_iff_exists.mp (KeyedTree.isSome_find_of_append hparent)
    rw [KeyedTree.labelAt, hn]
    rfl
  · rfl

theorem map_prefix_iff {p q : List String} : p.map utf8 <+: q.map utf8 ↔ p <+: q := by
  constructor
  · intro h
    obtain ⟨r, hr, heq⟩ := List.prefix_map_iff.mp h
    obtain rfl := List.map_injective_iff.mpr utf8_injective heq
    exact hr
  · exact fun h => h.map utf8

theorem addAt (h : Stores t tree) {parent : List String}
    (hparent : (t.root.find (parent.map utf8)).isSome) (k : String) (v : Option String) :
    Stores (t.addAt (parent.map utf8) (utf8 k) (property v)) (tree.add_child parent k v) := by
  have hchild : parent.map utf8 ++ [utf8 k] = (parent ++ [k]).map utf8 := by
    rw [List.map_append, List.map_singleton]
  constructor
  case nodes =>
    intro path
    rw [labelAt_addAt hparent, hchild, MyPropertyTree.add_child]
    by_cases hbelow : parent ++ [k] <+: path
    · rw [if_pos (map_prefix_iff.mpr hbelow), if_pos hbelow]
      by_cases hpath : path = parent ++ [k]
      · rw [if_pos (congrArg _ hpath), if_pos hpath]
        rfl
      · have hne : path.map utf8 ≠ (parent ++ [k]).map utf8 := fun heq =>
          hpath (List.map_injective_iff.mpr utf8_injective heq)
        rw [if_neg hne, if_neg hpath]
        rfl
    · rw [if_neg (fun hmap => hbelow (map_prefix_iff.mp hmap)), if_neg hbelow]
      exact h.nodes path
  case names =>
    intro q hq
    rw [labelAt_addAt hparent, hchild] at hq
    by_cases hbelow : (parent ++ [k]).map utf8 <+: q
    · rw [if_pos hbelow] at hq
      by_cases heq : q = (parent ++ [k]).map utf8
      · exact ⟨_, heq⟩
      · exact absurd (if_neg heq) hq
    · rw [if_neg hbelow] at hq
      exact h.names q hq

omit tree in
/-- The node that gets a child stays, and the child is there. -/
theorem isSome_find_addAt {parent : List (List Byte)} (hparent : (t.root.find parent).isSome)
    (k : List Byte) (child : MyProperty) :
    ((t.addAt parent k child).root.find parent).isSome ∧
      ((t.addAt parent k child).root.find (parent ++ [k])).isSome := by
  have hself := labelAt_addAt hparent k child (parent ++ [k])
  rw [if_pos List.prefix_rfl, if_pos rfl] at hself
  have hthere : ((t.addAt parent k child).root.find (parent ++ [k])).isSome := by
    rw [← Option.isSome_map, ← KeyedTree.labelAt, hself]
    rfl
  exact ⟨KeyedTree.isSome_find_of_append hthere, hthere⟩

end Stores

namespace ConfigVisit
open XMLNode Stores

/-- Where the two visits are, one that fills the map and one that fills the tree. -/
structure Follows (s : Visit) (s' : ConfigVisit) : Prop where
  node : s'.node = s.node
  up : s'.up = s.up
  parent : s'.parent = s.parent.map (List.map utf8)
  tree : Stores s'.tree s.tree
  there : ∀ p ∈ s'.parent, (s'.tree.root.find p).isSome

theorem follows_climb {up : List XMLNode} {parent : List String} {tree : MyPropertyTree}
    {t : PropertyTree} (ht : Stores t tree) (hparent : (t.root.find (parent.map utf8)).isSome) :
    Follows (Visit.climb up parent tree) (climb up (parent.map utf8) t) := by
  refine ⟨rfl, rfl, ?_, ht, ?_⟩
  · unfold Visit.climb climb MyPropertyTree.parentOf
    by_cases hnil : parent = []
    · rw [hnil]
      rfl
    · have hmap : parent.map utf8 ≠ [] := fun h => hnil (List.map_eq_nil_iff.mp h)
      dsimp only
      rw [if_neg hnil, if_neg hmap, Option.map_some, List.map_dropLast]
  · intro p hp
    obtain ⟨hne, hlast⟩ := Option.ite_none_left_eq_some.mp hp
    obtain rfl := Option.some.inj hlast
    apply KeyedTree.isSome_find_of_append
    rwa [List.dropLast_append_getLast hne]

theorem follows_visit (s : Visit) (s' : ConfigVisit) (h : Follows s s') :
    Follows (Visit.visit s).1 (visit s').1 ∧ (Visit.visit s).2 = (visit s').2 := by
  obtain ⟨_, _, parent, tree⟩ := s
  obtain ⟨node, up, _, t⟩ := s'
  obtain ⟨rfl, rfl, hparent, ht, hthere⟩ := h
  dsimp only at hparent ht hthere
  subst hparent
  have hstays : Follows ⟨node, up, parent, tree⟩ ⟨node, up, parent.map (List.map utf8), t⟩ :=
    ⟨rfl, rfl, rfl, ht, hthere⟩
  cases parent with
  | none => cases node <;> exact ⟨hstays, rfl⟩
  | some parent =>
    have hfound : (t.root.find (parent.map utf8)).isSome := hthere _ rfl
    cases node with
    | null | text _ _ | comment _ _ => exact ⟨hstays, rfl⟩
    | element name children next =>
      cases htext : (element name children next).GetText with
      | some v =>
        have hadded := ht.addAt hfound name (some v)
        have hfound' := (isSome_find_addAt hfound (utf8 name) (property (some v))).1
        simp only [Visit.visit, visit, htext, Option.map_some]
        by_cases hnext : next = .null
        · rw [if_pos hnext, if_pos hnext]
          exact ⟨follows_climb hadded hfound', rfl⟩
        · rw [if_neg hnext, if_neg hnext]
          exact ⟨⟨rfl, rfl, rfl, hadded, fun p hp => Option.some.inj hp ▸ hfound'⟩, rfl⟩
      | none =>
        simp only [Visit.visit, visit, htext, Option.map_some]
        by_cases hempty : children = .null
        · rw [if_pos hempty, if_pos hempty]
          exact ⟨follows_climb ht hfound, rfl⟩
        · have hadded := ht.addAt hfound name none
          have hfound' := (isSome_find_addAt hfound (utf8 name) (property none)).2
          rw [if_neg hempty, if_neg hempty]
          refine ⟨⟨rfl, rfl, ?_, hadded, fun p hp => Option.some.inj hp ▸ hfound'⟩, rfl⟩
          dsimp only
          rw [Option.map_some, List.map_append, List.map_singleton]

/-- The visit fills the tree as it fills the map. -/
theorem exits_visit {root : XMLNode} {s : Visit} (h : Exits Visit.visit (Visit.start root) s) :
    ∃ s', Exits visit (start root) s' ∧ Stores s'.tree s.tree := by
  have hstart : Follows (Visit.start root) (start root) :=
    ⟨rfl, rfl, rfl, Stores.new, fun p hp => Option.some.inj hp ▸ rfl⟩
  obtain ⟨s', hs', hfollows⟩ := h.related follows_visit hstart
  exact ⟨s', hs', hfollows.tree⟩

end ConfigVisit

/-- A name that can stand in a path. -/
def IsName (name : String) : Prop := utf8 name ≠ [] ∧ 47 ∉ utf8 name

def pathOf (names : List String) : List Byte := [47].intercalate (names.map utf8)

theorem segments_pathOf {names : List String} (hne : names ≠ [])
    (h : ∀ name ∈ names, IsName name) : segments (pathOf names) = names.map utf8 := by
  have hwords : names.map utf8 ≠ [] := fun hnil => hne (List.map_eq_nil_iff.mp hnil)
  have hslash : ∀ word ∈ names.map utf8, (47 : Byte) ∉ word :=
    List.forall_mem_map.mpr fun name hname => (h name hname).2
  have hblank : (names.map utf8).filter (· ≠ []) = names.map utf8 := by
    apply List.filter_eq_self.mpr
    exact List.forall_mem_map.mpr fun name hname => decide_eq_true (h name hname).1
  have hsplit := MyCommon.split_intercalate hwords hslash
  rw [hblank] at hsplit
  exact Option.get_of_eq_some _ hsplit

namespace ConfigVisit
open XMLNode

/-- What `get` finds in a tree that stores the map. -/
theorem get_of_stores {t : PropertyTree} {tree : MyPropertyTree} (h : Stores t tree)
    {names : List String} (hne : names ≠ []) (hnames : ∀ name ∈ names, IsName name) (k : String)
    (d : List Byte) : t.get (pathOf names) (utf8 k) d =
      match tree (names ++ [k]) with
      | some (some v) => utf8 v
      | some none => []
      | none => d := by
  have hsegments := segments_pathOf hne hnames
  have hpath : segments (pathOf names) ≠ [] := by
    rw [hsegments]
    exact fun hnil => hne (List.map_eq_nil_iff.mp hnil)
  have hlocation : location (pathOf names) (utf8 k) = (names ++ [k]).map utf8 := by
    rw [location, hsegments, List.map_append, List.map_singleton]
  rw [PropertyTree.get_eq_view hpath, PropertyTree.view, hlocation, h.nodes]
  cases tree (names ++ [k]) with
  | none => rfl
  | some v => cases v <;> rfl

/-- The text of the root element itself is always visited. -/
theorem mem_visited_of_root {root : XMLNode} (h : root.Document) {k v : String}
    (hmem : ([k], v) ∈ root.texts []) : ([k], v) ∈ root.visited [] := by
  cases root with
  | null | text _ _ | comment _ _ => exact h.elim
  | element name children next =>
    rcases mem_texts_element.mp hmem with ⟨htext, hpath⟩ | hchild | hnext
    · cases children with
      | null | element _ _ _ | comment _ _ => cases htext
      | text w rest =>
        obtain rfl := Option.some.inj htext
        rw [hpath]
        exact List.mem_cons_self
    · obtain ⟨j, -, hj⟩ := exists_name_of_mem_texts hchild
      exact absurd hj.length_le (by simp)
    · rw [texts_of_names [] h.2.1] at hnext
      cases hnext

/-- At a path and a key below the root `get` finds the text of the element that was visited
there, and where there is none, nothing or the default. -/
structure Reads (t : PropertyTree) (root : XMLNode) : Prop where
  found : ∀ {names : List String}, names ≠ [] → (∀ name ∈ names, IsName name) →
    ∀ (k v : String) (d : List Byte), (names ++ [k], v) ∈ root.visited [] →
      t.get (pathOf names) (utf8 k) d = utf8 v
  missed : ∀ {names : List String}, names ≠ [] → (∀ name ∈ names, IsName name) →
    ∀ (k : String) (d : List Byte), (∀ v, (names ++ [k], v) ∉ root.visited []) →
      t.get (pathOf names) (utf8 k) d = [] ∨ t.get (pathOf names) (utf8 k) d = d

theorem reads_of_stores {t : PropertyTree} {tree : MyPropertyTree} {root : XMLNode}
    (h : Stores t tree) (hvalues : ∀ p v, tree p = some (some v) ↔ (p, v) ∈ root.visited []) :
    Reads t root where
  found hne hnames k v d hv := by
    rw [get_of_stores h hne hnames, (hvalues _ v).mpr hv]
  missed {names} hne hnames k d hnot := by
    rw [get_of_stores h hne hnames]
    cases hat : tree (names ++ [k]) with
    | none => exact .inr rfl
    | some w =>
      cases w with
      | none => exact .inl rfl
      | some v => exact absurd ((hvalues _ v).mp hat) (hnot v)

/-- A text that is found with any default was visited. -/
theorem Reads.mem_visited {t : PropertyTree} {root : XMLNode} (h : Reads t root)
    {names : List String} (hne : names ≠ []) (hnames : ∀ name ∈ names, IsName name)
    {k v : String} (hv : utf8 v ≠ [])
    (hall : ∀ d, t.get (pathOf names) (utf8 k) d = utf8 v) :
    (names ++ [k], v) ∈ root.visited [] := by
  by_contra hnot
  by_cases hother : ∃ w, (names ++ [k], w) ∈ root.visited []
  · obtain ⟨w, hw⟩ := hother
    have hread := (h.found hne hnames k w [] hw).symm.trans (hall [])
    exact hnot (utf8_injective hread ▸ hw)
  · push Not at hother
    rcases h.missed hne hnames k (utf8 v ++ [0]) hother with hnone | hdefault
    · exact hv ((hall _).symm.trans hnone)
    · have hlength := congrArg List.length ((hall _).symm.trans hdefault)
      rw [List.length_append, List.length_singleton] at hlength
      exact absurd hlength (Nat.succ_ne_self _).symm

def Parsed (root : XMLNode) : Prop :=
  ∀ entry ∈ root.texts [], (∀ name ∈ entry.1, IsName name) ∧ utf8 entry.2 ≠ []

/-- `get` finds the text of every element below the root, whatever the default. -/
def ReadsAll (t : PropertyTree) (root : XMLNode) : Prop :=
  ∀ (names : List String) (k v : String) (d : List Byte), names ≠ [] →
    (names ++ [k], v) ∈ root.texts [] → t.get (pathOf names) (utf8 k) d = utf8 v

theorem texts_subset_visited {t : PropertyTree} {root : XMLNode} (h : root.Document)
    (hparsed : Parsed root) (hreads : Reads t root) (hall : ReadsAll t root) :
    root.texts [] ⊆ root.visited [] := by
  rintro ⟨p, v⟩ hmem
  obtain ⟨name, -, hname⟩ := exists_name_of_mem_texts hmem
  have hp : p ≠ [] := by
    rintro rfl
    exact absurd hname.length_le (by simp)
  obtain ⟨names, k, rfl⟩ : ∃ names k, p = names ++ [k] :=
    ⟨p.dropLast, p.getLast hp, (List.dropLast_append_getLast hp).symm⟩
  by_cases hne : names = []
  · subst hne
    exact mem_visited_of_root h hmem
  · obtain ⟨hnames, hv⟩ := hparsed _ hmem
    have hpath : ∀ name ∈ names, IsName name := fun name hmem =>
      hnames name (List.mem_append_left _ hmem)
    exact hreads.mem_visited hne hpath hv fun d => hall names k v d hne hmem

/-- The visit of a document ends, `get` finds in the tree what was visited, and it finds the
text of every element below the root exactly when the document is complete. -/
theorem readsAll_iff {root : XMLNode} (h : root.Document) (hparsed : Parsed root) :
    ∃ s, Exits visit (start root) s ∧ Reads s.tree root ∧
      (ReadsAll s.tree root ↔ root.Complete) := by
  have hwf : root.WellFormed := by
    cases root with
    | element name children next => exact h.1
    | null | text _ _ | comment _ _ => exact h.elim
  obtain ⟨u, hu, hvalues⟩ := Visit.visit_start hwf
  obtain ⟨s, hs, hstores⟩ := exits_visit hu
  have hreads := reads_of_stores hstores hvalues
  refine ⟨s, hs, hreads, ?_⟩
  rw [← visited_eq_texts_iff hwf []]
  constructor
  · intro hall
    have hsub := texts_subset_visited h hparsed hreads hall
    exact (root.visited_sublist []).eq_of_length_le
      ((nodup_texts hwf []).subperm hsub).length_le
  · intro heq names k v d hne hmem
    have hnames : ∀ name ∈ names, IsName name := fun name hname =>
      (hparsed _ hmem).1 name (List.mem_append_left _ hname)
    exact hreads.found hne hnames k v d (heq ▸ hmem)

/-- `<R><A><B>b</B></A><D>d</D></R>`, of which `R/A` has `B` and `R` has `D`. -/
theorem readsAll_one_level :
    let root := element "R" (element "A" (element "B" (text "b" null) null)
      (element "D" (text "d" null) null)) null
    ∃ s, Exits visit (start root) s ∧
      s.tree.get [82, 47, 65] [66] [] = [98] ∧ s.tree.get [82] [68] [] = [100] := by
  intro root
  have hdocument : root.Document := by
    simp [root, Document, WellFormed, names, OnlyText, NoText]
  have hcomplete : root.Complete := by
    simp [root, Complete, texts, closes]
  have hparsed : Parsed root := by
    unfold Parsed IsName
    decide +kernel
  obtain ⟨s, hs, -, hiff⟩ := readsAll_iff hdocument hparsed
  have hall := hiff.mpr hcomplete
  refine ⟨s, hs, ?_, ?_⟩
  · exact hall ["R", "A"] "B" "b" [] (by decide) (by simp [root, texts, GetText])
  · exact hall ["R"] "D" "d" [] (by decide) (by simp [root, texts, GetText])

end ConfigVisit
end EchoFrame
