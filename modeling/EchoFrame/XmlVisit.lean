import Mathlib.Data.List.Nodup
import Mathlib.Data.List.Perm.Subperm
import Mathlib.Data.List.Infix
import EchoFrame.Verif.DoWhile

/-! The visit of an XML document that fills a property tree. -/
namespace EchoFrame
open Verif

/-- Neither of two sublists can make up for what the other lacks. -/
theorem append_eq_append_iff_of_sublist {α : Type} {l₁ l₂ m₁ m₂ : List α}
    (h₁ : l₁.Sublist m₁) (h₂ : l₂.Sublist m₂) : l₁ ++ l₂ = m₁ ++ m₂ ↔ l₁ = m₁ ∧ l₂ = m₂ := by
  constructor
  · intro h
    have hlen := congrArg List.length h
    rw [List.length_append, List.length_append] at hlen
    have hle₁ := h₁.length_le
    have hle₂ := h₂.length_le
    exact ⟨h₁.eq_of_length (by omega), h₂.eq_of_length (by omega)⟩
  · rintro ⟨rfl, rfl⟩
    rfl

/-- A pointer to a node of a document: no node, or one with the nodes below and after it. -/
inductive XMLNode
  | null
  | element (name : String) (firstChild nextSibling : XMLNode)
  | text (value : String) (nextSibling : XMLNode)
  | comment (value : String) (nextSibling : XMLNode)
deriving DecidableEq, Repr

/-- The nodes of a property tree by the keys on the way to them, with the value of each. -/
def MyPropertyTree := List String → Option (Option String)

namespace MyPropertyTree

def new : MyPropertyTree := fun path => if path = [] then some none else none

/-- The new child replaces one of the same key, with all that is below it. -/
def add_child (tree : MyPropertyTree) (parent : List String) (k : String) (v : Option String) :
    MyPropertyTree := fun path =>
  if parent ++ [k] <+: path then (if path = parent ++ [k] then some v else none) else tree path

def append (tree : MyPropertyTree) (parent : List String) (k v : String) : MyPropertyTree :=
  tree.add_child parent k (some v)

def parentOf (path : List String) : Option (List String) :=
  if path = [] then none else some path.dropLast

end MyPropertyTree

namespace XMLNode

/-- The value of the first child, where that is a text. -/
def GetText : XMLNode → Option String
  | element _ (text v _) _ => some v
  | _ => none

def names : XMLNode → List String
  | null => []
  | element name _ next => name::next.names
  | text _ next | comment _ next => next.names

def OnlyText : XMLNode → Prop
  | null => True
  | text _ next => next.OnlyText
  | element .. | comment .. => False

def NoText : XMLNode → Prop
  | null => True
  | element _ _ next | comment _ next => next.NoText
  | text .. => False

/-- Siblings have distinct names, and an element contains only text, or only elements and
comments, or nothing. -/
def WellFormed : XMLNode → Prop
  | null => True
  | element name children next => name ∉ next.names ∧ (children.OnlyText ∨ children.NoText) ∧
      children.WellFormed ∧ next.WellFormed
  | text _ next | comment _ next => next.WellFormed

/-- A root element, with nothing but comments after it. -/
def Document : XMLNode → Prop
  | root@(element _ _ next) => root.WellFormed ∧ next.names = [] ∧ next.NoText
  | _ => False

/-- The text-bearing elements from a node on, at the path of names that leads to each. -/
def texts (path : List String) : XMLNode → List (List String × String)
  | null => []
  | node@(element name children next) =>
      (node.GetText.map fun v => (path ++ [name],v)).toList ++ children.texts (path ++ [name]) ++
        next.texts path
  | text _ next | comment _ next => next.texts path

end XMLNode

/-- The arguments of one call of `visit`, and the tree by then. `up` has what
`Parent()->NextSibling()` gives at the node, then at its parent, and so on. -/
structure Visit where
  node : XMLNode
  up : List XMLNode
  parent : Option (List String)
  tree : MyPropertyTree

namespace Visit
open XMLNode MyPropertyTree

/-- `visit(node->Parent()->NextSibling(), parent->parent().get())`. -/
def climb (up : List XMLNode) (parent : List String) (tree : MyPropertyTree) : Visit :=
  ⟨up.headD .null, up.tail, parentOf parent, tree⟩

/-- One call of `visit`: the arguments of the call that it ends with, if it makes one. -/
def visit (s : Visit) : Visit × Bool :=
  match s.node, s.parent with
  | .null, _ | _, none => (s,false)
  | node@(.element name children next), some parent =>
    match node.GetText with
    | some v =>
      let tree := s.tree.append parent name v
      if next = .null then (climb s.up parent tree,true)
      else (⟨next,s.up,some parent,tree⟩,true)
    | none =>
      -- the siblings after an empty element are not looked at
      if children = .null then (climb s.up parent s.tree,true)
      else (⟨children,next::s.up,some (parent ++ [name]),s.tree.add_child parent name none⟩,true)
  -- not an element
  | .text .., some _ | .comment .., some _ => (s,false)

def start (root : XMLNode) : Visit := ⟨root,[],some [],MyPropertyTree.new⟩

end Visit

namespace XMLNode
open MyPropertyTree

/-- The visit ends, and the tree has the text of every element and no other value. -/
def Loads (root : XMLNode) : Prop :=
  ∃ t, Exits Visit.visit (Visit.start root) t ∧
    ∀ path v, t.tree path = some (some v) ↔ (path,v) ∈ root.texts []

/-- Whether siblings close, from a node on: read up to the first empty one or to their end, they
have no comment, the children of each close in turn, and the last is empty or bears text. -/
def closes : XMLNode → Bool
  | null | text .. | comment .. => false
  | element _ children next => match children with
    | null => true
    | text .. => decide (next = null) || next.closes
    | element .. | comment .. => children.closes && next.closes

/-- Nothing that bears text comes after a comment or an empty element, nor after an element
whose children do not close, among its siblings. -/
def Complete : XMLNode → Prop
  | null => True
  | text _ next | comment _ next => next.texts [] = []
  | element _ children next => match children with
    | null => next.texts [] = []
    | text .. => next.Complete
    | element .. | comment .. =>
        children.Complete ∧ (next.texts [] = [] ∨ children.closes = true ∧ next.Complete)

def visited (path : List String) : XMLNode → List (List String × String)
  | null | text .. | comment .. => []
  | element name children next => match children with
    | null => []
    | text v _ => (path ++ [name],v) :: next.visited path
    | element .. | comment .. => children.visited (path ++ [name]) ++
        if children.closes then next.visited path else []

/-- An element is empty, bears text, or has children to visit. -/
theorem content_cases (name : String) (children next : XMLNode) :
    children = null ∨ (∃ v rest, children = text v rest) ∨
      children ≠ null ∧ (element name children next).GetText = none := by
  cases children with
  | null => exact .inl rfl
  | text v rest => exact .inr (.inl ⟨v, rest, rfl⟩)
  | element _ _ _ | comment _ _ => exact .inr (.inr ⟨XMLNode.noConfusion, rfl⟩)

section
variable {name : String} {children next : XMLNode} (hne : children ≠ null)
  (htext : (element name children next).GetText = none)
include hne htext

theorem closes_element :
    (element name children next).closes = (children.closes && next.closes) := by
  cases children with
  | null => exact absurd rfl hne
  | text _ _ => cases htext
  | element _ _ _ | comment _ _ => rfl

theorem complete_element : (element name children next).Complete ↔
    children.Complete ∧ (next.texts [] = [] ∨ children.closes = true ∧ next.Complete) := by
  cases children with
  | null => exact absurd rfl hne
  | text _ _ => cases htext
  | element _ _ _ | comment _ _ => exact Iff.rfl

theorem visited_element (path : List String) : (element name children next).visited path =
    children.visited (path ++ [name]) ++ if children.closes then next.visited path else [] := by
  cases children with
  | null => exact absurd rfl hne
  | text _ _ => cases htext
  | element _ _ _ | comment _ _ => rfl

end

theorem names_of_onlyText {node : XMLNode} (h : node.OnlyText) : node.names = [] := by
  induction node with
  | null => rfl
  | element _ _ _ _ _ => exact h.elim
  | text _ _ ih => exact ih h
  | comment _ _ _ => exact h.elim

theorem texts_of_names {node : XMLNode} (path : List String) (h : node.names = []) :
    node.texts path = [] := by
  induction node with
  | null => rfl
  | element _ _ _ _ _ => cases h
  | text _ _ ih | comment _ _ ih => exact ih h

theorem length_texts (node : XMLNode) (path path' : List String) :
    (node.texts path).length = (node.texts path').length := by
  induction node generalizing path path' with
  | null => rfl
  | element name children next ihc ihn =>
    simp only [texts, List.length_append, Option.length_toList, Option.isSome_map]
    rw [ihc (path ++ [name]) (path' ++ [name]), ihn path path']
  | text _ _ ih | comment _ _ ih => exact ih path path'

theorem texts_eq_nil_iff (node : XMLNode) (path : List String) :
    node.texts path = [] ↔ node.texts [] = [] := by
  rw [← List.length_eq_zero_iff, ← List.length_eq_zero_iff, node.length_texts path []]

theorem visited_sublist (node : XMLNode) (path : List String) :
    (node.visited path).Sublist (node.texts path) := by
  induction node generalizing path with
  | null => exact List.nil_sublist _
  | text _ _ _ | comment _ _ _ => exact List.nil_sublist _
  | element name children next ihc ihn =>
    rcases content_cases name children next with rfl | ⟨v, rest, rfl⟩ | ⟨hne, htext⟩
    · exact List.nil_sublist _
    · exact ((ihn path).trans (List.sublist_append_right _ _)).cons_cons _
    · rw [visited_element hne htext, texts, htext]
      apply List.Sublist.append (ihc _)
      split
      · exact ihn path
      · exact List.nil_sublist _

/-- Everything is visited exactly when nothing comes after a place where siblings are given up. -/
theorem visited_eq_texts_iff {node : XMLNode} (hwf : node.WellFormed) (path : List String) :
    node.visited path = node.texts path ↔ node.Complete := by
  induction node generalizing path with
  | null => exact ⟨fun _ => trivial, fun _ => rfl⟩
  | text _ next _ | comment _ next _ => exact eq_comm.trans (next.texts_eq_nil_iff path)
  | element name children next ihc ihn =>
    obtain ⟨_, hcont, hwfc, hwfn⟩ := hwf
    rcases content_cases name children next with rfl | ⟨v, rest, rfl⟩ | ⟨hne, htext⟩
    · exact eq_comm.trans (next.texts_eq_nil_iff path)
    · have hrest : (text v rest).texts (path ++ [name]) = [] := by
        rcases hcont with honly | hno
        · exact texts_of_names _ (names_of_onlyText honly)
        · exact hno.elim
      have htexts : (element name (text v rest) next).texts path =
          (path ++ [name],v) :: next.texts path := by
        simp only [texts] at hrest
        simp [texts, GetText, hrest]
      rw [htexts]
      exact (List.cons_inj_right _).trans (ihn hwfn path)
    · have htexts : (element name children next).texts path =
          children.texts (path ++ [name]) ++ next.texts path := by
        rw [texts, htext]
        rfl
      rw [visited_element hne htext, complete_element hne htext, htexts,
        ← ihc hwfc (path ++ [name]), ← ihn hwfn path, ← next.texts_eq_nil_iff path]
      have hsub := children.visited_sublist (path ++ [name])
      cases hc : children.closes with
      | false =>
        simp only [Bool.false_eq_true, if_false, false_and, or_false]
        rw [append_eq_append_iff_of_sublist hsub (List.nil_sublist _)]
        exact and_congr_right fun _ => eq_comm
      | true =>
        simp only [if_true, true_and]
        rw [append_eq_append_iff_of_sublist hsub (next.visited_sublist path)]
        refine and_congr_right fun _ => ⟨.inr, ?_⟩
        rintro (hnil | hall)
        · rw [hnil]
          exact List.sublist_nil.mp (hnil ▸ next.visited_sublist path)
        · exact hall

theorem mem_texts_element {name v : String} {children next : XMLNode} {path p : List String} :
    (p,v) ∈ (element name children next).texts path ↔
      (element name children next).GetText = some v ∧ p = path ++ [name] ∨
        (p,v) ∈ children.texts (path ++ [name]) ∨ (p,v) ∈ next.texts path := by
  rw [texts, List.mem_append, List.mem_append, or_assoc, Option.mem_toList, Option.map_eq_some_iff]
  apply or_congr_left
  constructor
  · rintro ⟨w, hw, he⟩
    cases he
    exact ⟨hw, rfl⟩
  · rintro ⟨hv, rfl⟩
    exact ⟨v, hv, rfl⟩

/-- Every entry of some siblings is below the name of one of them. -/
theorem exists_name_of_mem_texts {node : XMLNode} {path p : List String} {v : String}
    (h : (p,v) ∈ node.texts path) : ∃ k ∈ node.names, path ++ [k] <+: p := by
  induction node generalizing path with
  | null => cases h
  | text _ _ ih | comment _ _ ih => exact ih h
  | element name children next ihc ihn =>
    rcases mem_texts_element.mp h with ⟨-, rfl⟩ | hchild | hnext
    · exact ⟨name, List.mem_cons_self, List.prefix_rfl⟩
    · obtain ⟨k, _, hk⟩ := ihc hchild
      exact ⟨name, List.mem_cons_self, (List.prefix_append _ _).trans hk⟩
    · obtain ⟨k, hk, hp⟩ := ihn hnext
      exact ⟨k, List.mem_cons_of_mem _ hk, hp⟩

theorem name_unique {path p : List String} {k k' : String} (h : path ++ [k] <+: p)
    (h' : path ++ [k'] <+: p) : k = k' := by
  obtain ⟨r, rfl⟩ := h
  obtain ⟨r', hr'⟩ := h'
  rw [List.append_assoc, List.append_assoc] at hr'
  exact (List.cons.inj (List.append_cancel_left hr')).1.symm

/-- No path leads to two text-bearing elements. -/
theorem nodup_texts {node : XMLNode} (hwf : node.WellFormed) (path : List String) :
    (node.texts path).Nodup := by
  induction node generalizing path with
  | null => exact List.nodup_nil
  | text _ _ ih | comment _ _ ih => exact ih hwf path
  | element name children next ihc ihn =>
    obtain ⟨hname, _, hwfc, hwfn⟩ := hwf
    have hchildren {p : List String} {v : String} (h : (p,v) ∈ children.texts (path ++ [name])) :
        p ≠ path ++ [name] ∧ path ++ [name] <+: p := by
      obtain ⟨k, _, hk⟩ := exists_name_of_mem_texts h
      refine ⟨?_, (List.prefix_append _ _).trans hk⟩
      rintro rfl
      have hlen := hk.length_le
      simp at hlen
    have hnext {p : List String} {v : String} (h : (p,v) ∈ next.texts path) :
        ¬path ++ [name] <+: p := by
      obtain ⟨k, hk, hp⟩ := exists_name_of_mem_texts h
      exact fun hbelow => hname (name_unique hbelow hp ▸ hk)
    have hrest : (children.texts (path ++ [name]) ++ next.texts path).Nodup := by
      apply (ihc hwfc _).append (ihn hwfn path)
      rintro ⟨p, v⟩ hchild hlater
      exact hnext hlater (hchildren hchild).2
    rw [texts]
    cases (element name children next).GetText with
    | none => exact hrest
    | some v =>
      refine List.nodup_cons.mpr ⟨?_, hrest⟩
      intro hmem
      rcases List.mem_append.mp hmem with hchild | hlater
      · exact (hchildren hchild).1 rfl
      · exact hnext hlater List.prefix_rfl

end XMLNode

namespace MyPropertyTree

theorem add_child_of_not_below {path parent : List String} {k : String}
    (h : ¬parent ++ [k] <+: path) (tree : MyPropertyTree) (v : Option String) :
    tree.add_child parent k v path = tree path := if_neg h

theorem add_child_below (tree : MyPropertyTree) (parent : List String) (k : String)
    (v : Option String) {path : List String} {k' : String}
    (h : parent ++ [k] ++ [k'] <+: path) : tree.add_child parent k v path = none := by
  have hne : path ≠ parent ++ [k] := by
    rintro rfl
    have hlen := h.length_le
    simp at hlen
  exact (if_pos ((List.prefix_append _ _).trans h)).trans (if_neg hne)

/-- The values after a child is added where there was none. -/
theorem add_child_eq_some_iff {tree : MyPropertyTree} {parent : List String} {k : String}
    (hfresh : ∀ path, parent ++ [k] <+: path → tree path = none) (v : Option String)
    (path : List String) (w : String) :
    tree.add_child parent k v path = some (some w) ↔
      tree path = some (some w) ∨ path = parent ++ [k] ∧ v = some w := by
  by_cases hp : parent ++ [k] <+: path
  · by_cases he : path = parent ++ [k]
    · have hadd : tree.add_child parent k v path = some v := (if_pos hp).trans (if_pos he)
      rw [hadd, hfresh path hp]
      simp [he]
    · have hadd : tree.add_child parent k v path = none := (if_pos hp).trans (if_neg he)
      rw [hadd, hfresh path hp]
      simp [he]
  · rw [add_child_of_not_below hp]
    have hne : path ≠ parent ++ [k] := by
      rintro rfl
      exact hp List.prefix_rfl
    simp [hne]

end MyPropertyTree

namespace Visit
open XMLNode MyPropertyTree

/-- What the visit of siblings at `path` does to the tree: it appends what is visited, and
leaves what is under no name of theirs. -/
structure Fills (node : XMLNode) (path : List String) (tree tree' : MyPropertyTree) : Prop where
  values : ∀ p v, tree' p = some (some v) ↔ tree p = some (some v) ∨ (p,v) ∈ node.visited path
  frame : ∀ p, (∀ k ∈ node.names, ¬path ++ [k] <+: p) → tree' p = tree p

theorem Fills.refl {node : XMLNode} {path : List String} (h : node.visited path = [])
    (tree : MyPropertyTree) : Fills node path tree tree := by
  refine ⟨?_, fun _ _ => rfl⟩
  intro p v
  rw [h]
  simp

/-- A text-bearing element, and then its next siblings. -/
theorem Fills.text {name v : String} {rest next : XMLNode} {path : List String}
    {tree tree' : MyPropertyTree} (hfresh : ∀ p, path ++ [name] <+: p → tree p = none)
    (h : Fills next path (tree.append path name v) tree') :
    Fills (element name (text v rest) next) path tree tree' := by
  constructor
  · intro p w
    rw [h.values, append, add_child_eq_some_iff hfresh, or_assoc, Option.some_inj]
    simp only [visited, List.mem_cons, Prod.mk.injEq, eq_comm (a := w)]
  · intro p hp
    rw [h.frame p fun k hk => hp k (List.mem_cons_of_mem _ hk)]
    exact add_child_of_not_below (hp name List.mem_cons_self) _ _

/-- The children of an element, and then its next siblings if the children close. -/
theorem Fills.element {name : String} {children next : XMLNode} {path : List String}
    {tree tree₁ tree' : MyPropertyTree} (hfresh : ∀ p, path ++ [name] <+: p → tree p = none)
    (hne : children ≠ null) (htext : (XMLNode.element name children next).GetText = none)
    (h₁ : Fills children (path ++ [name]) (tree.add_child path name none) tree₁)
    (h : if children.closes then Fills next path tree₁ tree' else tree' = tree₁) :
    Fills (XMLNode.element name children next) path tree tree' := by
  have hvis := visited_element hne htext path
  have hvalues₁ : ∀ p w, tree₁ p = some (some w) ↔
      tree p = some (some w) ∨ (p,w) ∈ children.visited (path ++ [name]) := by
    intro p w
    rw [h₁.values, add_child_eq_some_iff hfresh]
    simp
  have hframe₁ : ∀ p, ¬path ++ [name] <+: p → tree₁ p = tree p := by
    intro p hp
    rw [h₁.frame p fun k _ hk => hp ((List.prefix_append _ _).trans hk)]
    exact add_child_of_not_below hp _ _
  cases hc : children.closes with
  | false =>
    simp only [hc, Bool.false_eq_true, if_false, List.append_nil] at h hvis
    subst h
    refine ⟨?_, ?_⟩
    · intro p w
      rw [hvalues₁, hvis]
    · intro p hp
      exact hframe₁ p (hp name List.mem_cons_self)
  | true =>
    simp only [hc, if_true] at h hvis
    refine ⟨?_, ?_⟩
    · intro p w
      rw [h.values, hvalues₁, hvis, List.mem_append, or_assoc]
    · intro p hp
      rw [h.frame p fun k hk => hp k (List.mem_cons_of_mem _ hk)]
      exact hframe₁ p (hp name List.mem_cons_self)

/-- The calls from `s` on lead to the climb if the siblings close, and otherwise end. -/
def Leads (closes : Bool) (s : Visit) (up : List XMLNode) (path : List String)
    (tree' : MyPropertyTree) : Prop :=
  if closes then ∀ t, Exits visit (climb up path tree') t → Exits visit s t
  else ∃ t, Exits visit s t ∧ t.tree = tree'

theorem Leads.of_exits {c : Bool} {s s' : Visit} {up : List XMLNode} {path : List String}
    {tree' : MyPropertyTree} (h : Leads c s' up path tree')
    (hs : ∀ t, Exits visit s' t → Exits visit s t) : Leads c s up path tree' := by
  cases c with
  | false =>
    obtain ⟨t, ht, he⟩ := h
    exact ⟨t, hs t ht, he⟩
  | true => exact fun t ht => hs t (h t ht)

theorem visit_siblings (node : XMLNode) (up : List XMLNode) (path : List String)
    (tree : MyPropertyTree) (hwf : node.WellFormed)
    (hfresh : ∀ k ∈ node.names, ∀ p, path ++ [k] <+: p → tree p = none) :
    ∃ tree', Fills node path tree tree' ∧
      Leads node.closes ⟨node,up,some path,tree⟩ up path tree' := by
  induction node generalizing up path tree with
  | null => exact ⟨tree, .refl rfl tree, _, .stop rfl, rfl⟩
  | text v next _ => exact ⟨tree, .refl rfl tree, _, .stop rfl, rfl⟩
  | comment v next _ => exact ⟨tree, .refl rfl tree, _, .stop rfl, rfl⟩
  | element name children next ihc ihn =>
    obtain ⟨hname, _, hwfc, hwfn⟩ := hwf
    have hown := hfresh name List.mem_cons_self
    have hfree {tree₁ : MyPropertyTree} (h₁ : ∀ p, ¬path ++ [name] <+: p → tree₁ p = tree p) :
        ∀ k ∈ next.names, ∀ p, path ++ [k] <+: p → tree₁ p = none := by
      intro k hk p hp
      have hnot : ¬path ++ [name] <+: p := fun h => hname (name_unique h hp ▸ hk)
      rw [h₁ p hnot]
      exact hfresh k (List.mem_cons_of_mem _ hk) p hp
    rcases content_cases name children next with rfl | ⟨v, rest, rfl⟩ | ⟨hne, htext⟩
    · exact ⟨tree, .refl rfl tree, fun t ht => .again rfl ht⟩
    · by_cases hlast : next = null
      · subst hlast
        exact ⟨_, .text hown (.refl rfl _), fun t ht => .again rfl ht⟩
      · obtain ⟨tree', hfills, hrun⟩ := ihn up path (tree.append path name v) hwfn
          (hfree fun p hp => add_child_of_not_below hp _ _)
        have hstep : visit ⟨element name (text v rest) next,up,some path,tree⟩ =
            (⟨next,up,some path,tree.append path name v⟩,true) := by
          simp [visit, GetText, hlast]
        have hcloses : (element name (text v rest) next).closes = next.closes := by
          simp [closes, hlast]
        refine ⟨tree', .text hown hfills, ?_⟩
        rw [hcloses]
        exact hrun.of_exits fun t ht => .again hstep ht
    · have hstep : visit ⟨element name children next,up,some path,tree⟩ =
          (⟨children,next::up,some (path ++ [name]),tree.add_child path name none⟩,true) := by
        simp [visit, htext, hne]
      obtain ⟨tree₁, hfills₁, hrun₁⟩ := ihc (next::up) (path ++ [name])
        (tree.add_child path name none) hwfc fun k _ p hp => add_child_below _ _ _ _ hp
      have hframe₁ : ∀ p, ¬path ++ [name] <+: p → tree₁ p = tree p := by
        intro p hp
        rw [hfills₁.frame p fun k _ hk => hp ((List.prefix_append _ _).trans hk)]
        exact add_child_of_not_below hp _ _
      cases hc : children.closes with
      | false =>
        rw [hc] at hrun₁
        refine ⟨tree₁, .element hown hne htext hfills₁ (by simp [hc]), ?_⟩
        rw [closes_element hne htext, hc, Bool.false_and]
        obtain ⟨t, ht, he⟩ := hrun₁
        exact ⟨t, .again hstep ht, he⟩
      | true =>
        rw [hc] at hrun₁
        obtain ⟨tree', hfills, hrun⟩ := ihn up path tree₁ hwfn (hfree hframe₁)
        have hclimb : climb (next::up) (path ++ [name]) tree₁ = ⟨next,up,some path,tree₁⟩ := by
          simp [climb, parentOf]
        refine ⟨tree', .element hown hne htext hfills₁ (by simpa [hc] using hfills), ?_⟩
        rw [closes_element hne htext, hc, Bool.true_and]
        exact hrun.of_exits fun t ht => .again hstep (hrun₁ t (hclimb ▸ ht))

/-- From the root, the visit ends with what is visited and nothing else in the tree. -/
theorem visit_start {root : XMLNode} (hwf : root.WellFormed) :
    ∃ t, Exits visit (start root) t ∧
      ∀ p v, t.tree p = some (some v) ↔ (p,v) ∈ root.visited [] := by
  have hnew : ∀ k ∈ root.names, ∀ p, [] ++ [k] <+: p → MyPropertyTree.new p = none := by
    intro k _ p hp
    refine if_neg ?_
    rintro rfl
    cases List.prefix_nil.mp hp
  have hempty : ∀ p v, MyPropertyTree.new p ≠ some (some v) := by
    intro p v h
    rw [MyPropertyTree.new] at h
    split at h <;> simp at h
  obtain ⟨tree', hfills, hrun⟩ := visit_siblings root [] [] MyPropertyTree.new hwf hnew
  have hvalues : ∀ p v, tree' p = some (some v) ↔ (p,v) ∈ root.visited [] := by
    intro p v
    rw [hfills.values]
    exact or_iff_right (hempty p v)
  cases hc : root.closes with
  | false =>
    rw [hc] at hrun
    obtain ⟨t, ht, he⟩ := hrun
    exact ⟨t, ht, he ▸ hvalues⟩
  | true =>
    rw [hc] at hrun
    exact ⟨_, hrun _ (.stop rfl), hvalues⟩

end Visit

namespace XMLNode

theorem loads_iff {root : XMLNode} (h : root.Document) : root.Loads ↔ root.Complete := by
  have hwf : root.WellFormed := by
    cases root with
    | element name children next => exact h.1
    | null | text _ _ | comment _ _ => exact h.elim
  obtain ⟨t, ht, hvalues⟩ := Visit.visit_start hwf
  rw [← visited_eq_texts_iff hwf []]
  constructor
  · rintro ⟨t', ht', hall⟩
    have hmem : root.texts [] ⊆ root.visited [] := by
      rintro ⟨path,v⟩ hv
      rw [← hvalues, ht.unique ht', hall]
      exact hv
    exact (root.visited_sublist []).eq_of_length_le
      ((nodup_texts hwf []).subperm hmem).length_le
  · intro hall
    refine ⟨t, ht, ?_⟩
    intro path v
    rw [hvalues, hall]

/-- `<R><A><B><C>c</C></B></A><D>d</D></R>`: two levels close after `C`, and `D` is not visited. -/
theorem not_loads_two_levels :
    let root := element "R" (element "A" (element "B" (element "C" (text "c" null) null) null)
      (element "D" (text "d" null) null)) null
    root.Document ∧ (["R","D"],"d") ∈ root.texts [] ∧ ¬root.Loads := by
  intro root
  have hd : (["R","D"],"d") ∈ root.texts [] := by simp [root, texts, GetText]
  refine ⟨?_, hd, ?_⟩
  · simp [root, Document, WellFormed, names, OnlyText, NoText]
  · rintro ⟨t, ht, hall⟩
    have hrun : Exits Visit.visit (Visit.start root) _ := Exits.of_execLoop (n := 5) rfl
    have hval := (hall _ _).mpr hd
    rw [ht.unique hrun] at hval
    exact absurd hval (by decide)

/-- `<R><A><B>b</B></A><D>d</D></R>`. -/
theorem loads_one_level :
    (element "R" (element "A" (element "B" (text "b" null) null)
      (element "D" (text "d" null) null)) null).Loads := by
  refine (loads_iff ?_).mpr ?_
  · simp [Document, WellFormed, names, OnlyText, NoText]
  · simp [Complete, texts, closes]

end XMLNode
end EchoFrame
