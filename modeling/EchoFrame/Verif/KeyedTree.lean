import Mathlib.Data.List.Basic
import Mathlib.Data.List.Infix
import Mathlib.Tactic.Common
import Std.Data.TreeMap.Raw

/-! Trees whose nodes have a label each and their children in an ordered map by key. -/
namespace Verif
open Std

/-- The entries of an ordered map, in any list that has them in the order of their keys. -/
theorem toList_eq_of_pairwise {κ β : Type} {cmp : κ → κ → Ordering} [TransCmp cmp]
    [LawfulEqCmp cmp] {m : TreeMap.Raw κ β cmp} (h : m.WF) {l : List (κ × β)}
    (hl : l.Pairwise fun a b => cmp a.1 b.1 = .lt)
    (hmem : ∀ k b, (k,b) ∈ l ↔ m[k]? = some b) : m.toList = l := by
  have hlt (a b : κ × β) (hab : cmp a.1 b.1 = .lt) : ¬ cmp b.1 a.1 = .lt := by
    rw [OrientedCmp.gt_of_lt hab]
    decide
  have hne (a b : κ × β) (hab : cmp a.1 b.1 = .lt) : a ≠ b := by
    rintro rfl
    exact hlt a a hab hab
  have hm := TreeMap.Raw.ordered_keys_toList h
  apply List.Perm.eq_of_pairwise (fun a b _ _ hab hba => absurd hba (hlt a b hab)) hm hl
  rw [List.perm_ext_iff_of_nodup (hm.imp (hne _ _)) (hl.imp (hne _ _))]
  intro entry
  rw [TreeMap.Raw.mem_toList_iff_getElem?_eq_some h, hmem]

inductive KeyedTree (κ α : Type) (cmp : κ → κ → Ordering) : Type
  | node (label : α) (childs : TreeMap.Raw κ (KeyedTree κ α cmp) cmp)

namespace KeyedTree

variable {κ α : Type} {cmp : κ → κ → Ordering}

def label : KeyedTree κ α cmp → α
  | node a _ => a

def childs : KeyedTree κ α cmp → TreeMap.Raw κ (KeyedTree κ α cmp) cmp
  | node _ c => c

def leaf (a : α) : KeyedTree κ α cmp := node a ∅

/-- A new child, in the place of one of the same key with all that is below it. -/
def put (t : KeyedTree κ α cmp) (k : κ) (c : KeyedTree κ α cmp) : KeyedTree κ α cmp :=
  node t.label (t.childs.insert k c)

/-- The same children below another label. -/
def relabel (t : KeyedTree κ α cmp) (a : α) : KeyedTree κ α cmp := node a t.childs

def find : KeyedTree κ α cmp → List κ → Option (KeyedTree κ α cmp)
  | t, [] => some t
  | t, k :: p => t.childs[k]?.bind fun c => c.find p

def labelAt (t : KeyedTree κ α cmp) (p : List κ) : Option α := (t.find p).map label

def nodeAt (fresh : α) (t : KeyedTree κ α cmp) (p : List κ) : KeyedTree κ α cmp :=
  (t.find p).getD (leaf fresh)

/-- A change of the node at the end of a path, the nodes on the way are made where there are none. -/
def modifyAt (fresh : α) (f : KeyedTree κ α cmp → KeyedTree κ α cmp) :
    List κ → KeyedTree κ α cmp → KeyedTree κ α cmp
  | [], t => f t
  | k :: p, t => t.put k (modifyAt fresh f p (t.childs[k]?.getD (leaf fresh)))

/-- The maps of all nodes are ordered. -/
def WellFormed (t : KeyedTree κ α cmp) : Prop := ∀ p n, t.find p = some n → n.childs.WF

variable {t c : KeyedTree κ α cmp} {fresh a : α} {f : KeyedTree κ α cmp → KeyedTree κ α cmp}
  {k k' : κ} {p q r : List κ}

theorem find_nil (t : KeyedTree κ α cmp) : t.find [] = some t := rfl

theorem find_singleton (t : KeyedTree κ α cmp) (k : κ) : t.find [k] = t.childs[k]? := by
  rw [find]
  cases t.childs[k]? <;> rfl

theorem find_append (t : KeyedTree κ α cmp) (p q : List κ) :
    t.find (p ++ q) = (t.find p).bind fun c => c.find q := by
  induction p generalizing t with
  | nil => rfl
  | cons k p ih =>
    rw [List.cons_append, find, find, Option.bind_assoc]
    congr 1
    exact funext fun c => ih c

/-- What is on the way to a node is there. -/
theorem isSome_find_of_append (h : (t.find (p ++ q)).isSome = true) : (t.find p).isSome = true := by
  rw [find_append] at h
  exact Option.isSome_of_isSome_bind h

theorem childs_leaf (a : α) (k : κ) : (leaf a : KeyedTree κ α cmp).childs[k]? = none := rfl

theorem find_leaf (a : α) (k : κ) (p : List κ) : (leaf a : KeyedTree κ α cmp).find (k :: p) = none := by
  rw [find, childs_leaf, Option.bind_none]

theorem nodeAt_leaf (a : α) (p : List κ) : (leaf a : KeyedTree κ α cmp).nodeAt a p = leaf a := by
  cases p with
  | nil => rfl
  | cons k p => rw [nodeAt, find_leaf, Option.getD_none]

theorem find_nodeAt_cons (t : KeyedTree κ α cmp) (p : List κ) (k : κ) (r : List κ) :
    (t.nodeAt fresh p).find (k :: r) = t.find (p ++ k :: r) := by
  rw [nodeAt, find_append]
  cases t.find p with
  | none => rw [Option.getD_none, find_leaf, Option.bind_none]
  | some n => rw [Option.getD_some, Option.bind_some]

/-- The node behind a child that may be missing. -/
theorem nodeAt_child (t : KeyedTree κ α cmp) (k : κ) (p : List κ) :
    (t.childs[k]?.getD (leaf fresh)).nodeAt fresh p = t.nodeAt fresh (k :: p) := by
  cases hk : t.childs[k]? with
  | none => rw [Option.getD_none, nodeAt_leaf, nodeAt, find, hk, Option.bind_none, Option.getD_none]
  | some c => rw [Option.getD_some, nodeAt, nodeAt, find, hk, Option.bind_some]

theorem find_child (t : KeyedTree κ α cmp) (k : κ) (hp : p ≠ []) :
    (t.childs[k]?.getD (leaf fresh)).find p = t.find (k :: p) := by
  obtain ⟨j, p, rfl⟩ := List.exists_cons_of_ne_nil hp
  cases hk : t.childs[k]? with
  | none => rw [Option.getD_none, find_leaf, find, hk, Option.bind_none]
  | some c => rw [Option.getD_some, find.eq_2 t, hk, Option.bind_some]

theorem labelAt_nodeAt (t : KeyedTree κ α cmp) (p : List κ) :
    (t.nodeAt fresh p).label = (t.labelAt p).getD fresh := by
  rw [nodeAt, labelAt]
  cases t.find p <;> rfl

theorem WellFormed.childs (h : t.WellFormed) : t.childs.WF := h [] t rfl

theorem wellFormed_leaf (a : α) : (leaf a : KeyedTree κ α cmp).WellFormed := by
  intro p n hn
  cases p with
  | nil =>
    cases hn
    exact TreeMap.Raw.WF.empty
  | cons k p =>
    rw [find_leaf] at hn
    cases hn

theorem childs_relabel (t : KeyedTree κ α cmp) (a : α) : (t.relabel a).childs = t.childs := rfl

theorem WellFormed.relabel (h : t.WellFormed) (a : α) : (t.relabel a).WellFormed := by
  intro p n hn
  cases p with
  | nil =>
    cases hn
    exact h.childs
  | cons k p => exact h (k :: p) n hn

theorem WellFormed.find (h : t.WellFormed) (hc : t.find p = some c) : c.WellFormed := by
  intro q n hn
  apply h (p ++ q)
  rw [find_append, hc]
  exact hn

theorem WellFormed.nodeAt (h : t.WellFormed) (p : List κ) : (t.nodeAt fresh p).WellFormed := by
  unfold KeyedTree.nodeAt
  cases hp : t.find p with
  | none => exact wellFormed_leaf fresh
  | some c => exact h.find hp

theorem WellFormed.child (h : t.WellFormed) (k : κ) :
    (t.childs[k]?.getD (leaf fresh)).WellFormed := by
  have hnode : (t.nodeAt fresh [k]).WellFormed := h.nodeAt [k]
  rwa [← nodeAt_child] at hnode

variable [TransCmp cmp]

theorem getElem?_put_self (h : t.childs.WF) (k : κ) (c : KeyedTree κ α cmp) :
    (t.put k c).childs[k]? = some c :=
  TreeMap.Raw.getElem?_insert_self h

theorem find_put_self (h : t.childs.WF) (k : κ) (c : KeyedTree κ α cmp) (p : List κ) :
    (t.put k c).find (k :: p) = c.find p := by
  rw [find, getElem?_put_self h, Option.bind_some]

/-- From the changed node on there is what the change makes of it. -/
theorem find_modifyAt_append (h : t.WellFormed) (p q : List κ) :
    (modifyAt fresh f p t).find (p ++ q) = (f (t.nodeAt fresh p)).find q := by
  induction p generalizing t with
  | nil => rfl
  | cons k p ih =>
    rw [List.cons_append, modifyAt, find_put_self h.childs, ih (h.child k), nodeAt_child]

theorem find_modifyAt_self (h : t.WellFormed) (p : List κ) :
    (modifyAt fresh f p t).find p = some (f (t.nodeAt fresh p)) := by
  have hself : (modifyAt fresh f p t).find (p ++ []) = (f (t.nodeAt fresh p)).find [] :=
    find_modifyAt_append h p []
  rwa [List.append_nil, find_nil] at hself

/-- The nodes on the way keep their labels, and new ones have the fresh one. -/
theorem labelAt_modifyAt_of_append (h : t.WellFormed) (p : List κ) (hq : q ≠ []) :
    (modifyAt fresh f (p ++ q) t).labelAt p = some ((t.labelAt p).getD fresh) := by
  induction p generalizing t with
  | nil =>
    obtain ⟨k, q, rfl⟩ := List.exists_cons_of_ne_nil hq
    rfl
  | cons k p ih =>
    have hchild : (t.childs[k]?.getD (leaf fresh)).WellFormed := h.child k
    have hrest := ih hchild
    rw [← labelAt_nodeAt, nodeAt_child, labelAt_nodeAt] at hrest
    rw [List.cons_append, modifyAt, labelAt, find_put_self h.childs]
    exact hrest

variable [LawfulEqCmp cmp]

theorem getElem?_put_of_ne (h : t.childs.WF) (hk : k ≠ k') (c : KeyedTree κ α cmp) :
    (t.put k c).childs[k']? = t.childs[k']? :=
  (TreeMap.Raw.getElem?_insert h).trans (if_neg fun he => hk (LawfulEqCmp.eq_of_compare he))

theorem find_put_of_ne (h : t.childs.WF) (hk : k ≠ k') (c : KeyedTree κ α cmp) (p : List κ) :
    (t.put k c).find (k' :: p) = t.find (k' :: p) := by
  rw [find, getElem?_put_of_ne h hk, find]

theorem wellFormed_put (h : t.WellFormed) (hc : c.WellFormed) (k : κ) : (t.put k c).WellFormed := by
  intro p n hn
  cases p with
  | nil =>
    cases hn
    exact TreeMap.Raw.WF.insert h.childs
  | cons k' p =>
    by_cases hk : k = k'
    · subst hk
      rw [find_put_self h.childs] at hn
      exact hc p n hn
    · rw [find_put_of_ne h.childs hk] at hn
      exact h _ n hn

theorem wellFormed_modifyAt (hf : ∀ n, n.WellFormed → (f n).WellFormed) (h : t.WellFormed)
    (p : List κ) : (modifyAt fresh f p t).WellFormed := by
  induction p generalizing t with
  | nil => exact hf t h
  | cons k p ih => exact wellFormed_put h (ih (h.child k)) k

/-- Everything that is not on the way to the changed node or below it is unchanged. -/
theorem find_modifyAt_of_not (h : t.WellFormed) (hpq : ¬ p <+: q) (hqp : ¬ q <+: p) :
    (modifyAt fresh f p t).find q = t.find q := by
  induction p generalizing t q with
  | nil => exact absurd List.nil_prefix hpq
  | cons k p ih =>
    cases q with
    | nil => exact absurd List.nil_prefix hqp
    | cons k' q =>
      rw [modifyAt]
      by_cases hk : k = k'
      · subst hk
        rw [List.cons_prefix_cons, and_iff_right rfl] at hpq hqp
        have hq : q ≠ [] := by
          rintro rfl
          exact hqp List.nil_prefix
        rw [find_put_self h.childs, ih (h.child k) hpq hqp, find_child t k hq]
      · exact find_put_of_ne h.childs hk _ q

/-- The labels after a new leaf was put below the end of a path. -/
theorem labelAt_put_leaf [DecidableEq κ] (h : t.WellFormed) (p : List κ) (k : κ) (a : α)
    (q : List κ) :
    (modifyAt fresh (fun n => n.put k (leaf a)) p t).labelAt q =
      if p ++ [k] <+: q then (if q = p ++ [k] then some a else none)
      else if q <+: p then some ((t.labelAt q).getD fresh)
      else t.labelAt q := by
  have hnode : (t.nodeAt fresh p).childs.WF := (h.nodeAt p).childs
  by_cases hkq : p ++ [k] <+: q
  · rw [if_pos hkq]
    obtain ⟨r, rfl⟩ := hkq
    rw [List.append_assoc, labelAt, find_modifyAt_append h, List.singleton_append,
      find_put_self hnode]
    cases r with
    | nil =>
      rw [if_pos rfl]
      rfl
    | cons j r =>
      rw [find_leaf, if_neg (by simp)]
      rfl
  rw [if_neg hkq]
  by_cases hqp : q <+: p
  · rw [if_pos hqp]
    obtain ⟨r, rfl⟩ := hqp
    by_cases hr : r = []
    · subst hr
      rw [List.append_nil] at hnode ⊢
      rw [← labelAt_nodeAt, labelAt, find_modifyAt_self h]
      rfl
    · exact labelAt_modifyAt_of_append h q hr
  rw [if_neg hqp, labelAt, labelAt]
  congr 1
  by_cases hpq : p <+: q
  · obtain ⟨r, rfl⟩ := hpq
    cases r with
    | nil => exact absurd (by rw [List.append_nil]) hqp
    | cons j r =>
      have hj : k ≠ j := by
        rintro rfl
        exact hkq ⟨r, by rw [List.append_assoc, List.singleton_append]⟩
      rw [find_modifyAt_append h, find_put_of_ne hnode hj, find_nodeAt_cons]
  · exact find_modifyAt_of_not h hpq hqp

end KeyedTree
end Verif
