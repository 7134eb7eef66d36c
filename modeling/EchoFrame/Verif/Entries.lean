import Mathlib.Data.List.Basic
import Mathlib.Tactic.Common
import Std.Data.ExtTreeMap

/-! A list of entries of which one is replaced: the entries before and after it, and
what of the list stays as it was; and the entries of a map in the order of their keys. -/
namespace Verif

variable {β γ : Type*} {l : List β} {i : ℕ} {x y : β}

theorem getElem?_set_of_getElem? (h : l[i]? = some x) (y : β) (j : ℕ) :
    (l.set i y)[j]? = if i = j then some y else l[j]? := by
  have hlt : i < l.length := (List.getElem?_eq_some_iff.mp h).1
  rw [List.getElem?_set, if_pos hlt]

/-- What the new entry shares with the old one, the lists share. -/
theorem map_set_of_getElem? {g : β → γ} (h : l[i]? = some x) (hg : g y = g x) :
    (l.set i y).map g = l.map g := by
  apply List.ext_getElem?
  intro j
  rw [List.getElem?_map, List.getElem?_map, getElem?_set_of_getElem? h]
  split
  · next heq => rw [← heq, h, Option.map_some, Option.map_some, hg]
  · rfl

theorem exists_split_of_getElem? (h : l[i]? = some x) :
    ∃ before after, l = before ++ x :: after ∧ l.eraseIdx i = before ++ after ∧
      ∀ y, l.set i y = before ++ y :: after := by
  obtain ⟨hi, rfl⟩ := List.getElem?_eq_some_iff.mp h
  refine ⟨l.take i, l.drop (i+1), ?_, List.eraseIdx_eq_take_drop_succ l i, ?_⟩
  · rw [List.getElem_cons_drop, List.take_append_drop]
  · intro y
    rw [List.set_eq_take_append_cons_drop, if_pos hi]

theorem mem_modify {f : β → β} (h : y ∈ l.modify i f) : ∃ x ∈ l, y = x ∨ y = f x := by
  obtain ⟨j, hj⟩ := List.mem_iff_getElem?.mp h
  rw [List.getElem?_modify] at hj
  obtain ⟨x, hx, hxy⟩ := Option.map_eq_some_iff.mp hj
  refine ⟨x, List.mem_of_getElem? hx, ?_⟩
  split at hxy
  · exact .inr hxy.symm
  · exact .inl hxy.symm

theorem map_modify {f : β → β} {g : β → γ} (h : ∀ x, g (f x) = g x) (l : List β) (i : ℕ) :
    (l.modify i f).map g = l.map g := by
  apply List.ext_getElem?
  intro j
  rw [List.getElem?_map, List.getElem?_map, List.getElem?_modify, Option.map_eq_map, Option.map_map]
  refine Option.map_congr fun x _ => ?_
  rw [Function.comp_apply]
  split
  · exact h x
  · rfl

theorem sorted_toList {κ α : Type*} [LE κ] [LT κ] [Ord κ] [Std.TransOrd κ] [Std.LawfulOrderOrd κ]
    [Std.LawfulOrderLT κ] (m : Std.ExtTreeMap κ α) : m.toList.Pairwise fun e e' => e.1 < e'.1 :=
  Std.ExtTreeMap.ordered_keys_toList.imp Std.compare_eq_lt.mp

/-- Of a list sorted by its keys, the first entry that meets `p` is the one of the least key. -/
theorem find?_eq_some_iff_least {κ α : Type*} [LE κ] [LT κ] [Std.IsLinearOrder κ]
    [Std.LawfulOrderLT κ] {entries : List (κ × α)}
    (hsorted : entries.Pairwise fun e e' => e.1 < e'.1) (p : κ × α → Bool) (e : κ × α) :
    entries.find? p = some e ↔ e ∈ entries ∧ p e = true ∧ ∀ e' ∈ entries, p e' = true → e.1 ≤ e'.1 := by
  induction entries with
  | nil => simp
  | cons entry entries ih =>
    rw [List.pairwise_cons] at hsorted
    rw [List.find?_cons]
    cases hp : p entry with
    | true =>
      constructor
      · intro h
        cases h
        refine ⟨List.mem_cons_self, hp, ?_⟩
        rw [List.forall_mem_cons]
        exact ⟨fun _ => Std.le_refl _, fun e' he' _ => Std.le_of_lt (hsorted.1 e' he')⟩
      · rintro ⟨hmem, -, hleast⟩
        rcases List.mem_cons.mp hmem with rfl | hmem
        · rfl
        · have hle := hleast entry List.mem_cons_self hp
          exact absurd (hsorted.1 e hmem) (Std.not_lt.mpr hle)
    | false =>
      dsimp only
      rw [ih hsorted.2]
      constructor
      · rintro ⟨hmem, he, hleast⟩
        refine ⟨List.mem_cons_of_mem _ hmem, he, ?_⟩
        rw [List.forall_mem_cons]
        exact ⟨fun h => absurd (hp.symm.trans h) Bool.false_ne_true, hleast⟩
      · rintro ⟨hmem, he, hleast⟩
        rcases List.mem_cons.mp hmem with rfl | hmem
        · exact absurd (hp.symm.trans he) Bool.false_ne_true
        · exact ⟨hmem, he, fun e' he' => hleast e' (List.mem_cons_of_mem _ he')⟩

end Verif
