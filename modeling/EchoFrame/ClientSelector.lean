import Mathlib.Data.List.Nodup
import Mathlib.Data.List.Perm.Basic
import EchoFrame.Verif.Entries
import Std.Data.ExtTreeMap

/-! The selector that a proxy takes the client of a call from. -/
namespace EchoFrame
open Verif Std

/-- The weak pointers, each under the uid that its client was constructed with. -/
structure MyClientSelector (uid : ℕ → UInt64) where
  clients : ExtTreeMap UInt64 ℕ
  keyed : ∀ k x, clients[k]? = some x → uid x = k

namespace MyClientSelector

variable {uid : ℕ → UInt64}

def empty : MyClientSelector uid := ⟨∅,by simp⟩

def addClient (s : MyClientSelector uid) (client : ℕ) : MyClientSelector uid where
  clients := s.clients.insert (uid client) client
  keyed k x h := by
    rw [ExtTreeMap.getElem?_insert] at h
    split at h
    · next heq =>
      rw [← Option.some.inj h]
      exact Std.compare_eq_iff_eq.mp heq
    · exact s.keyed k x h

def removeClient (s : MyClientSelector uid) (it : UInt64) : MyClientSelector uid where
  clients := s.clients.erase it
  keyed k x h := by
    rw [ExtTreeMap.getElem?_erase] at h
    split at h
    · cases h
    · exact s.keyed k x h

/-- The loop of `getClient` on the entries that are left. `alive` is whether the `lock` of a
weak pointer gives the client. -/
def getClientLoop (alive : ℕ → Bool) :
    List (UInt64 × ℕ) → MyClientSelector uid → Option ℕ × MyClientSelector uid
  | [], s => (none,s)
  | (it,c) :: rest, s =>
    let s := s.removeClient it
    -- the client goes back under its own uid
    if alive c then (some c,s.addClient c) else getClientLoop alive rest s

def getClient (alive : ℕ → Bool) (s : MyClientSelector uid) : Option ℕ × MyClientSelector uid :=
  getClientLoop alive s.clients.toList s

def calls (alive : ℕ → Bool) : ℕ → MyClientSelector uid → List (Option ℕ) × MyClientSelector uid
  | 0, s => ([],s)
  | n+1, s =>
    let (c,s) := s.getClient alive
    let (cs,s) := calls alive n s
    (c :: cs,s)

def live (alive : ℕ → Bool) (s : MyClientSelector uid) : List ℕ :=
  (s.clients.toList.map Prod.snd).filter alive

/-- A call returns a live client if there is one and drops expired entries only, and as many
calls as there are live clients return each of them once, at any time. -/
structure Rotates (alive : ℕ → Bool) (s : MyClientSelector uid) : Prop where
  chosen : ∀ c, (s.getClient alive).1 = some c → c ∈ s.live alive
  exhausted : (s.getClient alive).1 = none → s.live alive = []
  kept : ∀ (k : UInt64) c, s.clients[k]? = some c → alive c = true →
    (s.getClient alive).2.clients[k]? = some c
  old : ∀ (k : UInt64) c, (s.getClient alive).2.clients[k]? = some c → s.clients[k]? = some c
  each : ∀ m, ((calls alive m s).2.calls alive (s.live alive).length).1.Perm
    ((s.live alive).map some)

variable {alive : ℕ → Bool} {s t : MyClientSelector uid}

theorem getElem?_addClient (s : MyClientSelector uid) (client : ℕ) (k : UInt64) :
    (s.addClient client).clients[k]? = if uid client = k then some client else s.clients[k]? := by
  rw [addClient, ExtTreeMap.getElem?_insert]
  simp only [Std.compare_eq_iff_eq]

theorem getElem?_removeClient (s : MyClientSelector uid) (it k : UInt64) :
    (s.removeClient it).clients[k]? = if it = k then none else s.clients[k]? := by
  rw [removeClient, ExtTreeMap.getElem?_erase]
  simp only [Std.compare_eq_iff_eq]

theorem mem_live {c : ℕ} :
    c ∈ s.live alive ↔ s.clients[uid c]? = some c ∧ alive c = true := by
  rw [live, List.mem_filter, List.mem_map]
  apply and_congr_left
  intro _
  constructor
  · rintro ⟨⟨k, x⟩, hmem, rfl⟩
    have hk := ExtTreeMap.mem_toList_iff_getElem?_eq_some.mp hmem
    rw [s.keyed k x hk]
    exact hk
  · intro h
    exact ⟨(uid c,c), ExtTreeMap.mem_toList_iff_getElem?_eq_some.mpr h, rfl⟩

theorem nodup_live (s : MyClientSelector uid) : (s.live alive).Nodup := by
  have hnodup : (s.clients.toList.map Prod.snd).Nodup := by
    rw [List.Nodup, List.pairwise_map]
    apply (sorted_toList s.clients).imp_of_mem
    intro e e' he he' hlt heq
    have hk := s.keyed _ _ (ExtTreeMap.mem_toList_iff_getElem?_eq_some.mp he)
    have hk' := s.keyed _ _ (ExtTreeMap.mem_toList_iff_getElem?_eq_some.mp he')
    rw [← hk, ← hk', heq] at hlt
    exact UInt64.lt_irrefl _ hlt
  exact hnodup.filter _

theorem getClientLoop_fst (entries : List (UInt64 × ℕ)) (s : MyClientSelector uid) :
    (getClientLoop alive entries s).1 = (entries.find? fun e => alive e.2).map Prod.snd := by
  induction entries generalizing s with
  | nil => rfl
  | cons entry entries ih =>
    obtain ⟨it, c⟩ := entry
    rw [getClientLoop, List.find?_cons]
    cases hc : alive c with
    | true => rfl
    | false => exact ih _

/-- The client that is returned is the live one of the least uid. -/
theorem getClient_eq_some_iff {c : ℕ} : (s.getClient alive).1 = some c ↔
    c ∈ s.live alive ∧ ∀ d ∈ s.live alive, uid c ≤ uid d := by
  have hentry {d : ℕ} : (uid d,d) ∈ s.clients.toList ↔ s.clients[uid d]? = some d :=
    ExtTreeMap.mem_toList_iff_getElem?_eq_some
  have hkey {e : UInt64 × ℕ} (he : e ∈ s.clients.toList) : e.1 = uid e.2 :=
    (s.keyed _ _ (ExtTreeMap.mem_toList_iff_getElem?_eq_some.mp he)).symm
  rw [getClient, getClientLoop_fst, Option.map_eq_some_iff]
  constructor
  · rintro ⟨e, hfind, rfl⟩
    obtain ⟨hmem, he, hleast⟩ := (find?_eq_some_iff_least (sorted_toList s.clients) _ e).mp hfind
    have hmem' : (uid e.2,e.2) ∈ s.clients.toList := by
      rw [← hkey hmem]
      exact hmem
    refine ⟨mem_live.mpr ⟨hentry.mp hmem', he⟩, ?_⟩
    intro d hd
    have hd := mem_live.mp hd
    rw [← hkey hmem]
    exact hleast (uid d,d) (hentry.mpr hd.1) hd.2
  · rintro ⟨hc, hleast⟩
    have hc := mem_live.mp hc
    refine ⟨(uid c,c), ?_, rfl⟩
    refine (find?_eq_some_iff_least (sorted_toList s.clients) _ _).mpr ⟨hentry.mpr hc.1, hc.2, ?_⟩
    intro e he hlive
    rw [hkey he]
    apply hleast
    rw [mem_live, ← hkey he]
    exact ⟨ExtTreeMap.mem_toList_iff_getElem?_eq_some.mp he, hlive⟩

theorem getClient_eq_none_iff : (s.getClient alive).1 = none ↔ s.live alive = [] := by
  rw [getClient, getClientLoop_fst, Option.map_eq_none_iff, List.find?_eq_none, live,
    List.filter_eq_nil_iff, List.forall_mem_map]

/-- A client that is put back where it was changes nothing. -/
theorem getElem?_putBack {it : UInt64} {c : ℕ} (h : s.clients[it]? = some c) (k : UInt64) :
    ((s.removeClient it).addClient c).clients[k]? = s.clients[k]? := by
  rw [getElem?_addClient, getElem?_removeClient, s.keyed it c h]
  split
  · next heq => rw [← heq, h]
  · rfl

theorem getClientLoop_kept {entries : List (UInt64 × ℕ)}
    (hsorted : entries.Pairwise fun e e' => e.1 < e'.1)
    (hmem : ∀ e ∈ entries, s.clients[e.1]? = some e.2) {k : UInt64} {c : ℕ} :
    ((getClientLoop alive entries s).2.clients[k]? = some c → s.clients[k]? = some c) ∧
      (s.clients[k]? = some c → alive c = true →
        (getClientLoop alive entries s).2.clients[k]? = some c) := by
  -- each step takes out the first entry left, for good if it expired
  induction entries generalizing s with
  | nil => exact ⟨id, fun h _ => h⟩
  | cons entry entries ih =>
    obtain ⟨it, x⟩ := entry
    rw [List.pairwise_cons] at hsorted
    have hit : s.clients[it]? = some x := hmem (it,x) List.mem_cons_self
    rw [getClientLoop]
    cases hx : alive x with
    | true =>
      simp only [if_true, getElem?_putBack hit]
      exact ⟨id, fun h _ => h⟩
    | false =>
      have hrest : ∀ e ∈ entries, (s.removeClient it).clients[e.1]? = some e.2 := by
        intro e he
        have hne : it ≠ e.1 := UInt64.ne_of_lt (hsorted.1 e he)
        rw [getElem?_removeClient, if_neg hne]
        exact hmem e (List.mem_cons_of_mem _ he)
      obtain ⟨hold, hkept⟩ := ih hsorted.2 hrest
      constructor
      · intro h
        have hget := hold h
        rw [getElem?_removeClient] at hget
        split at hget
        · cases hget
        · exact hget
      · intro h hc
        apply hkept _ hc
        rw [getElem?_removeClient, if_neg]
        · exact h
        · rintro rfl
          rw [Option.some.inj (hit.symm.trans h), hc] at hx
          cases hx

theorem getElem?_getClient {k : UInt64} {c : ℕ} :
    ((s.getClient alive).2.clients[k]? = some c → s.clients[k]? = some c) ∧
      (s.clients[k]? = some c → alive c = true → (s.getClient alive).2.clients[k]? = some c) := by
  apply getClientLoop_kept (sorted_toList s.clients)
  intro e he
  exact ExtTreeMap.mem_toList_iff_getElem?_eq_some.mp he

theorem mem_live_getClient {c : ℕ} : c ∈ (s.getClient alive).2.live alive ↔ c ∈ s.live alive := by
  rw [mem_live, mem_live]
  constructor
  · rintro ⟨h, hc⟩
    exact ⟨getElem?_getClient.1 h, hc⟩
  · rintro ⟨h, hc⟩
    exact ⟨getElem?_getClient.2 h hc, hc⟩

/-- The client put back is again the first, so the next call returns it too. -/
theorem getClient_getClient :
    ((s.getClient alive).2.getClient alive).1 = (s.getClient alive).1 := by
  apply Option.ext
  intro c
  rw [getClient_eq_some_iff, getClient_eq_some_iff]
  simp only [mem_live_getClient]

theorem calls_eq (n : ℕ) (s : MyClientSelector uid) :
    (calls alive n s).1 = List.replicate n (s.getClient alive).1 ∧
      ((calls alive n s).2.getClient alive).1 = (s.getClient alive).1 := by
  induction n generalizing s with
  | zero => exact ⟨rfl, rfl⟩
  | succ n ih =>
    obtain ⟨hfst, hsnd⟩ := ih (s.getClient alive).2
    rw [getClient_getClient] at hfst hsnd
    refine ⟨?_, hsnd⟩
    rw [List.replicate_succ, ← hfst]
    rfl

theorem rotates_iff (alive : ℕ → Bool) (s : MyClientSelector uid) :
    Rotates alive s ↔ (s.live alive).length ≤ 1 := by
  constructor
  · intro h
    have hperm := h.each 0
    have hnodup : ((s.live alive).map some).Nodup :=
      s.nodup_live.map fun _ _ h => Option.some.inj h
    rw [← hperm.nodup_iff, (calls_eq _ _).1, List.nodup_replicate] at hnodup
    exact hnodup
  · intro hlen
    refine ⟨?_, getClient_eq_none_iff.mp, fun k c => getElem?_getClient.2,
      fun k c => getElem?_getClient.1, ?_⟩
    · intro c hc
      exact (getClient_eq_some_iff.mp hc).1
    · intro m
      rw [(calls_eq _ _).1, (calls_eq _ _).2]
      cases hlive : s.live alive with
      | nil => exact List.Perm.nil
      | cons c rest =>
        rw [hlive, List.length_cons] at hlen
        have hrest : rest = [] := List.length_eq_zero_iff.mp (by omega)
        have hchosen : (s.getClient alive).1 = some c := by
          rw [getClient_eq_some_iff, hlive, hrest]
          simp
        rw [hrest, hchosen]
        exact List.Perm.refl _

/-- Of two live clients, the one of the lower uid is returned by both calls. -/
theorem not_rotates_two :
    let s : MyClientSelector (fun x => UInt64.ofNat x) := (empty.addClient 7).addClient 9
    s.live (fun _ => true) = [7,9] ∧ (calls (fun _ => true) 2 s).1 = [some 7,some 7] ∧
      ¬Rotates (fun _ => true) s := by
  intro s
  have hlive : s.live (fun _ => true) = [7,9] := by decide
  have hcalls : (calls (fun _ => true) 2 s).1 = [some 7,some 7] := by decide
  refine ⟨hlive, hcalls, ?_⟩
  intro h
  have hperm := h.each 0
  rw [hlive] at hperm
  exact absurd (hcalls ▸ hperm) (by decide)

end MyClientSelector
end EchoFrame
