import EchoFrame.ServantProxies

/-! The clients that each servant holds in the loops, and what adding a client and
removing the absent ones do to them. -/
namespace EchoFrame
open Verif

namespace ClientLoops

def clients (loops : ClientLoops) : List MyClient :=
  (List.range loops.length).flatMap fun i => (Shards.entries loops i).map Prod.snd

theorem mem_clients {loops : ClientLoops} {c : MyClient} :
    c ∈ loops.clients ↔ ∃ i uid, Shards.get? loops i uid = some c := by
  simp only [clients, List.mem_flatMap, List.mem_range, List.mem_map, Prod.exists,
    exists_eq_right, Shards.mem_entries]
  constructor
  · rintro ⟨i, _, uid, h⟩
    exact ⟨i, uid, h⟩
  · rintro ⟨i, uid, h⟩
    exact ⟨i, Shards.lt_length_of_get? h, uid, h⟩

def Holds (loops : ClientLoops) (servant : String) (endpoint : String × UInt16) : Prop :=
  ∃ c ∈ loops.clients, c.servant = servant ∧ c.endpoint = endpoint

instance (loops : ClientLoops) (servant : String) (endpoint : String × UInt16) :
    Decidable (loops.Holds servant endpoint) := inferInstanceAs (Decidable (∃ c ∈ _, _))

def Once (loops : ClientLoops) (servant : String) : Prop :=
  ∀ i uid c i' uid' c', Shards.get? loops i uid = some c → Shards.get? loops i' uid' = some c' →
    c.servant = servant → c'.servant = servant → c.endpoint = c'.endpoint → i = i' ∧ uid = uid'

/-- The clients of the servant are exactly one for each endpoint of the configuration. -/
structure Reconciled (loops : ClientLoops) (servant : String) (config : List ClientConfig) :
    Prop where
  named : ∀ endpoint, loops.Holds servant endpoint ↔ endpoint ∈ config.map ClientConfig.endpoint
  once : loops.Once servant

/-- The clients of other servants are the same ones, in the same places. -/
def KeepsOthers (servant : String) (loops loops' : ClientLoops) : Prop :=
  ∀ i uid c, c.servant ≠ servant →
    (Shards.get? loops' i uid = some c ↔ Shards.get? loops i uid = some c)

theorem KeepsOthers.trans {servant : String} {l₁ l₂ l₃ : ClientLoops}
    (h : KeepsOthers servant l₁ l₂) (h' : KeepsOthers servant l₂ l₃) :
    KeepsOthers servant l₁ l₃ :=
  fun i uid c hc => (h' i uid c hc).trans (h i uid c hc)

theorem KeepsOthers.holds_iff {servant other : String} {loops loops' : ClientLoops}
    (h : KeepsOthers servant loops loops') (hne : other ≠ servant)
    (endpoint : String × UInt16) : loops'.Holds other endpoint ↔ loops.Holds other endpoint := by
  have hmem (c : MyClient) (hc : c.servant = other) : c ∈ loops'.clients ↔ c ∈ loops.clients := by
    rw [mem_clients, mem_clients]
    exact exists₂_congr fun i uid => h i uid c (hc ▸ hne)
  exact exists_congr fun c => and_congr_left fun hc => hmem c hc.1

theorem KeepsOthers.once {servant other : String} {loops loops' : ClientLoops}
    (h : KeepsOthers servant loops loops') (hne : other ≠ servant) (ho : loops.Once other) :
    loops'.Once other :=
  fun i uid c i' uid' c' hc hc' hs hs' => ho i uid c i' uid' c'
    ((h i uid c (hs ▸ hne)).mp hc) ((h i' uid' c' (hs' ▸ hne)).mp hc') hs hs'

end ClientLoops

namespace ServantProxy
open ClientLoops

variable {hash : String → UInt64} {servant : String} {loops loops' : ClientLoops}

def clientLoop (hash : String → UInt64) (loops : ClientLoops) (servant : String) : ℕ :=
  (clientServantId hash servant).toUInt32.toNat%loops.length

structure Keyed (hash : String → UInt64) (loops : ClientLoops) : Prop where
  loops_pos : 0 < loops.length
  place : ∀ i uid c, Shards.get? loops i uid = some c →
    c.uid = uid ∧ i = loops.loopOf uid ∧ i = clientLoop hash loops c.servant

def Found (hash : String → UInt64) (loops : ClientLoops) (servant : String)
    (endpoint : String × UInt16) : Prop :=
  (findByEndpoint loops (initLoop hash loops servant) endpoint).isSome

instance (endpoint : String × UInt16) : Decidable (Found hash loops servant endpoint) :=
  inferInstanceAs (Decidable (_ = true))

/-- The new sockets give uids that differ and are not in use. -/
structure FreshUids (hash : String → UInt64) (loops : ClientLoops) (servant : String)
    (fds : List UInt32) : Prop where
  unused : ∀ c ∈ loops.clients,
    c.uid ∉ fds.map fun fd => uidOf fd (clientServantId hash servant)
  distinct : (fds.map fun fd => uidOf fd (clientServantId hash servant)).Nodup

/-- What the task of a servant meets. A client of another servant in its loop has
an endpoint that is configured for this servant too, which holds a client for
it. Its own clients are in that loop, or their endpoints are found there anyway
and no endpoint that is not found there is configured twice. -/
structure Apart (hash : String → UInt64) (loops : ClientLoops) (servant : String)
    (config : List ClientConfig) (fds : List UInt32) : Prop where
  others : ∀ entry ∈ Shards.entries loops (initLoop hash loops servant),
    entry.2.servant ≠ servant → entry.2.endpoint ∈ config.map ClientConfig.endpoint ∧
      loops.Holds servant entry.2.endpoint
  sees : initLoop hash loops servant = clientLoop hash loops servant ∨
    (∀ c ∈ loops.clients, c.servant = servant → Found hash loops servant c.endpoint) ∧
      ((config.map ClientConfig.endpoint).filter fun e => ¬Found hash loops servant e).Nodup
  fresh : FreshUids hash loops servant fds

instance (fds : List UInt32) : Decidable (FreshUids hash loops servant fds) :=
  decidable_of_iff (_ ∧ _) ⟨fun h => ⟨h.1, h.2⟩, fun h => ⟨h.unused, h.distinct⟩⟩

instance (config : List ClientConfig) (fds : List UInt32) :
    Decidable (Apart hash loops servant config fds) :=
  decidable_of_iff (_ ∧ _ ∧ _)
    ⟨fun h => ⟨h.1, h.2.1, h.2.2⟩, fun h => ⟨h.others, h.sees, h.fresh⟩⟩

theorem found_iff {endpoint : String × UInt16} : Found hash loops servant endpoint ↔
    ∃ uid c, Shards.get? loops (initLoop hash loops servant) uid = some c ∧
      c.endpoint = endpoint := isSome_findByEndpoint_iff

theorem FreshUids.head {fd : UInt32} {fds : List UInt32}
    (h : FreshUids hash loops servant (fd :: fds)) :
    ∀ c ∈ loops.clients, c.uid ≠ uidOf fd (clientServantId hash servant) :=
  fun c hc heq => h.unused c hc (List.mem_map.mpr ⟨fd, List.mem_cons_self, heq.symm⟩)

theorem loopOf_uidOf (loops : ClientLoops) (fd : UInt32) :
    loops.loopOf (uidOf fd (clientServantId hash servant)) = clientLoop hash loops servant := by
  rw [loopOf, uidOf_and, clientLoop]

theorem loopOf_congr (h : loops'.length = loops.length) (uid : UInt32) :
    loops'.loopOf uid = loops.loopOf uid := by
  rw [loopOf, loopOf, h]

theorem clientLoop_congr (h : loops'.length = loops.length) (servant : String) :
    clientLoop hash loops' servant = clientLoop hash loops servant := by
  rw [clientLoop, clientLoop, h]

theorem initLoop_congr (h : loops'.length = loops.length) (servant : String) :
    initLoop hash loops' servant = initLoop hash loops servant := by
  rw [initLoop, initLoop, h]

theorem length_addClient (fd : UInt32) (it : ClientConfig) :
    (addClient hash servant loops fd it).length = loops.length := Shards.length_put ..

theorem length_removeAbsent (config : List ClientConfig) :
    (removeAbsent hash servant config loops).length = loops.length :=
  Shards.length_foldl_remove ..

/-- The servant's own clients are found if its two loops are one. -/
theorem Keyed.found_of_holds (hk : Keyed hash loops)
    (hl : initLoop hash loops servant = clientLoop hash loops servant)
    {endpoint : String × UInt16} (h : loops.Holds servant endpoint) :
    Found hash loops servant endpoint := by
  obtain ⟨c, hc, rfl, he⟩ := h
  obtain ⟨i, uid, hget⟩ := mem_clients.mp hc
  rw [found_iff, hl]
  exact ⟨uid, c, (hk.place _ _ _ hget).2.2 ▸ hget, he⟩

/-- Adding a client with an unused uid changes nothing else. -/
theorem get?_addClient (hk : Keyed hash loops) {fd : UInt32}
    (hf : ∀ c ∈ loops.clients, c.uid ≠ uidOf fd (clientServantId hash servant))
    (it : ClientConfig) {i : ℕ} {uid : UInt32} {c : MyClient} :
    Shards.get? (addClient hash servant loops fd it) i uid = some c ↔
      Shards.get? loops i uid = some c ∨ i = clientLoop hash loops servant ∧
        uid = uidOf fd (clientServantId hash servant) ∧ c = newClient hash servant fd it := by
  have hput : Shards.get? (addClient hash servant loops fd it) i uid =
      if clientLoop hash loops servant = i ∧ uidOf fd (clientServantId hash servant) = uid then
        some (newClient hash servant fd it) else Shards.get? loops i uid := by
    rw [addClient, setClient, newClient, loopOf_uidOf]
    exact Shards.get?_put _ (Nat.mod_lt _ hk.loops_pos) _ _ _ _
  rw [hput]
  split
  · next h =>
    obtain ⟨rfl, rfl⟩ := h
    have hnone (hc : Shards.get? loops (clientLoop hash loops servant)
        (uidOf fd (clientServantId hash servant)) = some c) : False :=
      hf c (mem_clients.mpr ⟨_, _, hc⟩) (hk.place _ _ _ hc).1
    exact ⟨fun h => .inr ⟨rfl, rfl, (Option.some.inj h).symm⟩,
      fun h => h.elim (fun hc => (hnone hc).elim) fun h => h.2.2 ▸ rfl⟩
  · next h =>
    refine ⟨.inl, fun h' => h'.resolve_right ?_⟩
    rintro ⟨hi, hu, _⟩
    exact h ⟨hi.symm, hu.symm⟩

/-- The clients that are left are those of other loops and those with a
configured endpoint. -/
theorem get?_removeAbsent (hk : Keyed hash loops) (config : List ClientConfig) {i : ℕ}
    {uid : UInt32} {c : MyClient} :
    Shards.get? (removeAbsent hash servant config loops) i uid = some c ↔
      Shards.get? loops i uid = some c ∧
        (i = initLoop hash loops servant → c.endpoint ∈ config.map ClientConfig.endpoint) := by
  have hconf (d : MyClient) : (config.any fun k => k.endpoint = d.endpoint) = true ↔
      d.endpoint ∈ config.map ClientConfig.endpoint := by
    simp [List.any_eq_true]
  have hmem : uid ∈ ((((Shards.entries loops (initLoop hash loops servant)).map Prod.snd).filter
        fun c => !config.any fun k => k.endpoint = c.endpoint).map MyClient.uid) ↔
      ∃ d, Shards.get? loops (initLoop hash loops servant) uid = some d ∧
        d.endpoint ∉ config.map ClientConfig.endpoint := by
    simp only [List.mem_map (f := MyClient.uid), List.mem_filter, List.mem_map (f := Prod.snd),
      Prod.exists, exists_eq_right, Shards.mem_entries, Bool.not_eq_true', ← Bool.not_eq_true,
      hconf]
    constructor
    · rintro ⟨d, ⟨⟨k, hd⟩, hout⟩, rfl⟩
      rw [(hk.place _ _ _ hd).1]
      exact ⟨d, hd, hout⟩
    · rintro ⟨d, hd, hout⟩
      exact ⟨d, ⟨⟨uid, hd⟩, hout⟩, (hk.place _ _ _ hd).1⟩
  rw [removeAbsent, Shards.get?_foldl_remove]
  split
  · next h =>
    obtain ⟨rfl, hu⟩ := h
    obtain ⟨d, hd, hout⟩ := hmem.mp hu
    constructor
    · intro hc
      cases hc
    · rintro ⟨hc, hin⟩
      rw [hd] at hc
      obtain rfl := Option.some.inj hc
      exact absurd (hin rfl) hout
  · next h =>
    refine ⟨fun hc => ⟨hc, fun hi => ?_⟩, And.left⟩
    by_contra hout
    exact h ⟨hi.symm, hmem.mpr ⟨c, hi ▸ hc, hout⟩⟩

end ServantProxy
end EchoFrame
