import EchoFrame.ServantClients

/-! What the task that `initialize` posts does to the clients of its servant and
of the others. -/
namespace EchoFrame
open Verif
namespace ServantProxy
open ClientLoops

variable {hash : String → UInt64} {servant : String} {loops loops' : ClientLoops}

theorem mem_clients_addClient (hk : Keyed hash loops) {fd : UInt32}
    (hf : ∀ c ∈ loops.clients, c.uid ≠ uidOf fd (clientServantId hash servant))
    (it : ClientConfig) {c : MyClient} : c ∈ (addClient hash servant loops fd it).clients ↔
      c ∈ loops.clients ∨ c = newClient hash servant fd it := by
  simp only [mem_clients, get?_addClient hk hf, exists_or]
  refine or_congr_right ⟨?_, fun hc => ⟨_, _, rfl, rfl, hc⟩⟩
  rintro ⟨_, _, _, _, hc⟩
  exact hc

theorem holds_addClient (hk : Keyed hash loops) {fd : UInt32}
    (hf : ∀ c ∈ loops.clients, c.uid ≠ uidOf fd (clientServantId hash servant))
    (it : ClientConfig) (endpoint : String × UInt16) :
    (addClient hash servant loops fd it).Holds servant endpoint ↔
      loops.Holds servant endpoint ∨ it.endpoint = endpoint := by
  simp only [Holds, mem_clients_addClient hk hf, or_and_right, exists_or]
  refine or_congr_right ⟨?_, fun he => ⟨_, rfl, rfl, he⟩⟩
  rintro ⟨c, rfl, _, he⟩
  exact he

theorem found_addClient (hk : Keyed hash loops) {fd : UInt32}
    (hf : ∀ c ∈ loops.clients, c.uid ≠ uidOf fd (clientServantId hash servant))
    (it : ClientConfig) (endpoint : String × UInt16) :
    Found hash (addClient hash servant loops fd it) servant endpoint ↔
      Found hash loops servant endpoint ∨
        initLoop hash loops servant = clientLoop hash loops servant ∧ it.endpoint = endpoint := by
  simp only [found_iff, get?_addClient hk hf, initLoop_congr (length_addClient fd it),
    or_and_right, exists_or]
  apply or_congr_right
  constructor
  · rintro ⟨uid, c, ⟨hl, _, rfl⟩, he⟩
    exact ⟨hl, he⟩
  · rintro ⟨hl, he⟩
    exact ⟨_, _, ⟨hl, rfl, rfl⟩, he⟩

/-- What adding clients of a servant for some endpoints comes to. -/
structure Adds (hash : String → UInt64) (servant : String) (loops : ClientLoops)
    (endpoints : List (String × UInt16)) (loops' : ClientLoops) : Prop where
  keyed : Keyed hash loops'
  once : loops'.Once servant
  others : KeepsOthers servant loops loops'
  length : loops'.length = loops.length
  holds : ∀ endpoint, loops'.Holds servant endpoint ↔
    loops.Holds servant endpoint ∨ endpoint ∈ endpoints

theorem Adds.cons {endpoint : String × UInt16} {endpoints : List (String × UInt16)}
    {mid : ClientLoops} (h : Adds hash servant loops [endpoint] mid)
    (h' : Adds hash servant mid endpoints loops') :
    Adds hash servant loops (endpoint :: endpoints) loops' where
  keyed := h'.keyed
  once := h'.once
  others := h.others.trans h'.others
  length := h'.length.trans h.length
  holds e := by rw [h'.holds, h.holds, or_assoc, ← List.mem_append, List.singleton_append]

theorem Adds.refl {endpoint : String × UInt16} (hk : Keyed hash loops)
    (ho : loops.Once servant) (hh : loops.Holds servant endpoint) :
    Adds hash servant loops [endpoint] loops where
  keyed := hk
  once := ho
  others _ _ _ _ := Iff.rfl
  length := rfl
  holds e := by
    rw [List.mem_singleton]
    exact ⟨.inl, fun h => h.elim id fun he => he ▸ hh⟩

/-- A client is added under a fresh uid for an endpoint that the servant lacks. -/
theorem adds_addClient (hk : Keyed hash loops) (ho : loops.Once servant) {fd : UInt32}
    (hf : ∀ c ∈ loops.clients, c.uid ≠ uidOf fd (clientServantId hash servant))
    {it : ClientConfig} (hh : ¬loops.Holds servant it.endpoint) :
    Adds hash servant loops [it.endpoint] (addClient hash servant loops fd it) where
  keyed := by
    have hlen : (addClient hash servant loops fd it).length = loops.length :=
      length_addClient fd it
    refine ⟨hlen ▸ hk.loops_pos, ?_⟩
    intro i uid c h
    rw [loopOf_congr hlen, clientLoop_congr hlen]
    obtain h | ⟨rfl, rfl, rfl⟩ := (get?_addClient hk hf it).mp h
    · exact hk.place _ _ _ h
    · exact ⟨rfl, (loopOf_uidOf loops fd).symm, rfl⟩
  once := by
    have hnew (i : ℕ) (uid : UInt32) (c : MyClient) (h : Shards.get? loops i uid = some c)
        (hs : c.servant = servant) (he : c.endpoint = it.endpoint) : False :=
      hh ⟨c, mem_clients.mpr ⟨i, uid, h⟩, hs, he⟩
    intro i uid c i' uid' c' h h' hs hs' he
    obtain h | ⟨rfl, rfl, rfl⟩ := (get?_addClient hk hf it).mp h
    · obtain h' | ⟨rfl, rfl, rfl⟩ := (get?_addClient hk hf it).mp h'
      · exact ho _ _ _ _ _ _ h h' hs hs' he
      · exact (hnew _ _ _ h hs he).elim
    · obtain h' | ⟨rfl, rfl, rfl⟩ := (get?_addClient hk hf it).mp h'
      · exact (hnew _ _ _ h' hs' he.symm).elim
      · exact ⟨rfl, rfl⟩
  others i uid c hne := by
    rw [get?_addClient hk hf]
    refine ⟨fun h => h.elim id ?_, .inl⟩
    intro h
    obtain ⟨_, _, rfl⟩ := h
    exact absurd rfl hne
  length := length_addClient fd it
  holds e := by rw [holds_addClient hk hf, List.mem_singleton, eq_comm (a := e)]

/-- What makes adding right: an endpoint is found where the servant holds it, the
loop that is searched is the one that is added to unless no endpoint that is
not found is met twice, and the new uids are fresh. -/
structure Ready (hash : String → UInt64) (loops : ClientLoops) (servant : String)
    (endpoints : List (String × UInt16)) (fds : List UInt32) : Prop where
  found_iff : ∀ e ∈ endpoints, Found hash loops servant e ↔ loops.Holds servant e
  sees : initLoop hash loops servant = clientLoop hash loops servant ∨
    (endpoints.filter fun e => ¬Found hash loops servant e).Nodup
  fresh : FreshUids hash loops servant fds

theorem Ready.tail {endpoint : String × UInt16} {endpoints : List (String × UInt16)}
    {fds : List UInt32} (h : Ready hash loops servant (endpoint :: endpoints) fds) :
    Ready hash loops servant endpoints fds where
  found_iff e he := h.found_iff e (List.mem_cons_of_mem _ he)
  sees := h.sees.imp_right fun hn => hn.sublist ((List.sublist_cons_self _ _).filter _)
  fresh := h.fresh

theorem Ready.addClient {it : ClientConfig} {endpoints : List (String × UInt16)} {fd : UInt32}
    {fds : List UInt32} (hk : Keyed hash loops)
    (h : Ready hash loops servant (it.endpoint :: endpoints) (fd :: fds))
    (hnew : ¬Found hash loops servant it.endpoint) :
    Ready hash (addClient hash servant loops fd it) servant endpoints fds := by
  have hf := h.fresh.head
  obtain ⟨hnot, hnodup⟩ := List.nodup_cons.mp (List.map_cons ▸ h.fresh.distinct)
  refine ⟨?_, ?_, ?_, hnodup⟩
  · intro e he
    rw [found_addClient hk hf, holds_addClient hk hf, h.found_iff e (List.mem_cons_of_mem _ he)]
    refine or_congr_right ⟨And.right, fun heq => ⟨?_, heq⟩⟩
    subst heq
    apply h.sees.resolve_right
    intro hn
    rw [List.filter_cons_of_pos (by simpa using hnew)] at hn
    exact (List.nodup_cons.mp hn).1 (List.mem_filter.mpr ⟨he, by simpa using hnew⟩)
  · rw [initLoop_congr (length_addClient fd it), clientLoop_congr (length_addClient fd it)]
    apply h.sees.imp_right
    intro hn
    refine (hn.sublist ((List.sublist_cons_self _ _).filter _)).sublist ?_
    apply List.monotone_filter_right _
    intro e he
    rw [decide_eq_true_eq] at he ⊢
    exact fun hfound => he ((found_addClient hk hf it e).mpr (.inl hfound))
  · intro c hc
    obtain hc | rfl := (mem_clients_addClient hk hf it).mp hc
    · exact fun hmem => h.fresh.unused c hc (List.mem_cons_of_mem _ hmem)
    · exact hnot

theorem addMissing_cons_of_found {it : ClientConfig}
    (h : Found hash loops servant it.endpoint) (config : List ClientConfig) (fds : List UInt32) :
    addMissing hash servant (it :: config) fds loops = addMissing hash servant config fds loops := by
  rw [addMissing.eq_def]
  exact if_pos h

theorem addMissing_cons_of_not_found {it : ClientConfig}
    (h : ¬Found hash loops servant it.endpoint) (config : List ClientConfig)
    (fds : List UInt32) : addMissing hash servant (it :: config) fds loops =
      match fds with
      | [] => none
      | fd :: fds => addMissing hash servant config fds (addClient hash servant loops fd it) := by
  rw [addMissing.eq_def]
  exact if_neg h

theorem adds_addMissing {config : List ClientConfig} {fds : List UInt32}
    (hk : Keyed hash loops) (ho : loops.Once servant)
    (hr : Ready hash loops servant (config.map ClientConfig.endpoint) fds)
    (h : addMissing hash servant config fds loops = some loops') :
    Adds hash servant loops (config.map ClientConfig.endpoint) loops' := by
  -- on the configuration, readiness being kept by each client that is added
  induction config generalizing fds loops with
  | nil =>
    obtain rfl := Option.some.inj h
    exact ⟨hk, ho, fun _ _ _ _ => Iff.rfl, rfl, fun e => by simp⟩
  | cons it config ih =>
    rw [List.map_cons] at hr ⊢
    have hhead := hr.found_iff it.endpoint List.mem_cons_self
    by_cases hfound : Found hash loops servant it.endpoint
    · rw [addMissing_cons_of_found hfound] at h
      exact (Adds.refl hk ho (hhead.mp hfound)).cons (ih hk ho hr.tail h)
    · rw [addMissing_cons_of_not_found hfound] at h
      cases fds with
      | nil => cases h
      | cons fd fds =>
        have hadd := adds_addClient hk ho hr.fresh.head
          (mt hhead.mpr hfound)
        exact hadd.cons (ih hadd.keyed hadd.once (hr.addClient hk hfound) h)

theorem addMissing_of_found {config : List ClientConfig} {fds : List UInt32}
    (h : ∀ e ∈ config.map ClientConfig.endpoint, Found hash loops servant e) :
    addMissing hash servant config fds loops = some loops := by
  induction config with
  | nil => rfl
  | cons it config ih =>
    rw [List.map_cons] at h
    rw [addMissing_cons_of_found (h it.endpoint List.mem_cons_self)]
    exact ih fun e he => h e (List.mem_cons_of_mem _ he)

theorem holds_removeAbsent (hk : Keyed hash loops) (config : List ClientConfig)
    {endpoint : String × UInt16} (he : endpoint ∈ config.map ClientConfig.endpoint) :
    (removeAbsent hash servant config loops).Holds servant endpoint ↔
      loops.Holds servant endpoint := by
  simp only [Holds, mem_clients, get?_removeAbsent hk]
  constructor
  · rintro ⟨c, ⟨i, uid, h, _⟩, hc⟩
    exact ⟨c, ⟨i, uid, h⟩, hc⟩
  · rintro ⟨c, ⟨i, uid, h⟩, hs, rfl⟩
    exact ⟨c, ⟨i, uid, h, fun _ => he⟩, hs, rfl⟩

theorem found_removeAbsent (hk : Keyed hash loops) (config : List ClientConfig)
    {endpoint : String × UInt16} (he : endpoint ∈ config.map ClientConfig.endpoint) :
    Found hash (removeAbsent hash servant config loops) servant endpoint ↔
      Found hash loops servant endpoint := by
  simp only [found_iff, get?_removeAbsent hk, initLoop_congr (length_removeAbsent config)]
  constructor
  · rintro ⟨uid, c, ⟨h, _⟩, hc⟩
    exact ⟨uid, c, h, hc⟩
  · rintro ⟨uid, c, h, rfl⟩
    exact ⟨uid, c, ⟨h, fun _ => he⟩, rfl⟩

theorem keyed_removeAbsent (hk : Keyed hash loops) (config : List ClientConfig) :
    Keyed hash (removeAbsent hash servant config loops) := by
  have hlen : (removeAbsent hash servant config loops).length = loops.length :=
    length_removeAbsent config
  refine ⟨hlen ▸ hk.loops_pos, ?_⟩
  intro i uid c h
  rw [loopOf_congr hlen, clientLoop_congr hlen]
  exact hk.place i uid c ((get?_removeAbsent hk config).mp h).1

theorem once_removeAbsent (hk : Keyed hash loops) (ho : loops.Once servant)
    (config : List ClientConfig) : (removeAbsent hash servant config loops).Once servant :=
  fun i uid c i' uid' c' h h' => ho i uid c i' uid' c' ((get?_removeAbsent hk config).mp h).1
    ((get?_removeAbsent hk config).mp h').1

section Apart

variable {config : List ClientConfig} {fds : List UInt32}

/-- What the task finds in its loop for an endpoint of its configuration, its
servant holds, and the other way round. -/
theorem Apart.found_iff_holds (hk : Keyed hash loops) (ha : Apart hash loops servant config fds)
    (endpoint : String × UInt16) :
    Found hash loops servant endpoint ↔ loops.Holds servant endpoint := by
  constructor
  · intro h
    obtain ⟨uid, c, hget, rfl⟩ := found_iff.mp h
    by_cases hs : c.servant = servant
    · exact ⟨c, mem_clients.mpr ⟨_, _, hget⟩, hs, rfl⟩
    · exact (ha.others _ ((Shards.mem_entries ..).mpr hget) hs).2
  · intro h
    obtain hl | ⟨hfound, _⟩ := ha.sees
    · exact hk.found_of_holds hl h
    · obtain ⟨c, hc, hs, rfl⟩ := h
      exact hfound c hc hs

theorem Apart.others_removeAbsent (hk : Keyed hash loops)
    (ha : Apart hash loops servant config fds) :
    KeepsOthers servant loops (removeAbsent hash servant config loops) := by
  intro i uid c hne
  rw [get?_removeAbsent hk]
  refine ⟨And.left, fun h => ⟨h, fun hi => ?_⟩⟩
  subst hi
  exact (ha.others _ ((Shards.mem_entries ..).mpr h) hne).1

theorem Apart.named_removeAbsent (hk : Keyed hash loops)
    (ha : Apart hash loops servant config fds) {endpoint : String × UInt16}
    (h : (removeAbsent hash servant config loops).Holds servant endpoint) :
    endpoint ∈ config.map ClientConfig.endpoint := by
  obtain ⟨c, hc, hs, rfl⟩ := h
  obtain ⟨i, uid, hget⟩ := mem_clients.mp hc
  obtain ⟨hold, hin⟩ := (get?_removeAbsent hk config).mp hget
  have hfound := (ha.found_iff_holds hk c.endpoint).mpr
    ⟨c, mem_clients.mpr ⟨i, uid, hold⟩, hs, rfl⟩
  by_cases hi : i = initLoop hash loops servant
  · exact hin hi
  obtain ⟨uid', d, hd, hde⟩ := found_iff.mp hfound
  by_cases hds : d.servant = servant
  · have hplace := (hk.place _ _ _ hd).2.2
    rw [hds] at hplace
    have hown := (hk.place _ _ _ hold).2.2
    rw [hs, ← hplace] at hown
    exact absurd hown hi
  · exact hde ▸ (ha.others _ ((Shards.mem_entries ..).mpr hd) hds).1

theorem Apart.ready (hk : Keyed hash loops) (ha : Apart hash loops servant config fds) :
    Ready hash (removeAbsent hash servant config loops) servant
      (config.map ClientConfig.endpoint) fds where
  found_iff e he := by
    rw [found_removeAbsent hk config he, holds_removeAbsent hk config he]
    exact ha.found_iff_holds hk e
  sees := by
    rw [initLoop_congr (length_removeAbsent config), clientLoop_congr (length_removeAbsent config)]
    apply ha.sees.imp_right
    rintro ⟨_, hn⟩
    rwa [List.filter_congr fun e he =>
      decide_eq_decide.mpr (not_congr (found_removeAbsent hk config he))]
  fresh := by
    refine ⟨?_, ha.fresh.distinct⟩
    intro c hc
    obtain ⟨i, uid, h⟩ := mem_clients.mp hc
    exact ha.fresh.unused c (mem_clients.mpr ⟨i, uid, ((get?_removeAbsent hk config).mp h).1⟩)

/-- The task of a servant leaves it with one client for each configured endpoint
and leaves the clients of the others alone. -/
theorem initializeTask_reconciles (hk : Keyed hash loops) (ho : loops.Once servant)
    (ha : Apart hash loops servant config fds)
    (h : initializeTask hash servant config fds loops = some loops') :
    Keyed hash loops' ∧ KeepsOthers servant loops loops' ∧ Reconciled loops' servant config := by
  have hadd := adds_addMissing (keyed_removeAbsent hk config) (once_removeAbsent hk ho config)
    (ha.ready hk) h
  refine ⟨hadd.keyed, (ha.others_removeAbsent hk).trans hadd.others, ?_, hadd.once⟩
  intro e
  rw [hadd.holds e]
  exact ⟨fun h => h.elim (ha.named_removeAbsent hk) id, .inr⟩

/-- The task changes nothing if its servant has its clients already. -/
theorem initializeTask_of_reconciled (hk : Keyed hash loops)
    (ha : Apart hash loops servant config fds) (hr : Reconciled loops servant config) :
    initializeTask hash servant config fds loops = some loops := by
  have hkept : ((Shards.entries loops (initLoop hash loops servant)).map Prod.snd).filter
      (fun c => !config.any fun k => k.endpoint = c.endpoint) = [] := by
    rw [List.filter_eq_nil_iff]
    intro c hc
    obtain ⟨⟨uid, d⟩, hd, rfl⟩ := List.mem_map.mp hc
    have hheld : loops.Holds servant d.endpoint := (ha.found_iff_holds hk _).mp
      (found_iff.mpr ⟨uid, d, (Shards.mem_entries ..).mp hd, rfl⟩)
    obtain ⟨k, hkmem, hke⟩ := List.mem_map.mp ((hr.named _).mp hheld)
    simpa using ⟨k, hkmem, hke⟩
  have hremove : removeAbsent hash servant config loops = loops := by
    rw [removeAbsent]
    simp only [hkept, List.map_nil, List.foldl_nil]
  rw [initializeTask, hremove]
  exact addMissing_of_found fun e he => (ha.found_iff_holds hk e).mpr ((hr.named e).mpr he)

end Apart

end ServantProxy
end EchoFrame
