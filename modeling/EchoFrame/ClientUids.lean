import EchoFrame.ServantProxies

/-! The uids of clients. A uid is made of the descriptor that the constructor
opened and stays with the client, while the descriptor is closed and opened again. -/
namespace EchoFrame
open Verif

/-- A TCP or UDP client: which construction it comes from, the descriptor that the
constructor opened, and the servant id that it was passed. -/
structure LoopClient where
  id : ℕ
  fd : UInt32
  servantId : UInt16
deriving DecidableEq, Repr

def LoopClient.uid (c : LoopClient) : UInt32 := uidOf c.fd c.servantId

/-- `loops` are the client maps of the loops. `clients` are those that were
constructed and not destroyed, `held` those of them that were added to the loops
and not removed, and `sockets` the descriptors that they have open. -/
structure UidTable where
  loops : Shards UInt32 LoopClient
  clients : List LoopClient
  held : List LoopClient
  sockets : List (LoopClient × UInt32)
  made : ℕ

/-- A client is added on a new socket, closes its socket, opens another one, is
removed from the loops, or goes with the last reference to it. -/
inductive UidEvent
  | addClient (servantId : UInt16) (fd : UInt32)
  | disconnect (c : LoopClient)
  | reconnect (c : LoopClient) (fd : UInt32)
  | removeClient (c : LoopClient)
  | destroy (c : LoopClient)
deriving DecidableEq, Repr

namespace UidTable

def init (n : ℕ) : UidTable := ⟨.empty n,[],[],[],0⟩

def loopOf (s : UidTable) (uid : UInt32) : ℕ := (uid &&& 0xFFFF).toNat%s.loops.length

def findClient (s : UidTable) (uid : UInt32) : Option LoopClient :=
  s.loops.get? (s.loopOf uid) uid

def disconnect (s : UidTable) (c : LoopClient) : UidTable :=
  { s with sockets := s.sockets.filter fun socket => socket.1 ≠ c }

def newClient (s : UidTable) (servantId : UInt16) (fd : UInt32) : LoopClient := ⟨s.made,fd,servantId⟩

def addClient (s : UidTable) (c : LoopClient) : UidTable where
  loops := s.loops.put (s.loopOf c.uid) c.uid c
  clients := s.clients ++ [c]
  held := s.held ++ [c]
  sockets := s.sockets ++ [(c,c.fd)]
  made := s.made+1

def removeClient (s : UidTable) (c : LoopClient) : UidTable :=
  { s with loops := s.loops.remove (s.loopOf c.uid) c.uid, held := s.held.filter (· ≠ c) }

/-- The descriptor is open: `socket` does not return it. -/
def Open (s : UidTable) (fd : UInt32) : Prop := ∃ socket ∈ s.sockets, socket.2 = fd

instance (s : UidTable) (fd : UInt32) : Decidable (s.Open fd) :=
  inferInstanceAs (Decidable (∃ socket ∈ s.sockets, _))

def step (s : UidTable) : UidEvent → Option UidTable
  | .addClient servantId fd =>
    if s.Open fd then none else some (s.addClient (s.newClient servantId fd))
  | .disconnect c => if c ∈ s.clients then some (s.disconnect c) else none
  | .reconnect c fd =>
    -- the old descriptor is closed before the new one is opened
    let closed := s.disconnect c
    if c ∈ s.clients ∧ ¬closed.Open fd then
      some { closed with sockets := closed.sockets ++ [(c,fd)] }
    else none
  | .removeClient c => if c ∈ s.held then some (s.removeClient c) else none
  | .destroy c =>
    -- the loops hold no reference any more
    if c ∈ s.clients ∧ s.findClient c.uid ≠ some c then
      some { s.disconnect c with clients := s.clients.filter (· ≠ c),
                                 held := s.held.filter (· ≠ c) }
    else none

/-- The uids of the clients held are distinct, and each client is found under its own. -/
structure Unique (s : UidTable) : Prop where
  distinct : ∀ c ∈ s.held, ∀ d ∈ s.held, c.uid = d.uid → c = d
  found : ∀ c ∈ s.held, s.findClient c.uid = some c

/-- A new client is on a descriptor whose low 16 bits differ from those that the
clients held for its servant id were constructed on. -/
def FreshDescriptor (s : UidTable) : UidEvent → Prop
  | .addClient servantId fd =>
    ¬s.Open fd → ∀ c ∈ s.held, c.servantId = servantId → c.fd.toNat%2^16 ≠ fd.toNat%2^16
  | _ => True

instance (s : UidTable) : ∀ e, Decidable (FreshDescriptor s e)
  | .addClient .. => inferInstanceAs (Decidable (_ → ∀ c ∈ s.held, _ → _))
  | .disconnect _ => inferInstanceAs (Decidable True)
  | .reconnect .. => inferInstanceAs (Decidable True)
  | .removeClient _ => inferInstanceAs (Decidable True)
  | .destroy _ => inferInstanceAs (Decidable True)

variable {s t : UidTable} {c d : LoopClient} {e : UidEvent}

theorem uid_eq_iff : c.uid = d.uid ↔
    c.servantId = d.servantId ∧ c.fd.toNat%2^16 = d.fd.toNat%2^16 := by
  have hc := c.servantId.toNat_lt
  have hd := d.servantId.toNat_lt
  unfold LoopClient.uid
  rw [← UInt32.toNat_inj, toNat_uidOf, toNat_uidOf, ← UInt16.toNat_inj]
  omega

structure Sound (s : UidTable) : Prop extends Unique s where
  loops_pos : 0 < s.loops.length
  id_lt : ∀ c ∈ s.held, c.id < s.made

theorem findClient_addClient (hs : Sound s) (c : LoopClient) (uid : UInt32) :
    (s.addClient c).findClient uid = if c.uid = uid then some c else s.findClient uid :=
  Shards.get?_put_mod s.loops hs.loops_pos (fun uid => (uid &&& 0xFFFF).toNat) c.uid c uid

theorem findClient_removeClient (s : UidTable) (c : LoopClient) (uid : UInt32) :
    (s.removeClient c).findClient uid = if c.uid = uid then none else s.findClient uid :=
  Shards.get?_remove_mod s.loops (fun uid => (uid &&& 0xFFFF).toNat) c.uid uid

theorem newClient_not_held (hs : Sound s) (servantId : UInt16) (fd : UInt32) :
    s.newClient servantId fd ∉ s.held := fun h => Nat.lt_irrefl _ (hs.id_lt _ h)

/-- A client is added beside the others exactly when its uid is not in use. -/
theorem sound_addClient (hs : Sound s) (hc : c.id = s.made)
    (hfresh : ∀ d ∈ s.held, d.uid ≠ c.uid) : Sound (s.addClient c) := by
  have hmem (d : LoopClient) : d ∈ (s.addClient c).held ↔ d ∈ s.held ∨ d = c := by
    simp only [addClient, List.mem_append, List.mem_singleton]
  refine ⟨⟨?_, ?_⟩, ?_, ?_⟩
  · intro d hd d' hd' huid
    rcases (hmem d).mp hd with hold | rfl
    · rcases (hmem d').mp hd' with hold' | rfl
      · exact hs.distinct d hold d' hold' huid
      · exact absurd huid (hfresh d hold)
    · rcases (hmem d').mp hd' with hold' | rfl
      · exact absurd huid.symm (hfresh d' hold')
      · rfl
  · intro d hd
    rw [findClient_addClient hs]
    rcases (hmem d).mp hd with hd | rfl
    · rw [if_neg (Ne.symm (hfresh d hd))]
      exact hs.found d hd
    · exact if_pos rfl
  · rw [addClient, Shards.length_put]
    exact hs.loops_pos
  · intro d hd
    rcases (hmem d).mp hd with hd | rfl
    · exact Nat.lt_succ_of_lt (hs.id_lt d hd)
    · exact hc ▸ Nat.lt_succ_self _

/-- Erasing by uid takes away no other client. -/
theorem sound_removeClient (hs : Sound s) (hc : c ∈ s.held) : Sound (s.removeClient c) := by
  have hmem (d : LoopClient) : d ∈ (s.removeClient c).held ↔ d ∈ s.held ∧ d ≠ c := by
    simp [removeClient]
  refine ⟨⟨?_, ?_⟩, ?_, ?_⟩
  · intro d hd d' hd'
    exact hs.distinct d ((hmem d).mp hd).1 d' ((hmem d').mp hd').1
  · intro d hd
    obtain ⟨hheld, hne⟩ := (hmem d).mp hd
    rw [findClient_removeClient, if_neg]
    · exact hs.found d hheld
    · exact fun huid => hne (hs.distinct c hc d hheld huid).symm
  · rw [removeClient, Shards.length_remove]
    exact hs.loops_pos
  · exact fun d hd => hs.id_lt d ((hmem d).mp hd).1

/-- Sockets do not matter to the uids, nor does a client that no loop holds. -/
theorem Sound.of_held (hs : Sound s) (hloops : t.loops = s.loops) (hmade : t.made = s.made)
    (hheld : ∀ c ∈ t.held, c ∈ s.held) : Sound t := by
  have hfind (uid : UInt32) : t.findClient uid = s.findClient uid := by
    rw [findClient, findClient, loopOf, loopOf, hloops]
  refine ⟨⟨?_, ?_⟩, hloops ▸ hs.loops_pos, ?_⟩
  · exact fun c hc d hd => hs.distinct c (hheld c hc) d (hheld d hd)
  · exact fun c hc => (hfind c.uid).trans (hs.found c (hheld c hc))
  · exact fun c hc => hmade ▸ hs.id_lt c (hheld c hc)

theorem sound_step (hs : Sound s) (hfresh : FreshDescriptor s e) (ht : step s e = some t) :
    Sound t := by
  cases e with
  | addClient servantId fd =>
    obtain ⟨hopen, ht⟩ := Option.ite_none_left_eq_some.mp ht
    cases ht
    apply sound_addClient hs rfl
    intro d hd huid
    obtain ⟨hservant, hfd⟩ := uid_eq_iff.mp huid
    exact hfresh hopen d hd hservant hfd
  | disconnect c =>
    obtain ⟨-, ht⟩ := Option.ite_none_right_eq_some.mp ht
    cases ht
    exact hs.of_held rfl rfl fun c hc => hc
  | reconnect c fd =>
    obtain ⟨-, ht⟩ := Option.ite_none_right_eq_some.mp ht
    cases ht
    exact hs.of_held rfl rfl fun c hc => hc
  | removeClient c =>
    obtain ⟨hc, ht⟩ := Option.ite_none_right_eq_some.mp ht
    cases ht
    exact sound_removeClient hs hc
  | destroy c =>
    obtain ⟨-, ht⟩ := Option.ite_none_right_eq_some.mp ht
    cases ht
    exact hs.of_held rfl rfl fun d hd => (List.mem_filter.mp hd).1

/-- A client whose uid is in use is a second one under it. -/
theorem freshDescriptor_of_unique (hs : Sound s)
    (hunique : ∀ t, step s e = some t → Unique t) : FreshDescriptor s e := by
  cases e with
  | addClient servantId fd =>
    intro hopen c hc hservant hfd
    have ht := hunique _ (if_neg hopen)
    have huid : c.uid = (s.newClient servantId fd).uid := uid_eq_iff.mpr ⟨hservant, hfd⟩
    have heq := ht.distinct c (List.mem_append_left _ hc) _ (List.mem_append_right _ (by simp)) huid
    exact newClient_not_held hs servantId fd (heq ▸ hc)
  | _ => trivial

theorem sound_init {n : ℕ} (hn : 0 < n) : Sound (init n) := by
  refine ⟨⟨?_, ?_⟩, ?_, ?_⟩
  · exact fun c hc => absurd hc List.not_mem_nil
  · exact fun c hc => absurd hc List.not_mem_nil
  · rw [init, Shards.length_empty]
    exact hn
  · exact fun c hc => absurd hc List.not_mem_nil

/-- The uids are unique in every state of a run exactly when each client is added
on a fresh descriptor. -/
theorem uids_unique_iff {n : ℕ} (hn : 0 < n) (es : List UidEvent) :
    (∀ k s, run step (init n) (es.take k) = some s → Unique s) ↔
      Along FreshDescriptor step (init n) es := by
  apply forall_run_take_iff_of_invariant
  · exact fun s (hs : Sound s) => hs.toUnique
  · exact fun s e hs => freshDescriptor_of_unique hs
  · exact fun s e t hs => sound_step hs
  · exact sound_init hn

/-- A client reconnects on another descriptor, and two more are added. -/
theorem uids_unique_reconnected :
    let es := [.addClient 7 5,.disconnect ⟨0,5,7⟩,.reconnect ⟨0,5,7⟩ 6,.addClient 8 5,
      .addClient 7 9]
    ∀ k s, run step (init 2) (es.take k) = some s → Unique s :=
  (uids_unique_iff (show 0 < 2 by decide) _).mpr (by decide)

/-- While a client is cut off, the next client of its servant is given the
descriptor that it was constructed on, and takes its entry. -/
theorem recycled_descriptor_replaces_client :
    ∃ s, run step (init 1) [.addClient 7 5,.disconnect ⟨0,5,7⟩,.addClient 7 5] = some s ∧
      ¬Unique s := by
  refine ⟨_, rfl, ?_⟩
  intro h
  have heq := h.distinct ⟨0,5,7⟩ (by decide) ⟨1,5,7⟩ (by decide) rfl
  exact absurd heq (by decide)

end UidTable
end EchoFrame
