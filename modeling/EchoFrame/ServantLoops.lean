import Mathlib.Data.Nat.ModEq
import EchoFrame.ClientUids
import EchoFrame.ServantClients

/-! Which loop the calls on the loops of a communicator select for one servant. -/
namespace EchoFrame
open Verif

def LoopClient.getServantId (c : LoopClient) : UInt32 := (c.uid.toUInt64 &&& 0xFFFF).toUInt32

abbrev ClientLoopManager := Shards UInt64 LoopClient

namespace ClientLoopManager

def getByServantId (n : ℕ) (servantId : UInt32) : ℕ := servantId.toNat%n

def addClient (loops : ClientLoopManager) (client : LoopClient) : ClientLoopManager :=
  Shards.put loops (getByServantId loops.length client.getServantId) client.uid.toUInt64 client

def findClient (loops : ClientLoopManager) (uid : UInt64) : Option LoopClient :=
  Shards.get? loops (getByServantId loops.length (uid &&& 0xFFFF).toUInt32) uid

def removeClient (loops : ClientLoopManager) (client : LoopClient) : ClientLoopManager :=
  Shards.remove loops (getByServantId loops.length client.getServantId) client.uid.toUInt64

variable (hash : String → UInt64)

def initializeLoop (n : ℕ) (servantName : String) : ℕ :=
  getByServantId n (hash servantName).toUInt32

def newClient (servantName : String) (id : ℕ) (fd : UInt32) : LoopClient :=
  ⟨id,fd,ServantProxy.clientServantId hash servantName⟩

/-- Of every table of `n` loops, all calls for a client of the servant work on the loop that
`initialize` selects. -/
structure OneLoop (n : ℕ) (servantName : String) (client : LoopClient) : Prop where
  stored : ∀ loops : ClientLoopManager, loops.length = n → loops.addClient client =
    Shards.put loops (initializeLoop hash n servantName) client.uid.toUInt64 client
  found : ∀ loops : ClientLoopManager, loops.length = n → loops.findClient client.uid.toUInt64 =
    Shards.get? loops (initializeLoop hash n servantName) client.uid.toUInt64
  answered : ∀ loops : ClientLoopManager, loops.length = n →
    ∀ session : MySession, session.client = client.uid →
      loops.findClient (clientIdOf session.requestId).toUInt64 =
        Shards.get? loops (initializeLoop hash n servantName) client.uid.toUInt64
  removed : ∀ loops : ClientLoopManager, loops.length = n → loops.removeClient client =
    Shards.remove loops (initializeLoop hash n servantName) client.uid.toUInt64

variable {hash : String → UInt64} {n : ℕ} {servantName : String}

theorem toUInt32_and (uid : UInt32) : (uid.toUInt64 &&& 0xFFFF).toUInt32 = uid &&& 0xFFFF := by
  apply UInt32.toNat_inj.mp
  have hlow : (uid.toNat &&& 0xFFFF) < 2^32 :=
    Nat.lt_of_le_of_lt Nat.and_le_right (by decide)
  calc (uid.toUInt64 &&& 0xFFFF).toUInt32.toNat = (uid.toNat &&& 0xFFFF)%2^32 := rfl
    _ = uid.toNat &&& 0xFFFF := Nat.mod_eq_of_lt hlow
    _ = (uid &&& 0xFFFF).toNat := rfl

/-- The servant id is what the uid keeps of it, the descriptor does not matter. -/
theorem getServantId_newClient (id : ℕ) (fd : UInt32) :
    ((newClient hash servantName id fd).getServantId).toNat = (hash servantName).toNat%4095 := by
  have hlt : (hash servantName).toNat%4095 < 2^16 :=
    Nat.lt_of_lt_of_le (Nat.mod_lt _ (by decide)) (by decide)
  calc ((newClient hash servantName id fd).getServantId).toNat
      = (uidOf fd (ServantProxy.clientServantId hash servantName) &&& 0xFFFF).toNat := by
        rw [LoopClient.getServantId, toUInt32_and]
        rfl
    _ = (ServantProxy.clientServantId hash servantName).toNat := by
        rw [uidOf_and, UInt16.toNat_toUInt32]
    _ = (hash servantName).toNat%4095%2^16 := rfl
    _ = (hash servantName).toNat%4095 := Nat.mod_eq_of_lt hlt

theorem oneLoop_iff_eq (hn : 0 < n) (c : LoopClient) :
    OneLoop hash n servantName c ↔
      getByServantId n c.getServantId = initializeLoop hash n servantName := by
  constructor
  · intro h
    have hlen : (Shards.empty n : ClientLoopManager).length = n := Shards.length_empty n
    have hstored := h.stored _ hlen
    have hlt : getByServantId n c.getServantId < n := Nat.mod_lt _ hn
    by_contra hne
    have hget := congrArg
      (fun loops => Shards.get? loops (getByServantId n c.getServantId) c.uid.toUInt64) hstored
    simp only [addClient, hlen] at hget
    rw [Shards.get?_put _ (by rw [hlen]; exact hlt), if_pos ⟨rfl, rfl⟩,
      Shards.get?_put _ (by rw [hlen]; exact Nat.mod_lt _ hn), if_neg (fun h => hne h.1.symm),
      Shards.get?_empty] at hget
    cases hget
  · intro heq
    refine ⟨?_, ?_, ?_, ?_⟩
    · intro loops hlen
      rw [addClient, hlen, heq]
    · intro loops hlen
      rw [findClient, hlen, ← heq]
      rfl
    · intro loops hlen session hsession
      rw [clientIdOf_requestId, hsession, findClient, hlen, ← heq]
      rfl
    · intro loops hlen
      rw [removeClient, hlen, heq]

/-- Of two splits of one number, the first parts are congruent when the others are. -/
theorem modEq_iff_of_add_eq {a b c d : ℕ} (h : a+b = c+d) : b ≡ d [MOD n] ↔ a ≡ c [MOD n] := by
  have hsum : a+b ≡ c+d [MOD n] := by rw [h]
  constructor
  · intro hbd
    exact Nat.ModEq.add_right_cancel hbd hsum
  · intro hac
    exact Nat.ModEq.add_left_cancel hac hsum

/-- The calls agree on the loop exactly when the largest multiples of 4095 and of `2^32` up to
the hash are congruent modulo the number of loops. -/
theorem oneLoop_iff_modEq (hn : 0 < n) (hash : String → UInt64) (servantName : String) (id : ℕ)
    (fd : UInt32) : OneLoop hash n servantName (newClient hash servantName id fd) ↔
      4095*((hash servantName).toNat/4095) ≡ 2^32*((hash servantName).toNat/2^32) [MOD n] := by
  have hsplit : 4095*((hash servantName).toNat/4095)+(hash servantName).toNat%4095 =
      2^32*((hash servantName).toNat/2^32)+(hash servantName).toNat%2^32 := by
    rw [Nat.div_add_mod, Nat.div_add_mod]
  rw [oneLoop_iff_eq hn, ← modEq_iff_of_add_eq hsplit, getByServantId, getServantId_newClient]
  rfl

/-- With five loops all calls agree on a servant of hash 5000. -/
theorem oneLoop_five_loops :
    OneLoop (fun _ => 5000) 5 "echo" (newClient (fun _ => 5000) "echo" 0 7) :=
  (oneLoop_iff_modEq (by decide) (fun _ => 5000) "echo" 0 7).mpr (by decide)

/-- With two loops `initialize` selects the second for a hash of 4095, and the client is
stored in the first. -/
theorem not_oneLoop_two_loops :
    let client := newClient (fun _ => 4095) "echo" 0 7
    initializeLoop (fun _ => 4095) 2 "echo" = 1 ∧
      Shards.get? (addClient (.empty 2) client) 0 client.uid.toUInt64 = some client ∧
      ¬OneLoop (fun _ => 4095) 2 "echo" client := by
  refine ⟨by decide, ?_, ?_⟩
  · rw [addClient, Shards.get?_put _ (by decide)]
    exact if_pos ⟨by decide, rfl⟩
  · rw [oneLoop_iff_eq (by decide)]
    decide

end ClientLoopManager
end EchoFrame
