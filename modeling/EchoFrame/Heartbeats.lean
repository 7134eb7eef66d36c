import EchoFrame.IdleChannels
import EchoFrame.Verif.Run
import Mathlib.Data.List.Chain

/-! The heartbeats that an idle client loop sends, and the channel that they keep open. -/
namespace EchoFrame
open Verif Std

/-- What the heartbeat function of a client meets: whether the client is connected and its
proxy is still there, the clock when it looks at it and when the heartbeat is out, and
whether the socket took it. -/
structure Beat where
  connected : Bool
  proxy : Bool
  check : UInt32
  done : UInt32
  sends : Bool
deriving DecidableEq

/-- `sent` are the heartbeats so far, each with what the function met. -/
structure HeartbeatClient where
  needHeartbeat : Bool
  heartbeatInterval : UInt32
  lastHeartbeatTime : UInt32
  heartbeatFunc : Bool
  sent : List Beat
deriving DecidableEq

namespace HeartbeatClient

def needSendHeartbeat (client : HeartbeatClient) (now : UInt32) : Bool :=
  client.needHeartbeat && decide (client.lastHeartbeatTime+client.heartbeatInterval ≤ now)

/-- `onHeartbeat` with the function that `heartbeat` of the proxy sets. -/
def onHeartbeat (client : HeartbeatClient) (beat : Beat) : HeartbeatClient :=
  if client.heartbeatFunc && beat.connected && beat.proxy &&
      client.needSendHeartbeat beat.check then
    -- the time is set whether the heartbeat could be sent or not
    { client with lastHeartbeatTime := beat.done, sent := client.sent ++ [beat] }
  else client

def Apart (interval : UInt32) (a b : Beat) : Prop :=
  a.done.toNat+interval.toNat ≤ b.check.toNat

/-- The interval from a heartbeat on ends before the clock wraps. -/
def EndsInTime (interval : UInt32) (a : Beat) : Prop := a.done.toNat+interval.toNat < 2^32

variable {client : HeartbeatClient} {beat : Beat}

theorem onHeartbeat_cases (client : HeartbeatClient) (beat : Beat) :
    client.onHeartbeat beat = { client with
      lastHeartbeatTime := beat.done, sent := client.sent ++ [beat] } ∧
        client.lastHeartbeatTime+client.heartbeatInterval ≤ beat.check ∨
      client.onHeartbeat beat = client := by
  unfold onHeartbeat
  split
  · next h =>
    obtain ⟨-, hneed⟩ := Bool.and_eq_true_iff.mp h
    obtain ⟨-, hle⟩ := Bool.and_eq_true_iff.mp hneed
    exact .inl ⟨rfl, of_decide_eq_true hle⟩
  · exact .inr rfl

/-- A heartbeat that is due is sent, also where the sum wraps. -/
theorem onHeartbeat_of_due (hneed : client.needHeartbeat) (hfunc : client.heartbeatFunc)
    (hconnected : beat.connected) (hproxy : beat.proxy)
    (hdue : client.lastHeartbeatTime.toNat+client.heartbeatInterval.toNat ≤ beat.check.toNat) :
    client.onHeartbeat beat = { client with
      lastHeartbeatTime := beat.done, sent := client.sent ++ [beat] } := by
  have hcheck := beat.check.toNat_lt
  have hle : client.lastHeartbeatTime+client.heartbeatInterval ≤ beat.check := by
    rw [UInt32.le_iff_toNat_le, UInt32.toNat_add, Nat.mod_eq_of_lt (by omega)]
    exact hdue
  unfold onHeartbeat needSendHeartbeat
  rw [hneed, hfunc, hconnected, hproxy, decide_eq_true hle]
  rfl

/-- Each heartbeat was due after the one before it by the sum that may wrap, and the last
one is where the client goes on from. -/
structure Beats (interval : UInt32) (client : HeartbeatClient) : Prop where
  every : client.heartbeatInterval = interval
  last : ∀ a ∈ client.sent.getLast?, client.lastHeartbeatTime = a.done
  due : client.sent.IsChain fun a b => a.done+interval ≤ b.check

theorem beats_onHeartbeat {interval : UInt32} (h : Beats interval client) (beat : Beat) :
    Beats interval (client.onHeartbeat beat) := by
  obtain ⟨heq, hdue⟩ | heq := onHeartbeat_cases client beat
  · rw [heq]
    refine ⟨h.every, ?_, ?_⟩
    · intro a ha
      rw [List.getLast?_append_of_ne_nil _ (List.cons_ne_nil _ _)] at ha
      exact congrArg Beat.done (Option.some.inj ha)
    · refine h.due.append (.singleton _) ?_
      rintro a ha b ⟨⟩
      rw [← h.last a ha, ← h.every]
      exact hdue
  · rw [heq]
    exact h

/-- A chain of times that are due by the wrapping sum is spaced by the interval exactly when
only the last of them comes too near to the end of the clock. -/
theorem isChain_apart_iff {interval : UInt32} {beats : List Beat}
    (h : beats.IsChain fun a b => a.done+interval ≤ b.check) :
    beats.IsChain (Apart interval) ↔ ∀ a ∈ beats.dropLast, EndsInTime interval a := by
  induction h with
  | nil => simp
  | singleton a => simp
  | @cons_cons a b beats hdue hrest ih =>
    have hcheck := b.check.toNat_lt
    have hapart : Apart interval a b ↔ EndsInTime interval a := by
      unfold Apart EndsInTime
      constructor
      · intro h
        omega
      · intro h
        rw [UInt32.le_iff_toNat_le, UInt32.toNat_add, Nat.mod_eq_of_lt h] at hdue
        exact hdue
    rw [List.isChain_cons_cons, List.dropLast_cons_cons, List.forall_mem_cons, hapart, ih]

end HeartbeatClient

/-- The clients of a loop by uid. `lastCheckTime` starts out as whatever its memory held. -/
structure HeartbeatLoop where
  clients : ExtTreeMap UInt64 HeartbeatClient
  lastCheckTime : UInt32

/-- An idle pass: the clock before and after it, and what the client of each uid meets. -/
structure IdlePass where
  start : UInt32
  beats : UInt64 → Beat
  stop : UInt32

namespace HeartbeatLoop

def onIdle (s : HeartbeatLoop) (pass : IdlePass) : HeartbeatLoop × Bool :=
  if pass.start - s.lastCheckTime < 1 then (s, false)
  else ({ s with clients := s.clients.map fun uid client => client.onHeartbeat (pass.beats uid),
                 lastCheckTime := pass.stop }, true)

theorem getElem?_onIdle (s : HeartbeatLoop) (pass : IdlePass) (uid : UInt64) :
    (s.onIdle pass).1.clients[uid]? = if pass.start - s.lastCheckTime < 1 then s.clients[uid]?
      else s.clients[uid]?.map fun client => client.onHeartbeat (pass.beats uid) := by
  unfold onIdle
  split
  · rfl
  · exact ExtTreeMap.getElem?_map

open HeartbeatClient

def passes (s : HeartbeatLoop) (passes : List IdlePass) : HeartbeatLoop :=
  passes.foldl (fun s pass => (s.onIdle pass).1) s

theorem beats_passes {interval : UInt32} {uid : UInt64} {client client' : HeartbeatClient}
    (s : HeartbeatLoop) (ps : List IdlePass) (hfirst : s.clients[uid]? = some client)
    (hbeats : Beats interval client) (hlast : (s.passes ps).clients[uid]? = some client') :
    Beats interval client' := by
  induction ps generalizing s client with
  | nil =>
    obtain rfl := Option.some.inj (hfirst.symm.trans hlast)
    exact hbeats
  | cons pass ps ih =>
    have hnext := getElem?_onIdle s pass uid
    rw [hfirst] at hnext
    split at hnext
    · exact ih _ hnext hbeats hlast
    · exact ih _ hnext (beats_onHeartbeat hbeats _) hlast

/-- Over any passes of a loop and whatever the clock does, the heartbeats of each client are
as far apart as its interval says, exactly when none of them but the last is so near to the
end of the clock that the interval wraps. -/
theorem heartbeats_apart_iff (s : HeartbeatLoop) (ps : List IdlePass) (uid : UInt64)
    (client client' : HeartbeatClient) (hfirst : s.clients[uid]? = some client)
    (hnone : client.sent = []) (hlast : (s.passes ps).clients[uid]? = some client') :
    client'.sent.IsChain (Apart client.heartbeatInterval) ↔
      ∀ beat ∈ client'.sent.dropLast, EndsInTime client.heartbeatInterval beat := by
  have hstart : Beats client.heartbeatInterval client := by
    refine ⟨rfl, ?_, ?_⟩
    · rw [hnone]
      exact fun _ h => nomatch h
    · rw [hnone]
      exact .nil
  exact isChain_apart_iff (beats_passes s ps hfirst hstart hlast).due

def everyFive : HeartbeatClient := ⟨true, 5, 0, true, []⟩

def passAt (now : UInt32) : IdlePass := ⟨now, fun _ => ⟨true, true, now, now, true⟩, now⟩

/-- Of four passes the first and the last send a heartbeat. -/
theorem heartbeats_apart_two :
    let s : HeartbeatLoop := ⟨(∅ : ExtTreeMap UInt64 HeartbeatClient).insert 7 everyFive, 3⟩
    ∃ client, (s.passes [passAt 100, passAt 100, passAt 104, passAt 105]).clients[(7 : UInt64)]? =
      some client ∧ client.sent.map Beat.check = [100, 105] ∧ client.sent.IsChain (Apart 5) := by
  intro s
  have hlast : (s.passes [passAt 100, passAt 100, passAt 104, passAt 105]).clients[(7 : UInt64)]? =
      some ⟨true, 5, 105, true, [⟨true, true, 100, 100, true⟩, ⟨true, true, 105, 105, true⟩]⟩ := by
    decide
  refine ⟨_, hlast, rfl, ?_⟩
  refine (heartbeats_apart_iff s _ 7 everyFive _ (by decide) rfl hlast).mpr ?_
  intro beat hmem
  obtain rfl := List.mem_singleton.mp hmem
  exact Nat.lt_of_lt_of_le (show 105 < 106 by decide) (by decide)

end HeartbeatLoop
end EchoFrame
