import EchoFrame.MachineInt
import EchoFrame.Verif.Entries
import Mathlib.Data.List.Nodup

/-! The channels that an idle event loop finds timed out. -/
namespace EchoFrame
open Verif Std

/-- `timeout` is that of the servant whose `onTimeout` the channel was given. -/
structure IdleChannel where
  lastReceiveTime : UInt32
  timeout : Option UInt32
deriving DecidableEq, Repr

structure IdleLoop where
  channels : ExtTreeMap UInt64 IdleChannel
  lastCheckTime : UInt32
  closed : List UInt64

/-- What handlers do on a timeout does not change the answer. -/
def onTimeout (timeout now : UInt32) (channel : IdleChannel) : Bool :=
  !decide (now - channel.lastReceiveTime < timeout)

namespace IdleChannel

def checkTimeout (channel : IdleChannel) (now : UInt32) : Bool :=
  match channel.timeout with
  | some timeout => onTimeout timeout now channel
  | none => false

/-- The last receive was not after now, and the timeout or longer before it. -/
def Stale (channel : IdleChannel) (now : UInt32) : Prop :=
  ∃ timeout ∈ channel.timeout, channel.lastReceiveTime ≤ now ∧
    timeout.toNat ≤ now.toNat-channel.lastReceiveTime.toNat

/-- The time since the last receive, which is negative where the clock went back, is below
the timeout modulo `2^32` too. -/
def Unwrapped (channel : IdleChannel) (now : UInt32) : Prop :=
  ∀ timeout ∈ channel.timeout, channel.lastReceiveTime ≤ now ∨
    2^32+now.toNat < channel.lastReceiveTime.toNat+timeout.toNat

theorem onTimeout_iff (channel : IdleChannel) (timeout now : UInt32) :
    onTimeout timeout now channel = true ↔
      timeout.toNat ≤ (now - channel.lastReceiveTime).toNat := by
  rw [onTimeout, Bool.not_eq_true', decide_eq_false_iff_not, UInt32.lt_iff_toNat_lt]
  exact Nat.not_lt

theorem checkTimeout_iff_stale (channel : IdleChannel) (now : UInt32) :
    (channel.checkTimeout now = true ↔ channel.Stale now) ↔ channel.Unwrapped now := by
  unfold checkTimeout Stale Unwrapped
  cases channel.timeout with
  | none => simp
  | some timeout =>
    have hlast := channel.lastReceiveTime.toNat_lt
    simp only [Option.mem_some_iff, exists_eq_left', forall_eq', onTimeout_iff]
    by_cases hle : channel.lastReceiveTime ≤ now
    · rw [UInt32.toNat_sub_of_le _ _ hle]
      simp [hle]
    · rw [toNat_sub_of_lt (UInt32.not_le.mp hle)]
      simp only [hle, false_and, false_or, iff_false, Nat.not_le]
      omega

end IdleChannel

namespace IdleLoop

def close (s : IdleLoop) (uid : UInt64) : IdleLoop :=
  { s with channels := s.channels.erase uid, closed := s.closed ++ [uid] }

/-- The loop of `onIdle` on the entries from its iterator on. `clock` is what `checkTimeout`
reads for each channel. -/
def onIdleLoop (clock : UInt64 → UInt32) : List (UInt64 × IdleChannel) → IdleLoop → IdleLoop
  | [], s => s
  | (uid,channel) :: rest, s =>
    onIdleLoop clock rest (if channel.checkTimeout (clock uid) then s.close uid else s)

/-- `start` and `stop` are the readings before and after the loop. No result is given, the
source has no `return` after a check. -/
def onIdle (s : IdleLoop) (start : UInt32) (clock : UInt64 → UInt32) (stop : UInt32) : IdleLoop :=
  if start - s.lastCheckTime < 1 then s
  else { onIdleLoop clock s.channels.toList s with lastCheckTime := stop }

/-- From `s` to `t` exactly the stale channels were closed, each once, and all others are
kept. -/
structure ClosesStale (clock : UInt64 → UInt32) (s t : IdleLoop) : Prop where
  closed : ∃ log : List UInt64, t.closed = s.closed ++ log ∧ log.Nodup ∧
    ∀ uid, uid ∈ log ↔ ∃ c ∈ s.channels[uid]?, c.Stale (clock uid)
  channels : ∀ (uid : UInt64) c,
    t.channels[uid]? = some c ↔ s.channels[uid]? = some c ∧ ¬c.Stale (clock uid)

variable {s t : IdleLoop} {clock : UInt64 → UInt32}

def timedOut (clock : UInt64 → UInt32) (entries : List (UInt64 × IdleChannel)) : List UInt64 :=
  (entries.filter fun e => e.2.checkTimeout (clock e.1)).map Prod.fst

theorem timedOut_cons (uid : UInt64) (c : IdleChannel) (entries : List (UInt64 × IdleChannel)) :
    timedOut clock ((uid,c) :: entries) =
      if c.checkTimeout (clock uid) then uid :: timedOut clock entries
      else timedOut clock entries := by
  rw [timedOut, List.filter_cons]
  cases c.checkTimeout (clock uid) with
  | true => rfl
  | false => rfl

theorem closed_onIdleLoop (entries : List (UInt64 × IdleChannel)) (s : IdleLoop) :
    (onIdleLoop clock entries s).closed = s.closed ++ timedOut clock entries := by
  induction entries generalizing s with
  | nil => exact (List.append_nil _).symm
  | cons entry entries ih =>
    obtain ⟨uid, c⟩ := entry
    rw [onIdleLoop, ih, timedOut_cons]
    cases c.checkTimeout (clock uid) with
    | true => exact List.append_assoc ..
    | false => rfl

/-- The channels that timed out are erased under the iterator, and no others. -/
theorem getElem?_onIdleLoop (entries : List (UInt64 × IdleChannel)) (s : IdleLoop) (uid : UInt64) :
    (onIdleLoop clock entries s).channels[uid]? =
      if uid ∈ timedOut clock entries then none else s.channels[uid]? := by
  induction entries generalizing s with
  | nil => rfl
  | cons entry entries ih =>
    obtain ⟨k, c⟩ := entry
    rw [onIdleLoop, ih, timedOut_cons]
    cases c.checkTimeout (clock k) with
    | true =>
      simp only [if_true, List.mem_cons, close, ExtTreeMap.getElem?_erase, Std.compare_eq_iff_eq]
      by_cases hk : k = uid
      · simp [hk]
      · simp [hk, Ne.symm hk]
    | false => rfl

theorem mem_timedOut {uid : UInt64} : uid ∈ timedOut clock s.channels.toList ↔
    ∃ c ∈ s.channels[uid]?, c.checkTimeout (clock uid) = true := by
  simp only [timedOut, List.mem_map, List.mem_filter, Prod.exists, exists_and_right,
    exists_eq_right, ExtTreeMap.mem_toList_iff_getElem?_eq_some, Option.mem_def]

theorem nodup_timedOut (s : IdleLoop) : (timedOut clock s.channels.toList).Nodup := by
  have hkeys : (s.channels.toList.map Prod.fst).Nodup := by
    rw [List.Nodup, List.pairwise_map]
    exact (sorted_toList s.channels).imp UInt64.ne_of_lt
  exact hkeys.sublist (List.Sublist.map _ List.filter_sublist)

theorem closed_onIdle {start : UInt32} (hcheck : ¬start - s.lastCheckTime < 1) (stop : UInt32) :
    (s.onIdle start clock stop).closed = s.closed ++ timedOut clock s.channels.toList := by
  rw [onIdle, if_neg hcheck]
  exact closed_onIdleLoop _ s

theorem getElem?_onIdle {start : UInt32} (hcheck : ¬start - s.lastCheckTime < 1) (stop : UInt32)
    {uid : UInt64} {c : IdleChannel} : (s.onIdle start clock stop).channels[uid]? = some c ↔
      s.channels[uid]? = some c ∧ ¬c.checkTimeout (clock uid) = true := by
  have hget : (s.onIdle start clock stop).channels[uid]? =
      if uid ∈ timedOut clock s.channels.toList then none else s.channels[uid]? := by
    rw [onIdle, if_neg hcheck]
    exact getElem?_onIdleLoop _ s uid
  rw [hget, Option.ite_none_left_eq_some, and_comm]
  apply and_congr_right
  intro hc
  rw [mem_timedOut, hc]
  simp only [Option.mem_some_iff, exists_eq_left']

/-- A pass that performs its check closes the stale channels exactly when no difference of
its clock readings wraps into a timeout. -/
theorem closesStale_onIdle_iff {start : UInt32} (hcheck : ¬start - s.lastCheckTime < 1)
    (clock : UInt64 → UInt32) (stop : UInt32) : ClosesStale clock s (s.onIdle start clock stop) ↔
      ∀ (uid : UInt64) c, s.channels[uid]? = some c → c.Unwrapped (clock uid) := by
  constructor
  · intro h uid c hc
    rw [← IdleChannel.checkTimeout_iff_stale]
    have hkept := h.channels uid c
    rw [getElem?_onIdle hcheck, and_congr_right_iff] at hkept
    exact not_iff_not.mp (hkept hc)
  · intro h
    have hstale {uid : UInt64} {c : IdleChannel} (hc : s.channels[uid]? = some c) :
        c.checkTimeout (clock uid) = true ↔ c.Stale (clock uid) :=
      (IdleChannel.checkTimeout_iff_stale c _).mpr (h uid c hc)
    refine ⟨⟨_, closed_onIdle hcheck stop, s.nodup_timedOut, ?_⟩, ?_⟩
    · intro uid
      rw [mem_timedOut]
      refine exists_congr fun c => and_congr_right fun hc => ?_
      exact hstale hc
    · intro uid c
      rw [getElem?_onIdle hcheck]
      refine and_congr_right fun hc => not_congr ?_
      exact hstale hc

/-- One channel is stale, one is not. -/
theorem closesStale_two_channels :
    let s : IdleLoop := ⟨(∅ : ExtTreeMap UInt64 IdleChannel).insert 5 ⟨90,some 10⟩
      |>.insert 6 ⟨95,some 10⟩,99,[]⟩
    ClosesStale (fun _ => 100) s (s.onIdle 100 (fun _ => 100) 100) := by
  intro s
  refine (closesStale_onIdle_iff (s := s) (by decide) (fun _ => 100) 100).mpr ?_
  intro uid c hc
  have hmem := ExtTreeMap.mem_toList_iff_getElem?_eq_some.mpr hc
  have hlist : s.channels.toList = [(5,⟨90,some 10⟩),(6,⟨95,some 10⟩)] := by decide
  rw [hlist] at hmem
  rcases List.mem_cons.mp hmem with heq | hmem
  · cases heq
    intro timeout _
    exact .inl (by decide)
  · obtain rfl := (Prod.mk.inj (List.mem_singleton.mp hmem)).2
    intro timeout _
    exact .inl (by decide)

/-- The clock went back by one second since the last receive, and the channel is closed. -/
theorem not_closesStale_clock_back :
    let s : IdleLoop := ⟨(∅ : ExtTreeMap UInt64 IdleChannel).insert 5 ⟨100,some 10⟩,98,[]⟩
    (s.onIdle 99 (fun _ => 99) 99).closed = [5] ∧
      ¬ClosesStale (fun _ => 99) s (s.onIdle 99 (fun _ => 99) 99) := by
  intro s
  have hclosed : (s.onIdle 99 (fun _ => 99) 99).closed = [5] := by decide
  refine ⟨hclosed, ?_⟩
  intro h
  obtain ⟨log, hlog, -, hmem⟩ := h.closed
  have hfive : (5 : UInt64) ∈ log := by
    have hlog : [5] = log := hclosed.symm.trans hlog
    rw [← hlog]
    exact List.mem_singleton_self 5
  obtain ⟨c, hc, hstale⟩ := (hmem 5).mp hfive
  have hget : s.channels[(5 : UInt64)]? = some ⟨100,some 10⟩ := by decide
  obtain rfl := Option.some.inj (hget.symm.trans hc)
  obtain ⟨timeout, _, hle, _⟩ := hstale
  exact absurd hle (by decide)

end IdleLoop
end EchoFrame
