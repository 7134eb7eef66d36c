import EchoFrame.Heartbeats

/-! A client that sends nothing but its heartbeats, and the server that closes channels
over which nothing comes. -/
namespace EchoFrame
open Verif Std

/-- How slow things get, in seconds: the time between two idle passes of the loop of the
client, the time that a pass takes, and the time until a heartbeat is received. -/
structure Delays where
  idle : ℕ
  pass : ℕ
  transit : ℕ

/-- The loop of the client and that of the server. A heartbeat in flight is known by the
second in which its pass began. -/
structure KeepAlive where
  clients : HeartbeatLoop
  server : IdleLoop
  inFlight : List ℕ
  lastIdle : ℕ
  time : ℕ

/-- `receive` is `onRead` of the channel with the heartbeat at a place in the list; `check`
is an idle pass of the server. -/
inductive KeepAliveEvent
  | idle (pass : IdlePass)
  | receive (i : ℕ) (now : UInt32)
  | check (start : UInt32) (clock : UInt64 → UInt32) (stop : UInt32)

def IdleLoop.receive (s : IdleLoop) (uid : UInt64) (now : UInt32) : IdleLoop :=
  match s.channels[uid]? with
  | none => s
  | some channel =>
    { s with channels := s.channels.insert uid { channel with lastReceiveTime := now } }

namespace KeepAlive

def sentBy (clients : HeartbeatLoop) (uid : UInt64) : ℕ :=
  (clients.clients[uid]?).elim 0 fun client => client.sent.length

def step (uid channel : UInt64) (s : KeepAlive) : KeepAliveEvent → Option KeepAlive
  | .idle pass =>
    let clients := (s.clients.onIdle pass).1
    let start := pass.start.toNat
    some { s with clients,
                  inFlight := s.inFlight ++ if sentBy s.clients uid < sentBy clients uid ∧
                    (pass.beats uid).sends then [start] else [],
                  lastIdle := start,
                  time := start }
  | .receive i now => do
    let _ ← s.inFlight[i]?
    some { s with inFlight := s.inFlight.eraseIdx i, server := s.server.receive channel now,
                  time := now.toNat }
  | .check start clock stop =>
    some { s with server := s.server.onIdle start clock stop, time := (clock channel).toNat }

/-- The clock has not gone back, an idle pass is not overdue, and no heartbeat is. -/
@[mk_iff]
structure Punctual (delays : Delays) (s : KeepAlive) (now : UInt32) : Prop where
  forward : s.time ≤ now.toNat
  idle : now.toNat ≤ s.lastIdle+delays.idle
  transit : ∀ sent ∈ s.inFlight, now.toNat ≤ sent+delays.transit

/-- A pass does not take too long, and it finds the client connected and its socket free. -/
@[mk_iff]
structure Undelayed (delays : Delays) (clients : HeartbeatLoop) (uid : UInt64)
    (pass : IdlePass) : Prop where
  forward : clients.lastCheckTime.toNat ≤ pass.start.toNat
  check : pass.start.toNat ≤ (pass.beats uid).check.toNat
  done : (pass.beats uid).done.toNat ≤ pass.start.toNat+delays.pass
  stop : pass.stop.toNat ≤ pass.start.toNat+delays.pass
  connected : (pass.beats uid).connected
  proxy : (pass.beats uid).proxy
  sends : (pass.beats uid).sends

/-- The steps that keep to the delays. -/
def Timely (delays : Delays) (uid channel : UInt64) (s : KeepAlive) : KeepAliveEvent → Prop
  | .idle pass => s.Punctual delays pass.start ∧ Undelayed delays s.clients uid pass
  | .receive _ now => s.Punctual delays now
  | .check _ clock _ => s.Punctual delays (clock channel)

instance (delays : Delays) (s : KeepAlive) (now : UInt32) : Decidable (s.Punctual delays now) :=
  decidable_of_iff' _ (punctual_iff delays s now)

instance (delays : Delays) (clients : HeartbeatLoop) (uid : UInt64) (pass : IdlePass) :
    Decidable (Undelayed delays clients uid pass) :=
  decidable_of_iff' _ (undelayed_iff delays clients uid pass)

instance (delays : Delays) (uid channel : UInt64) (s : KeepAlive) :
    ∀ event, Decidable (Timely delays uid channel s event)
  | .idle pass =>
    inferInstanceAs (Decidable (s.Punctual delays pass.start ∧ Undelayed delays s.clients uid pass))
  | .receive _ now => inferInstanceAs (Decidable (s.Punctual delays now))
  | .check _ clock _ => inferInstanceAs (Decidable (s.Punctual delays (clock channel)))

/-- A client with its heartbeat function is on the loop, and its heartbeat is not before
`sent` and a pass. -/
structure Beating (delays : Delays) (interval : UInt32) (sent : ℕ) (client : HeartbeatClient) :
    Prop where
  needHeartbeat : client.needHeartbeat
  heartbeatFunc : client.heartbeatFunc
  every : client.heartbeatInterval = interval
  last : client.lastHeartbeatTime.toNat ≤ sent+delays.pass

/-- `sent` is when the last heartbeat was sent, or when the connection was made. The next is
sent when it is due; and the last one to be received, if it is not this one, was received
before one in flight was late. -/
structure Alive (delays : Delays) (uid channel : UInt64) (interval timeout : UInt32) (sent : ℕ)
    (s : KeepAlive) : Prop where
  client : ∃ client ∈ s.clients.clients[uid]?, Beating delays interval sent client
  sent_le : sent ≤ s.time
  checked : s.clients.lastCheckTime.toNat ≤ sent+interval.toNat+2*delays.pass
  idled : s.lastIdle ≤ sent+interval.toNat+2*delays.pass
  channel : ∃ last, s.server.channels[channel]? = some ⟨last, some timeout⟩ ∧
    last.toNat ≤ s.time ∧ (sent ≤ last.toNat ∨ ∃ flying ∈ s.inFlight,
      flying ≤ last.toNat+interval.toNat+delays.idle+2*delays.pass)

variable {delays : Delays} {uid channel : UInt64} {interval timeout : UInt32} {sent : ℕ}
  {s s' : KeepAlive}

/-- No more than this lies between the last receive and any event. -/
theorem since_le (h : Alive delays uid channel interval timeout sent s) {now : UInt32}
    (hnow : s.Punctual delays now) {last : UInt32}
    (hlast : s.server.channels[channel]? = some ⟨last, some timeout⟩) :
    now.toNat ≤ last.toNat+(interval.toNat+delays.idle+delays.transit+2*delays.pass) := by
  obtain ⟨last', hlast', _, hfresh⟩ := h.channel
  obtain ⟨rfl, -⟩ := IdleChannel.mk.inj (Option.some.inj (hlast.symm.trans hlast'))
  have hidle := hnow.idle
  have hidled := h.idled
  rcases hfresh with hfresh | ⟨flying, hmem, hfresh⟩
  · omega
  · have htransit := hnow.transit flying hmem
    omega

/-- A pass that is not after the last one does nothing. -/
theorem onIdle_of_skip {clients : HeartbeatLoop} {pass : IdlePass}
    (h : pass.start - clients.lastCheckTime < 1) : (clients.onIdle pass).1 = clients := by
  unfold HeartbeatLoop.onIdle
  rw [if_pos h]

theorem toNat_eq_of_skip {clients : HeartbeatLoop} {pass : IdlePass}
    (h : pass.start - clients.lastCheckTime < 1)
    (hle : clients.lastCheckTime.toNat ≤ pass.start.toNat) :
    pass.start.toNat = clients.lastCheckTime.toNat := by
  have hlt := UInt32.lt_iff_toNat_lt.mp h
  rw [UInt32.toNat_sub_of_le _ _ (UInt32.le_iff_toNat_le.mpr hle)] at hlt
  have hone : (1 : UInt32).toNat = 1 := rfl
  omega

/-- What a pass that does its work makes of a client: the heartbeat was sent, or it was not
due yet. -/
theorem onHeartbeat_undelayed {client : HeartbeatClient} {clients : HeartbeatLoop}
    {pass : IdlePass} (hclient : Beating delays interval sent client)
    (hpass : Undelayed delays clients uid pass) :
    client.onHeartbeat (pass.beats uid) = { client with
      lastHeartbeatTime := (pass.beats uid).done, sent := client.sent ++ [pass.beats uid] } ∨
      client.onHeartbeat (pass.beats uid) = client ∧
        pass.start.toNat < sent+delays.pass+interval.toNat := by
  by_cases hdue : client.lastHeartbeatTime.toNat+client.heartbeatInterval.toNat ≤
      (pass.beats uid).check.toNat
  · exact .inl (HeartbeatClient.onHeartbeat_of_due hclient.needHeartbeat hclient.heartbeatFunc
      hpass.connected hpass.proxy hdue)
  · obtain ⟨heq, -⟩ | heq := client.onHeartbeat_cases (pass.beats uid)
    · exact .inl heq
    · refine .inr ⟨heq, ?_⟩
      have hlast := hclient.last
      have hcheck := hpass.check
      rw [hclient.every] at hdue
      omega

theorem alive_idle (h : Alive delays uid channel interval timeout sent s) {pass : IdlePass}
    (hnow : s.Punctual delays pass.start) (hpass : Undelayed delays s.clients uid pass)
    (hstep : s.step uid channel (.idle pass) = some s') :
    ∃ sent', Alive delays uid channel interval timeout sent' s' := by
  obtain rfl := Option.some.inj hstep
  obtain ⟨client, hclient, hbeating⟩ := h.client
  obtain ⟨last, hlast, hle, hfresh⟩ := h.channel
  have hforward := hnow.forward
  have hidle := hnow.idle
  have hidled := h.idled
  have hchecked := h.checked
  have hsent := h.sent_le
  have hget := HeartbeatLoop.getElem?_onIdle s.clients pass uid
  rw [Option.mem_def.mp hclient] at hget
  have hold : sentBy s.clients uid = client.sent.length := by
    rw [sentBy, Option.mem_def.mp hclient]
    rfl
  by_cases hskip : pass.start - s.clients.lastCheckTime < 1
  · have hstart := toNat_eq_of_skip hskip hpass.forward
    rw [onIdle_of_skip hskip, if_neg (fun hboth => Nat.lt_irrefl _ hboth.1), List.append_nil]
    refine ⟨sent, ⟨client, hclient, hbeating⟩, ?_, hchecked, ?_, last, hlast, ?_, hfresh⟩
    · exact hsent.trans hforward
    · exact hstart ▸ hchecked
    · exact hle.trans hforward
  · rw [if_neg hskip, Option.map_some] at hget
    have hstop : (s.clients.onIdle pass).1.lastCheckTime = pass.stop := by
      unfold HeartbeatLoop.onIdle
      rw [if_neg hskip]
    have hstopped := hpass.stop
    obtain heq | ⟨heq, hbefore⟩ := onHeartbeat_undelayed hbeating hpass
    · rw [heq] at hget
      have hnew : sentBy (s.clients.onIdle pass).1 uid = client.sent.length+1 := by
        rw [sentBy, hget]
        exact List.length_append
      rw [if_pos ⟨by omega, hpass.sends⟩]
      refine ⟨pass.start.toNat, ⟨_, hget, ?_⟩, Nat.le_refl _, ?_, ?_, last, hlast, ?_, ?_⟩
      · exact ⟨hbeating.needHeartbeat, hbeating.heartbeatFunc, hbeating.every, hpass.done⟩
      · dsimp only
        rw [hstop]
        omega
      · dsimp only
        omega
      · exact hle.trans hforward
      · -- the heartbeat before this one has been received, or another one is in flight
        rcases hfresh with hfresh | ⟨flying, hmem, hfresh⟩
        · refine .inr ⟨pass.start.toNat, List.mem_append_right _ (List.mem_singleton_self _), ?_⟩
          omega
        · exact .inr ⟨flying, List.mem_append_left _ hmem, hfresh⟩
    · rw [heq] at hget
      have hnew : sentBy (s.clients.onIdle pass).1 uid = client.sent.length := by
        rw [sentBy, hget]
        rfl
      rw [if_neg (fun hboth => by omega), List.append_nil]
      refine ⟨sent, ⟨client, hget, hbeating⟩, ?_, ?_, ?_, last, hlast, ?_, hfresh⟩
      · exact hsent.trans hforward
      · dsimp only
        rw [hstop]
        omega
      · dsimp only
        omega
      · exact hle.trans hforward

theorem alive_receive (h : Alive delays uid channel interval timeout sent s) {i : ℕ}
    {now : UInt32} (hnow : s.Punctual delays now)
    (hstep : s.step uid channel (.receive i now) = some s') :
    Alive delays uid channel interval timeout sent s' := by
  obtain ⟨last, hlast, -, -⟩ := h.channel
  obtain ⟨_, _, heq⟩ := Option.bind_eq_some_iff.mp hstep
  obtain rfl := Option.some.inj heq
  have hsent := h.sent_le.trans hnow.forward
  refine ⟨h.client, hsent, h.checked, h.idled, now, ?_, Nat.le_refl _, .inl hsent⟩
  simp only [IdleLoop.receive, hlast, ExtTreeMap.getElem?_insert_self]

theorem alive_check (h : Alive delays uid channel interval timeout sent s)
    (hslow : interval.toNat+delays.idle+delays.transit+2*delays.pass < timeout.toNat)
    {start stop : UInt32} {clock : UInt64 → UInt32} (hnow : s.Punctual delays (clock channel))
    (hstep : s.step uid channel (.check start clock stop) = some s') :
    Alive delays uid channel interval timeout sent s' := by
  obtain ⟨last, hlast, hle, hfresh⟩ := h.channel
  have hsince := since_le h hnow hlast
  have hforward := hnow.forward
  obtain rfl := Option.some.inj hstep
  refine ⟨h.client, h.sent_le.trans hforward, h.checked, h.idled, last, ?_,
    hle.trans hforward, hfresh⟩
  by_cases hskip : start - s.server.lastCheckTime < 1
  · rw [IdleLoop.onIdle, if_pos hskip]
    exact hlast
  · rw [IdleLoop.getElem?_onIdle hskip]
    refine ⟨hlast, ?_⟩
    have hwait : last ≤ clock channel := UInt32.le_iff_toNat_le.mpr (hle.trans hforward)
    rw [IdleChannel.checkTimeout, IdleChannel.onTimeout_iff, UInt32.toNat_sub_of_le _ _ hwait]
    omega

theorem alive_step (hslow : interval.toNat+delays.idle+delays.transit+2*delays.pass < timeout.toNat)
    {event : KeepAliveEvent} (h : ∃ sent, Alive delays uid channel interval timeout sent s)
    (htimely : Timely delays uid channel s event) (hstep : s.step uid channel event = some s') :
    ∃ sent, Alive delays uid channel interval timeout sent s' := by
  obtain ⟨sent, h⟩ := h
  cases event with
  | idle pass => exact alive_idle h htimely.1 htimely.2 hstep
  | receive i now => exact ⟨sent, alive_receive h htimely hstep⟩
  | check start clock stop => exact ⟨sent, alive_check h hslow htimely hstep⟩

/-- A connection that has just been made, on both sides. -/
structure Fresh (uid channel : UInt64) (interval timeout : UInt32) (s : KeepAlive) : Prop where
  client : ∃ client ∈ s.clients.clients[uid]?, client.needHeartbeat ∧ client.heartbeatFunc ∧
    client.heartbeatInterval = interval ∧ client.lastHeartbeatTime.toNat ≤ s.time
  checked : s.clients.lastCheckTime.toNat ≤ s.time
  idled : s.lastIdle = s.time
  channel : ∃ last, s.server.channels[channel]? = some ⟨last, some timeout⟩ ∧ last.toNat = s.time

/-- In every run that keeps to the delays, in whatever order heartbeats arrive and both loops
are idle, the server does not close the channel of a client whose interval and delays
together are less than the timeout. -/
theorem kept_alive {events : List KeepAliveEvent} (hfresh : Fresh uid channel interval timeout s)
    (hslow : interval.toNat+delays.idle+delays.transit+2*delays.pass < timeout.toNat)
    (htimely : Along (Timely delays uid channel) (step uid channel) s events)
    (hrun : run (step uid channel) s events = some s') :
    ∃ last, s'.server.channels[channel]? = some ⟨last, some timeout⟩ := by
  have hstart : Alive delays uid channel interval timeout s.time s := by
    obtain ⟨client, hclient, hneed, hfunc, hevery, hlast⟩ := hfresh.client
    obtain ⟨last, hchannel, htime⟩ := hfresh.channel
    have hchecked := hfresh.checked
    have hidled := hfresh.idled
    refine ⟨⟨client, hclient, hneed, hfunc, hevery, ?_⟩, Nat.le_refl _, ?_, ?_, last, hchannel,
      ?_, ?_⟩
    · exact hlast.trans (Nat.le_add_right _ _)
    · omega
    · omega
    · exact Nat.le_of_eq htime
    · exact .inl (Nat.le_of_eq htime.symm)
  have halive := invariant_of_run (fun _ _ _ h ht hstep => alive_step hslow h ht hstep)
    ⟨s.time, hstart⟩ htimely hrun
  obtain ⟨_, hend⟩ := halive
  obtain ⟨last, hlast, -⟩ := hend.channel
  exact ⟨last, hlast⟩

def justConnected : KeepAlive where
  clients := ⟨(∅ : ExtTreeMap UInt64 HeartbeatClient).insert 7 HeartbeatLoop.everyFive, 99⟩
  server := ⟨(∅ : ExtTreeMap UInt64 IdleChannel).insert 9 ⟨100, some 14⟩, 98, []⟩
  inFlight := []
  lastIdle := 100
  time := 100

/-- The first heartbeat takes two seconds and the next one is sent six seconds after it; at
second 107 the server finds the channel in time. -/
theorem kept_alive_two : ∃ last, ∃ s, run (step 7 9) justConnected
    [.idle (HeartbeatLoop.passAt 100), .receive 0 102, .idle (HeartbeatLoop.passAt 106),
      .check 107 (fun _ => 107) 107] = some s ∧
      s.server.channels[(9 : UInt64)]? = some ⟨last, some 14⟩ := by
  have hfresh : Fresh 7 9 5 14 justConnected :=
    ⟨⟨HeartbeatLoop.everyFive, by decide, rfl, rfl, rfl, by decide⟩, by decide, rfl, 100,
      by decide, rfl⟩
  have htimely : Along (Timely ⟨6, 0, 2⟩ 7 9) (step 7 9) justConnected
      [.idle (HeartbeatLoop.passAt 100), .receive 0 102, .idle (HeartbeatLoop.passAt 106),
        .check 107 (fun _ => 107) 107] := by decide
  obtain ⟨last, hlast⟩ := kept_alive hfresh (by decide) htimely rfl
  exact ⟨last, _, rfl, hlast⟩

end KeepAlive
end EchoFrame
