import EchoFrame.Verif.Run

/-! The connection of a TCP client that reconnects: its socket, its watchers and
the timers that are pending for it. A handler is `none` where it goes through a
null pointer or sets a promise twice. -/
namespace EchoFrame
open Verif

/-- How `connect` of a socket returns: with the connection, with `EINPROGRESS`, or
with another error. -/
inductive ConnectOutcome
  | connected
  | inProgress
  | failed
deriving DecidableEq, Repr

/-- A client, with the number of watchers and timers that a loop holds for it. A
pointer to a watcher is whether it is set, one to a promise whether the promise
has its value, one to a socket whether the socket is connected. -/
structure MyTcpClient where
  autoReconnect : Bool
  needHeartbeat : Bool
  held : Bool
  socket : Option Bool
  connectPromise : Option Bool
  connectWatcher : Bool
  connectWatchers : ℕ
  readWatcher : Bool
  readWatchers : ℕ
  heartbeatFunc : Bool
  heartbeats : ℕ
  timers : ℕ
deriving DecidableEq, Repr

namespace MyTcpClient

def create (autoReconnect needHeartbeat : Bool) : MyTcpClient where
  autoReconnect := autoReconnect
  needHeartbeat := needHeartbeat
  held := true
  socket := some false
  connectPromise := none
  connectWatcher := false
  connectWatchers := 0
  readWatcher := false
  readWatchers := 0
  heartbeatFunc := false
  heartbeats := 0
  timers := 0

def connected (c : MyTcpClient) : Bool := c.socket.getD false

/-- The connect watcher is left as it is. -/
def disconnect (c : MyTcpClient) : MyTcpClient :=
  { c with socket := none, readWatcher := false,
           readWatchers := if c.readWatcher then c.readWatchers-1 else c.readWatchers,
           connectPromise := none }

def asyncConnect (c : MyTcpClient) (outcome : ConnectOutcome) : MyTcpClient :=
  match outcome with
  -- neither a watcher nor the callback is left to act on the failure
  | .failed => { c with connectPromise := some true }
  | .connected =>
    { c with socket := some true, connectPromise := some false, connectWatcher := true,
             connectWatchers := c.connectWatchers+1 }
  | .inProgress =>
    { c with socket := some false, connectPromise := some false, connectWatcher := true,
             connectWatchers := c.connectWatchers+1 }

def reconnect (c : MyTcpClient) (outcome : ConnectOutcome) : MyTcpClient :=
  { c.disconnect with socket := some false }.asyncConnect outcome

def onConnectFunc (c : MyTcpClient) : MyTcpClient :=
  if c.connected then
    { c with readWatcher := true, readWatchers := c.readWatchers+1,
             heartbeatFunc := c.heartbeatFunc || c.needHeartbeat }
  else if c.autoReconnect then { c with timers := c.timers+1 }
  else c

def connectDone (c : MyTcpClient) (ok : Bool) : MyTcpClient :=
  { c with socket := some ok, connectPromise := some true, connectWatcher := false,
           connectWatchers := c.connectWatchers-1 }

/-- A connect watcher is ready; `ok` is whether the socket reports no error. -/
def onConnect (c : MyTcpClient) (ok : Bool) : Option MyTcpClient :=
  match c.socket with
  | none => none
  -- the watcher stays, and so does what it waits for
  | some true => some c
  | some false =>
    if c.connectPromise = some false ∧ c.connectWatcher then
      some (c.connectDone ok).onConnectFunc
    else none

def onDisconnect (c : MyTcpClient) : MyTcpClient :=
  if c.autoReconnect then { c.disconnect with timers := c.timers+1 }
  else { c with held := false }

def onRead (c : MyTcpClient) : Option MyTcpClient :=
  if c.held then
    match c.socket with
    | none => none
    | some _ => some c.onDisconnect
  else some c

/-- `connected` with its one watcher, and nothing else under way. -/
def Connected (c : MyTcpClient) : Prop :=
  c.socket = some true ∧ c.readWatchers = 1 ∧ c.connectWatchers = 0 ∧ c.timers = 0

/-- A connect in progress, with its one watcher. -/
def Connecting (c : MyTcpClient) : Prop :=
  c.socket = some false ∧ c.readWatchers = 0 ∧ c.connectWatchers = 1 ∧ c.timers = 0

/-- Not connected, with one timer to reconnect. -/
def Waiting (c : MyTcpClient) : Prop :=
  c.socket ≠ some true ∧ c.readWatchers = 0 ∧ c.connectWatchers = 0 ∧ c.timers = 1

/-- In one of the three situations; no two of them go together. -/
def Situated (c : MyTcpClient) : Prop := c.Connected ∨ c.Connecting ∨ c.Waiting

instance (c : MyTcpClient) : Decidable c.Connected := inferInstanceAs (Decidable (_ ∧ _))
instance (c : MyTcpClient) : Decidable c.Connecting := inferInstanceAs (Decidable (_ ∧ _))
instance (c : MyTcpClient) : Decidable c.Waiting := inferInstanceAs (Decidable (_ ∧ _))
instance (c : MyTcpClient) : Decidable c.Situated := inferInstanceAs (Decidable (_ ∨ _ ∨ _))

end MyTcpClient

/-- A client before it is added, a client, or one whose handler did not return. -/
inductive ClientRun
  | absent
  | client (c : MyTcpClient)
  | crashed (c : MyTcpClient)
deriving DecidableEq, Repr

/-- What happens to a client: the watchers and the timers that are pending fire. -/
inductive ClientEvent
  | addClient (autoReconnect needHeartbeat : Bool) (outcome : ConnectOutcome)
  | connectReady (ok : Bool)
  | readEnd
  | heartbeat
  | heartbeatAnswered
  | heartbeatTimeout
  | reconnectTimer (outcome : ConnectOutcome)
deriving DecidableEq, Repr

namespace ClientRun
open MyTcpClient

def handled (c : MyTcpClient) : Option MyTcpClient → ClientRun
  | none => .crashed c
  | some c' => .client c'

/-- A step is `none` where nothing is pending that could cause the event. -/
def step : ClientRun → ClientEvent → Option ClientRun
  | .absent, .addClient autoReconnect needHeartbeat outcome =>
    some (.client ((create autoReconnect needHeartbeat).asyncConnect outcome))
  | .client c, .connectReady ok =>
    if 0 < c.connectWatchers then some (handled c (c.onConnect ok)) else none
  | .client c, .readEnd => if 0 < c.readWatchers then some (handled c c.onRead) else none
  -- sent by `onIdle` for the clients in the loop
  | .client c, .heartbeat =>
    if c.held ∧ c.heartbeatFunc ∧ c.connected then
      some (.client { c with heartbeats := c.heartbeats+1 })
    else none
  | .client c, .heartbeatAnswered =>
    if 0 < c.heartbeats then some (.client { c with heartbeats := c.heartbeats-1 }) else none
  | .client c, .heartbeatTimeout =>
    if 0 < c.heartbeats then
      some (.client { c with heartbeats := c.heartbeats-1 }.onDisconnect)
    else none
  | .client c, .reconnectTimer outcome =>
    if 0 < c.timers then some (.client ({ c with timers := c.timers-1 }.reconnect outcome))
    else none
  | _, _ => none

/-- A client that reconnects is in one of the three situations, and none of its
handlers fails. -/
def Situated : ClientRun → Prop
  | .absent => True
  | .client c => c.autoReconnect = true → c.Situated
  | .crashed c => c.autoReconnect = false

/-- A connect is in progress when it returns, and a heartbeat times out only while
the client is connected. -/
def Orderly : ClientRun → ClientEvent → Prop
  | .absent, .addClient autoReconnect _ outcome => autoReconnect = true → outcome = .inProgress
  | .client c, .reconnectTimer outcome =>
    c.autoReconnect = true → 0 < c.timers → outcome = .inProgress
  | .client c, .heartbeatTimeout => c.autoReconnect = true → 0 < c.heartbeats → c.connected = true
  | _, _ => True

end ClientRun

namespace MyTcpClient

variable {c c' : MyTcpClient} {outcome : ConnectOutcome}

@[simp] theorem autoReconnect_asyncConnect :
    (c.asyncConnect outcome).autoReconnect = c.autoReconnect := by
  cases outcome <;> rfl

@[simp] theorem autoReconnect_reconnect :
    (c.reconnect outcome).autoReconnect = c.autoReconnect := autoReconnect_asyncConnect

@[simp] theorem autoReconnect_onDisconnect : c.onDisconnect.autoReconnect = c.autoReconnect := by
  unfold onDisconnect
  split <;> rfl

@[simp] theorem autoReconnect_onConnectFunc : c.onConnectFunc.autoReconnect = c.autoReconnect := by
  unfold onConnectFunc
  split
  · rfl
  · split <;> rfl

theorem autoReconnect_onConnect {ok : Bool} (h : c.onConnect ok = some c') :
    c'.autoReconnect = c.autoReconnect := by
  unfold onConnect at h
  split at h
  · cases h
  · cases h
    rfl
  · split at h
    · cases h
      exact autoReconnect_onConnectFunc
    · cases h

theorem autoReconnect_onRead (h : c.onRead = some c') : c'.autoReconnect = c.autoReconnect := by
  unfold onRead at h
  split at h
  · split at h
    · cases h
    · cases h
      exact autoReconnect_onDisconnect
  · cases h
    rfl

/-- The pointers of the client agree with what the loop holds for it. -/
structure Linked (c : MyTcpClient) : Prop where
  held : c.held = true
  situated : c.Connected ∧ c.readWatcher = true ∨
    c.Connecting ∧ c.connectWatcher = true ∧ c.connectPromise = some false ∨ c.Waiting

/-- A client for which the loop holds nothing, as before each connect. -/
structure Bare (c : MyTcpClient) : Prop where
  held : c.held = true
  socket : c.socket = some false
  readWatchers : c.readWatchers = 0
  connectWatchers : c.connectWatchers = 0
  timers : c.timers = 0

theorem Linked.to_situated (h : c.Linked) : c.Situated := by
  rcases h.situated with ⟨hc, _⟩ | ⟨hc, _⟩ | hc
  · exact .inl hc
  · exact .inr (.inl hc)
  · exact .inr (.inr hc)

/-- The heartbeats under way are no part of the situation. -/
theorem Linked.heartbeats (h : c.Linked) (n : ℕ) : Linked { c with heartbeats := n } :=
  ⟨h.held, h.situated⟩

/-- Only a connect in progress leaves something behind that will go on. -/
theorem Bare.asyncConnect_iff (h : c.Bare) :
    (c.asyncConnect outcome).Situated ↔ outcome = .inProgress := by
  have hr := h.readWatchers
  have hw := h.connectWatchers
  have ht := h.timers
  have hs := h.socket
  cases outcome <;> simp [Situated, Connected, Connecting, Waiting, asyncConnect, hr, hw, ht, hs]

theorem Bare.linked (h : c.Bare) : (c.asyncConnect .inProgress).Linked := by
  refine ⟨h.held, .inr (.inl ⟨⟨rfl, h.readWatchers, ?_, h.timers⟩, rfl, rfl⟩)⟩
  change c.connectWatchers+1 = 1
  rw [h.connectWatchers]

theorem bare_create (autoReconnect needHeartbeat : Bool) :
    (create autoReconnect needHeartbeat).Bare := ⟨rfl, rfl, rfl, rfl, rfl⟩

/-- What `reconnect` makes of a client that waits, once its timer is gone. -/
theorem Waiting.bare (h : c.Waiting) (hheld : c.held = true) :
    Bare { { c with timers := c.timers-1 }.disconnect with socket := some false } := by
  obtain ⟨-, hr, hw, ht⟩ := h
  refine ⟨hheld, rfl, ?_, hw, ?_⟩
  · change (if c.readWatcher then c.readWatchers-1 else c.readWatchers) = 0
    rw [hr, ite_self]
  · change c.timers-1 = 0
    rw [ht]

theorem Linked.waiting_of_timer (h : c.Linked) (ht : 0 < c.timers) : c.Waiting := by
  rcases h.situated with ⟨⟨-, -, -, h0⟩, -⟩ | ⟨⟨-, -, -, h0⟩, -⟩ | hw
  · omega
  · omega
  · exact hw

/-- A client that is cut off while it is connected waits for its timer. Cut off in
any other situation, it has a second timer or a watcher left over. -/
theorem Linked.onDisconnect_iff (h : c.Linked) (hauto : c.autoReconnect = true) :
    c.onDisconnect.Situated ↔ c.connected = true := by
  have hoff : c.onDisconnect = { c.disconnect with timers := c.timers+1 } := if_pos hauto
  rw [hoff]
  rcases h.situated with ⟨⟨hs, hr, hw, ht⟩, hp⟩ | ⟨⟨hs, hr, hw, ht⟩, -⟩ | ⟨hs, hr, hw, ht⟩
  · simp [Situated, Connected, Connecting, Waiting, disconnect, connected, hs, hr, hw, ht, hp]
  · simp [Situated, Connected, Connecting, Waiting, disconnect, connected, hs, hw, ht]
  · have hoff : c.connected = false := by
      unfold connected
      cases hsock : c.socket with
      | none => rfl
      | some b =>
        cases b with
        | false => rfl
        | true => exact absurd hsock hs
    simp [Situated, Connected, Connecting, Waiting, disconnect, hoff, ht]

theorem Linked.onDisconnect (h : c.Linked) (hauto : c.autoReconnect = true)
    (hc : c.connected = true) : c.onDisconnect.Linked := by
  have hoff : c.onDisconnect = { c.disconnect with timers := c.timers+1 } := if_pos hauto
  have hsit := (h.onDisconnect_iff hauto).mpr hc
  rw [hoff] at hsit ⊢
  refine ⟨h.held, .inr (.inr ?_)⟩
  rcases hsit with ⟨hs, -⟩ | ⟨hs, -⟩ | hw
  · cases hs
  · cases hs
  · exact hw

/-- The read watcher is that of the connection. -/
theorem Linked.onRead (h : c.Linked) (hauto : c.autoReconnect = true) (hr : 0 < c.readWatchers) :
    ∃ c', c.onRead = some c' ∧ c'.Linked := by
  rcases h.situated with ⟨⟨hs, -, -, -⟩, -⟩ | ⟨⟨-, h0, -, -⟩, -⟩ | ⟨-, h0, -, -⟩
  · have hconn : c.connected = true := by rw [connected, hs, Option.getD_some]
    refine ⟨c.onDisconnect, ?_, h.onDisconnect hauto hconn⟩
    simp only [MyTcpClient.onRead, h.held, hs, ↓reduceIte]
  · omega
  · omega

/-- The watcher of a connect in progress ends it, one way or the other. -/
theorem Linked.onConnect (h : c.Linked) (hauto : c.autoReconnect = true)
    (hw : 0 < c.connectWatchers) (ok : Bool) :
    ∃ c', c.onConnect ok = some c' ∧ c'.Linked := by
  rcases h.situated with ⟨⟨-, -, h0, -⟩, -⟩ | ⟨⟨hs, hr, hone, ht⟩, hp, hpromise⟩ | ⟨-, -, h0, -⟩
  · omega
  · have hrun : c.onConnect ok = some (c.connectDone ok).onConnectFunc := by
      simp only [MyTcpClient.onConnect, hs, hpromise, hp, and_self, ↓reduceIte]
    have hdone : (c.connectDone ok).connectWatchers = 0 := by
      change c.connectWatchers-1 = 0
      rw [hone]
    refine ⟨_, hrun, ?_⟩
    cases ok with
    | true =>
      have hread : c.readWatchers+1 = 1 := by rw [hr]
      exact ⟨h.held, .inl ⟨⟨rfl, hread, hdone, ht⟩, rfl⟩⟩
    | false =>
      have htimer : c.timers+1 = 1 := by rw [ht]
      have hretry : (c.connectDone false).onConnectFunc =
          { c.connectDone false with timers := c.timers+1 } := if_pos hauto
      rw [hretry]
      exact ⟨h.held, .inr (.inr ⟨by simp [connectDone], hr, hdone, htimer⟩)⟩
  · omega

end MyTcpClient

namespace ClientRun
open MyTcpClient

def Sound : ClientRun → Prop
  | .absent => True
  | .client c => c.autoReconnect = true → c.Linked
  | .crashed c => c.autoReconnect = false

variable {s t : ClientRun} {e : ClientEvent}

theorem Sound.situated (h : s.Sound) : s.Situated := by
  cases s with
  | absent => trivial
  | client c => exact fun hauto => (h hauto).to_situated
  | crashed c => exact h

theorem sound_handled {c : MyTcpClient} {r : Option MyTcpClient}
    (hkeep : ∀ c', r = some c' → c'.autoReconnect = c.autoReconnect)
    (h : c.autoReconnect = true → ∃ c', r = some c' ∧ c'.Linked) : (handled c r).Sound := by
  cases hr : r with
  | none =>
    apply Bool.eq_false_iff.mpr
    intro hauto
    obtain ⟨c', hc', -⟩ := h hauto
    cases hr.symm.trans hc'
  | some c₁ =>
    intro hauto
    obtain ⟨c', hc', hlinked⟩ := h ((hkeep c₁ hr).symm.trans hauto)
    obtain rfl := Option.some.inj (hr.symm.trans hc')
    exact hlinked

/-- The events of a client that are not `Orderly` leave it in no situation. -/
theorem orderly_of_situated (hs : s.Sound) (h : ∀ t, step s e = some t → t.Situated) :
    Orderly s e := by
  cases s with
  | absent =>
    cases e with
    | addClient autoReconnect needHeartbeat outcome =>
      intro hauto
      have hsit := h _ rfl
      apply (bare_create autoReconnect needHeartbeat).asyncConnect_iff.mp
      exact hsit (autoReconnect_asyncConnect.trans hauto)
    | _ => trivial
  | client c =>
    cases e with
    | heartbeatTimeout =>
      intro hauto hpending
      have hsit := h _ (if_pos hpending)
      apply (((hs hauto).heartbeats (c.heartbeats-1)).onDisconnect_iff hauto).mp
      exact hsit (autoReconnect_onDisconnect.trans hauto)
    | reconnectTimer outcome =>
      intro hauto hpending
      have hsit := h _ (if_pos hpending)
      have hwaiting := (hs hauto).waiting_of_timer hpending
      apply (hwaiting.bare (hs hauto).held).asyncConnect_iff.mp
      exact hsit (autoReconnect_reconnect.trans hauto)
    | _ => trivial
  | crashed c =>
    cases e <;> trivial

theorem sound_step (hs : s.Sound) (ho : Orderly s e) (h : step s e = some t) : t.Sound := by
  cases s with
  | absent =>
    cases e with
    | addClient autoReconnect needHeartbeat outcome =>
      cases h
      intro hauto
      obtain rfl := ho (autoReconnect_asyncConnect.symm.trans hauto)
      exact (bare_create autoReconnect needHeartbeat).linked
    | _ => cases h
  | client c =>
    cases e with
    | addClient => cases h
    | connectReady ok =>
      obtain ⟨hw, ht⟩ := Option.ite_none_right_eq_some.mp h
      cases ht
      apply sound_handled fun c' => autoReconnect_onConnect
      exact fun hauto => (hs hauto).onConnect hauto hw ok
    | readEnd =>
      obtain ⟨hr, ht⟩ := Option.ite_none_right_eq_some.mp h
      cases ht
      apply sound_handled fun c' => autoReconnect_onRead
      exact fun hauto => (hs hauto).onRead hauto hr
    | heartbeat =>
      obtain ⟨-, ht⟩ := Option.ite_none_right_eq_some.mp h
      cases ht
      exact fun hauto => (hs hauto).heartbeats _
    | heartbeatAnswered =>
      obtain ⟨-, ht⟩ := Option.ite_none_right_eq_some.mp h
      cases ht
      exact fun hauto => (hs hauto).heartbeats _
    | heartbeatTimeout =>
      obtain ⟨hpending, ht⟩ := Option.ite_none_right_eq_some.mp h
      cases ht
      intro hauto
      rw [autoReconnect_onDisconnect] at hauto
      exact ((hs hauto).heartbeats _).onDisconnect hauto (ho hauto hpending)
    | reconnectTimer outcome =>
      obtain ⟨hpending, ht⟩ := Option.ite_none_right_eq_some.mp h
      cases ht
      intro hauto
      rw [autoReconnect_reconnect] at hauto
      obtain rfl := ho hauto hpending
      have hwaiting := (hs hauto).waiting_of_timer hpending
      exact (hwaiting.bare (hs hauto).held).linked
  | crashed c => cases h

/-- A client that reconnects is always in one of the three situations exactly when
every step of the run is orderly. -/
theorem situated_iff (es : List ClientEvent) :
    (∀ n t, run step .absent (es.take n) = some t → t.Situated) ↔
      Along Orderly step .absent es := by
  apply forall_run_take_iff_of_invariant (J := Situated)
  · exact fun s => Sound.situated
  · exact fun s e hs => orderly_of_situated hs
  · exact fun s e t hs => sound_step hs
  · trivial

/-- After a connect that fails at once there is no timer to try again, and two
heartbeats that time out leave two timers. -/
theorem stranded_and_scheduled_twice :
    (¬∀ n t, run step .absent ([.addClient true true .failed].take n) = some t → t.Situated) ∧
    ¬∀ n t, run step .absent (([.addClient true true .inProgress,.connectReady true,.heartbeat,
      .heartbeat,.heartbeatTimeout,.heartbeatTimeout] : List ClientEvent).take n) = some t →
        t.Situated := by
  constructor
  · intro h
    have hsit := h 1 _ rfl rfl
    revert hsit
    decide
  · intro h
    have hsit := h 6 _ rfl rfl
    revert hsit
    decide

end ClientRun
end EchoFrame
