import EchoFrame.ClientReconnect
import EchoFrame.ClientSelector
import EchoFrame.ClientSessions
import Std.Data.ExtTreeMap

/-! The clients of a proxy between the choice of a client for a call, the queueing of
the frame and the write of it on the loop. -/
namespace EchoFrame
open Verif Std

/-- A client of the proxy. A socket is whether it is connected, and `none` where the
pointer is null; `cutOff` holds from a disconnect to the timer that reconnects. -/
structure ProxyClient where
  uid : UInt64
  clientType : ClientType
  autoReconnect : Bool
  held : Bool
  socket : Option Bool
  connectWatchers : ℕ
  timers : ℕ
  cutOff : Bool
deriving DecidableEq, Repr

namespace ProxyClient

def connected (c : ProxyClient) : Bool := c.socket.getD false

/-- `asyncConnect` on a fresh socket. A UDP socket counts as connected once it is open, and
the callback of a UDP client runs at once. -/
def asyncConnect (c : ProxyClient) (outcome : ConnectOutcome) : ProxyClient :=
  match c.clientType, outcome with
  -- the socket could not be opened
  | .kClientTypeUdp, .failed => if c.autoReconnect then { c with timers := c.timers+1 } else c
  | .kClientTypeUdp, _ => { c with socket := some true }
  | .kClientTypeTcp, .failed => c
  | .kClientTypeTcp, .connected =>
    { c with socket := some true, connectWatchers := c.connectWatchers+1 }
  | .kClientTypeTcp, .inProgress => { c with connectWatchers := c.connectWatchers+1 }

def reconnect (c : ProxyClient) (outcome : ConnectOutcome) : ProxyClient :=
  { c with socket := some false, cutOff := false, timers := c.timers-1 }.asyncConnect outcome

def onDisconnect (c : ProxyClient) : ProxyClient :=
  if c.autoReconnect then { c with socket := none, cutOff := true, timers := c.timers+1 }
  else { c with held := false }

/-- The pointer to the socket is null exactly between a disconnect and a reconnect. -/
def Sound (c : ProxyClient) : Prop := c.socket = none ↔ c.cutOff = true

variable {c : ProxyClient}

theorem Sound.socket_ne_none_iff (h : c.Sound) : c.socket ≠ none ↔ c.cutOff = false := by
  rw [Ne, show c.socket = none ↔ _ from h, Bool.not_eq_true]

theorem sound_of_socket (hs : c.socket ≠ none) (hc : c.cutOff = false) : c.Sound :=
  iff_of_false hs (Bool.eq_false_iff.mp hc)

theorem sound_asyncConnect (hs : c.socket ≠ none) (hc : c.cutOff = false)
    (outcome : ConnectOutcome) : (c.asyncConnect outcome).Sound := by
  unfold asyncConnect
  split
  · split
    · exact sound_of_socket hs hc
    · exact sound_of_socket hs hc
  · exact sound_of_socket (Option.some_ne_none true) hc
  · exact sound_of_socket hs hc
  · exact sound_of_socket (Option.some_ne_none true) hc
  · exact sound_of_socket hs hc

theorem sound_reconnect (outcome : ConnectOutcome) : (c.reconnect outcome).Sound :=
  sound_asyncConnect (Option.some_ne_none false) rfl outcome

theorem sound_onDisconnect (h : c.Sound) : c.onDisconnect.Sound := by
  unfold onDisconnect
  split
  · exact iff_of_true rfl rfl
  · exact h

end ProxyClient

/-- The clients in the order of their construction, `none` once destroyed; the selector,
from uids to weak pointers; the client that each call was built on; and the send tasks in
the queue of the loop. -/
structure SendProxy where
  clients : List (Option ProxyClient) := []
  selector : ExtTreeMap UInt64 ℕ := ∅
  sessions : List (Option ℕ) := []
  tasks : List ℕ := []

/-- `send i` is the `sendPayload` of the call `i`, in `execute` or `executeAndWait`. -/
inductive ProxyEvent
  | addClient (uid : UInt64) (clientType : ClientType) (autoReconnect : Bool)
      (outcome : ConnectOutcome)
  | connectReady (x : ℕ) (ok : Bool)
  | onDisconnect (x : ℕ)
  | reconnectTimer (x : ℕ) (outcome : ConnectOutcome)
  | destroy (x : ℕ)
  | buildSession
  | send (i : ℕ)
  | runTask
deriving DecidableEq, Repr

namespace SendProxy

def lock (s : SendProxy) (x : ℕ) : Option ProxyClient := (s.clients[x]?).join

def setClient (s : SendProxy) (x : ℕ) (c : ProxyClient) : SendProxy :=
  { s with clients := s.clients.set x (some c) }

def getClientLoop (s : SendProxy) :
    List (UInt64 × ℕ) → ExtTreeMap UInt64 ℕ → Option ℕ × ExtTreeMap UInt64 ℕ
  | [], selector => (none,selector)
  | (uid,x) :: rest, selector =>
    match s.lock x with
    | none => getClientLoop s rest (selector.erase uid)
    | some c => (some x,(selector.erase uid).insert c.uid x)

def getClient (s : SendProxy) : Option ℕ × ExtTreeMap UInt64 ℕ :=
  s.getClientLoop s.selector.toList s.selector

/-- The connect watcher is ready: a client that is connected goes into the selector. -/
def connectReady (s : SendProxy) (x : ℕ) (c : ProxyClient) (ok : Bool) : SendProxy :=
  let c := { c with socket := some ok, connectWatchers := c.connectWatchers-1 }
  if ok then { s.setClient x c with selector := s.selector.insert c.uid x }
  else s.setClient x (if c.autoReconnect then { c with timers := c.timers+1 } else c)

/-- The selector after `asyncConnect`: the callback of a UDP client has run already, and that
of a TCP client has not. -/
def selectorAfter (s : SendProxy) (x : ℕ) (c : ProxyClient) : ExtTreeMap UInt64 ℕ :=
  if c.clientType = .kClientTypeUdp ∧ c.connected then s.selector.insert c.uid x
  else s.selector

/-- A step is `none` where nothing is pending that could cause the event, and where a
connect watcher that a disconnect has left behind finds no socket. -/
def step (s : SendProxy) : ProxyEvent → Option SendProxy
  | .addClient uid clientType autoReconnect outcome =>
    let fresh : ProxyClient := ⟨uid,clientType,autoReconnect,true,some false,0,0,false⟩
    let c := fresh.asyncConnect outcome
    some { s with
      clients := s.clients ++ [some c], selector := s.selectorAfter s.clients.length c }
  | .connectReady x ok =>
    match s.lock x with
    | none => none
    | some c =>
      if 0 < c.connectWatchers ∧ c.socket ≠ none then
        -- the watcher of a client that is connected already stays
        if c.connected then some s else some (s.connectReady x c ok)
      else none
  | .onDisconnect x => (s.lock x).map fun c => s.setClient x c.onDisconnect
  | .reconnectTimer x outcome =>
    match s.lock x with
    | none => none
    | some c =>
      if 0 < c.timers then
        some { s.setClient x (c.reconnect outcome) with
          selector := s.selectorAfter x (c.reconnect outcome) }
      else none
  -- a client lives as long as a loop, a timer or a task holds it
  | .destroy x =>
    match s.lock x with
    | none => none
    | some c =>
      if c.held = false ∧ c.timers = 0 ∧ x ∉ s.tasks then
        some { s with clients := s.clients.set x none }
      else none
  | .buildSession =>
    some { s with sessions := s.sessions ++ [s.getClient.1], selector := s.getClient.2 }
  | .send i =>
    match s.sessions[i]?.join with
    | none => some s
    | some x => if (s.lock x).isSome then some { s with tasks := s.tasks ++ [x] } else some s
  | .runTask =>
    match s.tasks with
    | [] => none
    | _ :: tasks => some { s with tasks := tasks }

/-- No send task finds a null socket; no call is built on a client that is disconnected
while another is connected. -/
def Safe (s : SendProxy) : ProxyEvent → Prop
  | .runTask => ∀ x ∈ s.tasks.head?, ∀ c ∈ s.lock x, c.socket ≠ none
  | .buildSession => ∀ x ∈ s.getClient.1, ∀ c ∈ s.lock x,
      c.connected ∨ ∀ y, ∀ d ∈ s.lock y, d.connected = false
  | _ => True

/-- No send task is run for a client between its disconnect and the timer that reconnects
it; and when a call is built, the live client of the least uid in the selector is
connected, unless none is. -/
def Allowed (s : SendProxy) : ProxyEvent → Prop
  | .runTask => ∀ x ∈ s.tasks.head?, ∀ c ∈ s.lock x, c.cutOff = false
  | .buildSession => (∃ y, ∃ d ∈ s.lock y, d.connected) →
      ∀ (uid : UInt64) x, s.selector[uid]? = some x → ∀ c ∈ s.lock x,
        (∀ (uid' : UInt64) y, s.selector[uid']? = some y → (s.lock y).isSome → uid ≤ uid') → c.connected
  | _ => True

def Inv (s : SendProxy) : Prop := ∀ x, ∀ c ∈ s.lock x, c.Sound

variable {s t : SendProxy}

theorem getClientLoop_fst (entries : List (UInt64 × ℕ)) (selector : ExtTreeMap UInt64 ℕ) :
    (s.getClientLoop entries selector).1 =
      (entries.find? fun e => (s.lock e.2).isSome).map Prod.snd := by
  -- on the entries, which the loop leaves at the first live one
  induction entries generalizing selector with
  | nil => rfl
  | cons entry entries ih =>
    obtain ⟨uid, x⟩ := entry
    rw [getClientLoop, List.find?_cons]
    cases hx : s.lock x with
    | none => exact ih _
    | some c => rfl

/-- The client that is chosen is the live one of the least uid. -/
theorem getClient_eq_some_iff (x : ℕ) : s.getClient.1 = some x ↔
    ∃ uid : UInt64, s.selector[uid]? = some x ∧ (s.lock x).isSome ∧
      ∀ (uid' : UInt64) y, s.selector[uid']? = some y → (s.lock y).isSome → uid ≤ uid' := by
  rw [getClient, getClientLoop_fst, Option.map_eq_some_iff]
  simp only [find?_eq_some_iff_least (sorted_toList s.selector), Prod.exists, Prod.forall,
    ExtTreeMap.mem_toList_iff_getElem?_eq_some]
  constructor
  · rintro ⟨uid, y, hy, rfl⟩
    exact ⟨uid, hy⟩
  · rintro ⟨uid, hx⟩
    exact ⟨uid, x, hx, rfl⟩

/-- Where each client has the uid of its entry, `getClient` is that of the selector. -/
theorem getClient_eq {uid : ℕ → UInt64} {selector : MyClientSelector uid}
    (hselector : s.selector = selector.clients) (huid : ∀ x, ∀ c ∈ s.lock x, c.uid = uid x) :
    s.getClient = ((selector.getClient fun x => (s.lock x).isSome).1,
      (selector.getClient fun x => (s.lock x).isSome).2.clients) := by
  have hloop (entries : List (UInt64 × ℕ)) (selector : MyClientSelector uid) :
      s.getClientLoop entries selector.clients =
        ((selector.getClientLoop (fun x => (s.lock x).isSome) entries).1,
          (selector.getClientLoop (fun x => (s.lock x).isSome) entries).2.clients) := by
    induction entries generalizing selector with
    | nil => rfl
    | cons entry entries ih =>
      obtain ⟨it, x⟩ := entry
      rw [getClientLoop, MyClientSelector.getClientLoop]
      cases hx : s.lock x with
      | none => exact ih (selector.removeClient it)
      | some c =>
        have hc : c.uid = uid x := huid x c hx
        dsimp only
        rw [hc]
        rfl
  rw [getClient, hselector]
  exact hloop _ selector

theorem safe_iff_allowed (h : s.Inv) (event : ProxyEvent) : s.Safe event ↔ s.Allowed event := by
  cases event with
  | runTask =>
    refine forall₂_congr fun x _ => forall₂_congr fun c hc => ?_
    exact (h x c hc).socket_ne_none_iff
  | buildSession =>
    constructor
    · rintro hsafe ⟨y, d, hd, hconnected⟩ uid x hx c hc hleast
      have hchosen : s.getClient.1 = some x :=
        (getClient_eq_some_iff x).mpr ⟨uid, hx, Option.isSome_of_mem hc, hleast⟩
      rcases hsafe x hchosen c hc with hc | hnone
      · exact hc
      · exact absurd hconnected (Bool.eq_false_iff.mp (hnone y d hd))
    · intro hallowed x hx c hc
      obtain ⟨uid, hmem, -, hleast⟩ := (getClient_eq_some_iff x).mp hx
      by_cases hany : ∃ y, ∃ d ∈ s.lock y, d.connected
      · exact .inl (hallowed hany uid x hmem c hc hleast)
      · refine .inr fun y d hd => Bool.eq_false_iff.mpr fun hconnected => ?_
        exact hany ⟨y, d, hd, hconnected⟩
  | addClient _ _ _ _ | connectReady _ _ | onDisconnect _ | reconnectTimer _ _ | destroy _
  | send _ => exact Iff.rfl

theorem lock_setClient {x : ℕ} {old : ProxyClient} (hx : s.lock x = some old) (c : ProxyClient)
    (y : ℕ) : (s.setClient x c).lock y = if x = y then some c else s.lock y := by
  have hslot : s.clients[x]? = some (some old) := Option.join_eq_some_iff.mp hx
  rw [lock, lock, setClient, getElem?_set_of_getElem? hslot]
  split
  · rfl
  · rfl

theorem inv_setClient (h : s.Inv) {x : ℕ} {old c : ProxyClient} (hx : s.lock x = some old)
    (hc : c.Sound) : (s.setClient x c).Inv := by
  intro y d hd
  rw [lock_setClient hx] at hd
  split at hd
  · exact Option.some.inj hd ▸ hc
  · exact h y d hd

theorem inv_connectReady (h : s.Inv) {x : ℕ} {c : ProxyClient} (hx : s.lock x = some c)
    (hs : c.socket ≠ none) (ok : Bool) : (s.connectReady x c ok).Inv := by
  have hcut : c.cutOff = false := (h x c hx).socket_ne_none_iff.mp hs
  unfold connectReady
  split
  · exact inv_setClient h hx (ProxyClient.sound_of_socket (Option.some_ne_none ok) hcut)
  · refine inv_setClient h hx ?_
    split
    · exact ProxyClient.sound_of_socket (Option.some_ne_none ok) hcut
    · exact ProxyClient.sound_of_socket (Option.some_ne_none ok) hcut

theorem inv_append (h : s.Inv) {c : ProxyClient} (hc : c.Sound)
    (hclients : t.clients = s.clients ++ [some c]) : t.Inv := by
  intro y d hd
  rw [Option.mem_def, lock, hclients, List.getElem?_append] at hd
  split at hd
  · exact h y d hd
  · have hmem := List.mem_of_getElem? (Option.join_eq_some_iff.mp hd)
    obtain rfl := Option.some.inj (List.mem_singleton.mp hmem)
    exact hc

theorem inv_destroy (h : s.Inv) {x : ℕ} (hclients : t.clients = s.clients.set x none) : t.Inv := by
  intro y d hd
  rw [Option.mem_def, lock, hclients, List.getElem?_set] at hd
  by_cases hxy : x = y
  · rw [if_pos hxy] at hd
    split at hd <;> cases hd
  · rw [if_neg hxy] at hd
    exact h y d hd

theorem inv_step (h : s.Inv) {event : ProxyEvent} (hstep : s.step event = some t) : t.Inv := by
  cases event with
  | addClient uid clientType autoReconnect outcome =>
    cases hstep
    have hsound := ProxyClient.sound_asyncConnect
      (c := ⟨uid,clientType,autoReconnect,true,some false,0,0,false⟩)
      (Option.some_ne_none false) rfl outcome
    exact inv_append h hsound rfl
  | connectReady x ok =>
    simp only [step] at hstep
    split at hstep
    · cases hstep
    · rename_i c hx
      simp only [Option.ite_none_right_eq_some] at hstep
      obtain ⟨⟨_, hs⟩, hstep⟩ := hstep
      split at hstep
      · cases hstep
        exact h
      · cases hstep
        exact inv_connectReady h hx hs ok
  | onDisconnect x =>
    obtain ⟨c, hx, rfl⟩ := Option.map_eq_some_iff.mp hstep
    exact inv_setClient h hx (ProxyClient.sound_onDisconnect (h x c hx))
  | reconnectTimer x outcome =>
    simp only [step] at hstep
    split at hstep
    · cases hstep
    · rename_i c hx
      simp only [Option.ite_none_right_eq_some, Option.some.injEq] at hstep
      obtain ⟨_, rfl⟩ := hstep
      exact inv_setClient h hx (ProxyClient.sound_reconnect outcome)
  | destroy x =>
    simp only [step] at hstep
    split at hstep
    · cases hstep
    · simp only [Option.ite_none_right_eq_some, Option.some.injEq] at hstep
      obtain ⟨_, rfl⟩ := hstep
      exact inv_destroy h rfl
  | buildSession =>
    cases hstep
    exact h
  | send i =>
    simp only [step] at hstep
    split at hstep
    · cases hstep
      exact h
    · split at hstep
      · cases hstep
        exact h
      · cases hstep
        exact h
  | runTask =>
    simp only [step] at hstep
    split at hstep
    · cases hstep
    · cases hstep
      exact h

/-- In every run: no send task finds a null socket and no disconnected client is chosen
while another is connected, exactly when every task and every choice is allowed. -/
theorem sends_safe_iff_allowed (events : List ProxyEvent) :
    Along Safe step {} events ↔ Along Allowed step {} events := by
  apply along_iff_of_invariant
  · exact fun s event h => safe_iff_allowed h event
  · exact fun s event t h _ hstep => inv_step h hstep
  · intro x c hc
    cases hc

/-- A call is built on a connected client and its frame queued; the client is cut off
before the loop comes to the task. And of two connected clients the one of the lower uid
is cut off, and chosen. -/
theorem cutOff_client_used :
    ¬Along Safe step {} [.addClient 1 .kClientTypeTcp true .inProgress,.connectReady 0 true,
        .buildSession,.send 0,.onDisconnect 0,.runTask] ∧
      ¬Along Safe step {} [.addClient 1 .kClientTypeTcp true .inProgress,
        .addClient 2 .kClientTypeTcp true .inProgress,.connectReady 0 true,.connectReady 1 true,
        .onDisconnect 0,.buildSession] := by
  constructor
  · intro h
    have hlast : Safe _ .runTask := along_append_cons
      [.addClient 1 .kClientTypeTcp true .inProgress,.connectReady 0 true,.buildSession,.send 0,
        .onDisconnect 0] h rfl
    exact hlast 0 rfl _ rfl rfl
  · intro h
    have hlast : Safe _ .buildSession := along_append_cons
      [.addClient 1 .kClientTypeTcp true .inProgress,
        .addClient 2 .kClientTypeTcp true .inProgress,.connectReady 0 true,.connectReady 1 true,
        .onDisconnect 0] h rfl
    rcases hlast 0 rfl _ rfl with hoff | hnone
    · cases hoff
    · cases hnone 1 _ rfl

end SendProxy
end EchoFrame
