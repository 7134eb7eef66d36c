import EchoFrame.CallSending

/-! Reads, the ends of connections and the steps of the servant, up to every run: the answers that
were delivered end their calls. -/
namespace EchoFrame
open Verif MyMagicMessage MyServant
namespace CallSystem

variable {κ : Type} [DecidableEq κ] {dispatchPayload : DispatchPayload}
  {serve : List Byte → Option (List Byte)} {tasks : List SessionTask} {answered : List SentCall}
  {s t : CallSystem κ}

/-- One client is changed, with its link, while calls end. -/
theorem inv_client (h : s.Inv dispatchPayload serve tasks answered) {uid : UInt32}
    {link : ClientLink κ} {proxy : ProxyState} {more : List SentCall}
    (hlink : link.Inv s.calls s.streams uid)
    (hsent : ∀ call ∈ more, ∃ k, call ∈ (s.streams k).offered)
    (hconfig : ∀ other, ∀ config ∈ MyProxy.configOf other proxy,
      config ∈ MyProxy.configOf other s.proxy)
    (hother : ∀ other, other ≠ uid →
      MyProxy.bufferOf other proxy = MyProxy.bufferOf other s.proxy)
    (hbuffer : ∀ buf ∈ MyProxy.bufferOf uid proxy,
      link.Consumes dispatchPayload s.calls (answered ++ more) s.expired s.ran buf)
    (houtcomes : Outcomes serve tasks (fun uid => (MyProxy.bufferOf uid proxy).isSome) s.calls
      (answered ++ more) s.expired proxy.sessions) :
    Inv dispatchPayload serve tasks (answered ++ more) { s.setLink uid link with proxy } := by
  refine { h with sent := ?_, links := ?_, tcp := ?_, buffers := ?_, outcomes := houtcomes }
  · intro call hcall
    exact (List.mem_append.mp hcall).elim (h.sent call) (hsent call)
  · intro other
    change ((s.setLink uid link).links other).Inv s.calls s.streams other
    rw [links_setLink]
    split
    · next heq => rwa [heq]
    · exact h.links other
  · exact fun other config hc => h.tcp other config (hconfig other config hc)
  · intro other buf hbuf
    change ((s.setLink uid link).links other).Consumes dispatchPayload s.calls (answered ++ more)
      s.expired s.ran buf
    rw [links_setLink]
    split
    · next heq =>
      rw [heq] at hbuf
      exact hbuffer buf hbuf
    · next hne =>
      have hold := h.buffers other buf (hother other hne ▸ hbuf)
      exact hold.mono (fun _ _ _ hmem _ => hmem) (fun _ => List.mem_append_left more)
        (fun _ hmem => hmem) (fun _ => List.prefix_rfl)

/-- As long as the client is held, the others do not see what changes. -/
theorem inv_keepsOthers (h : s.Inv dispatchPayload serve tasks answered) {uid : UInt32}
    {link : ClientLink κ} {proxy : ProxyState} {more : List SentCall}
    (hlink : link.Inv s.calls s.streams uid)
    (hsent : ∀ call ∈ more, ∃ k, call ∈ (s.streams k).offered)
    (hkeeps : MyProxy.KeepsOthers uid s.proxy proxy)
    (hbuffer : ∀ buf ∈ MyProxy.bufferOf uid proxy,
      link.Consumes dispatchPayload s.calls (answered ++ more) s.expired s.ran buf)
    (houtcomes : Outcomes serve tasks s.Held s.calls (answered ++ more) s.expired
      proxy.sessions) :
    Inv dispatchPayload serve tasks (answered ++ more) { s.setLink uid link with proxy } := by
  have hheld : s.Held = fun uid => ((MyProxy.bufferOf uid proxy).isSome : Prop) := by
    funext other
    rw [Held, hkeeps.isSome_bufferOf other]
  rw [hheld] at houtcomes
  refine inv_client h hlink hsent ?_ hkeeps.buffer hbuffer houtcomes
  intro other config hconfig
  rwa [hkeeps.config other] at hconfig

/-- The answers on a connection, in their order: the client has read the first of them, whose calls
have ended, and its buffer begins the others. -/
theorem Inv.exists_answers (h : s.Inv dispatchPayload serve tasks answered) {uid : UInt32} {k : κ}
    {buf : List Byte} (hbuf : MyProxy.bufferOf uid s.proxy = some buf)
    (hk : (s.links uid).socket = .connected k) :
    ∃ before behind : List SentCall,
      (∀ call ∈ before ++ behind, call ∈ (s.streams k).offered) ∧
      s.ran k = (before ++ behind).map (fun call => call.frame.bytes) ∧
      (s.links uid).arrived = SentCall.responses serve before ++ buf ∧
      WriteChannel.Sound (SentCall.responses serve before ++ SentCall.responses serve behind)
        (s.servant.channels k).writer ∧
      (∀ call ∈ before, call ∈ answered ∨ call ∈ s.expired) ∧
      (s.servant.Settled k → (s.servant.channels k).received.flatten =
        stream ((s.streams k).offered.map SentCall.frame) →
          (before ++ behind).Perm (s.streams k).offered) := by
  have hconnected : (s.streams k).client ≠ none := by
    rw [(h.links uid).socket k hk]
    exact Option.some_ne_none uid
  obtain ⟨order, horder, hbytes, hperm⟩ := h.exists_order hconnected
  obtain ⟨first, rest, hfirst, harrived, hended⟩ := (h.buffers uid buf hbuf).connected k hk
  obtain ⟨before, behind, rfl, rfl, rfl⟩ :=
    List.map_eq_append_iff.mp (hbytes.symm.trans hfirst)
  have hcalls : ∀ call ∈ before ++ behind, call ∈ s.calls := fun call hmem =>
    ((h.streams k).offered call (horder.subset hmem)).1
  have hserved : ∀ call ∈ before ++ behind, call.Served dispatchPayload serve := fun call hmem =>
    h.served call (hcalls call hmem)
  have hserved' := (List.forall_mem_append.mp hserved).1
  rw [PooledServant.answers_served hserved'] at harrived
  have hsound := h.servant.sound k
  change WriteChannel.Sound ((s.ran k).map (answerTo dispatchPayload)).flatten _ at hsound
  rw [hbytes, PooledServant.answers_served hserved, SentCall.responses_append] at hsound
  refine ⟨before, behind, fun _ hmem => horder.subset hmem, hbytes, harrived, hsound, ?_, hperm⟩
  intro call hmem
  apply hended call (hcalls call (List.mem_append_left behind hmem))
  exact List.mem_map_of_mem hmem

/-- Bytes arrive at a client: the answers that they complete end their calls. -/
theorem inv_arrival (h : s.Inv dispatchPayload serve tasks answered) {uid : UInt32} {k : κ}
    {client : MyClient} (hc : s.proxy.loops.findClient uid = some client)
    (hk : (s.links uid).socket = .connected k) {reads : List (List Byte)}
    (hcame : (s.links uid).arrived ++ reads.flatten <+: (s.servant.channels k).writer.accepted)
    {made : List ProxyCall} {proxy : ProxyState}
    (hread : MyProxy.OnReadCalls MyMagicCodec uid (.arrival reads) s.proxy made proxy) :
    ∃ more, Inv dispatchPayload serve tasks (answered ++ more)
      { s.setLink uid { s.links uid with arrived := (s.links uid).arrived ++ reads.flatten } with
        proxy } := by
  have hbuf : MyProxy.bufferOf uid s.proxy = some client.readBuffer := by
    rw [MyProxy.bufferOf, hc, Option.map_some]
  obtain ⟨before, behind, hoffered, hran, harrived, hsound, hended, -⟩ := h.exists_answers hbuf hk
  have hmem {call : SentCall} (hcall : call ∈ before ++ behind) :
      call ∈ s.calls ∧ call.session.client = uid := by
    obtain ⟨hmem, hclient⟩ := (h.streams k).offered call (hoffered call hcall)
    rw [(h.links uid).socket k hk] at hclient
    exact ⟨hmem, (Option.some.inj hclient).symm⟩
  have hserved : ∀ call ∈ before ++ behind, call.Served dispatchPayload serve := fun call hcall =>
    h.served call (hmem hcall).1
  have hway : client.readBuffer ++ reads.flatten <+: SentCall.responses serve behind := by
    have hway := hcame.trans hsound.accepted
    rw [harrived, List.append_assoc, List.prefix_append_right_inj] at hway
    exact hway
  obtain ⟨frames, hframes⟩ :=
    SentCall.exists_responseFrames (List.forall_mem_append.mp hserved).2
  rw [← SentCall.stream_responseFrames hframes] at hway
  obtain ⟨n, left, hleft, hwaits, hcut, hsessions⟩ := MyProxy.frames_of_arrival hbuf hread hway
  have htake := SentCall.map_take_responseFrames hframes n
  rw [htake] at hsessions
  rw [SentCall.stream_responseFrames htake] at hcut
  have hahead : ∀ call ∈ before ++ behind.take n, call ∈ before ++ behind := by
    intro call hcall
    rw [← List.take_append_drop n behind, ← List.append_assoc]
    exact List.mem_append_left _ hcall
  have hheld : ∀ call ∈ behind.take n, call ∈ s.calls ∧ s.Held call.session.client := by
    intro call hcall
    obtain ⟨hmem, huid⟩ := hmem (hahead call (List.mem_append_right before hcall))
    rw [huid, Held, hbuf]
    exact ⟨hmem, rfl⟩
  obtain ⟨more, hmore, hover, houtcomes⟩ := h.outcomes.packets h.distinct hheld
  have hkeeps := MyProxy.keepsOthers_of_arrival hread
  rw [← hsessions] at houtcomes
  refine ⟨more, inv_keepsOthers h ⟨(h.links uid).tasks, (h.links uid).socket⟩ ?_ hkeeps ?_
    houtcomes⟩
  · intro call hcall
    exact ⟨k, hoffered call (hahead call (List.mem_append_right before (hmore call hcall)))⟩
  · intro buf hbuf'
    obtain rfl : left = buf := Option.some.inj (hleft.symm.trans hbuf')
    refine ⟨fun hno => absurd hk (hno k), hwaits, fun k' hk' => ?_⟩
    obtain rfl : k = k' := ClientSocket.connected.inj (hk.symm.trans hk')
    refine ⟨(before ++ behind.take n).map (fun call => call.frame.bytes),
      (behind.drop n).map (fun call => call.frame.bytes), ?_, ?_, ?_⟩
    · rw [← List.map_append, List.append_assoc, List.take_append_drop]
      exact hran
    · rw [PooledServant.answers_served fun call hcall => hserved call (hahead call hcall),
        SentCall.responses_append, List.append_assoc, ← hcut, ← List.append_assoc, ← harrived]
    · intro call hcall hbytes
      obtain ⟨other, hother, hsame⟩ := List.mem_map.mp hbytes
      rw [← h.eq_of_bytes (hmem (hahead other hother)).1 hcall hsame]
      rcases List.mem_append.mp hother with hother | hother
      · exact (hended other hother).imp_left (List.mem_append_left more)
      · exact hover other hother

/-- A client that may have read disconnects, and keeps its sessions. -/
theorem inv_disconnect (h : s.Inv dispatchPayload serve tasks answered) {uid : UInt32}
    {proxy : ProxyState} (hkeeps : MyProxy.KeepsOthers uid s.proxy proxy)
    (hsessions : proxy.sessions = s.proxy.sessions) {c : MyClient}
    (hc : proxy.loops.findClient uid = some c) {link : ClientLink κ}
    (hlink : link.Inv s.calls s.streams uid) (hleaves : ∀ k, link.socket ≠ .connected k) :
    Inv dispatchPayload serve tasks answered { s.setLink uid link with
      proxy := { proxy with loops := proxy.loops.setClient uid c.disconnect } } := by
  have hconfig : MyProxy.configOf uid s.proxy = some c.config := by
    rw [← hkeeps.config, MyProxy.configOf, hc, Option.map_some]
  have hclear : c.disconnect = { c with readBuffer := [] } := by
    rw [MyClient.disconnect, h.tcp uid c.config hconfig]
  have hset : MyProxy.KeepsOthers uid proxy
      { proxy with loops := proxy.loops.setClient uid c.disconnect } := by
    apply MyProxy.keepsOthers_setClient hc
    rw [hclear]
  have hsame := ProxyState.sessions_setClient hc c.disconnect (by rw [hclear])
  have houtcomes := h.outcomes
  rw [← hsessions, ← hsame, ← List.append_nil answered] at houtcomes
  rw [← List.append_nil answered]
  refine inv_keepsOthers h hlink ?_ (hkeeps.trans hset) ?_ houtcomes
  · exact fun _ hmem => absurd hmem List.not_mem_nil
  · intro buf hbuf
    rw [MyProxy.bufferOf_setClient hc, hclear] at hbuf
    obtain rfl := Option.some.inj hbuf
    exact ⟨fun _ => rfl, .inl rfl, fun k hk => absurd hk (hleaves k)⟩

/-- A client that has read is removed, and its sessions with it. -/
theorem inv_removeClient (h : s.Inv dispatchPayload serve tasks answered) {uid : UInt32}
    {proxy : ProxyState} (hkeeps : MyProxy.KeepsOthers uid s.proxy proxy)
    (hsessions : proxy.sessions = s.proxy.sessions) {link : ClientLink κ}
    (hlink : link.Inv s.calls s.streams uid) :
    Inv dispatchPayload serve tasks answered { s.setLink uid link with
      proxy := { proxy with loops := proxy.loops.removeClient uid } } := by
  have hself : (proxy.loops.removeClient uid).findClient uid = none := by
    rw [ClientLoops.findClient_removeClient, if_pos rfl]
  have hfind {other : UInt32} (hne : other ≠ uid) :
      (proxy.loops.removeClient uid).findClient other = proxy.loops.findClient other := by
    rw [ClientLoops.findClient_removeClient, if_neg hne.symm]
  rw [← List.append_nil answered]
  refine inv_client h hlink (fun _ hmem => absurd hmem List.not_mem_nil) ?_ ?_ ?_ ?_
  · intro other config hother
    by_cases hne : other = uid
    · rw [hne, MyProxy.configOf, hself] at hother
      cases hother
    · rw [MyProxy.configOf, hfind hne] at hother
      exact hkeeps.config other ▸ hother
  · intro other hne
    rw [MyProxy.bufferOf, hfind hne]
    exact hkeeps.buffer other hne
  · intro buf hbuf
    rw [MyProxy.bufferOf, hself] at hbuf
    cases hbuf
  · rw [List.append_nil]
    have houtcomes := h.outcomes
    rw [← hsessions] at houtcomes
    refine houtcomes.lose rfl ?_ ?_
    · intro other hheld
      have hne : other ≠ uid := by
        rintro rfl
        rw [MyProxy.bufferOf, hself] at hheld
        cases hheld
      rw [MyProxy.bufferOf, hfind hne] at hheld
      refine ⟨?_, ?_⟩
      · rw [Held, ← hkeeps.buffer other hne]
        exact hheld
      · funext requestId
        exact (ClientLoops.pending_removeClient proxy.loops uid other requestId).trans
          (if_neg hne.symm)
    · intro other requestId hgone
      refine (ClientLoops.pending_removeClient proxy.loops uid other requestId).trans ?_
      split
      · rfl
      · exact hgone

theorem inv_onRead (h : s.Inv dispatchPayload serve tasks answered) {uid : UInt32}
    {ev : ReadEvent} (hstep : s.step dispatchPayload (.onRead uid ev) = some t) :
    ∃ more, t.Inv dispatchPayload serve tasks (answered ++ more) := by
  simp only [step] at hstep
  split at hstep
  · next k hk =>
    obtain ⟨hcame, hread⟩ := Option.ite_none_right_eq_some.mp hstep
    obtain ⟨proxy, hproxy, rfl⟩ := Option.map_eq_some_iff.mp hread
    obtain ⟨made, hcalls⟩ := MyProxy.onRead_eq_some_iff.mp hproxy
    have hlink := h.links uid
    cases hc : s.proxy.loops.findClient uid with
    | none =>
      rw [MyProxy.OnReadCalls, hc] at hcalls
      obtain ⟨-, rfl⟩ := hcalls
      refine ⟨[], inv_client h hlink ?_ (fun _ _ hc => hc) (fun _ _ => rfl) ?_ ?_⟩
      · exact fun _ hmem => absurd hmem List.not_mem_nil
      · intro buf hbuf
        rw [List.append_nil]
        exact h.buffers uid buf hbuf
      · rw [List.append_nil]
        exact h.outcomes
    | some client =>
      by_cases hdrained : ev.result = .drained
      · obtain ⟨reads, rfl⟩ : ∃ reads, ev = .arrival reads := by
          obtain ⟨reads, result⟩ := ev
          cases hdrained
          exact ⟨reads, rfl⟩
        rw [ClientLink.afterRead, if_neg fun hend => hend.1 rfl]
        exact inv_arrival h hc hk hcame hcalls
      · simp only [MyProxy.OnReadCalls, hc, MyClient.onRead_eq, ReadEvent.closes_eq, hdrained,
          ne_eq, not_false_eq_true, decide_true, ↓reduceIte] at hcalls
        obtain ⟨-, rfl⟩ := hcalls
        have hset := ClientLoops.findClient_setClient_self hc (client.receive ev.bytes)
        have hkeeps : MyProxy.KeepsOthers uid s.proxy { s.proxy with
            loops := s.proxy.loops.setClient uid (client.receive ev.bytes) } :=
          MyProxy.keepsOthers_setClient hc rfl
        have hsessions := ProxyState.sessions_setClient hc (client.receive ev.bytes) rfl
        refine ⟨[], ?_⟩
        rw [List.append_nil, MyProxy.onDisconnect, ClientLink.afterRead]
        by_cases hauto : (client.receive ev.bytes).config.autoReconnect
        · have hnull : ev.result ≠ .drained ∧ client.config.autoReconnect := ⟨hdrained, hauto⟩
          rw [if_pos hauto, if_pos hnull]
          exact inv_disconnect h hkeeps hsessions hset
            ⟨hlink.tasks, fun _ hno => by cases hno⟩ fun _ hno => by cases hno
        · rw [if_neg hauto, if_neg fun hboth => hauto hboth.2]
          exact inv_removeClient h hkeeps hsessions ⟨hlink.tasks, hlink.socket⟩
  · cases hstep

theorem inv_reconnect (h : s.Inv dispatchPayload serve tasks answered) {uid : UInt32}
    (hstep : s.step dispatchPayload (.reconnect uid) = some t) :
    t.Inv dispatchPayload serve tasks answered := by
  obtain ⟨client, hc, rfl⟩ := Option.map_eq_some_iff.mp hstep
  exact inv_disconnect h (MyProxy.KeepsOthers.refl uid s.proxy) rfl hc
    ⟨(h.links uid).tasks, fun _ hno => by cases hno⟩ fun _ hno => by cases hno

theorem inv_servant (h : s.Inv dispatchPayload serve tasks answered)
    {event : PooledServant.Event κ}
    (hallowed : s.Allowed dispatchPayload serve (.servant event))
    (hstep : s.step dispatchPayload (.servant event) = some t) :
    t.Inv dispatchPayload serve tasks answered := by
  obtain ⟨hcomes, hserve⟩ := Option.ite_none_right_eq_some.mp hstep
  obtain ⟨servant, hservant, rfl⟩ := Option.map_eq_some_iff.mp hserve
  have hran (k : κ) : s.ran k <+: packetsFor k servant.handlerExecutor.ran :=
    (PooledServant.ran_step hservant).filterMap _
  have hinv := PooledServant.inv_step h.servant hservant
  refine { h with servant := hinv, streams := ?_, buffers := ?_ }
  · intro k
    have hold := h.streams k
    refine ⟨hold.offered, hold.accepted, fun hclient => ?_⟩
    obtain ⟨hreceived, hclear⟩ := hold.received hclient
    rcases PooledServant.received_step hservant k with hsame | ⟨chunk, rfl, hread⟩
    · rw [hsame]
      exact ⟨hreceived, hclear⟩
    · rw [hread, List.flatten_append, List.flatten_singleton]
      refine ⟨hcomes.resolve_left hclient, MyServant.cutsClear_concat_iff.mpr ⟨hclear, ?_⟩⟩
      rw [Nat.zero_add]
      exact hallowed hclient
  · intro uid buf hbuf
    exact (h.buffers uid buf hbuf).mono (fun _ _ _ hmem _ => hmem) (fun _ hmem => hmem)
      (fun _ hmem => hmem) hran

theorem inv_step {event : Event κ} (h : s.Inv dispatchPayload serve tasks answered)
    (hallowed : s.Allowed dispatchPayload serve event)
    (hstep : s.step dispatchPayload event = some t) :
    ∃ more, t.Inv dispatchPayload serve tasks (answered ++ more) := by
  have hsame (ht : t.Inv dispatchPayload serve tasks answered) :
      ∃ more, t.Inv dispatchPayload serve tasks (answered ++ more) := by
    refine ⟨[], ?_⟩
    rwa [List.append_nil]
  cases event with
  | buildSession call => exact hsame (inv_buildSession h hallowed hstep)
  | sendPayload i room =>
    obtain ⟨call, hcall, hsend⟩ := Option.bind_eq_some_iff.mp hstep
    have hmem := List.mem_of_getElem? hcall
    cases room with
    | some room => exact hsame (inv_write h hmem (hallowed call hcall) hsend)
    | none =>
      obtain rfl := Option.some.inj hsend
      refine hsame (inv_tasks h ?_)
      rw [List.forall_mem_append, List.forall_mem_singleton]
      exact ⟨(h.links call.session.client).tasks, hmem, rfl⟩
  | runTask uid room =>
    simp only [step] at hstep
    split at hstep
    · cases hstep
    · next call rest htasks =>
      have hqueued := (h.links uid).tasks
      rw [htasks, List.forall_mem_cons] at hqueued
      obtain ⟨⟨hmem, huid⟩, hrest⟩ := hqueued
      have hfollows : s.Follows call room := hallowed call (by rw [htasks]; rfl)
      refine hsame (inv_write (inv_tasks h hrest) hmem ?_ hstep)
      intro k hk
      rw [links_setLink, if_pos huid, ← huid] at hk
      exact hfollows k hk
  | whenSessionTimeout i =>
    obtain ⟨call, hcall, rfl⟩ := Option.map_eq_some_iff.mp hstep
    refine hsame { h with timers := ?_ }
    rw [List.forall_mem_append, List.forall_mem_singleton]
    exact ⟨h.timers, List.mem_of_getElem? hcall⟩
  | timer i => exact hsame (inv_timer h hstep)
  | connect uid k => exact hsame (inv_connect h hstep)
  | onRead uid ev => exact inv_onRead h hstep
  | reconnect uid => exact hsame (inv_reconnect h hstep)
  | servant event => exact hsame (inv_servant h hallowed hstep)

def initial (p : ProxyState) (num : ℕ) : CallSystem κ where
  proxy := p
  servant := .initial num

theorem inv_initial (dispatchPayload : DispatchPayload) (serve : List Byte → Option (List Byte))
    {p : ProxyState} (num : ℕ)
    (htcp : ∀ uid, ∀ config ∈ MyProxy.configOf uid p, config.clientType = .kClientTypeTcp)
    (hempty : ∀ uid, ∀ buf ∈ MyProxy.bufferOf uid p, buf = []) :
    (initial p num : CallSystem κ).Inv dispatchPayload serve p.tasks [] where
  servant := PooledServant.inv_initial dispatchPayload num
  served _ hmem := absurd hmem List.not_mem_nil
  distinct := List.nodup_nil
  timers _ hmem := absurd hmem List.not_mem_nil
  expired _ hmem := absurd hmem List.not_mem_nil
  sent _ hmem := absurd hmem List.not_mem_nil
  streams _ := ⟨fun _ hmem => absurd hmem List.not_mem_nil, List.prefix_rfl,
    fun hno => absurd rfl hno⟩
  links _ := ⟨fun _ hmem => absurd hmem List.not_mem_nil, fun _ hno => by cases hno⟩
  tcp := htcp
  buffers uid buf hbuf := by
    refine ⟨fun _ => hempty uid buf hbuf, ?_, fun _ hno => by cases hno⟩
    rw [hempty uid buf hbuf]
    exact .inl rfl
  outcomes := ⟨(List.append_nil _).symm, List.nodup_nil,
    fun _ hmem => absurd hmem List.not_mem_nil, fun _ hmem => absurd hmem List.not_mem_nil⟩

/-- The servant has read every frame offered on the connection of the client, it is done with its
packets, and the client has read the answers. -/
structure Delivered (s : CallSystem κ) (uid : UInt32) (k : κ) : Prop where
  held : s.Held uid
  socket : (s.links uid).socket = .connected k
  received : (s.servant.channels k).received.flatten =
    stream ((s.streams k).offered.map SentCall.frame)
  settled : s.servant.Settled k
  lives : (s.servant.channels k).writer.removed = false
  written : (s.servant.channels k).writer.writeBuf = []
  arrived : (s.links uid).arrived = (s.servant.channels k).writer.accepted

instance (s : PooledServant κ) (k : κ) : Decidable (s.Settled k) :=
  decidable_of_iff ((s.channels k).handling = false ∧ s.handlerExecutor.job_queue_.isEmpty ∧
      ∀ thread ∈ s.handlerExecutor.workers_, thread.point.job.card = 0) <| by
    simp only [List.isEmpty_iff, Multiset.card_eq_zero]
    exact ⟨fun ⟨handled, queue, workers⟩ => ⟨handled, queue, workers⟩,
      fun ⟨handled, queue, workers⟩ => ⟨handled, queue, workers⟩⟩

instance (s : CallSystem κ) (uid : UInt32) (k : κ) : Decidable (s.Delivered uid k) :=
  decidable_of_iff ((MyProxy.bufferOf uid s.proxy).isSome ∧
      (s.links uid).socket = .connected k ∧
      (s.servant.channels k).received.flatten =
        stream ((s.streams k).offered.map SentCall.frame) ∧
      s.servant.Settled k ∧ (s.servant.channels k).writer.removed = false ∧
      (s.servant.channels k).writer.writeBuf = [] ∧
      (s.links uid).arrived = (s.servant.channels k).writer.accepted)
    ⟨fun ⟨held, socket, received, settled, lives, written, arrived⟩ =>
        ⟨held, socket, received, settled, lives, written, arrived⟩,
      fun ⟨held, socket, received, settled, lives, written, arrived⟩ =>
        ⟨held, socket, received, settled, lives, written, arrived⟩⟩

/-- No call waits for an answer that was delivered. -/
theorem Inv.ended_of_delivered (h : s.Inv dispatchPayload serve tasks answered) {uid : UInt32}
    {k : κ} (hd : s.Delivered uid k) {call : SentCall} (hcall : call ∈ (s.streams k).offered) :
    call ∈ answered ∨ call ∈ s.expired := by
  obtain ⟨buf, hbuf⟩ := Option.isSome_iff_exists.mp hd.held
  obtain ⟨before, behind, hoffered, -, harrived, hsound, hended, hperm⟩ :=
    h.exists_answers hbuf hd.socket
  have hserved : ∀ call ∈ behind, call.Served dispatchPayload serve := by
    intro call hmem
    have hmem' := hoffered call (List.mem_append_right before hmem)
    exact h.served call ((h.streams k).offered call hmem').1
  have hleft : SentCall.responses serve behind = buf := by
    have hall := hsound.waits hd.lives
    rw [hd.written, List.append_nil, ← hd.arrived, harrived, List.append_cancel_left_eq] at hall
    exact hall.symm
  have hnone : behind = [] := by
    obtain ⟨frames, hframes⟩ := SentCall.exists_responseFrames hserved
    have hstream : stream frames = buf := (SentCall.stream_responseFrames hframes).trans hleft
    have hwaits := (h.buffers uid buf hbuf).waits
    rw [← hstream] at hwaits
    obtain ⟨hempty, -⟩ := MyProxy.packets_of_stream (.nil (stream frames)) (.inl hwaits)
    rw [hframes] at hempty
    exact List.map_eq_nil_iff.mp hempty.symm
  rw [hnone, List.append_nil] at hperm
  exact hended call ((hperm hd.settled hd.received).symm.subset hcall)

/-- Calls on any number of clients, each on one connection after the other, to one servant with
any number of handler threads. In every run in which the calls have request ids of their own, writes
follow whole frames and no read of the servant cuts a frame in its first bytes: the session of a
call ends at most once, by the answer to its own payload or by its timer; as long as its client is
held it waits until then; and it has ended when the answers of its connection were delivered. -/
theorem calls_end_once {p : ProxyState} {num : ℕ} {events : List (Event κ)}
    (htcp : ∀ uid, ∀ config ∈ MyProxy.configOf uid p, config.clientType = .kClientTypeTcp)
    (hempty : ∀ uid, ∀ buf ∈ MyProxy.bufferOf uid p, buf = [])
    (hrun : run (step dispatchPayload) (initial p num) events = some s)
    (hallowed : Along (Allowed dispatchPayload serve) (step dispatchPayload) (initial p num)
      events) :
    ∃ answered : List SentCall, (answered ++ s.expired).Nodup ∧
      (∀ call ∈ answered ++ s.expired, call ∈ s.calls) ∧
      s.proxy.tasks = p.tasks ++ answered.map (SentCall.task serve) ∧
      (∀ call ∈ answered ++ s.expired,
        s.proxy.loops.pending call.session.client call.session.requestId = none) ∧
      (∀ call ∈ s.calls, s.Held call.session.client → call ∉ answered ++ s.expired →
        s.proxy.loops.pending call.session.client call.session.requestId = some call.session) ∧
      ∀ uid k, s.Delivered uid k →
        ∀ call ∈ (s.streams k).offered, call ∈ answered ++ s.expired := by
  have hstart : ∃ answered, (initial p num : CallSystem κ).Inv dispatchPayload serve p.tasks
      answered := ⟨[], inv_initial dispatchPayload serve num htcp hempty⟩
  have hstep (u : CallSystem κ) (event : Event κ) (v : CallSystem κ)
      (hu : ∃ answered, u.Inv dispatchPayload serve p.tasks answered)
      (hallowed : u.Allowed dispatchPayload serve event)
      (hv : u.step dispatchPayload event = some v) :
      ∃ answered, v.Inv dispatchPayload serve p.tasks answered := by
    obtain ⟨answered, hu⟩ := hu
    obtain ⟨more, hmore⟩ := inv_step hu hallowed hv
    exact ⟨answered ++ more, hmore⟩
  obtain ⟨answered, h⟩ := invariant_of_run hstep hstart hallowed hrun
  have hcalls : ∀ call ∈ answered ++ s.expired, call ∈ s.calls := by
    rw [List.forall_mem_append]
    exact ⟨fun _ => h.mem_calls, h.expired⟩
  refine ⟨answered, h.outcomes.once, hcalls, h.outcomes.tasks, ?_, ?_, ?_⟩
  · intro call hcall
    exact h.outcomes.ended call (hcalls call hcall) (List.mem_append.mp hcall)
  · intro call hcall hheld hnot
    rw [List.mem_append, not_or] at hnot
    exact h.outcomes.waits call hcall hheld hnot.1 hnot.2
  · intro uid k hd call hcall
    exact List.mem_append.mpr (h.ended_of_delivered hd hcall)

instance (call : SentCall) : Decidable (call.Served echo some) := .isTrue (served_echo call)

/-- A heartbeat, sent at once, and a call with two bytes, sent by a task, on one connection. The
timer of the latter runs out before the two answers come, in one read. -/
def lateAnswer : List (Event ℕ) :=
  [.connect 0x70001 3, .buildSession heartbeatCall, .sendPayload 0 (some 100),
    .buildSession dataCall, .sendPayload 1 none, .whenSessionTimeout 1, .runTask 0x70001 100] ++
  PooledServant.consecutive.map .servant ++
  [.timer 0, .onRead 0x70001 (.arrival
    [((twoCalls.map fun call => (call.response some).encode).flatten)])]

def oneClient : ProxyState := ⟨.oneClient 0x70001, []⟩

theorem tcp_of_oneClient {uid : UInt32} {c : MyClient}
    (hc : oneClient.loops.findClient uid = some c) :
    c.config.clientType = .kClientTypeTcp ∧ c.readBuffer = [] := by
  have hlt : 0 < (Shards.empty 1 : ClientLoops).length := by decide
  rw [oneClient, ClientLoops.findClient, ClientLoops.oneClient, Shards.get?_put _ hlt,
    Shards.get?_empty] at hc
  split at hc
  · obtain rfl := Option.some.inj hc
    exact ⟨rfl, rfl⟩
  · cases hc

theorem calls_end_once_late : ∃ s, run (step echo) (initial oneClient 1) lateAnswer = some s ∧
    ∃ answered : List SentCall, (answered ++ s.expired).Nodup ∧
      s.proxy.tasks = answered.map (SentCall.task some) ∧
      ∀ call ∈ (s.streams 3).offered, call ∈ answered ++ s.expired := by
  have hallowed : Along (Allowed echo some) (step echo) (initial oneClient 1) lateAnswer := by
    decide +kernel
  have hdelivered : ∃ s ∈ run (step echo) (initial oneClient 1) lateAnswer,
      s.Delivered 0x70001 3 := by decide +kernel
  obtain ⟨s, hrun, hd⟩ := hdelivered
  have htcp : ∀ uid, ∀ config ∈ MyProxy.configOf uid oneClient,
      config.clientType = .kClientTypeTcp := by
    intro uid config hconfig
    obtain ⟨c, hc, rfl⟩ := Option.map_eq_some_iff.mp hconfig
    exact (tcp_of_oneClient hc).1
  have hempty : ∀ uid, ∀ buf ∈ MyProxy.bufferOf uid oneClient, buf = [] := by
    intro uid buf hbuf
    obtain ⟨c, hc, rfl⟩ := Option.map_eq_some_iff.mp hbuf
    exact (tcp_of_oneClient hc).2
  obtain ⟨answered, honce, -, htasks, -, -, hall⟩ := calls_end_once htcp hempty hrun hallowed
  exact ⟨s, hrun, answered, honce, htasks, hall 0x70001 3 hd⟩

end CallSystem
end EchoFrame
