import EchoFrame.UdpServant
import EchoFrame.Verif.Run

/-! What the read events of a UDP servant do to the datagrams that are pending. -/
namespace EchoFrame
open Verif

namespace UdpServer

variable (hash : String → UInt64)

/-- A datagram is at most as long as the longest that is read. -/
def Respects (_ : UdpServer) : UdpEvent → Prop
  | .arrive _ d => d.bytes.length ≤ g_max_udp_packet_length
  | _ => True

/-- The datagram read next is not empty, and there is a loop; a channel found under
the hash of its sender is that of the sender on this socket, with room for the
longest datagram in its buffer. -/
def Readable (s : UdpServer) : UdpEvent → Prop
  | .onRead socket _ _ => ∀ d ∈ (s.queues socket).head?, d.bytes ≠ [] ∧ 0 < s.channels.length ∧
      ∀ c ∈ s.findChannel (MyUdpChannel.createUid hash d.sender), c.socket = socket ∧
        c.peer = d.sender ∧ c.readBuf.Roomy g_max_udp_packet_length ∧
        c.readBuf.CopyReaches g_max_udp_packet_length
  | _ => True

/-- The bytes that wait in the read buffer of a sender's channel on a socket. -/
def buffered (s : UdpServer) (socket : ℕ) (sender : Peer) : List Byte :=
  match s.findChannel (MyUdpChannel.createUid hash sender) with
  | none => []
  | some c => if c.socket = socket ∧ c.peer = sender then c.readBuf.contents else []

/-- The head of the queue of a socket is removed, and its bytes are appended to the
buffer of its sender. Nothing else changes. -/
def Consumes (s : UdpServer) (socket : ℕ) (t : UdpServer) : Prop :=
  ∃ d rest, s.queues socket = d :: rest ∧ t.queues = Function.update s.queues socket rest ∧
    t.buffered hash socket d.sender = s.buffered hash socket d.sender ++ d.bytes ∧
    ∀ other sender, (other,sender) ≠ (socket,d.sender) →
      t.buffered hash other sender = s.buffered hash other sender

/-- A read event consumes the datagram at the head of the queue, if there is one. -/
def ReadsHead (s : UdpServer) : UdpEvent → Prop
  | .onRead socket junk again => s.queues socket ≠ [] →
      ∃ t, s.step hash (.onRead socket junk again) = some t ∧ s.Consumes hash socket t
  | _ => True

def arrivals (socket : ℕ) (es : List UdpEvent) : List Datagram :=
  es.filterMap fun
    | .arrive other d => if other = socket then some d else none
    | _ => none

def reads (socket : ℕ) (es : List UdpEvent) : ℕ :=
  es.countP fun
    | .onRead other _ _ => other = socket
    | _ => false

structure Sound (s : UdpServer) : Prop where
  ordered : ∀ uid c, s.findChannel uid = some c → c.readBuf.Ordered
  short : ∀ socket, ∀ d ∈ s.queues socket, d.bytes.length ≤ g_max_udp_packet_length

variable {hash : String → UInt64} {s t : UdpServer} {c : MyUdpChannel} {uid : UInt64}
  {e : UdpEvent} {socket : ℕ} {d : Datagram} {rest : List Datagram}

/-- The channel of the sender reads the head of the queue. -/
theorem readChannel_spec (junk : ℕ → Byte) (again : Bool) (uid : UInt64) (c : MyUdpChannel)
    (hn : 0 < s.channels.length) (hq : s.queues c.socket = d :: rest) (hc : c.readBuf.Ordered)
    (hroom : c.readBuf.Roomy g_max_udp_packet_length)
    (hcopy : c.readBuf.CopyReaches g_max_udp_packet_length) (hne : d.bytes ≠ [])
    (hlen : d.bytes.length ≤ g_max_udp_packet_length) :
    ∃ t readBuf, s.readChannel junk again uid c = some t ∧
      t.queues = Function.update s.queues c.socket rest ∧
      (∀ uid', t.findChannel uid' =
        if uid = uid' then some { c with readBuf := readBuf } else s.findChannel uid') ∧
      readBuf.Ordered ∧ readBuf.contents = c.readBuf.contents ++ d.bytes := by
  obtain ⟨readBuf, hread, hord, hcont⟩ := c.onRead_spec junk rest hc hroom hcopy hne hlen
  have hpos : ¬((d.bytes.length : ℤ) ≤ 0) := by
    have := List.length_pos_iff.mpr hne
    omega
  refine ⟨{ s.setChannel uid { c with readBuf := readBuf } with
    queues := Function.update s.queues c.socket rest }, readBuf, ?_, rfl, ?_, hord, hcont⟩
  · simp only [readChannel, hq, hread, hpos, false_and, ↓reduceIte, Option.bind_eq_bind,
      Option.bind_some]
  · exact findChannel_setChannel hn

/-- What a read event that meets the condition does. -/
theorem doRead_spec (hs : Sound s) (junk : ℕ → Byte) (again : Bool)
    (hq : s.queues socket = d :: rest) (hready : Readable hash s (.onRead socket junk again)) :
    ∃ t readBuf, s.doRead hash socket junk again = some t ∧
      t.queues = Function.update s.queues socket rest ∧
      (∀ uid', t.findChannel uid' = if MyUdpChannel.createUid hash d.sender = uid' then
        some ⟨socket,d.sender,readBuf⟩ else s.findChannel uid') ∧
      readBuf.Ordered ∧ readBuf.contents = s.buffered hash socket d.sender ++ d.bytes := by
  obtain ⟨hne, hn, hown⟩ := hready d (by rw [hq]; rfl)
  have hlen := hs.short socket d (by rw [hq]; exact List.mem_cons_self)
  have hpeek : (d.bytes.take 1).length ≠ 0 := by
    have := List.length_pos_iff.mpr hne
    rw [List.length_take]
    omega
  unfold doRead
  rw [hq]
  dsimp only
  rw [if_neg hpeek]
  cases hfind : s.findChannel (MyUdpChannel.createUid hash d.sender) with
  | some channel =>
    obtain ⟨rfl, hpeer, hroom, hcopy⟩ := hown channel hfind
    obtain ⟨t, readBuf, hread, hqueues, hget, hord, hcont⟩ :=
      readChannel_spec junk again _ channel hn hq (hs.ordered _ _ hfind) hroom hcopy hne hlen
    refine ⟨t, readBuf, hread, hqueues, ?_, hord, ?_⟩
    · rw [← hpeer]
      rw [← hpeer] at hget
      exact hget
    · rw [hcont, buffered, hfind]
      simp only [hpeer, and_self, ↓reduceIte]
  | none =>
    obtain ⟨b, hb, hbord, hbcont, hroom, hcopy⟩ := create_roomy junk
    have hn₁ : 0 < (s.setChannel (MyUdpChannel.createUid hash d.sender)
        ⟨socket,d.sender,b⟩).channels.length := by
      rw [setChannel, Shards.length_put]
      exact hn
    obtain ⟨t, readBuf, hread, hqueues, hget, hord, hcont⟩ :=
      readChannel_spec junk again (MyUdpChannel.createUid hash d.sender) ⟨socket,d.sender,b⟩ hn₁ hq
        hbord hroom hcopy hne hlen
    refine ⟨t, readBuf, ?_, hqueues, ?_, hord, ?_⟩
    · simp only [hn.ne', ↓reduceIte, hb, Option.bind_eq_bind, Option.bind_some]
      exact hread
    · intro uid'
      rw [hget, findChannel_setChannel hn]
      split <;> rfl
    · rw [hcont, hbcont, buffered, hfind]

theorem buffered_of_findChannel {uid : UInt64} {readBuf : MySKBuffer}
    (hget : ∀ uid', t.findChannel uid' =
      if uid = uid' then some ⟨socket,d.sender,readBuf⟩ else s.findChannel uid')
    (hown : ∀ c ∈ s.findChannel uid, c.socket = socket ∧ c.peer = d.sender)
    {other : ℕ} {sender : Peer} (hne : (other,sender) ≠ (socket,d.sender)) :
    t.buffered hash other sender = s.buffered hash other sender := by
  have hnot (h : socket = other ∧ d.sender = sender) : False := hne (by rw [h.1, h.2])
  unfold buffered
  rw [hget]
  by_cases huid : uid = MyUdpChannel.createUid hash sender
  · rw [if_pos huid, ← huid]
    dsimp only
    rw [if_neg hnot]
    cases hfind : s.findChannel uid with
    | none => rfl
    | some c =>
      obtain ⟨hsocket, hpeer⟩ := hown c hfind
      dsimp only
      rw [if_neg fun h => hnot ⟨hsocket.symm.trans h.1, hpeer.symm.trans h.2⟩]
  · rw [if_neg huid]

theorem doRead_consumes (hs : Sound s) (junk : ℕ → Byte) (again : Bool)
    (hq : s.queues socket = d :: rest) (hready : Readable hash s (.onRead socket junk again)) :
    ∃ t, s.doRead hash socket junk again = some t ∧ s.Consumes hash socket t := by
  obtain ⟨t, readBuf, ht, hqueues, hget, -, hcont⟩ := doRead_spec hs junk again hq hready
  obtain ⟨-, -, hown⟩ := hready d (by rw [hq]; rfl)
  refine ⟨t, ht, d, rest, hq, hqueues, ?_, ?_⟩
  · rw [← hcont]
    rw [buffered, hget, if_pos rfl]
    exact if_pos ⟨rfl, rfl⟩
  · intro other sender hne
    exact buffered_of_findChannel hget (fun c hc => ⟨(hown c hc).1, (hown c hc).2.1⟩) hne

theorem Sound.of_channels (hs : Sound s) (hqueues : t.queues = s.queues)
    (hget : ∀ uid c, t.findChannel uid = some c →
      c.readBuf.Ordered ∨ s.findChannel uid = some c) : Sound t := by
  refine ⟨?_, hqueues ▸ hs.short⟩
  intro uid c hc
  rcases hget uid c hc with hord | hold
  · exact hord
  · exact hs.ordered uid c hold

theorem sound_arrive (hs : Sound s) (hlen : d.bytes.length ≤ g_max_udp_packet_length) :
    Sound { s with queues := Function.update s.queues socket (s.queues socket ++ [d]) } := by
  refine ⟨hs.ordered, ?_⟩
  intro other d' hd'
  dsimp only at hd'
  by_cases ho : other = socket
  · subst ho
    rw [Function.update_self, List.mem_append, List.mem_singleton] at hd'
    rcases hd' with hd' | rfl
    · exact hs.short other d' hd'
    · exact hlen
  · rw [Function.update_of_ne ho] at hd'
    exact hs.short other d' hd'

theorem sound_doRead (hs : Sound s) {junk : ℕ → Byte} {again : Bool}
    (hq : s.queues socket = d :: rest) (hready : Readable hash s (.onRead socket junk again))
    (ht : s.doRead hash socket junk again = some t) : Sound t := by
  obtain ⟨t', readBuf, ht', hqueues, hget, hord, -⟩ := doRead_spec hs junk again hq hready
  obtain rfl := Option.some.inj (ht.symm.trans ht')
  refine ⟨?_, ?_⟩
  · intro uid c hc
    rw [hget] at hc
    split at hc
    · cases hc
      exact hord
    · exact hs.ordered uid c hc
  · intro other d' hd'
    rw [hqueues] at hd'
    by_cases ho : other = socket
    · subst ho
      rw [Function.update_self] at hd'
      exact hs.short other d' (by rw [hq]; exact List.mem_cons_of_mem _ hd')
    · rw [Function.update_of_ne ho] at hd'
      exact hs.short other d' hd'

theorem sound_step (hs : Sound s) (hr : Respects s e) (hready : Readable hash s e)
    (ht : s.step hash e = some t) : Sound t := by
  cases e with
  | arrive socket d =>
    cases ht
    exact sound_arrive hs hr
  | onRead socket junk again =>
    obtain ⟨hne, hread⟩ := Option.ite_none_left_eq_some.mp ht
    obtain ⟨d, rest, hq⟩ := List.exists_cons_of_ne_nil hne
    exact sound_doRead hs hq hready hread
  | fetchPacket uid length =>
    obtain ⟨channel, readBuf, _, hfind, hread, rfl⟩ := fetchPacket_spec ht
    have hn : 0 < s.channels.length := Nat.zero_lt_of_lt (Shards.lt_length_of_get? hfind)
    have hord := ordered_getReadableAndMove (hs.ordered uid channel hfind) length.toNat_lt hread
    refine hs.of_channels rfl (t := s.setChannel uid { channel with readBuf := readBuf }) ?_
    intro uid' c hc
    rw [findChannel_setChannel hn] at hc
    split at hc
    · cases hc
      exact .inl hord
    · exact .inr hc
  | removeChannel uid =>
    cases ht
    refine hs.of_channels rfl (t := s.removeChannel uid) ?_
    intro uid' c hc
    rw [findChannel_removeChannel] at hc
    split at hc
    · cases hc
    · exact .inr hc

theorem sound_init (n : ℕ) : Sound (init n) := by
  refine ⟨?_, fun socket d hd => absurd hd List.not_mem_nil⟩
  intro uid c hc
  rw [findChannel, init, Shards.get?_empty] at hc
  cases hc

theorem readsHead_of_readable (hs : Sound s) (hready : Readable hash s e) :
    ReadsHead hash s e := by
  cases e with
  | onRead socket junk again =>
    intro hne
    obtain ⟨d, rest, hq⟩ := List.exists_cons_of_ne_nil hne
    obtain ⟨t, ht, hconsumes⟩ := doRead_consumes hs junk again hq hready
    exact ⟨t, (if_neg hne).trans ht, hconsumes⟩
  | _ => trivial

/-- What one event does to the queue of a socket. -/
theorem queues_step (hs : Sound s) (hready : Readable hash s e) (ht : s.step hash e = some t)
    (socket : ℕ) : ∃ taken : List Datagram, taken.length = reads socket [e] ∧
      s.queues socket ++ arrivals socket [e] = taken ++ t.queues socket := by
  cases e with
  | arrive other d =>
    cases ht
    refine ⟨[], rfl, ?_⟩
    dsimp only
    rw [queues_arrive, List.nil_append, arrivals]
    split <;> simp [*]
  | onRead other junk again =>
    obtain ⟨hne, hread⟩ := Option.ite_none_left_eq_some.mp ht
    obtain ⟨d, rest, hq⟩ := List.exists_cons_of_ne_nil hne
    obtain ⟨t', ht', d', rest', hq', hqueues, -⟩ := doRead_consumes hs junk again hq hready
    obtain rfl := Option.some.inj (hread.symm.trans ht')
    obtain ⟨taken, hlen, htaken⟩ := queues_read hq' socket
    refine ⟨taken, ?_, ?_⟩
    · simp only [hlen, reads, List.countP_singleton, decide_eq_true_eq]
    · rw [hqueues, ← htaken]
      exact List.append_nil _
  | fetchPacket uid length =>
    obtain ⟨_, _, _, -, -, rfl⟩ := fetchPacket_spec ht
    exact ⟨[], rfl, List.append_nil _⟩
  | removeChannel uid =>
    cases ht
    exact ⟨[], rfl, List.append_nil _⟩

/-- Where every read event finds a datagram that is not empty, and its sender's own
channel or none, each of them consumes the head of the queue, and after as many
read events as many datagrams are gone. -/
theorem datagrams_consumed (hash : String → UInt64) (n : ℕ) (es : List UdpEvent)
    (hr : Along Respects (step hash) (init n) es)
    (hready : Along (Readable hash) (step hash) (init n) es) :
    Along (ReadsHead hash) (step hash) (init n) es ∧
      ∀ t, run (step hash) (init n) es = some t →
        ∀ socket, t.queues socket = (arrivals socket es).drop (reads socket es) := by
  have hall := (along_and (init n) es).mpr ⟨hr, hready⟩
  constructor
  · apply along_of_invariant ?_ ?_ (sound_init n) hall
    · exact fun s e hs h => readsHead_of_readable hs h.2
    · exact fun s e t hs h => sound_step hs h.1 h.2
  · intro t ht socket
    refine queue_of_run (fun s : UdpServer => s.queues socket) ?_ (sound_init n) hall ht
    exact fun s e t hs h ht => ⟨sound_step hs h.1 h.2 ht, queues_step hs h.2 ht socket⟩

def hashOfLocal (_ : String) : UInt64 := 16067264151966542095

def localPeer : Peer := ⟨"127.0.0.1",9000⟩

def readEvent : UdpEvent := .onRead 0 (fun _ => 0) true

theorem datagrams_consumed_one :
    let es := [.arrive 0 ⟨localPeer,[1,2]⟩,.arrive 0 ⟨localPeer,[3]⟩,readEvent]
    Along (ReadsHead hashOfLocal) (step hashOfLocal) (init 1) es ∧
      ∀ t, run (step hashOfLocal) (init 1) es = some t → t.queues 0 = [⟨localPeer,[3]⟩] := by
  intro es
  have hr : Along Respects (step hashOfLocal) (init 1) es := by
    have hshort : 2 ≤ g_max_udp_packet_length := by decide
    exact ⟨hshort, fun _ _ => ⟨Nat.le_of_succ_le hshort, fun _ _ => ⟨trivial, fun _ _ => trivial⟩⟩⟩
  have hready : Along (Readable hashOfLocal) (step hashOfLocal) (init 1) es := by
    refine ⟨trivial, ?_⟩
    rintro _ ⟨⟩
    refine ⟨trivial, ?_⟩
    rintro _ ⟨⟩
    refine ⟨?_, fun t _ => trivial⟩
    rintro d ⟨⟩
    refine ⟨by decide, by decide, ?_⟩
    rintro c ⟨⟩
  obtain ⟨hreads, hqueue⟩ := datagrams_consumed hashOfLocal 1 es hr hready
  exact ⟨hreads, fun t ht => hqueue t ht 0⟩

/-- The peek at an empty datagram returns 0, as if nothing were there. -/
theorem doRead_empty (junk : ℕ → Byte) (again : Bool) (hq : s.queues socket = d :: rest)
    (hempty : d.bytes = []) : s.doRead hash socket junk again = some s := by
  unfold doRead
  rw [hq]
  simp only [hempty, List.take_nil, List.length_nil, ↓reduceIte]

theorem step_empty (junk : ℕ → Byte) (again : Bool) (hq : s.queues socket = d :: rest)
    (hempty : d.bytes = []) : s.step hash (.onRead socket junk again) = some s := by
  rw [step, if_neg (by rw [hq]; exact List.cons_ne_nil _ _)]
  exact doRead_empty junk again hq hempty

theorem run_empty (junk : ℕ → Byte) (again : Bool) (hq : s.queues socket = d :: rest)
    (hempty : d.bytes = []) (m : ℕ) :
    run (step hash) s (List.replicate m (.onRead socket junk again)) = some s := by
  induction m with
  | zero => rfl
  | succ m ih =>
    rw [List.replicate_succ, run_cons, step_empty junk again hq hempty, Option.bind_some, ih]

theorem not_readsHead_of_empty (junk : ℕ → Byte) (again : Bool)
    (hq : s.queues socket = d :: rest) (hempty : d.bytes = []) :
    ¬ReadsHead hash s (.onRead socket junk again) := by
  intro h
  obtain ⟨t, ht, d', rest', hq', hqueues, -⟩ := h (by rw [hq]; exact List.cons_ne_nil _ _)
  obtain rfl := Option.some.inj ((step_empty junk again hq hempty).symm.trans ht)
  have hsame := congrFun hqueues socket
  rw [hq', Function.update_self] at hsame
  exact List.cons_ne_self _ _ hsame

/-- An empty datagram stays at the head of the queue through any number of read
events, with what has arrived after it. -/
theorem empty_datagram_blocks :
    ∃ s, run (step hashOfLocal) (init 1) [.arrive 0 ⟨localPeer,[]⟩,.arrive 0 ⟨localPeer,[1]⟩] =
        some s ∧ s.queues 0 = [⟨localPeer,[]⟩,⟨localPeer,[1]⟩] ∧
      ¬ReadsHead hashOfLocal s readEvent ∧
      ∀ m, run (step hashOfLocal) s (List.replicate m readEvent) = some s := by
  refine ⟨_, rfl, rfl, ?_, ?_⟩
  · exact not_readsHead_of_empty _ _ rfl rfl
  · exact run_empty _ _ rfl rfl

end UdpServer
end EchoFrame
