import EchoFrame.PoolLife
import EchoFrame.QueuedAnswers
import EchoFrame.ReadToEnd
import Mathlib.Data.List.Perm.Subperm

/-! A TCP servant at work. Its loops cut the packets out of what the channels read, the threads
of `handlerExecutor` answer them, and the loops write the answers, one step of any of them at a
time. -/
namespace EchoFrame
open Verif MyMagicMessage MyServant

variable {κ : Type} [DecidableEq κ]

/-- A job of `handlerExecutor`: a packet with the channel of its context, or a call of
`handleTimeout` or `handleClose`. -/
inductive HandlerJob (κ : Type)
  | handlePacket (channel : κ) (packet : List Byte)
  | notify

/-- A channel. Its loop is inside `handlePackets` while `handling` is true; `received` are the
chunks that it has read so far. -/
structure ServedChannel where
  reader : ReadChannel := .empty
  handling : Bool := false
  received : List (List Byte) := []
  writer : WriteChannel := .empty

namespace ServedChannel

/-- `sendPayload` of a context: once the channel was removed, its weak pointer is null. -/
def sendPayload (c : ServedChannel) (rsp : List Byte) : ServedChannel :=
  if c.writer.removed then c
  else { c with writer := { c.writer with writeBuf := c.writer.writeBuf ++ rsp } }

def remove (c : ServedChannel) : ServedChannel :=
  { c with writer := { c.writer with removed := true } }

end ServedChannel

def PoolLife.exec {α : Type} (pool : PoolLife α) (job : α) : PoolLife α :=
  { pool with job_queue_ := pool.job_queue_ ++ [job], executed := pool.executed ++ [job] }

theorem PoolLife.foldl_exec {α : Type} (jobs : List α) (pool : PoolLife α) :
    (jobs.foldl PoolLife.exec pool).executed = pool.executed ++ jobs ∧
      (jobs.foldl PoolLife.exec pool).ran = pool.ran ∧
      (jobs.foldl PoolLife.exec pool).dropped = pool.dropped := by
  induction jobs generalizing pool with
  | nil => exact ⟨(List.append_nil _).symm, rfl, rfl⟩
  | cons job jobs ih =>
    obtain ⟨hexecuted, hran, hdropped⟩ := ih (pool.exec job)
    refine ⟨?_, hran, hdropped⟩
    rw [List.foldl_cons, hexecuted]
    exact List.append_assoc pool.executed [job] jobs

def RunPoint.held {α : Type} : RunPoint α → List α
  | .running job => [job]
  | _ => []

def PoolLife.InOrder {α : Type} (pool : PoolLife α) : Prop :=
  ∃ thread, pool.workers_ = [thread] ∧
    pool.ran ++ thread.point.held ++ pool.job_queue_ = pool.executed

structure PooledServant (κ : Type) where
  channels : κ → ServedChannel := fun _ => {}
  handlerExecutor : PoolLife (HandlerJob κ)

namespace PooledServant

def initial (num : ℕ) : PooledServant κ where
  handlerExecutor := { workers_ := List.replicate num {} }

def setChannel (s : PooledServant κ) (k : κ) (c : ServedChannel) : PooledServant κ :=
  { s with channels := Function.update s.channels k c }

def exec (s : PooledServant κ) (job : HandlerJob κ) : PooledServant κ :=
  { s with handlerExecutor := s.handlerExecutor.exec job }

def handle (k : κ) (s : PooledServant κ) : ServantEvent → PooledServant κ
  | .handlePacket packet => s.exec (.handlePacket k packet)
  | .handleClose => s.exec .notify
  | .removeChannel => s.setChannel k (s.channels k).remove

/-- A job of a handler thread. If the answer asks for it, the loop will remove the channel. -/
def runJob (dispatchPayload : DispatchPayload) (s : PooledServant κ) :
    HandlerJob κ → Option (PooledServant κ)
  | .handlePacket k packet =>
    match MyDispatcher.handlePacket (MyMagicDispatcher.dispatchPacket dispatchPayload) packet
        true with
    | .ok answer =>
      some (s.setChannel k (answer.sent.foldl ServedChannel.sendPayload (s.channels k)))
    -- the future of the job keeps the exception
    | .error .skBufferOverflow => some s
    | .error _ => none
  | .notify => some s

/-- `remove` stands for every other end of a channel: a read error, the end of its stream, a
timeout, or a handler that asked for it. -/
inductive Event (κ : Type)
  | onRead (k : κ) (chunk : List Byte)
  | handlePackets (k : κ)
  | notify
  | work (i : ℕ) (notified : Bool)
  | onWrite (k : κ) (rooms : List ℕ)
  | remove (k : κ)

/-- An event of a loop, `handlePackets` being one iteration of its loop, or a step of a handler
thread. -/
def step (dispatchPayload : DispatchPayload) (s : PooledServant κ) :
    Event κ → Option (PooledServant κ)
  | .onRead k chunk =>
    let c := s.channels k
    if c.handling || c.writer.removed then none
    else some (s.setChannel k { c with
      reader := c.reader.receive chunk, handling := true, received := c.received ++ [chunk] })
  | .handlePackets k =>
    let c := s.channels k
    if c.handling then
      let (reader, again) := handlePacketsBody MyMagicCodec c.reader
      some ((reader.events.drop c.reader.events.length).foldl (handle k)
        (s.setChannel k { c with reader, handling := again }))
    else none
  | .notify => some (s.exec .notify)
  | .work i notified =>
    match s.handlerExecutor.step (.work i notified) with
    | none => none
    | some pool =>
      (pool.ran.drop s.handlerExecutor.ran.length).foldlM (runJob dispatchPayload)
        { s with handlerExecutor := pool }
  | .onWrite k rooms =>
    match (s.channels k).writer.step (.onWrite rooms) with
    | none => none
    | some writer => some (s.setChannel k { s.channels k with writer })
  | .remove k => some (s.setChannel k (s.channels k).remove)

end PooledServant

/-! What the jobs and the events say about one channel. -/

def HandlerJob.packetFor (k : κ) : HandlerJob κ → Option (List Byte)
  | .handlePacket channel packet => if channel = k then some packet else none
  | .notify => none

def packetsFor (k : κ) (jobs : List (HandlerJob κ)) : List (List Byte) :=
  jobs.filterMap (HandlerJob.packetFor k)

def answerTo (dispatchPayload : DispatchPayload) (packet : List Byte) : List Byte :=
  match MyDispatcher.handlePacket (MyMagicDispatcher.dispatchPacket dispatchPayload) packet true with
  | .ok answer => answer.sent.flatten
  | .error _ => []

theorem packetsFor_self (k : κ) (packet : List Byte) :
    packetsFor k [.handlePacket k packet] = [packet] :=
  List.filterMap_cons_some (if_pos rfl)

theorem packetsFor_of_ne {k k' : κ} (hne : k ≠ k') (packet : List Byte) :
    packetsFor k' [.handlePacket k packet] = [] :=
  List.filterMap_cons_none (if_neg hne)

theorem packetsFor_append (k : κ) (jobs more : List (HandlerJob κ)) :
    packetsFor k (jobs ++ more) = packetsFor k jobs ++ packetsFor k more :=
  List.filterMap_append

theorem MyServant.cutsClear_concat_iff {frames : List Frame} {k : ℕ} {chunks : List (List Byte)}
    {chunk : List Byte} : CutsClear frames k (chunks ++ [chunk]) ↔
      CutsClear frames k chunks ∧ CutClear frames (k+chunks.flatten.length+chunk.length) := by
  induction chunks generalizing k with
  | nil => exact ⟨fun h => ⟨trivial, h.1⟩, fun h => ⟨h.2, trivial⟩⟩
  | cons first chunks ih =>
    rw [List.flatten_cons, List.length_append, ← Nat.add_assoc, List.cons_append, CutsClear, ih,
      CutsClear, and_assoc]

namespace ServedChannel

variable {c d : ServedChannel} {frames : List Frame}

def packets (c : ServedChannel) : List (List Byte) := c.reader.events.filterMap ServantEvent.packet

/-- If the channel has read the beginning of a stream, in clear cuts, its reader is where that
leads, or `handlePackets` is on the way there. -/
def Follows (frames : List Frame) (c : ServedChannel) : Prop :=
  c.received.flatten <+: stream frames → CutsClear frames 0 c.received →
    let now := progress frames c.received.flatten.length
    if c.handling then HandlesPackets c.reader now else c.reader = now

/-- What one step does to a channel: which packets are handed over, and which bytes are sent. -/
structure Moves (c : ServedChannel) (handed : List (List Byte)) (sent : List Byte)
    (d : ServedChannel) : Prop where
  packets : d.packets = c.packets ++ handed
  sound : ∀ responses, WriteChannel.Sound responses c.writer →
    WriteChannel.Sound (responses ++ sent) d.writer
  follows : ∀ frames, c.Follows frames → d.Follows frames

theorem Moves.refl (c : ServedChannel) : c.Moves [] [] c where
  packets := (List.append_nil _).symm
  sound responses h := by rwa [List.append_nil]
  follows _ h := h

theorem Moves.trans {e : ServedChannel} {handed handed' : List (List Byte)} {sent sent' : List Byte}
    (h : c.Moves handed sent d) (h' : d.Moves handed' sent' e) :
    c.Moves (handed ++ handed') (sent ++ sent') e where
  packets := by rw [h'.packets, h.packets, List.append_assoc]
  sound responses hc := by
    rw [← List.append_assoc]
    exact h'.sound _ (h.sound responses hc)
  follows frames hc := h'.follows frames (h.follows frames hc)

/-- A channel that is removed sends nothing more. -/
theorem moves_remove (c : ServedChannel) : c.Moves [] [] c.remove where
  packets := (List.append_nil _).symm
  sound responses h := by
    rw [List.append_nil]
    exact ⟨h.accepted, fun hlives => absurd hlives Bool.noConfusion⟩
  follows _ h := h

theorem moves_sendPayload (c : ServedChannel) (rsp : List Byte) :
    c.Moves [] rsp (c.sendPayload rsp) := by
  unfold sendPayload
  cases hremoved : c.writer.removed with
  | true =>
    rw [if_pos rfl]
    refine ⟨(List.append_nil _).symm, fun responses h => ?_, fun _ h => h⟩
    constructor
    · exact h.accepted.trans (List.prefix_append _ _)
    · intro hlives
      rw [hremoved] at hlives
      cases hlives
  | false =>
    rw [if_neg Bool.false_ne_true]
    refine ⟨(List.append_nil _).symm, fun responses h => ?_, fun _ h => h⟩
    have hstep := WriteChannel.sound_step h (WriteChannel.step_sendResponse hremoved rsp)
    exact hstep

theorem moves_sent (c : ServedChannel) (sent : List (List Byte)) :
    c.Moves [] sent.flatten (sent.foldl sendPayload c) := by
  induction sent generalizing c with
  | nil => exact Moves.refl c
  | cons rsp sent ih => exact (moves_sendPayload c rsp).trans (ih _)

theorem moves_onWrite {rooms : List ℕ} {writer : WriteChannel}
    (h : c.writer.step (.onWrite rooms) = some writer) : c.Moves [] [] { c with writer } where
  packets := (List.append_nil _).symm
  sound _ hc := WriteChannel.sound_step hc h
  follows _ h := h

/-- The chunk takes the reader on to the next point of the stream, once `handlePackets` is done. -/
theorem moves_onRead (hidle : c.handling = false) (chunk : List Byte) : c.Moves [] [] { c with
    reader := c.reader.receive chunk, handling := true, received := c.received ++ [chunk] } where
  packets := (List.append_nil _).symm
  sound responses h := by rwa [List.append_nil]
  follows frames hfollows := by
    intro hpre hclear
    obtain ⟨hbefore, hlast⟩ := cutsClear_concat_iff.mp hclear
    obtain ⟨rest, hrest⟩ := hpre
    have hsplit : stream frames = c.received.flatten ++ (chunk ++ rest) := by
      rw [← hrest, List.flatten_append, List.flatten_singleton, List.append_assoc]
    have hreader := hfollows ⟨_, hsplit.symm⟩ hbefore
    rw [hidle] at hreader
    dsimp only at hreader ⊢
    rw [if_neg Bool.false_ne_true] at hreader
    have hk : c.received.flatten.length ≤ (stream frames).length := by
      rw [hsplit, List.length_append]
      exact Nat.le_add_right _ _
    have hcut : (stream frames).drop c.received.flatten.length = chunk ++ rest := by
      rw [hsplit, List.drop_left]
    rw [if_pos rfl, hreader, List.flatten_append, List.flatten_singleton, List.length_append]
    rw [Nat.zero_add] at hlast
    exact (handlesPackets_receive_iff hk hcut _).mpr ⟨hlast, rfl⟩

/-- An iteration of `handlePackets` stays on the way, and the last one arrives. -/
theorem follows_handlePackets (hhandling : c.handling) {reader : ReadChannel} {again : Bool}
    (h : handlePacketsBody MyMagicCodec c.reader = (reader, again)) (hfollows : c.Follows frames) :
    Follows frames { c with reader, handling := again } := by
  intro hpre hclear
  have hway := hfollows hpre hclear
  dsimp only at hway ⊢
  rw [if_pos hhandling] at hway
  cases again with
  | false => exact (Exits.stop h).unique hway
  | true => exact hway.of_again h

/-- An iteration hands one packet over, or removes the channel, or does nothing. -/
theorem events_handlePackets (r : ReadChannel) :
    ∃ events, (handlePacketsBody MyMagicCodec r).1.events = r.events ++ events ∧
      (events = [] ∨ (∃ packet, events = [.handlePacket packet]) ∨ events = [.removeChannel]) := by
  rcases handlePacketsBody_cases r with ⟨_, h⟩ | ⟨_, h⟩ | ⟨_, h⟩ | ⟨_, _, h⟩
  · exact ⟨[], by rw [h, List.append_nil], .inl rfl⟩
  · exact ⟨_, by rw [h]; rfl, .inr (.inr rfl)⟩
  · exact ⟨[], by rw [h, List.append_nil], .inl rfl⟩
  · exact ⟨_, by rw [h], .inr (.inl ⟨_, rfl⟩)⟩

theorem complete_isPrefix (frames : List Frame) (k : ℕ) : complete frames k <+: frames := by
  induction frames generalizing k with
  | nil => exact List.prefix_rfl
  | cons f fs ih =>
    by_cases hk : f.bytes.length ≤ k
    · rw [complete, if_pos hk]
      exact (List.prefix_append_right_inj [f]).mpr (ih _)
    · rw [complete, if_neg hk]
      exact List.nil_prefix

/-- `handlePackets` only adds to what was done. -/
theorem events_isPrefix {r r' : ReadChannel} (h : HandlesPackets r r') : r.events <+: r'.events := by
  have hbody {r r' : ReadChannel} {again : Bool}
      (hbody : handlePacketsBody MyMagicCodec r = (r', again)) : r.events <+: r'.events := by
    obtain ⟨events, hevents, -⟩ := events_handlePackets r
    rw [hbody] at hevents
    exact ⟨events, hevents.symm⟩
  induction h with
  | stop h => exact hbody h
  | again h _ ih => exact (hbody h).trans ih

/-- Of a stream in clear cuts the first frames were handed over, and all of them in the end. -/
theorem packets_of_follows (h : c.Follows frames) (hpre : c.received.flatten <+: stream frames)
    (hclear : CutsClear frames 0 c.received) :
    c.packets <+: frames.map Frame.bytes ∧
      (c.handling = false → c.received.flatten = stream frames →
        c.packets = frames.map Frame.bytes) := by
  have hnow (n : ℕ) : (progress frames n).events.filterMap ServantEvent.packet =
      (complete frames n).map Frame.bytes := by
    rw [progress, dispatches, List.filterMap_map]
    exact congrFun List.filterMap_eq_map' _
  have hway := h hpre hclear
  dsimp only at hway
  constructor
  · have hevents : c.reader.events <+: (progress frames c.received.flatten.length).events := by
      split at hway
      · exact events_isPrefix hway
      · rw [hway]
    have hpackets := hevents.filterMap ServantEvent.packet
    rw [hnow] at hpackets
    exact hpackets.trans ((complete_isPrefix frames _).map Frame.bytes)
  · intro hidle hall
    rw [hidle, if_neg Bool.false_ne_true, hall] at hway
    rw [packets, hway, hnow, (split_stream frames).1]

end ServedChannel

/-- Some of the images of a list, in any order, are the images of some of its elements. -/
theorem exists_of_subperm_map {α β : Type} {f : α → β} {as : List α} {bs : List β}
    (h : bs.Subperm (as.map f)) : ∃ order : List α, order.Subperm as ∧ bs = order.map f := by
  obtain ⟨_, hperm, hsub⟩ := h
  obtain ⟨part, hpart, rfl⟩ := List.sublist_map_iff.mp hsub
  have hpairs : List.Forall₂ (fun b a => b = f a) (part.map f) part := by
    rw [List.forall₂_map_left_iff]
    exact List.forall₂_same.mpr fun _ _ => rfl
  obtain ⟨order, horder, hsame⟩ := List.perm_comp_forall₂ hperm.symm hpairs
  refine ⟨order, ⟨part, hsame.symm, hpart⟩, ?_⟩
  rw [← List.forall₂_map_right_iff, List.forall₂_eq_eq_eq] at horder
  exact horder

namespace PooledServant

variable {dispatchPayload : DispatchPayload} {s t u : PooledServant κ}

theorem channels_setChannel (s : PooledServant κ) (k k' : κ) (c : ServedChannel) :
    (s.setChannel k c).channels k' = if k' = k then c else s.channels k' :=
  Function.update_apply _ _ _ _

/-- What a step hands over and sends, on every channel. -/
def Moves (dispatchPayload : DispatchPayload) (s : PooledServant κ)
    (handed ran : List (HandlerJob κ)) (t : PooledServant κ) : Prop :=
  ∀ k, (s.channels k).Moves (packetsFor k handed)
    ((packetsFor k ran).map (answerTo dispatchPayload)).flatten (t.channels k)

theorem moves_of_channels (h : t.channels = s.channels) : s.Moves dispatchPayload [] [] t := by
  intro k
  rw [h]
  exact ServedChannel.Moves.refl _

theorem Moves.trans {handed handed' ran ran' : List (HandlerJob κ)}
    (h : s.Moves dispatchPayload handed ran t) (h' : t.Moves dispatchPayload handed' ran' u) :
    s.Moves dispatchPayload (handed ++ handed') (ran ++ ran') u := by
  intro k
  rw [packetsFor_append, packetsFor_append, List.map_append, List.flatten_append]
  exact (h k).trans (h' k)

/-- A step of one channel, for the jobs of this channel. -/
theorem moves_setChannel {k : κ} {c : ServedChannel} {handed ran : List (HandlerJob κ)}
    (hk : (s.channels k).Moves (packetsFor k handed)
      ((packetsFor k ran).map (answerTo dispatchPayload)).flatten c)
    (hothers : ∀ k', k' ≠ k → packetsFor k' handed = [] ∧ packetsFor k' ran = []) :
    s.Moves dispatchPayload handed ran (s.setChannel k c) := by
  intro k'
  rw [channels_setChannel]
  by_cases heq : k' = k
  · rw [if_pos heq, heq]
    exact hk
  · rw [if_neg heq, (hothers k' heq).1, (hothers k' heq).2]
    exact ServedChannel.Moves.refl _

theorem moves_runJob {job : HandlerJob κ} (h : s.runJob dispatchPayload job = some t) :
    t.handlerExecutor = s.handlerExecutor ∧ s.Moves dispatchPayload [] [job] t := by
  cases job with
  | notify =>
    cases h
    exact ⟨rfl, fun k => ServedChannel.Moves.refl _⟩
  | handlePacket k packet =>
    have hothers (k' : κ) (hne : k' ≠ k) : packetsFor k' ([] : List (HandlerJob κ)) = [] ∧
        packetsFor k' [.handlePacket k packet] = [] := ⟨rfl, packetsFor_of_ne hne.symm packet⟩
    have hanswer : ((packetsFor k [.handlePacket k packet]).map
        (answerTo dispatchPayload)).flatten = answerTo dispatchPayload packet := by
      rw [packetsFor_self, List.map_singleton, List.flatten_singleton]
    rw [runJob] at h
    split at h
    · next answer hok =>
      cases h
      refine ⟨rfl, moves_setChannel ?_ hothers⟩
      rw [hanswer, answerTo, hok]
      exact ServedChannel.moves_sent _ _
    · next herror =>
      cases h
      refine ⟨rfl, fun k' => ?_⟩
      have hnone : ((packetsFor k' [.handlePacket k packet]).map
          (answerTo dispatchPayload)).flatten = [] := by
        by_cases hk : k' = k
        · rw [hk, hanswer, answerTo, herror]
        · rw [(hothers k' hk).2]
          rfl
      rw [hnone]
      exact ServedChannel.Moves.refl _
    · cases h

theorem moves_runJobs {jobs : List (HandlerJob κ)}
    (h : jobs.foldlM (runJob dispatchPayload) s = some t) :
    t.handlerExecutor = s.handlerExecutor ∧ s.Moves dispatchPayload [] jobs t := by
  induction jobs generalizing s with
  | nil =>
    cases h
    exact ⟨rfl, moves_of_channels rfl⟩
  | cons job jobs ih =>
    obtain ⟨mid, hjob, hjobs⟩ := run_cons_eq_some.mp h
    obtain ⟨hpool, hmoves⟩ := moves_runJob hjob
    obtain ⟨hpool', hmoves'⟩ := ih hjobs
    exact ⟨hpool'.trans hpool, hmoves.trans hmoves'⟩

theorem moves_handlePackets (dispatchPayload : DispatchPayload) {k : κ}
    (hhandling : (s.channels k).handling) {reader : ReadChannel} {again : Bool}
    (hbody : handlePacketsBody MyMagicCodec (s.channels k).reader = (reader, again)) :
    ∃ handed, s.Moves dispatchPayload handed []
        ((reader.events.drop (s.channels k).reader.events.length).foldl (handle k)
          (s.setChannel k { s.channels k with reader, handling := again })) ∧
      ((reader.events.drop (s.channels k).reader.events.length).foldl (handle k)
          (s.setChannel k { s.channels k with reader, handling := again })).handlerExecutor =
        handed.foldl PoolLife.exec s.handlerExecutor := by
  obtain ⟨events, hevents, hcases⟩ := ServedChannel.events_handlePackets (s.channels k).reader
  rw [hbody] at hevents
  have hfollows (frames : List Frame) (h : (s.channels k).Follows frames) :=
    ServedChannel.follows_handlePackets hhandling hbody h
  have hpackets : ServedChannel.packets { s.channels k with reader, handling := again } =
      (s.channels k).packets ++ events.filterMap ServantEvent.packet := by
    rw [ServedChannel.packets, hevents, List.filterMap_append]
    rfl
  have hsame (responses : List Byte)
      (h : WriteChannel.Sound responses (s.channels k).writer) :
      WriteChannel.Sound (responses ++ []) (s.channels k).writer := by rwa [List.append_nil]
  rw [hevents, List.drop_left]
  rcases hcases with rfl | ⟨packet, rfl⟩ | rfl
  · refine ⟨[], moves_setChannel ⟨hpackets, hsame, hfollows⟩ fun _ _ => ⟨rfl, rfl⟩, rfl⟩
  · refine ⟨[.handlePacket k packet], ?_, rfl⟩
    refine moves_setChannel ⟨?_, hsame, hfollows⟩ fun k' hne =>
      ⟨packetsFor_of_ne hne.symm packet, rfl⟩
    rw [hpackets, packetsFor_self]
    rfl
  · refine ⟨[], ?_, rfl⟩
    have hstopped : s.Moves dispatchPayload [] []
        (s.setChannel k { s.channels k with reader, handling := again }) :=
      moves_setChannel ⟨hpackets, hsame, hfollows⟩ fun _ _ => ⟨rfl, rfl⟩
    exact hstopped.trans (moves_setChannel (ServedChannel.moves_remove _) fun _ _ => ⟨rfl, rfl⟩)

/-- What a step does: the loops hand packets over, or a handler thread makes a step and sends the
answers to the jobs that it has run. -/
theorem step_spec {event : Event κ} (h : s.step dispatchPayload event = some t) :
    ∃ handed ran, s.Moves dispatchPayload handed ran t ∧
      (ran = [] ∧ t.handlerExecutor = handed.foldl PoolLife.exec s.handlerExecutor ∨
        handed = [] ∧ t.handlerExecutor.ran = s.handlerExecutor.ran ++ ran ∧
          ∃ i notified, s.handlerExecutor.step (.work i notified) = some t.handlerExecutor) := by
  cases event with
  | onRead k chunk =>
    obtain ⟨hidle, hset⟩ := Option.ite_none_left_eq_some.mp h
    cases hset
    rw [Bool.or_eq_true, not_or, Bool.not_eq_true] at hidle
    refine ⟨[], [], ?_, .inl ⟨rfl, rfl⟩⟩
    exact moves_setChannel (ServedChannel.moves_onRead hidle.1 chunk) fun _ _ => ⟨rfl, rfl⟩
  | handlePackets k =>
    obtain ⟨hhandling, hset⟩ := Option.ite_none_right_eq_some.mp h
    cases hset
    obtain ⟨handed, hmoves, hpool⟩ := moves_handlePackets dispatchPayload hhandling rfl
    exact ⟨handed, [], hmoves, .inl ⟨rfl, hpool⟩⟩
  | notify =>
    cases h
    refine ⟨[.notify], [], ?_, .inl ⟨rfl, rfl⟩⟩
    exact fun k => ServedChannel.Moves.refl _
  | work i notified =>
    simp only [step] at h
    split at h
    · cases h
    · next pool hpool =>
      obtain ⟨thread, thread', queue, ran, hthread, hrun, rfl⟩ := PoolLife.step_work hpool
      rw [List.drop_left] at h
      obtain ⟨hsame, hmoves⟩ := moves_runJobs h
      refine ⟨[], ran, hmoves, .inr ⟨rfl, ?_, i, notified, ?_⟩⟩
      · rw [hsame]
      · rw [hsame]
        exact hpool
  | onWrite k rooms =>
    simp only [step] at h
    split at h
    · cases h
    · next writer hwriter =>
      cases h
      refine ⟨[], [], ?_, .inl ⟨rfl, rfl⟩⟩
      exact moves_setChannel (ServedChannel.moves_onWrite hwriter) fun _ _ => ⟨rfl, rfl⟩
  | remove k =>
    cases h
    refine ⟨[], [], ?_, .inl ⟨rfl, rfl⟩⟩
    exact moves_setChannel (ServedChannel.moves_remove _) fun _ _ => ⟨rfl, rfl⟩

/-- A property of the pool that each step of it keeps. -/
theorem pool_step {I : PoolLife (HandlerJob κ) → Prop} {event : Event κ}
    (hexec : ∀ pool job, I pool → I (pool.exec job))
    (hwork : ∀ pool pool' i notified, I pool → pool.step (.work i notified) = some pool' → I pool')
    (h : I s.handlerExecutor) (hstep : s.step dispatchPayload event = some t) :
    I t.handlerExecutor := by
  obtain ⟨handed, ran, -, ⟨-, hpool⟩ | ⟨-, -, i, notified, hpool⟩⟩ := step_spec hstep
  · rw [hpool]
    exact List.foldlRecOn handed PoolLife.exec h fun pool hI job _ => hexec pool job hI
  · exact hwork _ _ i notified h hpool

/-- Every packet of a channel was handed over once; what the jobs send, and nothing else, is on
its way; and the readers follow their streams. -/
structure Inv (dispatchPayload : DispatchPayload) (s : PooledServant κ) : Prop where
  accounted : s.handlerExecutor.Accounted
  dropped : s.handlerExecutor.dropped = []
  packets : ∀ k, (s.channels k).packets = packetsFor k s.handlerExecutor.executed
  sound : ∀ k, WriteChannel.Sound
    ((packetsFor k s.handlerExecutor.ran).map (answerTo dispatchPayload)).flatten
    (s.channels k).writer
  follows : ∀ k frames, (s.channels k).Follows frames

theorem inv_initial (dispatchPayload : DispatchPayload) (num : ℕ) :
    (initial num : PooledServant κ).Inv dispatchPayload where
  accounted := by
    refine ⟨[], rfl, ?_⟩
    rw [initial, PoolLife.running_replicate]
    rfl
  dropped := rfl
  packets _ := rfl
  sound _ := ⟨List.prefix_rfl, fun _ => rfl⟩
  follows _ frames := by
    intro _ _
    exact (progress_zero frames).symm

theorem inv_step {event : Event κ} (h : s.Inv dispatchPayload)
    (hstep : s.step dispatchPayload event = some t) : t.Inv dispatchPayload := by
  have haccounted : t.handlerExecutor.Accounted := by
    apply pool_step ?_ ?_ h.accounted hstep
    · intro pool job hI
      have hexec : pool.step (.exec job) = some (pool.exec job) := rfl
      exact PoolLife.accounted_step hI hexec
    · exact fun _ _ _ _ hI hwork => PoolLife.accounted_step hI hwork
  obtain ⟨handed, ran, hmoves, hpool⟩ := step_spec hstep
  have hchanged : t.handlerExecutor.executed = s.handlerExecutor.executed ++ handed ∧
      t.handlerExecutor.ran = s.handlerExecutor.ran ++ ran ∧
      t.handlerExecutor.dropped = s.handlerExecutor.dropped := by
    rcases hpool with ⟨rfl, hpool⟩ | ⟨rfl, hran, i, notified, hpool⟩
    · rw [hpool, List.append_nil]
      exact PoolLife.foldl_exec handed s.handlerExecutor
    · obtain ⟨_, _, _, _, _, _, heq⟩ := PoolLife.step_work hpool
      refine ⟨?_, hran, ?_⟩
      · rw [heq, List.append_nil]
      · rw [heq]
  obtain ⟨hexecuted, hran, hdropped⟩ := hchanged
  refine ⟨haccounted, hdropped.trans h.dropped, ?_, ?_, ?_⟩
  · intro k
    rw [(hmoves k).packets, h.packets, hexecuted, packetsFor_append]
  · intro k
    rw [hran, packetsFor_append, List.map_append, List.flatten_append]
    exact (hmoves k).sound _ (h.sound k)
  · intro k frames
    exact (hmoves k).follows frames (h.follows k frames)

theorem inv_run {num : ℕ} {events : List (Event κ)}
    (hrun : run (step dispatchPayload) (initial num) events = some s) : s.Inv dispatchPayload :=
  invariant_of_steps (fun _ _ _ h hstep => inv_step h hstep) (inv_initial dispatchPayload num) hrun

/-- The loop has handled what the channel has read, and the handler threads have no job left. -/
structure Settled (s : PooledServant κ) (k : κ) : Prop where
  handled : (s.channels k).handling = false
  queue : s.handlerExecutor.job_queue_ = []
  workers : ∀ thread ∈ s.handlerExecutor.workers_, thread.point.job = 0

/-- The jobs that were run are some of the jobs that were put in, and in the end all of them. -/
theorem ran_subperm (h : s.Inv dispatchPayload) :
    s.handlerExecutor.ran.Subperm s.handlerExecutor.executed ∧
      (s.handlerExecutor.job_queue_ = [] →
        (∀ thread ∈ s.handlerExecutor.workers_, thread.point.job = 0) →
        s.handlerExecutor.ran.Perm s.handlerExecutor.executed) := by
  obtain ⟨taken, hexecuted, htaken⟩ := h.accounted
  rw [h.dropped, Multiset.coe_nil, add_zero] at htaken
  constructor
  · have hran : s.handlerExecutor.ran.Subperm taken := by
      rw [← Multiset.coe_le, htaken]
      exact Multiset.le_add_right _ _
    rw [← hexecuted]
    exact hran.trans (List.sublist_append_left _ _).subperm
  · intro hqueue hworkers
    rw [PoolLife.running_eq_zero hworkers, add_zero] at htaken
    rw [hqueue, List.append_nil] at hexecuted
    rw [← hexecuted]
    exact (Multiset.coe_eq_coe.mp htaken).symm

open SentCall in
/-- Of the calls that a channel reads some have been run, each once, and all in the end. -/
theorem ran_calls (h : s.Inv dispatchPayload) (k : κ) {calls : List SentCall}
    (hreceived : (s.channels k).received.flatten <+: stream (calls.map frame))
    (hclear : CutsClear (calls.map frame) 0 (s.channels k).received) :
    ∃ order : List SentCall, order.Subperm calls ∧
      packetsFor k s.handlerExecutor.ran = order.map (fun call => call.frame.bytes) ∧
      (s.Settled k → (s.channels k).received.flatten = stream (calls.map frame) →
        order.Perm calls) := by
  obtain ⟨hpackets, hall⟩ :=
    ServedChannel.packets_of_follows (h.follows k _) hreceived hclear
  rw [List.map_map, h.packets] at hpackets hall
  obtain ⟨hran, hdone⟩ := ran_subperm h
  have hsome : (packetsFor k s.handlerExecutor.ran).Subperm
      (packetsFor k s.handlerExecutor.executed) := by
    rw [← Multiset.coe_le, packetsFor, packetsFor, ← Multiset.filterMap_coe,
      ← Multiset.filterMap_coe]
    exact Multiset.filterMap_le_filterMap _ (Multiset.coe_le.mpr hran)
  obtain ⟨order, horder, hbytes⟩ :=
    exists_of_subperm_map (hsome.trans hpackets.sublist.subperm)
  refine ⟨order, horder, hbytes, fun hsettled hcame => ?_⟩
  apply horder.perm_of_length_le
  have hperm : (packetsFor k s.handlerExecutor.ran).Perm
      (packetsFor k s.handlerExecutor.executed) :=
    (hdone hsettled.queue hsettled.workers).filterMap _
  have hlength := hperm.length_eq
  rw [hbytes, hall hsettled.handled hcame, List.length_map, List.length_map] at hlength
  exact hlength.ge

open SentCall in
theorem answers_served {serve : List Byte → Option (List Byte)} {order : List SentCall}
    (hserved : ∀ call ∈ order, call.Served dispatchPayload serve) :
    ((order.map fun call => call.frame.bytes).map (answerTo dispatchPayload)).flatten =
      responses serve order := by
  rw [responses, List.map_map]
  congr 1
  apply List.map_congr_left
  intro call hcall
  rw [Function.comp_apply, answerTo, handlePacket_frame (hserved call hcall)]
  exact List.flatten_singleton

open SentCall in
/-- Calls of one connection of a servant with any number of connections and handler threads, in
any run: whatever of the answers has reached the client, and in whatever pieces, it has ended the
sessions of some of the calls, each once and with the answer to its own payload, and no other
session; and in the end those of all calls. -/
theorem calls_answered {num : ℕ} {events : List (Event κ)}
    (hrun : run (step dispatchPayload) (initial num) events = some s) (k : κ)
    {serve : List Byte → Option (List Byte)} {calls : List SentCall}
    (hserved : ∀ call ∈ calls, call.Served dispatchPayload serve)
    (hreceived : (s.channels k).received.flatten <+: stream (calls.map frame))
    (hclear : CutsClear (calls.map frame) 0 (s.channels k).received)
    {uid : UInt32} {p : ProxyState} (hconn : MyProxy.bufferOf uid p = some [])
    (hpending : ∀ call ∈ calls,
      p.loops.pending call.session.client call.session.requestId = some call.session)
    (hdistinct : (calls.map fun call => call.session.requestId).Nodup)
    {arrivals : List (List (List Byte))}
    (harrivals : arrivals.flatten.flatten <+: (s.channels k).writer.accepted) :
    (∃ made t, MyProxy.Reads MyMagicCodec uid p (arrivals.map .arrival) made t) ∧
    ∀ made t, MyProxy.Reads MyMagicCodec uid p (arrivals.map .arrival) made t →
      ∃ answered : List SentCall, answered.Subperm calls ∧
        t.tasks = p.tasks ++ answered.map (task serve) ∧
        (∀ call ∈ answered,
          t.loops.pending call.session.client call.session.requestId = none) ∧
        (∀ uid requestId, (∀ call ∈ answered, call.session.requestId ≠ requestId) →
          t.loops.pending uid requestId = p.loops.pending uid requestId) ∧
        (s.Settled k → (s.channels k).received.flatten = stream (calls.map frame) →
          (s.channels k).writer.removed = false → (s.channels k).writer.writeBuf = [] →
          arrivals.flatten.flatten = (s.channels k).writer.accepted → answered.Perm calls) := by
  refine ⟨MyProxy.reads_return _ _ _ _, ?_⟩
  intro made t hreads
  have hinv := inv_run hrun
  obtain ⟨order, horder, hbytes, hall⟩ := ran_calls hinv k hreceived hclear
  have hmem {call : SentCall} (hcall : call ∈ order) : call ∈ calls := horder.subset hcall
  have hserved' : ∀ call ∈ order, call.Served dispatchPayload serve := fun call hcall =>
    hserved call (hmem hcall)
  have hsound := hinv.sound k
  rw [hbytes, answers_served hserved'] at hsound
  have hdistinct' : (order.map fun call => call.session.requestId).Nodup := by
    obtain ⟨part, hperm, hpart⟩ := horder
    exact (hperm.map _).nodup_iff.mp (hdistinct.sublist (hpart.map _))
  obtain ⟨n, hn, htasks, hended, hkept, hdone⟩ := ended_of_prefix hserved' hconn
    (fun call hcall => hpending call (hmem hcall)) hdistinct'
    (harrivals.trans hsound.accepted) hreads
  refine ⟨order.take n, (List.take_sublist n order).subperm.trans horder, htasks, hended, hkept, ?_⟩
  intro hsettled hcame hlives hempty harrived
  have haccepted := hsound.waits hlives
  rw [hempty, List.append_nil] at haccepted
  rw [hdone (harrived.trans haccepted), List.take_length]
  exact hall hsettled hcame

/-- Two requests on the channel 3, cut in the header of the first. The second one overtakes the
first in another handler thread, and the socket takes four bytes of the last answer. -/
def overtaking : List (Event ℕ) :=
  let requests := stream (twoCalls.map SentCall.frame)
  [.onRead 3 (requests.take 9), .handlePackets 3, .onRead 3 (requests.drop 9), .handlePackets 3,
    .work 0 false, .work 0 false, .handlePackets 3, .handlePackets 3, .work 1 false,
    .work 1 false, .work 1 false, .work 0 false, .onWrite 3 [26, 0]]

theorem calls_answered_two : ∃ s, run (step echo) (initial 2) overtaking = some s ∧
    ∃ made t, MyProxy.Reads MyMagicCodec 0x70001 twoSessions
        [.arrival [(s.channels 3).writer.accepted]] made t ∧
      ∃ answered : List SentCall, answered.Subperm twoCalls ∧
        t.tasks = answered.map (SentCall.task some) := by
  obtain ⟨s, hrun⟩ : ∃ s, run (step echo) (initial 2) overtaking = some s :=
    Option.isSome_iff_exists.mp (by decide +kernel)
  have hreceived : (run (step echo) (initial 2) overtaking).map (fun s => (s.channels 3).received) =
      some [(stream (twoCalls.map SentCall.frame)).take 9,
        (stream (twoCalls.map SentCall.frame)).drop 9] := by decide +kernel
  rw [hrun, Option.map_some, Option.some.injEq] at hreceived
  have hpre : (s.channels 3).received.flatten <+: stream (twoCalls.map SentCall.frame) := by
    rw [hreceived]
    decide
  have hclear : CutsClear (twoCalls.map SentCall.frame) 0 (s.channels 3).received := by
    rw [hreceived]
    decide
  have harrivals : [[(s.channels 3).writer.accepted]].flatten.flatten <+:
      (s.channels 3).writer.accepted := by
    rw [List.flatten_singleton, List.flatten_singleton]
  obtain ⟨⟨made, t, hreads⟩, hall⟩ := calls_answered hrun 3 (fun call _ => served_echo call)
    hpre hclear bufferOf_twoSessions pending_twoCalls (by decide) harrivals
  obtain ⟨answered, hsome, htasks, -⟩ := hall made t hreads
  exact ⟨s, hrun, made, t, hreads, answered, hsome, htasks⟩

/-- A step of a worker passes the jobs on in their order. -/
theorem held_of_run {α : Type} {thread thread' : MyThread α} {queue queue' ran : List α}
    {notified : Bool} (h : thread.run queue notified = some (thread', queue', ran)) :
    thread.point.held ++ queue = ran ++ thread'.point.held ++ queue' := by
  have hpop {empty point : RunPoint α} (hempty : empty.held = [])
      (heq : popJob queue empty = (point, queue')) : queue = point.held ++ queue' := by
    cases queue with
    | nil =>
      cases heq
      rw [hempty]
      rfl
    | cons job queue =>
      cases heq
      rfl
  have hflag (flag : Bool) {point other : RunPoint α} (hpoint : point.held = [])
      (hother : other.held = []) : (if flag then point else other).held = [] := by
    cases flag with
    | true => exact hpoint
    | false => exact hother
  rcases thread with ⟨exit_, exit_after_done_, point⟩
  cases point with
  | getJob =>
    cases h
    exact hpop rfl rfl
  | waiting =>
    cases notified with
    | true =>
      cases h
      exact hpop rfl rfl
    | false =>
      cases h
      rfl
  | left => cases h
  | running job =>
    cases h
    rfl
  | _ =>
    cases h
    exact congrArg (· ++ queue) (hflag _ rfl rfl).symm

theorem inOrder_work {α : Type} {pool pool' : PoolLife α} {i : ℕ} {notified : Bool}
    (h : pool.InOrder) (hstep : pool.step (.work i notified) = some pool') : pool'.InOrder := by
  obtain ⟨thread, hworkers, horder⟩ := h
  obtain ⟨thread', after, queue, ran, hthread, hrun, rfl⟩ := PoolLife.step_work hstep
  rw [hworkers, List.getElem?_singleton] at hthread
  obtain ⟨rfl, hthread⟩ := Option.ite_none_right_eq_some.mp hthread
  obtain rfl := Option.some.inj hthread
  refine ⟨after, by rw [hworkers]; rfl, ?_⟩
  have hheld := held_of_run hrun
  dsimp only
  calc pool.ran ++ ran ++ after.point.held ++ queue
    _ = pool.ran ++ (ran ++ after.point.held ++ queue) := by simp only [List.append_assoc]
    _ = pool.ran ++ thread.point.held ++ pool.job_queue_ := by rw [← hheld, List.append_assoc]
    _ = pool.executed := horder

/-- With one handler thread the jobs are run in the order in which they came. -/
theorem ran_isPrefix {events : List (Event κ)}
    (hrun : run (step dispatchPayload) (initial 1) events = some s) :
    s.handlerExecutor.ran <+: s.handlerExecutor.executed := by
  have horder : s.handlerExecutor.InOrder := by
    refine invariant_of_steps (I := fun s => s.handlerExecutor.InOrder) ?_ ?_ hrun
    · intro s event t h hstep
      apply pool_step ?_ ?_ h hstep
      · rintro pool job ⟨thread, hworkers, horder⟩
        refine ⟨thread, hworkers, ?_⟩
        rw [PoolLife.exec, ← List.append_assoc, horder]
      · exact fun _ _ _ _ hI hwork => inOrder_work hI hwork
    · exact ⟨{}, rfl, rfl⟩
  obtain ⟨thread, -, horder⟩ := horder
  exact ⟨_, by rw [← horder, List.append_assoc]⟩

open SentCall in
/-- With one handler thread the answers on every connection come in the order of its requests,
whatever the other connections do: the client has the answers to the first few. -/
theorem answers_in_order {events : List (Event κ)}
    (hrun : run (step dispatchPayload) (initial 1) events = some s) (k : κ)
    {serve : List Byte → Option (List Byte)} {calls : List SentCall}
    (hserved : ∀ call ∈ calls, call.Served dispatchPayload serve)
    (hreceived : (s.channels k).received.flatten <+: stream (calls.map frame))
    (hclear : CutsClear (calls.map frame) 0 (s.channels k).received)
    {uid : UInt32} {p : ProxyState} (hconn : MyProxy.bufferOf uid p = some [])
    (hpending : ∀ call ∈ calls,
      p.loops.pending call.session.client call.session.requestId = some call.session)
    (hdistinct : (calls.map fun call => call.session.requestId).Nodup)
    {arrivals : List (List (List Byte))}
    (harrivals : arrivals.flatten.flatten <+: (s.channels k).writer.accepted) :
    (s.channels k).writer.accepted <+: responses serve calls ∧
    ∀ made t, MyProxy.Reads MyMagicCodec uid p (arrivals.map .arrival) made t →
      ∃ n ≤ calls.length, t.tasks = p.tasks ++ (calls.take n).map (task serve) := by
  have hinv := inv_run hrun
  obtain ⟨hpackets, -⟩ :=
    ServedChannel.packets_of_follows (hinv.follows k _) hreceived hclear
  rw [List.map_map, hinv.packets] at hpackets
  have hran := ((ran_isPrefix hrun).filterMap (HandlerJob.packetFor k)).trans hpackets
  obtain ⟨m, hm⟩ : ∃ m, packetsFor k s.handlerExecutor.ran =
      (calls.take m).map fun call => call.frame.bytes := by
    have hfirst := List.prefix_iff_eq_take.mp hran
    rw [← List.map_take] at hfirst
    exact ⟨_, hfirst⟩
  have hserved' : ∀ call ∈ calls.take m, call.Served dispatchPayload serve :=
    fun call hcall => hserved call (List.mem_of_mem_take hcall)
  have hsound := hinv.sound k
  rw [hm, answers_served hserved'] at hsound
  have haccepted := hsound.accepted.trans (responses_take_isPrefix serve calls m)
  refine ⟨haccepted, fun made t hreads => ?_⟩
  obtain ⟨n, hn, htasks, -⟩ := ended_of_prefix hserved hconn hpending hdistinct
    (harrivals.trans haccepted) hreads
  exact ⟨n, hn, htasks⟩


def consecutive : List (Event ℕ) :=
  let requests := stream (twoCalls.map SentCall.frame)
  [.onRead 3 requests, .handlePackets 3, .handlePackets 3, .notify, .handlePackets 3] ++
    List.replicate 9 (.work 0 true) ++ [.onWrite 3 [40, 40]]

theorem answers_in_order_two : ∃ s, run (step echo) (initial 1) consecutive = some s ∧
    (s.channels 3).writer.accepted <+: SentCall.responses some twoCalls ∧
    (s.channels 3).writer.accepted.length = 42 := by
  obtain ⟨s, hrun⟩ : ∃ s, run (step echo) (initial 1) consecutive = some s :=
    Option.isSome_iff_exists.mp (by decide +kernel)
  have hchannel : (run (step echo) (initial 1) consecutive).map
      (fun s => ((s.channels 3).received, (s.channels 3).writer.accepted.length)) =
      some ([stream (twoCalls.map SentCall.frame)], 42) := by decide +kernel
  rw [hrun, Option.map_some, Option.some.injEq, Prod.mk.injEq] at hchannel
  obtain ⟨hreceived, hlength⟩ := hchannel
  have hpre : (s.channels 3).received.flatten <+: stream (twoCalls.map SentCall.frame) := by
    rw [hreceived, List.flatten_singleton]
  have hclear : CutsClear (twoCalls.map SentCall.frame) 0 (s.channels 3).received := by
    rw [hreceived]
    decide
  have hnone : ([] : List (List (List Byte))).flatten.flatten <+:
      (s.channels 3).writer.accepted := List.nil_prefix
  have hinOrder := answers_in_order hrun 3 (fun call _ => served_echo call) hpre hclear
    bufferOf_twoSessions pending_twoCalls (by decide) hnone
  exact ⟨s, hrun, hinOrder.1, hlength⟩

end PooledServant
end EchoFrame
