import EchoFrame.MachineInt
import EchoFrame.Verif.LittleEndian
import EchoFrame.Verif.Run

/-! Responses of handlers that still hold a channel, and the closes of the channel, in
any order. A pointer is `true` as long as it is not null. -/
namespace EchoFrame
open Verif

inductive ChannelClass
  | MyTcpChannel
  | MyUdpChannel
deriving DecidableEq, Repr

structure ClosableChannel where
  kind : ChannelClass
  socket : Bool
  readWatcher : Bool
  writeWatcher : Bool
  timeoutWatcher : Bool
  writeBuf : List Byte
deriving DecidableEq, Repr

namespace ClosableChannel

/-- What `createChannel` sets; a UDP channel has no read watcher of its own. -/
def create (kind : ChannelClass) : ClosableChannel where
  kind := kind
  socket := true
  readWatcher := kind = .MyTcpChannel
  writeWatcher := true
  timeoutWatcher := false
  writeBuf := []

/-- Every pointer that is not null is destroyed and set to null. A UDP channel keeps
its socket, which is its servant's. -/
def close (c : ClosableChannel) : ClosableChannel :=
  match c.kind with
  | .MyTcpChannel =>
    { c with socket := false, readWatcher := false, writeWatcher := false, timeoutWatcher := false }
  | .MyUdpChannel => { c with writeWatcher := false, timeoutWatcher := false }

def copied (c : ClosableChannel) (buf : List Byte) : List Byte :=
  match c.kind with
  | .MyTcpChannel => buf
  | .MyUdpChannel => leBytes 4 buf.length ++ buf

/-- `none` where the write watcher is signalled through a null pointer; `room` says
whether the buffer has found memory. -/
def sendResponse (c : ClosableChannel) (buf : List Byte) (room : Bool) :
    Option (ClosableChannel × ℕ) :=
  if room then
    if c.writeWatcher then some ({ c with writeBuf := c.writeBuf ++ c.copied buf },u32 buf.length)
    else none
  else some (c,u32 buf.length)

end ClosableChannel

/-- `MyContext::sendPayload` on what `lock` gives, and whether it takes the response for
sent: otherwise it logs a failure. -/
def MyContext.sendPayload (channel : Option ClosableChannel) (buf : List Byte) (room : Bool) :
    Option (Option ClosableChannel × Bool) :=
  match channel with
  | none => some (none,false)
  | some c => (c.sendResponse buf room).map fun (c,rv) => (some c,rv = u32 buf.length)

inductive CloseEvent
  | sendPayload (buf : List Byte) (room : Bool)
  | close
deriving DecidableEq, Repr

def CloseEvent.isResponse : CloseEvent → Bool
  | .sendPayload _ _ => true
  | .close => false

/-- A channel that is still held; `late` is what `sendPayload` said of the responses
submitted after a close. -/
structure HeldChannel where
  channel : Option ClosableChannel
  closed : Bool
  late : List Bool
deriving DecidableEq, Repr

namespace HeldChannel

def create (kind : ChannelClass) : HeldChannel := ⟨some (.create kind),false,[]⟩

def step (s : HeldChannel) : CloseEvent → Option HeldChannel
  | .sendPayload buf room =>
    (MyContext.sendPayload s.channel buf room).map fun (channel,sent) =>
      ⟨channel,s.closed,if s.closed then s.late ++ [sent] else s.late⟩
  | .close => some ⟨s.channel.map ClosableChannel.close,true,s.late⟩

/-- No response submitted after a close was taken for sent. -/
def Harmless (s : HeldChannel) : Prop := ∀ sent ∈ s.late, sent = false

structure Held (s : HeldChannel) (c : ClosableChannel) : Prop where
  channel : s.channel = some c
  watcher : c.writeWatcher = !s.closed

theorem sendResponse_open {c : ClosableChannel} (h : c.writeWatcher) (buf : List Byte)
    (room : Bool) : ∃ c', c.sendResponse buf room = some (c',u32 buf.length) ∧
      c'.writeWatcher := by
  cases room with
  | false => exact ⟨c, rfl, h⟩
  | true =>
    refine ⟨{ c with writeBuf := c.writeBuf ++ c.copied buf }, ?_, h⟩
    rw [ClosableChannel.sendResponse, if_pos rfl, if_pos h]

theorem writeWatcher_close (c : ClosableChannel) : c.close.writeWatcher = false := by
  unfold ClosableChannel.close
  split <;> rfl

/-- A response after a close goes through a null pointer or is taken for sent. -/
theorem step_sendPayload_closed {s t : HeldChannel} {c : ClosableChannel} (h : s.Held c)
    (hclosed : s.closed) {buf : List Byte} {room : Bool}
    (hstep : s.step (.sendPayload buf room) = some t) : t.late = s.late ++ [true] := by
  have hnull : c.writeWatcher = false := by rw [h.watcher, hclosed, Bool.not_true]
  cases room with
  | false =>
    simp [step, MyContext.sendPayload, h.channel, ClosableChannel.sendResponse, hclosed] at hstep
    rw [← hstep]
  | true =>
    simp [step, MyContext.sendPayload, h.channel, ClosableChannel.sendResponse, hnull] at hstep

theorem step_sendPayload_open {s : HeldChannel} {c : ClosableChannel} (h : s.Held c)
    (hopen : s.closed = false) (buf : List Byte) (room : Bool) :
    ∃ t c', s.step (.sendPayload buf room) = some t ∧ t.Held c' ∧ t.closed = false ∧
      t.late = s.late := by
  have hwatcher : c.writeWatcher := by rw [h.watcher, hopen, Bool.not_false]
  obtain ⟨c', hsend, hwatcher'⟩ := sendResponse_open hwatcher buf room
  refine ⟨⟨some c',s.closed,s.late⟩, c', ?_, ⟨rfl, ?_⟩, hopen, rfl⟩
  · simp [step, MyContext.sendPayload, h.channel, hsend, hopen]
  · rw [hwatcher', hopen, Bool.not_false]

theorem late_prefix_of_run {s t : HeldChannel} {events : List CloseEvent}
    (hrun : run step s events = some t) : s.late <+: t.late := by
  have hkept (s' : HeldChannel) (event : CloseEvent) (t' : HeldChannel)
      (h : s.late <+: s'.late) (hstep : s'.step event = some t') : s.late <+: t'.late := by
    cases event with
    | close =>
      cases hstep
      exact h
    | sendPayload buf room =>
      obtain ⟨⟨channel, sent⟩, _, rfl⟩ := Option.map_eq_some_iff.mp hstep
      dsimp only
      split
      · exact h.trans (List.prefix_append _ _)
      · exact h
  exact invariant_of_steps hkept List.prefix_rfl hrun

/-- After a close: harmless exactly when no more response comes. -/
theorem harmless_closed_iff {s : HeldChannel} {c : ClosableChannel} (h : s.Held c)
    (hclosed : s.closed) (hlate : s.Harmless) (events : List CloseEvent) :
    (∃ t, run step s events = some t ∧ t.Harmless) ↔
      ∀ event ∈ events, event.isResponse = false := by
  induction events generalizing s c with
  | nil => exact iff_of_true ⟨s, rfl, hlate⟩ (by simp)
  | cons event events ih =>
    rw [List.forall_mem_cons]
    cases event with
    | close =>
      have hheld : Held ⟨s.channel.map ClosableChannel.close,true,s.late⟩ c.close :=
        ⟨by rw [h.channel]; rfl, writeWatcher_close c⟩
      rw [run_cons, step, Option.bind_some, ih hheld rfl hlate]
      exact (and_iff_right rfl).symm
    | sendPayload buf room =>
      refine iff_of_false ?_ (by simp [CloseEvent.isResponse])
      rintro ⟨t, hrun, hharmless⟩
      obtain ⟨mid, hstep, hrun⟩ := run_cons_eq_some.mp hrun
      have hmid := step_sendPayload_closed h hclosed hstep
      have hmem : true ∈ t.late :=
        (late_prefix_of_run hrun).subset (by rw [hmid]; exact List.mem_append_right _ (by simp))
      exact absurd (hharmless true hmem) (by decide)

theorem harmless_open_iff {s : HeldChannel} {c : ClosableChannel} (h : s.Held c)
    (hopen : s.closed = false) (hlate : s.Harmless) (events : List CloseEvent) :
    (∃ t, run step s events = some t ∧ t.Harmless) ↔
      events.Pairwise fun e e' => e = .close → e'.isResponse = false := by
  induction events generalizing s c with
  | nil => exact iff_of_true ⟨s, rfl, hlate⟩ .nil
  | cons event events ih =>
    rw [List.pairwise_cons, run_cons]
    cases event with
    | close =>
      have hheld : Held ⟨s.channel.map ClosableChannel.close,true,s.late⟩ c.close :=
        ⟨by rw [h.channel]; rfl, writeWatcher_close c⟩
      rw [step, Option.bind_some, harmless_closed_iff hheld rfl hlate]
      simp only [forall_const]
      refine (and_iff_left_of_imp fun hnone => ?_).symm
      exact List.pairwise_of_forall_mem_list fun _ _ e' he' _ => hnone e' he'
    | sendPayload buf room =>
      obtain ⟨t, c', hstep, hheld, hopen', hsame⟩ := step_sendPayload_open h hopen buf room
      rw [hstep, Option.bind_some, ih hheld hopen' (by rw [Harmless, hsame]; exact hlate)]
      exact (and_iff_right fun e' _ he => nomatch he).symm

/-- On a TCP and on a UDP channel: the write watcher is never signalled through a null
pointer and every response submitted after a close is reported as not sent, exactly when
no response is submitted after a close. -/
theorem late_responses_harmless_iff (kind : ChannelClass) (events : List CloseEvent) :
    (∃ s, run step (create kind) events = some s ∧ ∀ sent ∈ s.late, sent = false) ↔
      events.Pairwise fun e e' => e = .close → e'.isResponse = false :=
  harmless_open_iff (c := .create kind) ⟨rfl, rfl⟩ rfl (by simp [Harmless, create]) events

/-- A response after the close of a TCP and of a UDP channel. -/
theorem late_response_null_watcher :
    run step (create .MyTcpChannel) [.close,.sendPayload [1] true] = none ∧
      run step (create .MyUdpChannel) [.close,.sendPayload [1] true] = none ∧
      ¬∀ kind events, ∃ s, run step (create kind) events = some s ∧
        ∀ sent ∈ s.late, sent = false := by
  refine ⟨rfl, rfl, fun h => ?_⟩
  obtain ⟨s, hrun, -⟩ := h .MyTcpChannel [.close,.sendPayload [1] true]
  cases hrun

end HeldChannel
end EchoFrame
