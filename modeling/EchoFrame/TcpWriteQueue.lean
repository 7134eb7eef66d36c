import EchoFrame.MachineInt
import EchoFrame.Verif.Run

/-! The responses of a TCP channel on their way to the socket. The write buffer
is the queue of bytes that the writers of the channel left there. -/
namespace EchoFrame
open Verif

/-- A channel as its writers see it, with what its socket has accepted. -/
structure WriteChannel where
  writeBuf : List Byte
  accepted : List Byte
  removed : Bool
deriving DecidableEq, Repr

/-- A response, or a write event with the room that the kernel has at each
successive `write`. It refuses a write when it has none, and after the last. -/
inductive WriteEvent
  | sendResponse (buf : List Byte)
  | onWrite (rooms : List ℕ)
deriving DecidableEq, Repr

def WriteEvent.response : WriteEvent → List Byte
  | sendResponse buf => buf
  | onWrite _ => []

def socketWrite (room length : ℕ) : ℤ := if room = 0 then -1 else min room length

namespace WriteChannel

def empty : WriteChannel := ⟨[],[],false⟩

def writeLoop (len : ℕ) : List ℕ → ℕ → ℕ
  | [], send => send
  | room :: rooms, send =>
    if send < len then
      let rv := socketWrite room (len-send)
      if rv ≤ 0 then send else writeLoop len rooms (send+rv.toNat)
    else send

def onWrite (c : WriteChannel) (rooms : List ℕ) : WriteChannel × ℤ :=
  let len := c.writeBuf.length
  let send := writeLoop len rooms 0
  -- the read cursor moves by `len`, not by `send`
  ({ c with writeBuf := c.writeBuf.drop len, accepted := c.accepted ++ c.writeBuf.take send },
    if send ≥ len then 0 else -1)

/-- One event of the servant's loop. A response to a removed channel would signal
a watcher that was destroyed; a write event for it finds no channel. -/
def step (c : WriteChannel) : WriteEvent → Option WriteChannel
  | .sendResponse buf =>
    if c.removed then none else some { c with writeBuf := c.writeBuf ++ buf }
  | .onWrite rooms =>
    if c.removed then some c
    else
      let (c,rv) := c.onWrite rooms
      some (if rv ≠ 0 then { c with removed := true } else c)

/-- The room up to the first refusal. -/
def roomBefore (rooms : List ℕ) : ℕ := (rooms.takeWhile (0 < ·)).sum

/-- The kernel has room for all that is buffered before it refuses a write. -/
def TakesAll (c : WriteChannel) : WriteEvent → Prop
  | .sendResponse _ => True
  | .onWrite rooms => c.writeBuf.length ≤ roomBefore rooms

instance (c : WriteChannel) : ∀ e, Decidable (TakesAll c e)
  | .sendResponse _ => inferInstanceAs (Decidable True)
  | .onWrite _ => inferInstanceAs (Decidable (_ ≤ _))

/-- Every response byte is accepted or waits, in order, and the channel lives. -/
def Keeps (responses : List Byte) (c : WriteChannel) : Prop :=
  c.accepted ++ c.writeBuf = responses ∧ c.removed = false

variable {c : WriteChannel} {responses : List Byte}

theorem writeLoop_eq (len : ℕ) (rooms : List ℕ) {send : ℕ} (hs : send ≤ len) :
    writeLoop len rooms send = min len (send+roomBefore rooms) := by
  -- on the writes, `send` being what the earlier ones sent
  induction rooms generalizing send with
  | nil => exact (Nat.min_eq_right hs).symm
  | cons room rooms ih =>
    rw [writeLoop]
    by_cases hlt : send < len
    · by_cases h0 : room = 0
      · simp [hlt, socketWrite, h0, roomBefore, hs]
      · have hroom : roomBefore (room :: rooms) = room+roomBefore rooms := by
          simp [roomBefore, Nat.pos_of_ne_zero h0]
        have hrv : socketWrite room (len-send) = (min room (len-send) : ℕ) := by
          rw [socketWrite, if_neg h0]
          omega
        rw [if_pos hlt, hrv, hroom]
        simp only [Int.toNat_natCast]
        rw [if_neg (by omega), ih (by omega)]
        omega
    · rw [if_neg hlt]
      omega

/-- A write event leaves an empty buffer; the channel lives on if the socket
took every byte, and is removed if it refused one. -/
theorem step_onWrite (hc : c.removed = false) (rooms : List ℕ) :
    step c (.onWrite rooms) = some
      ⟨[],c.accepted ++ c.writeBuf.take (roomBefore rooms),
        decide (roomBefore rooms < c.writeBuf.length)⟩ := by
  have hloop := writeLoop_eq c.writeBuf.length rooms (Nat.zero_le _)
  rw [Nat.zero_add] at hloop
  simp only [step, hc, onWrite, hloop, List.drop_length, Bool.false_eq_true, ↓reduceIte]
  by_cases hle : c.writeBuf.length ≤ roomBefore rooms
  · rw [Nat.min_eq_left hle, List.take_length, List.take_of_length_le hle]
    simp [Nat.not_lt.mpr hle]
  · have hlt := Nat.lt_of_not_le hle
    rw [Nat.min_eq_right (Nat.le_of_lt hlt), if_neg hle]
    simp [hlt]

theorem step_sendResponse (hc : c.removed = false) (buf : List Byte) :
    step c (.sendResponse buf) = some { c with writeBuf := c.writeBuf ++ buf } := by
  simp [step, hc]

theorem keeps_step_iff (hc : Keeps responses c) (e : WriteEvent) :
    (∃ c', step c e = some c' ∧ Keeps (responses ++ e.response) c') ↔ TakesAll c e := by
  obtain ⟨hresp, hlive⟩ := hc
  cases e with
  | sendResponse buf =>
    refine ⟨fun _ => trivial, fun _ => ⟨_, step_sendResponse hlive buf, ?_, hlive⟩⟩
    rw [← hresp, List.append_assoc]
    rfl
  | onWrite rooms =>
    rw [step_onWrite hlive]
    constructor
    · rintro ⟨c', hc', -, hlive'⟩
      rw [← Option.some.inj hc'] at hlive'
      exact Nat.le_of_not_lt (of_decide_eq_false hlive')
    · intro hle
      refine ⟨_, rfl, ?_, decide_eq_false (Nat.not_lt.mpr hle)⟩
      rw [List.take_of_length_le hle, List.append_nil, hresp]
      exact (List.append_nil _).symm

theorem keeps_run_iff (es : List WriteEvent) (hc : Keeps responses c) :
    (∀ n, ∃ c', run step c (es.take n) = some c' ∧
      Keeps (responses ++ (es.take n).flatMap WriteEvent.response) c') ↔
    Along TakesAll step c es := by
  -- on the events, with the responses so far
  induction es generalizing c responses with
  | nil =>
    refine ⟨fun _ => trivial, fun _ n => ⟨c, by rw [List.take_nil, run_nil], ?_⟩⟩
    rw [List.take_nil, List.flatMap_nil, List.append_nil]
    exact hc
  | cons e es ih =>
    constructor
    · intro h
      obtain ⟨c₁, hrun, hk⟩ := h 1
      rw [List.take_succ_cons, List.take_zero] at hrun
      obtain ⟨c₁', hstep, h₁⟩ := run_cons_eq_some.mp hrun
      obtain rfl := Option.some.inj h₁
      rw [List.take_succ_cons, List.take_zero, List.flatMap_cons, List.flatMap_nil,
        List.append_nil] at hk
      refine ⟨(keeps_step_iff hc e).mp ⟨_, hstep, hk⟩, ?_⟩
      intro t ht
      obtain rfl := Option.some.inj (ht.symm.trans hstep)
      apply (ih hk).mp
      intro n
      obtain ⟨c', hc', hk'⟩ := h (n+1)
      rw [List.take_succ_cons, run_cons, hstep] at hc'
      rw [List.take_succ_cons, List.flatMap_cons, ← List.append_assoc] at hk'
      exact ⟨c', hc', hk'⟩
    · rintro ⟨htake, hrest⟩ n
      obtain ⟨c₁, hstep, hk⟩ := (keeps_step_iff hc e).mpr htake
      cases n with
      | zero =>
        refine ⟨c, rfl, ?_⟩
        rw [List.take_zero, List.flatMap_nil, List.append_nil]
        exact hc
      | succ n =>
        obtain ⟨c', hc', hk'⟩ := (ih hk).mpr (hrest c₁ hstep) n
        refine ⟨c', ?_, ?_⟩
        · rw [List.take_succ_cons, run_cons, hstep]
          exact hc'
        · rw [List.take_succ_cons, List.flatMap_cons, ← List.append_assoc]
          exact hk'

/-- At every point of a run the accepted bytes and the buffered ones are all the
responses in order, and the channel lives, exactly when no write event meets a
refusal before the buffer is empty. -/
theorem responses_kept_iff (es : List WriteEvent) :
    (∀ n, ∃ c, run step .empty (es.take n) = some c ∧
      c.accepted ++ c.writeBuf = (es.take n).flatMap WriteEvent.response ∧ c.removed = false) ↔
    Along TakesAll step .empty es :=
  keeps_run_iff es ⟨rfl, rfl⟩

/-- The kernel takes two of four bytes and refuses the rest: they are dropped
and the channel is removed. -/
theorem refused_bytes_dropped :
    let es := [.sendResponse [1,2,3,4],.onWrite [2]]
    ∃ c, run step .empty es = some c ∧
      c.accepted ++ c.writeBuf ≠ es.flatMap WriteEvent.response ∧ c.removed = true :=
  ⟨⟨[],[1,2],true⟩, by decide, by decide, rfl⟩

end WriteChannel
end EchoFrame
