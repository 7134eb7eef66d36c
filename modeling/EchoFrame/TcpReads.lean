import EchoFrame.ProxyPackets
import EchoFrame.ServerPackets

/-! A read event of a TCP connection. The loop reads until `read` gives no bytes,
and its return code is what that last `read` says. -/
namespace EchoFrame
open Verif

structure ReadEvent where
  reads : List (List Byte)
  result : ReadResult
deriving DecidableEq, Repr

namespace ReadEvent

def bytes (ev : ReadEvent) : List Byte := ev.reads.flatten

def arrival (reads : List (List Byte)) : ReadEvent := ⟨reads,.drained⟩

/-- How `doRead` of a servant and `onRead` of a proxy take the return code. The
failure of a read that would block has its own `errno`. -/
def closes (ev : ReadEvent) (rv : ℤ) : Bool :=
  if rv < 0 then decide (ev.result ≠ .drained) else decide (rv = 0)

end ReadEvent

/-- The loop of `onRead` of a channel or a client, `rv` being the bytes so far. -/
def readLoop {σ : Type} (receive : σ → List Byte → σ) (result : ReadResult) :
    List (List Byte) → ℤ → σ → σ × ℤ
  -- the bytes of the earlier reads no longer count
  | [], _, c => (c,if result = .closed then 0 else -1)
  | bytes :: reads, rv, c => readLoop receive result reads (rv+bytes.length) (receive c bytes)

def ReadChannel.onRead (c : ReadChannel) (ev : ReadEvent) : ReadChannel × ℤ :=
  readLoop ReadChannel.receive ev.result ev.reads 0 c

def MyClient.onRead (c : MyClient) (ev : ReadEvent) : MyClient × ℤ :=
  readLoop MyClient.receive ev.result ev.reads 0 c

namespace MyServant

/-- `doRead` of a TCP servant. No channel is returned when the connection ends. -/
def doRead (c : ReadChannel) (ev : ReadEvent) : ReadChannel × Bool :=
  let (c,rv) := c.onRead ev
  if ev.closes rv then (onReadError c,false) else (c,true)

def OnRead (ev : ReadEvent) (c c' : ReadChannel) : Prop :=
  match doRead c ev with
  | (c,true) => HandlesPackets c c'
  | (c,false) => c' = c

end MyServant

theorem readLoop_eq {σ : Type} {receive : σ → List Byte → σ} (hnil : ∀ c, receive c [] = c)
    (happ : ∀ c bs bs', receive (receive c bs) bs' = receive c (bs ++ bs')) (result : ReadResult)
    (reads : List (List Byte)) (rv : ℤ) (c : σ) :
    readLoop receive result reads rv c =
      (receive c reads.flatten,if result = .closed then 0 else -1) := by
  induction reads generalizing rv c with
  | nil => rw [readLoop, List.flatten_nil, hnil]
  | cons bytes reads ih => rw [readLoop, ih, happ, List.flatten_cons]

theorem ReadChannel.onRead_eq (c : ReadChannel) (ev : ReadEvent) :
    c.onRead ev = (c.receive ev.bytes,if ev.result = .closed then 0 else -1) := by
  apply readLoop_eq
  · intro c
    rw [ReadChannel.receive, List.append_nil]
  · intro c bs bs'
    simp only [ReadChannel.receive, List.append_assoc]

theorem MyClient.onRead_eq (c : MyClient) (ev : ReadEvent) :
    c.onRead ev = (c.receive ev.bytes,if ev.result = .closed then 0 else -1) := by
  apply readLoop_eq
  · intro c
    rw [MyClient.receive, List.append_nil]
  · intro c bs bs'
    simp only [MyClient.receive, List.append_assoc]

/-- An event closes the connection whatever bytes came before its end. -/
theorem ReadEvent.closes_eq (ev : ReadEvent) :
    ev.closes (if ev.result = .closed then 0 else -1) = decide (ev.result ≠ .drained) := by
  obtain ⟨reads, result⟩ := ev
  cases result <;> rfl

namespace MyServant

theorem onRead_arrival_iff (reads : List (List Byte)) (c c' : ReadChannel) :
    OnRead (.arrival reads) c c' ↔ HandlesPackets (c.receive reads.flatten) c' := by
  simp only [OnRead, doRead, ReadChannel.onRead_eq, ReadEvent.closes_eq]
  exact Iff.rfl

theorem onRead_end_iff {ev : ReadEvent} (hend : ev.result ≠ .drained) (c c' : ReadChannel) :
    OnRead ev c c' ↔ c' = onReadError (c.receive ev.bytes) := by
  simp only [OnRead, doRead, ReadChannel.onRead_eq, ReadEvent.closes_eq, hend, ne_eq,
    not_false_eq_true, decide_true, ↓reduceIte]

end MyServant
end EchoFrame
