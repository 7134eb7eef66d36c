import EchoFrame.MachineInt
import EchoFrame.Verif.DoWhile
import EchoFrame.Verif.LittleEndian
import EchoFrame.Verif.Run
import Mathlib.Data.List.Induction

/-! The responses of a UDP channel on their way to the socket. The write buffer is a
queue of bytes, in which every response stands behind its length. -/
namespace EchoFrame
open Verif

def i32 (n : ℕ) : ℤ := if u32 n < 2^31 then u32 n else (u32 n : ℤ)-2^32

/-- `calls` are the datagrams handed to `sendto`, and whether it took them; `results`
is what `onWrite` has returned. -/
structure UdpWriteChannel where
  writeBuf : List Byte
  calls : List (List Byte × Bool)
  results : List ℤ
deriving DecidableEq, Repr

/-- A response, or a write event with what becomes of each successive `sendto`, which
takes a whole datagram or fails; it fails after the last. -/
inductive UdpWriteEvent
  | sendResponse (buf : List Byte)
  | onWrite (takes : List Bool)
deriving DecidableEq, Repr

namespace UdpWriteEvent

def response : UdpWriteEvent → Option (List Byte)
  | sendResponse buf => some buf
  | onWrite _ => none

/-- The length of a response and the four bytes before it are counted in 32 bits. -/
def Fits : UdpWriteEvent → Prop
  | sendResponse buf => buf.length+4 < 2^32
  | onWrite _ => True

end UdpWriteEvent

namespace UdpWriteChannel

def empty : UdpWriteChannel := ⟨[],[],[]⟩

/-- What `readable` says of the bytes that can be read, if asked for `length`. -/
def readable (buf : List Byte) (length : ℕ) : ℕ := min length buf.length

/-- What is left of the results of `sendto`, and the calls, in the loop of `onWrite` from
`send` bytes of the datagram on. -/
def sendLoop (datagram : List Byte) :
    List Bool → ℕ → List (List Byte × Bool) → List Bool × List (List Byte × Bool)
  | [], send, calls =>
    ([],if send < datagram.length then calls ++ [(datagram.drop send,false)] else calls)
  | takes :: rest, send, calls =>
    if send < datagram.length then
      let calls := calls ++ [(datagram.drop send,takes)]
      let sent := if takes then i32 (datagram.length-send) else -1
      if sent ≤ 0 then (rest,calls) else sendLoop datagram rest (send+sent.toNat) calls
    else (takes :: rest,calls)

/-- The variables of the outer loop. -/
structure Writing where
  writeBuf : List Byte
  takes : List Bool
  calls : List (List Byte × Bool)
  rv : ℤ
deriving DecidableEq, Repr

/-- One round of the outer loop, and whether there is another. -/
def writeBody (w : Writing) : Writing × Bool :=
  let len := w.writeBuf.length
  if len ≤ 4 then (w,false)
  else
    let flagLen := readable w.writeBuf 4
    let flag := leNat (w.writeBuf.take flagLen)
    if flag > len-flagLen then ({ w with rv := -1 },false)
    else
      let buf := w.writeBuf.drop flagLen
      let flag := readable buf flag
      let (takes,calls) := sendLoop (buf.take flag) w.takes 0 w.calls
      ({ w with writeBuf := buf.drop flag, takes := takes, calls := calls },true)

/-- Every round but the last takes a length off the buffer. -/
def onWrite (c : UdpWriteChannel) (takes : List Bool) : Option UdpWriteChannel :=
  (execLoop writeBody (c.writeBuf.length+1) ⟨c.writeBuf,takes,c.calls,0⟩).map fun w =>
    ⟨w.writeBuf,w.calls,c.results ++ [w.rv]⟩

/-- The buffer makes room for as many bytes as the 32-bit sum says. -/
def sendResponse (c : UdpWriteChannel) (buf : List Byte) : UdpWriteChannel :=
  { c with
    writeBuf := c.writeBuf ++ (leBytes 4 buf.length ++ buf).take (u32 (buf.length+4)) }

def step (c : UdpWriteChannel) : UdpWriteEvent → Option UdpWriteChannel
  | .sendResponse buf => some (c.sendResponse buf)
  | .onWrite takes => c.onWrite takes

def encode (buf : List Byte) : List Byte := leBytes 4 buf.length ++ buf

theorem length_encode (buf : List Byte) : (encode buf).length = 4+buf.length := by
  rw [encode, List.length_append, length_leBytes]

theorem take_encode {buf : List Byte} (h : buf.length+4 < 2^32) :
    (encode buf).take (u32 (buf.length+4)) = encode buf := by
  rw [u32_of_lt h]
  apply List.take_of_length_le
  rw [length_encode]
  omega

theorem i32_cases {n : ℕ} (h : n < 2^32) : i32 n ≤ 0 ∨ i32 n = n := by
  rw [i32, u32_of_lt h]
  split
  · exact .inr rfl
  · exact .inl (by omega)

theorem sendLoop_of_le {datagram : List Byte} {send : ℕ} (h : datagram.length ≤ send)
    (takes : List Bool) (calls : List (List Byte × Bool)) :
    sendLoop datagram takes send calls = (takes,calls) := by
  cases takes with
  | nil => rw [sendLoop, if_neg (Nat.not_lt.mpr h)]
  | cons _ _ => rw [sendLoop, if_neg (Nat.not_lt.mpr h)]

/-- A datagram is handed over once, whole, whatever the count reads as. -/
theorem sendLoop_eq {datagram : List Byte} (h : datagram.length < 2^32) (takes : List Bool)
    (calls : List (List Byte × Bool)) : sendLoop datagram takes 0 calls =
      if datagram = [] then (takes,calls)
      else (takes.tail,calls ++ [(datagram,takes.headD false)]) := by
  by_cases hnil : datagram = []
  · rw [if_pos hnil, sendLoop_of_le (by rw [hnil]; exact Nat.le_refl 0)]
  · have hpos : 0 < datagram.length := List.length_pos_iff.mpr hnil
    rw [if_neg hnil]
    cases takes with
    | nil => rw [sendLoop, if_pos hpos, List.drop_zero, List.tail_nil, List.headD_nil]
    | cons taken rest =>
      rw [sendLoop, if_pos hpos, List.drop_zero, List.tail_cons, List.headD_cons]
      cases taken with
      | false => rfl
      | true =>
        have hsent := i32_cases (n := datagram.length) h
        dsimp only
        rw [if_pos rfl, Nat.sub_zero]
        split
        · -- a count from 2^31 on reads as negative, and ends the loop as well
          rfl
        · exact sendLoop_of_le (by omega) _ _

/-- One round on a response that has a byte behind it. -/
theorem writeBody_encode {buf : List Byte} (hbuf : buf.length+4 < 2^32) {rest : List Byte}
    (hne : buf ++ rest ≠ []) (takes : List Bool) (calls : List (List Byte × Bool)) (rv : ℤ) :
    ∃ takes' calls', writeBody ⟨encode buf ++ rest,takes,calls,rv⟩ =
        (⟨rest,takes',calls',rv⟩,true) ∧
      calls'.map (·.1) = calls.map (·.1) ++ [buf].filter (· ≠ []) := by
  have htake : (encode buf ++ rest).take 4 = leBytes 4 buf.length := by
    have hlen := length_leBytes 4 buf.length
    rw [encode, List.append_assoc, List.take_append_of_le_length hlen.ge,
      List.take_of_length_le hlen.le]
  have hdrop : (encode buf ++ rest).drop 4 = buf ++ rest := by
    have hlen := length_leBytes 4 buf.length
    rw [encode, List.append_assoc, List.drop_append_of_le_length hlen.ge,
      List.drop_of_length_le hlen.le, List.nil_append]
  have hflag : leNat (leBytes 4 buf.length) = buf.length := by
    rw [leNat_leBytes, Nat.mod_eq_of_lt (by omega)]
  have hpos : 0 < (buf ++ rest).length := List.length_pos_iff.mpr hne
  have hlen : (encode buf ++ rest).length = 4+(buf ++ rest).length := by
    rw [List.length_append, length_encode, List.length_append, Nat.add_assoc]
  have hle : buf.length ≤ (buf ++ rest).length := by
    rw [List.length_append]
    exact Nat.le_add_right _ _
  have hreadable : readable (encode buf ++ rest) 4 = 4 := by
    rw [readable, hlen]
    omega
  have hreadable' : readable (buf ++ rest) buf.length = buf.length := Nat.min_eq_left hle
  have hsend := sendLoop_eq (show buf.length < 2^32 by omega) takes calls
  refine ⟨(sendLoop buf takes 0 calls).1, (sendLoop buf takes 0 calls).2, ?_, ?_⟩
  · simp only [writeBody, hreadable, htake, hdrop, hflag, hlen, hreadable', List.take_left,
      List.drop_left]
    rw [if_neg (by omega), if_neg (by omega)]
  · rw [hsend]
    by_cases hnil : buf = []
    · rw [if_pos hnil]
      simp [hnil]
    · rw [if_neg hnil]
      simp [hnil]

/-- What a channel has still to send is empty, or one response of length zero. -/
def Drained (waiting : List (List Byte)) : Prop := waiting = [] ∨ waiting = [[]]

/-- The loop of `onWrite` hands over every response that waits, one datagram for each
that is not empty, and finds no error in the encoding. -/
theorem execLoop_writeBody {waiting : List (List Byte)}
    (hfits : ∀ buf ∈ waiting, buf.length+4 < 2^32) {fuel : ℕ} (hfuel : waiting.length < fuel)
    (takes : List Bool) (calls : List (List Byte × Bool)) :
    ∃ w left, execLoop writeBody fuel ⟨waiting.flatMap encode,takes,calls,0⟩ = some w ∧
      w.rv = 0 ∧ Drained left ∧ w.writeBuf = left.flatMap encode ∧
      w.calls.map (·.1) = calls.map (·.1) ++ waiting.filter (· ≠ []) := by
  induction waiting generalizing fuel takes calls with
  | nil =>
    obtain ⟨fuel, rfl⟩ := Nat.exists_eq_add_of_lt hfuel
    exact ⟨_, [], rfl, rfl, .inl rfl, rfl, (List.append_nil _).symm⟩
  | cons buf waiting ih =>
    obtain ⟨fuel, rfl⟩ : ∃ n, fuel = n+1 := ⟨fuel-1, by omega⟩
    rw [List.forall_mem_cons] at hfits
    rw [List.length_cons] at hfuel
    by_cases hlast : buf ++ waiting.flatMap encode = []
    · obtain ⟨rfl, hrest⟩ := List.append_eq_nil_iff.mp hlast
      have hwaiting : waiting = [] := by
        cases waiting with
        | nil => rfl
        | cons next waiting =>
          have hlen := congrArg List.length hrest
          rw [List.flatMap_cons, List.length_append, length_encode, List.length_nil] at hlen
          omega
      subst hwaiting
      exact ⟨_, [[]], rfl, rfl, .inr rfl, rfl, by simp⟩
    · obtain ⟨takes', calls', hbody, hcalls⟩ :=
        writeBody_encode hfits.1 hlast takes calls 0
      obtain ⟨w, left, hloop, hrv, hleft, hbuf, hw⟩ :=
        ih hfits.2 (show waiting.length < fuel by omega) takes' calls'
      refine ⟨w, left, ?_, hrv, hleft, hbuf, ?_⟩
      · rw [List.flatMap_cons, execLoop, hbody]
        exact hloop
      · rw [hw, hcalls, List.append_assoc, ← List.filter_append, List.singleton_append]

theorem length_le_flatMap_encode (waiting : List (List Byte)) :
    waiting.length ≤ (waiting.flatMap encode).length := by
  induction waiting with
  | nil => exact Nat.le_refl 0
  | cons buf waiting ih =>
    rw [List.flatMap_cons, List.length_append, length_encode, List.length_cons]
    omega

/-- The channel after some responses: those of `waiting` stand in the buffer, and each
of the others that is not empty was handed to `sendto` once, whole and in order. -/
structure Holds (c : UdpWriteChannel) (responses waiting : List (List Byte)) : Prop where
  fits : ∀ buf ∈ waiting, buf.length+4 < 2^32
  writeBuf : c.writeBuf = waiting.flatMap encode
  calls : c.calls.map (·.1) ++ waiting.filter (· ≠ []) = responses.filter (· ≠ [])
  results : ∀ rv ∈ c.results, rv = 0

variable {c : UdpWriteChannel} {responses waiting : List (List Byte)}

theorem Holds.sendResponse (h : c.Holds responses waiting) {buf : List Byte}
    (hbuf : buf.length+4 < 2^32) :
    (c.sendResponse buf).Holds (responses ++ [buf]) (waiting ++ [buf]) where
  fits := by
    intro b hb
    rcases List.mem_append.mp hb with hb | hb
    · exact h.fits b hb
    · rwa [List.mem_singleton.mp hb]
  writeBuf := by
    have htake := take_encode hbuf
    rw [encode] at htake
    rw [UdpWriteChannel.sendResponse, htake, h.writeBuf, List.flatMap_append,
      List.flatMap_singleton, encode]
  calls := by
    rw [List.filter_append, List.filter_append, ← h.calls, List.append_assoc]
    rfl
  results := h.results

theorem Holds.onWrite (h : c.Holds responses waiting) (takes : List Bool) :
    ∃ c' left, c.onWrite takes = some c' ∧ c'.Holds responses left ∧ Drained left := by
  have hfuel : waiting.length < c.writeBuf.length+1 := by
    rw [h.writeBuf]
    exact Nat.lt_succ_of_le (length_le_flatMap_encode waiting)
  obtain ⟨w, left, hloop, hrv, hleft, hbuf, hcalls⟩ :=
    execLoop_writeBody h.fits hfuel takes c.calls
  rw [← h.writeBuf] at hloop
  refine ⟨⟨w.writeBuf,w.calls,c.results ++ [w.rv]⟩, left, ?_, ?_, hleft⟩
  · rw [UdpWriteChannel.onWrite, hloop, Option.map_some]
  · refine ⟨?_, hbuf, ?_, ?_⟩
    · rcases hleft with rfl | rfl <;> simp
    · have hempty : left.filter (· ≠ []) = [] := by rcases hleft with rfl | rfl <;> rfl
      rw [hempty, List.append_nil, hcalls, h.calls]
    · intro rv hmem
      rcases List.mem_append.mp hmem with hmem | hmem
      · exact h.results rv hmem
      · rw [List.mem_singleton.mp hmem, hrv]

end UdpWriteChannel
end EchoFrame
