import EchoFrame.MachineInt
import EchoFrame.Verif.LittleEndian

/-! The magic protocol: the header of a message on the wire, and the length
field by which a stream of messages is cut into packets. -/
namespace EchoFrame
open Verif

inductive PacketStatus
  | kPacketStatusIncomplete
  | kPacketStatusComplete
  | kPacketStatusError
deriving DecidableEq, Repr

def kFlagHeartbeat : Byte := 1

structure MyCodec where
  isPacketComplete : List Byte → PacketStatus
  getPacketLength : List Byte → ℕ

structure MyMagicMessage where
  length : UInt32
  version : UInt16
  flag : Byte
  isRequest : Int8
  requestId : UInt64
  serverNumber : UInt32
  payload : Option (List Byte)
deriving DecidableEq, Repr

namespace MyMagicMessage

def headLen : ℕ := 4+1+2+1+8+4

def isHeartbeat (m : MyMagicMessage) : Bool := m.flag == kFlagHeartbeat

def encode (m : MyMagicMessage) : List Byte :=
  leBytes 4 m.length.toNat ++ leBytes 1 m.flag.toNat ++ leBytes 2 m.version.toNat ++
    leBytes 1 m.isRequest.toUInt8.toNat ++ leBytes 8 m.requestId.toNat ++
    leBytes 4 m.serverNumber.toNat ++ m.payload.getD []

/-- `none` is the exception thrown when the bytes of the header run out. -/
def decode (bytes : List Byte) : Option MyMagicMessage := do
  let (length, bytes) ← readLe 4 bytes
  let (flag, bytes) ← readLe 1 bytes
  let (version, bytes) ← readLe 2 bytes
  let (isRequest, bytes) ← readLe 1 bytes
  let (requestId, bytes) ← readLe 8 bytes
  let (serverNumber, bytes) ← readLe 4 bytes
  some { length := .ofNat length, flag := .ofNat flag, version := .ofNat version,
         isRequest := (UInt8.ofNat isRequest).toInt8, requestId := .ofNat requestId,
         serverNumber := .ofNat serverNumber,
         payload := if bytes.length > 0 then some bytes else none }

def getPacketLength (buf : List Byte) : ℕ :=
  -- four bytes are not enough to read the field of four
  if buf.length ≤ 4 then 0 else leNat (buf.take 4)

def isPacketComplete (buf : List Byte) : PacketStatus :=
  -- so a field that cannot be read counts as that of a complete packet
  if getPacketLength buf ≤ buf.length then .kPacketStatusComplete else .kPacketStatusIncomplete

end MyMagicMessage

def MyMagicCodec : MyCodec where
  isPacketComplete := MyMagicMessage.isPacketComplete
  getPacketLength := MyMagicMessage.getPacketLength

structure Frame where
  bytes : List Byte
  headLen_le : MyMagicMessage.headLen ≤ bytes.length
  length_field : MyMagicMessage.getPacketLength bytes = bytes.length

namespace MyMagicMessage

theorem length_encode (m : MyMagicMessage) :
    m.encode.length = headLen+(m.payload.getD []).length := by
  simp only [encode, headLen, List.length_append, length_leBytes]

/-- A message without a payload and one with an empty payload look the same on the wire. -/
theorem decode_encode (m : MyMagicMessage) (hp : m.payload ≠ some []) :
    decode m.encode = some m := by
  obtain ⟨length, version, flag, isRequest, requestId, serverNumber, payload⟩ := m
  have hl := length.toNat_lt
  have hf := flag.toNat_lt
  have hv := version.toNat_lt
  have hi := isRequest.toUInt8.toNat_lt
  have hr := requestId.toNat_lt
  have hs := serverNumber.toNat_lt
  have hpay : (if (payload.getD []).length > 0 then some (payload.getD []) else none) = payload := by
    cases payload with
    | none => rfl
    | some bs =>
      have hne : bs ≠ [] := fun h => hp (congrArg some h)
      rw [Option.getD_some, if_pos (List.length_pos_iff.mpr hne)]
  simp only [decode, encode, List.append_assoc, readLe_append, Option.bind_eq_bind,
    Option.bind_some, hpay]
  rw [Nat.mod_eq_of_lt (show length.toNat < 256^4 by omega),
    Nat.mod_eq_of_lt (show flag.toNat < 256^1 by omega),
    Nat.mod_eq_of_lt (show version.toNat < 256^2 by omega),
    Nat.mod_eq_of_lt (show isRequest.toUInt8.toNat < 256^1 by omega),
    Nat.mod_eq_of_lt (show requestId.toNat < 256^8 by omega),
    Nat.mod_eq_of_lt (show serverNumber.toNat < 256^4 by omega)]
  simp

/-- An empty payload is none to the one who decodes it. -/
theorem decode_encode_filter (m : MyMagicMessage) :
    decode m.encode = some { m with payload := m.payload.filter fun bs => !bs.isEmpty } := by
  have hsame : { m with payload := m.payload.filter fun bs => !bs.isEmpty }.encode = m.encode := by
    unfold encode
    congr 1
    cases m.payload with
    | none => rfl
    | some bs => cases bs <;> rfl
  rw [← hsame]
  apply decode_encode
  cases m.payload with
  | none => simp
  | some bs => cases bs <;> simp

/-- Encoding puts back what `decode` took apart, whatever the length field says. -/
theorem encode_decode {bytes : List Byte} {m : MyMagicMessage} (h : decode bytes = some m) :
    m.encode = bytes := by
  unfold decode at h
  simp only [Option.bind_eq_bind, Option.bind_eq_some_iff] at h
  obtain ⟨⟨length,bs₁⟩, h₁, ⟨flag,bs₂⟩, h₂, ⟨version,bs₃⟩, h₃, ⟨isRequest,bs₄⟩, h₄,
    ⟨requestId,bs₅⟩, h₅, ⟨serverNumber,bs₆⟩, h₆, hm⟩ := h
  obtain ⟨rfl, hl⟩ := append_of_readLe h₁
  obtain ⟨rfl, hf⟩ := append_of_readLe h₂
  obtain ⟨rfl, hv⟩ := append_of_readLe h₃
  obtain ⟨rfl, hi⟩ := append_of_readLe h₄
  obtain ⟨rfl, hr⟩ := append_of_readLe h₅
  obtain ⟨rfl, hs⟩ := append_of_readLe h₆
  obtain rfl := Option.some.inj hm
  have hpay : (if bs₆.length > 0 then some bs₆ else none).getD [] = bs₆ := by
    cases bs₆ <;> rfl
  simp only [encode, hpay, List.append_assoc, UInt32.toNat_ofNat', UInt8.toNat_ofNat',
    UInt16.toNat_ofNat', UInt64.toNat_ofNat', UInt8.toUInt8_toInt8]
  rw [Nat.mod_eq_of_lt (show length < 2^32 by omega), Nat.mod_eq_of_lt (show flag < 2^8 by omega),
    Nat.mod_eq_of_lt (show version < 2^16 by omega),
    Nat.mod_eq_of_lt (show isRequest < 2^8 by omega),
    Nat.mod_eq_of_lt (show requestId < 2^64 by omega),
    Nat.mod_eq_of_lt (show serverNumber < 2^32 by omega)]

theorem getPacketLength_of_le {buf : List Byte} (h : buf.length ≤ 4) : getPacketLength buf = 0 :=
  if_pos h

/-- Five bytes of a stream are enough to read the length field, and it is all that is read. -/
theorem getPacketLength_congr {buf buf' : List Byte} (h : 4 < buf.length) (h' : 4 < buf'.length)
    (htake : buf.take 4 = buf'.take 4) : getPacketLength buf = getPacketLength buf' := by
  rw [getPacketLength, getPacketLength, if_neg (by omega), if_neg (by omega), htake]

/-- The first four bytes spell the length field, right or wrong. -/
theorem leNat_take_encode (m : MyMagicMessage) : leNat (m.encode.take 4) = m.length.toNat := by
  have hl := m.length.toNat_lt
  have htake : m.encode.take 4 = leBytes 4 m.length.toNat := by
    simp only [encode, List.append_assoc]
    rw [List.take_append_of_le_length (by rw [length_leBytes]),
      List.take_of_length_le (by rw [length_leBytes])]
  rw [htake, leNat_leBytes, Nat.mod_eq_of_lt (show m.length.toNat < 256^4 by omega)]

theorem getPacketLength_encode (m : MyMagicMessage)
    (hm : m.length.toNat = headLen+(m.payload.getD []).length) :
    getPacketLength m.encode = m.encode.length := by
  have hlen := length_encode m
  unfold headLen at hlen hm
  rw [getPacketLength, if_neg (by omega), leNat_take_encode, hm, hlen]

def frame (m : MyMagicMessage) (hm : m.length.toNat = headLen+(m.payload.getD []).length) :
    Frame where
  bytes := m.encode
  headLen_le := by
    rw [length_encode]
    exact Nat.le_add_right _ _
  length_field := getPacketLength_encode m hm

def heartbeatRequest (requestId : UInt64) : MyMagicMessage where
  length := .ofNat headLen
  version := 1
  flag := kFlagHeartbeat
  isRequest := 1
  requestId := requestId
  serverNumber := 0
  payload := none

def heartbeatFrame (requestId : UInt64) : Frame := (heartbeatRequest requestId).frame rfl

end MyMagicMessage
end EchoFrame
