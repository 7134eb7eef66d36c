import EchoFrame.PacketCuts
import EchoFrame.TypedValues

/-! The encoder and the decoder of the magic protocol on buffers. The capacity of
each buffer they make is chosen from the length field. -/
namespace EchoFrame
open Verif

/-- What is found in the local of `MyReader` once it is gone: as many bytes of what `left` makes
of the value as the type has. -/
def IOItem.leftInt (left : IntSize → ℕ → ℕ) : IOItem → IOItem
  | basic size v =>
    basic size ⟨left size v.val%256^size.bytes,Nat.mod_lt _ (Nat.pow_pos (Nat.succ_pos 255))⟩
  | string v => string v
  | block v => block v

/-- `read<T>` of an integer, through the reference that `MyReader` returns. -/
def MyIOBuf.readInt (left : IntSize → ℕ → ℕ) (size : IntSize) (b : MySKBuffer) :
    Option (ℕ × MySKBuffer) := do
  let (item, b) ← readItem (IOItem.leftInt left) (.basic size) b
  some (leNat item.bytes,b)

/-- A message as the program holds it, with its payload in a buffer of its own. -/
structure HeldMessage where
  length : UInt32
  version : UInt16
  flag : Byte
  isRequest : Int8
  requestId : UInt64
  serverNumber : UInt32
  payload : Option MySKBuffer
deriving DecidableEq, Repr

namespace HeldMessage

def message (m : HeldMessage) : MyMagicMessage where
  length := m.length
  version := m.version
  flag := m.flag
  isRequest := m.isRequest
  requestId := m.requestId
  serverNumber := m.serverNumber
  payload := m.payload.map MySKBuffer.contents

/-- `MyMagicMessage::encode`; `junk` is what `malloc` leaves in a block. -/
def encode (junk : ℕ → Byte) (m : HeldMessage) : Option MySKBuffer := do
  let payload ← MySKBuffer.create junk m.length.toNat
  let payload ← MyIOBuf.write junk payload (leBytes 4 m.length.toNat)
  let payload ← MyIOBuf.write junk payload (leBytes 1 m.flag.toNat)
  let payload ← MyIOBuf.write junk payload (leBytes 2 m.version.toNat)
  let payload ← MyIOBuf.write junk payload (leBytes 1 m.isRequest.toUInt8.toNat)
  let payload ← MyIOBuf.write junk payload (leBytes 8 m.requestId.toNat)
  let payload ← MyIOBuf.write junk payload (leBytes 4 m.serverNumber.toNat)
  match m.payload with
  | none => some payload
  | some body => do
    let bytes ← MyIOBuf.readableBytes body
    MyIOBuf.write junk payload bytes

/-- `MyMagicMessage::decode` of a fresh message; `left k` is for the read number `k`. -/
def decode (left : ℕ → IntSize → ℕ → ℕ) (junk : ℕ → Byte) (payload : MySKBuffer) :
    Option HeldMessage := do
  let (length, payload) ← MyIOBuf.readInt (left 0) .four payload
  let (flag, payload) ← MyIOBuf.readInt (left 1) .one payload
  let (version, payload) ← MyIOBuf.readInt (left 2) .two payload
  let (isRequest, payload) ← MyIOBuf.readInt (left 3) .one payload
  let (requestId, payload) ← MyIOBuf.readInt (left 4) .eight payload
  let (serverNumber, payload) ← MyIOBuf.readInt (left 5) .four payload
  let m : HeldMessage :=
    { length := .ofNat length, flag := .ofNat flag, version := .ofNat version,
      isRequest := (UInt8.ofNat isRequest).toInt8, requestId := .ofNat requestId,
      serverNumber := .ofNat serverNumber, payload := none }
  let rest ← payload.getReadableLength
  if rest > 0 then do
    -- the subtraction is one of `uint32_t`
    let body ← MySKBuffer.create junk (u32 (length+2^32-MyMagicMessage.headLen))
    let bytes ← MyIOBuf.readableBytes payload
    let body ← MyIOBuf.write junk body bytes
    some { m with payload := some body }
  else some m

def Stays (left : IntSize → ℕ → ℕ) (size : IntSize) (v : ℕ) : Prop :=
  left size v%256^size.bytes = v

instance (left : IntSize → ℕ → ℕ) (size : IntSize) (v : ℕ) : Decidable (Stays left size v) :=
  inferInstanceAs (Decidable (_ = _))

structure Intact (left : ℕ → IntSize → ℕ → ℕ) (m : MyMagicMessage) : Prop where
  length : Stays (left 0) .four m.length.toNat
  flag : Stays (left 1) .one m.flag.toNat
  version : Stays (left 2) .two m.version.toNat
  isRequest : Stays (left 3) .one m.isRequest.toUInt8.toNat
  requestId : Stays (left 4) .eight m.requestId.toNat
  serverNumber : Stays (left 5) .four m.serverNumber.toNat

/-- The payload is in an ordered buffer, and the length field counts it. -/
structure Sized (m : HeldMessage) : Prop where
  ordered : ∀ b ∈ m.payload, b.Ordered
  length_eq : m.length.toNat = MyMagicMessage.headLen+(m.message.payload.getD []).length

def pieces (m : MyMagicMessage) : List (List Byte) :=
  [leBytes 1 m.flag.toNat, leBytes 2 m.version.toNat, leBytes 1 m.isRequest.toUInt8.toNat,
    leBytes 8 m.requestId.toNat, leBytes 4 m.serverNumber.toNat] ++ m.payload.toList

theorem flatten_pieces (m : MyMagicMessage) :
    leBytes 4 m.length.toNat ++ (pieces m).flatten = m.encode := by
  rw [pieces, MyMagicMessage.encode]
  cases m.payload with
  | none => simp
  | some bytes => simp

theorem length_pieces (m : MyMagicMessage) :
    4+(pieces m).flatten.length = MyMagicMessage.headLen+(m.payload.getD []).length := by
  rw [← MyMagicMessage.length_encode, ← flatten_pieces, List.length_append, length_leBytes]

variable {m : HeldMessage} {b : MySKBuffer} (junk : ℕ → Byte)

/-- The encoder is a row of writes to a buffer whose capacity is the length field. -/
theorem encode_eq_writeAll (hm : ∀ b ∈ m.payload, MyIOBuf.readableBytes b = some b.contents) :
    m.encode junk = (MySKBuffer.create junk m.length.toNat).bind fun b =>
      MyIOBuf.writeAll junk (leBytes 4 m.length.toNat :: pieces m.message) b := by
  unfold encode MyIOBuf.writeAll pieces
  cases hp : m.payload with
  | none =>
    simp only [message, hp, Option.map_none, Option.toList_none, List.append_nil,
      List.foldlM_cons, List.foldlM_nil, Option.bind_eq_bind]
    simp only [Option.pure_def]
  | some body =>
    simp only [message, hp, hm body hp, Option.map_some, Option.toList_some, List.cons_append,
      List.nil_append, List.foldlM_cons, List.foldlM_nil, Option.bind_eq_bind, Option.bind_some,
      Option.pure_def, Option.bind_fun_some]

/-- The encoder puts all of a message that its length field covers into its buffer. -/
theorem encode_of_fits (hm : ∀ b ∈ m.payload, b.Ordered)
    (hfits : MyMagicMessage.headLen+(m.message.payload.getD []).length ≤ m.length.toNat) :
    ∃ b, m.encode junk = some b ∧ b.Ordered ∧ b.contents = m.message.encode := by
  obtain ⟨b₀, hcreate, h₀⟩ := MyIOBuf.create_holds junk m.length.toNat_lt
  have hall : (leBytes 4 m.length.toNat :: pieces m.message).flatten = m.message.encode :=
    flatten_pieces m.message
  have hfit : ([] : List Byte).length+
      (leBytes 4 m.length.toNat :: pieces m.message).flatten.length ≤ m.length.toNat := by
    rw [hall, MyMagicMessage.length_encode, List.length_nil, Nat.zero_add]
    exact hfits
  obtain ⟨b, hwrite, hb⟩ := h₀.writeAll junk hfit
  refine ⟨b, ?_, hb.ordered, ?_⟩
  · rw [encode_eq_writeAll junk fun b hb => MyIOBuf.readableBytes_eq (hm b hb), hcreate,
      Option.bind_some, hwrite]
  · rw [hb.contents, hall, List.nil_append]

/-- Where the encoder succeeds and nothing of the message is missing, the first four bytes spell
no more than the length field. -/
theorem kept_of_encode (hm : ∀ b ∈ m.payload, b.Ordered)
    (h : m.encode (fun _ => 0) = some b) :
    MyIOBuf.Kept b m.length.toNat
      (MyMagicMessage.headLen+(m.message.payload.getD []).length) := by
  rw [encode_eq_writeAll _ fun b hb => MyIOBuf.readableBytes_eq (hm b hb)] at h
  obtain ⟨b₀, hcreate, hall⟩ := Option.bind_eq_some_iff.mp h
  obtain ⟨b₁, hwrite, hrest⟩ := MyIOBuf.writeAll_cons_eq_some.mp hall
  obtain ⟨b₀', hcreate', h₀⟩ := MyIOBuf.create_holds (fun _ => 0) m.length.toNat_lt
  obtain rfl := Option.some.inj (hcreate'.symm.trans hcreate)
  obtain ⟨hord, hunread, -⟩ := MyIOBuf.write_cases h₀.ordered h₀.unread hwrite
  have hfirst := MyIOBuf.contents_of_write_empty h₀.ordered h₀.unread h₀.contents hwrite
  have hkept : MyIOBuf.Kept b₁ m.length.toNat 4 := by
    refine ⟨hord, hunread, ?_, fun _ => ?_⟩
    · rw [hfirst, length_leBytes]
    · rw [hfirst, List.take_of_length_le (length_leBytes _ _).le, leNat_leBytes]
      exact Nat.mod_le _ _
  rw [← length_pieces]
  exact hkept.writeAll le_rfl hrest

/-- Where the length field has wrapped there is no buffer for the payload. -/
theorem encode_of_wrapped (hm : ∀ b ∈ m.payload, MyIOBuf.readableBytes b = some b.contents)
    (hlen : m.length.toNat =
      (MyMagicMessage.headLen+(m.message.payload.getD []).length)%2^32)
    (hwrap : 2^32 ≤ MyMagicMessage.headLen+(m.message.payload.getD []).length) :
    m.encode junk = none := by
  rw [Option.eq_none_iff_forall_ne_some]
  intro b h
  rw [encode_eq_writeAll junk hm] at h
  obtain ⟨b₀, hcreate, hrest⟩ := Option.bind_eq_some_iff.mp h
  obtain ⟨b₀', hcreate', h₀⟩ := MyIOBuf.create_holds junk m.length.toNat_lt
  obtain rfl := Option.some.inj (hcreate'.symm.trans hcreate)
  obtain ⟨hord, -, hcap, hlast⟩ := MyIOBuf.ordered_of_writeAll h₀.ordered h₀.unread hrest
  have hlt := hord.capacity_lt
  rw [h₀.capacity] at hcap
  unfold MyMagicMessage.headLen at hlen hwrap
  cases hp : m.message.payload with
  | none =>
    rw [hp] at hwrap
    exact absurd hwrap (by decide)
  | some bytes =>
    have hin : bytes.length ≤ b.head.capacity := by
      apply hlast
      rw [pieces, hp]
      rfl
    have hcount : (leBytes 4 m.length.toNat :: pieces m.message).length = 7 := by
      rw [pieces, hp]
      rfl
    rw [hcount] at hcap
    rw [hp, Option.getD_some] at hlen hwrap
    omega

def filled (bytes : List Byte) : MySKBuffer := ⟨bytes.length,⟨bytes.length,0,bytes.length⟩,bytes⟩

theorem contents_filled (bytes : List Byte) : (filled bytes).contents = bytes :=
  List.take_length

theorem readableBytes_filled (bytes : List Byte) :
    MyIOBuf.readableBytes (filled bytes) = some (filled bytes).contents := by
  rw [contents_filled]
  have hload : load bytes 0 bytes.length = some bytes := by
    rw [load_eq_some (Nat.zero_add _).le, List.drop_zero, List.take_length]
  cases bytes with
  | nil => rfl
  | cons byte bytes => exact hload

theorem ordered_filled {bytes : List Byte} (h : bytes.length < 2^32) : (filled bytes).Ordered :=
  ⟨rfl, rfl, Nat.zero_le _, le_rfl, h⟩

def ofMessage (m : MyMagicMessage) : HeldMessage where
  length := m.length
  version := m.version
  flag := m.flag
  isRequest := m.isRequest
  requestId := m.requestId
  serverNumber := m.serverNumber
  payload := m.payload.map filled

theorem message_ofMessage (m : MyMagicMessage) : (ofMessage m).message = m := by
  have hcontents : MySKBuffer.contents ∘ filled = id := funext contents_filled
  simp only [message, ofMessage, Option.map_map, hcontents, Option.map_id_fun, id_eq]

def ofFields (length flag version isRequest requestId serverNumber : ℕ)
    (payload : Option MySKBuffer) : HeldMessage :=
  { length := .ofNat length, flag := .ofNat flag, version := .ofNat version,
    isRequest := (UInt8.ofNat isRequest).toInt8, requestId := .ofNat requestId,
    serverNumber := .ofNat serverNumber, payload := payload }

/-- The message as the fields of `m` are found by the decoder. -/
def found (left : ℕ → IntSize → ℕ → ℕ) (m : MyMagicMessage) (payload : Option MySKBuffer) :
    HeldMessage :=
  ofFields (left 0 .four m.length.toNat%2^32) (left 1 .one m.flag.toNat%2^8)
    (left 2 .two m.version.toNat%2^16) (left 3 .one m.isRequest.toUInt8.toNat%2^8)
    (left 4 .eight m.requestId.toNat%2^64) (left 5 .four m.serverNumber.toNat%2^32) payload

variable {left : ℕ → IntSize → ℕ → ℕ} {msg : MyMagicMessage}

theorem found_of_intact (h : Intact left msg) (payload : Option MySKBuffer) :
    (found left msg payload).message = { msg with payload := payload.map MySKBuffer.contents } := by
  have hlength : left 0 .four msg.length.toNat%2^32 = msg.length.toNat := h.length
  have hflag : left 1 .one msg.flag.toNat%2^8 = msg.flag.toNat := h.flag
  have hversion : left 2 .two msg.version.toNat%2^16 = msg.version.toNat := h.version
  have hisRequest : left 3 .one msg.isRequest.toUInt8.toNat%2^8 = msg.isRequest.toUInt8.toNat :=
    h.isRequest
  have hrequestId : left 4 .eight msg.requestId.toNat%2^64 = msg.requestId.toNat := h.requestId
  have hserverNumber : left 5 .four msg.serverNumber.toNat%2^32 = msg.serverNumber.toNat :=
    h.serverNumber
  rw [found, hlength, hflag, hversion, hisRequest, hrequestId, hserverNumber]
  simp only [ofFields, message, UInt32.ofNat_toNat, UInt8.ofNat_toNat, UInt16.ofNat_toNat,
    UInt64.ofNat_toNat, Int8.toInt8_toUInt8]

theorem intact_of_found {payload : Option MySKBuffer} {payload' : Option (List Byte)}
    (h : (found left msg payload).message = { msg with payload := payload' }) :
    Intact left msg := by
  have hlength := congrArg (fun m => m.length.toNat) h
  have hflag := congrArg (fun m => m.flag.toNat) h
  have hversion := congrArg (fun m => m.version.toNat) h
  have hisRequest := congrArg (fun m => m.isRequest.toUInt8.toNat) h
  have hrequestId := congrArg (fun m => m.requestId.toNat) h
  have hserverNumber := congrArg (fun m => m.serverNumber.toNat) h
  simp only [found, ofFields, message, UInt32.toNat_ofNat', Nat.mod_mod] at hlength hserverNumber
  simp only [found, ofFields, message, UInt8.toNat_ofNat', UInt16.toNat_ofNat',
    Nat.mod_mod] at hflag hversion
  simp only [found, ofFields, message, UInt8.toNat_ofNat', UInt8.toUInt8_toInt8,
    UInt64.toNat_ofNat', Nat.mod_mod] at hisRequest hrequestId
  exact ⟨hlength, hflag, hversion, hisRequest, hrequestId, hserverNumber⟩

/-- A read of an integer gives what its local is found to be, and takes its bytes. -/
theorem readInt_of_readLe (left : IntSize → ℕ → ℕ) (size : IntSize) (hb : b.Ordered) {v : ℕ}
    {rest : List Byte} (h : readLe size.bytes b.contents = some (v,rest)) :
    ∃ b', MyIOBuf.readInt left size b = some (left size v%256^size.bytes,b') ∧ b'.Ordered ∧
      b'.contents = rest := by
  have hpos : 0 < size.bytes := by cases size <;> decide
  have hlt := (append_of_readLe h).2
  obtain ⟨b', hread, hord, hrest⟩ := MyIOBuf.read_of_readLe hb hpos h
  refine ⟨b', ?_, hord, hrest⟩
  have hitem : leNat (IOItem.leftInt left (.basic size ⟨v%256^size.bytes,
      Nat.mod_lt _ (Nat.pow_pos (by decide))⟩)).bytes = left size v%256^size.bytes := by
    change leNat (leBytes size.bytes (left size (v%256^size.bytes)%256^size.bytes)) = _
    rw [leNat_leBytes, Nat.mod_mod, Nat.mod_eq_of_lt hlt]
  simp only [MyIOBuf.readInt, MyIOBuf.readItem, hread, Option.bind_eq_bind, Option.bind_some, hitem]

/-- The message of fields that fit their types, as it is found by the decoder. -/
theorem found_mk (left : ℕ → IntSize → ℕ → ℕ)
    {length flag version isRequest requestId serverNumber : ℕ} (hlength : length < 2^32)
    (hflag : flag < 2^8) (hversion : version < 2^16) (hisRequest : isRequest < 2^8)
    (hrequestId : requestId < 2^64) (hserverNumber : serverNumber < 2^32) (bytes : Option (List Byte))
    (payload : Option MySKBuffer) :
    found left
        { length := .ofNat length, version := .ofNat version, flag := .ofNat flag,
          isRequest := (UInt8.ofNat isRequest).toInt8, requestId := .ofNat requestId,
          serverNumber := .ofNat serverNumber, payload := bytes } payload =
      ofFields (left 0 .four length%2^32) (left 1 .one flag%2^8) (left 2 .two version%2^16)
        (left 3 .one isRequest%2^8) (left 4 .eight requestId%2^64)
        (left 5 .four serverNumber%2^32) payload := by
  simp only [found, UInt32.toNat_ofNat', UInt8.toNat_ofNat', UInt16.toNat_ofNat',
    UInt64.toNat_ofNat', UInt8.toUInt8_toInt8]
  rw [Nat.mod_eq_of_lt hlength, Nat.mod_eq_of_lt hflag, Nat.mod_eq_of_lt hversion,
    Nat.mod_eq_of_lt hisRequest, Nat.mod_eq_of_lt hrequestId, Nat.mod_eq_of_lt hserverNumber]

/-- What the decoder does with bytes that spell the header of a message. -/
theorem decode_of_header (hb : b.Ordered) (hd : MyMagicMessage.decode b.contents = some msg) :
    ∃ rest : MySKBuffer, rest.Ordered ∧
      b.contents.length = MyMagicMessage.headLen+rest.contents.length ∧
      msg.payload = (if rest.contents.length > 0 then some rest.contents else none) ∧
      decode left junk b = if rest.contents.length > 0 then
        ((MySKBuffer.create junk (u32 (left 0 .four msg.length.toNat%2^32+2^32-
          MyMagicMessage.headLen))).bind fun body => MyIOBuf.write junk body rest.contents).map
          fun body => found left msg (some body)
      else some (found left msg none) := by
  unfold MyMagicMessage.decode at hd
  simp only [Option.bind_eq_bind, Option.bind_eq_some_iff] at hd
  obtain ⟨⟨length,c₁⟩, r₁, ⟨flag,c₂⟩, r₂, ⟨version,c₃⟩, r₃, ⟨isRequest,c₄⟩, r₄,
    ⟨requestId,c₅⟩, r₅, ⟨serverNumber,c₆⟩, r₆, hmsg⟩ := hd
  dsimp only at r₂ r₃ r₄ r₅ r₆ hmsg
  obtain rfl := Option.some.inj hmsg
  obtain ⟨b₁, w₁, o₁, rfl⟩ := readInt_of_readLe (left 0) .four hb r₁
  obtain ⟨b₂, w₂, o₂, rfl⟩ := readInt_of_readLe (left 1) .one o₁ r₂
  obtain ⟨b₃, w₃, o₃, rfl⟩ := readInt_of_readLe (left 2) .two o₂ r₃
  obtain ⟨b₄, w₄, o₄, rfl⟩ := readInt_of_readLe (left 3) .one o₃ r₄
  obtain ⟨b₅, w₅, o₅, rfl⟩ := readInt_of_readLe (left 4) .eight o₄ r₅
  obtain ⟨b₆, w₆, o₆, rfl⟩ := readInt_of_readLe (left 5) .four o₅ r₆
  have hbytes : b.contents.length = MyMagicMessage.headLen+b₆.contents.length := by
    have l₁ := length_of_readLe r₁
    have l₂ := length_of_readLe r₂
    have l₃ := length_of_readLe r₃
    have l₄ := length_of_readLe r₄
    have l₅ := length_of_readLe r₅
    have l₆ := length_of_readLe r₆
    unfold MyMagicMessage.headLen
    omega
  have hrest : b₆.getReadableLength = some b₆.contents.length := by
    rw [MySKBuffer.getReadableLength_eq o₆, MySKBuffer.length_contents o₆]
  have hfield {k n : ℕ} {c c' : List Byte} (h : readLe k c = some (n,c')) : n < 256^k :=
    (append_of_readLe h).2
  have hlength : length < 2^32 := hfield r₁
  have hfound := found_mk left hlength (hfield r₂) (hfield r₃) (hfield r₄) (hfield r₅) (hfield r₆)
  refine ⟨b₆, o₆, hbytes, rfl, ?_⟩
  simp only [hfound]
  rw [UInt32.toNat_ofNat', Nat.mod_eq_of_lt hlength]
  simp only [decode, w₁, w₂, w₃, w₄, w₅, w₆, hrest, Option.bind_eq_bind, Option.bind_some,
    MyIOBuf.readableBytes_eq o₆, IntSize.bytes]
  split
  · cases MySKBuffer.create junk (u32 (left 0 .four length%2^32+2^32-MyMagicMessage.headLen)) with
    | none => rfl
    | some body =>
      rw [Option.bind_some, Option.bind_some]
      cases MyIOBuf.write junk body b₆.contents <;> rfl
  · rfl

/-- The decoder gives what the bytes spell, and its payload buffer has room for just the bytes
that are left, provided the length field counts them and the header is found as it was read. -/
theorem decode_spec (hb : b.Ordered) (hd : MyMagicMessage.decode b.contents = some msg)
    (hlen : msg.length.toNat = b.contents.length) (hintact : Intact left msg) :
    ∃ m, decode left junk b = some m ∧ m.Sized ∧ m.message = msg := by
  obtain ⟨rest, hord, hbytes, hpayload, hrun⟩ := decode_of_header junk hb hd
  have hlength : left 0 .four msg.length.toNat%2^32 = msg.length.toNat := hintact.length
  have hlt := msg.length.toNat_lt
  have hsized (payload : Option MySKBuffer) (hpay : ∀ p ∈ payload, p.Ordered)
      (hcount : (payload.map MySKBuffer.contents) = msg.payload) :
      (found left msg payload).Sized ∧ (found left msg payload).message = msg := by
    have hmsg := found_of_intact hintact payload
    rw [hcount] at hmsg
    refine ⟨⟨hpay, ?_⟩, hmsg⟩
    change (found left msg payload).message.length.toNat = _
    rw [hmsg, hlen, hbytes, hpayload]
    split
    · rfl
    · next h => rw [Nat.eq_zero_of_not_pos h]; rfl
  by_cases hempty : rest.contents.length > 0
  · rw [if_pos hempty] at hrun hpayload
    have hcap : u32 (left 0 .four msg.length.toNat%2^32+2^32-MyMagicMessage.headLen) =
        rest.contents.length := by
      rw [hlength, hlen, hbytes]
      unfold u32
      omega
    obtain ⟨b₀, hcreate, h₀⟩ := MyIOBuf.create_holds junk
      (show rest.contents.length < 2^32 by omega)
    obtain ⟨body, hwrite, hbody⟩ := h₀.write junk rest.contents (by simp)
    rw [hcap, hcreate, Option.bind_some, hwrite, Option.map_some] at hrun
    have hcont : body.contents = rest.contents := hbody.contents
    obtain ⟨hsize, hmsg⟩ := hsized (some body)
      (fun p hp => Option.some.inj hp ▸ hbody.ordered) (by rw [Option.map_some, hcont, hpayload])
    exact ⟨_, hrun, hsize, hmsg⟩
  · rw [if_neg hempty] at hrun hpayload
    obtain ⟨hsize, hmsg⟩ := hsized none (fun p hp => absurd hp (Option.not_mem_none p))
      hpayload.symm
    exact ⟨_, hrun, hsize, hmsg⟩

/-- What the decoder gives has the fields as they are found, and as payload what is left of the
bytes. -/
theorem found_of_decode {m : HeldMessage} (hb : b.Ordered)
    (hd : MyMagicMessage.decode b.contents = some msg) (hrun : decode left junk b = some m) :
    (∀ p ∈ m.payload, p.Ordered) ∧ ∃ payload, m = found left msg payload ∧
      m.message.payload = msg.payload := by
  obtain ⟨rest, hord, -, hpayload, hdecode⟩ := decode_of_header junk hb hd
  rw [hrun] at hdecode
  split at hdecode
  · next hempty =>
    obtain ⟨body, hbody, hm⟩ := Option.map_eq_some_iff.mp hdecode.symm
    obtain ⟨b₀, hcreate, hwrite⟩ := Option.bind_eq_some_iff.mp hbody
    obtain ⟨b₀', hcreate', h₀⟩ := MyIOBuf.create_holds junk
      (show u32 (left 0 .four msg.length.toNat%2^32+2^32-MyMagicMessage.headLen) < 2^32 from
        u32_lt _)
    obtain rfl := Option.some.inj (hcreate'.symm.trans hcreate)
    obtain ⟨hordered, -⟩ := MyIOBuf.write_cases h₀.ordered h₀.unread hwrite
    have hcont := MyIOBuf.contents_of_write_empty h₀.ordered h₀.unread h₀.contents hwrite
    subst hm
    refine ⟨fun p hp => Option.some.inj hp ▸ hordered, _, rfl, ?_⟩
    rw [hpayload, if_pos hempty, ← hcont]
    rfl
  · next hempty =>
    obtain rfl := Option.some.inj hdecode
    refine ⟨fun p hp => absurd hp (Option.not_mem_none p), _, rfl, ?_⟩
    rw [hpayload, if_neg hempty]
    rfl

/-- A message comes back from its bytes, an empty payload as none, and its length field is the
number of the bytes. -/
def RoundTrips (left : ℕ → IntSize → ℕ → ℕ) (junk junk' : ℕ → Byte) (m : HeldMessage) : Prop :=
  ∃ b, m.encode junk = some b ∧ b.contents.length = m.length.toNat ∧
    ∃ m', decode left junk' b = some m' ∧
      m'.message = { m.message with payload := m.message.payload.filter fun bs => !bs.isEmpty }

/-- Bytes come back from the message that they are decoded to, whatever stood in the block. -/
def ComesBack (left : ℕ → IntSize → ℕ → ℕ) (junk : ℕ → Byte) (b : MySKBuffer) : Prop :=
  ∃ m, decode left junk b = some m ∧
    ∀ junk', ∃ b', m.encode junk' = some b' ∧ b'.contents = b.contents

theorem intact_filter {payload : Option (List Byte)} :
    Intact left { msg with payload := payload } ↔ Intact left msg :=
  ⟨fun h => ⟨h.length, h.flag, h.version, h.isRequest, h.requestId, h.serverNumber⟩,
    fun h => ⟨h.length, h.flag, h.version, h.isRequest, h.requestId, h.serverNumber⟩⟩

theorem roundTrips_of_intact (junk' : ℕ → Byte) (hm : m.Sized) (h : Intact left m.message) :
    RoundTrips left junk junk' m := by
  obtain ⟨b, henc, hord, hcont⟩ := encode_of_fits junk hm.ordered hm.length_eq.ge
  have hlen : b.contents.length = m.length.toNat := by
    rw [hcont, MyMagicMessage.length_encode, hm.length_eq]
  have hdec := MyMagicMessage.decode_encode_filter m.message
  rw [← hcont] at hdec
  obtain ⟨m', hrun, -, hmsg⟩ := decode_spec junk' hord hdec hlen.symm (intact_filter.mpr h)
  exact ⟨b, henc, hlen, m', hrun, hmsg⟩

theorem intact_of_roundTrips {junk' : ℕ → Byte} (hm : m.Sized)
    (h : RoundTrips left junk junk' m) : Intact left m.message := by
  obtain ⟨b, henc, -, m', hrun, hmsg⟩ := h
  obtain ⟨b', henc', hord, hcont⟩ := encode_of_fits junk hm.ordered hm.length_eq.ge
  obtain rfl := Option.some.inj (henc'.symm.trans henc)
  have hdec := MyMagicMessage.decode_encode_filter m.message
  rw [← hcont] at hdec
  obtain ⟨-, payload, hfound, -⟩ := found_of_decode junk' hord hdec hrun
  rw [hfound] at hmsg
  exact intact_filter.mp (intact_of_found hmsg)

theorem comesBack_of_intact (hb : b.Ordered)
    (hfield : leNat (b.contents.take 4) = b.contents.length)
    (hdec : MyMagicMessage.decode b.contents = some msg) (h : Intact left msg) :
    ComesBack left junk b := by
  have hback := MyMagicMessage.encode_decode hdec
  have hlen : msg.length.toNat = b.contents.length := by
    rw [← MyMagicMessage.leNat_take_encode, hback, hfield]
  obtain ⟨m, hrun, hsized, hmsg⟩ := decode_spec junk hb hdec hlen h
  refine ⟨m, hrun, fun junk' => ?_⟩
  obtain ⟨b', henc, -, hcont⟩ := encode_of_fits junk' hsized.ordered hsized.length_eq.ge
  exact ⟨b', henc, by rw [hcont, hmsg, hback]⟩

theorem intact_of_comesBack (hb : b.Ordered)
    (hfield : leNat (b.contents.take 4) = b.contents.length)
    (hdec : MyMagicMessage.decode b.contents = some msg) (h : ComesBack left junk b) :
    Intact left msg := by
  obtain ⟨m, hrun, hall⟩ := h
  obtain ⟨hord, payload, hfound, hpayload⟩ := found_of_decode junk hb hdec hrun
  obtain ⟨b', henc, hcont⟩ := hall fun _ => 0
  have hback := MyMagicMessage.encode_decode hdec
  have hlen : b.contents.length =
      MyMagicMessage.headLen+(m.message.payload.getD []).length := by
    rw [← hback, MyMagicMessage.length_encode, hpayload]
  have hspells := (kept_of_encode hord henc).spells (by rw [hcont, hlen])
  rw [hcont, hfield, hlen] at hspells
  obtain ⟨b'', henc', -, hcont'⟩ := encode_of_fits (fun _ => 0) hord hspells
  obtain rfl := Option.some.inj (henc'.symm.trans henc)
  have hagain := MyMagicMessage.decode_encode_filter m.message
  rw [← hcont', hcont, hdec, Option.some.injEq] at hagain
  have hmsg : (found left msg payload).message =
      { msg with payload := (found left msg payload).message.payload } := by
    rw [← hfound, hagain]
  exact intact_of_found hmsg

/-- The codec round-trips exactly as long as the six integers that the decoder reads are still
found in the locals of their readers. A message comes back from its bytes with the same header
and payload, an empty payload as none; and bytes that begin with their own length come back from
the message. -/
theorem round_trips_iff (left : ℕ → IntSize → ℕ → ℕ) (junk junk' : ℕ → Byte) :
    (∀ m : HeldMessage, m.Sized → (RoundTrips left junk junk' m ↔ Intact left m.message)) ∧
    (∀ b : MySKBuffer, b.Ordered → MyMagicMessage.headLen ≤ b.contents.length →
      leNat (b.contents.take 4) = b.contents.length →
        (ComesBack left junk b ↔
          ∀ msg, MyMagicMessage.decode b.contents = some msg → Intact left msg)) := by
  constructor
  · exact fun m hm => ⟨intact_of_roundTrips junk hm, roundTrips_of_intact junk junk' hm⟩
  · intro b hb hhead hfield
    obtain ⟨msg, hdec⟩ := Option.isSome_iff_exists.mp (MyMagicMessage.isSome_decode_iff.mpr hhead)
    constructor
    · intro h msg' hdec'
      exact intact_of_comesBack junk hb hfield hdec' h
    · exact fun h => comesBack_of_intact junk hb hfield hdec (h msg hdec)

def threeBytes : HeldMessage where
  length := 23
  version := 1
  flag := 0
  isRequest := 1
  requestId := 7
  serverNumber := 2
  payload := some ⟨4,⟨4,0,3⟩,[1,2,3,0]⟩

theorem threeBytes_sized : threeBytes.Sized := by
  refine ⟨?_, by decide⟩
  intro b hb
  obtain rfl := Option.some.inj hb
  exact ⟨rfl, rfl, by decide, by decide, by decide⟩

def noPayload : MySKBuffer :=
  ⟨20,⟨20,0,20⟩,[20,0,0,0,1,1,0,1,7,0,0,0,0,0,0,0,0,0,0,0]⟩

/-- With locals that are found as they were left. -/
theorem round_trips_three_bytes :
    RoundTrips (fun _ _ v => v) (fun _ => 0) (fun _ => 1) threeBytes ∧
      ComesBack (fun _ _ v => v) (fun _ => 0) noPayload := by
  obtain ⟨hmessage, hbytes⟩ := round_trips_iff (fun _ _ v => v) (fun _ => 0) (fun _ => 1)
  have hintact (msg : MyMagicMessage) : Intact (fun _ _ v => v) msg :=
    ⟨Nat.mod_eq_of_lt msg.length.toNat_lt, Nat.mod_eq_of_lt msg.flag.toNat_lt,
      Nat.mod_eq_of_lt msg.version.toNat_lt, Nat.mod_eq_of_lt msg.isRequest.toUInt8.toNat_lt,
      Nat.mod_eq_of_lt msg.requestId.toNat_lt, Nat.mod_eq_of_lt msg.serverNumber.toNat_lt⟩
  refine ⟨(hmessage threeBytes threeBytes_sized).mpr (hintact _),
    (hbytes noPayload ?_ (by decide) (by decide)).mpr fun msg _ => hintact msg⟩
  exact ⟨rfl, rfl, by decide, by decide, by decide⟩

/-- The local of the fifth read is found as 0: the request id is lost. -/
theorem not_round_trips_lost_requestId :
    let left : ℕ → IntSize → ℕ → ℕ := fun k _ v => if k = 4 then 0 else v
    ¬RoundTrips left (fun _ => 0) (fun _ => 0) threeBytes ∧ threeBytes.requestId = 7 ∧
      ((threeBytes.encode fun _ => 0).bind (decode left fun _ => 0)).map requestId = some 0 := by
  intro left
  refine ⟨?_, rfl, by decide +kernel⟩
  intro h
  have hlost : Stays (left 4) .eight 7 :=
    (intact_of_roundTrips (fun _ => 0) threeBytes_sized h).requestId
  exact absurd hlost (by decide)

end HeldMessage
end EchoFrame
