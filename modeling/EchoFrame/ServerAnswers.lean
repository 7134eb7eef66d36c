import EchoFrame.MagicDispatch
import EchoFrame.PacketCuts

/-! The answers of a server, as the client's parser sees them. -/
namespace EchoFrame
open Verif MyMagicMessage

/-- The bytes are one complete frame that answers the request with this payload. -/
structure IsAnswer (req : MyMagicMessage) (payload bytes : List Byte) : Prop where
  complete : isPacketComplete bytes = .kPacketStatusComplete
  whole : getPacketLength bytes = bytes.length
  decoded : ∃ rsp, decode bytes = some rsp ∧ rsp.isRequest = 0 ∧ rsp.requestId = req.requestId ∧
    rsp.version = req.version ∧ rsp.serverNumber = req.serverNumber ∧
    rsp.isHeartbeat = req.isHeartbeat ∧ rsp.payload.getD [] = payload

/-- The request is handled, and answered if an answer is wanted. -/
def Answered (req : MyMagicMessage) (wanted : Bool) (payload : List Byte)
    (x : Except Fault Answer) : Prop :=
  ∃ a, x = .ok a ∧ a.rv = .kHandleResultSuccess ∧ a.closed = false ∧
    if wanted then ∃ bytes, a.sent = [bytes] ∧ IsAnswer req payload bytes else a.sent = []

variable {req m : MyMagicMessage} {wanted needResponse : Bool} {payload : List Byte}

/-- A message with the header of an answer is one exactly when its length field is right. -/
theorem isAnswer_encode_iff (req rsp : MyMagicMessage) (hreq : rsp.isRequest = 0)
    (hid : rsp.requestId = req.requestId) (hversion : rsp.version = req.version)
    (hserver : rsp.serverNumber = req.serverNumber) (hflag : rsp.isHeartbeat = req.isHeartbeat) :
    IsAnswer req (rsp.payload.getD []) rsp.encode ↔
      rsp.length.toNat = headLen+(rsp.payload.getD []).length := by
  constructor
  · intro h
    have hlen := length_encode rsp
    have hwhole := h.whole
    rw [getPacketLength, if_neg (by unfold headLen at hlen; omega), leNat_take_encode, hlen] at hwhole
    exact hwhole
  · intro hlen
    have hwhole := getPacketLength_encode rsp hlen
    refine ⟨if_pos hwhole.le, hwhole, _, decode_encode_filter rsp, hreq, hid, hversion, hserver,
      hflag, ?_⟩
    cases rsp.payload with
    | none => rfl
    | some bytes => cases bytes <;> rfl

/-- The length field of a frame counts the payload it is decoded to. -/
theorem Frame.length_of_decode (f : Frame) (hm : decode f.bytes = some m) :
    m.length.toNat = headLen+(m.payload.getD []).length := by
  have hback := encode_decode hm
  have hle := f.headLen_le
  have hfield := f.length_field
  unfold headLen at hle
  rw [getPacketLength, if_neg (by omega), ← hback, leNat_take_encode, length_encode] at hfield
  exact hfield

/-- The length field of a response wraps at 2^32. -/
theorem rspMsg_length_iff (req : MyMagicMessage) (rspBuf : Option (List Byte)) :
    (MyMagicDispatcher.rspMsg req rspBuf).length.toNat = headLen+(rspBuf.getD []).length ↔
      headLen+(rspBuf.getD []).length < 2^32 := by
  cases rspBuf with
  | none => exact ⟨fun _ => by decide, fun _ => rfl⟩
  | some bytes =>
    change (UInt32.ofNat (headLen+bytes.length)).toNat = headLen+bytes.length ↔ _
    rw [UInt32.toNat_ofNat', Option.getD_some]
    constructor
    · intro h
      rw [← h]
      exact Nat.mod_lt _ (by norm_num)
    · exact Nat.mod_eq_of_lt

theorem isAnswer_rspMsg_iff (hb : req.isHeartbeat = false) (rspBuf : Option (List Byte)) :
    IsAnswer req (rspBuf.getD []) (MyMagicDispatcher.rspMsg req rspBuf).encode ↔
      headLen+(rspBuf.getD []).length < 2^32 := by
  rw [← rspMsg_length_iff req]
  exact isAnswer_encode_iff req (MyMagicDispatcher.rspMsg req rspBuf) rfl rfl rfl rfl hb.symm

def answerWith (wanted : Bool) (bytes : List Byte) : Answer :=
  ⟨.kHandleResultSuccess,if wanted then [bytes] else [],false⟩

theorem answered_answerWith_iff {bytes : List Byte} :
    Answered req wanted payload (.ok (answerWith wanted bytes)) ↔
      wanted = false ∨ IsAnswer req payload bytes := by
  cases wanted with
  | false => exact ⟨fun _ => Or.inl rfl, fun _ => ⟨_, rfl, rfl, rfl, rfl⟩⟩
  | true =>
    constructor
    · rintro ⟨_, ha, -, -, bytes', hsent, hanswer⟩
      obtain rfl := Except.ok.inj ha
      obtain rfl : bytes = bytes' := List.singleton_inj.mp hsent
      exact Or.inr hanswer
    · rintro (h | h)
      · cases h
      · exact ⟨_, rfl, rfl, rfl, bytes, rfl, h⟩

theorem length_encode_pos (m : MyMagicMessage) : m.encode.length > 0 := by
  rw [length_encode]
  exact Nat.add_pos_left (by decide) _

/-- A message whose length field counts its payload is encoded. -/
theorem encoded_of_length (hlen : m.length.toNat = headLen+(m.payload.getD []).length) :
    m.encoded = .ok m.encode := by
  have hlt := m.length.toNat_lt
  have hord : ∀ b ∈ (HeldMessage.ofMessage m).payload, b.Ordered := by
    intro b hb
    obtain ⟨bytes, hbytes, rfl⟩ := Option.map_eq_some_iff.mp hb
    rw [hbytes, Option.getD_some] at hlen
    exact HeldMessage.ordered_filled (by omega)
  obtain ⟨b, hencode, -, hcont⟩ := HeldMessage.encode_of_fits (fun _ => 0) hord
    (by rw [HeldMessage.message_ofMessage]; exact hlen.ge)
  rw [HeldMessage.message_ofMessage] at hcont
  rw [encoded, hencode]
  exact congrArg Except.ok hcont

/-- The encoder fails for a response whose length field has wrapped. -/
theorem encoded_rspMsg_of_long (req : MyMagicMessage) {rspBuf : Option (List Byte)}
    (hlong : 2^32 ≤ headLen+(rspBuf.getD []).length) :
    (MyMagicDispatcher.rspMsg req rspBuf).encoded = .error .outOfBounds := by
  cases rspBuf with
  | none => exact absurd hlong (by decide)
  | some bytes =>
    have hread : ∀ b ∈ (HeldMessage.ofMessage (MyMagicDispatcher.rspMsg req (some bytes))).payload,
        MyIOBuf.readableBytes b = some b.contents := by
      intro b hb
      obtain rfl := Option.some.inj hb
      exact HeldMessage.readableBytes_filled bytes
    have hnone := HeldMessage.encode_of_wrapped (fun _ => 0) hread
      (by rw [HeldMessage.message_ofMessage]; exact UInt32.toNat_ofNat')
      (by rw [HeldMessage.message_ofMessage]; exact hlong)
    rw [encoded, hnone]

namespace MyDispatcher

variable {dispatchPayload : DispatchPayload} {bytes : List Byte} {out : Dispatched}

/-- What a dispatch that succeeds leaves behind is sent if a response is wanted. -/
theorem handlePacket_success {dispatchPacket : List Byte → Bool → Except Fault Dispatched}
    {response : Option (List Byte)} {rsp : List Byte}
    (hdispatch : dispatchPacket bytes needResponse = .ok ⟨.kHandleResultSuccess,response,wanted⟩)
    (hrsp : wanted = true → response = some rsp) (hpos : rsp.length > 0) :
    handlePacket dispatchPacket bytes needResponse = .ok (answerWith wanted rsp) := by
  unfold handlePacket
  rw [hdispatch]
  cases wanted with
  | false => rfl
  | true =>
    rw [hrsp rfl]
    change Except.ok (Answer.mk _ (if _ then _ else _) _) = _
    rw [if_pos hpos]
    rfl

theorem handlePacket_heartbeat (hm : decode bytes = some m) (hb : m.isHeartbeat = true)
    (hlen : m.length.toNat = headLen+(m.payload.getD []).length) :
    handlePacket (MyMagicDispatcher.dispatchPacket dispatchPayload) bytes needResponse =
      .ok (answerWith needResponse { m with isRequest := 0 }.encode) := by
  have hdispatch : MyMagicDispatcher.dispatchPacket dispatchPayload bytes needResponse =
      .ok ⟨.kHandleResultSuccess,some { m with isRequest := 0 }.encode,needResponse⟩ := by
    have hencoded := encoded_of_length (m := { m with isRequest := 0 }) hlen
    simp only [MyMagicDispatcher.dispatchPacket, hm, hb, hencoded, ↓reduceIte]
    rfl
  exact handlePacket_success hdispatch (fun _ => rfl) (length_encode_pos _)

theorem handlePacket_response (hm : decode bytes = some m) (hb : m.isHeartbeat = false)
    (hout : dispatchPayload m.payload needResponse = .ok out)
    (hrv : out.rv = .kHandleResultSuccess)
    (hfits : out.needResponse = true → headLen+(out.response.getD []).length < 2^32) :
    handlePacket (MyMagicDispatcher.dispatchPacket dispatchPayload) bytes needResponse =
      .ok (answerWith out.needResponse (MyMagicDispatcher.rspMsg m out.response).encode) := by
  obtain ⟨rv, response, wanted⟩ := out
  obtain rfl : rv = .kHandleResultSuccess := hrv
  have hdispatch : MyMagicDispatcher.dispatchPacket dispatchPayload bytes needResponse =
      .ok ⟨.kHandleResultSuccess,
        if wanted then some (MyMagicDispatcher.rspMsg m response).encode else none,wanted⟩ := by
    simp only [MyMagicDispatcher.dispatchPacket, hm, hb, hout]
    cases wanted with
    | false => rfl
    | true =>
      have hencoded := encoded_of_length ((rspMsg_length_iff m response).mpr (hfits rfl))
      change (do
        let response ← (MyMagicDispatcher.rspMsg m response).encoded
        .ok (Dispatched.mk _ (some response) _)) = _
      rw [hencoded]
      rfl
  exact handlePacket_success hdispatch (fun hwanted => if_pos hwanted) (length_encode_pos _)

/-- Nothing is sent of a response that is too long for a frame. -/
theorem handlePacket_long (hm : decode bytes = some m) (hb : m.isHeartbeat = false)
    (hout : dispatchPayload m.payload needResponse = .ok out)
    (hrv : out.rv = .kHandleResultSuccess) (hwanted : out.needResponse = true)
    (hlong : 2^32 ≤ headLen+(out.response.getD []).length) :
    handlePacket (MyMagicDispatcher.dispatchPacket dispatchPayload) bytes needResponse =
      .error .outOfBounds := by
  obtain ⟨rv, response, wanted⟩ := out
  obtain rfl : rv = .kHandleResultSuccess := hrv
  obtain rfl : wanted = true := hwanted
  have hdispatch : MyMagicDispatcher.dispatchPacket dispatchPayload bytes needResponse =
      .error .outOfBounds := by
    simp only [MyMagicDispatcher.dispatchPacket, hm, hb, hout]
    change (do
      let response ← (MyMagicDispatcher.rspMsg m response).encoded
      .ok (Dispatched.mk _ (some response) _)) = _
    rw [encoded_rspMsg_of_long m hlong]
    rfl
  unfold handlePacket
  rw [hdispatch]
  rfl

/-- Whatever a dispatcher answers, the pointer to its answer is not null. A request
is answered with one well-formed frame exactly when the payload of the response
leaves its length field within 32 bits. -/
theorem answers_correlated_iff (dispatchPayload : DispatchPayload) (frame : Frame)
    {m : MyMagicMessage} {out : Dispatched} (needResponse : Bool)
    (hm : decode frame.bytes = some m)
    (hout : m.isHeartbeat = false → dispatchPayload m.payload needResponse = .ok out)
    (hrv : out.rv = .kHandleResultSuccess) :
    NullFree (handlePacket (MyMagicDispatcher.dispatchPacket dispatchPayload) frame.bytes
        needResponse) ∧
      (Answered m (if m.isHeartbeat then needResponse else out.needResponse)
          (if m.isHeartbeat then m.payload.getD [] else out.response.getD [])
          (handlePacket (MyMagicDispatcher.dispatchPacket dispatchPayload) frame.bytes
            needResponse) ↔
        m.isHeartbeat ∨ out.needResponse = false ∨ headLen+(out.response.getD []).length < 2^32) := by
  have hlen := frame.length_of_decode hm
  cases hb : m.isHeartbeat with
  | true =>
    rw [handlePacket_heartbeat hm hb hlen]
    refine ⟨nullFree_ok _, ?_⟩
    simp only [if_true, true_or, iff_true]
    apply answered_answerWith_iff.mpr
    exact Or.inr ((isAnswer_encode_iff m { m with isRequest := 0 } rfl rfl rfl rfl rfl).mpr hlen)
  | false =>
    by_cases hfits : out.needResponse = true → headLen+(out.response.getD []).length < 2^32
    · rw [handlePacket_response hm hb (hout hb) hrv hfits]
      refine ⟨nullFree_ok _, ?_⟩
      simp only [Bool.false_eq_true, if_false, false_or]
      rw [answered_answerWith_iff, isAnswer_rspMsg_iff hb]
    · push Not at hfits
      obtain ⟨hwanted, hlong⟩ := hfits
      rw [handlePacket_long hm hb (hout hb) hrv hwanted hlong]
      refine ⟨Fault.noConfusion ∘ Except.error.inj, ?_⟩
      simp only [Bool.false_eq_true, if_false, false_or]
      refine iff_of_false ?_ ?_
      · rintro ⟨_, ha, -⟩
        cases ha
      · rintro (hquiet | hshort)
        · cases hwanted.symm.trans hquiet
        · omega

def plainRequest : MyMagicMessage where
  length := 20
  version := 1
  flag := 0
  isRequest := 1
  requestId := 7
  serverNumber := 2
  payload := none

def plainFrame : Frame := plainRequest.frame rfl

theorem answers_correlated_two_bytes :
    Answered plainRequest true [8,9]
      (handlePacket (MyMagicDispatcher.dispatchPacket fun _ needResponse =>
        .ok ⟨.kHandleResultSuccess,some [8,9],needResponse⟩) plainFrame.bytes true) :=
  (answers_correlated_iff (fun _ needResponse =>
    .ok ⟨.kHandleResultSuccess,some [8,9],needResponse⟩) plainFrame true (by decide)
    (fun _ => rfl) rfl).2.mpr (by decide)

theorem not_answered_of_long {bs : List Byte} (hlong : 2^32 ≤ headLen+bs.length) :
    handlePacket (MyMagicDispatcher.dispatchPacket fun _ needResponse =>
        .ok ⟨.kHandleResultSuccess,some bs,needResponse⟩) plainFrame.bytes true =
        .error .outOfBounds ∧
      ¬Answered plainRequest true bs
        (handlePacket (MyMagicDispatcher.dispatchPacket fun _ needResponse =>
          .ok ⟨.kHandleResultSuccess,some bs,needResponse⟩) plainFrame.bytes true) := by
  have hm : decode plainFrame.bytes = some plainRequest := by decide
  have herror : handlePacket (MyMagicDispatcher.dispatchPacket fun _ needResponse =>
      .ok ⟨.kHandleResultSuccess,some bs,needResponse⟩) plainFrame.bytes true =
      .error .outOfBounds := handlePacket_long hm rfl rfl rfl rfl hlong
  refine ⟨herror, ?_⟩
  rw [herror]
  rintro ⟨_, ha, -⟩
  cases ha

/-- The length field of a response of 2^32-20 bytes wraps to 0, and the encoder does not come
to its end. -/
theorem long_response_not_sent :
    handlePacket (MyMagicDispatcher.dispatchPacket fun _ needResponse =>
        .ok ⟨.kHandleResultSuccess,some (List.replicate (2^32-20) 0),needResponse⟩)
        plainFrame.bytes true = .error .outOfBounds ∧
      ¬Answered plainRequest true (List.replicate (2^32-20) 0)
        (handlePacket (MyMagicDispatcher.dispatchPacket fun _ needResponse =>
          .ok ⟨.kHandleResultSuccess,some (List.replicate (2^32-20) 0),needResponse⟩)
          plainFrame.bytes true) := by
  apply not_answered_of_long
  rw [List.length_replicate]
  decide

end MyDispatcher
end EchoFrame
