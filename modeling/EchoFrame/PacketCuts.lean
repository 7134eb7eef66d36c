import EchoFrame.ServerFraming
import EchoFrame.ServerTermination
import EchoFrame.Verif.Framing

/-! The packets that the magic codec cuts off a buffer, and the loop of a
servant as such a cut. -/
namespace EchoFrame
open Verif
namespace MyMagicMessage

variable {buf rest : List Byte} {packets : List (List Byte)}

theorem four_lt_of_pos (h : 0 < getPacketLength buf) : 4 < buf.length := by
  by_contra hle
  rw [getPacketLength_of_le (Nat.le_of_not_lt hle)] at h
  exact absurd h (Nat.lt_irrefl 0)

theorem lengthStable : LengthStable getPacketLength := by
  intro buf more hpos
  have h4 := four_lt_of_pos hpos
  refine getPacketLength_congr ?_ h4 ?_
  · rw [List.length_append]
    omega
  · exact List.take_append_of_le_length (by omega)

theorem headLen_le_of_decode {m : MyMagicMessage} (h : decode buf = some m) :
    headLen ≤ buf.length := by
  simp only [decode, Option.bind_eq_bind, Option.bind_eq_some_iff, Prod.exists] at h
  obtain ⟨_, b₁, h₁, _, b₂, h₂, _, b₃, h₃, _, b₄, h₄, _, b₅, h₅, _, b₆, h₆, -⟩ := h
  have hl₁ := length_of_readLe h₁
  have hl₂ := length_of_readLe h₂
  have hl₃ := length_of_readLe h₃
  have hl₄ := length_of_readLe h₄
  have hl₅ := length_of_readLe h₅
  have hl₆ := length_of_readLe h₆
  unfold headLen
  omega

/-- A message is decoded exactly when all of its header is there. -/
theorem isSome_decode_iff : (decode buf).isSome ↔ headLen ≤ buf.length := by
  constructor
  · intro h
    obtain ⟨m, hm⟩ := Option.isSome_iff_exists.mp h
    exact headLen_le_of_decode hm
  · intro h
    unfold headLen at h
    simp only [decode, readLe, List.length_drop, Option.bind_eq_bind,
      show 4 ≤ buf.length by omega, show 1 ≤ buf.length-4 by omega,
      show 2 ≤ buf.length-4-1 by omega, show 1 ≤ buf.length-4-1-2 by omega,
      show 8 ≤ buf.length-4-1-2-1 by omega, show 4 ≤ buf.length-4-1-2-1-8 by omega,
      ↓reduceIte, Option.bind_some, Option.isSome_some]

end MyMagicMessage

namespace MyServant
open MyMagicMessage

variable {c c' : ReadChannel} {buf rest : List Byte} {packets : List (List Byte)}

theorem cuts_stream (frames : List Frame) (rest : List Byte) :
    Cuts getPacketLength (stream frames ++ rest) (frames.map Frame.bytes) rest := by
  induction frames with
  | nil => exact .nil rest
  | cons f fs ih =>
    have hpl := f.getPacketLength_append (stream fs ++ rest)
    have hhead := f.headLen_le
    unfold headLen at hhead
    have hcut : Cuts getPacketLength (f.bytes ++ (stream fs ++ rest))
        ((f.bytes ++ (stream fs ++ rest)).take (getPacketLength (f.bytes ++ (stream fs ++ rest))) ::
          fs.map Frame.bytes) rest := by
      refine .cons (by omega) ?_ ?_
      · rw [hpl, List.length_append]
        exact Nat.le_add_right _ _
      · rw [hpl, List.drop_left]
        exact ih
    rw [hpl, List.take_left] at hcut
    rwa [stream_cons, List.append_assoc]

/-- What the loop of a servant does: it cuts packets off the buffer, hands them
to the dispatcher, and is left when the buffer waits. -/
theorem cuts_of_handlesPackets (h : HandlesPackets c c') :
    ∃ packets, Cuts getPacketLength c.readBuf packets c'.readBuf ∧
      Waits getPacketLength c'.readBuf ∧
      c'.events = c.events ++ packets.map .handlePacket := by
  induction h with
  | stop h =>
    obtain ⟨rfl, hnil | hlt⟩ := waits_of_stop h
    · exact ⟨[], .nil _, .inl (hnil ▸ rfl), (List.append_nil _).symm⟩
    · exact ⟨[], .nil _, .inr hlt, (List.append_nil _).symm⟩
  | again h hrest ih =>
    obtain ⟨hpos, hle, rfl⟩ := packet_of_again h hrest
    obtain ⟨packets, hcut, hw, hev⟩ := ih
    refine ⟨_, .cons hpos hle hcut, hw, ?_⟩
    rw [hev, List.append_assoc]
    rfl

/-- The rest of a cut settles if the buffer does. -/
theorem settles_cut_iff (h : Cuts getPacketLength buf packets rest) :
    Settles buf ↔ Settles rest := by
  induction h with
  | nil => exact Iff.rfl
  | cons hpos hle _ ih =>
    rw [← ih]
    constructor
    · intro hs
      cases hs with
      | done => exact absurd hpos (Nat.lt_irrefl 0)
      | incomplete hlt => omega
      | packet _ _ hrest => exact hrest
    · exact fun hs => .packet hpos hle hs

end MyServant
end EchoFrame
