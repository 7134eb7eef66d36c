import EchoFrame.MyIOBuf

/-! What a read of a `MyIOBuf` leaves behind when it throws. -/
namespace EchoFrame
open Verif

/-- `read<T>()` and `peek<T>()` with `sizeof(T)`, and the reads of a given length. -/
inductive ReadOp
  | read (size : ℕ)
  | readPointer (length : ℕ)
  | readString (length : ℕ)
  | peek (size : ℕ)
deriving DecidableEq, Repr

namespace ReadOp

def requested : ReadOp → ℕ
  | read n | readPointer n | readString n | peek n => n

def isPeek : ReadOp → Bool
  | peek _ => true
  | read _ | readPointer _ | readString _ => false

end ReadOp

namespace MyIOBuf

/-- The common end of the reads: they throw on a null pointer or when fewer bytes were
handed out, and copy what they asked for otherwise. An exception is `none` for the bytes. -/
def copyOut (b : MySKBuffer) (buf : Option ℕ) (tmp length : ℕ) :
    Option (MySKBuffer × Option (List Byte)) :=
  match buf with
  | none => some (b,none)
  | some off =>
    if tmp < length then some (b,none)
    else do
      let bytes ← load b.data off length
      some (b,some bytes)

/-- `read<T>()`, `read(pointer,length)` and `read<std::string>(length)` take the bytes the same
way. `none` is a failed assertion or an access outside the block. -/
def readBytes (length : ℕ) (b : MySKBuffer) : Option (MySKBuffer × Option (List Byte)) := do
  let (b, buf, tmp) ← b.getReadableAndMove length
  copyOut b buf tmp length

def peekBytes (length : ℕ) (b : MySKBuffer) : Option (MySKBuffer × Option (List Byte)) := do
  let (buf, tmp) ← b.readable length
  copyOut b buf tmp length

def perform : ReadOp → MySKBuffer → Option (MySKBuffer × Option (List Byte))
  | .read size => readBytes size
  | .readPointer length => readBytes length
  | .readString length => readBytes length
  | .peek size => peekBytes size

/-- Where the operation throws for want of bytes, it leaves the bytes and their number as
they were. -/
def LeavesIntact (op : ReadOp) (b : MySKBuffer) : Prop :=
  ∀ b', perform op b = some (b',none) →
    (∃ available, b.getReadableLength = some available ∧ available < op.requested) →
      b'.getReadableLength = b.getReadableLength ∧ readableBytes b' = readableBytes b

variable {b b' : MySKBuffer} {length : ℕ}

/-- The reads of values are these reads. -/
theorem read_eq (k : ℕ) (b : MySKBuffer) : read k b =
    (readBytes k b).bind fun r => r.2.map fun bytes => (leNat bytes,r.1) := by
  unfold read readBytes
  cases b.getReadableAndMove k with
  | none => rfl
  | some r =>
    obtain ⟨b, buf, tmp⟩ := r
    cases buf with
    | none => rfl
    | some off =>
      simp only [Option.bind_eq_bind, Option.bind_some, copyOut]
      split
      · rfl
      · cases load b.data off k with
        | none => rfl
        | some bytes => rfl

theorem copyOut_throws {buf : Option ℕ} {tmp : ℕ} (h : copyOut b buf tmp length = some (b',none)) :
    b' = b := by
  cases buf with
  | none =>
    cases h
    rfl
  | some off =>
    rw [copyOut] at h
    split at h
    · cases h
      rfl
    · obtain ⟨bytes, -, h⟩ := Option.bind_eq_some_iff.mp h
      cases h

theorem peekBytes_throws (h : peekBytes length b = some (b',none)) : b' = b := by
  obtain ⟨⟨buf, tmp⟩, -, h⟩ := Option.bind_eq_some_iff.mp h
  exact copyOut_throws h

/-- A read that falls short hands out everything there was. -/
theorem readBytes_short {available : ℕ} (hb : b.getReadableLength = some available)
    (hshort : available < length) :
    readBytes length b = some (if available = 0 then b else b.moveReadable available,none) := by
  unfold readBytes MySKBuffer.getReadableAndMove
  rw [hb]
  by_cases hzero : available = 0
  · simp only [hzero, Option.bind_eq_bind, Option.bind_some, if_true, copyOut]
  · simp only [hzero, hshort, Option.bind_eq_bind, Option.bind_some, if_false, if_true, copyOut]

/-- After that nothing is readable. -/
theorem getReadableLength_moveReadable {available : ℕ} (hw : b.head.writeable < 2^32)
    (hb : b.getReadableLength = some available) :
    (b.moveReadable available).getReadableLength = some 0 := by
  obtain ⟨hle, hsub⟩ := Option.ite_none_right_eq_some.mp hb
  have hmoved : (b.moveReadable available).head.readable = b.head.writeable := by
    have hsum : b.head.readable+available = b.head.writeable := by
      have hsub := Option.some.inj hsub
      omega
    rw [MySKBuffer.moveReadable, hsum]
    exact u32_of_lt hw
  have hkept : (b.moveReadable available).head.writeable = b.head.writeable := rfl
  rw [MySKBuffer.getReadableLength, hmoved, hkept, if_pos (Nat.le_refl _), Nat.sub_self]

theorem readBytes_intact_iff (hw : b.head.writeable < 2^32) (length : ℕ) :
    (∀ b', readBytes length b = some (b',none) →
      (∃ available, b.getReadableLength = some available ∧ available < length) →
        b'.getReadableLength = b.getReadableLength ∧ readableBytes b' = readableBytes b) ↔
      ∀ available, b.getReadableLength = some available → available = 0 ∨ length ≤ available := by
  constructor
  · intro h available hb
    by_contra hne
    have hpos : available ≠ 0 := fun hzero => hne (.inl hzero)
    have hshort : available < length := Nat.lt_of_not_le fun hle => hne (.inr hle)
    have hread := readBytes_short hb hshort
    rw [if_neg hpos] at hread
    obtain ⟨hlen, -⟩ := h _ hread ⟨available, hb, hshort⟩
    rw [getReadableLength_moveReadable hw hb, hb] at hlen
    exact hpos (Option.some.inj hlen).symm
  · rintro h b' hread ⟨available, hb, hshort⟩
    have hzero : available = 0 := (h available hb).resolve_right (Nat.not_le.mpr hshort)
    rw [readBytes_short hb hshort, if_pos hzero] at hread
    cases hread
    exact ⟨rfl, rfl⟩

/-- A read that throws leaves the buffer as it was exactly when it peeks, or finds nothing or
enough. -/
theorem leavesIntact_iff (hw : b.head.writeable < 2^32) (op : ReadOp) :
    LeavesIntact op b ↔ op.isPeek = true ∨
      ∀ available, b.getReadableLength = some available → available = 0 ∨ op.requested ≤ available := by
  cases op with
  | peek size =>
    refine iff_of_true ?_ (.inl rfl)
    intro b' h _
    rw [peekBytes_throws h]
    exact ⟨rfl, rfl⟩
  | read size =>
    rw [or_iff_right (show ¬(ReadOp.read size).isPeek = true from Bool.false_ne_true)]
    exact readBytes_intact_iff hw size
  | readPointer length =>
    rw [or_iff_right (show ¬(ReadOp.readPointer length).isPeek = true from Bool.false_ne_true)]
    exact readBytes_intact_iff hw length
  | readString length =>
    rw [or_iff_right (show ¬(ReadOp.readString length).isPeek = true from Bool.false_ne_true)]
    exact readBytes_intact_iff hw length

/-- A peek for four bytes where there are three. -/
theorem leavesIntact_peek :
    LeavesIntact (.peek 4) ⟨8,⟨8,0,3⟩,[1,2,3,0,0,0,0,0]⟩ :=
  (leavesIntact_iff (by decide) (.peek 4)).mpr (.inl rfl)

/-- A read of four bytes where there are three takes the three. -/
theorem not_leavesIntact_read :
    perform (.read 4) ⟨8,⟨8,0,3⟩,[1,2,3,0,0,0,0,0]⟩ = some (⟨8,⟨8,3,3⟩,[1,2,3,0,0,0,0,0]⟩,none) ∧
      ¬LeavesIntact (.read 4) ⟨8,⟨8,0,3⟩,[1,2,3,0,0,0,0,0]⟩ := by
  have hread : perform (.read 4) ⟨8,⟨8,0,3⟩,[1,2,3,0,0,0,0,0]⟩ =
      some (⟨8,⟨8,3,3⟩,[1,2,3,0,0,0,0,0]⟩,none) := by decide
  refine ⟨hread, ?_⟩
  intro h
  exact absurd (h _ hread ⟨3, rfl, by decide⟩).1 (by decide)

end MyIOBuf
end EchoFrame
