import EchoFrame.SKBufferRoom
import EchoFrame.Verif.Run

/-! The operations of the buffer with the stores and cursor moves of their
callers, and what each of them does to an ordered buffer. -/
namespace EchoFrame
open Verif

/-- The operations, each with the stores and the cursor moves of its caller. -/
inductive BufferOp
  | getWriteableAndMove (bytes : List Byte)
  | writeable (length : ℕ) (bytes : List Byte) (moved : ℕ)
  | getReadableAndMove (length : ℕ)
  | readable (length moved : ℕ)
  | reset
deriving DecidableEq, Repr

def BufferOp.request : BufferOp → Option ℕ
  | getWriteableAndMove bytes => some bytes.length
  | writeable length _ _ => some length
  | _ => none

def BufferOp.effect : BufferOp → List Byte → List Byte
  | getWriteableAndMove bytes, c => c ++ bytes
  | writeable _ bytes moved, c => c ++ bytes.take moved
  | getReadableAndMove length, c => c.drop length
  | readable _ moved, c => c.drop moved
  | reset, _ => []

/-- The write cursor is moved over bytes that were stored. -/
def BufferOp.StoresMoved : BufferOp → Prop
  | writeable _ bytes moved => moved ≤ bytes.length
  | _ => True

instance : ∀ op : BufferOp, Decidable op.StoresMoved
  | .getWriteableAndMove _ => inferInstanceAs (Decidable True)
  | .writeable _ bytes moved => inferInstanceAs (Decidable (moved ≤ bytes.length))
  | .getReadableAndMove _ => inferInstanceAs (Decidable True)
  | .readable .. => inferInstanceAs (Decidable True)
  | .reset => inferInstanceAs (Decidable True)

namespace MySKBuffer

/-- One operation, with what `malloc` would leave in a block if it allocates. -/
def step (b : MySKBuffer) : BufferOp × (ℕ → Byte) → Option MySKBuffer
  | (.getWriteableAndMove bytes, junk) => do
    let (b, off) ← b.getWriteableAndMove junk bytes.length
    b.put off bytes
  | (.writeable length bytes moved, junk) => do
    let (b, off) ← b.writeable junk length
    let b ← b.put off bytes
    some (b.moveWriteable moved)
  | (.getReadableAndMove length, _) => do
    let (b, _) ← b.getReadableAndMove length
    some b
  | (.readable length moved, _) => do
    -- only its assertion matters, the pointer is the caller's
    let _ ← b.readable length
    some (b.moveReadable moved)
  | (.reset, _) => b.reset

/-- The caller stays within `uint32_t` and within the lengths it was given. -/
def Respects (b : MySKBuffer) : BufferOp × (ℕ → Byte) → Prop
  | (.getWriteableAndMove bytes, _) => bytes.length < 2^32
  | (.writeable length bytes moved, _) =>
    length < 2^32 ∧ bytes.length ≤ length ∧ moved ≤ length
  | (.getReadableAndMove length, _) => length < 2^32
  | (.readable length moved, _) => ∃ r ∈ b.readable length, moved ≤ r.2
  | (.reset, _) => True

instance (b : MySKBuffer) : ∀ a, Decidable (Respects b a)
  | (.getWriteableAndMove _, _) => inferInstanceAs (Decidable (_ < _))
  | (.writeable .., _) => inferInstanceAs (Decidable (_ ∧ _ ∧ _))
  | (.getReadableAndMove _, _) => inferInstanceAs (Decidable (_ < _))
  | (.readable length _, _) => inferInstanceAs (Decidable (∃ r ∈ b.readable length, _))
  | (.reset, _) => inferInstanceAs (Decidable True)

/-- Every region asked for is one the buffer has room for. -/
def AsksForRoom (b : MySKBuffer) (a : BufferOp × (ℕ → Byte)) : Prop :=
  ∀ length ∈ a.1.request, Roomy b length

instance (b : MySKBuffer) (a : BufferOp × (ℕ → Byte)) : Decidable (AsksForRoom b a) :=
  inferInstanceAs (Decidable (∀ length ∈ _, _))

/-- The growth copy, if the operation makes the block grow, reaches every unread byte. -/
def KeepsUnread (b : MySKBuffer) (a : BufferOp × (ℕ → Byte)) : Prop :=
  ∀ length ∈ a.1.request, CopyReaches b length

instance (b : MySKBuffer) (a : BufferOp × (ℕ → Byte)) : Decidable (KeepsUnread b a) :=
  inferInstanceAs (Decidable (∀ length ∈ _, _))

variable {b : MySKBuffer}

theorem lt_of_request {a : BufferOp × (ℕ → Byte)} {length : ℕ} (hresp : Respects b a)
    (hl : a.1.request = some length) : length < 2^32 := by
  obtain ⟨op, _⟩ := a
  cases op <;> cases hl
  · exact hresp
  · exact hresp.1

/-- Bytes stored in a region that fits, and a move over some of them. -/
theorem fill_spec (hb : b.Ordered) {length moved : ℕ} {bytes : List Byte}
    (hfit : b.head.writeable+length ≤ b.head.capacity) (hbytes : bytes.length ≤ length)
    (hmoved : moved ≤ length) :
    ∃ b', b.put b.head.writeable bytes = some b' ∧ b'.head = b.head ∧
      (b'.moveWriteable moved).Ordered ∧
      (moved ≤ bytes.length →
        (b'.moveWriteable moved).contents = b.contents ++ bytes.take moved) := by
  have hd := hb.data_len
  have hr := hb.readable_le
  have hc := hb.capacity_lt
  obtain ⟨data, hst⟩ : ∃ data, store b.data b.head.writeable bytes = some data :=
    ⟨_, store_eq_some (by omega)⟩
  have hwm : u32 (b.head.writeable+moved) = b.head.writeable+moved := u32_of_lt (by omega)
  refine ⟨{ b with data := data }, by rw [put, hst, Option.bind_eq_bind, Option.bind_some],
    rfl, ?_, ?_⟩
  · refine ⟨(length_store hst).trans hd, hb.min_eq, ?_, ?_, hc⟩
    · simp only [moveWriteable, hwm]
      omega
    · simp only [moveWriteable, hwm]
      omega
  · intro hle
    have hwin := drop_take_store hst b.head.readable hr
    have hcl := length_contents hb
    change _ = b.contents ++ bytes at hwin
    have hcut := congrArg (List.take (b.head.writeable-b.head.readable+moved)) hwin
    have hall : b.contents.take (b.head.writeable-b.head.readable+moved) = b.contents :=
      List.take_of_length_le (by omega)
    rw [List.take_take, Nat.min_eq_left (by omega), List.take_append, hall, hcl,
      Nat.add_sub_cancel_left] at hcut
    simp only [contents, moveWriteable, hwm]
    rw [show b.head.writeable+moved-b.head.readable =
      b.head.writeable-b.head.readable+moved by omega]
    exact hcut

/-- A move of the read cursor over bytes that are there. -/
theorem moveReadable_spec (hb : b.Ordered) {length : ℕ}
    (hle : length ≤ b.head.writeable-b.head.readable) :
    (b.moveReadable length).Ordered ∧
      (b.moveReadable length).contents = b.contents.drop length := by
  have hr := hb.readable_le
  have hw := hb.writeable_lt
  have hrm : u32 (b.head.readable+length) = b.head.readable+length := u32_of_lt (by omega)
  refine ⟨⟨hb.data_len, hb.min_eq, ?_, hb.writeable_le, hb.capacity_lt⟩, ?_⟩
  · simp only [moveReadable, hrm]
    omega
  · simp only [contents, moveReadable, hrm]
    rw [List.drop_take, List.drop_drop, Nat.sub_add_eq]

/-- As many bytes as were asked for, or all that are there. -/
theorem getReadableAndMove_spec (hb : b.Ordered) (length : ℕ) :
    ∃ b' off len, b.getReadableAndMove length = some (b',off,len) ∧ b'.Ordered ∧
      b'.contents = b.contents.drop length := by
  have hlen := length_contents hb
  have hrl := getReadableLength_eq hb
  by_cases h0 : b.head.writeable-b.head.readable = 0
  · refine ⟨b, none, 0, ?_, hb, ?_⟩
    · simp only [getReadableAndMove, hrl, h0, ↓reduceIte, Option.bind_eq_bind, Option.bind_some]
    · have hnil : b.contents = [] := List.length_eq_zero_iff.mp (hlen.trans h0)
      rw [hnil, List.drop_nil]
  · by_cases hbig : b.head.writeable-b.head.readable < length
    · obtain ⟨hord, hcont⟩ := moveReadable_spec hb le_rfl
      refine ⟨_, some b.head.readable, b.head.writeable-b.head.readable, ?_, hord, ?_⟩
      · simp only [getReadableAndMove, hrl, h0, hbig, ↓reduceIte, Option.bind_eq_bind,
          Option.bind_some]
      · rw [hcont, ← hlen, List.drop_length]
        exact (List.drop_of_length_le (by omega)).symm
    · obtain ⟨hord, hcont⟩ := moveReadable_spec hb (Nat.le_of_not_lt hbig)
      refine ⟨_, some b.head.readable, length, ?_, hord, hcont⟩
      simp only [getReadableAndMove, hrl, h0, hbig, ↓reduceIte, Option.bind_eq_bind,
        Option.bind_some]

theorem reset_spec (hb : b.Ordered) :
    ∃ b', b.reset = some b' ∧ b'.Ordered ∧ b'.contents = [] := by
  obtain ⟨data, hst⟩ : ∃ data, store b.data 0 (List.replicate b.head.capacity 0) = some data :=
    ⟨_, store_zero (by rw [List.length_replicate, hb.data_len])⟩
  refine ⟨{ b with head.readable := 0, head.writeable := 0, data := data }, ?_, ?_, rfl⟩
  · rw [reset, hst, Option.bind_eq_bind, Option.bind_some]
  · exact ⟨(length_store hst).trans hb.data_len, hb.min_eq, le_rfl, Nat.zero_le _,
      hb.capacity_lt⟩

/-- One operation with room: it runs, keeps the buffer ordered, and does to the
readable bytes what it is for, unless the growth copy leaves some behind. -/
theorem step_spec (hb : b.Ordered) {a : BufferOp × (ℕ → Byte)} (hresp : Respects b a)
    (hroom : AsksForRoom b a) :
    ∃ b', b.step a = some b' ∧ b'.Ordered ∧
      (a.1.StoresMoved → KeepsUnread b a → b'.contents = a.1.effect b.contents) := by
  have hrl := getReadableLength_eq hb
  obtain ⟨op, junk⟩ := a
  cases op with
  | getWriteableAndMove bytes =>
    obtain ⟨b₁, hm, hord₁, hfit, hkeep⟩ := makeRoom_spec junk hresp hb (hroom _ rfl)
    obtain ⟨b₂, hput, hhead, hord₂, hcont⟩ := fill_spec hord₁ hfit le_rfl le_rfl
    refine ⟨b₂.moveWriteable bytes.length, ?_, hord₂, ?_⟩
    · obtain ⟨data, hst, hb₂⟩ := Option.bind_eq_some_iff.mp hput
      obtain rfl := Option.some.inj hb₂
      simp only [step, getWriteableAndMove, hm, put, moveWriteable, hst, Option.bind_eq_bind,
        Option.bind_some]
    · intro _ h
      rw [hcont le_rfl, hkeep (h _ rfl), List.take_length]
      rfl
  | writeable length bytes moved =>
    obtain ⟨hl, hbytes, hmoved⟩ := hresp
    obtain ⟨b₁, hm, hord₁, hfit, hkeep⟩ := makeRoom_spec junk hl hb (hroom _ rfl)
    obtain ⟨b₂, hput, hhead, hord₂, hcont⟩ := fill_spec hord₁ hfit hbytes hmoved
    refine ⟨b₂.moveWriteable moved, ?_, hord₂, ?_⟩
    · simp only [step, writeable, hm, hput, Option.bind_eq_bind, Option.bind_some]
    · intro hst h
      rw [hcont hst, hkeep (h _ rfl)]
      rfl
  | getReadableAndMove length =>
    obtain ⟨b', off, len, hrun, hord, hcont⟩ := getReadableAndMove_spec hb length
    refine ⟨b', ?_, hord, fun _ _ => hcont⟩
    rw [step, hrun, Option.bind_eq_bind, Option.bind_some]
  | readable length moved =>
    obtain ⟨⟨ptr,len⟩, hread, hle⟩ := hresp
    have hlen' : len ≤ b.head.writeable-b.head.readable := by
      simp only [readable, hrl, Option.bind_eq_bind, Option.bind_some, Option.mem_def] at hread
      split_ifs at hread <;> cases hread <;> omega
    obtain ⟨hord, hcont⟩ := moveReadable_spec hb (hle.trans hlen')
    refine ⟨_, ?_, hord, fun _ _ => hcont⟩
    simp only [step, Option.mem_def.mp hread, Option.bind_eq_bind, Option.bind_some]
  | reset =>
    obtain ⟨b', hrun, hord, hcont⟩ := reset_spec hb
    exact ⟨b', hrun, hord, fun _ _ => hcont⟩

end MySKBuffer
end EchoFrame
