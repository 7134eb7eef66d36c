import EchoFrame.SKBufferBounds
import EchoFrame.Verif.Fifo

/-! The buffer refines a queue of bytes. -/
namespace EchoFrame
open Verif

def BufferOp.stored : BufferOp → List Byte
  | getWriteableAndMove bytes => bytes
  | writeable _ bytes moved => bytes.take moved
  | _ => []

/-- What an operation is for, on the queue of bytes. -/
def BufferOp.queue (q : Fifo Byte) : BufferOp → Fifo Byte
  | getWriteableAndMove bytes => q.push bytes
  | writeable _ bytes moved => q.push (bytes.take moved)
  | getReadableAndMove length => q.pop length
  | readable _ moved => q.pop moved
  | reset => q.pop q.pending.length

theorem BufferOp.pending_queue (q : Fifo Byte) (op : BufferOp) :
    (op.queue q).pending = op.effect q.pending := by
  cases op <;> simp [queue, effect]

theorem BufferOp.stored_queue (q : Fifo Byte) (op : BufferOp) :
    (op.queue q).stored = q.stored ++ op.stored := by
  cases op <;> simp [queue, stored]

/-- Nothing but the stores of the callers ever enters the queue. -/
theorem BufferOp.stored_foldl (ops : List BufferOp) (q : Fifo Byte) :
    (ops.foldl BufferOp.queue q).stored = q.stored ++ ops.flatMap BufferOp.stored := by
  induction ops generalizing q with
  | nil => simp
  | cons op ops ih =>
    rw [List.foldl_cons, ih, BufferOp.stored_queue, List.flatMap_cons, List.append_assoc]

namespace MySKBuffer

def exposed (b : MySKBuffer) (length : ℕ) : Option (List Byte) := do
  let (ptr, len) ← b.readable length
  match ptr with
  | none => some []
  | some off => load b.data off len

/-- The regions that an operation asks for fit the allocated block. -/
def RegionsFit (b : MySKBuffer) (a : BufferOp × (ℕ → Byte)) : Prop :=
  ∀ length ∈ a.1.request, RegionFits a.2 b length

instance (b : MySKBuffer) (a : BufferOp × (ℕ → Byte)) : Decidable (RegionsFit b a) :=
  inferInstanceAs (Decidable (∀ length ∈ _, _))

/-- The buffer holds exactly what is pending in the queue. -/
def Refines (b : MySKBuffer) (q : Fifo Byte) : Prop := b.Ordered ∧ b.contents = q.pending

variable {b : MySKBuffer}

theorem exposed_eq (hb : b.Ordered) (length : ℕ) :
    b.exposed length = some (b.contents.take length) := by
  have hd := hb.data_len
  have hw := hb.writeable_le
  have hr := hb.readable_le
  have hlen := length_contents hb
  unfold exposed readable
  simp only [getReadableLength_eq hb, Option.bind_eq_bind, Option.bind_some]
  by_cases h0 : b.head.writeable-b.head.readable = 0
  · have hnil : b.contents = [] := List.length_eq_zero_iff.mp (hlen.trans h0)
    simp only [h0, ↓reduceIte, Option.bind_some, hnil, List.take_nil]
  · by_cases hbig : b.head.writeable-b.head.readable < length
    · simp only [h0, hbig, ↓reduceIte, Option.bind_some]
      have hall : b.contents.take length = b.contents := List.take_of_length_le (by omega)
      rw [load_eq_some (by omega), hall]
      rfl
    · simp only [h0, hbig, ↓reduceIte, Option.bind_some]
      rw [load_eq_some (by omega), contents, List.take_take, Nat.min_eq_left (by omega)]

/-- One operation of the buffer follows the queue. -/
theorem refines_step {s : MySKBuffer} {q : Fifo Byte} {a : BufferOp × (ℕ → Byte)}
    (hs : Refines s q) (hresp : Respects s a) (hstored : a.1.StoresMoved)
    (hfits : RegionsFit s a) (hkeeps : KeepsUnread s a) :
    ∃ t, step s a = some t ∧ Refines t (a.1.queue q) := by
  have hroom : AsksForRoom s a := by
    intro length hl
    exact (regionFits_iff a.2 (lt_of_request hresp hl) hs.1).mp (hfits length hl)
  obtain ⟨t, hstep, hord, heff⟩ := step_spec hs.1 hresp hroom
  exact ⟨t, hstep, hord, by rw [heff hstored hkeeps, hs.2, BufferOp.pending_queue]⟩

def queueOf (as : List (BufferOp × (ℕ → Byte))) : Fifo Byte :=
  (as.map Prod.fst).foldl BufferOp.queue .empty

/-- The buffer is a lossless queue in every run whose regions fit and whose
growth steps find no unread byte in the last eight bytes of the old block. -/
theorem exposes_stored_bytes (junk : ℕ → Byte) {capacity : ℕ} (hc : capacity < 2^32)
    (hb : create junk capacity = some b) (as : List (BufferOp × (ℕ → Byte)))
    (hr : Along (fun b a => Respects b a ∧ a.1.StoresMoved) step b as)
    (hfit : Along RegionsFit step b as) (hkeep : Along KeepsUnread step b as) :
    (queueOf as).stored = (as.map Prod.fst).flatMap BufferOp.stored ∧
    ∃ b', run step b as = some b' ∧
      ∀ length, b'.exposed length = some ((queueOf as).pending.take length) := by
  obtain ⟨b₀, hb₀, hord, hnil⟩ := create_spec junk capacity hc
  obtain rfl := Option.some.inj (hb₀.symm.trans hb)
  have hall := (along_and _ _).mpr ⟨hr, (along_and _ _).mpr ⟨hfit, hkeep⟩⟩
  have hR : Refines b₀ .empty := ⟨hord, hnil⟩
  have hfollow (s : MySKBuffer) (q : Fifo Byte) (a : BufferOp × (ℕ → Byte)) (hs : Refines s q)
      (h : (Respects s a ∧ a.1.StoresMoved) ∧ RegionsFit s a ∧ KeepsUnread s a) :
      ∃ t, step s a = some t ∧ Refines t (a.1.queue q) :=
    refines_step hs h.1.1 h.1.2 h.2.1 h.2.2
  obtain ⟨b', hrun, hord', hcont⟩ := simulation_of_run hfollow hR hall
  refine ⟨by rw [queueOf, BufferOp.stored_foldl]; rfl, b', hrun, ?_⟩
  intro length
  rw [exposed_eq hord', hcont, queueOf, List.foldl_map]

/-- A run through growth and then compaction, with no unread byte left behind. -/
theorem exposes_stored_bytes_sixteen :
    ∃ b, create (fun _ => 0) 16 = some b ∧
    ∃ b', run step b
        [(.getWriteableAndMove [1,2,3],fun _ => 0),(.getReadableAndMove 1,fun _ => 0),
          (.writeable 20 [4,5,6] 2,fun _ => 0),(.readable 9 3,fun _ => 0),
          (.getWriteableAndMove (List.replicate 30 7),fun _ => 0)] = some b' ∧
      ∀ length, b'.exposed length = some ((5 :: List.replicate 30 7).take length) :=
  ⟨_, create_eq _ 16 (by decide), (exposes_stored_bytes (fun _ => 0) (show 16 < 2^32 by decide)
    (create_eq _ 16 (by decide)) _ (by decide +kernel) (by decide +kernel) (by decide +kernel)).2⟩

/-- Twelve bytes in a block of sixteen, then a request that makes it grow: every
region fits, but the last four of the twelve come out as zeros. -/
theorem growth_loses_unread_bytes :
    ∃ b, create (fun _ => 0) 16 = some b ∧
    (let as : List (BufferOp × (ℕ → Byte)) :=
      [(.getWriteableAndMove [1,2,3,4,5,6,7,8,9,10,11,12],fun _ => 0),
        (.getWriteableAndMove [13,14,15,16,17,18],fun _ => 0)]
    Along (fun b a => Respects b a ∧ a.1.StoresMoved) step b as ∧ Along RegionsFit step b as ∧
    (queueOf as).pending = [1,2,3,4,5,6,7,8,9,10,11,12,13,14,15,16,17,18] ∧
    (run step b as).bind (fun b' => b'.exposed 18) =
      some [1,2,3,4,5,6,7,8,0,0,0,0,13,14,15,16,17,18]) :=
  ⟨_, create_eq _ 16 (by decide), by decide +kernel, by decide +kernel, by decide +kernel,
    by decide +kernel⟩

end MySKBuffer
end EchoFrame
