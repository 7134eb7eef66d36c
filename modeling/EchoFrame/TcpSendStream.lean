import EchoFrame.MagicMessage
import EchoFrame.Verif.Run

/-! The requests of a TCP client on their way to the socket. A frame is offered
to the socket once, and the result of the write is not looked at. -/
namespace EchoFrame
open Verif

/-- A frame that `sendPayload` was called with, and how many of its bytes the
socket took, once it was written. -/
structure SentFrame where
  bytes : List Byte
  taken : Option ℕ
deriving DecidableEq, Repr

/-- The frames in the order of the calls, and what the socket has accepted. The
queue of the loop is the frames that were not written. -/
structure SendClient where
  frames : List SentFrame
  accepted : List Byte
deriving DecidableEq, Repr

/-- A call of `sendPayload`, on the thread of the loop or on another one, and the
run of a queued task. `room` is what the kernel has room for at the write. -/
inductive SendEvent
  | sendImmediate (frame : List Byte) (room : ℕ)
  | sendPosted (frame : List Byte)
  | runTask (room : ℕ)
deriving DecidableEq, Repr

namespace SentFrame

def took (f : SentFrame) : ℕ := f.taken.getD 0

def accepted (f : SentFrame) : List Byte := f.bytes.take f.took

def Whole (f : SentFrame) : Prop := f.bytes.length ≤ f.took

instance (f : SentFrame) : Decidable f.Whole := inferInstanceAs (Decidable (_ ≤ _))

/-- `write` takes what there is room for. The rest is not offered again. -/
def write (f : SentFrame) (room : ℕ) : SentFrame :=
  { f with taken := some (min room f.bytes.length) }

end SentFrame

namespace SendClient

def empty : SendClient := ⟨[],[]⟩

/-- The tasks run in the order in which they were queued. -/
def written (c : SendClient) : List SentFrame := c.frames.takeWhile fun f => f.taken.isSome

def waiting (c : SendClient) : List SentFrame := c.frames.dropWhile fun f => f.taken.isSome

def runTask (c : SendClient) (room : ℕ) : SendClient :=
  match c.waiting with
  | [] => c
  | f :: later => ⟨c.written ++ f.write room :: later,c.accepted ++ (f.write room).accepted⟩

/-- `sendPayload` of a connected client. It returns 0 whatever becomes of the frame. -/
def step (c : SendClient) : SendEvent → Option SendClient
  -- `RunInThreadOrImmediate` does not wait for the tasks in the queue
  | .sendImmediate frame room =>
    let f := SentFrame.write ⟨frame,none⟩ room
    some ⟨c.frames ++ [f],c.accepted ++ f.accepted⟩
  | .sendPosted frame => some { c with frames := c.frames ++ [⟨frame,none⟩] }
  | .runTask room => some (c.runTask room)

/-- The socket has accepted a prefix of the frames, and bytes of a frame only if
every frame sent before it was taken as a whole. -/
def InOrder (c : SendClient) : Prop :=
  c.accepted <+: c.frames.flatMap SentFrame.bytes ∧
    c.frames.Pairwise fun f g => 0 < g.took → f.Whole

/-- A write behind `before` has no room for a byte, or all of `before` was taken. -/
def Follows (before : List SentFrame) (f : SentFrame) (room : ℕ) : Prop :=
  room = 0 ∨ f.bytes = [] ∨ ∀ g ∈ before, g.Whole

instance (before : List SentFrame) (f : SentFrame) (room : ℕ) : Decidable (Follows before f room) :=
  inferInstanceAs (Decidable (_ ∨ _ ∨ _))

/-- A write with room comes neither behind a short write nor before a frame that
still waits in the queue. -/
def WritesFollow (c : SendClient) : SendEvent → Prop
  | .sendImmediate frame room => Follows c.frames ⟨frame,none⟩ room
  | .sendPosted _ => True
  | .runTask room => ∀ f ∈ c.waiting.head?, Follows c.written f room

instance (c : SendClient) : ∀ e, Decidable (WritesFollow c e)
  | .sendImmediate .. => inferInstanceAs (Decidable (Follows ..))
  | .sendPosted _ => inferInstanceAs (Decidable True)
  | .runTask _ => inferInstanceAs (Decidable (∀ f ∈ c.waiting.head?, _))

/-- What a run keeps: frames are taken in order, and what was taken of them is
what the socket has. -/
structure Ordered (c : SendClient) : Prop where
  pairwise : c.frames.Pairwise fun f g => 0 < g.took → f.Whole
  accepted : c.accepted = c.frames.flatMap SentFrame.accepted

variable {c : SendClient}

theorem accepted_prefix {fs : List SentFrame}
    (h : fs.Pairwise fun f g => 0 < g.took → f.Whole) :
    fs.flatMap SentFrame.accepted <+: fs.flatMap SentFrame.bytes := by
  induction fs with
  | nil => exact List.prefix_rfl
  | cons f fs ih =>
    obtain ⟨hf, hfs⟩ := List.pairwise_cons.mp h
    rw [List.flatMap_cons, List.flatMap_cons]
    by_cases hw : f.Whole
    · rw [SentFrame.accepted, List.take_of_length_le hw]
      exact List.prefix_append_right_inj _ |>.mpr (ih hfs)
    · have hnone : fs.flatMap SentFrame.accepted = [] := by
        apply List.flatMap_eq_nil_iff.mpr
        intro g hg
        have h0 : g.took = 0 := by
          by_contra hpos
          exact hw (hf g hg (Nat.pos_of_ne_zero hpos))
        rw [SentFrame.accepted, h0, List.take_zero]
      rw [hnone, List.append_nil]
      exact (List.take_prefix _ _).trans (List.prefix_append _ _)

theorem Ordered.inOrder (h : Ordered c) : InOrder c := by
  refine ⟨?_, h.pairwise⟩
  rw [h.accepted]
  exact accepted_prefix h.pairwise

theorem took_write_eq_zero_iff {f : SentFrame} {room : ℕ} :
    (f.write room).took = 0 ↔ room = 0 ∨ f.bytes = [] := by
  change min room f.bytes.length = 0 ↔ _
  rw [Nat.min_eq_zero_iff, List.length_eq_zero_iff]

/-- A frame that waits among others is written. -/
theorem pairwise_write_iff {before later : List SentFrame} {f : SentFrame} (hf : f.taken = none)
    (h : (before ++ f :: later).Pairwise fun f g => 0 < g.took → f.Whole) (room : ℕ) :
    (before ++ f.write room :: later).Pairwise (fun f g => 0 < g.took → f.Whole) ↔
      Follows before f room := by
  obtain ⟨hbefore, hrest, hacross⟩ := List.pairwise_append.mp h
  obtain ⟨hlater, hlater'⟩ := List.pairwise_cons.mp hrest
  have hf0 : f.took = 0 := by rw [SentFrame.took, hf, Option.getD_none]
  constructor
  · intro hw
    have hall := (List.pairwise_append.mp hw).2.2
    rcases Nat.eq_zero_or_pos (f.write room).took with h0 | hpos
    · exact (took_write_eq_zero_iff.mp h0).imp_right .inl
    · exact .inr (.inr fun g hg => hall g hg _ List.mem_cons_self hpos)
  · intro hfol
    refine List.pairwise_append.mpr ⟨hbefore, List.pairwise_cons.mpr ⟨?_, hlater'⟩, ?_⟩
    · -- only an empty frame has others taken behind it while it waits
      intro g hg hpos
      have hnil : f.bytes.length ≤ f.took := hlater g hg hpos
      rw [hf0] at hnil
      exact le_trans hnil (Nat.zero_le _)
    · intro g hg g' hg' hpos
      rcases List.mem_cons.mp hg' with rfl | hg'
      · rcases or_assoc.mpr hfol with hroom | hall
        · exact absurd (took_write_eq_zero_iff.mpr hroom) hpos.ne'
        · exact hall g hg
      · exact hacross g hg g' (List.mem_cons_of_mem _ hg') hpos

theorem accepted_write {before later : List SentFrame} {f : SentFrame} (hf : f.taken = none)
    (h : (before ++ f :: later).Pairwise fun f g => 0 < g.took → f.Whole) (room : ℕ) :
    (before ++ f.write room :: later).flatMap SentFrame.accepted =
      (before ++ f :: later).flatMap SentFrame.accepted ++ (f.write room).accepted := by
  have hlater := (List.pairwise_cons.mp (List.pairwise_append.mp h).2.1).1
  have hf0 : f.took = 0 := by rw [SentFrame.took, hf, Option.getD_none]
  have hnone : f.accepted = [] := by rw [SentFrame.accepted, hf0, List.take_zero]
  simp only [List.flatMap_append, List.flatMap_cons, hnone, List.nil_append, List.append_assoc]
  congr 1
  by_cases hnil : f.bytes = []
  · simp [SentFrame.accepted, SentFrame.write, hnil]
  · have hrest : later.flatMap SentFrame.accepted = [] := by
      apply List.flatMap_eq_nil_iff.mpr
      intro g hg
      have h0 : g.took = 0 := by
        by_contra hpos
        have hle : f.bytes.length ≤ f.took := hlater g hg (Nat.pos_of_ne_zero hpos)
        rw [hf0] at hle
        exact hnil (List.length_eq_zero_iff.mp (Nat.le_zero.mp hle))
      rw [SentFrame.accepted, h0, List.take_zero]
    rw [hrest, List.append_nil, List.nil_append]

theorem waiting_cons {f : SentFrame} {later : List SentFrame} (h : c.waiting = f :: later) :
    c.frames = c.written ++ f :: later ∧ f.taken = none := by
  refine ⟨?_, ?_⟩
  · rw [← h]
    exact List.takeWhile_append_dropWhile.symm
  · have hhead := List.head?_dropWhile_not (fun f : SentFrame => f.taken.isSome) c.frames
    rw [show c.frames.dropWhile (fun f => f.taken.isSome) = f :: later from h] at hhead
    simpa using hhead

theorem ordered_post (hc : Ordered c) (frame : List Byte) :
    Ordered ⟨c.frames ++ [⟨frame,none⟩],c.accepted⟩ := by
  obtain ⟨hpair, hacc⟩ := hc
  refine ⟨List.pairwise_append.mpr ⟨hpair, List.pairwise_singleton _ _, ?_⟩, ?_⟩
  · intro f _ g hg hpos
    rw [List.mem_singleton.mp hg] at hpos
    exact absurd hpos (Nat.lt_irrefl 0)
  · have hnil : SentFrame.accepted ⟨frame,none⟩ = [] := List.take_zero
    simp only [hacc, List.flatMap_append, List.flatMap_cons, List.flatMap_nil, hnil,
      List.append_nil]

theorem ordered_write {before later : List SentFrame} {f : SentFrame} {accepted : List Byte}
    (hf : f.taken = none) (hc : Ordered ⟨before ++ f :: later,accepted⟩) {room : ℕ}
    (hfol : Follows before f room) :
    Ordered ⟨before ++ f.write room :: later,accepted ++ (f.write room).accepted⟩ := by
  obtain ⟨hpair, hacc⟩ := hc
  refine ⟨(pairwise_write_iff hf hpair room).mpr hfol, ?_⟩
  dsimp only at hacc ⊢
  rw [accepted_write hf hpair, hacc]

theorem ordered_step {c' : SendClient} {e : SendEvent} (hc : Ordered c) (hw : WritesFollow c e)
    (h : step c e = some c') : Ordered c' := by
  cases e with
  | sendImmediate frame room =>
    obtain rfl := Option.some.inj h
    exact ordered_write rfl (ordered_post hc frame) hw
  | sendPosted frame =>
    obtain rfl := Option.some.inj h
    exact ordered_post hc frame
  | runTask room =>
    obtain rfl := Option.some.inj h
    unfold runTask
    split
    · exact hc
    · next f later hwait =>
      obtain ⟨hframes, hf⟩ := waiting_cons hwait
      have hc' : Ordered ⟨c.written ++ f :: later,c.accepted⟩ := by rwa [← hframes]
      exact ordered_write hf hc' (hw f (by rw [hwait]; rfl))

theorem writesFollow_of_inOrder {e : SendEvent} (hc : Ordered c)
    (h : ∀ c', step c e = some c' → InOrder c') : WritesFollow c e := by
  cases e with
  | sendImmediate frame room =>
    exact (pairwise_write_iff rfl (ordered_post hc frame).pairwise room).mp (h _ rfl).2
  | sendPosted frame => trivial
  | runTask room =>
    intro f hhead
    obtain ⟨later, hwait⟩ := List.head?_eq_some_iff.mp hhead
    obtain ⟨hframes, hf⟩ := waiting_cons hwait
    have hpair := hc.pairwise
    rw [hframes] at hpair
    have hnext := (h _ rfl).2
    simp only [runTask, hwait] at hnext
    exact (pairwise_write_iff hf hpair room).mp hnext

/-- The socket's stream is at all times a prefix of the frames in the order of
the calls, none of them cut short before bytes of a later one, exactly when no
write with room comes behind a short one or before a frame that still waits. -/
theorem frames_in_order_iff (es : List SendEvent) :
    (∀ n c, run step .empty (es.take n) = some c → InOrder c) ↔
      Along WritesFollow step .empty es := by
  apply forall_run_take_iff_of_invariant (fun _ => Ordered.inOrder)
  · intro c e hc h
    exact writesFollow_of_inOrder hc h
  · intro c e c' hc hw h
    exact ordered_step hc hw h
  · exact ⟨.nil, rfl⟩

/-- The socket takes twelve of the twenty bytes of a frame, and all of the next one. -/
theorem frame_behind_short_write :
    let first := MyMagicMessage.heartbeatFrame 7
    let second := MyMagicMessage.heartbeatFrame 8
    ∃ c, run step .empty [.sendImmediate first.bytes 12,.sendImmediate second.bytes 20] = some c ∧
      ¬ c.accepted <+: first.bytes ++ second.bytes :=
  ⟨_, rfl, by decide⟩

end SendClient
end EchoFrame
