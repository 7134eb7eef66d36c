import EchoFrame.SKBufferOps

/-! `MF::Buffer::MyIOBuf`: values written to the end of a `MySKBuffer` and read
off its front. `none` is the exception thrown when the bytes run out, besides
what it is for the buffer itself. -/
namespace EchoFrame
open Verif

namespace MyIOBuf

def write (junk : ℕ → Byte) (b : MySKBuffer) (xs : List Byte) : Option MySKBuffer := do
  let (b, off) ← b.getWriteableAndMove junk xs.length
  b.put off xs

def writeAll (junk : ℕ → Byte) (pieces : List (List Byte)) (b : MySKBuffer) :
    Option MySKBuffer := pieces.foldlM (write junk) b

/-- `read<T>` for a `T` of `k` bytes: the value that comes to stand in the local of `MyReader`. -/
def read (k : ℕ) (b : MySKBuffer) : Option (ℕ × MySKBuffer) := do
  let (b, buf, length) ← b.getReadableAndMove k
  let off ← buf
  if length < k then none
  else do
    let bytes ← load b.data off k
    some (leNat bytes,b)

def readableBytes (b : MySKBuffer) : Option (List Byte) := do
  let length ← b.getReadableLength
  let (buf, _) ← b.readable length
  match buf with
  -- the pointer is null when no bytes are there, and none are copied through it
  | none => some []
  | some off => load b.data off length

/-- A buffer of `n` bytes that holds `c` and from which nothing has been read. -/
structure Holds (b : MySKBuffer) (c : List Byte) (n : ℕ) : Prop where
  ordered : b.Ordered
  unread : b.head.readable = 0
  contents : b.contents = c
  capacity : b.head.capacity = n

variable {b : MySKBuffer} {c : List Byte} {n : ℕ}

theorem create_holds (junk : ℕ → Byte) (hn : n < 2^32) :
    ∃ b, MySKBuffer.create junk n = some b ∧ Holds b [] n := by
  refine ⟨_, MySKBuffer.create_eq junk n hn, ?_, rfl, rfl, rfl⟩
  exact ⟨MySKBuffer.length_freshData junk n, rfl, le_rfl, Nat.zero_le _, hn⟩

theorem Holds.writeable_eq (h : Holds b c n) : b.head.writeable = c.length := by
  have hlen := MySKBuffer.length_contents h.ordered
  have hunread := h.unread
  rw [h.contents] at hlen
  omega

theorem rewind_of_unread (h : b.head.readable = 0) : b.rewind = b := by
  obtain ⟨_, ⟨_,r,w⟩, _⟩ := b
  obtain rfl : r = 0 := h
  unfold MySKBuffer.rewind
  split
  · next hw =>
    obtain rfl : 0 = w := hw
    rfl
  · rfl

/-- A write that fits the buffer appends its bytes; no block is moved or grown. -/
theorem Holds.write (h : Holds b c n) (junk : ℕ → Byte) (xs : List Byte)
    (hfit : c.length+xs.length ≤ n) :
    ∃ b', MyIOBuf.write junk b xs = some b' ∧ Holds b' (c ++ xs) n := by
  have hw := h.writeable_eq
  have hcap := h.capacity
  have hlt := h.ordered.capacity_lt
  have hrewind := rewind_of_unread h.unread
  have hroom : b.makeRoom junk xs.length = some b := by
    simp only [MySKBuffer.makeRoom, hrewind]
    rw [u32_of_lt (by omega), if_neg (by omega)]
  obtain ⟨b', hput, hhead, hord, hcont⟩ :=
    MySKBuffer.fill_spec h.ordered (show b.head.writeable+xs.length ≤ b.head.capacity by omega)
      le_rfl le_rfl
  obtain ⟨data, hst, hb'⟩ := Option.bind_eq_some_iff.mp hput
  obtain rfl := Option.some.inj hb'
  refine ⟨_, ?_, hord, h.unread, ?_, h.capacity⟩
  · simp only [MyIOBuf.write, MySKBuffer.getWriteableAndMove, hroom, MySKBuffer.put,
      MySKBuffer.moveWriteable, hst, Option.bind_eq_bind, Option.bind_some]
  · rw [hcont le_rfl, h.contents, List.take_length]

theorem writeAll_cons_eq_some {junk : ℕ → Byte} {b' : MySKBuffer} {xs : List Byte}
    {pieces : List (List Byte)} : writeAll junk (xs :: pieces) b = some b' ↔
      ∃ b₁, write junk b xs = some b₁ ∧ writeAll junk pieces b₁ = some b' := by
  rw [writeAll, List.foldlM_cons]
  exact Option.bind_eq_some_iff

theorem Holds.writeAll {pieces : List (List Byte)} (h : Holds b c n) (junk : ℕ → Byte)
    (hfit : c.length+pieces.flatten.length ≤ n) :
    ∃ b', writeAll junk pieces b = some b' ∧ Holds b' (c ++ pieces.flatten) n := by
  induction pieces generalizing b c with
  | nil =>
    refine ⟨b, rfl, ?_⟩
    rw [List.flatten_nil, List.append_nil]
    exact h
  | cons xs pieces ih =>
    rw [List.flatten_cons, List.length_append] at hfit
    obtain ⟨b₁, hwrite, h₁⟩ := h.write junk xs (by omega)
    obtain ⟨b₂, hrest, h₂⟩ := ih h₁ (by rw [List.length_append]; omega)
    refine ⟨b₂, writeAll_cons_eq_some.mpr ⟨b₁, hwrite, hrest⟩, ?_⟩
    rw [List.flatten_cons, ← List.append_assoc]
    exact h₂

/-- Whatever the room, the data area is no longer than a `uint32_t` counts. -/
theorem length_data_makeRoom {junk : ℕ → Byte} {length : ℕ} {b₁ : MySKBuffer} (hb : b.Ordered)
    (hroom : b.makeRoom junk length = some b₁) : b₁.data.length < 2^32 := by
  obtain ⟨hord, -, -, -⟩ := MySKBuffer.rewind_spec hb
  have hd := hord.data_len
  have hc := hord.capacity_lt
  have hsort {b' b₁ : MySKBuffer} (h : b'.sort = some b₁) : b₁.data.length = b'.data.length := by
    unfold MySKBuffer.sort at h
    split at h
    · cases h
      rfl
    · simp only [Option.bind_eq_bind, Option.bind_eq_some_iff] at h
      obtain ⟨_, _, _, _, _, hmove, _, hzero, hb₁⟩ := h
      cases hb₁
      exact (length_store hzero).trans (length_store hmove)
  unfold MySKBuffer.makeRoom at hroom
  dsimp only at hroom
  split at hroom
  · simp only [Option.bind_eq_bind, Option.bind_eq_some_iff] at hroom
    obtain ⟨room, -, hroom⟩ := hroom
    split at hroom
    · rw [hsort hroom]
      omega
    · rw [MySKBuffer.incr_eq junk hord] at hroom
      split at hroom
      · next hfit =>
        have hlt := u32_lt (2*b.rewind.head.capacity)
        rw [hsort hroom, MySKBuffer.grown, List.length_append, List.length_take,
          List.length_drop, MySKBuffer.length_freshData, hord.min_eq, ← two_mul]
        omega
      · cases hroom
  · cases hroom
    omega

/-- Bytes that were stored at the write cursor come behind the old ones. -/
theorem fill_of_store {data : List Byte} {xs : List Byte} (hord : b.Ordered)
    (hstore : store b.data b.head.writeable xs = some data) :
    ({ b.moveWriteable xs.length with data := data } : MySKBuffer).Ordered ∧
      b.head.writeable+xs.length ≤ b.head.capacity ∧
      ({ b.moveWriteable xs.length with data := data } : MySKBuffer).contents =
        b.contents ++ xs := by
  have hin := (store_eq_some_iff.mp hstore).1
  have hd := hord.data_len
  have hfits : b.head.writeable+xs.length ≤ b.head.capacity := by omega
  obtain ⟨b₂, hput, -, hord₂, hcont⟩ := MySKBuffer.fill_spec hord hfits le_rfl le_rfl
  have hb₂ : { b with data := data } = b₂ := by
    rw [MySKBuffer.put, hstore] at hput
    exact Option.some.inj hput
  subst hb₂
  have hcont := hcont le_rfl
  rw [List.take_length] at hcont
  exact ⟨hord₂, hfits, hcont⟩

/-- The block that growth makes, when the copy fits it and leaves the write cursor inside. -/
theorem ordered_grown {junk : ℕ → Byte} (hb : b.Ordered) (hunread : b.head.readable = 0)
    (hfit : b.head.capacity ≤ u32 (2*b.head.capacity)+8)
    (hin : (MySKBuffer.grown junk b).head.writeable ≤ (MySKBuffer.grown junk b).data.length) :
    (MySKBuffer.grown junk b).Ordered ∧
      (MySKBuffer.grown junk b).head.capacity ≤ 2*b.head.capacity := by
  have hcap : u32 (b.head.capacity+b.minCapacity) = u32 (2*b.head.capacity) := by
    rw [hb.min_eq, ← two_mul]
  have hd := hb.data_len
  have hlength : (MySKBuffer.grown junk b).data.length = u32 (2*b.head.capacity) := by
    rw [MySKBuffer.grown, List.length_append, List.length_take, List.length_drop,
      MySKBuffer.length_freshData, hcap]
    omega
  have hhead : (MySKBuffer.grown junk b).head.capacity = u32 (2*b.head.capacity) := hcap
  refine ⟨⟨hlength.trans hhead.symm, rfl, ?_, by omega, ?_⟩, hhead.le.trans (Nat.mod_le _ _)⟩
  · exact hunread.le.trans (Nat.zero_le _)
  · rw [hhead]
    exact u32_lt _

/-- What a write does to a buffer from which nothing has been read: its bytes come behind the
old ones, as they were or as the growth copy left them. -/
theorem write_cases {junk : ℕ → Byte} {b' : MySKBuffer} {xs : List Byte} (hb : b.Ordered)
    (hunread : b.head.readable = 0) (hwrite : write junk b xs = some b') :
    b'.Ordered ∧ b'.head.readable = 0 ∧ xs.length ≤ b'.head.capacity ∧
      b'.head.capacity ≤ 2*b.head.capacity ∧
      (b'.contents = b.contents ++ xs ∨
        b'.contents = (MySKBuffer.grown junk b).contents ++ xs) := by
  simp only [write, MySKBuffer.getWriteableAndMove, MySKBuffer.put, Option.bind_eq_bind,
    Option.bind_eq_some_iff] at hwrite
  obtain ⟨⟨_, off⟩, ⟨b₁, hroom, hmoved⟩, data, hstore, hb'⟩ := hwrite
  cases hmoved
  cases hb'
  have hdata := length_data_makeRoom hb hroom
  have hin := (store_eq_some_iff.mp hstore).1
  simp only [MySKBuffer.moveWriteable] at hin hstore
  have hrewind := rewind_of_unread hunread
  have hsort {b' : MySKBuffer} (h : b'.head.readable = 0) : b'.sort = some b' := if_pos h
  have hstay (hsame : some b = some b₁) :
      ({ b₁.moveWriteable xs.length with data := data } : MySKBuffer).Ordered ∧
        b₁.head.readable = 0 ∧ xs.length ≤ b₁.head.capacity ∧
        b₁.head.capacity ≤ 2*b.head.capacity ∧
        ({ b₁.moveWriteable xs.length with data := data } : MySKBuffer).contents =
          b.contents ++ xs := by
    obtain rfl := Option.some.inj hsame
    obtain ⟨hord, hfits, hcont⟩ := fill_of_store hb hstore
    exact ⟨hord, hunread, by omega, by omega, hcont⟩
  rcases MySKBuffer.makeRoom_cases junk xs.length (by omega) hb with
    ⟨hm, -⟩ | ⟨hm, -, -⟩ | ⟨hm, -, -⟩
  · rw [hrewind] at hm
    obtain ⟨hord, hzero, hle, hcap, hcont⟩ := hstay (hm.symm.trans hroom)
    exact ⟨hord, hzero, hle, hcap, .inl hcont⟩
  · rw [hrewind, hsort hunread] at hm
    obtain ⟨hord, hzero, hle, hcap, hcont⟩ := hstay (hm.symm.trans hroom)
    exact ⟨hord, hzero, hle, hcap, .inl hcont⟩
  · rw [hrewind, MySKBuffer.incr_eq junk hb, hroom] at hm
    split at hm
    · next hfit =>
      rw [hsort (show (MySKBuffer.grown junk b).head.readable = 0 from hunread)] at hm
      obtain rfl := Option.some.inj hm
      obtain ⟨hgrown, hcap⟩ := ordered_grown hb hunread hfit (le_of_add_le_left hin)
      obtain ⟨hord, hfits, hcont⟩ := fill_of_store hgrown hstore
      exact ⟨hord, hunread, le_trans (Nat.le_add_left _ _) hfits, hcap, .inr hcont⟩
    · cases hm

/-- What the growth copy leaves, in blocks of zeros: as many bytes, of which the first spell no
more than they did, or none. -/
theorem grown_contents (hunread : b.head.readable = 0) :
    (MySKBuffer.grown (fun _ => 0) b).contents = [] ∨
      leNat ((MySKBuffer.grown (fun _ => 0) b).contents.take 4) ≤ leNat (b.contents.take 4) := by
  have hzeros (n : ℕ) : MySKBuffer.freshData (fun _ => 0) n = List.replicate n 0 := by
    rw [List.eq_replicate_iff]
    refine ⟨MySKBuffer.length_freshData _ n, ?_⟩
    intro x hx
    rw [MySKBuffer.freshData] at hx
    rcases List.mem_append.mp (List.mem_of_mem_drop hx) with hx | hx
    · exact List.eq_of_mem_replicate hx
    · obtain ⟨_, -, rfl⟩ := List.mem_map.mp (List.mem_of_mem_drop hx)
      rfl
  by_cases hsmall : 5 ≤ b.head.capacity
  · right
    rw [MySKBuffer.contents, MySKBuffer.contents, MySKBuffer.grown]
    dsimp only
    rw [if_pos hsmall, hunread, hzeros, List.drop_zero, List.drop_zero, List.drop_replicate,
      List.take_take, List.take_take, List.take_append, List.take_replicate, List.take_take,
      Nat.min_comm _ (b.head.capacity-8), ← List.take_take]
    exact leNat_take_append_zeros_le _ _ _
  · left
    rw [MySKBuffer.contents, MySKBuffer.grown]
    dsimp only
    rw [if_neg hsmall, Nat.zero_sub, List.take_zero]

theorem length_grown_le (junk : ℕ → Byte) (hb : b.Ordered) (hunread : b.head.readable = 0) :
    (MySKBuffer.grown junk b).contents.length ≤ b.contents.length := by
  rw [MySKBuffer.length_contents hb]
  refine (List.length_take_le _ _).trans ?_
  rw [MySKBuffer.grown]
  dsimp only
  split <;> omega

/-- A first write leaves nothing but its bytes. -/
theorem contents_of_write_empty {junk : ℕ → Byte} {b' : MySKBuffer} {xs : List Byte}
    (hb : b.Ordered) (hunread : b.head.readable = 0) (hempty : b.contents = [])
    (hwrite : write junk b xs = some b') : b'.contents = xs := by
  have hgrown : (MySKBuffer.grown junk b).contents = [] := by
    have hle := length_grown_le junk hb hunread
    rw [hempty, List.length_nil] at hle
    exact List.length_eq_zero_iff.mp (Nat.le_zero.mp hle)
  obtain ⟨-, -, -, -, hcont | hcont⟩ := write_cases hb hunread hwrite
  · rw [hcont, hempty, List.nil_append]
  · rw [hcont, hgrown, List.nil_append]

/-- Each write doubles the block at most, and what was written last is in it. -/
theorem ordered_of_writeAll {junk : ℕ → Byte} {b' : MySKBuffer} {pieces : List (List Byte)}
    (hb : b.Ordered) (hunread : b.head.readable = 0) (h : writeAll junk pieces b = some b') :
    b'.Ordered ∧ b'.head.readable = 0 ∧ b'.head.capacity ≤ 2^pieces.length*b.head.capacity ∧
      ∀ xs ∈ pieces.getLast?, xs.length ≤ b'.head.capacity := by
  induction pieces generalizing b with
  | nil =>
    cases h
    exact ⟨hb, hunread, by rw [List.length_nil]; omega, fun xs hxs => by cases hxs⟩
  | cons xs pieces ih =>
    obtain ⟨b₁, hwrite, hrest⟩ := writeAll_cons_eq_some.mp h
    obtain ⟨hord, hzero, hin, hcap, -⟩ := write_cases hb hunread hwrite
    obtain ⟨hord', hzero', hcap', hlast⟩ := ih hord hzero hrest
    refine ⟨hord', hzero', ?_, ?_⟩
    · calc b'.head.capacity ≤ 2^pieces.length*b₁.head.capacity := hcap'
        _ ≤ 2^pieces.length*(2*b.head.capacity) := Nat.mul_le_mul_left _ hcap
        _ = 2^(xs :: pieces).length*b.head.capacity := by
          rw [List.length_cons, pow_succ, Nat.mul_assoc]
    · intro ys hys
      cases pieces with
      | nil =>
        cases hrest
        cases hys
        exact hin
      | cons zs pieces =>
        rw [List.getLast?_cons_cons] at hys
        exact hlast ys hys

/-- Of `n` bytes that were written the buffer holds at most as many; and if it holds all, the
first four spell no more than `v`. -/
structure Kept (b : MySKBuffer) (v n : ℕ) : Prop where
  ordered : b.Ordered
  unread : b.head.readable = 0
  length_le : b.contents.length ≤ n
  spells : b.contents.length = n → leNat (b.contents.take 4) ≤ v

theorem Kept.write {b' : MySKBuffer} {v n : ℕ} {xs : List Byte} (h : Kept b v n) (hn : 4 ≤ n)
    (hwrite : write (fun _ => 0) b xs = some b') : Kept b' v (n+xs.length) := by
  have hle := h.length_le
  obtain ⟨hord, hzero, -, -, hcont⟩ := write_cases h.ordered h.unread hwrite
  have hgrown := length_grown_le (fun _ => 0) h.ordered h.unread
  obtain ⟨kept, hkept, hlength, hspells⟩ : ∃ kept, b'.contents = kept ++ xs ∧
      kept.length ≤ n ∧ (kept.length = n → leNat (kept.take 4) ≤ v) := by
    rcases hcont with hcont | hcont
    · exact ⟨_, hcont, hle, h.spells⟩
    · refine ⟨_, hcont, by omega, fun hall => ?_⟩
      rcases grown_contents h.unread with hnil | hspell
      · rw [hnil, List.length_nil] at hall
        omega
      · exact hspell.trans (h.spells (by omega))
  refine ⟨hord, hzero, ?_, ?_⟩
  · rw [hkept, List.length_append]
    omega
  · rw [hkept, List.length_append]
    intro hall
    rw [List.take_append_of_le_length (by omega)]
    exact hspells (by omega)

theorem Kept.writeAll {b' : MySKBuffer} {v n : ℕ} {pieces : List (List Byte)} (h : Kept b v n)
    (hn : 4 ≤ n) (hwrite : writeAll (fun _ => 0) pieces b = some b') :
    Kept b' v (n+pieces.flatten.length) := by
  induction pieces generalizing b n with
  | nil =>
    cases hwrite
    exact h
  | cons xs pieces ih =>
    obtain ⟨b₁, hfirst, hrest⟩ := writeAll_cons_eq_some.mp hwrite
    have hkept := ih (h.write hn hfirst) (by omega) hrest
    rwa [Nat.add_assoc, ← List.length_append, ← List.flatten_cons] at hkept

variable {k : ℕ}

/-- Reading a value is taking it off the bytes that are left. -/
theorem read_cases (hb : b.Ordered) (hk : 0 < k) :
    (readLe k b.contents = none ∧ read k b = none) ∨
      ∃ v b', readLe k b.contents = some (v,b'.contents) ∧ read k b = some (v,b') ∧ b'.Ordered := by
  have hlen := MySKBuffer.length_contents hb
  have hrl := MySKBuffer.getReadableLength_eq hb
  by_cases hshort : b.contents.length < k
  · refine Or.inl ⟨if_neg (by omega), ?_⟩
    by_cases h0 : b.head.writeable-b.head.readable = 0
    · simp only [read, MySKBuffer.getReadableAndMove, hrl, h0, ↓reduceIte, Option.bind_eq_bind,
        Option.bind_some, Option.bind_none]
    · have hlt : b.head.writeable-b.head.readable < k := by omega
      simp only [read, MySKBuffer.getReadableAndMove, hrl, h0, hlt, ↓reduceIte,
        Option.bind_eq_bind, Option.bind_some]
  · have h0 : b.head.writeable-b.head.readable ≠ 0 := by omega
    have hge : ¬b.head.writeable-b.head.readable < k := by omega
    have hd := hb.data_len
    have hw := hb.writeable_le
    obtain ⟨hord, hcont⟩ :=
      MySKBuffer.moveReadable_spec hb (show k ≤ b.head.writeable-b.head.readable by omega)
    have hload : load b.data b.head.readable k = some (b.contents.take k) := by
      rw [load_eq_some (by omega), MySKBuffer.contents, List.take_take, Nat.min_eq_left (by omega)]
    refine Or.inr ⟨leNat (b.contents.take k), b.moveReadable k, ?_, ?_, hord⟩
    · rw [readLe, if_pos (by omega), hcont]
    · simp only [read, MySKBuffer.getReadableAndMove, hrl, h0, hge, ↓reduceIte, lt_irrefl,
        Option.bind_eq_bind, Option.bind_some, MySKBuffer.moveReadable, hload]

theorem read_of_readLe (hb : b.Ordered) (hk : 0 < k) {v : ℕ} {rest : List Byte}
    (h : readLe k b.contents = some (v,rest)) :
    ∃ b', read k b = some (v,b') ∧ b'.Ordered ∧ b'.contents = rest := by
  rcases read_cases hb hk with ⟨hnone, -⟩ | ⟨v', b', hsome, hread, hord⟩
  · cases hnone.symm.trans h
  · obtain ⟨rfl, hrest⟩ := Prod.mk.inj (Option.some.inj (hsome.symm.trans h))
    exact ⟨b', hread, hord, hrest⟩

theorem readableBytes_eq (hb : b.Ordered) : readableBytes b = some b.contents := by
  have hlen := MySKBuffer.length_contents hb
  have hrl := MySKBuffer.getReadableLength_eq hb
  by_cases h0 : b.head.writeable-b.head.readable = 0
  · have hnil : b.contents = [] := List.length_eq_zero_iff.mp (hlen.trans h0)
    simp only [readableBytes, MySKBuffer.readable, hrl, h0, hnil, ↓reduceIte, Option.bind_eq_bind,
      Option.bind_some]
  · have hd := hb.data_len
    have hr := hb.readable_le
    have hw := hb.writeable_le
    simp only [readableBytes, MySKBuffer.readable, hrl, h0, ↓reduceIte, Option.bind_eq_bind,
      Option.bind_some]
    exact load_eq_some (by omega)

end MyIOBuf
end EchoFrame
