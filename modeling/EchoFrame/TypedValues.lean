import EchoFrame.FailedReads

/-! Sequences of typed values that are written to a `MyIOBuf` and read back. -/
namespace EchoFrame
open Verif

inductive IntSize
  | one
  | two
  | four
  | eight
deriving DecidableEq, Repr

def IntSize.bytes : IntSize → ℕ
  | one => 1
  | two => 2
  | four => 4
  | eight => 8

/-- An integer, a `std::string`, or the bytes behind a pointer. -/
inductive IOItem
  | basic (size : IntSize) (v : Fin (256^size.bytes))
  | string (v : List Byte)
  | block (v : List Byte)
deriving DecidableEq, Repr

/-- The type and the length that a read is called with. -/
inductive IOShape
  | basic (size : IntSize)
  | string (length : ℕ)
  | block (length : ℕ)
deriving DecidableEq, Repr

namespace IOItem

def bytes : IOItem → List Byte
  | basic size v => leBytes size.bytes v.val
  | string v => v
  | block v => v

def shape : IOItem → IOShape
  | basic size _ => .basic size
  | string v => .string v.length
  | block v => .block v.length

/-- What `read` returns as a value, and not through a pointer of the caller's. -/
def isValue : IOItem → Bool
  | basic .. | string _ => true
  | block _ => false

end IOItem

namespace MyIOBuf

/-- `MyReader` returns a reference to its local, and the result of `read` is made from that
reference after the local is gone: `left` is what it reads as by then. -/
def readItem (left : IOItem → IOItem) : IOShape → MySKBuffer → Option (IOItem × MySKBuffer)
  | .basic size, b => do
    let (v, b) ← read size.bytes b
    some (left (.basic size ⟨v%256^size.bytes,Nat.mod_lt _ (Nat.pow_pos (by decide))⟩),b)
  | .string length, b => do
    let (b, bytes) ← readBytes length b
    let v ← bytes
    some (left (.string v),b)
  | .block length, b => do
    let (b, bytes) ← readBytes length b
    let v ← bytes
    some (.block v,b)

/-- The reads in order; `left k` is for the read of the item `k`. -/
def readItems (left : ℕ → IOItem → IOItem) :
    ℕ → List IOShape → MySKBuffer → Option (List IOItem × MySKBuffer)
  | _, [], b => some ([],b)
  | k, shape :: shapes, b => do
    let (item, b) ← readItem (left k) shape b
    let (items, b) ← readItems left (k+1) shapes b
    some (item :: items,b)

def writeItems (junk : ℕ → Byte) (items : List IOItem) (b : MySKBuffer) : Option MySKBuffer :=
  items.foldlM (fun b item => write junk b item.bytes) b

/-- Written to a new buffer and read back, the values are the same and none is left. -/
def RoundTrips (junk : ℕ → Byte) (left : ℕ → IOItem → IOItem) (capacity : UInt32)
    (items : List IOItem) : Prop :=
  ∃ b, ((MySKBuffer.create junk capacity.toNat).bind fun b => writeItems junk items b) = some b ∧
    ∃ b', readItems left 0 (items.map IOItem.shape) b = some (items,b') ∧
      b'.getReadableLength = some 0

variable {b : MySKBuffer} {c : List Byte} {n : ℕ} {junk : ℕ → Byte} {item : IOItem}
  {items : List IOItem}

theorem Holds.writeItems (h : Holds b c n) (junk : ℕ → Byte)
    (hfit : c.length+(items.flatMap IOItem.bytes).length ≤ n) :
    ∃ b', writeItems junk items b = some b' ∧ Holds b' (c ++ items.flatMap IOItem.bytes) n := by
  have hall : MyIOBuf.writeItems junk items b =
      MyIOBuf.writeAll junk (items.map IOItem.bytes) b :=
    List.foldlM_map.symm
  rw [List.flatMap_def] at hfit ⊢
  rw [hall]
  exact h.writeAll junk hfit

/-- Nothing can be read from an empty buffer, not even nothing. -/
theorem readBytes_empty (hb : b.Ordered) (hnil : b.contents = []) (length : ℕ) :
    readBytes length b = some (b,none) := by
  have hlen := MySKBuffer.length_contents hb
  rw [hnil, List.length_nil] at hlen
  have hrl : b.getReadableLength = some 0 := by
    rw [MySKBuffer.getReadableLength_eq hb, ← hlen]
  simp only [readBytes, MySKBuffer.getReadableAndMove, hrl, Option.bind_eq_bind, Option.bind_some,
    if_true, copyOut]

theorem readBytes_append (hb : b.Ordered) {xs rest : List Byte} (hc : b.contents = xs ++ rest)
    (hne : b.contents ≠ []) :
    ∃ b', readBytes xs.length b = some (b',some xs) ∧ b'.Ordered ∧ b'.contents = rest := by
  have hlen := MySKBuffer.length_contents hb
  have hpos : b.head.writeable-b.head.readable ≠ 0 := by
    rw [← hlen]
    exact fun hzero => hne (List.length_eq_zero_iff.mp hzero)
  have hle : xs.length ≤ b.head.writeable-b.head.readable := by
    rw [← hlen, hc, List.length_append]
    omega
  have hd := hb.data_len
  have hw := hb.writeable_le
  obtain ⟨hord, hcont⟩ := MySKBuffer.moveReadable_spec hb hle
  refine ⟨b.moveReadable xs.length, ?_, hord, ?_⟩
  · have hload : load b.data b.head.readable xs.length = some xs := by
      have hxs : b.contents.take xs.length = xs := by rw [hc, List.take_left]
      rw [load_eq_some (by omega)]
      rw [MySKBuffer.contents, List.take_take, Nat.min_eq_left hle] at hxs
      rw [hxs]
    simp only [readBytes, MySKBuffer.getReadableAndMove, MySKBuffer.getReadableLength_eq hb,
      hpos, Nat.not_lt.mpr hle, Option.bind_eq_bind, Option.bind_some, if_false, copyOut,
      Nat.lt_irrefl, MySKBuffer.moveReadable, hload]
  · rw [hcont, hc, List.drop_left]

def readAs (left : IOItem → IOItem) (item : IOItem) : IOItem :=
  if item.isValue then left item else item

variable {left : IOItem → IOItem}

theorem readItem_empty (hb : b.Ordered) (hnil : b.contents = []) (shape : IOShape) :
    readItem left shape b = none := by
  cases shape with
  | basic size => rw [readItem, read_eq, readBytes_empty hb hnil]; rfl
  | string length => rw [readItem, readBytes_empty hb hnil]; rfl
  | block length => rw [readItem, readBytes_empty hb hnil]; rfl

theorem readItem_append (left : IOItem → IOItem) (hb : b.Ordered) {rest : List Byte}
    (hc : b.contents = item.bytes ++ rest) (hne : b.contents ≠ []) :
    ∃ b', readItem left item.shape b = some (readAs left item,b') ∧ b'.Ordered ∧
      b'.contents = rest := by
  obtain ⟨b', hread, hord, hrest⟩ := readBytes_append hb hc hne
  refine ⟨b', ?_, hord, hrest⟩
  cases item with
  | basic size v =>
    have hlen : (leBytes size.bytes v.val).length = size.bytes := length_leBytes _ _
    have hvalue : leNat (leBytes size.bytes v.val) = v.val := by
      rw [leNat_leBytes, Nat.mod_eq_of_lt v.isLt]
    rw [IOItem.bytes, hlen] at hread
    rw [IOItem.shape, readItem, read_eq, hread]
    simp only [Option.bind_eq_bind, Option.bind_some, Option.map_some, hvalue,
      Nat.mod_eq_of_lt v.isLt]
    rfl
  | string v =>
    rw [IOItem.shape, readItem]
    rw [IOItem.bytes] at hread
    rw [hread]
    rfl
  | block v =>
    rw [IOItem.shape, readItem]
    rw [IOItem.bytes] at hread
    rw [hread]
    rfl

theorem readItems_cons {left : ℕ → IOItem → IOItem} {k : ℕ} {shape : IOShape} {b₁ : MySKBuffer}
    (h : readItem (left k) shape b = some (item,b₁)) (shapes : List IOShape) :
    readItems left k (shape :: shapes) b =
      (readItems left (k+1) shapes b₁).map fun r => (item :: r.1,r.2) := by
  rw [readItems, h]
  cases hrest : readItems left (k+1) shapes b₁ with
  | none => simp only [Option.bind_eq_bind, Option.bind_some, hrest]; rfl
  | some r => simp only [Option.bind_eq_bind, Option.bind_some, hrest]; rfl

/-- The last item is not one of length zero. -/
def EndsInBytes (items : List IOItem) : Prop := ∀ item ∈ items.getLast?, item.bytes ≠ []

/-- Each value still reads as itself through the reference to the local of `MyReader`. -/
def Intact (left : ℕ → IOItem → IOItem) (k : ℕ) (items : List IOItem) : Prop :=
  ∀ i item, items[i]? = some item → item.isValue = true → left (k+i) item = item

theorem endsInBytes_cons (item : IOItem) (items : List IOItem) : EndsInBytes (item :: items) ↔
    (item :: items).flatMap IOItem.bytes ≠ [] ∧ EndsInBytes items := by
  cases hitems : items.getLast? with
  | none =>
    obtain rfl := List.getLast?_eq_none_iff.mp hitems
    simp [EndsInBytes]
  | some last =>
    have hmem : last ∈ items := List.mem_of_getLast? hitems
    have hlast : (item :: items).getLast? = some last := by
      rw [List.getLast?_cons, hitems]
      rfl
    simp only [EndsInBytes, hlast, hitems, Option.mem_some_iff, forall_eq']
    constructor
    · intro hne
      refine ⟨?_, hne⟩
      intro hnil
      exact hne (List.flatMap_eq_nil_iff.mp hnil last (List.mem_cons_of_mem _ hmem))
    · exact fun h => h.2

theorem intact_cons (left : ℕ → IOItem → IOItem) (k : ℕ) (item : IOItem) (items : List IOItem) :
    Intact left k (item :: items) ↔ readAs (left k) item = item ∧ Intact left (k+1) items := by
  unfold Intact readAs
  constructor
  · intro h
    refine ⟨?_, ?_⟩
    · cases hvalue : item.isValue with
      | true => exact h 0 item rfl hvalue
      | false => rfl
    · intro i item' hi hvalue
      rw [Nat.add_assoc, Nat.add_comm 1 i]
      exact h (i+1) item' hi hvalue
  · rintro ⟨hhead, hrest⟩ i item' hi hvalue
    cases i with
    | zero =>
      obtain rfl := Option.some.inj hi
      rw [if_pos hvalue] at hhead
      exact hhead
    | succ i =>
      rw [Nat.add_comm i 1, ← Nat.add_assoc]
      exact hrest i item' hi hvalue

theorem readItems_iff (left : ℕ → IOItem → IOItem) (k : ℕ) (hb : b.Ordered)
    (hc : b.contents = items.flatMap IOItem.bytes) :
    (∃ b', readItems left k (items.map IOItem.shape) b = some (items,b') ∧
        b'.getReadableLength = some 0) ↔ EndsInBytes items ∧ Intact left k items := by
  induction items generalizing b k with
  | nil =>
    have hlen := MySKBuffer.length_contents hb
    rw [hc, List.flatMap_nil, List.length_nil] at hlen
    refine iff_of_true ⟨b, rfl, ?_⟩ ⟨?_, ?_⟩
    · rw [MySKBuffer.getReadableLength_eq hb, ← hlen]
    · exact fun _ h => absurd h (Option.not_mem_none _)
    · exact fun _ _ h => absurd h (by simp)
  | cons item items ih =>
    rw [endsInBytes_cons, intact_cons]
    by_cases hnil : b.contents = []
    · rw [List.map_cons, readItems, readItem_empty hb hnil]
      simp [← hc, hnil]
    · obtain ⟨b₁, hread, hord, hrest⟩ :=
        readItem_append (left k) hb (hc.trans List.flatMap_cons) hnil
      rw [List.map_cons, readItems_cons hread]
      constructor
      · rintro ⟨b', hrun, hlen⟩
        obtain ⟨⟨items', b''⟩, htail, heq⟩ := Option.map_eq_some_iff.mp hrun
        obtain ⟨hitems, rfl⟩ := Prod.mk.inj heq
        obtain ⟨hitem, rfl⟩ := List.cons.inj hitems
        obtain ⟨hends, hintact⟩ := (ih (k+1) hord hrest).mp ⟨b'', htail, hlen⟩
        exact ⟨⟨hc ▸ hnil, hends⟩, hitem, hintact⟩
      · rintro ⟨⟨_, hends⟩, hitem, hintact⟩
        obtain ⟨b', htail, hlen⟩ := (ih (k+1) hord hrest).mpr ⟨hends, hintact⟩
        refine ⟨b', ?_, hlen⟩
        rw [htail, hitem]
        rfl

/-- Values that fit the buffer are read back exactly when the last of them has a byte, and
each is still there where its reader left it. -/
theorem roundTrips_iff {capacity : UInt32}
    (hfit : (items.flatMap IOItem.bytes).length ≤ capacity.toNat) (junk : ℕ → Byte)
    (left : ℕ → IOItem → IOItem) :
    RoundTrips junk left capacity items ↔ EndsInBytes items ∧ Intact left 0 items := by
  obtain ⟨b₀, hcreate, h₀⟩ := create_holds junk capacity.toNat_lt
  have hfit₀ : ([] : List Byte).length+(items.flatMap IOItem.bytes).length ≤ capacity.toNat := by
    simpa using hfit
  obtain ⟨b₁, hwrite, h₁⟩ := h₀.writeItems junk hfit₀
  have hrun : ((MySKBuffer.create junk capacity.toNat).bind fun b => writeItems junk items b) =
      some b₁ := by rw [hcreate, Option.bind_some, hwrite]
  rw [← readItems_iff left 0 h₁.ordered h₁.contents, RoundTrips, hrun]
  simp only [Option.some.injEq, exists_eq_left']

/-- An empty string and two values after it, in a buffer of their size. -/
theorem roundTrips_three_items :
    RoundTrips (fun _ => 0xCC) (fun _ item => item) 5
      [.string [],.basic .four ⟨7,by decide⟩,.block [9]] := by
  refine (roundTrips_iff (by decide) _ _).mpr ⟨?_, fun _ _ _ _ => rfl⟩
  intro item hitem
  obtain rfl := Option.some.inj hitem
  exact List.cons_ne_nil 9 []

/-- An empty string alone is written, and the read of it throws. -/
theorem not_roundTrips_empty_string :
    (∃ b, MySKBuffer.create (fun _ => 0xCC) 8 = some b ∧
      writeItems (fun _ => 0xCC) [.string []] b = some b ∧
        readItems (fun _ item => item) 0 [.string 0] b = none) ∧
    ¬RoundTrips (fun _ => 0xCC) (fun _ item => item) 8 [.string []] := by
  refine ⟨⟨_, rfl, by decide, by decide⟩, ?_⟩
  rintro ⟨b, hwrite, b', hread, -⟩
  have hb : ((MySKBuffer.create (fun _ => 0xCC) 8).bind
      fun b => writeItems (fun _ => 0xCC) [.string []] b) =
        some ⟨8,⟨8,0,0⟩,MySKBuffer.freshData (fun _ => 0xCC) 8⟩ := by decide
  rw [show (8 : UInt32).toNat = 8 from rfl, hb] at hwrite
  cases hwrite
  have hnone : readItems (fun _ item => item) 0 [.string 0]
      ⟨8,⟨8,0,0⟩,MySKBuffer.freshData (fun _ => 0xCC) 8⟩ = none := by decide
  cases hnone.symm.trans hread

end MyIOBuf
end EchoFrame
