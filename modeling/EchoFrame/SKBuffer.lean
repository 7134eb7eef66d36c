import EchoFrame.MachineInt
import EchoFrame.Verif.Block
import EchoFrame.Verif.LittleEndian

/-! `MF::Buffer::MySKBuffer`, translated from net/buffer/MySKBuffer.h. The block
that `malloc` returns is a packed header of three `uint32_t` followed by the data
area. `none` is a failed assertion or an access outside an allocated block. -/
namespace EchoFrame
open Verif

structure SKBufferHead where
  capacity : ℕ
  readable : ℕ
  writeable : ℕ
deriving DecidableEq, Repr

def sizeofHead : ℕ := 12

def SKBufferHead.bytes (h : SKBufferHead) : List Byte :=
  leBytes 4 h.capacity ++ leBytes 4 h.readable ++ leBytes 4 h.writeable

def SKBufferHead.ofBytes (m : List Byte) : SKBufferHead where
  capacity := leNat (m.take 4)
  readable := leNat ((m.drop 4).take 4)
  writeable := leNat ((m.drop 8).take 4)

structure MySKBuffer where
  minCapacity : ℕ
  head : SKBufferHead
  data : List Byte
deriving DecidableEq, Repr

namespace MySKBuffer

/-- The block behind `head_`, as raw memory. -/
def block (b : MySKBuffer) : List Byte := b.head.bytes ++ b.data

/-- A buffer seen through a raw block, `min_capacity_` being a member of its own. -/
def ofBlock (minCapacity : ℕ) (m : List Byte) : MySKBuffer :=
  ⟨minCapacity, .ofBytes m, m.drop sizeofHead⟩

/-- The block made by `InitHead`; `junk` is what `malloc` leaves in it. Only
`capacity` bytes are zeroed, the header being counted among them. -/
def initHead (junk : ℕ → Byte) (capacity : ℕ) : Option (List Byte) := do
  let buf := (List.range (capacity+sizeofHead)).map junk
  let buf ← store buf 0 (List.replicate capacity 0)
  -- the fields are set one by one in the source
  store buf 0 (SKBufferHead.bytes ⟨capacity,0,0⟩)

def create (junk : ℕ → Byte) (capacity : ℕ) : Option MySKBuffer := do
  let newhead ← initHead junk capacity
  some (ofBlock capacity newhead)

def getReadableLength (b : MySKBuffer) : Option ℕ :=
  if b.head.readable ≤ b.head.writeable then some (b.head.writeable-b.head.readable) else none

def getWriteableLength (b : MySKBuffer) : Option ℕ := do
  let len ← b.getReadableLength
  if len ≤ b.head.capacity then some (b.head.capacity-len) else none

/-- `readable(&length)`: the offset of the pointer, null when nothing is
buffered, and the length written back. -/
def readable (b : MySKBuffer) (length : ℕ) : Option (Option ℕ × ℕ) := do
  let bufLen ← b.getReadableLength
  if bufLen = 0 then some (none,0)
  else some (some b.head.readable, if bufLen < length then bufLen else length)

def moveReadable (b : MySKBuffer) (length : ℕ) : MySKBuffer :=
  { b with head.readable := u32 (b.head.readable+length) }

def getReadableAndMove (b : MySKBuffer) (length : ℕ) :
    Option (MySKBuffer × Option ℕ × ℕ) := do
  let bufLen ← b.getReadableLength
  if bufLen = 0 then some (b,none,0)
  else
    let length := if bufLen < length then bufLen else length
    some (b.moveReadable length, some b.head.readable, length)

def moveWriteable (b : MySKBuffer) (length : ℕ) : MySKBuffer :=
  { b with head.writeable := u32 (b.head.writeable+length) }

/-- `sort`: move the readable bytes to the front and zero the rest. -/
def sort (b : MySKBuffer) : Option MySKBuffer :=
  if b.head.readable = 0 then some b
  else do
    let len ← b.getReadableLength
    let src ← load b.data b.head.readable len
    let data ← store b.data 0 src
    -- the subtraction is one of `uint32_t`
    let data ← store data len (List.replicate (u32 (b.head.capacity+2^32-len)) 0)
    some { b with head.readable := 0, head.writeable := len, data := data }

/-- `incr`: the copy starts after the header's first field and counts
`capacity_` bytes, the two cursors included. -/
def incr (junk : ℕ → Byte) (b : MySKBuffer) : Option MySKBuffer := do
  let capacity := u32 (b.head.capacity+b.minCapacity)
  let newhead ← initHead junk capacity
  let src ← load b.block 4 b.head.capacity
  let newhead ← store newhead 4 src
  -- from here on the header is read back from the new block
  sort (ofBlock capacity newhead)

/-- The cursors go back to zero once reading has caught up with writing. -/
def rewind (b : MySKBuffer) : MySKBuffer :=
  if b.head.readable = b.head.writeable then
    { b with head.readable := 0, head.writeable := 0 }
  else b

/-- The steps that `writeable` and `getWriteableAndMove` share. -/
def makeRoom (junk : ℕ → Byte) (b : MySKBuffer) (length : ℕ) : Option MySKBuffer := do
  let b := b.rewind
  -- the sum wraps, and a wrapped one passes the test
  if b.head.capacity < u32 (b.head.writeable+length) then
    let room ← b.getWriteableLength
    -- one growth step, however long the request
    if length ≤ room then b.sort else b.incr junk
  else some b

/-- `writeable(length)`: the buffer and the offset of the region handed out. -/
def writeable (junk : ℕ → Byte) (b : MySKBuffer) (length : ℕ) : Option (MySKBuffer × ℕ) := do
  let b ← b.makeRoom junk length
  some (b, b.head.writeable)

def getWriteableAndMove (junk : ℕ → Byte) (b : MySKBuffer) (length : ℕ) :
    Option (MySKBuffer × ℕ) := do
  let b ← b.makeRoom junk length
  some (b.moveWriteable length, b.head.writeable)

def reset (b : MySKBuffer) : Option MySKBuffer := do
  let data ← store b.data 0 (List.replicate b.head.capacity 0)
  some { b with head.readable := 0, head.writeable := 0, data := data }

/-- The caller of a write stores bytes through the pointer it was handed. -/
def put (b : MySKBuffer) (off : ℕ) (xs : List Byte) : Option MySKBuffer := do
  let data ← store b.data off xs
  some { b with data := data }

def contents (b : MySKBuffer) : List Byte :=
  (b.data.drop b.head.readable).take (b.head.writeable-b.head.readable)

/-- What every operation keeps: the data area is as large as the header says,
`min_capacity_` follows the capacity, and the cursors are in order. -/
structure Ordered (b : MySKBuffer) : Prop where
  data_len : b.data.length = b.head.capacity
  min_eq : b.minCapacity = b.head.capacity
  readable_le : b.head.readable ≤ b.head.writeable
  writeable_le : b.head.writeable ≤ b.head.capacity
  capacity_lt : b.head.capacity < 2^32

end MySKBuffer
end EchoFrame
