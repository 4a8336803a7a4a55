import EventServer.Support.Machine
import EventServer.Network.SocketsOps

/-!
# The byte buffer

The functions of `Buffer.h` and `Buffer.cc`, with the vector, the two indices
and the wrap-around of `size_t` as the source has them.  A pointer into the
buffer is its offset from `begin()`.  The three regions

    prependable bytes | readable bytes | writable bytes

of a buffer are recovered from the indices by `Buffer.Regions`, which is what
the proofs about the operations work with.
-/

namespace EventServer.Network

open EventServer.Support

structure Buffer where
  buffer_ : List UInt8
  readerIndex_ : ℕ
  writerIndex_ : ℕ
  deriving DecidableEq, Repr

namespace Buffer

def kCheapPrepend : ℕ := 8

def kInitialSize : ℕ := 1024

/-- The size of the area on the stack into which `readFd` reads what does not
fit in the buffer. -/
def extrabufSize : ℕ := 65536

/-! ## Observers -/

def readableBytes (b : Buffer) : ℕ := sizeSub b.writerIndex_ b.readerIndex_

def writableBytes (b : Buffer) : ℕ := sizeSub b.buffer_.length b.writerIndex_

def prependableBytes (b : Buffer) : ℕ := b.readerIndex_

/-- The `len` bytes that `peek()` points to. -/
def peekBytes (b : Buffer) (len : ℕ) : List UInt8 :=
  (b.buffer_.drop b.readerIndex_).take len

/-! ## Operations -/

/-- `b.swap(rhs)`: the new values of `b` and `rhs`. -/
def swap (b rhs : Buffer) : Buffer × Buffer :=
  (⟨rhs.buffer_, rhs.readerIndex_, rhs.writerIndex_⟩,
    ⟨b.buffer_, b.readerIndex_, b.writerIndex_⟩)

/-- `Buffer(size_t initialSize)`. -/
def create (initialSize : ℕ) : Except Fault Buffer := do
  let size := sizeAdd kCheapPrepend initialSize
  ensure (size ≤ vectorMaxSize) .lengthError
  let b : Buffer := ⟨List.replicate size 0, kCheapPrepend, kCheapPrepend⟩
  ensure (b.readableBytes = 0) .assertion
  ensure (b.writableBytes = initialSize) .assertion
  ensure (b.prependableBytes = kCheapPrepend) .assertion
  return b

def retrieveAll (b : Buffer) : Buffer :=
  { b with readerIndex_ := kCheapPrepend, writerIndex_ := kCheapPrepend }

def retrieve (b : Buffer) (len : ℕ) : Except Fault Buffer := do
  ensure (len ≤ b.readableBytes) .assertion
  if len < b.readableBytes
  then return { b with readerIndex_ := sizeAdd b.readerIndex_ len }
  else return b.retrieveAll

def retrieveUntil (b : Buffer) (last : ℕ) : Except Fault Buffer := do
  ensure (b.readerIndex_ ≤ last) .assertion
  ensure (last ≤ b.writerIndex_) .assertion
  b.retrieve (last - b.readerIndex_)

def retrieveAsString (b : Buffer) (len : ℕ) :
    Except Fault (Buffer × List UInt8) := do
  ensure (len ≤ b.readableBytes) .assertion
  let result := b.peekBytes len
  let b ← b.retrieve len
  return (b, result)

/-- Grow the vector, or move the readable bytes down to `kCheapPrepend`.  The
ranges of the move overlap only towards lower addresses, so that `std::copy`
moves the bytes as they were. -/
def makeSpace (b : Buffer) (len : ℕ) : Except Fault Buffer :=
  if sizeAdd b.writableBytes b.prependableBytes < sizeAdd len kCheapPrepend
  then do
    let v ← vectorResize b.buffer_ (sizeAdd b.writerIndex_ len)
    return { b with buffer_ := v }
  else do
    ensure (kCheapPrepend < b.readerIndex_) .assertion
    let readable := b.readableBytes
    let moved : Buffer :=
      { buffer_ := overwrite b.buffer_ kCheapPrepend (b.peekBytes readable)
        readerIndex_ := kCheapPrepend
        writerIndex_ := sizeAdd kCheapPrepend readable }
    ensure (readable = moved.readableBytes) .assertion
    return moved

def ensureWritableBytes (b : Buffer) (len : ℕ) : Except Fault Buffer := do
  let b ← if b.writableBytes < len then b.makeSpace len else .ok b
  ensure (len ≤ b.writableBytes) .assertion
  return b

def hasWritten (b : Buffer) (len : ℕ) : Except Fault Buffer := do
  ensure (len ≤ b.writableBytes) .assertion
  return { b with writerIndex_ := sizeAdd b.writerIndex_ len }

def unwrite (b : Buffer) (len : ℕ) : Except Fault Buffer := do
  ensure (len ≤ b.readableBytes) .assertion
  return { b with writerIndex_ := sizeSub b.writerIndex_ len }

/-- Store bytes through the pointer that `beginWrite()` returns. -/
def storeAtBeginWrite (b : Buffer) (data : List UInt8) : Buffer :=
  { b with buffer_ := overwrite b.buffer_ b.writerIndex_ data }

/-- `append(const char* data, size_t len)`. -/
def append (b : Buffer) (data : List UInt8) : Except Fault Buffer := do
  let b ← b.ensureWritableBytes data.length
  (b.storeAtBeginWrite data).hasWritten data.length

def prepend (b : Buffer) (data : List UInt8) : Except Fault Buffer := do
  ensure (data.length ≤ b.prependableBytes) .assertion
  let reader := sizeSub b.readerIndex_ data.length
  return { b with
    buffer_ := overwrite b.buffer_ reader data, readerIndex_ := reader }

/-- How many bytes the `iovec`s of `readFd` have room for. -/
def iovCapacity (b : Buffer) : ℕ :=
  if b.writableBytes < extrabufSize
  then b.writableBytes + extrabufSize
  else b.writableBytes

/-- `readFd`, given the answer of `readv`: the buffer, the result, and the
value stored in `*savedErrno`, if any. -/
def readFd (b : Buffer) (result : ReadvResult) :
    Except Fault (Buffer × ℤ × Option Errno) :=
  match result with
  | .failed errno => return (b, -1, some errno)
  | .stored bytes => do
      let writable := b.writableBytes
      let n := bytes.length
      -- `readv` fills the first area before it touches `extrabuf`
      let filled := b.storeAtBeginWrite (bytes.take writable)
      if n ≤ writable
      then
        return ({ filled with writerIndex_ := sizeAdd b.writerIndex_ n }, n, none)
      else
        let full := { filled with writerIndex_ := filled.buffer_.length }
        let appended ← full.append (bytes.drop writable)
        return (appended, n, none)

end Buffer

end EventServer.Network
