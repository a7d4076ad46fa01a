/-
`Buffer` of `Buffer.h` and `Buffer.cpp`.

The vector is a list of bytes and the two indices are natural numbers; every sum and
difference of sizes goes through `sizeAdd` and `sizeSub`, because the comparisons in
`makeSpace` and `readFd` are made on `size_t` values and some of them wrap.  An access
outside the vector, a resize above `max_size` and a copy into its own source range
are faults.
-/
import Muduo.Basic

namespace Muduo

open Segment

structure Buffer where
  buffer : List Byte
  readerIdx : Nat
  writerIdx : Nat
  deriving DecidableEq, Repr

namespace Buffer

def kCheapPrepend : Nat := 8
def kInitialSize : Nat := 1024

/-- The constructor.  It takes an `initialSize` and does not look at it. -/
def new (_initialSize : Nat) : Buffer where
  buffer := List.replicate (kCheapPrepend + kInitialSize) 0
  readerIdx := kCheapPrepend
  writerIdx := kCheapPrepend

def readableBytes (b : Buffer) : Nat := sizeSub b.writerIdx b.readerIdx

def writableBytes (b : Buffer) : Nat := sizeSub b.buffer.length b.writerIdx

def prependableBytes (b : Buffer) : Nat := b.readerIdx

/-- The bytes between the reader and the writer index. -/
def content (b : Buffer) : List Byte := window b.buffer b.readerIdx b.writerIdx

def retrieveAll (b : Buffer) : Buffer :=
  { b with readerIdx := kCheapPrepend, writerIdx := kCheapPrepend }

def retrieve (b : Buffer) (len : Nat) : Buffer :=
  if len < b.readableBytes then { b with readerIdx := sizeAdd b.readerIdx len }
  else b.retrieveAll

/-- `std::string res(peek(), len)` reads `len` bytes whatever the writer index is. -/
def retrieveAsString (b : Buffer) (len : Nat) : Except Fault (List Byte × Buffer) :=
  if b.buffer.length < b.readerIdx + len then .error .outOfBounds
  else .ok (window b.buffer b.readerIdx (b.readerIdx + len), b.retrieve len)

def retrieveAllAsString (b : Buffer) : Except Fault (List Byte × Buffer) :=
  b.retrieveAsString b.readableBytes

/-- `m_buffer.resize(n)`. -/
def resize (b : Buffer) (n : Nat) : Except Fault Buffer :=
  if maxSize < n then .error .lengthError
  else .ok { b with buffer := Segment.resize b.buffer n 0 }

/-- `std::copy` of the `n` bytes at `first` to `d`, both in the vector. -/
def copyWithin (xs : List Byte) (first n d : Nat) : Except Fault (List Byte) :=
  if xs.length < first + n ∨ xs.length < d + n then .error .outOfBounds
  else if first ≤ d ∧ d < first + n then .error .overlappingCopy
  else .ok (overwrite xs d (window xs first (first + n)))

def makeSpace (b : Buffer) (len : Nat) : Except Fault Buffer :=
  if sizeAdd b.writableBytes b.prependableBytes < sizeAdd len kCheapPrepend then
    b.resize (sizeAdd b.writerIdx len)
  else do
    let readable := b.readableBytes
    let moved ← copyWithin b.buffer b.readerIdx readable kCheapPrepend
    return { buffer := moved, readerIdx := kCheapPrepend,
             writerIdx := sizeAdd kCheapPrepend readable }

def ensureWritableBytes (b : Buffer) (len : Nat) : Except Fault Buffer :=
  if b.writableBytes < len then b.makeSpace len else .ok b

def hasWritten (b : Buffer) (len : Nat) : Buffer :=
  { b with writerIdx := sizeAdd b.writerIdx len }

/-- `append(data, len)`, where `data` lists the bytes that can be read from there on. -/
def append (b : Buffer) (data : List Byte) (len : Nat) : Except Fault Buffer := do
  let b ← b.ensureWritableBytes len
  if data.length < len ∨ b.buffer.length < b.writerIdx + len then
    .error .outOfBounds
  else
    return { b with buffer := overwrite b.buffer b.writerIdx (data.take len) }.hasWritten len

/-- `sizeof extrabuf` in `readFd`. -/
def extrabufSize : Nat := 65536

/-- The length of the vectors `readFd` hands to `::readv`. -/
def readvLimit (b : Buffer) : Nat :=
  if b.writableBytes < extrabufSize then b.writableBytes + extrabufSize else b.writableBytes

/-- `readFd`: the count it returns, and what it stored in `*saveErrno`, if anything.
The count is a `size_t`, so the test `n < 0` never holds. -/
def readFd (b : Buffer) (r : ReadvResult) : Except Fault (Buffer × Nat × Option Errno) := do
  let writable := b.writableBytes
  -- `::readv` fills the free end of the vector first, then `extrabuf`
  let b := { b with buffer := overwrite b.buffer b.writerIdx (r.data.take writable) }
  let extrabuf := overwrite (List.replicate extrabufSize 0) 0 (r.data.drop writable)
  let n := toSize r.ret
  if n < 0 then
    return (b, n, some r.errno)
  else if n < writable then
    return (b.hasWritten n, n, none)
  else
    let b ← { b with writerIdx := b.buffer.length }.append extrabuf (sizeSub n writable)
    return (b, n, none)

/-- `writeFd`: the count `::write` returned, as a `size_t`. -/
def writeFd (_b : Buffer) (w : WriteResult) : Nat × Option Errno :=
  let n := toSize w.ret
  if n < 0 then (n, some w.errno) else (n, none)

end Buffer

end Muduo
