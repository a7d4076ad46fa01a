/-
One `Buffer`, with all that was put into it and all that was taken out of it.

`run` is a member function on the buffer; `fifo` is the same operation on a plain queue
of bytes, which is what the class is for.  The state keeps what `append` and `readFd` have
added and what the `retrieve` functions have taken, so that a run can be asked whether the
readable bytes are exactly those added and not yet taken.
-/
import Muduo.Lib.Lts
import Muduo.Lib.Pipe
import Muduo.Buffer

namespace Muduo

open Segment

inductive BufferOp
  /-- `append(data, len)`, where `data` lists the bytes that can be read from there on. -/
  | append (data : List Byte) (len : Nat)
  | retrieve (len : Nat)
  | retrieveAll
  | retrieveAsString (len : Nat)
  | retrieveAllAsString
  | ensureWritableBytes (len : Nat)
  | readFd (r : ReadvResult)

namespace Buffer

/-- `len` more bytes do not overflow the sums of `makeSpace`. -/
def Room (b : Buffer) (len : Nat) : Prop :=
  b.writerIdx + len < 2 ^ 64 ∧ len + kCheapPrepend < 2 ^ 64

/-- `ensureWritableBytes(len)` gets to the copy of `makeSpace`. -/
def Compacts (b : Buffer) (len : Nat) : Prop :=
  b.writableBytes < len ∧
    ¬ sizeAdd b.writableBytes b.prependableBytes < sizeAdd len kCheapPrepend

end Buffer

namespace BufferOp

/-- The operation, and the string it returns, empty for a function that returns none. -/
def run : BufferOp → Buffer → Except Fault (List Byte × Buffer)
  | .append data len, b => (b.append data len).map ([], ·)
  | .retrieve len, b => .ok ([], b.retrieve len)
  | .retrieveAll, b => .ok ([], b.retrieveAll)
  | .retrieveAsString len, b => b.retrieveAsString len
  | .retrieveAllAsString, b => b.retrieveAllAsString
  | .ensureWritableBytes len, b => (b.ensureWritableBytes len).map ([], ·)
  | .readFd r, b => (b.readFd r).map fun x => ([], x.1)

/-- The operation on a queue of bytes. -/
def fifo : BufferOp → List Byte → List Byte × List Byte
  | .append data len, q => ([], q ++ data.take len)
  | .retrieve len, q => ([], q.drop len)
  | .retrieveAll, _ => ([], [])
  | .retrieveAsString len, q => (q.take len, q.drop len)
  | .retrieveAllAsString, q => (q, [])
  | .ensureWritableBytes _, q => ([], q)
  | .readFd r, q => ([], q ++ r.data)

/-- What a caller has to see to: the bytes it hands over are there, it asks for no more
than there is, and no size overflows.  `::readv` fills the vectors it was handed. -/
def Admitted (b : Buffer) : BufferOp → Prop
  | .append data len => len ≤ data.length ∧ b.Room len
  | .retrieveAsString len => len ≤ b.readableBytes
  | .ensureWritableBytes len => b.Room len
  | .readFd r => r.ret = r.data.length ∧ r.data.length ≤ b.readvLimit
  | .retrieve _ | .retrieveAll | .retrieveAllAsString => True

/-- What the types and the kernel see to, whatever the caller asks for: a length is a
`size_t`, and `::readv` fills the vectors it was handed or fails. -/
def Callable (b : Buffer) : BufferOp → Prop
  | .append _ len | .retrieve len | .retrieveAsString len | .ensureWritableBytes len =>
      len < 2 ^ 64
  | .readFd r => r.Failed ∨ (r.ret = r.data.length ∧ r.data.length ≤ b.readvLimit)
  | .retrieveAll | .retrieveAllAsString => True

instance (b : Buffer) : (op : BufferOp) → Decidable (op.Callable b)
  | .append _ len | .retrieve len | .retrieveAsString len | .ensureWritableBytes len =>
      inferInstanceAs (Decidable (len < 2 ^ 64))
  | .readFd r => inferInstanceAs (Decidable (r.Failed ∨ _))
  | .retrieveAll | .retrieveAllAsString => inferInstanceAs (Decidable True)

/-- The call of `ensureWritableBytes` an operation makes: the buffer and the length. -/
def ensures : BufferOp → Buffer → Option (Buffer × Nat)
  | .append _ len, b => some (b, len)
  | .ensureWritableBytes len, b => some (b, len)
  | .readFd r, b =>
      let n := toSize r.ret
      let filled := overwrite b.buffer b.writerIdx (r.data.take b.writableBytes)
      if n < b.writableBytes then none
      else some ({ b with buffer := filled, writerIdx := filled.length },
        sizeSub n b.writableBytes)
  | _, _ => none

/-- The bytes the operation adds. -/
def added : BufferOp → List Byte
  | .append data len => data.take len
  | .readFd r => r.data
  | _ => []

/-- The bytes the operation takes out: for a function that returns a string, that string. -/
def taken (op : BufferOp) (b : Buffer) (returned : List Byte) : List Byte :=
  match op with
  | .retrieve len => b.content.take len
  | .retrieveAll => b.content
  | .retrieveAsString _ | .retrieveAllAsString => returned
  | _ => []

end BufferOp

structure BufferSystem where
  buffer : Buffer
  /-- Every byte `append` or `readFd` has added. -/
  added : List Byte
  /-- Every byte a `retrieve` function has taken. -/
  taken : List Byte

namespace BufferSystem

variable (s : BufferSystem)

/-- What has left the buffer, and what it holds. -/
def pipe : Pipe Byte where
  out := s.taken
  held := s.buffer.content

def exec (op : BufferOp) : Except Fault BufferSystem := do
  let (returned, b) ← op.run s.buffer
  return { buffer := b
           added := s.added ++ op.added
           taken := s.taken ++ op.taken s.buffer returned }

/-- The system: an admitted operation that ends without a fault. -/
def lts : Lts BufferSystem BufferOp where
  init s := (∃ initialSize, s.buffer = Buffer.new initialSize) ∧ s.added = [] ∧ s.taken = []
  step s op s' := op.Admitted s.buffer ∧ s.exec op = .ok s'

/-- The system of a caller that sees to nothing: any call that ends without a fault. -/
def calls : Lts BufferSystem BufferOp where
  init := lts.init
  step s op s' := op.Callable s.buffer ∧ s.exec op = .ok s'

end BufferSystem

end Muduo
