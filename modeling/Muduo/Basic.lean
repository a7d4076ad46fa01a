/-
What the sources take from the language and the kernel.

`size_t` is 64 bits wide, so its sums and differences are taken modulo 2^64, and a
result of -1 from the kernel turns into 2^64 - 1 when it is stored in a `size_t`.
The sources do both, so neither is abstracted away.  A run that the language leaves
undefined or that ends in an exception has no state after it: it is a `Fault`.
-/
import Mathlib.Algebra.Group.Int.Defs
import Mathlib.Algebra.Group.Nat.Defs
import Muduo.Lib.Segment

namespace Muduo

abbrev Byte := UInt8
abbrev Tid := Nat

/-- Why a computation has no state after it. -/
inductive Fault
  /-- `std::vector::resize` above `max_size` throws `std::length_error`. -/
  | lengthError
  /-- A read or write outside the object it goes to. -/
  | outOfBounds
  /-- `std::copy` with a destination inside its own source range. -/
  | overlappingCopy
  /-- A call through an empty `std::function`. -/
  | badFunctionCall
  /-- `LOG_FATAL` aborts the process. -/
  | abort
  deriving DecidableEq, Repr

/-! ### `size_t` -/

def sizeAdd (a b : Nat) : Nat := (a + b) % 2 ^ 64

def sizeSub (a b : Nat) : Nat := (a + (2 ^ 64 - b)) % 2 ^ 64

/-- An `ssize_t` stored in a `size_t`. -/
def toSize (r : Int) : Nat := (r % 2 ^ 64).toNat

/-- `max_size()` of a `std::vector<char>`. -/
def maxSize : Nat := 2 ^ 63 - 1

/-- An integer stored in an `int`: a signed overflow wraps around. -/
def toInt (n : Int) : Int := n.bmod (2 ^ 32)

theorem sizeAdd_eq {a b : Nat} (h : a + b < 2 ^ 64) : sizeAdd a b = a + b :=
  Nat.mod_eq_of_lt h

theorem sizeSub_eq {a b : Nat} (hb : b ≤ a) (ha : a < 2 ^ 64) : sizeSub a b = a - b := by
  unfold sizeSub
  omega

theorem toSize_eq {r : Int} {n : Nat} (h0 : 0 ≤ r) (hn : r ≤ n) (h : n < 2 ^ 64) :
    toSize r = r.toNat := by
  unfold toSize
  omega

theorem toInt_eq {n : Int} (h0 : -2 ^ 31 ≤ n) (h : n < 2 ^ 31) : toInt n = n :=
  Int.bmod_eq_of_le (by omega) (by omega)

/-- What the kernel reports as the cause of a failed call. -/
inductive Errno
  | EWOULDBLOCK
  | EPIPE
  | ECONNRESET
  | other (code : Nat)
  deriving DecidableEq, Repr

/-- What a `::write` returns: the count, or -1 with `errno` set. -/
structure WriteResult where
  ret : Int
  errno : Errno
  deriving DecidableEq, Repr

/-- What a `::readv` returns, with the bytes it stored. -/
structure ReadvResult where
  ret : Int
  data : List Byte
  errno : Errno
  deriving DecidableEq, Repr

/-- The call failed: it stored nothing. -/
def ReadvResult.Failed (r : ReadvResult) : Prop := r.ret = -1 ∧ r.data = []

instance (r : ReadvResult) : Decidable r.Failed :=
  inferInstanceAs (Decidable (r.ret = -1 ∧ r.data = []))

/-! ### Memory

The memory a caller's message lies in.  A released byte has no value, and reading it
is undefined.  Addresses wrap like every `size_t`.
-/

def Mem := Nat → Option Byte

/-- The `n` bytes from address `p` on. -/
def Mem.read (m : Mem) (p : Nat) : Nat → Except Fault (List Byte)
  | 0 => .ok []
  | n + 1 =>
      match m (p % 2 ^ 64) with
      | none => .error .outOfBounds
      | some b => (m.read (p + 1) n).map (b :: ·)

/-- The byte at address `a` written, or released when there is no new value. -/
def Mem.poke (m : Mem) (a : Nat) (b : Option Byte) : Mem :=
  fun x => if x = a % 2 ^ 64 then b else m x

/-- Address `a` is one of the `n` bytes from `p` on. -/
def Covers (p n a : Nat) : Prop := ∃ i < n, (p + i) % 2 ^ 64 = a % 2 ^ 64

instance (p n a : Nat) : Decidable (Covers p n a) :=
  inferInstanceAs (Decidable (∃ i < n, (p + i) % 2 ^ 64 = a % 2 ^ 64))

namespace Mem

variable {m m' : Mem}

theorem read_mod (p n : Nat) : m.read (p % 2 ^ 64) n = m.read p n := by
  induction n generalizing p with
  | zero => rfl
  | succ n ih =>
      have hmod : (p % 2 ^ 64 + 1) % 2 ^ 64 = (p + 1) % 2 ^ 64 := by omega
      simp only [read, Nat.mod_mod]
      rw [← ih (p % 2 ^ 64 + 1), hmod, ih (p + 1)]

theorem read_succ {p n : Nat} {bs : List Byte} (h : m.read p (n + 1) = .ok bs) :
    ∃ b rest, m (p % 2 ^ 64) = some b ∧ m.read (p + 1) n = .ok rest ∧ bs = b :: rest := by
  simp only [read] at h
  cases hb : m (p % 2 ^ 64) with
  | none =>
      rw [hb] at h
      simp at h
  | some b =>
      rw [hb] at h
      cases hr : m.read (p + 1) n with
      | error e => simp [hr, Except.map] at h
      | ok rest =>
          simp only [hr, Except.map, Except.ok.injEq] at h
          exact ⟨b, rest, rfl, rfl, h.symm⟩

theorem read_length {p n : Nat} {bs : List Byte} (h : m.read p n = .ok bs) :
    bs.length = n := by
  induction n generalizing p bs with
  | zero => simp only [read, Except.ok.injEq] at h; simp [← h]
  | succ n ih =>
      obtain ⟨b, rest, -, hr, rfl⟩ := read_succ h
      simp [ih hr]

/-- Two adjacent blocks read as one. -/
theorem read_append {p k n : Nat} {bs cs : List Byte} (h₁ : m.read p k = .ok bs)
    (h₂ : m.read (p + k) n = .ok cs) : m.read p (k + n) = .ok (bs ++ cs) := by
  induction k generalizing p bs with
  | zero =>
      simp only [read, Except.ok.injEq] at h₁
      simpa [← h₁] using h₂
  | succ k ih =>
      obtain ⟨b, rest, hb, hr, rfl⟩ := read_succ h₁
      rw [show p + (k + 1) = p + 1 + k by omega] at h₂
      rw [show k + 1 + n = k + n + 1 by omega]
      simp only [read, hb, ih hr h₂, Except.map, List.cons_append]

/-- A block none of whose bytes is poked reads as before. -/
theorem read_poke {p n a : Nat} {b : Option Byte} (h : ¬ Covers p n a) :
    (m.poke a b).read p n = m.read p n := by
  induction n generalizing p with
  | zero => rfl
  | succ n ih =>
      have hhead : m.poke a b (p % 2 ^ 64) = m (p % 2 ^ 64) := by
        unfold poke
        rw [if_neg (fun hc => h ⟨0, by omega, by simpa using hc⟩)]
      have htail : ¬ Covers (p + 1) n a := by
        rintro ⟨i, hi, hia⟩
        exact h ⟨i + 1, by omega, by rw [← hia]; congr 1; omega⟩
      simp only [read, hhead, ih htail]

end Mem

end Muduo
