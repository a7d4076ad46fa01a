/-
The storage of a `Buffer` stays proportional to its content.

`makeSpace` makes the vector grow from the writer index on, whatever lies in front of the
reader index.  But it does so only where the bytes and the prependable ones would not fit
without the slack, so that the slack carried into the new size is less than the bytes
that are then readable.  A step therefore either leaves the size as it is or makes it less
than twice the readable bytes and the eight in front, and the largest number of readable
bytes so far bounds it in every run.
-/
import Muduo.Proofs.BufferSystem

namespace Muduo

open Segment

namespace Buffer

variable {b b' : Buffer} {len : Nat}

/-! ### One operation -/

/-- `makeSpace` moves the bytes down, or grows by no more than there is to hold. -/
theorem ensureWritableBytes_length (h : WF b) (hroom : b.Room len)
    (he : b.ensureWritableBytes len = .ok b') : b'.buffer.length = b.buffer.length ∨
      b'.buffer.length < 2 * (b.readableBytes + len) + kCheapPrepend := by
  have hw := writableBytes_eq h
  have hread := readableBytes_eq h
  have horder := h.order
  have hfits := h.fits
  have hsize := h.size
  unfold ensureWritableBytes at he
  split at he
  · unfold makeSpace at he
    split at he
    · rename_i hgrow
      rw [prependableBytes, sizeAdd_eq (by unfold maxSize at *; omega), sizeAdd_eq hroom.2]
        at hgrow
      rw [sizeAdd_eq hroom.1] at he
      obtain ⟨-, -, hlength, -⟩ := resize_spec h (Nat.le_add_right _ _) he
      refine .inr ?_
      rw [hlength]
      omega
    · obtain ⟨moved, hmoved, hret⟩ := Except.bind_eq_ok.mp he
      rw [Except.pure_eq_ok] at hret
      obtain ⟨-, -, hlength, -⟩ := compact_spec h hmoved
      rw [← hret]
      exact .inl hlength
  · rw [← Except.ok.inj he]
    exact .inl rfl

theorem append_length (h : WF b) (hroom : b.Room len) {data : List Byte}
    (ha : b.append data len = .ok b') : b'.buffer.length = b.buffer.length ∨
      b'.buffer.length < 2 * b'.readableBytes + kCheapPrepend := by
  obtain ⟨hdata, hwf, hcontent⟩ := append_eq_ok h ha
  have hreadable : b'.readableBytes = b.readableBytes + len := by
    rw [← length_content hwf, ← length_content h, hcontent, List.length_append,
      List.length_take_of_le hdata]
  obtain ⟨m, hm, hrest⟩ := Except.bind_eq_ok.mp ha
  split at hrest
  · simp at hrest
  · rename_i hfit
    rw [Except.pure_eq_ok] at hrest
    have htake : (data.take len).length = len := List.length_take_of_le hdata
    have hlength : b'.buffer.length = m.buffer.length := by
      rw [← hrest]
      exact length_overwrite (by omega)
    rw [hlength, hreadable]
    exact ensureWritableBytes_length h hroom hm

/-- The bytes of a `::readv` that did not fit are appended to a vector that is full. -/
theorem readFd_length (h : WF b) {r : ReadvResult} (hret : r.ret = r.data.length)
    (hlimit : r.data.length ≤ b.readvLimit) {n : Nat} {e : Option Errno}
    (hr : b.readFd r = .ok (b', n, e)) : b'.buffer.length = b.buffer.length ∨
      b'.buffer.length < 2 * b'.readableBytes + kCheapPrepend := by
  have hn := toSize_count h hret hlimit
  unfold readFd at hr
  simp only [hn] at hr
  rw [if_neg (Nat.not_lt_zero _)] at hr
  by_cases hshort : r.data.length < b.writableBytes
  · rw [if_pos hshort, Except.pure_eq_ok, Prod.mk.injEq] at hr
    refine .inl ?_
    rw [← hr.1]
    exact length_overwrite (readv_inside h hlimit).1
  · rw [if_neg hshort] at hr
    have hfull := Nat.le_of_not_lt hshort
    obtain ⟨m, hm, hrest⟩ := Except.bind_eq_ok.mp hr
    rw [Except.pure_eq_ok, Prod.mk.injEq] at hrest
    rw [spill_length h hfull hlimit] at hm
    rw [← hrest.1, ← fill_length h hfull]
    exact append_length (fill_spec h hfull).1 (spill_room h hfull hlimit) hm

theorem retrieve_length (b : Buffer) (n : Nat) :
    (b.retrieve n).buffer.length = b.buffer.length := by
  unfold retrieve
  split <;> rfl

end Buffer

namespace BufferSystem

open Buffer

variable {s s' : BufferSystem} {op : BufferOp}

/-- The operation is not a call of `ensureWritableBytes` by itself, which makes room for bytes
that need not come. -/
def Filling (_s : BufferSystem) : BufferOp → Prop
  | .ensureWritableBytes _ => False
  | _ => True

theorem run_length {b b' : Buffer} {returned : List Byte} (h : WF b) (hadm : op.Admitted b)
    (hfilling : s.Filling op) (hrun : op.run b = .ok (returned, b')) :
    b'.buffer.length = b.buffer.length ∨
      b'.buffer.length < 2 * b'.readableBytes + kCheapPrepend := by
  cases op with
  | append data n =>
      obtain ⟨m, hm, hret⟩ := Except.map_eq_ok.mp hrun
      obtain ⟨-, rfl⟩ := Prod.mk.inj hret
      exact append_length h hadm.2 hm
  | readFd r =>
      obtain ⟨⟨m, n, e⟩, hm, hret⟩ := Except.map_eq_ok.mp hrun
      obtain ⟨-, rfl⟩ := Prod.mk.inj hret
      exact readFd_length h hadm.1 hadm.2 hm
  | retrieve n =>
      obtain ⟨-, rfl⟩ := Prod.mk.inj (Except.ok.inj hrun)
      exact .inl (retrieve_length b n)
  | retrieveAll =>
      obtain ⟨-, rfl⟩ := Prod.mk.inj (Except.ok.inj hrun)
      exact .inl rfl
  | retrieveAsString n =>
      rw [(retrieveAsString_eq_ok hrun).2]
      exact .inl (retrieve_length b n)
  | retrieveAllAsString =>
      rw [(retrieveAsString_eq_ok hrun).2]
      exact .inl (retrieve_length b _)
  | ensureWritableBytes n => exact hfilling.elim

/-! ### Runs -/

/-- The larger of the size a buffer begins with, and twice the readable bytes with the eight in
front. -/
def storageBound (readable : Nat) : Nat :=
  max (kCheapPrepend + kInitialSize) (2 * readable + kCheapPrepend)

theorem storageBound_mono {m n : Nat} (h : m ≤ n) : storageBound m ≤ storageBound n := by
  unfold storageBound
  omega

/-- The vector of a buffer is never longer than the bound for the largest number of bytes that
have been readable so far. -/
theorem storage_bounded {p : BufferSystem × Nat}
    (h : ((lts.restrict Filling).peak fun s => s.buffer.readableBytes).Reachable p) :
    p.1.buffer.buffer.length ≤
      max (kCheapPrepend + kInitialSize) (2 * p.2 + kCheapPrepend) := by
  refine h.bound_of_peak (g := fun s => s.buffer.buffer.length) (B := storageBound)
    (fun _ _ => storageBound_mono) ?_ ?_
  · intro s₀ h0
    obtain ⟨⟨n, hbuffer⟩, -⟩ := h0
    have hlength : (Buffer.new n).buffer.length = kCheapPrepend + kInitialSize :=
      List.length_replicate
    rw [hbuffer, hlength]
    exact Nat.le_max_left _ _
  · intro s op s' hs hstep
    obtain ⟨hfilling, hadm, hexec⟩ := hstep
    have hwf := (kept_of_reachable hs.of_restrict).wf
    obtain ⟨⟨returned, b⟩, hrun, hret⟩ := Except.bind_eq_ok.mp hexec
    rw [Except.pure_eq_ok] at hret
    rw [← hret]
    rcases run_length hwf hadm hfilling hrun with hsame | hless
    · exact .inl (Nat.le_of_eq hsame)
    · exact .inr (Nat.le_trans (Nat.le_of_lt hless) (Nat.le_max_right _ _))

/-- Two thousand bytes are appended to a new buffer, whose vector then grows. -/
theorem storage_bounded_grown : ∃ s, ((lts.restrict Filling).peak
    fun s => s.buffer.readableBytes).Reachable (s, 2000) ∧ s.buffer.buffer.length ≤ 4008 := by
  obtain ⟨data, hdata⟩ : ∃ data : List Byte, data.length = 2000 :=
    ⟨List.replicate 2000 0, List.length_replicate⟩
  have h0 : ((lts.restrict Filling).peak fun s => s.buffer.readableBytes).Reachable
      (⟨Buffer.new kInitialSize, [], []⟩, 0) :=
    Lts.Reachable.of_init ⟨⟨⟨kInitialSize, rfl⟩, rfl, rfl⟩, rfl⟩
  have hadm : (BufferOp.append data 2000).Admitted (Buffer.new kInitialSize) :=
    ⟨Nat.le_of_eq hdata.symm, by decide, by decide⟩
  rcases append_runs (WF.new kInitialSize) hadm.1 hadm.2 with ⟨-, hmax⟩ | ⟨b, hok, hwf, hcontent⟩
  · -- that many bytes are not too many
    exact absurd hmax (by decide)
  · have hreadable : b.readableBytes = 2000 := by
      rw [← length_content hwf, hcontent, content_new, List.nil_append,
        List.length_take_of_le hadm.1]
    have hexec : (⟨Buffer.new kInitialSize, [], []⟩ : BufferSystem).exec (.append data 2000) =
        .ok ⟨b, data.take 2000, []⟩ := by
      simp only [exec, BufferOp.run, hok]
      rfl
    have h1 : ((lts.restrict Filling).peak fun s => s.buffer.readableBytes).Reachable
        (⟨b, data.take 2000, []⟩, 2000) :=
      h0.step (a := BufferOp.append data 2000) ⟨⟨trivial, hadm, hexec⟩, by
        show 2000 = max 0 b.readableBytes
        rw [hreadable]
        rfl⟩
    exact ⟨_, h1, storage_bounded h1⟩

end BufferSystem

end Muduo
