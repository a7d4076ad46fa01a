/-
What each `Buffer` operation does to the readable bytes.

`WF` is the invariant of the class comment: the prependable bytes come first, then the
readable ones, then the writable ones, and the vector is one the library can hold.
Under it every operation that returns keeps the order of the bytes: `append` adds at
the end and `retrieve` takes from the front, whether the vector grew, was compacted or
was left alone.
-/
import Muduo.Buffer
import Muduo.Lib.Result

namespace Muduo.Buffer

open Segment

/-- The index order of the class comment, and a vector no longer than `max_size`. -/
structure WF (b : Buffer) : Prop where
  prepend : kCheapPrepend ≤ b.readerIdx
  order : b.readerIdx ≤ b.writerIdx
  fits : b.writerIdx ≤ b.buffer.length
  size : b.buffer.length ≤ maxSize

theorem WF.new (n : Nat) : WF (Buffer.new n) where
  prepend := Nat.le_refl _
  order := Nat.le_refl _
  fits := by
    simp only [Buffer.new, List.length_replicate]
    exact Nat.le_add_right _ _
  size := by
    simp only [Buffer.new, List.length_replicate]
    decide

@[simp] theorem content_new (n : Nat) : (Buffer.new n).content = [] := by
  simp [content, Buffer.new]

variable {b b' : Buffer}

/-! ### Under `WF` the sizes are plain differences -/

theorem readableBytes_eq (h : WF b) : b.readableBytes = b.writerIdx - b.readerIdx := by
  have := h.fits
  have := h.size
  exact sizeSub_eq h.order (by unfold maxSize at *; omega)

theorem writableBytes_eq (h : WF b) : b.writableBytes = b.buffer.length - b.writerIdx := by
  have := h.size
  exact sizeSub_eq h.fits (by unfold maxSize at *; omega)

theorem length_content (h : WF b) : b.content.length = b.readableBytes := by
  rw [readableBytes_eq h]
  exact length_window h.fits

theorem readableBytes_lt (h : WF b) : b.readableBytes < 2 ^ 63 := by
  have := h.fits
  have := h.size
  rw [readableBytes_eq h]
  unfold maxSize at *
  omega

theorem content_eq_nil_iff (h : WF b) : b.content = [] ↔ b.readableBytes = 0 := by
  rw [← length_content h, List.length_eq_zero_iff]

/-! ### Taking bytes out -/

theorem WF.retrieveAll (h : WF b) : WF b.retrieveAll where
  prepend := Nat.le_refl _
  order := Nat.le_refl _
  fits := Nat.le_trans h.prepend (Nat.le_trans h.order h.fits)
  size := h.size

@[simp] theorem content_retrieveAll (b : Buffer) : b.retrieveAll.content = [] := by
  simp [content, Buffer.retrieveAll]

theorem readerIdx_add (h : WF b) {n : Nat} (hn : n < b.readableBytes) :
    sizeAdd b.readerIdx n = b.readerIdx + n := by
  have := h.fits
  have := h.size
  rw [readableBytes_eq h] at hn
  exact sizeAdd_eq (by unfold maxSize at *; omega)

theorem WF.retrieve (h : WF b) (n : Nat) : WF (b.retrieve n) := by
  unfold Buffer.retrieve
  split
  · rename_i hn
    have hadd := readerIdx_add h hn
    have hprepend := h.prepend
    rw [readableBytes_eq h] at hn
    exact ⟨by simp only [hadd]; omega, by simp only [hadd]; omega, h.fits, h.size⟩
  · exact h.retrieveAll

/-- `retrieve` drops bytes from the front, all of them when asked for more. -/
theorem content_retrieve (h : WF b) (n : Nat) :
    (b.retrieve n).content = b.content.drop n := by
  unfold Buffer.retrieve
  split
  · rename_i hn
    show window b.buffer (sizeAdd b.readerIdx n) b.writerIdx = b.content.drop n
    rw [readerIdx_add h hn, content, window_drop]
  · rename_i hn
    rw [content_retrieveAll, List.drop_of_length_le (by rw [length_content h]; omega)]

/-! ### Making room -/

theorem resize_eq_ok {n : Nat} (h : b.resize n = .ok b') :
    n ≤ maxSize ∧ b' = { b with buffer := Segment.resize b.buffer n 0 } := by
  unfold Buffer.resize at h
  split at h
  · simp at h
  · exact ⟨by omega, by simpa using h.symm⟩

theorem copyWithin_eq_ok {xs ys : List Byte} {first n d : Nat}
    (h : copyWithin xs first n d = .ok ys) :
    first + n ≤ xs.length ∧ d + n ≤ xs.length ∧
      ys = overwrite xs d (window xs first (first + n)) := by
  unfold copyWithin at h
  split at h
  · simp at h
  · split at h
    · simp at h
    · exact ⟨by omega, by omega, by simpa using h.symm⟩

/-- The compacting branch of `makeSpace` keeps the bytes and puts them first. -/
theorem compact_spec (h : WF b) {moved : List Byte}
    (hm : copyWithin b.buffer b.readerIdx b.readableBytes kCheapPrepend = .ok moved) :
    let b' : Buffer := { buffer := moved, readerIdx := kCheapPrepend,
                         writerIdx := sizeAdd kCheapPrepend b.readableBytes }
    WF b' ∧ b'.content = b.content ∧ b'.buffer.length = b.buffer.length ∧
      b'.writerIdx = kCheapPrepend + b.readableBytes := by
  obtain ⟨hsrc, hdst, rfl⟩ := copyWithin_eq_ok hm
  have hread := readableBytes_eq h
  have horder := h.order
  have hfits := h.fits
  have hsize := h.size
  have hsum : b.readerIdx + b.readableBytes = b.writerIdx := by omega
  have hlen : (window b.buffer b.readerIdx (b.readerIdx + b.readableBytes)).length
      = b.readableBytes := by
    rw [length_window hsrc]
    omega
  have hwr : sizeAdd kCheapPrepend b.readableBytes = kCheapPrepend + b.readableBytes :=
    sizeAdd_eq (by unfold maxSize at *; omega)
  have hlen' : (overwrite b.buffer kCheapPrepend
      (window b.buffer b.readerIdx (b.readerIdx + b.readableBytes))).length
      = b.buffer.length := length_overwrite (by rw [hlen]; exact hdst)
  refine ⟨⟨Nat.le_refl _, ?_, ?_, ?_⟩, ?_, hlen', hwr⟩
  · simp only [hwr]
    omega
  · simp only [hwr, hlen']
    exact hdst
  · simp only [hlen']
    exact hsize
  · simp only [content, hwr]
    have hself := @window_overwrite_self _ b.buffer
      (window b.buffer b.readerIdx (b.readerIdx + b.readableBytes)) kCheapPrepend (by omega)
    rw [hlen, hsum] at hself
    rw [hsum]
    exact hself

/-- A resize that does not cut into the readable bytes keeps them. -/
theorem resize_spec (h : WF b) {n : Nat} (hn : b.writerIdx ≤ n) (hr : b.resize n = .ok b') :
    WF b' ∧ b'.content = b.content ∧ b'.buffer.length = n ∧ b'.writerIdx = b.writerIdx := by
  obtain ⟨hmax, rfl⟩ := resize_eq_ok hr
  refine ⟨⟨h.prepend, h.order, by simpa using hn, by simpa using hmax⟩, ?_, by simp, rfl⟩
  exact window_resize hn h.fits

/-! ### Appending

`append_spec` asks nothing of the length: where a sum wraps, the vector is left too
short for the copy, and the copy is the fault.
-/

/-- Bytes written where the readable bytes end are appended to them. -/
theorem write_spec (h : WF b) {data : List Byte}
    (hroom : b.writerIdx + data.length ≤ b.buffer.length) :
    let b' := { b with buffer := overwrite b.buffer b.writerIdx data }.hasWritten data.length
    WF b' ∧ b'.content = b.content ++ data := by
  have hsize := h.size
  have hwr : sizeAdd b.writerIdx data.length = b.writerIdx + data.length :=
    sizeAdd_eq (by unfold maxSize at *; omega)
  have hlen : (overwrite b.buffer b.writerIdx data).length = b.buffer.length :=
    length_overwrite hroom
  refine ⟨⟨h.prepend, ?_, ?_, ?_⟩, ?_⟩
  · simp only [hasWritten, hwr]
    exact Nat.le_trans h.order (Nat.le_add_right _ _)
  · simp only [hasWritten, hwr, hlen]
    exact hroom
  · simp only [hasWritten, hlen]
    exact hsize
  · simp only [content, hasWritten, hwr]
    exact window_overwrite_append h.order h.fits

/-- What `ensureWritableBytes` returns holds the same bytes, unless the new size wrapped
below the writer index. -/
theorem ensureWritableBytes_spec (h : WF b) {len : Nat}
    (he : b.ensureWritableBytes len = .ok b') :
    (WF b' ∧ b'.content = b.content) ∨ b'.buffer.length < b'.writerIdx + len := by
  unfold Buffer.ensureWritableBytes at he
  split at he
  · rename_i hw
    unfold makeSpace at he
    split at he
    · by_cases hwrap : b.writerIdx + len < 2 ^ 64
      · rw [sizeAdd_eq hwrap] at he
        obtain ⟨hwf, hc, -, -⟩ := resize_spec h (by omega) he
        exact Or.inl ⟨hwf, hc⟩
      · -- the sum wrapped: the vector ends before the room that was asked for
        obtain ⟨-, rfl⟩ := resize_eq_ok he
        refine Or.inr ?_
        simp only [length_resize, sizeAdd]
        omega
    · obtain ⟨moved, hm, hret⟩ := Except.bind_eq_ok.mp he
      rw [Except.pure_eq_ok] at hret
      obtain ⟨hwf, hc, -, -⟩ := compact_spec h hm
      rw [hret] at hwf hc
      exact Or.inl ⟨hwf, hc⟩
  · simp only [Except.ok.injEq] at he
    subst he
    exact Or.inl ⟨h, rfl⟩

/-- An `append` that returns adds the bytes it was given at the end of the readable ones,
and there were as many as it was told. -/
theorem append_eq_ok (h : WF b) {data : List Byte} {len : Nat} (ha : b.append data len = .ok b') :
    len ≤ data.length ∧ WF b' ∧ b'.content = b.content ++ data.take len := by
  obtain ⟨m, hm, hrest⟩ := Except.bind_eq_ok.mp ha
  split at hrest
  · simp at hrest
  · rename_i hroom
    rw [Except.pure_eq_ok] at hrest
    subst hrest
    have hdata : len ≤ data.length := by omega
    have htake : (data.take len).length = len := List.length_take_of_le hdata
    rcases ensureWritableBytes_spec h hm with ⟨hwf, hc⟩ | hshort
    · have hwrite := write_spec hwf
        (show m.writerIdx + (data.take len).length ≤ m.buffer.length by omega)
      rw [htake] at hwrite
      rw [← hc]
      exact ⟨hdata, hwrite⟩
    · omega

/-- `append` adds the bytes at the end of the readable ones. -/
theorem append_spec (h : WF b) {data : List Byte}
    (ha : b.append data data.length = .ok b') :
    WF b' ∧ b'.content = b.content ++ data := by
  obtain ⟨-, hwf, hc⟩ := append_eq_ok h ha
  rw [List.take_length] at hc
  exact ⟨hwf, hc⟩

end Muduo.Buffer
