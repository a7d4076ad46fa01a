/-
`Buffer` is a byte FIFO.

Every operation is shown to do to the readable bytes what `fifo` does to a queue, or to
end in the exception of a vector that would be too long.  In between are the two facts
that keep its copies inside the vector: `makeSpace` leaves the room it was asked for, and
the vectors handed to `::readv` take no more than there is room for.  What was added is
then what was taken followed by what is readable, by induction over the run.
-/
import Muduo.BufferSystem
import Muduo.Proofs.Buffer

namespace Muduo

open Segment

namespace Buffer

variable {b b' : Buffer} {len : Nat}

/-! ### Making room

Where no sum wraps, `makeSpace` either grows the vector or moves the bytes strictly down.
-/

/-- The compaction starts behind the prependable bytes it moves the content to. -/
theorem Compacts.prepend_lt (h : WF b) (hroom : b.Room len) (hc : b.Compacts len) :
    kCheapPrepend < b.readerIdx := by
  obtain ⟨hlt, hfit⟩ := hc
  have hw := writableBytes_eq h
  have horder := h.order
  have hfits := h.fits
  have hsize := h.size
  rw [prependableBytes, sizeAdd_eq (by unfold maxSize at *; omega), sizeAdd_eq hroom.2] at hfit
  omega

theorem copyWithin_down {xs : List Byte} {first n d : Nat} (hsrc : first + n ≤ xs.length)
    (hd : d < first) :
    copyWithin xs first n d = .ok (overwrite xs d (window xs first (first + n))) := by
  unfold copyWithin
  rw [if_neg (by omega), if_neg (by omega)]

/-- `ensureWritableBytes` leaves the content alone and the room that was asked for, unless
the vector would be longer than the library allows. -/
theorem ensureWritableBytes_runs (h : WF b) (hroom : b.Room len) :
    (b.ensureWritableBytes len = .error .lengthError ∧ maxSize < b.writerIdx + len) ∨
      ∃ b', b.ensureWritableBytes len = .ok b' ∧ WF b' ∧ b'.content = b.content ∧
        b'.writerIdx + len ≤ b'.buffer.length := by
  have hw := writableBytes_eq h
  have hfits := h.fits
  unfold ensureWritableBytes
  by_cases hlt : b.writableBytes < len
  · rw [if_pos hlt]
    unfold makeSpace
    by_cases hgrow : sizeAdd b.writableBytes b.prependableBytes < sizeAdd len kCheapPrepend
    · rw [if_pos hgrow, sizeAdd_eq hroom.1]
      by_cases hmax : maxSize < b.writerIdx + len
      · exact .inl ⟨by rw [resize, if_pos hmax], hmax⟩
      · have hok : b.resize (b.writerIdx + len) =
            .ok { b with buffer := Segment.resize b.buffer (b.writerIdx + len) 0 } := by
          rw [resize, if_neg hmax]
        obtain ⟨hwf, hcontent, hlen, hwr⟩ := resize_spec h (Nat.le_add_right _ _) hok
        exact .inr ⟨_, hok, hwf, hcontent, Nat.le_of_eq (by rw [hlen, hwr])⟩
    · rw [if_neg hgrow]
      have hdown : kCheapPrepend < b.readerIdx := Compacts.prepend_lt h hroom ⟨hlt, hgrow⟩
      have hread := readableBytes_eq h
      have horder := h.order
      have hsize := h.size
      have hinside : b.readerIdx + b.readableBytes ≤ b.buffer.length := by omega
      have hmove := copyWithin_down hinside hdown
      obtain ⟨hwf, hcontent, hlen, hwr⟩ := compact_spec h hmove
      refine .inr ⟨_, by simp only [hmove]; rfl, hwf, hcontent, ?_⟩
      rw [prependableBytes, sizeAdd_eq (by unfold maxSize at *; omega), sizeAdd_eq hroom.2]
        at hgrow
      rw [hlen, hwr]
      omega
  · rw [if_neg hlt]
    exact .inr ⟨b, rfl, h, rfl, by omega⟩

/-! ### Adding bytes -/

theorem append_runs (h : WF b) {data : List Byte} (hlen : len ≤ data.length)
    (hroom : b.Room len) :
    (b.append data len = .error .lengthError ∧ maxSize < b.writerIdx + len) ∨
      ∃ b', b.append data len = .ok b' ∧ WF b' ∧ b'.content = b.content ++ data.take len := by
  rcases ensureWritableBytes_runs h hroom with ⟨herr, hmax⟩ | ⟨m, hok, hwf, hcontent, hfit⟩
  · exact .inl ⟨by simp only [append, herr]; rfl, hmax⟩
  · have htake : (data.take len).length = len := List.length_take_of_le hlen
    have hfits : m.writerIdx + (data.take len).length ≤ m.buffer.length := by
      rw [htake]
      exact hfit
    obtain ⟨hwf', hcontent'⟩ := write_spec hwf hfits
    rw [htake] at hwf' hcontent'
    refine .inr ⟨_, ?_, hwf', by rw [hcontent', hcontent]⟩
    simp only [append, hok, bind, Except.bind]
    rw [if_neg (by omega)]
    rfl

/-- The part of the free end that `::readv` fills, counted as written. -/
theorem fill_spec (h : WF b) {data : List Byte} (hfull : b.writableBytes ≤ data.length) :
    let filled := overwrite b.buffer b.writerIdx (data.take b.writableBytes)
    WF { b with buffer := filled, writerIdx := filled.length } ∧
      ({ b with buffer := filled, writerIdx := filled.length } : Buffer).content =
        b.content ++ data.take b.writableBytes := by
  have hw := writableBytes_eq h
  have hfits := h.fits
  have hsize := h.size
  have htake : (data.take b.writableBytes).length = b.writableBytes :=
    List.length_take_of_le hfull
  have hroom : b.writerIdx + (data.take b.writableBytes).length ≤ b.buffer.length := by omega
  have hwr : sizeAdd b.writerIdx (data.take b.writableBytes).length =
      (overwrite b.buffer b.writerIdx (data.take b.writableBytes)).length := by
    rw [length_overwrite hroom, htake, sizeAdd_eq (by unfold maxSize at *; omega)]
    omega
  have hspec := write_spec h hroom
  simp only [hasWritten, hwr] at hspec
  exact hspec

/-- The bytes that spilled over lie at the beginning of `extrabuf`. -/
theorem extrabuf_take {data : List Byte} (hlen : data.length ≤ extrabufSize) :
    let extrabuf := overwrite (List.replicate extrabufSize 0) 0 data
    extrabuf.length = extrabufSize ∧ extrabuf.take data.length = data := by
  refine ⟨?_, ?_⟩
  · rw [length_overwrite (by simpa using hlen), List.length_replicate]
  · have hself : window (overwrite (List.replicate extrabufSize (0 : Byte)) 0 data) 0
        (0 + data.length) = data := window_overwrite_self (Nat.zero_le _)
    simpa [window] using hself

/-- The vectors handed to `::readv` end where the vector and `extrabuf` do. -/
theorem readv_inside (h : WF b) {r : ReadvResult} (hlimit : r.data.length ≤ b.readvLimit) :
    b.writerIdx + (r.data.take b.writableBytes).length ≤ b.buffer.length ∧
      (r.data.drop b.writableBytes).length ≤ extrabufSize := by
  have hw := writableBytes_eq h
  have hfits := h.fits
  unfold readvLimit at hlimit
  rw [List.length_take, List.length_drop]
  split at hlimit <;> omega

/-- The count of a `::readv` within its limit is the `size_t` that `readFd` compares. -/
theorem toSize_count (h : WF b) {r : ReadvResult} (hret : r.ret = r.data.length)
    (hlimit : r.data.length ≤ b.readvLimit) : toSize r.ret = r.data.length := by
  have hw := writableBytes_eq h
  have hsize := h.size
  have hspill := (readv_inside h hlimit).2
  rw [List.length_drop] at hspill
  rw [hret]
  exact toSize_eq (Int.natCast_nonneg _) (Int.le_refl _)
    (by unfold maxSize extrabufSize at *; omega)

theorem fill_length (h : WF b) {data : List Byte} (hfull : b.writableBytes ≤ data.length) :
    (overwrite b.buffer b.writerIdx (data.take b.writableBytes)).length = b.buffer.length := by
  have hw := writableBytes_eq h
  have hfits := h.fits
  exact length_overwrite (by rw [List.length_take_of_le hfull]; omega)

/-- How much spilled over. -/
theorem spill_length (h : WF b) {r : ReadvResult} (hfull : b.writableBytes ≤ r.data.length)
    (hlimit : r.data.length ≤ b.readvLimit) :
    sizeSub r.data.length b.writableBytes = r.data.length - b.writableBytes := by
  have hw := writableBytes_eq h
  have hsize := h.size
  have hspill := (readv_inside h hlimit).2
  rw [List.length_drop] at hspill
  exact sizeSub_eq hfull (by unfold maxSize extrabufSize at *; omega)

/-- The sums of the `append` of what spilled over do not overflow. -/
theorem spill_room (h : WF b) {r : ReadvResult} (hfull : b.writableBytes ≤ r.data.length)
    (hlimit : r.data.length ≤ b.readvLimit) :
    let filled := overwrite b.buffer b.writerIdx (r.data.take b.writableBytes)
    ({ b with buffer := filled, writerIdx := filled.length } : Buffer).Room
      (r.data.length - b.writableBytes) := by
  have hsize := h.size
  have hspill := (readv_inside h hlimit).2
  rw [List.length_drop] at hspill
  refine ⟨?_, ?_⟩
  · show (overwrite b.buffer b.writerIdx _).length + _ < 2 ^ 64
    rw [fill_length h hfull]
    unfold maxSize extrabufSize at *
    omega
  · unfold kCheapPrepend extrabufSize at *
    omega

/-- `readFd` adds what `::readv` stored, in whichever of the two vectors it came to lie. -/
theorem readFd_runs (h : WF b) {r : ReadvResult} (hret : r.ret = r.data.length)
    (hlimit : r.data.length ≤ b.readvLimit) :
    (b.readFd r = .error .lengthError ∧ maxSize < b.writerIdx + r.data.length) ∨
      ∃ b', b.readFd r = .ok (b', r.data.length, none) ∧ WF b' ∧
        b'.content = b.content ++ r.data := by
  have hw := writableBytes_eq h
  have hfits := h.fits
  have hsize := h.size
  have hn := toSize_count h hret hlimit
  unfold readFd
  simp only [hn]
  rw [if_neg (Nat.not_lt_zero _)]
  by_cases hshort : r.data.length < b.writableBytes
  · rw [if_pos hshort]
    have htake : r.data.take b.writableBytes = r.data :=
      List.take_of_length_le (Nat.le_of_lt hshort)
    have hfits : b.writerIdx + r.data.length ≤ b.buffer.length := by omega
    obtain ⟨hwf, hcontent⟩ := write_spec h hfits
    refine .inr ⟨_, ?_, hwf, hcontent⟩
    rw [htake]
    rfl
  · rw [if_neg hshort]
    have hfull := Nat.le_of_not_lt hshort
    have hspill := (readv_inside h hlimit).2
    obtain ⟨hwf, hcontent⟩ := fill_spec h hfull
    obtain ⟨hextra, htake⟩ := extrabuf_take hspill
    rw [List.length_drop] at hspill htake
    rw [spill_length h hfull hlimit]
    rcases append_runs hwf (by rw [hextra]; exact hspill) (spill_room h hfull hlimit) with
      ⟨herr, hmax⟩ | ⟨b', hok, hwf', hcontent'⟩
    · refine .inl ⟨by simp only [herr]; rfl, ?_⟩
      simp only [fill_length h hfull] at hmax
      omega
    · refine .inr ⟨b', by simp only [hok]; rfl, hwf', ?_⟩
      rw [hcontent', hcontent, htake, List.append_assoc, List.take_append_drop]

/-! ### Taking bytes as a string -/

theorem retrieveAsString_eq_ok {res : List Byte} (h : b.retrieveAsString len = .ok (res, b')) :
    res.length = len ∧ b' = b.retrieve len := by
  unfold retrieveAsString at h
  split at h
  · simp at h
  · rename_i hinside
    rw [Except.ok.injEq, Prod.mk.injEq] at h
    rw [← h.1, ← h.2]
    refine ⟨?_, rfl⟩
    rw [length_window (Nat.le_of_not_lt hinside)]
    omega

/-- The string is made of the bytes that are then dropped. -/
theorem retrieveAsString_runs (h : WF b) (hlen : len ≤ b.readableBytes) :
    b.retrieveAsString len = .ok (b.content.take len, b.retrieve len) := by
  have hread := readableBytes_eq h
  have horder := h.order
  have hfits := h.fits
  unfold retrieveAsString
  rw [if_neg (by omega), content, window_take (by omega)]

theorem retrieveAllAsString_runs (h : WF b) :
    b.retrieveAllAsString = .ok (b.content, b.retrieve b.readableBytes) := by
  have hall : b.content.take b.readableBytes = b.content :=
    List.take_of_length_le (Nat.le_of_eq (length_content h))
  unfold retrieveAllAsString
  rw [retrieveAsString_runs h (Nat.le_refl _), hall]

end Buffer

namespace BufferOp

open Buffer

variable {b m : Buffer} {op : BufferOp} {len : Nat}

/-- Whatever makes room makes it in a well formed buffer, for a length whose sums do not
overflow. -/
theorem ensures_room (h : WF b) (hadm : op.Admitted b) (he : op.ensures b = some (m, len)) :
    WF m ∧ m.Room len := by
  cases op with
  | retrieve n | retrieveAll | retrieveAsString n | retrieveAllAsString => simp [ensures] at he
  | append data n =>
      simp only [ensures, Option.some.injEq, Prod.mk.injEq] at he
      rw [← he.1, ← he.2]
      exact ⟨h, hadm.2⟩
  | ensureWritableBytes n =>
      simp only [ensures, Option.some.injEq, Prod.mk.injEq] at he
      rw [← he.1, ← he.2]
      exact ⟨h, hadm⟩
  | readFd r =>
      obtain ⟨hret, hlimit⟩ := hadm
      have hn := toSize_count h hret hlimit
      simp only [ensures, hn] at he
      by_cases hshort : r.data.length < b.writableBytes
      · rw [if_pos hshort] at he
        simp at he
      · rw [if_neg hshort, Option.some.injEq, Prod.mk.injEq] at he
        have hfull := Nat.le_of_not_lt hshort
        rw [← he.1, ← he.2, spill_length h hfull hlimit]
        exact ⟨(fill_spec h hfull).1, spill_room h hfull hlimit⟩

/-- An admitted operation does to the content what `fifo` does to a queue.  Its one fault is
a vector that would have to be longer than the library allows. -/
theorem run_refines (h : WF b) (hadm : op.Admitted b) :
    (op.run b = .error .lengthError ∧
        ∃ m len, op.ensures b = some (m, len) ∧ maxSize < m.writerIdx + len) ∨
      ∃ b', op.run b = .ok ((op.fifo b.content).1, b') ∧ WF b' ∧
        b'.content = (op.fifo b.content).2 := by
  cases op with
  | append data n =>
      rcases append_runs h hadm.1 hadm.2 with ⟨herr, hmax⟩ | ⟨b', hok, hwf, hcontent⟩
      · exact .inl ⟨by simp only [run, herr]; rfl, b, n, rfl, hmax⟩
      · exact .inr ⟨b', by simp only [run, hok]; rfl, hwf, hcontent⟩
  | retrieve n => exact .inr ⟨b.retrieve n, rfl, h.retrieve n, content_retrieve h n⟩
  | retrieveAll => exact .inr ⟨b.retrieveAll, rfl, h.retrieveAll, content_retrieveAll b⟩
  | retrieveAsString n =>
      exact .inr ⟨b.retrieve n, retrieveAsString_runs h hadm, h.retrieve n, content_retrieve h n⟩
  | retrieveAllAsString =>
      refine .inr ⟨_, retrieveAllAsString_runs h, h.retrieve _, ?_⟩
      rw [content_retrieve h, ← length_content h, List.drop_length]
      rfl
  | ensureWritableBytes n =>
      rcases ensureWritableBytes_runs h hadm with ⟨herr, hmax⟩ | ⟨b', hok, hwf, hcontent, -⟩
      · exact .inl ⟨by simp only [run, herr]; rfl, b, n, rfl, hmax⟩
      · exact .inr ⟨b', by simp only [run, hok]; rfl, hwf, hcontent⟩
  | readFd r =>
      rcases readFd_runs h hadm.1 hadm.2 with ⟨herr, hmax⟩ | ⟨b', hok, hwf, hcontent⟩
      · refine .inl ⟨by simp only [run, herr]; rfl, ?_⟩
        have hw := writableBytes_eq h
        have hfits := h.fits
        have hsize := h.size
        have hfull : b.writableBytes ≤ r.data.length := by omega
        refine ⟨_, _, by simp only [ensures, toSize_count h hadm.1 hadm.2,
          if_neg (Nat.not_lt_of_le hfull)]; rfl, ?_⟩
        rw [spill_length h hfull hadm.2]
        simp only [fill_length h hfull]
        omega
      · exact .inr ⟨b', by simp only [run, hok]; rfl, hwf, hcontent⟩

end BufferOp

namespace BufferSystem

open Buffer

variable {s s' : BufferSystem} {op : BufferOp}

/-! ### Runs -/

/-- The buffer is well formed, and what was added is what was taken and then the content. -/
structure Kept (s : BufferSystem) : Prop where
  wf : WF s.buffer
  total : s.pipe.total = s.added

/-- An operation puts its bytes in at the end of the pipe or lets some out at the front. -/
theorem exec_pipe (h : WF s.buffer) (hadm : op.Admitted s.buffer) (hexec : s.exec op = .ok s') :
    WF s'.buffer ∧ s'.added = s.added ++ op.added ∧
      (s'.pipe = s.pipe.offer op.added 0 ∨ (op.added = [] ∧ ∃ k, s'.pipe = s.pipe.drain k)) := by
  obtain ⟨⟨returned, b⟩, hrun, hret⟩ := Except.bind_eq_ok.mp hexec
  rw [Except.pure_eq_ok] at hret
  rcases BufferOp.run_refines h hadm with ⟨herr, -⟩ | ⟨b', hok, hwf, hcontent⟩
  · rw [herr] at hrun
    simp at hrun
  · rw [hok, Except.ok.injEq, Prod.mk.injEq] at hrun
    obtain ⟨rfl, rfl⟩ := hrun
    rw [← hret]
    refine ⟨hwf, rfl, ?_⟩
    unfold pipe
    rw [hcontent]
    cases op with
    | append data n =>
        exact .inl (by simp [BufferOp.taken, BufferOp.fifo, Pipe.offer, BufferOp.added])
    | ensureWritableBytes n =>
        exact .inl (by simp [BufferOp.taken, BufferOp.fifo, Pipe.offer, BufferOp.added])
    | readFd r => exact .inl (by simp [BufferOp.taken, BufferOp.fifo, Pipe.offer, BufferOp.added])
    | retrieve n => exact .inr ⟨rfl, n, rfl⟩
    | retrieveAsString n => exact .inr ⟨rfl, n, rfl⟩
    | retrieveAll | retrieveAllAsString =>
        refine .inr ⟨rfl, s.buffer.content.length, ?_⟩
        simp [BufferOp.taken, BufferOp.fifo, Pipe.drain]

theorem Kept.step (h : Kept s) (hstep : lts.step s op s') : Kept s' := by
  obtain ⟨hadm, hexec⟩ := hstep
  obtain ⟨hwf, hadded, hpipe⟩ := exec_pipe h.wf hadm hexec
  refine ⟨hwf, ?_⟩
  rw [hadded, ← h.total]
  rcases hpipe with hoffer | ⟨hnone, k, hdrain⟩
  · rw [hoffer, Pipe.total_offer (.inr rfl)]
  · rw [hdrain, Pipe.total_drain, hnone, List.append_nil]

theorem kept_of_reachable (h : lts.Reachable s) : Kept s := by
  refine h.induct ?_ fun _ _ _ _ hk hstep => hk.step hstep
  intro s₀ h0
  obtain ⟨⟨n, hbuffer⟩, hadded, htaken⟩ := h0
  refine ⟨by rw [hbuffer]; exact WF.new n, ?_⟩
  simp [pipe, Pipe.total, hbuffer, hadded, htaken]

/-- In every reachable state the indices are in order, the readable bytes are those added
and not yet taken, and an admitted operation does what it would do to a queue: its copies
stay inside the vector, a compaction moves the bytes strictly down, and `::readv` fills no
more than the two vectors it was handed. -/
theorem byte_fifo (h : lts.Reachable s) :
    (kCheapPrepend ≤ s.buffer.readerIdx ∧ s.buffer.readerIdx ≤ s.buffer.writerIdx ∧
      s.buffer.writerIdx ≤ s.buffer.buffer.length) ∧
    s.added = s.taken ++ s.buffer.content ∧
    ∀ op : BufferOp, op.Admitted s.buffer →
      ((op.run s.buffer = .error .lengthError ∧
          ∃ m len, op.ensures s.buffer = some (m, len) ∧ maxSize < m.writerIdx + len) ∨
        ∃ b, op.run s.buffer = .ok ((op.fifo s.buffer.content).1, b) ∧
          b.content = (op.fifo s.buffer.content).2) ∧
      (∀ m len, op.ensures s.buffer = some (m, len) → m.Compacts len →
        kCheapPrepend < m.readerIdx) ∧
      ∀ r, op = .readFd r →
        s.buffer.writerIdx + (r.data.take s.buffer.writableBytes).length ≤
          s.buffer.buffer.length ∧
        (r.data.drop s.buffer.writableBytes).length ≤ extrabufSize := by
  have hk := kept_of_reachable h
  refine ⟨⟨hk.wf.prepend, hk.wf.order, hk.wf.fits⟩, hk.total.symm, ?_⟩
  intro op hadm
  refine ⟨?_, ?_, ?_⟩
  · rcases BufferOp.run_refines hk.wf hadm with herr | ⟨b, hok, -, hcontent⟩
    · exact .inl herr
    · exact .inr ⟨b, hok, hcontent⟩
  · intro m len he hc
    obtain ⟨hwf, hroom⟩ := BufferOp.ensures_room hk.wf hadm he
    exact hc.prepend_lt hwf hroom
  · rintro r rfl
    exact readv_inside hk.wf hadm.2

/-- Three bytes are appended and the first one is retrieved as a string. -/
theorem byte_fifo_retrieved : ∃ s, lts.Reachable s ∧ s.added = [104, 105, 33] ∧
    s.taken = [104] ∧ s.buffer.content = [105, 33] := by
  have h0 : lts.Reachable ⟨Buffer.new kInitialSize, [], []⟩ :=
    Lts.Reachable.of_init ⟨⟨kInitialSize, rfl⟩, rfl, rfl⟩
  have happend : (BufferOp.append [104, 105, 33] 3).Admitted (Buffer.new kInitialSize) :=
    ⟨by decide, by decide, by decide⟩
  rcases BufferOp.run_refines (WF.new kInitialSize) happend with
    ⟨-, m, len, he, hmax⟩ | ⟨b, hok, hwf, hcontent⟩
  · -- eleven bytes are not too many
    simp only [BufferOp.ensures, Option.some.injEq, Prod.mk.injEq] at he
    rw [← he.1, ← he.2] at hmax
    exact absurd hmax (by decide)
  · have h1 : lts.Reachable ⟨b, [104, 105, 33], []⟩ :=
      h0.step ⟨happend, by simp only [exec, hok]; rfl⟩
    have hlen : 1 ≤ b.readableBytes := by
      rw [← length_content hwf, hcontent]
      simp [BufferOp.fifo]
    have hstring := retrieveAsString_runs hwf hlen
    rw [hcontent] at hstring
    have h2 : lts.Reachable ⟨b.retrieve 1, [104, 105, 33], [104]⟩ :=
      h1.step (a := BufferOp.retrieveAsString 1)
        ⟨hlen, by simp only [exec, BufferOp.run, hstring]; rfl⟩
    have hfifo := (byte_fifo h2).2.1
    exact ⟨_, h2, rfl, rfl, by simpa using hfifo.symm⟩

end BufferSystem

end Muduo
