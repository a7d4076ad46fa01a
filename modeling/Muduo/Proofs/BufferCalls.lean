/-
Callers of `Buffer` that see to nothing.

Two members do not look at the length they are given.  `ensureWritableBytes` adds it to
an index, and `retrieveAsString` copies that many bytes before `retrieve` clamps it.  For
each there is the property it should have, and the lengths for which it has it: the sum
must not wrap, and there must be that many bytes to read.  Nothing else a caller passes
harms the buffer, for an `append` that cannot be right ends in a fault.
-/
import Muduo.Proofs.BufferSystem

namespace Muduo

open Segment

namespace Buffer

variable {b b' : Buffer} {len : Nat}

/-! ### Making room -/

/-- What `ensureWritableBytes` is for: it ends in the exception of `resize`, or returns with
room for `len` bytes, the content as it was and the indices in order. -/
def MakesRoom (b : Buffer) (len : Nat) : Prop :=
  b.ensureWritableBytes len = .error .lengthError ∨
    ∃ b', b.ensureWritableBytes len = .ok b' ∧ len ≤ b'.writableBytes ∧
      b'.content = b.content ∧ kCheapPrepend ≤ b'.readerIdx ∧ b'.readerIdx ≤ b'.writerIdx ∧
      b'.writerIdx ≤ b'.buffer.length

/-- Of the two sums of `makeSpace` the new size is the first to wrap. -/
theorem room_iff (h : WF b) : b.Room len ↔ b.writerIdx + len < 2 ^ 64 := by
  have hprepend := h.prepend
  have horder := h.order
  refine ⟨fun hroom => hroom.1, fun hlt => ⟨hlt, ?_⟩⟩
  omega

/-- The new size wraps and the comparison does not: the vector is cut below the writer
index. -/
theorem ensureWritableBytes_cuts (h : WF b) (hlen : len + kCheapPrepend < 2 ^ 64)
    (hwrap : 2 ^ 64 ≤ b.writerIdx + len) : ∃ b', b.ensureWritableBytes len = .ok b' ∧
      b'.buffer.length < b'.writerIdx := by
  have hw := writableBytes_eq h
  have horder := h.order
  have hfits := h.fits
  have hsize := h.size
  have hcut : sizeAdd b.writerIdx len = b.writerIdx + len - 2 ^ 64 := by
    unfold sizeAdd maxSize at *
    omega
  have hshort : b.writableBytes < len := by
    unfold maxSize at *
    omega
  have hgrow : sizeAdd b.writableBytes b.prependableBytes < sizeAdd len kCheapPrepend := by
    rw [prependableBytes, sizeAdd_eq (by unfold maxSize at *; omega), sizeAdd_eq hlen]
    unfold maxSize at *
    omega
  have hfit : ¬ maxSize < b.writerIdx + len - 2 ^ 64 := by
    unfold maxSize kCheapPrepend at *
    omega
  refine ⟨{ b with buffer := Segment.resize b.buffer (b.writerIdx + len - 2 ^ 64) 0 }, ?_, ?_⟩
  · unfold ensureWritableBytes makeSpace
    rw [if_pos hshort, if_pos hgrow, hcut, Buffer.resize, if_neg hfit]
  · show (Segment.resize b.buffer (b.writerIdx + len - 2 ^ 64) 0).length < b.writerIdx
    rw [length_resize]
    unfold kCheapPrepend at hlen
    omega

theorem copyWithin_error {xs : List Byte} {first n d : Nat} {e : Fault}
    (h : copyWithin xs first n d = .error e) : e ≠ .lengthError := by
  unfold copyWithin at h
  split at h
  · rw [← Except.error.inj h]
    simp
  · split at h
    · rw [← Except.error.inj h]
      simp
    · simp at h

/-- The comparison wraps: the content is moved down, which makes no such room. -/
theorem ensureWritableBytes_moves (h : WF b) (hlen : len < 2 ^ 64)
    (hwrap : 2 ^ 64 ≤ len + kCheapPrepend) :
    b.ensureWritableBytes len ≠ .error .lengthError ∧
      ∀ b', b.ensureWritableBytes len = .ok b' → b'.writableBytes < len := by
  have hw := writableBytes_eq h
  have hprepend := h.prepend
  have horder := h.order
  have hfits := h.fits
  have hsize := h.size
  have hshort : b.writableBytes < len := by
    unfold maxSize kCheapPrepend at *
    omega
  have hfit : ¬ sizeAdd b.writableBytes b.prependableBytes < sizeAdd len kCheapPrepend := by
    rw [prependableBytes, sizeAdd_eq (by unfold maxSize at *; omega)]
    unfold sizeAdd kCheapPrepend at *
    omega
  unfold ensureWritableBytes makeSpace
  rw [if_pos hshort, if_neg hfit]
  refine ⟨?_, ?_⟩
  · intro herr
    cases hmoved : copyWithin b.buffer b.readerIdx b.readableBytes kCheapPrepend with
    | ok moved =>
        simp only [hmoved] at herr
        exact absurd herr (by simp [bind, Except.bind, pure, Except.pure])
    | error e =>
        simp only [hmoved, bind, Except.bind, Except.error.injEq] at herr
        exact copyWithin_error hmoved herr
  · intro b' hret
    obtain ⟨moved, hmoved, hret⟩ := Except.bind_eq_ok.mp hret
    rw [Except.pure_eq_ok] at hret
    obtain ⟨hwf, -, hlength, -⟩ := compact_spec h hmoved
    rw [hret] at hwf hlength
    rw [writableBytes_eq hwf, hlength]
    unfold maxSize kCheapPrepend at *
    omega

theorem makesRoom_iff (h : WF b) (hlen : len < 2 ^ 64) :
    b.MakesRoom len ↔ b.writerIdx + len < 2 ^ 64 := by
  refine ⟨?_, ?_⟩
  · intro hmakes
    by_contra hwrap
    have hwrap := Nat.le_of_not_lt hwrap
    by_cases hsum : len + kCheapPrepend < 2 ^ 64
    · obtain ⟨b', hok, hcut⟩ := ensureWritableBytes_cuts h hsum hwrap
      rcases hmakes with herr | ⟨m, hm, -, -, -, -, hfits⟩
      · rw [hok] at herr
        simp at herr
      · rw [hok, Except.ok.injEq] at hm
        rw [← hm] at hfits
        omega
    · obtain ⟨hnot, hless⟩ := ensureWritableBytes_moves h hlen (Nat.le_of_not_lt hsum)
      rcases hmakes with herr | ⟨m, hm, hroom, -⟩
      · exact hnot herr
      · have := hless m hm
        omega
  · intro hlt
    rcases ensureWritableBytes_runs h ((room_iff h).mpr hlt) with
      ⟨herr, -⟩ | ⟨b', hok, hwf, hcontent, hroom⟩
    · exact .inl herr
    · refine .inr ⟨b', hok, ?_, hcontent, hwf.prepend, hwf.order, hwf.fits⟩
      rw [writableBytes_eq hwf]
      omega

/-! ### Taking bytes as a string -/

/-- What `retrieveAsString` is for: the string and the bytes that are left make up the bytes
there were, so no byte at the writer index or beyond it is returned. -/
def Splits (b : Buffer) (len : Nat) : Prop :=
  ∃ res b', b.retrieveAsString len = .ok (res, b') ∧ res ++ b'.content = b.content ∧
    b.readerIdx + res.length ≤ b.writerIdx

theorem splits_iff (h : WF b) : b.Splits len ↔ len ≤ b.readableBytes := by
  have hread := readableBytes_eq h
  have horder := h.order
  refine ⟨?_, ?_⟩
  · rintro ⟨res, b', hok, -, hbelow⟩
    obtain ⟨hlength, -⟩ := retrieveAsString_eq_ok hok
    omega
  · intro hlen
    refine ⟨_, _, retrieveAsString_runs h hlen, ?_, ?_⟩
    · rw [content_retrieve h, List.take_append_drop]
    · rw [List.length_take_of_le (by rw [length_content h]; exact hlen)]
      omega

/-! ### A failed `::readv` -/

theorem append_short (b : Buffer) {data : List Byte} (hdata : data.length < len) :
    ∃ e, b.append data len = .error e := by
  unfold append
  cases b.ensureWritableBytes len with
  | error e => exact ⟨e, rfl⟩
  | ok m =>
      refine ⟨.outOfBounds, ?_⟩
      simp only [bind, Except.bind]
      rw [if_pos (.inl hdata)]

/-- `readFd` takes -1 for a count, and appends far more bytes than `extrabuf` has. -/
theorem readFd_failed (h : WF b) {r : ReadvResult} (hr : r.Failed) :
    ∃ e, b.readFd r = .error e := by
  obtain ⟨hret, hdata⟩ := hr
  have hw := writableBytes_eq h
  have hsize := h.size
  have hn : toSize r.ret = 2 ^ 64 - 1 := by
    rw [hret]
    rfl
  have hbig : ¬ 2 ^ 64 - 1 < b.writableBytes := by
    unfold maxSize at *
    omega
  have hspill : sizeSub (2 ^ 64 - 1) b.writableBytes = 2 ^ 64 - 1 - b.writableBytes :=
    sizeSub_eq (Nat.le_of_not_lt hbig) (by decide)
  have hspilled : (r.data.drop b.writableBytes).length ≤ extrabufSize := by simp [hdata]
  have hextra := (extrabuf_take hspilled).1
  have hshort : (overwrite (List.replicate extrabufSize 0) 0
      (r.data.drop b.writableBytes)).length < 2 ^ 64 - 1 - b.writableBytes := by
    rw [hextra]
    unfold maxSize extrabufSize at *
    omega
  obtain ⟨e, herr⟩ := append_short
    { b with
      buffer := overwrite b.buffer b.writerIdx (r.data.take b.writableBytes)
      writerIdx := (overwrite b.buffer b.writerIdx (r.data.take b.writableBytes)).length }
    hshort
  refine ⟨e, ?_⟩
  unfold readFd
  simp only [hn]
  rw [if_neg (Nat.not_lt_zero _), if_neg hbig, hspill, herr]
  rfl

end Buffer

namespace BufferSystem

open Buffer

variable {s s' : BufferSystem} {op : BufferOp}

/-! ### Runs -/

/-- The sum of a call of `ensureWritableBytes` does not wrap. -/
def SumFits (s : BufferSystem) : BufferOp → Prop
  | .ensureWritableBytes len => s.buffer.writerIdx + len < 2 ^ 64
  | _ => True

/-- Whatever is called, with whatever arguments, leaves the buffer well formed, if only the
sum of `ensureWritableBytes` does not wrap. -/
theorem run_wf {b b' : Buffer} {returned : List Byte} (h : WF b) (hcall : op.Callable b)
    (hsum : ∀ len, op = .ensureWritableBytes len → b.writerIdx + len < 2 ^ 64)
    (hrun : op.run b = .ok (returned, b')) : WF b' := by
  cases op with
  | append data n =>
      obtain ⟨m, hm, hret⟩ := Except.map_eq_ok.mp hrun
      obtain ⟨-, rfl⟩ := Prod.mk.inj hret
      exact (append_eq_ok h hm).2.1
  | retrieve n =>
      obtain ⟨-, rfl⟩ := Prod.mk.inj (Except.ok.inj hrun)
      exact h.retrieve n
  | retrieveAll =>
      obtain ⟨-, rfl⟩ := Prod.mk.inj (Except.ok.inj hrun)
      exact h.retrieveAll
  | retrieveAsString n =>
      rw [(retrieveAsString_eq_ok hrun).2]
      exact h.retrieve n
  | retrieveAllAsString =>
      rw [(retrieveAsString_eq_ok hrun).2]
      exact h.retrieve _
  | ensureWritableBytes n =>
      obtain ⟨m, hm, hret⟩ := Except.map_eq_ok.mp hrun
      obtain ⟨-, rfl⟩ := Prod.mk.inj hret
      rcases ensureWritableBytes_runs h ((room_iff h).mpr (hsum n rfl)) with
        ⟨herr, -⟩ | ⟨m', hok, hwf, -⟩
      · rw [herr] at hm
        simp at hm
      · rw [hok, Except.ok.injEq] at hm
        rw [← hm]
        exact hwf
  | readFd r =>
      obtain ⟨m, hm, hret⟩ := Except.map_eq_ok.mp hrun
      obtain ⟨-, rfl⟩ := Prod.mk.inj hret
      rcases hcall with hfailed | ⟨hcount, hlimit⟩
      · obtain ⟨e, herr⟩ := readFd_failed h hfailed
        rw [herr] at hm
        simp at hm
      · rcases readFd_runs h hcount hlimit with ⟨herr, -⟩ | ⟨m', hok, hwf, -⟩
        · rw [herr] at hm
          simp at hm
        · rw [hok, Except.ok.injEq] at hm
          rw [← hm]
          exact hwf

theorem wf_of_calls (h : (calls.restrict SumFits).Reachable s) : WF s.buffer := by
  refine h.induct (P := fun s => WF s.buffer) ?_ ?_
  · intro s₀ h0
    obtain ⟨⟨n, hbuffer⟩, -⟩ := h0
    rw [hbuffer]
    exact WF.new n
  · intro m op m' _ hwf hstep
    obtain ⟨hsum, hcall, hexec⟩ := hstep
    obtain ⟨⟨returned, b⟩, hrun, hret⟩ := Except.bind_eq_ok.mp hexec
    rw [Except.pure_eq_ok] at hret
    rw [← hret]
    refine run_wf hwf hcall ?_ hrun
    intro len hop
    rw [hop] at hsum
    exact hsum

/-! ### The two members

The runs of the examples are computed: `next` makes a call if a run may make it.
-/

instance (s : BufferSystem) : (op : BufferOp) → Decidable (s.SumFits op)
  | .ensureWritableBytes len => inferInstanceAs (Decidable (s.buffer.writerIdx + len < 2 ^ 64))
  | .append _ _ | .retrieve _ | .retrieveAll | .retrieveAsString _ | .retrieveAllAsString
  | .readFd _ => inferInstanceAs (Decidable True)

def next (s : BufferSystem) (op : BufferOp) : Option BufferSystem :=
  if op.Callable s.buffer ∧ s.SumFits op then (s.exec op).toOption else none

def fresh : BufferSystem := ⟨Buffer.new kInitialSize, [], []⟩

theorem exists_of_calls (ops : List BufferOp) (p : BufferSystem → Bool)
    (h : (Lts.run next fresh ops).any p = true) :
    ∃ s, (calls.restrict SumFits).Reachable s ∧ p s = true := by
  obtain ⟨s, hs, hp⟩ := (Option.any_eq_true p _).mp h
  refine ⟨s, ⟨ops, fresh, ⟨⟨kInitialSize, rfl⟩, rfl, rfl⟩, ?_⟩, hp⟩
  refine Lts.Path.of_run (I := fun _ => True) ?_ trivial hs
  intro m op m' _ hnext
  unfold next at hnext
  split at hnext
  · rename_i hguard
    exact ⟨⟨hguard.2, hguard.1, Except.toOption_eq_some.mp hnext⟩, trivial⟩
  · simp at hnext

/-- After any calls whose sums do not wrap, `ensureWritableBytes(len)` does what it is for if
and only if its own sum does not wrap. -/
theorem ensureWritableBytes_iff (h : (calls.restrict SumFits).Reachable s) {len : Nat}
    (hlen : len < 2 ^ 64) : s.buffer.MakesRoom len ↔ s.buffer.writerIdx + len < 2 ^ 64 :=
  makesRoom_iff (wf_of_calls h) hlen

/-- Three bytes are appended, and there is room for two thousand more. -/
theorem ensureWritableBytes_iff_grown : ∃ s, (calls.restrict SumFits).Reachable s ∧
    s.buffer.content = [104, 105, 33] ∧ s.buffer.MakesRoom 2000 := by
  obtain ⟨s, hr, hp⟩ := exists_of_calls [.append [104, 105, 33] 3]
    (fun s => s.buffer.content = [104, 105, 33] ∧ s.buffer.writerIdx = 11) (by decide +kernel)
  obtain ⟨hcontent, hwriter⟩ := of_decide_eq_true hp
  refine ⟨s, hr, hcontent, (ensureWritableBytes_iff hr (by decide)).mpr ?_⟩
  rw [hwriter]
  decide

/-- Three bytes are appended, and `ensureWritableBytes(2^64 - 9)` cuts the vector to two bytes:
the content lies behind its end. -/
theorem ensureWritableBytes_shrank : ∃ s, (calls.restrict SumFits).Reachable s ∧
    s.buffer.content = [104, 105, 33] ∧
    (∃ b, s.buffer.ensureWritableBytes (2 ^ 64 - 9) = .ok b ∧ b.buffer.length = 2 ∧
      b.readerIdx = 8 ∧ b.writerIdx = 11) ∧ ¬ s.buffer.MakesRoom (2 ^ 64 - 9) := by
  obtain ⟨s, hr, hp⟩ := exists_of_calls [.append [104, 105, 33] 3]
    (fun s => s.buffer.content = [104, 105, 33] ∧
      ((s.buffer.ensureWritableBytes (2 ^ 64 - 9)).toOption.any fun b =>
        b.buffer.length = 2 ∧ b.readerIdx = 8 ∧ b.writerIdx = 11) = true) (by decide +kernel)
  obtain ⟨hcontent, hany⟩ := of_decide_eq_true hp
  obtain ⟨b, hb, hcut⟩ := (Option.any_eq_true _ _).mp hany
  obtain ⟨hlength, hreader, hwriter⟩ := of_decide_eq_true hcut
  have hok := Except.toOption_eq_some.mp hb
  refine ⟨s, hr, hcontent, ⟨b, hok, hlength, hreader, hwriter⟩, ?_⟩
  rintro (herr | ⟨m, hm, -, -, -, -, hfits⟩)
  · rw [hok] at herr
    simp at herr
  · rw [hok, Except.ok.injEq] at hm
    rw [← hm] at hfits
    omega

/-- After any calls, `retrieveAsString(len)` gives back what there was if and only if there
were `len` bytes. -/
theorem retrieveAsString_iff (h : (calls.restrict SumFits).Reachable s) (len : Nat) :
    s.buffer.Splits len ↔ len ≤ s.buffer.readableBytes :=
  splits_iff (wf_of_calls h)

/-- Three bytes are appended and two of them are taken. -/
theorem retrieveAsString_iff_two : ∃ s, (calls.restrict SumFits).Reachable s ∧
    s.buffer.content = [104, 105, 33] ∧ s.buffer.Splits 2 := by
  obtain ⟨s, hr, hp⟩ := exists_of_calls [.append [104, 105, 33] 3]
    (fun s => s.buffer.content = [104, 105, 33] ∧ s.buffer.readableBytes = 3)
    (by decide +kernel)
  obtain ⟨hcontent, hreadable⟩ := of_decide_eq_true hp
  refine ⟨s, hr, hcontent, (retrieveAsString_iff hr 2).mpr ?_⟩
  rw [hreadable]
  decide

/-- Three bytes are appended and taken, and one more is appended.  Asked for three bytes,
`retrieveAsString` returns that one and the last two of those before. -/
theorem retrieveAsString_stale : ∃ s, (calls.restrict SumFits).Reachable s ∧
    s.buffer.content = [97] ∧
    (∃ b, s.buffer.retrieveAsString 3 = .ok ([97, 105, 33], b)) ∧ ¬ s.buffer.Splits 3 := by
  obtain ⟨s, hr, hp⟩ := exists_of_calls
    [.append [104, 105, 33] 3, .retrieveAsString 3, .append [97] 1]
    (fun s => s.buffer.content = [97] ∧
      ((s.buffer.retrieveAsString 3).toOption.any fun x => x.1 = [97, 105, 33]) = true)
    (by decide +kernel)
  obtain ⟨hcontent, hany⟩ := of_decide_eq_true hp
  obtain ⟨⟨res, b⟩, hb, hres⟩ := (Option.any_eq_true _ _).mp hany
  obtain rfl : res = [97, 105, 33] := of_decide_eq_true hres
  have hok := Except.toOption_eq_some.mp hb
  refine ⟨s, hr, hcontent, ⟨b, hok⟩, ?_⟩
  rintro ⟨res, b', hm, hsplit, -⟩
  rw [hok, Except.ok.injEq, Prod.mk.injEq] at hm
  rw [← hm.1, hcontent] at hsplit
  simp at hsplit

end BufferSystem

end Muduo
