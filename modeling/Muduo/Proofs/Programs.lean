/-
Programs that answer frame by frame, and the echo server.

A codec loop takes whole frames off the input buffer as long as there are any, answers each from
its state, and leaves the beginning of the next one in the buffer.  That it implements a function
on streams is `Decoder.frames_append`.  The echo server takes whatever is there.
-/
import Muduo.Proofs.Session

namespace Muduo

namespace App

variable {σ : Type} {handle : σ → List Byte → σ × List Byte} {st : σ}
  {fs gs : List (List Byte)}

/-! ### Codec loops -/

/-- Takes the frames off the input buffer, and sends the answer to each. -/
def answer (handle : σ → List Byte → σ × List Byte) : σ → List (List Byte) → σ × List Op
  | st, [] => (st, [])
  | st, f :: fs =>
      let (st, reply) := handle st f
      let (st, ops) := answer handle st fs
      (st, .retrieve f.length :: .send reply :: ops)

/-- A program that answers each frame. -/
def framed (d : Decoder Byte) (handle : σ → List Byte → σ × List Byte) : App σ where
  onMessage st content := answer handle st (d.frames content).1

/-- The state after some frames. -/
def stateAfter (handle : σ → List Byte → σ × List Byte) (st : σ) (fs : List (List Byte)) : σ :=
  fs.foldl (fun st f => (handle st f).1) st

/-- The answers to some frames, one after the other. -/
def replies (handle : σ → List Byte → σ × List Byte) : σ → List (List Byte) → List Byte
  | _, [] => []
  | st, f :: fs => (handle st f).2 ++ replies handle (handle st f).1 fs

theorem replies_append : replies handle st (fs ++ gs) =
    replies handle st fs ++ replies handle (stateAfter handle st fs) gs := by
  induction fs generalizing st with
  | nil => rfl
  | cons f fs ih =>
      simp only [List.cons_append, replies, ih, List.append_assoc]
      rfl

theorem answer_state : (answer handle st fs).1 = stateAfter handle st fs := by
  induction fs generalizing st with
  | nil => rfl
  | cons f fs ih => exact ih

theorem answer_sends : Op.sends (answer handle st fs).2 = replies handle st fs := by
  induction fs generalizing st with
  | nil => rfl
  | cons f fs ih =>
      simp only [answer, Op.sends, replies]
      rw [ih]

theorem answer_leftover (handle : σ → List Byte → σ × List Byte) (st : σ) (fs : List (List Byte))
    (rest : List Byte) :
    Op.leftover (answer handle st fs).2 (fs.flatten ++ rest) = rest := by
  induction fs generalizing st with
  | nil => rfl
  | cons f fs ih =>
      simp only [answer, Op.leftover, List.flatten_cons, List.append_assoc, List.drop_left]
      exact ih _

/-- A codec loop sends the answers to the frames of the stream. -/
theorem framed_implements (d : Decoder Byte) (handle : σ → List Byte → σ × List Byte)
    (init : σ) : (framed d handle).Implements init
      (fun stream => replies handle init (d.frames stream).1)
      (fun st stream rest => st = stateAfter handle init (d.frames stream).1 ∧
        rest = (d.frames stream).2) where
  start := by
    rw [Decoder.frames_of_none d.frame_nil]
    exact ⟨rfl, rfl⟩
  nothing := by
    rw [Decoder.frames_of_none d.frame_nil]
    rfl
  step := by
    rintro st stream rest piece ⟨rfl, rfl⟩
    have hcontent := d.frames_flatten ((d.frames stream).2 ++ piece)
    have hleft := answer_leftover handle (stateAfter handle init (d.frames stream).1)
      (d.frames ((d.frames stream).2 ++ piece)).1 (d.frames ((d.frames stream).2 ++ piece)).2
    rw [hcontent] at hleft
    refine ⟨⟨?_, ?_⟩, ?_⟩
    · rw [d.frames_append stream piece]
      simp only [framed, answer_state, stateAfter, List.foldl_append]
    · rw [d.frames_append stream piece]
      exact hleft
    · rw [d.frames_append stream piece]
      simp only [framed, answer_sends, replies_append]

/-! ### The echo server -/

theorem echo_implements : echo.Implements () id (fun _ _ rest => rest = []) where
  start := rfl
  nothing := rfl
  step := by
    rintro _ stream _ piece rfl
    exact ⟨List.drop_length, by simp [echo, Op.sends]⟩

end App

namespace Session

variable {σ : Type} {handle : σ → List Byte → σ × List Byte} {init : σ} {d : Decoder Byte}

/-- A server that answers frame by frame has answered every whole frame it has received while it
could send, in order and once; what it has not taken is the beginning of one frame. -/
theorem framed_served {s : Session σ} (h : (lts (App.framed d handle) init).Reachable s)
    (hsane : SaneWrites s.x.log) :
    written s.x.log ++ s.x.conn.outputBuffer.content =
        App.replies handle init (d.frames s.answered).1 ∧
      s.app = App.stateAfter handle init (d.frames s.received).1 ∧
      s.received = (d.frames s.received).1.flatten ++ s.x.conn.inputBuffer.content ∧
      d.frame s.x.conn.inputBuffer.content = none ∧
      (s.x.conn.state = .kConnected → s.answered = s.received) := by
  obtain ⟨hout, -, hcurrent, happ, hrest⟩ :=
    served (App.framed_implements d handle init) h hsane
  refine ⟨hout, happ, ?_, ?_, hcurrent⟩
  · rw [hrest]
    exact (d.frames_flatten s.received).symm
  · rw [hrest]
    exact d.frame_rest s.received

/-- Two bytes make a frame, and the answer is the second. -/
def pairs : Decoder Byte where
  frame xs := if 2 ≤ xs.length then some 2 else none
  complete xs n h := by
    split at h
    · simp only [Option.some.injEq] at h
      omega
    · simp at h
  stable xs ys n h := by
    split at h
    · rw [if_pos (by rw [List.length_append]; omega)]
      exact h
    · simp at h

def second (n : Nat) (f : List Byte) : Nat × List Byte := (n + 1, f.drop 1)

/-- `::readv` gets these bytes, and each `::write` takes all or none. -/
def arrives (data : List Byte) (taken : Int) : Action :=
  .readable { ret := data.length, data, errno := .EWOULDBLOCK }
    fun _ => { ret := taken, errno := .EWOULDBLOCK }

/-- Three bytes and then three more: two answers, and a byte of the next frame is left. -/
theorem framed_served_pairs : ∃ s : Session Nat, s.received = [1, 2, 3, 4, 5] ∧ s.app = 2 ∧
    s.x.conn.inputBuffer.content = [5] ∧
      written s.x.log ++ s.x.conn.outputBuffer.content =
        App.replies second 0 (pairs.frames s.answered).1 := by
  obtain ⟨s, hr, hreceived, happ, hcontent, hsane⟩ := exists_of_run (App.framed pairs second) 0
    [arrives [1, 2, 3] 0, arrives [4, 5] 0]
    (fun s => s.received = [1, 2, 3, 4, 5] ∧ s.app = 2 ∧ s.x.conn.inputBuffer.content = [5] ∧
      SaneWrites s.x.log) (by decide +kernel)
  exact ⟨s, hreceived, happ, hcontent, (framed_served hr hsane).1⟩

/-- Two such servers that are up and have received the same bytes have done the same, whatever
their reads and writes were. -/
theorem framed_same {s s' : Session σ} (h : (lts (App.framed d handle) init).Reachable s)
    (h' : (lts (App.framed d handle) init).Reachable s') (hsane : SaneWrites s.x.log)
    (hsane' : SaneWrites s'.x.log) (hup : s.x.conn.state = .kConnected)
    (hup' : s'.x.conn.state = .kConnected) (heq : s.received = s'.received) :
    s.app = s'.app ∧ s.x.conn.inputBuffer.content = s'.x.conn.inputBuffer.content ∧
      written s.x.log ++ s.x.conn.outputBuffer.content =
        written s'.x.log ++ s'.x.conn.outputBuffer.content := by
  obtain ⟨hout, -, hcurrent, happ, hrest⟩ := served (App.framed_implements d handle init) h hsane
  obtain ⟨hout', -, hcurrent', happ', hrest'⟩ :=
    served (App.framed_implements d handle init) h' hsane'
  refine ⟨by rw [happ, happ', heq], by rw [hrest, hrest', heq], ?_⟩
  rw [hout, hout', hcurrent hup, hcurrent' hup', heq]

/-- The same five bytes at once, and in two pieces with the writes taking nothing. -/
theorem framed_same_pairs : ∃ s s' : Session Nat, written s.x.log = [2, 4] ∧
    written s'.x.log = [] ∧ s.app = s'.app ∧
      s.x.conn.inputBuffer.content = s'.x.conn.inputBuffer.content := by
  obtain ⟨s, hr, hwritten, hreceived, hup, hsane⟩ := exists_of_run (App.framed pairs second) 0
    [arrives [1, 2, 3, 4, 5] 1]
    (fun s => written s.x.log = [2, 4] ∧ s.received = [1, 2, 3, 4, 5] ∧
      s.x.conn.state = .kConnected ∧ SaneWrites s.x.log) (by decide +kernel)
  obtain ⟨s', hr', hwritten', hreceived', hup', hsane'⟩ :=
    exists_of_run (App.framed pairs second) 0 [arrives [1, 2, 3] 0, arrives [4, 5] 0]
    (fun s => written s.x.log = [] ∧ s.received = [1, 2, 3, 4, 5] ∧
      s.x.conn.state = .kConnected ∧ SaneWrites s.x.log) (by decide +kernel)
  obtain ⟨happ, hcontent, -⟩ :=
    framed_same hr hr' hsane hsane' hup hup' (hreceived.trans hreceived'.symm)
  exact ⟨s, s', hwritten, hwritten', happ, hcontent⟩

/-- The peer of the echo server gets a prefix of what it sent; as long as the connection is up what
is missing is in the output buffer. -/
theorem echoed {s : Session Unit} (h : (lts App.echo ()).Reachable s)
    (hsane : SaneWrites s.x.log) :
    written s.x.log <+: s.received ∧ s.x.conn.inputBuffer.content = [] ∧
      (s.x.conn.state = .kConnected →
        written s.x.log ++ s.x.conn.outputBuffer.content = s.received) := by
  obtain ⟨hout, hprior, hcurrent, hrest⟩ := served App.echo_implements h hsane
  have hout : written s.x.log ++ s.x.conn.outputBuffer.content = s.answered := hout
  refine ⟨?_, hrest, fun hup => hout.trans (hcurrent hup)⟩
  rw [← hout] at hprior
  exact (List.prefix_append ..).trans hprior

/-- The first byte is written at once, the others wait for `EPOLLOUT`; then the peer closes. -/
theorem echoed_closed : ∃ s : Session Unit, s.x.conn.state = .kDisconnected ∧
    written s.x.log = [1, 2] ∧ s.received = [1, 2, 3] ∧ written s.x.log <+: s.received := by
  obtain ⟨s, hr, hstate, hwritten, hreceived, hsane⟩ := exists_of_run App.echo ()
    [arrives [1, 2, 3] 1, .writable { ret := 1, errno := .EWOULDBLOCK }, arrives [] 0]
    (fun s => s.x.conn.state = .kDisconnected ∧ written s.x.log = [1, 2] ∧
      s.received = [1, 2, 3] ∧ SaneWrites s.x.log) (by decide +kernel)
  exact ⟨s, hstate, hwritten, hreceived, (echoed hr hsane).1⟩

end Session

end Muduo
