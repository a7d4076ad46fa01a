/-
The marks a connection's life leaves in its log.

Of what a connection logs only a few entries matter to the server: where
`connectEstablished`, `handleEvent`, the close callback and `connectDestoryed` stand.  Which
of them a piece of the connection's code leaves, and when `handleClose` is entered, is
settled here once.
-/
import Muduo.Proofs.Handlers

namespace Muduo

/-- An entry that marks a stage of the connection's life. -/
def Entry.isMark : Entry → Bool
  | .establish => true
  | .handleEvent _ => true
  | .closeCallback => true
  | .destoryBegin => true
  | .destoryEnd => true
  | _ => false

def marks (log : List Entry) : List Entry := log.filter Entry.isMark

@[simp] theorem marks_append (l es : List Entry) : marks (l ++ es) = marks l ++ marks es :=
  List.filter_append l es

theorem marks_eq_nil {es : List Entry} (h : ∀ e ∈ es, e.isMark = false) : marks es = [] := by
  refine List.filter_eq_nil_iff.mpr ?_
  intro e he
  simp [h e he]

theorem Entry.isMark_of_isOutput {e : Entry} (h : e.isOutput = true) : e.isMark = false := by
  cases e with
  | establish | handleEvent | closeCallback | destoryBegin | destoryEnd =>
      simp [Entry.isOutput] at h
  | _ => rfl

theorem mem_marks {e : Entry} {log : List Entry} (h : e.isMark = true) :
    e ∈ marks log ↔ e ∈ log := by
  simp [marks, h]

theorem count_marks {e : Entry} {log : List Entry} (h : e.isMark = true) :
    (marks log).count e = log.count e :=
  List.count_filter h

/-- The marks a piece of the loop thread's code leaves. -/
def Frame.marks : Frame → List Entry
  | .connectEstablished => [.establish]
  | .closeCallback => [.closeCallback]
  | .destoryRemove => [.destoryEnd]
  | _ => []

/-- The marks a functor leaves. -/
def Functor.marks : Functor → List Entry
  | .connectEstablished _ => [.establish]
  | .connectDestoryed _ => [.destoryBegin]
  | _ => []

theorem Buffer.readFd_count {b b' : Buffer} {r : ReadvResult} {n : Nat} {e : Option Errno}
    (h : b.readFd r = .ok (b', n, e)) : n = toSize r.ret := by
  unfold Buffer.readFd at h
  dsimp only at h
  split at h
  · rw [Except.pure_eq_ok, Prod.mk.injEq, Prod.mk.injEq] at h
    exact h.2.1.symm
  · split at h
    · rw [Except.pure_eq_ok, Prod.mk.injEq, Prod.mk.injEq] at h
      exact h.2.1.symm
    · obtain ⟨m, -, h⟩ := Except.bind_eq_ok.mp h
      rw [Except.pure_eq_ok, Prod.mk.injEq, Prod.mk.injEq] at h
      exact h.2.1.symm

namespace Ctx

variable {x x' : Ctx}

/-! ### Marks -/

theorem OutputStep.marks (h : OutputStep x x') : marks x'.log = marks x.log := by
  obtain ⟨es, hes, hall⟩ := h.log
  rw [hes, marks_append, marks_eq_nil fun e he => Entry.isMark_of_isOutput (hall e he),
    List.append_nil]

theorem CloseStep.marks (h : CloseStep x x') : marks x'.log = marks x.log := by
  have hnil : Muduo.marks [.stored .kDisconnected, .connectionCallback false] = [] := rfl
  rw [h.log, marks_append, hnil, List.append_nil]

theorem ReadStep.marks (h : ReadStep x x') : marks x'.log = marks x.log := by
  obtain ⟨limit, ret, hlog⟩ := h.log
  have hnil : Muduo.marks [.readv limit ret] = [] := rfl
  rw [hlog, marks_append, hnil, List.append_nil]

/-- `handleClose` is entered: the mask says so, or there is nothing left to read. -/
def EntersClose (x : Ctx) (io : Io) : Frame → Prop
  | .closePart =>
      x.conn.channel.revents.has EPOLLHUP = true ∧ x.conn.channel.revents.has EPOLLIN = false
  | .readPart =>
      x.conn.channel.revents.has (EPOLLIN ||| EPOLLPRI) = true ∧ toSize io.readv.ret = 0
  | _ => False

theorem handleRead_closes {r : ReadvResult} {fs : List Frame}
    (h : x.handleRead r = .ok (x', fs)) (hfs : fs ≠ []) : toSize r.ret = 0 := by
  obtain ⟨⟨input, n, e⟩, hread, h⟩ := Except.bind_eq_ok.mp h
  have hn := Buffer.readFd_count hread
  dsimp only at h
  by_cases hpos : 0 < n
  · rw [if_pos hpos] at h
    obtain ⟨y, -, h⟩ := Except.bind_eq_ok.mp h
    rw [Except.pure_eq_ok, Prod.mk.injEq] at h
    exact absurd h.2.symm hfs
  · omega

/-- The marks of a frame, and whether it enters `handleClose`. -/
theorem runFrame_marks {io : Io} {f : Frame} {fs : List Frame}
    (h : x.runFrame io f = .ok (x', fs)) : marks x'.log = marks x.log ++ f.marks ∧
      (fs = [] ∨ (fs = [.closeCallback] ∧ x.EntersClose io f)) := by
  cases f with
  | connectEstablished =>
      obtain ⟨hest, rfl⟩ := runFrame_connectEstablished h
      rw [hest.log, marks_append]
      exact ⟨rfl, .inl rfl⟩
  | closePart =>
      rcases runFrame_closePart h with ⟨rfl, rfl⟩ | ⟨hup, hin, hclose, rfl⟩
      · exact ⟨by simp [Frame.marks], .inl rfl⟩
      · exact ⟨by simp [Frame.marks, hclose.marks], .inr ⟨rfl, hup, hin⟩⟩
  | errorPart =>
      obtain ⟨rfl, rfl⟩ := runFrame_errorPart h
      exact ⟨by simp [Frame.marks], .inl rfl⟩
  | readPart =>
      rcases runFrame_readPart h with ⟨rfl, rfl⟩ | ⟨hin, y, hread, hend⟩
      · exact ⟨by simp [Frame.marks], .inl rfl⟩
      · rcases hend with ⟨rfl, rfl⟩ | ⟨hclose, rfl⟩
        · refine ⟨?_, .inl rfl⟩
          rw [record_log, marks_append, hread.marks]
          rfl
        · have hret : x.handleRead io.readv = .ok (x', [.closeCallback]) := by
            simpa only [runFrame, if_pos hin] using h
          exact ⟨by simp [Frame.marks, hclose.marks, hread.marks],
            .inr ⟨rfl, hin, handleRead_closes hret (by simp)⟩⟩
  | writePart =>
      obtain ⟨rfl, hwrite⟩ := runFrame_writePart h
      refine ⟨?_, .inl rfl⟩
      rcases hwrite with rfl | ⟨-, hwrite⟩
      · simp [Frame.marks]
      · simp [Frame.marks, (handleWrite_outputStep hwrite).marks]
  | closeCallback =>
      obtain ⟨rfl, rfl⟩ := runFrame_closeCallback h
      rw [record_log, marks_append]
      exact ⟨rfl, .inl rfl⟩
  | destoryStore =>
      obtain ⟨hclose, rfl⟩ := runFrame_destoryStore h
      exact ⟨by simp [Frame.marks, hclose.marks], .inl rfl⟩
  | destoryRemove =>
      obtain ⟨hrem, rfl⟩ := runFrame_destoryRemove h
      rw [hrem.log, marks_append]
      exact ⟨rfl, .inl rfl⟩

/-- The marks of a functor.  What it leaves to run is the rest of `connectDestoryed`. -/
theorem runFunctor_marks {mem : Mem} {io : Io} {f : Functor} {fs : List Frame}
    (h : x.runFunctor mem io f = .ok (x', fs)) :
    marks x'.log = marks x.log ++ f.marks ∧
      ∀ g ∈ fs, g = .destoryStore ∨ g = .destoryRemove := by
  cases f with
  | sendInLoop c call =>
      obtain ⟨hsend, rfl⟩ := runFunctor_sendInLoop h
      exact ⟨by simp [Functor.marks, (sendInLoop_outputStep hsend).marks], by simp⟩
  | shutdownInLoop c =>
      obtain ⟨rfl, rfl⟩ := runFunctor_shutdownInLoop h
      exact ⟨by simp [Functor.marks, shutdownInLoop_outputStep.marks], by simp⟩
  | connectEstablished c =>
      obtain ⟨hest, rfl⟩ := runFunctor_connectEstablished h
      rw [hest.log, marks_append]
      exact ⟨rfl, by simp⟩
  | connectDestoryed c =>
      obtain ⟨rfl, rfl⟩ := runFunctor_connectDestoryed h
      rw [record_log, marks_append]
      refine ⟨rfl, ?_⟩
      by_cases hconn : x.conn.state = .kConnected <;> simp [hconn]
  | writeComplete c | highWaterMark c n =>
      obtain ⟨rfl, rfl⟩ := runFunctor_userCallback rfl h
      exact ⟨by simp [Functor.marks], by simp⟩
  | removeConnectionInLoop c =>
      obtain ⟨rfl, rfl⟩ := runFunctor_removeConnectionInLoop h
      exact ⟨by simp [Functor.marks], by simp⟩

end Ctx

end Muduo
