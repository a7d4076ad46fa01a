/-
Half-closing a connection.

`shutdown` may be called while output is pending; `Socket::shutdownWrite` has to wait for
the last byte.  The code decides by the write interest, so the invariant behind everything
is that in an open connection the write interest is on exactly when the output buffer
holds something.

The decision looks at the buffer only.  It is right when no call of `send` is on its way
to the buffer at that moment (`NoOvertake`); on the loop's own thread none can be.  And what has
been written by then is what was sent as long as nobody writes to the memory of a message that is
still queued (`MemoryKept`).
-/
import Muduo.Proofs.Output

namespace Muduo

open Transcript

/-- `Socket::shutdownWrite` has been called. -/
def HalfClosed (log : List Entry) : Prop := ∃ e ∈ log, e.isShutdownWrite = true

instance (log : List Entry) : Decidable (HalfClosed log) :=
  inferInstanceAs (Decidable (∃ e ∈ log, e.isShutdownWrite = true))

theorem halfClosed_append {l₁ l₂ : List Entry} :
    HalfClosed (l₁ ++ l₂) ↔ HalfClosed l₁ ∨ HalfClosed l₂ := by
  simp only [HalfClosed, List.mem_append, or_and_right, exists_or]

theorem halfClosed_append_of_not {l es : List Entry} (h : ∀ e ∈ es, e.isShutdownWrite = false) :
    HalfClosed (l ++ es) ↔ HalfClosed l := by
  rw [halfClosed_append]
  refine or_iff_left ?_
  rintro ⟨e, he, hw⟩
  rw [h e he] at hw
  simp at hw

/-- A write answers for the output not being closed before it. -/
def WritesOpen (before : List Entry) : Entry → Prop
  | .write _ _ _ => ¬ HalfClosed before
  | _ => True

/-- The closing of the output of an open connection answers for everything called for
having been written, if the writes went well. -/
def EndsOutput (before : List Entry) : Entry → Prop
  | .shutdownWrite _ unsent => .kDisconnected ∉ stores before → SaneWrites before →
      unsent = [] ∧ written before = taken before ∧
        (∀ t, byThread t (called before) = byThread t (ranCalls before)) ∧
        ∀ call bytes, .ran call bytes ∈ before → bytes = call.bytes ∧ bytes.length = call.len
  | _ => True

theorem writesOpen_of_not {e : Entry} (h : e.isWrite = false) (before : List Entry) :
    WritesOpen before e := by
  cases e <;> trivial

theorem endsOutput_of_not {e : Entry} (h : e.isShutdownWrite = false) (before : List Entry) :
    EndsOutput before e := by
  cases e <;> trivial

namespace Ctx

variable {x x' : Ctx}

/-- The write interest is on exactly when there is unsent output. -/
def WritingIffUnsent (x : Ctx) : Prop :=
  x.conn.channel.isWriting = true ↔ x.conn.outputBuffer.content ≠ []

theorem SendStep.writingIffUnsent {call : SendCall} {bytes : List Byte} {k : Nat}
    (h : SendStep x x' call bytes k) (hx : x.WritingIffUnsent) : x'.WritingIffUnsent := by
  have hheld : x'.conn.outputBuffer.content =
      x.conn.outputBuffer.content ++ bytes.drop k := congrArg Pipe.held h.pipe
  unfold WritingIffUnsent at *
  by_cases hrest : bytes.drop k = []
  · rw [h.done hrest, hheld, hrest, List.append_nil]
    exact hx
  · rw [h.rest hrest, hheld]
    simp [hrest]

theorem DrainStep.writingIffUnsent {k : Nat} {ending : List Entry}
    (h : DrainStep x x' k ending) (hwriting : x.conn.channel.isWriting = true)
    (hx : x.WritingIffUnsent) : x'.WritingIffUnsent := by
  have hheld : x'.conn.outputBuffer.content = x.conn.outputBuffer.content.drop k :=
    congrArg Pipe.held h.pipe
  unfold WritingIffUnsent at *
  by_cases hnil : x'.conn.outputBuffer.content = []
  · have hk : 0 < k := by
      rcases Nat.eq_zero_or_pos k with rfl | hk
      · rw [hnil, List.drop_zero] at hheld
        exact absurd hheld.symm (hx.mp hwriting)
      · exact hk
    simp [hnil, h.done hk hnil]
  · simp [hnil, h.rest (Or.inr hnil), hwriting]

/-- Until the connection is closed the interest shows what is unsent, and no call of `send`
is given up. -/
def Drains (x : Ctx) : Prop := .kDisconnected ∉ stores x.log →
  (x.conn.state = .kConnected ∨ x.conn.state = .kDisconnecting) ∧
    x.WritingIffUnsent ∧ settled x.log = ranCalls x.log

theorem Drains.stays (h : x.Drains) (hx : Stays x x') : x'.Drains := by
  obtain ⟨es, hes, hall⟩ := hx.quiet.log
  intro hnot
  rw [hx.stores] at hnot
  obtain ⟨hst, hiff, hset⟩ := h hnot
  refine ⟨by rw [hx.state]; exact hst, ?_, ?_⟩
  · simpa only [WritingIffUnsent, hx.writing, hx.quiet.output] using hiff
  · rw [hes, settled_append, ranCalls_append, settled_of_noCall fun e he => (hall e he).2,
      ranCalls_of_noCall fun e he => (hall e he).2, hset]

theorem Drains.closes (hx : Closes x x') : x'.Drains := by
  intro hnot
  rw [hx.stores] at hnot
  exact absurd (List.mem_append_right _ (List.mem_singleton.mpr rfl)) hnot

theorem Drains.record (h : x.Drains) {e : Entry} (hstore : e.storeOf = [])
    (hset : e.settledOf = []) (hran : e.ranOf = []) : (x.record e).Drains := by
  intro hnot
  obtain ⟨hst, hiff, heq⟩ := h (by simpa [hstore] using hnot)
  exact ⟨hst, hiff, by simp [hset, hran, heq]⟩

theorem Drains.shutdownStore (h : x.Drains) : x.shutdownStore.Drains := by
  intro hnot
  obtain ⟨-, hiff, heq⟩ := h (by simpa [Ctx.shutdownStore, Entry.storeOf] using hnot)
  exact ⟨Or.inr rfl, hiff, by simp [Ctx.shutdownStore, Entry.settledOf, Entry.ranOf, heq]⟩

theorem Drains.shutdownInLoop (h : x.Drains) : x.shutdownInLoop.Drains := by
  cases hw : x.conn.channel.isWriting with
  | true =>
      rw [shutdownInLoop_of_writing hw]
      exact h
  | false =>
      rw [shutdownInLoop_of_not_writing hw]
      exact h.record rfl rfl rfl

theorem Drains.sendInLoop (h : x.Drains) (hflow : x.Flow) {mem : Mem} {call : SendCall}
    {w : WriteResult} (hlen : call.len < 2 ^ 64) (hx : x.sendInLoop mem call w = .ok x')
    (hsane : SaneWrites x'.log) : x'.Drains := by
  have hout := sendInLoop_outputStep hx
  intro hnot
  rw [hout.stores] at hnot
  obtain ⟨hst, hiff, heq⟩ := h hnot
  have hopen : x.conn.state ≠ .kDisconnected := by
    rcases hst with hst | hst <;> simp [hst]
  obtain ⟨bytes, k, -, hsend⟩ := sendInLoop_sane hflow.wf hlen hopen hx hsane
  refine ⟨by rw [hout.state]; exact hst, hsend.writingIffUnsent hiff, ?_⟩
  rcases hsend.log with ⟨hlog, -⟩ | ⟨hlog, -⟩
  · simp [hlog, heq, Entry.settledOf, Entry.ranOf]
  · simp [hlog, heq, Entry.settledOf, Entry.ranOf]

theorem Drains.handleWrite (h : x.Drains) (hflow : x.Flow) {w : WriteResult}
    (hx : x.handleWrite w = .ok x') (hsane : SaneWrites x'.log) : x'.Drains := by
  cases hw : x.conn.channel.isWriting with
  | false =>
      rw [handleWrite_not_writing hw, Except.ok.injEq] at hx
      rw [← hx]
      exact h
  | true =>
      have hout := handleWrite_outputStep hx
      obtain ⟨ending, hdrain⟩ := handleWrite_sane hflow.wf hw hx hsane
      obtain ⟨es, hes, hall⟩ := handleWrite_noCall hx
      intro hnot
      rw [hout.stores] at hnot
      obtain ⟨hst, hiff, heq⟩ := h hnot
      refine ⟨by rw [hout.state]; exact hst, hdrain.writingIffUnsent hw hiff, ?_⟩
      rw [hes, settled_append, ranCalls_append, settled_of_noCall hall, ranCalls_of_noCall hall,
        heq]

end Ctx

namespace ConnSystem

variable {s s' : ConnSystem} {a : Action}

/-- The action comes to `Socket::shutdownWrite` while the connection is open: from
`shutdownInLoop` when there is no write interest, and from `handleWrite` when that takes the
last byte to have gone in `kDisconnecting`. -/
def HalfCloses (s : ConnSystem) : Action → Prop
  | .shutdownRun t => t = s.loopTid ∧ s.conn.channel.isWriting = false ∧
      s.conn.state ≠ .kDisconnected
  | .functor _ => (∃ f ∈ s.batch.head?, f.isShutdown = true) ∧
      s.conn.channel.isWriting = false ∧ s.conn.state ≠ .kDisconnected
  | .frame io => s.frames.head? = some .writePart ∧
      s.conn.channel.revents.has EPOLLOUT = true ∧ s.conn.channel.isWriting = true ∧
      s.conn.state = .kDisconnecting ∧ 0 < toSize io.write.ret ∧
      (s.conn.outputBuffer.retrieve (toSize io.write.ret)).readableBytes = 0
  | _ => False

/-- The action takes a connection whose output is closed out of `kDisconnected`. -/
def Reopens (s : ConnSystem) : Action → Prop
  | .shutdownStore _ => s.conn.state = .kDisconnected ∧ HalfClosed s.log
  | _ => False

/-- The output is not closed, and a closed one not reopened, while a call of `send` is in
flight. -/
def NoOvertake (s : ConnSystem) (a : Action) : Prop :=
  s.HalfCloses a ∨ s.Reopens a → ∀ call, ¬ s.InFlight call

/-! ### Nothing is written after the half-close

This does not depend on what the kernel answers.
-/

structure Closing (s : ConnSystem) : Prop where
  /-- Nobody shuts down a connection that is still `kConnected`. -/
  shutting : s.conn.state = .kConnected → (∀ t, s.pcs t ≠ .shutdownStored) ∧
    (∀ f ∈ s.todo, f.isShutdown = false) ∧ ¬ HalfClosed s.log
  /-- Once the output is closed, nothing is on its way to it. -/
  half : HalfClosed s.log → s.conn.channel.isWriting = false ∧
    (s.conn.state ≠ .kDisconnected → ∀ call, ¬ s.InFlight call)

theorem Established.not_halfClosed (h : Established s) : ¬ HalfClosed s.log := by
  rintro ⟨e, he, hw⟩
  rw [Entry.isShutdownWrite_of_noOutput (h.noCall e he).1] at hw
  simp at hw

theorem Established.closing (h : Established s) : Closing s := by
  refine ⟨fun _ => ⟨?_, ?_, h.not_halfClosed⟩, fun hc => absurd hc h.not_halfClosed⟩
  · intro t
    rw [h.pcs]
    simp
  · intro f hf
    exact Functor.isShutdown_of_isDestory (h.todo f hf)

/-- No piece of code queues a `shutdownInLoop`. -/
theorem Closing.shutting_put (h : Closing s) {x : Ctx} (hx : Ctx.Local s.ctx x)
    (hconn : s.conn.state = .kConnected) :
    (∀ t, (s.put x).pcs t ≠ .shutdownStored) ∧
      ∀ f ∈ ConnSystem.todo (s.put x), f.isShutdown = false := by
  obtain ⟨hpcs, htodo, -⟩ := h.shutting hconn
  refine ⟨hpcs, ?_⟩
  intro f hf
  rcases mem_todo_put hx hf with hf | hf
  · exact htodo f hf
  · exact Functor.isShutdown_of_isUserCallback hf

/-- A step that is not about the output.  New calls of `send` come only from a connection
that is `kConnected`. -/
theorem Closing.of_quiet (h : Closing s) (hstate : s'.conn.state = s.conn.state)
    (hwriting : s'.conn.channel.isWriting = s.conn.channel.isWriting)
    (hlog : ∃ es, s'.log = s.log ++ es ∧ ∀ e ∈ es, e.isOutput = false)
    (hflight : ∀ call, s'.InFlight call → s.InFlight call ∨ s.conn.state = .kConnected)
    (hshut : s.conn.state = .kConnected → (∀ t, s'.pcs t ≠ .shutdownStored) ∧
      ∀ f ∈ s'.todo, f.isShutdown = false) : Closing s' := by
  obtain ⟨es, hes, hall⟩ := hlog
  have hhalf : HalfClosed s'.log ↔ HalfClosed s.log := by
    rw [hes]
    exact halfClosed_append_of_not fun e he => Entry.isShutdownWrite_of_noOutput (hall e he)
  refine ⟨?_, ?_⟩
  · intro hconn
    rw [hstate] at hconn
    obtain ⟨hpcs, htodo⟩ := hshut hconn
    exact ⟨hpcs, htodo, fun hc => (h.shutting hconn).2.2 (hhalf.mp hc)⟩
  · intro hc
    obtain ⟨hnot, hnone⟩ := h.half (hhalf.mp hc)
    refine ⟨by rw [hwriting, hnot], ?_⟩
    intro hne call hin
    rw [hstate] at hne
    rcases hflight call hin with hin | hconn
    · exact hnone hne call hin
    · exact (h.shutting hconn).2.2 (hhalf.mp hc)

/-- A piece of code of the loop that is not about the output. -/
theorem Closing.stays (h : Closing s) {x : Ctx} (hlocal : Ctx.Local s.ctx x)
    (hx : Ctx.Stays s.ctx x) : Closing (s.put x) := by
  obtain ⟨es, hes, hall⟩ := hx.quiet.log
  refine h.of_quiet hx.state hx.writing ⟨es, hes, fun e he => (hall e he).1⟩ ?_
    (h.shutting_put hlocal)
  intro call hin
  exact Or.inl ((inFlight_put hlocal).mp hin)

/-- Taking the functor that ran out of the batch. -/
theorem Closing.functor {f : Functor} {rest : List Functor} {x : Ctx} {fs : List Frame}
    (h : Closing (s.put x)) (batch : s.batch = f :: rest) :
    Closing { s.put x with batch := rest, frames := fs } := by
  have hsub : ∀ g ∈ rest ++ (s.queue ++ x.pending), g ∈ ConnSystem.todo (s.put x) := by
    intro g hg
    rw [todo, put_batch, put_queue, batch]
    exact List.mem_cons_of_mem f hg
  refine h.of_quiet rfl rfl ⟨[], by simp, by simp⟩ ?_ ?_
  · rintro call (hpc | hq)
    · exact Or.inl (Or.inl hpc)
    · obtain ⟨g, hg, hcall⟩ := List.mem_flatMap.mp hq
      exact Or.inl (Or.inr (List.mem_flatMap.mpr ⟨g, hsub g hg, hcall⟩))
  · intro hconn
    obtain ⟨hpcs, htodo, -⟩ := h.shutting hconn
    exact ⟨hpcs, fun g hg => htodo g (hsub g hg)⟩

/-- The end of the connection. -/
theorem Closing.closes {x : Ctx} (hx : Ctx.Closes s.ctx x) :
    Closing (s.put x) := by
  refine ⟨?_, ?_⟩
  · intro hconn
    rw [put_conn, hx.state] at hconn
    simp at hconn
  · intro _
    exact ⟨hx.writing, fun hne => absurd hx.state hne⟩

/-- The store of `kDisconnecting`. -/
theorem Closing.shutdownStore (h : Closing s) {t : Tid}
    (hno : NoOvertake s (.shutdownStore t)) (pc : s.pcs t = .shutdownSeen) :
    Closing ((s.put s.ctx.shutdownStore).setPc t .shutdownStored) := by
  have hflight : ∀ call, ConnSystem.InFlight
      ((s.put s.ctx.shutdownStore).setPc t .shutdownStored) call → s.InFlight call := by
    rintro call (⟨u, hu⟩ | hq)
    · refine Or.inl ⟨u, ?_⟩
      have hpcs : (Function.update s.pcs t .shutdownStored u).callOf = (s.pcs u).callOf :=
        callOf_update (by rw [pc]; rfl) rfl u
      rw [← hpcs]
      exact hu
    · have htodo : queuedCalls (s.batch ++ (s.queue ++ s.ctx.shutdownStore.pending)) =
          queuedCalls (s.batch ++ s.queue) := queuedCalls_put (Ctx.shutdownStore_local (x := s.ctx))
      exact Or.inr (htodo ▸ hq)
  have hhalf : HalfClosed (s.put s.ctx.shutdownStore).log → HalfClosed s.log :=
    (halfClosed_append_of_not (by simp [Entry.isShutdownWrite])).mp
  refine ⟨?_, ?_⟩
  · intro hconn
    exact absurd hconn (by simp [setPc, Ctx.shutdownStore])
  · intro hc
    obtain ⟨hnot, hnone⟩ := h.half (hhalf hc)
    refine ⟨hnot, ?_⟩
    intro _ call hin
    by_cases hs : s.conn.state = .kDisconnected
    · exact hno (Or.inr ⟨hs, hhalf hc⟩) call (hflight call hin)
    · exact hnone hs call (hflight call hin)

theorem Closing.shutdownInLoop (h : Closing s) (hstate : s.conn.state ≠ .kConnected)
    (hno : s.conn.channel.isWriting = false → s.conn.state ≠ .kDisconnected →
      ∀ call, ¬ s.InFlight call) : Closing (s.put s.ctx.shutdownInLoop) := by
  cases hw : s.conn.channel.isWriting with
  | true =>
      have hsame : s.ctx.shutdownInLoop = s.ctx := Ctx.shutdownInLoop_of_writing hw
      rw [hsame]
      exact h.stays (.refl _) (.refl _)
  | false =>
      have hx : s.ctx.shutdownInLoop = _ := Ctx.shutdownInLoop_of_not_writing hw
      have hlocal := (Ctx.shutdownInLoop_outputStep (x := s.ctx)).local
      rw [hx] at hlocal ⊢
      refine ⟨fun hs => absurd hs hstate, ?_⟩
      intro _
      refine ⟨hw, ?_⟩
      intro hne call hin
      exact hno hw hne call ((inFlight_put hlocal).mp hin)

/-- `sendInLoop` runs only while the output is not closed, since its call was in flight. -/
theorem Closing.sendInLoop (h : Closing s) {call : SendCall} {w : WriteResult} {x : Ctx}
    (hin : s.InFlight call) (hx : s.ctx.sendInLoop s.mem call w = .ok x) :
    Closing (s.put x) := by
  have hout := Ctx.sendInLoop_outputStep hx
  rcases Ctx.sendInLoop_log hx with ⟨hs, rfl⟩ | ⟨hs, es, bytes, hes, hall⟩
  · refine ⟨fun hconn => ?_, ?_⟩
    · have hconn : s.ctx.conn.state = .kConnected := hconn
      rw [hs] at hconn
      simp at hconn
    · intro hc
      have hc : HalfClosed s.log :=
        (halfClosed_append_of_not (by simp [Entry.isShutdownWrite])).mp hc
      exact ⟨(h.half hc).1, fun hne => absurd hs hne⟩
  · have hopen : ¬ HalfClosed x.log := by
      rw [hes, halfClosed_append_of_not]
      · exact fun hc => (h.half hc).2 hs call hin
      · intro e he
        rcases List.mem_append.mp he with he | he
        · exact Entry.isShutdownWrite_of_isWrite (hall e he)
        · rw [List.mem_singleton.mp he]
          rfl
    refine ⟨?_, fun hc => absurd hc hopen⟩
    intro hconn
    rw [put_conn, hout.state] at hconn
    obtain ⟨hpcs, htodo⟩ := h.shutting_put hout.local hconn
    exact ⟨hpcs, htodo, hopen⟩

theorem Closing.handleWrite (h : Closing s) {w : WriteResult} {x : Ctx}
    (hx : s.ctx.handleWrite w = .ok x)
    (hno : s.conn.channel.isWriting = true → s.conn.state = .kDisconnecting →
      0 < toSize w.ret → (s.conn.outputBuffer.retrieve (toSize w.ret)).readableBytes = 0 →
      ∀ call, ¬ s.InFlight call) : Closing (s.put x) := by
  have hout := Ctx.handleWrite_outputStep hx
  cases hw : s.conn.channel.isWriting with
  | false =>
      rw [Ctx.handleWrite_not_writing hw, Except.ok.injEq] at hx
      subst hx
      exact h.stays (.refl _) (.refl _)
  | true =>
      rcases Ctx.handleWrite_cases hw hx with hlog | hlast
      · have hopen : ¬ HalfClosed (s.put x).log := by
          rw [put_log, hlog,
            halfClosed_append_of_not (by simp [Ctx.writeEntry, Entry.isShutdownWrite])]
          intro hc
          rw [(h.half hc).1] at hw
          simp at hw
        refine ⟨?_, fun hc => absurd hc hopen⟩
        intro hconn
        rw [put_conn, hout.state] at hconn
        obtain ⟨hpcs, htodo⟩ := h.shutting_put hout.local hconn
        exact ⟨hpcs, htodo, hopen⟩
      · refine ⟨?_, ?_⟩
        · intro hconn
          rw [put_conn, hout.state, hlast.state] at hconn
          simp at hconn
        · intro _
          refine ⟨hlast.writing, ?_⟩
          intro _ call hin
          exact hno hw hlast.state hlast.sent hlast.empty call ((inFlight_put hout.local).mp hin)

/-- A step of one thread that does not leave it at the end of `shutdown`. -/
theorem shutting_update {t : Tid} {pc : CallPc} (h : ∀ u, s.pcs u ≠ .shutdownStored)
    (hpc : pc ≠ .shutdownStored) (u : Tid) : Function.update s.pcs t pc u ≠ .shutdownStored := by
  by_cases hu : u = t
  · rw [hu, Function.update_self]
    exact hpc
  · rw [Function.update_of_ne hu]
    exact h u

/-- An entry that is not about the output. -/
theorem Closing.record (h : Closing s) {e : Entry} (he : e.isOutput = false) :
    Closing { s with log := s.log ++ [e] } := by
  refine h.of_quiet rfl rfl ⟨[e], rfl, by simp [he]⟩ (fun call hin => Or.inl hin) ?_
  intro hconn
  exact ⟨(h.shutting hconn).1, (h.shutting hconn).2.1⟩

/-- A thread begins a call on a connection that is `kConnected`. -/
theorem Closing.enters (h : Closing s) {t : Tid} {pc : CallPc}
    (hconn : s.conn.state = .kConnected) (hpc : pc ≠ .shutdownStored) :
    Closing (s.setPc t pc) := by
  refine h.of_quiet rfl rfl ⟨[], by simp [setPc], by simp⟩ (fun call hin => Or.inr hconn) ?_
  intro _
  exact ⟨shutting_update (h.shutting hconn).1 hpc, (h.shutting hconn).2.1⟩

/-- A thread ends its call, which is then no longer in flight. -/
theorem Closing.leaves (h : Closing s) {t : Tid} : Closing (s.setPc t .idle) := by
  refine h.of_quiet rfl rfl ⟨[], by simp [setPc], by simp⟩ ?_ ?_
  · rintro call (⟨u, hu⟩ | hq)
    · refine Or.inl (Or.inl ⟨u, ?_⟩)
      by_cases ht : u = t
      · subst ht
        simp [setPc, CallPc.callOf] at hu
      · simpa [setPc, Function.update_of_ne ht] using hu
    · exact Or.inl (Or.inr hq)
  · intro hconn
    exact ⟨shutting_update (h.shutting hconn).1 (by simp), (h.shutting hconn).2.1⟩

/-- A functor is queued for a call that is in flight, or for none. -/
theorem Closing.queued (h : Closing s) {f : Functor} (hcall : ∀ call ∈ f.callOf, s.InFlight call)
    (hshut : s.conn.state = .kConnected → f.isShutdown = false) :
    Closing { s with queue := s.queue ++ [f] } := by
  refine h.of_quiet rfl rfl ⟨[], by simp, by simp⟩ ?_ ?_
  · rintro call (hpc | hq)
    · exact Or.inl (Or.inl hpc)
    · simp only [todo, ← List.append_assoc, queuedCalls_append] at hq
      rcases List.mem_append.mp hq with hq | hq
      · exact Or.inl (Or.inr (by simpa [todo] using hq))
      · exact Or.inl (hcall call (by simpa [queuedCalls] using hq))
  · intro hconn
    refine ⟨(h.shutting hconn).1, ?_⟩
    intro g hg
    simp only [todo, ← List.append_assoc] at hg
    rcases List.mem_append.mp hg with hg | hg
    · exact (h.shutting hconn).2.1 g hg
    · rw [List.mem_singleton.mp hg]
      exact hshut hconn

theorem Closing.step (h : Closing s) (hstarted : Started s) (hno : NoOvertake s a)
    (hstep : Step s a s') : Closing s' := by
  cases hstep with
  | aside hs =>
      obtain ⟨q, hq, hall⟩ := hs.todo
      have hnil : queuedCalls q = [] :=
        queuedCalls_of_callOf fun f hf => Functor.callOf_of_isDestory (hall f hf)
      refine h.of_quiet hs.state (by rw [hs.channel]) ⟨[], by simp [hs.log], by simp⟩ ?_ ?_
      · intro call hin
        rw [InFlight, hs.pcs, hq, queuedCalls_append, hnil, List.append_nil] at hin
        exact Or.inl hin
      · intro hconn
        obtain ⟨hpcs, htodo, -⟩ := h.shutting hconn
        refine ⟨by rw [hs.pcs]; exact hpcs, ?_⟩
        intro f hf
        rw [hq] at hf
        rcases List.mem_append.mp hf with hf | hf
        · exact htodo f hf
        · exact Functor.isShutdown_of_isDestory (hall f hf)
  | poke hp => exact { h with }
  | reported idle hreg => exact { h with }
  | handleEvent idle phase hactive =>
      have hrecord := h.record (e := .handleEvent s.conn.channel.revents) rfl
      exact { hrecord with }
  | @send call pc state len read =>
      exact (h.record (e := .called call) rfl).enters state (by simp)
  | @sendInLoop call w x pc hx =>
      have hmem : call ∈ (s.pcs s.loopTid).callOf := by simp [pc, CallPc.callOf]
      have hput : Closing (s.put x) := h.sendInLoop (Or.inl ⟨_, hmem⟩) hx
      exact (hput.record (e := .returned call) rfl).leaves
  | @sendQueued t call w pc other =>
      have hin : s.InFlight call := Or.inl ⟨t, by simp [pc, CallPc.callOf]⟩
      exact ((h.record (e := .returned call) rfl).queued
        (f := .sendInLoop s.conn.channel.id call)
        (fun d hd => by rw [List.mem_singleton.mp hd]; exact hin) (fun _ => rfl)).leaves
  | @shutdownIgnored t pc state => exact h.record (e := .shutdownCalled t) rfl
  | @shutdown t pc state =>
      exact (h.record (e := .shutdownCalled t) rfl).enters state (by simp)
  | shutdownStore pc => exact h.shutdownStore hno pc
  | shutdownInLoop pc =>
      have hstate : s.conn.state ≠ .kConnected := fun hconn => (h.shutting hconn).1 _ pc
      exact (h.shutdownInLoop hstate fun hw hne => hno (Or.inl ⟨rfl, hw, hne⟩)).leaves
  | @shutdownQueued t pc other =>
      have hstate : s.conn.state ≠ .kConnected := fun hconn => (h.shutting hconn).1 _ pc
      exact (h.queued (f := .shutdownInLoop s.conn.channel.id) (by simp [Functor.callOf])
        (fun hconn => absurd hconn hstate)).leaves
  | @frame f rest io x fs pc frames hx =>
      have hne : f ≠ .connectEstablished := by
        rintro rfl
        exact hstarted.frames (by simp [frames])
      rcases Ctx.runFrame_kind hne hx with hstays | hcloses | ⟨rfl, -, hout, hwrite⟩
      · have hput := h.stays (Ctx.runFrame_local hx) hstays
        exact { hput with }
      · have hput := Closing.closes hcloses
        exact { hput with }
      · have hput := h.handleWrite hwrite fun hw hst hpos hempty =>
          hno (Or.inl ⟨by simp [frames], hout, hw, hst, hpos, hempty⟩)
        exact { hput with }
  | @functor f rest io x fs idle phase batch hx =>
      have hest : f.isEstablish = false := hstarted.todo f (by simp [todo, batch])
      rcases Ctx.runFunctor_kind hest hx with ⟨hstays, hcall, hnot⟩ |
        ⟨c, call, rfl, -, hsend⟩ | ⟨c, rfl, -, rfl⟩
      · exact (h.stays (Ctx.runFunctor_local hx) hstays).functor batch
      · have hmem : call ∈ queuedCalls s.todo := by simp [todo, batch, Functor.callOf]
        exact (h.sendInLoop (Or.inr hmem) hsend).functor batch
      · have hstate : s.conn.state ≠ .kConnected := by
          intro hconn
          have hf := (h.shutting hconn).2.1 (.shutdownInLoop c) (by simp [todo, batch])
          simp [Functor.isShutdown] at hf
        exact (h.shutdownInLoop hstate fun hw hopen => hno (Or.inl
          ⟨⟨.shutdownInLoop c, by simp [batch], rfl⟩, hw, hopen⟩)).functor batch

/-- A write comes from a call in flight or from the write interest, and a closed output has
neither. -/
theorem writesOpen_step (h : Justified WritesOpen s.log) (hclosing : Closing s)
    (hstep : Step s a s') : Justified WritesOpen s'.log := by
  have open_of_not {l : List Entry} (hnot : ¬ HalfClosed l) (e : Entry) : WritesOpen l e := by
    cases e with
    | write requested ret accepted => exact hnot
    | _ => trivial
  refine writes_step h (fun e he before => writesOpen_of_not he before) ?_ ?_ hstep
  · intro call hin hs pre e hpre
    refine open_of_not ?_ e
    rw [halfClosed_append_of_not fun d hd => Entry.isShutdownWrite_of_isWrite (hpre d hd)]
    exact fun hc => (hclosing.half hc).2 hs call hin
  · intro _ hw e
    refine open_of_not ?_ e
    intro hc
    rw [(hclosing.half hc).1] at hw
    simp at hw

theorem Established.writesOpen (h : Established s) : Justified WritesOpen s.log := by
  have hall := (justified_nil (Q := WritesOpen)).append
    fun e he before => writesOpen_of_not (Entry.isWrite_of_noOutput (h.noCall e he).1) before
  simpa using hall

/-! ### Everything is written before the half-close -/

theorem Established.drains (h : Established s) : s.ctx.Drains := by
  have hcall := fun e he => (h.noCall e he).2
  intro _
  refine ⟨Or.inl h.state, ?_, ?_⟩
  · have hnot : s.conn.channel.isWriting = false := by
      rw [Channel.isWriting, h.events]
      decide
    simp [Ctx.WritingIffUnsent, hnot, h.empty]
  · rw [ctx_log, settled_of_noCall hcall, ranCalls_of_noCall hcall]

theorem drains_step (h : s.ctx.Drains) (hstarted : Started s) (hc : Calls s)
    (hflow : s.ctx.Flow) (hsane : SaneWrites s'.log) (hstep : Step s a s') : s'.ctx.Drains := by
  have keep {x : Ctx} (hx : x.Drains) (hstate : s'.conn.state = x.conn.state)
      (hwriting : s'.conn.channel.isWriting = x.conn.channel.isWriting)
      (hout : s'.conn.outputBuffer = x.conn.outputBuffer) (hlog : s'.log = x.log) :
      s'.ctx.Drains := by
    simpa only [Ctx.Drains, Ctx.WritingIffUnsent, ctx_log, ctx_conn, hstate, hwriting, hout,
      hlog] using hx
  cases hstep with
  | aside hs => exact keep h hs.state (by rw [hs.channel]; rfl) hs.output hs.log
  | poke hp => exact keep h rfl rfl rfl rfl
  | reported idle hreg => exact keep h rfl rfl rfl rfl
  | handleEvent idle phase hactive => exact keep (h.record rfl rfl rfl) rfl rfl rfl rfl
  | send pc state len read => exact keep (h.record rfl rfl rfl) rfl rfl rfl rfl
  | @sendInLoop call w x pc hx =>
      have hlen := (hc.calling s.loopTid call (by simp [pc, CallPc.callOf])).2
      have hsane' : SaneWrites x.log := by
        simp only [setPc, put_log, Ctx.record_log, saneWrites_append] at hsane
        exact hsane.1
      have hsend := h.sendInLoop hflow hlen hx hsane'
      exact keep (hsend.record (e := .returned call) rfl rfl rfl) rfl rfl rfl rfl
  | sendQueued pc other => exact keep (h.record rfl rfl rfl) rfl rfl rfl rfl
  | shutdownIgnored pc state => exact keep (h.record rfl rfl rfl) rfl rfl rfl rfl
  | shutdown pc state => exact keep (h.record rfl rfl rfl) rfl rfl rfl rfl
  | shutdownStore pc => exact keep h.shutdownStore rfl rfl rfl rfl
  | shutdownInLoop pc => exact keep h.shutdownInLoop rfl rfl rfl rfl
  | shutdownQueued pc other => exact keep h rfl rfl rfl rfl
  | @frame f rest io x fs pc frames hx =>
      have hne : f ≠ .connectEstablished := by
        rintro rfl
        exact hstarted.frames (by simp [frames])
      rcases Ctx.runFrame_kind hne hx with hstays | hcloses | ⟨-, -, -, hwrite⟩
      · exact keep (h.stays hstays) rfl rfl rfl rfl
      · exact keep (Ctx.Drains.closes hcloses) rfl rfl rfl rfl
      · exact keep (h.handleWrite hflow hwrite hsane) rfl rfl rfl rfl
  | @functor f rest io x fs idle phase batch hx =>
      have hest : f.isEstablish = false := hstarted.todo f (by simp [todo, batch])
      rcases Ctx.runFunctor_kind hest hx with ⟨hstays, -, -⟩ | ⟨c, call, rfl, -, hsend⟩ |
        ⟨c, rfl, -, rfl⟩
      · exact keep (h.stays hstays) rfl rfl rfl rfl
      · have hlen := (hc.queued call (by simp [todo, batch, Functor.callOf])).2
        exact keep (h.sendInLoop hflow hlen hsend hsane) rfl rfl rfl rfl
      · exact keep h.shutdownInLoop rfl rfl rfl rfl

/-- With no call in flight, every call that saw `kConnected` has run. -/
theorem called_of_none (hc : Calls s) (hset : settled s.log = ranCalls s.log)
    (hnone : ∀ call, ¬ s.InFlight call) (t : Tid) :
    byThread t (called s.log) = byThread t (ranCalls s.log) := by
  have hqueue : queuedCalls s.todo = [] := by
    rw [List.eq_nil_iff_forall_not_mem]
    intro call hmem
    exact hnone call (Or.inr hmem)
  have hcall : (s.pcs t).callOf = [] := by
    rw [List.eq_nil_iff_forall_not_mem]
    intro call hmem
    exact hnone call (Or.inl ⟨t, hmem⟩)
  rw [hc.order t, hqueue, hcall, hset]
  simp

/-- Where the entry of a half-close comes from: from `shutdownInLoop` when there is no write
interest, or from `handleWrite` right after its write. -/
theorem shutdownWrites_step {Q : List Entry → Entry → Prop} (h : Justified Q s.log)
    (hQ : ∀ e, e.isShutdownWrite = false → ∀ before, Q before e)
    (hshutdown : s.conn.channel.isWriting = false →
      (s.conn.state ≠ .kDisconnected → s.HalfCloses a) →
      (s.pcs s.loopTid = .shutdownStored ∨ ∃ f ∈ s.todo, f.isShutdown = true) →
      Q s.log (.shutdownWrite s.conn.state s.conn.outputBuffer.content))
    (hwrite : ∀ w x, s.HalfCloses a → s.ctx.handleWrite w = .ok x →
      s.conn.channel.isWriting = true → Ctx.LastWrite s.ctx x w →
      Q (s.log ++ [s.ctx.writeEntry w])
        (.shutdownWrite .kDisconnecting x.conn.outputBuffer.content))
    (hstep : Step s a s') : Justified Q s'.log := by
  have quiet {x : Ctx} (hx : Ctx.Quiet s.ctx x) : Justified Q x.log := by
    obtain ⟨es, hes, hall⟩ := hx.log
    rw [hes]
    exact h.append fun e he before => hQ e (Entry.isShutdownWrite_of_noOutput (hall e he).1) before
  have sent {call : SendCall} {w : WriteResult} {x : Ctx}
      (hx : s.ctx.sendInLoop s.mem call w = .ok x) : Justified Q x.log := by
    rcases Ctx.sendInLoop_log hx with ⟨-, rfl⟩ | ⟨-, es, bytes, hes, hall⟩
    · exact h.append_singleton (hQ _ rfl _)
    · rw [hes, ← List.append_assoc]
      refine (h.append fun e he before => ?_).append_singleton (hQ _ rfl _)
      exact hQ e (Entry.isShutdownWrite_of_isWrite (hall e he)) before
  have shut (hcloses : s.conn.channel.isWriting = false → s.conn.state ≠ .kDisconnected →
        s.HalfCloses a)
      (hfrom : s.pcs s.loopTid = .shutdownStored ∨ ∃ f ∈ s.todo, f.isShutdown = true) :
      Justified Q s.ctx.shutdownInLoop.log := by
    cases hw : s.conn.channel.isWriting with
    | true =>
        have hsame : s.ctx.shutdownInLoop = s.ctx := Ctx.shutdownInLoop_of_writing hw
        rw [hsame]
        exact h
    | false =>
        have hx : s.ctx.shutdownInLoop = _ := Ctx.shutdownInLoop_of_not_writing hw
        rw [hx]
        exact h.append_singleton (hshutdown hw (hcloses hw) hfrom)
  cases hstep with
  | aside hs => rw [hs.log]; exact h
  | poke hp => exact h
  | reported idle hreg => exact h
  | handleEvent idle phase hactive => exact h.append_singleton (hQ _ rfl _)
  | send pc state len read => exact h.append_singleton (hQ _ rfl _)
  | sendInLoop pc hx => exact (sent hx).append_singleton (hQ _ rfl _)
  | sendQueued pc other => exact h.append_singleton (hQ _ rfl _)
  | shutdownIgnored pc state => exact h.append_singleton (hQ _ rfl _)
  | shutdown pc state => exact h.append_singleton (hQ _ rfl _)
  | shutdownStore pc => exact h.append_singleton (hQ _ rfl _)
  | shutdownInLoop pc => exact shut (fun hw hne => ⟨rfl, hw, hne⟩) (Or.inl pc)
  | shutdownQueued pc other => exact h
  | @frame f rest io x fs pc frames hx =>
      rcases Ctx.runFrame_quiet hx with hquiet | ⟨rfl, -, hout, hx⟩
      · exact quiet hquiet
      · cases hw : s.conn.channel.isWriting with
        | false =>
            rw [Ctx.handleWrite_not_writing hw, Except.ok.injEq] at hx
            subst hx
            exact h
        | true =>
            have hentry : Justified Q (s.log ++ [s.ctx.writeEntry io.write]) :=
              h.append_singleton (hQ _ rfl _)
            rcases Ctx.handleWrite_cases hw hx with hlog | hlast
            · rw [put_log, hlog]
              exact hentry
            · have hcloses : s.HalfCloses (.frame io) :=
                ⟨by simp [frames], hout, hw, hlast.state, hlast.sent, hlast.empty⟩
              rw [put_log, hlast.log]
              exact hentry.append_singleton (hwrite io.write x hcloses hx hw hlast)
  | @functor f rest io x fs idle phase batch hx =>
      rcases Ctx.runFunctor_quiet hx with ⟨hquiet, -⟩ | ⟨c, call, rfl, -, hsend⟩ |
        ⟨c, rfl, -, rfl⟩
      · exact quiet hquiet
      · exact sent hsend
      · have hmem : Functor.shutdownInLoop c ∈ s.todo := by simp [todo, batch]
        exact shut (fun hw hne => ⟨⟨.shutdownInLoop c, by simp [batch], rfl⟩, hw, hne⟩)
          (Or.inr ⟨_, hmem, rfl⟩)

/-- The output of an open connection is closed when there is nothing left to write. -/
theorem ended_step (h : Justified EndsOutput s.log) (hc : Calls s)
    (hsane : SaneWrites s.log → s.ctx.Flow ∧ s.ctx.Drains ∧ Kept s) (hno : NoOvertake s a)
    (hstep : Step s a s') : Justified EndsOutput s'.log := by
  refine shutdownWrites_step h (fun e he before => endsOutput_of_not he before) ?_ ?_ hstep
  · intro hw hcloses _ hnot hok
    obtain ⟨hflow, hdrains, hkept⟩ := hsane hok
    obtain ⟨hst, hiff, hset⟩ := hdrains hnot
    have hempty : s.conn.outputBuffer.content = [] := by
      by_contra hne
      have hwriting : s.conn.channel.isWriting = true := hiff.mpr hne
      rw [hw] at hwriting
      simp at hwriting
    have hopen : s.conn.state ≠ .kDisconnected := by
      intro hs
      rw [ctx_conn, hs] at hst
      simp at hst
    have hnone := hno (Or.inl (hcloses hopen))
    refine ⟨hempty, ?_, fun t => called_of_none hc hset hnone t, ?_⟩
    · have hconserved := hflow.conserved
      simpa [Pipe.total, Ctx.pipe, hempty] using hconserved
    · intro call bytes hmem
      exact ⟨hkept.ran call bytes hmem, hflow.sized call bytes hmem⟩
  · intro w x hcloses hx hw hlast hnot hok
    have hok' : SaneWrites x.log := by
      rw [hlast.log, saneWrites_append]
      exact ⟨hok, by simp [SaneWrites, Entry.Sane]⟩
    obtain ⟨hflow, hdrains, hkept⟩ := hsane (saneWrites_append.mp hok).1
    obtain ⟨-, -, hset⟩ := hdrains (by simpa [Ctx.writeEntry, Entry.storeOf] using hnot)
    have hnil : x.conn.outputBuffer.content = [] := by
      rw [hlast.output]
      exact (Buffer.content_eq_nil_iff (hflow.wf.retrieve _)).mpr hlast.empty
    refine ⟨hnil, ?_, ?_, ?_⟩
    · have hconserved := (hflow.handleWrite hx hok').conserved
      rw [Pipe.total, Ctx.pipe, hnil, List.append_nil, hlast.log] at hconserved
      simpa [Entry.accepted, Entry.takenOf] using hconserved
    · intro t
      have hcalls := called_of_none hc hset (hno (Or.inl hcloses)) t
      simpa [Ctx.writeEntry, Entry.callOf, Entry.ranOf] using hcalls
    · intro call bytes hmem
      have hmem : Entry.ran call bytes ∈ s.log := by simpa [Ctx.writeEntry] using hmem
      exact ⟨hkept.ran call bytes hmem, hflow.sized call bytes hmem⟩

theorem Established.ended (h : Established s) : Justified EndsOutput s.log := by
  have hall := (justified_nil (Q := EndsOutput)).append fun e he before =>
    endsOutput_of_not (Entry.isShutdownWrite_of_noOutput (h.noCall e he).1) before
  simpa using hall

/-- What holds along a run in which no half-close overtakes a call and the memory of what is
queued is left alone. -/
structure Graceful (s : ConnSystem) : Prop where
  calls : Calls s
  closing : Closing s
  writes : Justified WritesOpen s.log
  sane : SaneWrites s.log → s.ctx.Flow ∧ s.ctx.Drains ∧ Kept s
  ended : Justified EndsOutput s.log

theorem Established.graceful (h : Established s) : Graceful s :=
  ⟨h.calls, h.closing, h.writesOpen, fun _ => ⟨h.flow, h.drains, h.kept⟩, h.ended⟩

theorem Graceful.step (h : Graceful s) (hstarted : Started s) (hmem : MemoryKept s a)
    (hno : NoOvertake s a) (hstep : Step s a s') : Graceful s' := by
  refine ⟨h.calls.step hstep, h.closing.step hstarted hno hstep,
    writesOpen_step h.writes h.closing hstep, ?_,
    ended_step h.ended h.calls h.sane hno hstep⟩
  intro hsane
  obtain ⟨hflow, hdrains, hkept⟩ := h.sane (hstep.saneWrites hsane)
  exact ⟨flow_step hflow h.calls hstep hsane,
    drains_step hdrains hstarted h.calls hflow hsane hstep,
    hkept.step h.calls hmem (Or.inl hsane) hstep⟩

/-- After the half-close nothing is written.  Before it, unless the connection was closed
first, every call of `send` that had seen `kConnected` has run, those of a thread in the order
in which it made them, and what was written is their messages, whole and as the callers had
them. -/
theorem shutdownWrite_after_messages
    (h : (lts.restrict fun s a => MemoryKept s a ∧ NoOvertake s a).Reachable s)
    {before after : List Entry} {state : StateE} {unsent : List Byte}
    (hlog : s.log = before ++ .shutdownWrite state unsent :: after) :
    (∀ e ∈ after, e.isWrite = false) ∧
      (.kDisconnected ∉ stores before → SaneWrites before →
        unsent = [] ∧ written before = (ranCalls before).flatMap SendCall.bytes ∧
          (∀ t, byThread t (called before) = byThread t (ranCalls before)) ∧
          ∀ call, Entry.called call ∈ before →
            Entry.ran call call.bytes ∈ before ∧ call.bytes.length = call.len) := by
  have hinv := reachable_induct (P := Graceful) h (fun m hm => hm.graceful)
    fun m a m' _ hm hP hcond _ hstep => hP.step hm hcond.1 hcond.2 hstep
  rcases hinv with hfresh | ⟨-, hgraceful⟩
  · obtain ⟨t, ht⟩ := hfresh.log (.shutdownWrite state unsent) (by simp [hlog])
    simp at ht
  · refine ⟨?_, ?_⟩
    · intro e he
      obtain ⟨pre, post, rfl⟩ := List.append_of_mem he
      have hopen := hgraceful.writes (before ++ .shutdownWrite state unsent :: pre) e post
        (by rw [hlog]; simp)
      cases e with
      | write requested ret accepted =>
          exact absurd ⟨.shutdownWrite state unsent, by simp, rfl⟩ hopen
      | _ => rfl
    · intro hnot hsane
      obtain ⟨hempty, hwritten, hcalls, hran⟩ := hgraceful.ended before _ after hlog hnot hsane
      refine ⟨hempty, ?_, hcalls, ?_⟩
      · rw [hwritten]
        exact taken_eq_messages fun call bytes hmem => (hran call bytes hmem).1
      · intro call hcall
        have hmem : call ∈ byThread call.thread (called before) :=
          List.mem_filter.mpr ⟨List.mem_flatMap.mpr ⟨_, hcall, by simp [Entry.callOf]⟩, by simp⟩
        rw [hcalls call.thread] at hmem
        obtain ⟨bytes, hbytes⟩ := exists_ran (List.mem_filter.mp hmem).1
        obtain ⟨rfl, hlen⟩ := hran call bytes hbytes
        exact ⟨hbytes, hlen⟩

instance (s : ConnSystem) (a : Action) : Decidable (HalfCloses s a) :=
  match a with
  | .shutdownRun t => inferInstanceAs (Decidable (t = s.loopTid ∧ _ ∧ _))
  | .functor _ => inferInstanceAs (Decidable ((∃ f ∈ s.batch.head?, _) ∧ _ ∧ _))
  | .frame io => inferInstanceAs (Decidable (_ ∧ _ ∧ _ ∧ _ ∧ 0 < toSize io.write.ret ∧ _))
  | .send _ _ _ | .sendRun _ _ | .shutdown _ | .shutdownStore _ | .poke _ _
  | .setWriteCompleteCallback _ | .setHighWaterMarkCallback _ _ | .queueDestory | .others _
  | .poll _ | .handleEvent | .swap | .batchEnd => .isFalse id

instance (s : ConnSystem) (a : Action) : Decidable (Reopens s a) :=
  match a with
  | .shutdownStore _ => inferInstanceAs (Decidable (_ ∧ HalfClosed s.log))
  | .send _ _ _ | .sendRun _ _ | .shutdown _ | .shutdownRun _ | .poke _ _
  | .setWriteCompleteCallback _ | .setHighWaterMarkCallback _ _ | .queueDestory | .others _
  | .poll _ | .handleEvent | .frame _ | .swap | .functor _ | .batchEnd => .isFalse id

/-- `NoOvertake`, looking at the threads 1 and 2. -/
def noOvertake (s : ConnSystem) (a : Action) : Bool :=
  decide (s.HalfCloses a ∨ s.Reopens a → (s.pcs 1).callOf = [] ∧ (s.pcs 2).callOf = [] ∧
    queuedCalls s.todo = [])

theorem noOvertake_sound (honly : OnlyCallers [1, 2] s) (h : noOvertake s a = true) :
    NoOvertake s a := by
  intro hcloses call hin
  obtain ⟨h1, h2, hqueue⟩ := of_decide_eq_true h hcloses
  rcases hin with ⟨t, ht⟩ | hq
  · by_cases hmem : t ∈ [1, 2]
    · simp only [List.mem_cons, List.not_mem_nil, or_false] at hmem
      rcases hmem with rfl | rfl
      · simp [h1] at ht
      · simp [h2] at ht
    · rw [honly t hmem] at ht
      simp [CallPc.callOf] at ht
  · simp [hqueue] at hq

/-- Thread 2 sends behind a partly written message, shuts down, and reuses the memory of its
message once the functor has run; the half-close waits for `EPOLLOUT`. -/
theorem shutdownWrite_after_messages_queued : ∃ (s : ConnSystem) (before : List Entry)
    (call : SendCall), s.log = before ++ [.shutdownWrite .kDisconnecting []] ∧
      call.thread = 2 ∧ Entry.called call ∈ before ∧ s.mem call.message = some 99 ∧
      written before = [10, 11, 12, 13, 14] ∧
      written before = (ranCalls before).flatMap SendCall.bytes ∧
      Entry.ran call [13, 14] ∈ before := by
  obtain ⟨s, hr, hlog, hnot, hsane, hcall, hmem, hbytes⟩ := exists_of_run
    (fun s a => MemoryKept s a ∧ NoOvertake s a)
    (fun s a => decide (MemoryKept s a) && noOvertake s a)
    (fun _ _ honly hc => ⟨of_decide_eq_true (Bool.and_eq_true_iff.mp hc).1,
      noOvertake_sound honly (Bool.and_eq_true_iff.mp hc).2⟩) [10, 11, 12, 13, 14]
    (during [.send 1 100 3, .sendRun 1 (wrote 2).write, .send 2 103 2,
      .sendRun 2 (wrote 0).write] 0 ++ [Action.shutdown 2, .shutdownStore 2, .shutdownRun 2,
      .poke 103 (some 99)] ++ turn 0 ++ event EPOLLOUT 3)
    (fun s => s.log = s.log.dropLast ++ [Entry.shutdownWrite .kDisconnecting []] ∧
      .kDisconnected ∉ stores s.log.dropLast ∧ SaneWrites s.log.dropLast ∧
      Entry.called ⟨2, 103, 2, [13, 14]⟩ ∈ s.log.dropLast ∧ s.mem 103 = some 99 ∧
      written s.log.dropLast = [10, 11, 12, 13, 14]) (by decide +kernel)
  obtain ⟨-, hbefore⟩ := shutdownWrite_after_messages hr hlog
  obtain ⟨-, hwritten, -, hran⟩ := hbefore hnot hsane
  exact ⟨s, _, _, hlog, rfl, hcall, hmem, hbytes, hwritten, (hran _ hcall).1⟩

/-- The loop thread shuts down while the message of thread 2, whose `send` has returned, is
still queued: no byte of it is written, and after the half-close the kernel refuses it. -/
theorem shutdownWrite_overtook_message : ∃ s, lts.Reachable s ∧
    .kDisconnected ∉ stores s.log ∧ ∃ before mid after call state unsent,
      s.log = before ++ Entry.returned call :: mid ++ .shutdownWrite state unsent :: after ∧
        Entry.shutdownCalled 1 ∈ mid ∧ call.thread = 2 ∧ call.bytes = [10, 11, 12] ∧
        (∀ e ∈ before ++ mid, e.isWrite = false) ∧ Entry.write 3 (-1) [] ∈ after := by
  obtain ⟨s, hr, hlog⟩ := exists_of_endsWith (fun _ _ => True) [9, 10, 11, 12]
    [Action.send 2 101 3, .sendRun 2 (wrote 0).write, .poll none, .shutdown 1, .shutdownStore 1,
      .shutdownRun 1, .swap, .functor refused, .batchEnd]
    (fun s => s.log = [Entry.establish, .stored .kConnected, .connectionCallback true,
        .called ⟨2, 101, 3, [10, 11, 12]⟩] ++ Entry.returned ⟨2, 101, 3, [10, 11, 12]⟩ ::
        [.shutdownCalled 1, .stored .kDisconnecting] ++ Entry.shutdownWrite .kDisconnecting [] ::
        [.write 3 (-1) [], .ran ⟨2, 101, 3, [10, 11, 12]⟩ [9, 10, 11, 12]]) (by decide +kernel)
  refine ⟨s, hr.of_restrict, by rw [hlog]; decide, _, _, _, _, _, _, hlog, ?_⟩
  decide

end ConnSystem

end Muduo
