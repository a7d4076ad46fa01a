/-
A connection that only its own loop's thread uses.

Then `send` and `shutdown` run to their end before the loop does anything else, nothing is
queued, and no step of another thread comes between the load of `m_state` and the store.
So `m_state` never leaves `kDisconnected`, no half-close overtakes a message, and there is
one half-close at most.
-/
import Muduo.Proofs.Shutdown

namespace Muduo

open Transcript

namespace ConnSystem

variable {s s' : ConnSystem} {a : Action}

/-- `send` and `shutdown` are called on the loop's thread. -/
def LoopOnly (s : ConnSystem) : Action → Prop
  | .send t _ _ => t = s.loopTid
  | .shutdown t => t = s.loopTid
  | _ => True

instance (s : ConnSystem) (a : Action) : Decidable (LoopOnly s a) :=
  match a with
  | .send t _ _ | .shutdown t => inferInstanceAs (Decidable (t = s.loopTid))
  | .sendRun _ _ | .shutdownStore _ | .shutdownRun _ | .poke _ _
  | .setWriteCompleteCallback _ | .setHighWaterMarkCallback _ _ | .queueDestory | .others _
  | .poll _ | .handleEvent | .frame _ | .swap | .functor _ | .batchEnd => .isTrue trivial

/-- A half-close answers for being the first, and for the connection being open. -/
def ClosesOnce (before : List Entry) : Entry → Prop
  | .shutdownWrite state _ => state = .kDisconnecting ∧ .kDisconnected ∉ stores before ∧
      ¬ HalfClosed before
  | _ => True

theorem closesOnce_of_not {e : Entry} (h : e.isShutdownWrite = false) (before : List Entry) :
    ClosesOnce before e := by
  cases e <;> trivial

structure OnLoop (s : ConnSystem) : Prop where
  others : ∀ t, t ≠ s.loopTid → s.pcs t = .idle
  todo : ∀ f ∈ s.todo, f.callOf = [] ∧ f.isShutdown = false
  calling : ∀ call, s.pcs s.loopTid = .sending call → s.conn.state = .kConnected
  seen : s.pcs s.loopTid = .shutdownSeen → s.conn.state = .kConnected
  stored : s.pcs s.loopTid = .shutdownStored → s.conn.state = .kDisconnecting ∧
    ¬ HalfClosed s.log
  closed : .kDisconnected ∈ stores s.log → s.conn.state = .kDisconnected
  callers : ∀ call ∈ called s.log, call.thread = s.loopTid

theorem Established.onLoop (h : Established s) : OnLoop s := by
  obtain ⟨es, hes, hlog⟩ := h.log
  refine ⟨fun t _ => h.pcs t, ?_, ?_, ?_, ?_, ?_, ?_⟩
  · intro f hf
    have hdestory := h.todo f hf
    exact ⟨Functor.callOf_of_isDestory hdestory, Functor.isShutdown_of_isDestory hdestory⟩
  · intro call hpc
    rw [h.pcs] at hpc
    simp at hpc
  · intro hpc
    rw [h.pcs] at hpc
    simp at hpc
  · intro hpc
    rw [h.pcs] at hpc
    simp at hpc
  · intro hmem
    obtain ⟨e, he, hstore⟩ := List.mem_flatMap.mp hmem
    rw [hlog] at he
    rcases List.mem_append.mp he with he | he
    · obtain ⟨t, rfl⟩ := hes e he
      simp [Entry.storeOf] at hstore
    · simp only [List.mem_cons, List.not_mem_nil, or_false] at he
      rcases he with rfl | rfl | rfl <;> simp [Entry.storeOf] at hstore
  · rw [called_of_noCall fun e he => (h.noCall e he).2]
    simp

theorem OnLoop.eq_loopTid (h : OnLoop s) {t : Tid} (hpc : s.pcs t ≠ .idle) : t = s.loopTid := by
  by_contra hne
  exact hpc (h.others t hne)

theorem OnLoop.others_update (h : OnLoop s) {t u : Tid} {pc : CallPc} (ht : t = s.loopTid)
    (hu : u ≠ s.loopTid) : Function.update s.pcs t pc u = .idle := by
  have hne : u ≠ t := by
    rw [ht]
    exact hu
  rw [Function.update_of_ne hne]
  exact h.others u hu

theorem OnLoop.queuedCalls_eq_nil (h : OnLoop s) : queuedCalls s.todo = [] :=
  queuedCalls_of_callOf fun f hf => (h.todo f hf).1

/-- While the loop thread is not inside `send`, no call is in flight. -/
theorem OnLoop.not_inFlight (h : OnLoop s) (hpc : (s.pcs s.loopTid).callOf = [])
    (call : SendCall) : ¬ s.InFlight call := by
  rintro (⟨t, ht⟩ | hq)
  · by_cases hloop : t = s.loopTid
    · rw [hloop, hpc] at ht
      simp at ht
    · rw [h.others t hloop] at ht
      simp [CallPc.callOf] at ht
  · rw [h.queuedCalls_eq_nil] at hq
    simp at hq

/-- On the loop's own thread nothing overtakes. -/
theorem OnLoop.noOvertake (h : OnLoop s) (hen : s.Enabled a) : NoOvertake s a := by
  rintro (hcloses | hreopens) call
  · cases a with
    | shutdownRun t =>
        have hpc : s.pcs t = .shutdownStored := hen
        refine h.not_inFlight ?_ call
        rw [← hcloses.1, hpc]
        rfl
    | frame io =>
        refine h.not_inFlight ?_ call
        rw [hen.1]
        rfl
    | functor io =>
        obtain ⟨⟨f, hf, hshut⟩, -⟩ := hcloses
        have hmem : f ∈ s.todo := List.mem_append_left _ (List.mem_of_mem_head? hf)
        rw [(h.todo f hmem).2] at hshut
        simp at hshut
    | _ => exact hcloses.elim
  · cases a with
    | shutdownStore t =>
        have hpc : s.pcs t = .shutdownSeen := hen
        have ht : t = s.loopTid := h.eq_loopTid (by simp [hpc])
        refine h.not_inFlight ?_ call
        rw [← ht, hpc]
        rfl
    | _ => exact hreopens.elim

theorem OnLoop.memoryKept (h : OnLoop s) : MemoryKept s a := by
  cases a with
  | poke p b =>
      intro call hcall
      rw [h.queuedCalls_eq_nil] at hcall
      simp at hcall
  | _ => trivial

/-- A step that leaves the loop thread inside no call. -/
theorem OnLoop.idle (h : OnLoop s) (hloop : s'.loopTid = s.loopTid)
    (hothers : ∀ t, t ≠ s.loopTid → s'.pcs t = s.pcs t) (hpc : s'.pcs s.loopTid = .idle)
    (htodo : ∀ f ∈ s'.todo, f ∈ s.todo ∨ f.isUserCallback = true)
    (hclosed : .kDisconnected ∈ stores s'.log → s'.conn.state = .kDisconnected)
    (hcalled : called s'.log = called s.log) : OnLoop s' := by
  refine ⟨?_, ?_, ?_, ?_, ?_, hclosed, by rw [hcalled, hloop]; exact h.callers⟩
  · intro t ht
    rw [hloop] at ht
    rw [hothers t ht]
    exact h.others t ht
  · intro f hf
    rcases htodo f hf with hf | hf
    · exact h.todo f hf
    · exact ⟨Functor.callOf_of_isUserCallback hf, Functor.isShutdown_of_isUserCallback hf⟩
  · intro call hcalling
    rw [hloop, hpc] at hcalling
    simp at hcalling
  · intro hseen
    rw [hloop, hpc] at hseen
    simp at hseen
  · intro hstored
    rw [hloop, hpc] at hstored
    simp at hstored

/-- What moves bytes out does not change `m_state`. -/
theorem OnLoop.closed_output (h : OnLoop s) {x : Ctx} (hx : Ctx.OutputStep s.ctx x)
    (hmem : .kDisconnected ∈ stores x.log) : x.conn.state = .kDisconnected := by
  rw [hx.stores] at hmem
  rw [hx.state]
  exact h.closed hmem

theorem OnLoop.closed_stays (h : OnLoop s) {x : Ctx} (hx : Ctx.Stays s.ctx x)
    (hmem : .kDisconnected ∈ stores x.log) : x.conn.state = .kDisconnected := by
  rw [hx.stores] at hmem
  rw [hx.state]
  exact h.closed hmem

theorem called_quiet {x : Ctx} (hx : Ctx.Quiet s.ctx x) : called x.log = called s.log := by
  obtain ⟨es, hes, hall⟩ := hx.log
  rw [hes, called_append, called_of_noCall fun e he => (hall e he).2, List.append_nil]
  rfl

theorem OnLoop.frame (h : OnLoop s) (hstarted : Started s) {f : Frame} {rest : List Frame}
    {io : Io} {x : Ctx} {fs : List Frame} (pc : s.pcs s.loopTid = .idle)
    (frames : s.frames = f :: rest) (hx : s.ctx.runFrame io f = .ok (x, fs)) :
    OnLoop { s.put x with frames := fs ++ rest } := by
  have hne : f ≠ .connectEstablished := by
    rintro rfl
    exact hstarted.frames (by simp [frames])
  have htodo : ∀ g ∈ ConnSystem.todo (s.put x), g ∈ s.todo ∨ g.isUserCallback = true :=
    fun g hg => mem_todo_put (Ctx.runFrame_local hx) hg
  rcases Ctx.runFrame_kind hne hx with hstays | hcloses | ⟨-, -, -, hwrite⟩
  · exact h.idle rfl (fun _ _ => rfl) pc htodo (h.closed_stays hstays) (called_quiet hstays.quiet)
  · exact h.idle rfl (fun _ _ => rfl) pc htodo (fun _ => hcloses.state)
      (called_quiet hcloses.quiet)
  · obtain ⟨es, hes, hall⟩ := Ctx.handleWrite_noCall hwrite
    refine h.idle rfl (fun _ _ => rfl) pc htodo
      (h.closed_output (Ctx.handleWrite_outputStep hwrite)) ?_
    show called x.log = called s.log
    rw [hes, called_append, called_of_noCall hall, List.append_nil]
    rfl

theorem OnLoop.functor (h : OnLoop s) (hstarted : Started s) {f : Functor}
    {rest : List Functor} {io : Io} {x : Ctx} {fs : List Frame} (idle : s.LoopIdle)
    (batch : s.batch = f :: rest) (hx : s.ctx.runFunctor s.mem io f = .ok (x, fs)) :
    OnLoop { s.put x with batch := rest, frames := fs } := by
  have hmem : f ∈ s.todo := by simp [ConnSystem.todo, batch]
  rcases Ctx.runFunctor_kind (hstarted.todo f hmem) hx with ⟨hstays, -, -⟩ |
    ⟨c, call, rfl, -, -⟩ | ⟨c, rfl, -, -⟩
  · refine h.idle rfl (fun _ _ => rfl) idle.pc ?_ (h.closed_stays hstays)
      (called_quiet hstays.quiet)
    intro g hg
    rcases mem_todo_put (Ctx.runFunctor_local hx) hg with hg | hg
    · refine Or.inl ?_
      rw [ConnSystem.todo, batch]
      exact List.mem_cons_of_mem f hg
    · exact Or.inr hg
  · have hcall := (h.todo _ hmem).1
    simp [Functor.callOf] at hcall
  · have hshut := (h.todo _ hmem).2
    simp [Functor.isShutdown] at hshut

/-- What happens to a connection from outside is no call on another thread. -/
theorem OnLoop.aside (h : OnLoop s) (hs : Aside s s') : OnLoop s' := by
  obtain ⟨q, hq, hall⟩ := hs.todo
  refine ⟨by rw [hs.pcs, hs.loopTid]; exact h.others, ?_, ?_, ?_, ?_, ?_, ?_⟩
  · intro f hf
    rw [hq] at hf
    rcases List.mem_append.mp hf with hf | hf
    · exact h.todo f hf
    · exact ⟨Functor.callOf_of_isDestory (hall f hf),
        Functor.isShutdown_of_isDestory (hall f hf)⟩
  · rw [hs.pcs, hs.loopTid, hs.state]
    exact h.calling
  · rw [hs.pcs, hs.loopTid, hs.state]
    exact h.seen
  · rw [hs.pcs, hs.loopTid, hs.state, hs.log]
    exact h.stored
  · rw [hs.log, hs.state]
    exact h.closed
  · rw [hs.log, hs.loopTid]
    exact h.callers

/-- The loop's own thread calls `send`. -/
theorem OnLoop.send (h : OnLoop s) {call : SendCall} (hthread : call.thread = s.loopTid)
    (state : s.conn.state = .kConnected) :
    OnLoop { s with
      log := s.log ++ [.called call]
      pcs := Function.update s.pcs call.thread (.sending call) } := by
  refine ⟨?_, h.todo, fun _ _ => state, ?_, ?_, ?_, ?_⟩
  · intro t ht
    exact h.others_update hthread ht
  · intro hseen
    simp [hthread] at hseen
  · intro hstored
    simp [hthread] at hstored
  · intro hmem
    exact h.closed (by simpa [Entry.storeOf] using hmem)
  · intro c hc
    rw [called_append] at hc
    rcases List.mem_append.mp hc with hc | hc
    · exact h.callers c hc
    · have heq : c = call := List.mem_singleton.mp hc
      rw [heq]
      exact hthread

theorem OnLoop.shutdownStore (h : OnLoop s) (hclosing : Closing s) {t : Tid}
    (pc : s.pcs t = .shutdownSeen) :
    OnLoop ((s.put s.ctx.shutdownStore).setPc t .shutdownStored) := by
  have ht : t = s.loopTid := h.eq_loopTid (by simp [pc])
  have hconn : s.conn.state = .kConnected := h.seen (by rw [← ht]; exact pc)
  have hopen : ¬ HalfClosed s.log := (hclosing.shutting hconn).2.2
  refine ⟨?_, ?_, ?_, ?_, ?_, ?_, ?_⟩
  · intro u hu
    exact h.others_update ht hu
  · intro f hf
    rcases mem_todo_put Ctx.shutdownStore_local hf with hf | hf
    · exact h.todo f hf
    · exact ⟨Functor.callOf_of_isUserCallback hf, Functor.isShutdown_of_isUserCallback hf⟩
  · intro call hcalling
    simp [setPc, ht] at hcalling
  · intro hseen
    simp [setPc, ht] at hseen
  · intro _
    refine ⟨rfl, ?_⟩
    show ¬ HalfClosed (s.log ++ [.stored .kDisconnecting])
    rw [halfClosed_append_of_not (by simp [Entry.isShutdownWrite])]
    exact hopen
  · intro hmem
    have hmem : .kDisconnected ∈ stores s.log := by
      simpa [setPc, Ctx.shutdownStore, Entry.storeOf] using hmem
    rw [h.closed hmem] at hconn
    simp at hconn
  · simpa [setPc, Ctx.shutdownStore, Entry.callOf] using h.callers

theorem OnLoop.step (h : OnLoop s) (hstarted : Started s) (hclosing : Closing s)
    (hloop : LoopOnly s a) (hstep : Step s a s') : OnLoop s' := by
  cases hstep with
  | aside hs => exact h.aside hs
  | poke hp => exact { h with }
  | reported idle hreg => exact { h with }
  | handleEvent idle phase hactive =>
      refine h.idle rfl (fun _ _ => rfl) idle.pc (fun f hf => Or.inl hf) ?_ ?_
      · intro hmem
        exact h.closed (by simpa [ConnSystem.handleEvent, Entry.storeOf] using hmem)
      · simp [ConnSystem.handleEvent, Entry.callOf]
  | send pc state len read => exact h.send hloop state
  | @sendInLoop call w x pc hx =>
      have hout := Ctx.sendInLoop_outputStep hx
      refine h.idle rfl (fun t ht => Function.update_of_ne ht _ _)
        (Function.update_self ..) ?_ ?_ ?_
      · intro f hf
        exact mem_todo_put (hout.local.trans (.record (.returned call))) hf
      · intro hmem
        show x.conn.state = .kDisconnected
        refine h.closed_output hout ?_
        simpa [setPc, Entry.storeOf] using hmem
      · simp [setPc, Entry.callOf, (sendInLoop_settled hx).1]
  | sendQueued pc other => exact absurd (h.eq_loopTid (by simp [pc])) other
  | shutdownIgnored pc state =>
      have ht := hloop
      refine h.idle rfl (fun _ _ => rfl) (by rw [← ht]; exact pc) (fun f hf => Or.inl hf) ?_ ?_
      · intro hmem
        exact h.closed (by simpa [Entry.storeOf] using hmem)
      · simp [Entry.callOf]
  | @shutdown t pc state =>
      have ht : t = s.loopTid := hloop
      refine ⟨?_, h.todo, fun _ _ => state, fun _ => state, ?_, ?_, ?_⟩
      · intro u hu
        exact h.others_update ht hu
      · intro hstored
        simp [ht] at hstored
      · intro hmem
        exact h.closed (by simpa [Entry.storeOf] using hmem)
      · simpa [Entry.callOf] using h.callers
  | shutdownStore pc => exact h.shutdownStore hclosing pc
  | shutdownInLoop pc =>
      have hout := Ctx.shutdownInLoop_outputStep (x := s.ctx)
      obtain ⟨es, hes, hall⟩ := Ctx.shutdownInLoop_log (x := s.ctx)
      refine h.idle rfl (fun t ht => Function.update_of_ne ht _ _)
        (Function.update_self ..) (fun f hf => mem_todo_put hout.local hf)
        (h.closed_output hout) ?_
      show called s.ctx.shutdownInLoop.log = called s.log
      rw [hes, called_append, called_of_noCall hall, List.append_nil]
      rfl
  | shutdownQueued pc other => exact absurd (h.eq_loopTid (by simp [pc])) other
  | frame pc frames hx => exact h.frame hstarted pc frames hx
  | functor idle phase batch hx => exact h.functor hstarted idle batch hx

/-- There is one half-close at most, of an open connection. -/
theorem once_step (h : Justified ClosesOnce s.log) (hloop : OnLoop s) (hclosing : Closing s)
    (hstep : Step s a s') : Justified ClosesOnce s'.log := by
  refine shutdownWrites_step h (fun e he before => closesOnce_of_not he before) ?_ ?_ hstep
  · intro _ _ hfrom
    rcases hfrom with hpc | ⟨f, hf, hshut⟩
    · obtain ⟨hst, hopen⟩ := hloop.stored hpc
      refine ⟨hst, ?_, hopen⟩
      intro hmem
      rw [hloop.closed hmem] at hst
      simp at hst
    · rw [(hloop.todo f hf).2] at hshut
      simp at hshut
  · intro w x _ _ hw hlast
    have hst : s.conn.state = .kDisconnecting := hlast.state
    refine ⟨rfl, ?_, ?_⟩
    · intro hmem
      have hmem : .kDisconnected ∈ stores s.log := by
        simpa [Ctx.writeEntry, Entry.storeOf] using hmem
      rw [hloop.closed hmem] at hst
      simp at hst
    · rw [halfClosed_append_of_not (by simp [Ctx.writeEntry, Entry.isShutdownWrite])]
      intro hc
      rw [(hclosing.half hc).1] at hw
      simp at hw

theorem Established.once (h : Established s) : Justified ClosesOnce s.log := by
  have hall := (justified_nil (Q := ClosesOnce)).append fun e he before =>
    closesOnce_of_not (Entry.isShutdownWrite_of_noOutput (h.noCall e he).1) before
  simpa using hall

/-- What holds along a run on the loop's thread. -/
structure LoopRun (s : ConnSystem) : Prop where
  onLoop : OnLoop s
  graceful : Graceful s
  once : Justified ClosesOnce s.log

theorem Established.loopRun (h : Established s) : LoopRun s :=
  ⟨h.onLoop, h.graceful, h.once⟩

theorem LoopRun.step (h : LoopRun s) (hstarted : Started s) (hloop : LoopOnly s a)
    (hen : s.Enabled a) (hstep : Step s a s') : LoopRun s' :=
  ⟨h.onLoop.step hstarted h.graceful.closing hloop hstep,
    h.graceful.step hstarted h.onLoop.memoryKept (h.onLoop.noOvertake hen) hstep,
    once_step h.once h.onLoop h.graceful.closing hstep⟩

theorem byThread_eq_self {t : Tid} {calls : List SendCall} (h : ∀ call ∈ calls, call.thread = t) :
    byThread t calls = calls := by
  refine List.filter_eq_self.mpr ?_
  intro call hcall
  simpa using h call hcall

/-- Calls of one thread that agree thread by thread are the same calls. -/
theorem eq_of_byThread {t : Tid} {cs ds : List SendCall}
    (h : ∀ u, byThread u cs = byThread u ds) (hcs : ∀ call ∈ cs, call.thread = t) : cs = ds := by
  have hds : ∀ call ∈ ds, call.thread = t := by
    intro call hcall
    have hmem : call ∈ byThread call.thread ds := List.mem_filter.mpr ⟨hcall, by simp⟩
    rw [← h] at hmem
    exact hcs call (List.mem_filter.mp hmem).1
  rw [← byThread_eq_self hcs, h t, byThread_eq_self hds]

/-- On the loop's thread the output is closed once at most, in `kDisconnecting`, when
everything `send` accepted has been written, and nothing is written afterwards. -/
theorem shutdownWrite_once (h : (lts.restrict LoopOnly).Reachable s) (hsane : SaneWrites s.log)
    {before after : List Entry} {state : StateE} {unsent : List Byte}
    (hlog : s.log = before ++ .shutdownWrite state unsent :: after) :
    state = .kDisconnecting ∧ unsent = [] ∧
      written before = (called before).flatMap SendCall.bytes ∧
      ∀ e ∈ after, e.isShutdownWrite = false ∧ e.isWrite = false := by
  have hinv := reachable_induct (P := LoopRun) h (fun m hm => hm.loopRun)
    fun m a m' _ hstarted hP hloop hen hstep => hP.step hstarted hloop hen hstep
  rcases hinv with hfresh | ⟨-, hrun⟩
  · obtain ⟨t, ht⟩ := hfresh.log (.shutdownWrite state unsent) (by simp [hlog])
    simp at ht
  · obtain ⟨hstate, hnot, -⟩ := hrun.once before _ after hlog
    have hbefore : SaneWrites before := by
      rw [hlog, saneWrites_append] at hsane
      exact hsane.1
    obtain ⟨hempty, hwritten, hcalls, hran⟩ :=
      hrun.graceful.ended before _ after hlog hnot hbefore
    refine ⟨hstate, hempty, ?_, ?_⟩
    · have hthread : ∀ call ∈ called before, call.thread = s.loopTid := by
        intro call hcall
        refine hrun.onLoop.callers call ?_
        rw [hlog, called_append]
        exact List.mem_append_left _ hcall
      rw [hwritten, taken_eq_messages fun call bytes hmem => (hran call bytes hmem).1,
        eq_of_byThread hcalls hthread]
    · intro e he
      obtain ⟨pre, post, rfl⟩ := List.append_of_mem he
      have heq : s.log = (before ++ .shutdownWrite state unsent :: pre) ++ e :: post := by
        rw [hlog]
        simp
      have hclosed : HalfClosed (before ++ .shutdownWrite state unsent :: pre) :=
        ⟨.shutdownWrite state unsent, by simp, rfl⟩
      have hopen := hrun.graceful.writes _ e post heq
      have honce := hrun.once _ e post heq
      cases e with
      | write requested ret accepted => exact absurd hclosed hopen
      | shutdownWrite st bytes => exact absurd hclosed honce.2.2
      | _ => exact ⟨rfl, rfl⟩

/-- A callback sends twice and shuts down; the half-close waits for the second event. -/
theorem shutdownWrite_once_waiting : ∃ (s : ConnSystem) (before : List Entry),
    s.log = before ++ [.shutdownWrite .kDisconnecting []] ∧
      written before = [10, 11, 12, 13, 14] ∧
      written before = (called before).flatMap SendCall.bytes := by
  obtain ⟨s, hr, hlog, hsane, hwritten⟩ := exists_of_endsWith LoopOnly [10, 11, 12, 13, 14]
    ([Action.poll none, .send 1 100 3, .sendRun 1 (wrote 1).write, .send 1 103 2,
      .sendRun 1 (wrote 0).write, .shutdown 1, .shutdownStore 1, .shutdownRun 1, .swap,
      .batchEnd] ++ event EPOLLOUT 3 ++ [Action.swap, .batchEnd] ++ event EPOLLOUT 1)
    (fun s => s.log = s.log.dropLast ++ [Entry.shutdownWrite .kDisconnecting []] ∧
      SaneWrites s.log ∧ written s.log.dropLast = [10, 11, 12, 13, 14]) (by decide +kernel)
  exact ⟨s, _, hlog, hwritten, (shutdownWrite_once hr hsane hlog).2.2.1⟩

end ConnSystem

end Muduo
