/-
The output stream of a connection.

`Calls` follows the calls of `send` from the check of `kConnected` to the end of their
`sendInLoop`: a call is in its caller's hands, then perhaps in the queue, then settled,
and the calls of one thread never change order.  `Ctx.Flow` is the conservation of bytes:
what `::write` accepted and what the output buffer holds is what the calls of
`sendInLoop` took from memory.  `Kept` says that what they took is what the callers
passed, which holds only as long as nobody touches the memory of a queued message.
-/
import Muduo.Lib.Transcript
import Muduo.Proofs.ConnSystem
import Muduo.Trace

namespace Muduo

open Transcript

/-- The call of `send` a thread is in. -/
def CallPc.callOf : CallPc → List SendCall
  | .sending call => [call]
  | _ => []

/-- The calls of `send` behind a list of functors. -/
def queuedCalls (fs : List Functor) : List SendCall := fs.flatMap Functor.callOf

@[simp] theorem queuedCalls_append (fs gs : List Functor) :
    queuedCalls (fs ++ gs) = queuedCalls fs ++ queuedCalls gs :=
  List.flatMap_append

@[simp] theorem queuedCalls_nil : queuedCalls [] = [] := rfl

@[simp] theorem queuedCalls_cons (f : Functor) (fs : List Functor) :
    queuedCalls (f :: fs) = f.callOf ++ queuedCalls fs := rfl

theorem queuedCalls_of_callOf {fs : List Functor} (h : ∀ f ∈ fs, f.callOf = []) :
    queuedCalls fs = [] :=
  List.flatMap_eq_nil_iff.mpr h

/-- The calls a thread made. -/
def byThread (t : Tid) (calls : List SendCall) : List SendCall :=
  calls.filter fun call => call.thread = t

@[simp] theorem byThread_append (t : Tid) (cs ds : List SendCall) :
    byThread t (cs ++ ds) = byThread t cs ++ byThread t ds :=
  List.filter_append ..

@[simp] theorem byThread_nil (t : Tid) : byThread t [] = [] := rfl

theorem byThread_self (call : SendCall) : byThread call.thread [call] = [call] := by
  simp [byThread]

theorem byThread_other {t : Tid} {call : SendCall} (h : call.thread ≠ t) :
    byThread t [call] = [] := by
  simp [byThread, h]

theorem byThread_eq_nil {t : Tid} {cs : List SendCall} (h : ∀ call ∈ cs, call.thread ≠ t) :
    byThread t cs = [] := by
  refine List.filter_eq_nil_iff.mpr ?_
  intro call hc
  simpa using h call hc

namespace ConnSystem

variable {s s' : ConnSystem} {a : Action}

/-! ### Calls keep their order -/

/-- Where the calls of `send` are that saw `kConnected`. -/
structure Calls (s : ConnSystem) : Prop where
  calling : ∀ t, ∀ call ∈ (s.pcs t).callOf, call.thread = t ∧ call.len < 2 ^ 64
  /-- The loop's own thread never queues. -/
  queued : ∀ call ∈ queuedCalls s.todo, call.thread ≠ s.loopTid ∧ call.len < 2 ^ 64
  order : ∀ t, byThread t (called s.log) = byThread t (settled s.log) ++
    byThread t (queuedCalls s.todo) ++ (s.pcs t).callOf

/-- A piece of code queues no call. -/
theorem queuedCalls_put {x : Ctx} {batch : List Functor} (hx : Ctx.Local s.ctx x) :
    queuedCalls (batch ++ (s.queue ++ x.pending)) = queuedCalls (batch ++ s.queue) := by
  obtain ⟨q, hq, hall⟩ := hx.pending
  have hnil : queuedCalls q = [] :=
    queuedCalls_of_callOf fun f hf => Functor.callOf_of_isUserCallback (hall f hf)
  simp [hq, hnil]

/-- `sendInLoop` settles its call and no other. -/
theorem sendInLoop_settled {x x' : Ctx} {mem : Mem} {call : SendCall} {w : WriteResult}
    (h : x.sendInLoop mem call w = .ok x') :
    called x'.log = called x.log ∧ settled x'.log = settled x.log ++ [call] := by
  rcases Ctx.sendInLoop_log h with ⟨-, rfl⟩ | ⟨-, es, bytes, hes, hall⟩
  · simp [Entry.callOf, Entry.settledOf]
  · have hcall := fun e he => Entry.isCall_of_isWrite (hall e he)
    simp [hes, called_of_noCall hcall, settled_of_noCall hcall, Entry.callOf, Entry.settledOf]

/-- A thread's step that neither enters nor leaves a `send`. -/
theorem callOf_update {pcs : Tid → CallPc} {t : Tid} {pc : CallPc} (h : (pcs t).callOf = [])
    (h' : pc.callOf = []) (u : Tid) : (Function.update pcs t pc u).callOf = (pcs u).callOf := by
  by_cases hu : u = t
  · subst hu
    rw [Function.update_self, h, h']
  · rw [Function.update_of_ne hu]

/-- What is about no call keeps the calls where they are. -/
theorem Calls.of_noCall (h : Calls s) (hloop : s'.loopTid = s.loopTid)
    (hlog : ∃ es, s'.log = s.log ++ es ∧ ∀ e ∈ es, e.isCall = false)
    (htodo : queuedCalls s'.todo = queuedCalls s.todo)
    (hpcs : ∀ t, (s'.pcs t).callOf = (s.pcs t).callOf) : Calls s' := by
  obtain ⟨es, hes, hall⟩ := hlog
  refine ⟨?_, ?_, ?_⟩
  · intro t
    rw [hpcs]
    exact h.calling t
  · rw [htodo, hloop]
    exact h.queued
  · intro t
    rw [hes, called_append, settled_append, called_of_noCall hall, settled_of_noCall hall,
      List.append_nil, List.append_nil, htodo, hpcs]
    exact h.order t

/-- `send` saw `kConnected`. -/
theorem Calls.send (h : Calls s) {call : SendCall} (pc : s.pcs call.thread = .idle)
    (len : call.len < 2 ^ 64) :
    Calls { s with
      log := s.log ++ [.called call]
      pcs := Function.update s.pcs call.thread (.sending call) } := by
  refine ⟨?_, h.queued, ?_⟩
  · intro t c hc
    by_cases ht : t = call.thread
    · subst ht
      simp only [Function.update_self] at hc
      rw [List.mem_singleton.mp hc]
      exact ⟨rfl, len⟩
    · simp only [Function.update_of_ne ht] at hc
      exact h.calling t c hc
  · intro t
    have hold := h.order t
    simp only [called_append, called_cons, called_nil, settled_append, settled_cons,
      settled_nil, Entry.callOf, Entry.settledOf, byThread_append, List.append_nil]
    by_cases ht : t = call.thread
    · subst ht
      rw [hold, pc, byThread_self, Function.update_self]
      simp [CallPc.callOf, todo]
    · rw [hold, byThread_other (Ne.symm ht), Function.update_of_ne ht]
      simp [todo]

/-- The call goes straight from its caller's hands to being settled. -/
theorem Calls.sendInLoop (h : Calls s) {call : SendCall} {w : WriteResult} {x : Ctx}
    (pc : s.pcs s.loopTid = .sending call) (hx : s.ctx.sendInLoop s.mem call w = .ok x) :
    Calls ((s.put (x.record (.returned call))).setPc s.loopTid .idle) := by
  obtain ⟨hthread, -⟩ := h.calling s.loopTid call (by simp [pc, CallPc.callOf])
  obtain ⟨hcalled, hsettled⟩ := sendInLoop_settled hx
  have htodo : queuedCalls (ConnSystem.todo
      ((s.put (x.record (.returned call))).setPc s.loopTid .idle)) = queuedCalls s.todo :=
    queuedCalls_put ((Ctx.sendInLoop_outputStep hx).local.trans (.record (.returned call)))
  refine ⟨?_, ?_, ?_⟩
  · intro t c hc
    by_cases ht : t = s.loopTid
    · subst ht
      simp [setPc, CallPc.callOf] at hc
    · exact h.calling t c (by simpa [setPc, Function.update_of_ne ht] using hc)
  · rw [htodo]
    exact h.queued
  · intro t
    have hold := h.order t
    rw [htodo]
    simp only [setPc, put_log, put_pcs, Ctx.record_log, called_append, called_cons,
      called_nil, settled_append, settled_cons, settled_nil, Entry.callOf, Entry.settledOf,
      hcalled, hsettled, byThread_append, List.append_nil, ctx_log]
    by_cases ht : t = s.loopTid
    · have hnone : byThread s.loopTid (queuedCalls s.todo) = [] :=
        byThread_eq_nil fun c hc => (h.queued c hc).1
      subst ht
      rw [hold, hnone, pc, ← hthread, byThread_self, Function.update_self]
      simp [CallPc.callOf]
    · rw [hold, byThread_other (by rw [hthread]; exact Ne.symm ht), Function.update_of_ne ht]
      simp

/-- The call goes to the end of the queue. -/
theorem Calls.sendQueued (h : Calls s) {t : Tid} {call : SendCall}
    (pc : s.pcs t = .sending call) (other : t ≠ s.loopTid) :
    Calls { s with
      log := s.log ++ [.returned call]
      queue := s.queue ++ [.sendInLoop s.conn.channel.id call]
      pcs := Function.update s.pcs t .idle } := by
  obtain ⟨hthread, hlen⟩ := h.calling t call (by simp [pc, CallPc.callOf])
  refine ⟨?_, ?_, ?_⟩
  · intro u c hc
    by_cases hu : u = t
    · subst hu
      simp [CallPc.callOf] at hc
    · exact h.calling u c (by simpa [Function.update_of_ne hu] using hc)
  · intro c hc
    simp only [todo, ← List.append_assoc, queuedCalls_append] at hc
    rcases List.mem_append.mp hc with hc | hc
    · exact h.queued c (by simpa [todo] using hc)
    · rw [List.mem_singleton.mp hc, hthread]
      exact ⟨other, hlen⟩
  · intro u
    have hold := h.order u
    simp only [todo, queuedCalls_append, byThread_append] at hold
    simp only [todo, called_append, called_cons, called_nil, settled_append, settled_cons,
      settled_nil, Entry.callOf, Entry.settledOf, List.append_nil, queuedCalls_append,
      queuedCalls_cons, queuedCalls_nil, Functor.callOf, byThread_append]
    by_cases hu : u = t
    · subst hu
      rw [hold, pc, ← hthread, byThread_self, Function.update_self]
      simp [CallPc.callOf]
    · rw [hold, byThread_other (by rw [hthread]; exact Ne.symm hu), Function.update_of_ne hu]
      simp

/-- The head of the batch is settled. -/
theorem Calls.functor (h : Calls s) {f : Functor} {rest : List Functor} {io : Io} {x : Ctx}
    {fs : List Frame} (batch : s.batch = f :: rest)
    (hx : s.ctx.runFunctor s.mem io f = .ok (x, fs)) :
    Calls { s.put x with batch := rest, frames := fs } := by
  have htodo : queuedCalls (ConnSystem.todo { s.put x with batch := rest, frames := fs }) =
      queuedCalls (rest ++ s.queue) := queuedCalls_put (Ctx.runFunctor_local hx)
  have hold : queuedCalls s.todo = f.callOf ++ queuedCalls (rest ++ s.queue) := by
    simp [todo, batch]
  rcases Ctx.runFunctor_quiet hx with ⟨hquiet, hcall⟩ | ⟨c, call, rfl, -, hsend⟩ | ⟨c, rfl, -, rfl⟩
  · obtain ⟨es, hes, hall⟩ := hquiet.log
    refine h.of_noCall rfl ⟨es, hes, fun e he => (hall e he).2⟩ ?_ (fun _ => rfl)
    rw [htodo, hold, hcall, List.nil_append]
  · obtain ⟨hcalled, hsettled⟩ := sendInLoop_settled hsend
    have hold : queuedCalls s.todo = call :: queuedCalls (rest ++ s.queue) := hold
    refine ⟨h.calling, ?_, ?_⟩
    · rw [htodo]
      intro d hd
      exact h.queued d (by rw [hold]; exact List.mem_cons_of_mem call hd)
    · intro t
      have horder := h.order t
      rw [hold, ← List.singleton_append, byThread_append] at horder
      rw [htodo]
      simp only [put_log, put_pcs, hcalled, hsettled, byThread_append, ctx_log]
      rw [horder]
      simp
  · refine h.of_noCall rfl Ctx.shutdownInLoop_log ?_ (fun _ => rfl)
    rw [htodo, hold]
    rfl

theorem Calls.step (h : Calls s) (hstep : Step s a s') : Calls s' := by
  cases hstep with
  | aside hs =>
      obtain ⟨q, hq, hall⟩ := hs.todo
      have hnil : queuedCalls q = [] :=
        queuedCalls_of_callOf fun f hf => Functor.callOf_of_isDestory (hall f hf)
      refine h.of_noCall hs.loopTid ⟨[], by simp [hs.log], by simp⟩ (by simp [hq, hnil]) ?_
      intro t
      rw [hs.pcs]
  | poke hp => exact { h with }
  | reported idle hreg => exact { h with }
  | handleEvent idle phase hactive =>
      exact h.of_noCall rfl ⟨_, rfl, by simp [Entry.isCall]⟩ rfl (fun _ => rfl)
  | send pc state len read => exact h.send pc len
  | sendInLoop pc hx => exact h.sendInLoop pc hx
  | sendQueued pc other => exact h.sendQueued pc other
  | shutdownIgnored pc state =>
      exact h.of_noCall rfl ⟨_, rfl, by simp [Entry.isCall]⟩ rfl (fun _ => rfl)
  | shutdown pc state =>
      exact h.of_noCall rfl ⟨_, rfl, by simp [Entry.isCall]⟩ rfl
        (callOf_update (by rw [pc]; rfl) rfl)
  | shutdownStore pc =>
      exact h.of_noCall rfl ⟨_, rfl, by simp [Entry.isCall]⟩
        (queuedCalls_put Ctx.shutdownStore_local) (callOf_update (by rw [put_pcs, pc]; rfl) rfl)
  | shutdownInLoop pc =>
      exact h.of_noCall rfl Ctx.shutdownInLoop_log
        (queuedCalls_put Ctx.shutdownInLoop_outputStep.local)
        (callOf_update (by rw [put_pcs, pc]; rfl) rfl)
  | shutdownQueued pc other =>
      exact h.of_noCall rfl ⟨[], by simp, by simp⟩ (by simp [todo, Functor.callOf])
        (callOf_update (by rw [pc]; rfl) rfl)
  | frame pc frames hx =>
      refine h.of_noCall rfl ?_ (queuedCalls_put (Ctx.runFrame_local hx)) (fun _ => rfl)
      rcases Ctx.runFrame_quiet hx with hquiet | ⟨-, -, -, hwrite⟩
      · obtain ⟨es, hes, hall⟩ := hquiet.log
        exact ⟨es, hes, fun e he => (hall e he).2⟩
      · exact Ctx.handleWrite_noCall hwrite
  | functor idle phase batch hx => exact h.functor batch hx

theorem Established.noCall (h : Established s) :
    ∀ e ∈ s.log, e.isOutput = false ∧ e.isCall = false := by
  obtain ⟨es, hes, hlog⟩ := h.log
  intro e he
  rw [hlog] at he
  rcases List.mem_append.mp he with he | he
  · obtain ⟨t, rfl⟩ := hes e he
    exact ⟨rfl, rfl⟩
  · simp only [List.mem_cons, List.not_mem_nil, or_false] at he
    rcases he with rfl | rfl | rfl <;> exact ⟨rfl, rfl⟩

theorem Established.calls (h : Established s) : Calls s := by
  have hall := fun e he => (h.noCall e he).2
  have hnil : queuedCalls s.todo = [] :=
    queuedCalls_of_callOf fun f hf => Functor.callOf_of_isDestory (h.todo f hf)
  refine ⟨?_, by simp [hnil], ?_⟩
  · intro t
    simp [h.pcs, CallPc.callOf]
  · intro t
    rw [called_of_noCall hall, settled_of_noCall hall, hnil, h.pcs]
    rfl

/-! ### Bytes are conserved -/

end ConnSystem

namespace Ctx

variable {x x' : Ctx}

/-- What went out and what is held back is what `sendInLoop` took, in order. -/
structure Flow (x : Ctx) : Prop where
  wf : x.conn.outputBuffer.WF
  conserved : x.pipe.total = taken x.log
  sized : ∀ call bytes, Entry.ran call bytes ∈ x.log → bytes.length = call.len

theorem Flow.record (h : x.Flow) {e : Entry} (haccepted : e.accepted = [])
    (hran : e.ranOf = []) : (x.record e).Flow := by
  have htaken : e.takenOf = [] := by
    cases e <;> first | rfl | simp [Entry.ranOf] at hran
  refine ⟨h.wf, ?_, ?_⟩
  · simpa [Pipe.total, pipe, haccepted, htaken] using h.conserved
  · intro call bytes hmem
    rcases List.mem_append.mp hmem with hmem | hmem
    · exact h.sized call bytes hmem
    · rw [← List.mem_singleton.mp hmem] at hran
      simp [Entry.ranOf] at hran

theorem Flow.quiet (h : x.Flow) (hx : Quiet x x') : x'.Flow := by
  obtain ⟨es, hes, hall⟩ := hx.log
  have hcall : taken es = [] := taken_of_noCall fun e he => (hall e he).2
  refine ⟨by rw [hx.output]; exact h.wf, ?_, ?_⟩
  · rw [hx.pipe, h.conserved, hes, taken_append, hcall, List.append_nil]
  · intro call bytes hmem
    rw [hes] at hmem
    rcases List.mem_append.mp hmem with hmem | hmem
    · exact h.sized call bytes hmem
    · exact absurd (hall _ hmem).2 (by simp [Entry.isCall])

/-- `sendInLoop` puts what it took into the pipe, or nothing. -/
theorem Flow.sendInLoop (h : x.Flow) {mem : Mem} {call : SendCall} {w : WriteResult}
    (hlen : call.len < 2 ^ 64) (hx : x.sendInLoop mem call w = .ok x')
    (hsane : SaneWrites x'.log) : x'.Flow := by
  by_cases hs : x.conn.state = .kDisconnected
  · rw [sendInLoop_disconnected hs, Except.ok.injEq] at hx
    subst hx
    exact h.record rfl rfl
  · obtain ⟨bytes, k, hread, hsend⟩ := sendInLoop_sane h.wf hlen hs hx hsane
    have hdirect : x.pipe.held = [] ∨ k = 0 := by
      rcases hsend.log with ⟨-, hheld, -⟩ | ⟨-, hk⟩
      · exact Or.inl hheld
      · exact Or.inr hk
    refine ⟨hsend.wf, ?_, ?_⟩
    · rw [hsend.pipe, Pipe.total_offer hdirect, h.conserved]
      rcases hsend.log with ⟨hlog, -⟩ | ⟨hlog, -⟩ <;> simp [hlog, Entry.takenOf]
    · intro d ds hmem
      have hmem : Entry.ran d ds ∈ x.log ∨ (d = call ∧ ds = bytes) := by
        rcases hsend.log with ⟨hlog, -⟩ | ⟨hlog, -⟩ <;> simpa [hlog] using hmem
      rcases hmem with hmem | ⟨rfl, rfl⟩
      · exact h.sized d ds hmem
      · exact Mem.read_length hread

theorem Flow.handleWrite (h : x.Flow) {w : WriteResult} (hx : x.handleWrite w = .ok x')
    (hsane : SaneWrites x'.log) : x'.Flow := by
  cases hw : x.conn.channel.isWriting with
  | false =>
      rw [handleWrite_not_writing hw, Except.ok.injEq] at hx
      rw [← hx]
      exact h
  | true =>
      obtain ⟨ending, hdrain⟩ := handleWrite_sane h.wf hw hx hsane
      obtain ⟨es, hes, hall⟩ := handleWrite_noCall hx
      refine ⟨hdrain.wf, ?_, ?_⟩
      · rw [hdrain.pipe, Pipe.total_drain, h.conserved, hes, taken_append, taken_of_noCall hall,
          List.append_nil]
      · intro call bytes hmem
        rw [hes] at hmem
        rcases List.mem_append.mp hmem with hmem | hmem
        · exact h.sized call bytes hmem
        · exact absurd (hall _ hmem) (by simp [Entry.isCall])

theorem Flow.shutdownInLoop (h : x.Flow) : x.shutdownInLoop.Flow := by
  cases hw : x.conn.channel.isWriting with
  | true =>
      rw [shutdownInLoop_of_writing hw]
      exact h
  | false =>
      rw [shutdownInLoop_of_not_writing hw]
      exact h.record rfl rfl

end Ctx

namespace ConnSystem

variable {s s' : ConnSystem} {a : Action}

theorem flow_step (h : s.ctx.Flow) (hc : Calls s) (hstep : Step s a s')
    (hsane : SaneWrites s'.log) : s'.ctx.Flow := by
  have keep {x : Ctx} (hx : x.Flow) (hconn : s'.conn.outputBuffer = x.conn.outputBuffer)
      (hlog : s'.log = x.log) : s'.ctx.Flow := by
    refine ⟨by rw [ctx_conn, hconn]; exact hx.wf, ?_, by rw [ctx_log, hlog]; exact hx.sized⟩
    rw [ctx_log, hlog, ← hx.conserved, Ctx.pipe, ctx_log, ctx_conn, hconn, hlog]
    rfl
  cases hstep with
  | aside hs => exact keep h hs.output hs.log
  | poke hp => exact keep h rfl rfl
  | reported idle hreg => exact keep h rfl rfl
  | handleEvent idle phase hactive => exact keep (h.record rfl rfl) rfl rfl
  | send pc state len read => exact keep (h.record rfl rfl) rfl rfl
  | @sendInLoop call w x pc hx =>
      have hlen := (hc.calling s.loopTid call (by simp [pc, CallPc.callOf])).2
      have hsane' : SaneWrites x.log := by
        simp only [setPc, put_log, Ctx.record_log, saneWrites_append] at hsane
        exact hsane.1
      exact keep ((h.sendInLoop hlen hx hsane').record rfl rfl) rfl rfl
  | sendQueued pc other => exact keep (h.record rfl rfl) rfl rfl
  | shutdownIgnored pc state => exact keep (h.record rfl rfl) rfl rfl
  | shutdown pc state => exact keep (h.record rfl rfl) rfl rfl
  | shutdownStore pc => exact keep (h.quiet Ctx.shutdownStore_quiet) rfl rfl
  | shutdownInLoop pc => exact keep h.shutdownInLoop rfl rfl
  | shutdownQueued pc other => exact keep h rfl rfl
  | frame pc frames hx =>
      rcases Ctx.runFrame_quiet hx with hquiet | ⟨-, -, -, hwrite⟩
      · exact keep (h.quiet hquiet) rfl rfl
      · exact keep (h.handleWrite hwrite hsane) rfl rfl
  | functor idle phase batch hx =>
      rcases Ctx.runFunctor_quiet hx with ⟨hquiet, -⟩ | ⟨c, call, rfl, -, hsend⟩ | ⟨c, rfl, -, rfl⟩
      · exact keep (h.quiet hquiet) rfl rfl
      · have hlen := (hc.queued call (by simp [todo, batch, Functor.callOf])).2
        exact keep (h.sendInLoop hlen hsend hsane) rfl rfl
      · exact keep h.shutdownInLoop rfl rfl

theorem Established.flow (h : Established s) : s.ctx.Flow := by
  have hout : written s.log = [] := written_of_noOutput fun e he => (h.noCall e he).1
  have hcall : taken s.log = [] := taken_of_noCall fun e he => (h.noCall e he).2
  refine ⟨h.wf, by simp [Pipe.total, Ctx.pipe, hout, hcall, h.empty], ?_⟩
  intro call bytes hmem
  exact absurd (h.noCall _ hmem).2 (by simp [Entry.isCall])

/-! ### Where a write comes from -/

/-- A call of `send` saw `kConnected`, and its `sendInLoop` has not run yet. -/
def InFlight (s : ConnSystem) (call : SendCall) : Prop :=
  (∃ t, call ∈ (s.pcs t).callOf) ∨ call ∈ queuedCalls s.todo

/-- What is in flight does not change with what a piece of code leaves. -/
theorem inFlight_put {x : Ctx} (hx : Ctx.Local s.ctx x) {call : SendCall} :
    (s.put x).InFlight call ↔ s.InFlight call := by
  have htodo : queuedCalls (ConnSystem.todo (s.put x)) = queuedCalls s.todo :=
    queuedCalls_put hx
  rw [InFlight, InFlight, htodo]
  rfl

/-- A property that only writes have to answer for is kept if it holds of the write of a
`sendInLoop` whose call is in flight, and of the write of `handleWrite`. -/
theorem writes_step {Q : List Entry → Entry → Prop} (h : Justified Q s.log)
    (hQ : ∀ e, e.isWrite = false → ∀ before, Q before e)
    (hsend : ∀ call, s.InFlight call → s.conn.state ≠ .kDisconnected → ∀ pre e,
      (∀ d ∈ pre, d.isWrite = true) → Q (s.log ++ pre) e)
    (hdrain : .writePart ∈ s.frames → s.conn.channel.isWriting = true → ∀ e, Q s.log e)
    (hstep : Step s a s') : Justified Q s'.log := by
  have quiet {x : Ctx} (hx : Ctx.Quiet s.ctx x) : Justified Q x.log := by
    obtain ⟨es, hes, hall⟩ := hx.log
    rw [hes]
    exact h.append fun e he before => hQ e (Entry.isWrite_of_noOutput (hall e he).1) before
  have sent {call : SendCall} {w : WriteResult} {x : Ctx} (hin : s.InFlight call)
      (hx : s.ctx.sendInLoop s.mem call w = .ok x) : Justified Q x.log := by
    rcases Ctx.sendInLoop_log hx with ⟨-, rfl⟩ | ⟨hs, es, bytes, hes, hall⟩
    · exact h.append_singleton (hQ _ rfl _)
    · rw [hes, ← List.append_assoc]
      refine (h.append_while ?_).append_singleton (hQ _ rfl _)
      rintro pre e post rfl
      exact hsend call hin hs pre e fun d hd => hall d (List.mem_append_left _ hd)
  have shut : Justified Q s.ctx.shutdownInLoop.log := by
    cases hw : s.conn.channel.isWriting with
    | true =>
        have hsame : s.ctx.shutdownInLoop = s.ctx := Ctx.shutdownInLoop_of_writing hw
        rw [hsame]
        exact h
    | false =>
        have hx : s.ctx.shutdownInLoop = _ := Ctx.shutdownInLoop_of_not_writing hw
        rw [hx]
        exact h.append_singleton (hQ _ rfl _)
  cases hstep with
  | aside hs => rw [hs.log]; exact h
  | poke hp => exact h
  | reported idle hreg => exact h
  | handleEvent idle phase hactive => exact h.append_singleton (hQ _ rfl _)
  | send pc state len read => exact h.append_singleton (hQ _ rfl _)
  | @sendInLoop call w x pc hx =>
      have hin : s.InFlight call := Or.inl ⟨s.loopTid, by simp [pc, CallPc.callOf]⟩
      exact (sent hin hx).append_singleton (hQ _ rfl _)
  | sendQueued pc other => exact h.append_singleton (hQ _ rfl _)
  | shutdownIgnored pc state => exact h.append_singleton (hQ _ rfl _)
  | shutdown pc state => exact h.append_singleton (hQ _ rfl _)
  | shutdownStore pc => exact h.append_singleton (hQ _ rfl _)
  | shutdownInLoop pc => exact shut
  | shutdownQueued pc other => exact h
  | @frame f rest io x fs pc frames hx =>
      rcases Ctx.runFrame_quiet hx with hquiet | ⟨rfl, -, -, hx⟩
      · exact quiet hquiet
      · cases hw : s.conn.channel.isWriting with
        | false =>
            rw [Ctx.handleWrite_not_writing hw, Except.ok.injEq] at hx
            subst hx
            exact h
        | true =>
            have hentry : Justified Q (s.log ++ [s.ctx.writeEntry io.write]) :=
              h.append_singleton (hdrain (by simp [frames]) hw _)
            rcases Ctx.handleWrite_cases hw hx with hlog | hlast
            · rw [put_log, hlog]
              exact hentry
            · rw [put_log, hlast.log]
              exact hentry.append_singleton (hQ _ rfl _)
  | @functor f rest io x fs idle phase batch hx =>
      rcases Ctx.runFunctor_quiet hx with ⟨hquiet, -⟩ | ⟨c, call, rfl, -, hsend⟩ |
        ⟨c, rfl, -, rfl⟩
      · exact quiet hquiet
      · exact sent (Or.inr (by simp [todo, batch, Functor.callOf])) hsend
      · exact shut

/-! ### The bytes are the caller's

As long as nobody writes to the memory of a message that is still queued, and no direct
write fails, each `sendInLoop` takes exactly the bytes that `send` was called with.
-/

/-- The step leaves the memory of queued messages alone. -/
def MemoryKept (s : ConnSystem) : Action → Prop
  | .poke p _ => ∀ call ∈ queuedCalls s.todo, ¬ Covers call.message call.len p
  | _ => True

/-- A `::write` that `sendInLoop` makes in this step returns a count within its request. -/
def DirectWriteOk (s : ConnSystem) : Action → Prop
  | .sendRun t w => ∀ call, s.pcs t = .sending call → s.ctx.WritesDirectly →
      0 ≤ w.ret ∧ w.ret ≤ call.len
  | .functor io => ∀ c call rest, s.batch = .sendInLoop c call :: rest →
      s.ctx.WritesDirectly → 0 ≤ io.write.ret ∧ io.write.ret ≤ call.len
  | _ => True

instance (s : ConnSystem) (a : Action) : Decidable (MemoryKept s a) :=
  match a with
  | .poke p _ =>
      inferInstanceAs (Decidable (∀ call ∈ queuedCalls s.todo, ¬ Covers call.message call.len p))
  | .send _ _ _ | .sendRun _ _ | .shutdown _ | .shutdownStore _ | .shutdownRun _
  | .setWriteCompleteCallback _ | .setHighWaterMarkCallback _ _ | .queueDestory | .others _
  | .poll _ | .handleEvent | .frame _ | .swap | .functor _ | .batchEnd => .isTrue trivial

/-- What is asked of the call a thread is in can be looked up. -/
instance decidableCalling (s : ConnSystem) (t : Tid) (P : SendCall → Prop) [DecidablePred P] :
    Decidable (∀ call, s.pcs t = .sending call → P call) :=
  decidable_of_iff (∀ call ∈ (s.pcs t).callOf, P call) <| by
    cases s.pcs t <;> simp [CallPc.callOf]

/-- What is asked of the call at the head of the batch can be looked up. -/
instance decidableFirstCall (fs : List Functor) (P : SendCall → Prop) [DecidablePred P] :
    Decidable (∀ c call rest, fs = .sendInLoop c call :: rest → P call) :=
  decidable_of_iff (∀ call ∈ queuedCalls (fs.take 1), P call) <| by
    rcases fs with _ | ⟨f, rest⟩
    · simp
    · cases f <;> simp [Functor.callOf]

instance (x : Ctx) : Decidable x.WritesDirectly :=
  inferInstanceAs (Decidable (_ ∧ _ ∧ _))

instance (s : ConnSystem) (a : Action) : Decidable (DirectWriteOk s a) :=
  match a with
  | .sendRun t w =>
      decidableCalling s t fun call => s.ctx.WritesDirectly → 0 ≤ w.ret ∧ w.ret ≤ call.len
  | .functor io =>
      decidableFirstCall s.batch fun call =>
        s.ctx.WritesDirectly → 0 ≤ io.write.ret ∧ io.write.ret ≤ call.len
  | .send _ _ _ | .shutdown _ | .shutdownStore _ | .shutdownRun _ | .poke _ _
  | .setWriteCompleteCallback _ | .setHighWaterMarkCallback _ _ | .queueDestory | .others _
  | .poll _ | .handleEvent | .frame _ | .swap | .batchEnd => .isTrue trivial

/-- The messages under way still read as they did when `send` was called. -/
structure Kept (s : ConnSystem) : Prop where
  calling : ∀ t, ∀ call ∈ (s.pcs t).callOf, s.mem.read call.message call.len = .ok call.bytes
  queued : ∀ call ∈ queuedCalls s.todo, s.mem.read call.message call.len = .ok call.bytes
  ran : ∀ call bytes, Entry.ran call bytes ∈ s.log → bytes = call.bytes

/-- `sendInLoop` takes its message as memory has it, and that is as the caller had it. -/
theorem sendInLoop_ran {x : Ctx} {call : SendCall} {w : WriteResult} (hlen : call.len < 2 ^ 64)
    (hread : s.mem.read call.message call.len = .ok call.bytes)
    (hret : s.ctx.WritesDirectly → 0 ≤ w.ret ∧ w.ret ≤ call.len)
    (hx : s.ctx.sendInLoop s.mem call w = .ok x) {d : SendCall} {bytes : List Byte}
    (hran : Entry.ran d bytes ∈ x.log) :
    Entry.ran d bytes ∈ s.log ∨ bytes = d.bytes := by
  by_cases hs : s.conn.state = .kDisconnected
  · rw [Ctx.sendInLoop_disconnected hs, Except.ok.injEq] at hx
    subst hx
    exact Or.inl (by simpa using hran)
  · obtain ⟨front, rest, htook, hlog, -⟩ := Ctx.sendInLoop_took hlen hs hret hx
    rw [htook, Except.ok.injEq] at hread
    have hmem : Entry.ran d bytes ∈ s.log ∨ (d = call ∧ bytes = front ++ rest) := by
      rcases hlog with ⟨hlog, -⟩ | ⟨hlog, -⟩
      · simpa [hlog] using hran
      · simpa [hlog] using hran
    rcases hmem with hmem | ⟨rfl, rfl⟩
    · exact Or.inl hmem
    · exact Or.inr hread

theorem ran_of_noCall {es : List Entry} {d : SendCall} {bytes : List Byte}
    (hall : ∀ e ∈ es, e.isCall = false) (hran : Entry.ran d bytes ∈ s.log ++ es) :
    Entry.ran d bytes ∈ s.log := by
  rcases List.mem_append.mp hran with hran | hran
  · exact hran
  · exact absurd (hall _ hran) (by simp [Entry.isCall])

theorem Kept.of_noCall (h : Kept s) (hmem : s'.mem = s.mem)
    (hlog : ∃ es, s'.log = s.log ++ es ∧ ∀ e ∈ es, e.isCall = false)
    (htodo : queuedCalls s'.todo = queuedCalls s.todo)
    (hpcs : ∀ t, (s'.pcs t).callOf = (s.pcs t).callOf) : Kept s' := by
  obtain ⟨es, hes, hall⟩ := hlog
  refine ⟨?_, ?_, ?_⟩
  · intro t
    rw [hpcs, hmem]
    exact h.calling t
  · rw [htodo, hmem]
    exact h.queued
  · intro d bytes hran
    rw [hes] at hran
    exact h.ran d bytes (ran_of_noCall hall hran)

theorem Kept.sendInLoop (h : Kept s) (hc : Calls s) {call : SendCall} {w : WriteResult}
    {x : Ctx} (pc : s.pcs s.loopTid = .sending call)
    (hret : s.ctx.WritesDirectly → 0 ≤ w.ret ∧ w.ret ≤ call.len)
    (hx : s.ctx.sendInLoop s.mem call w = .ok x) :
    Kept ((s.put (x.record (.returned call))).setPc s.loopTid .idle) := by
  have hmem : call ∈ (s.pcs s.loopTid).callOf := by simp [pc, CallPc.callOf]
  have htodo : queuedCalls (ConnSystem.todo
      ((s.put (x.record (.returned call))).setPc s.loopTid .idle)) = queuedCalls s.todo :=
    queuedCalls_put ((Ctx.sendInLoop_outputStep hx).local.trans (.record (.returned call)))
  refine ⟨?_, by rw [htodo]; exact h.queued, ?_⟩
  · intro t c hcall
    by_cases ht : t = s.loopTid
    · subst ht
      simp [setPc, CallPc.callOf] at hcall
    · exact h.calling t c (by simpa [setPc, Function.update_of_ne ht] using hcall)
  · intro d bytes hran
    have hran : Entry.ran d bytes ∈ x.log := by simpa [setPc] using hran
    rcases sendInLoop_ran (hc.calling _ _ hmem).2 (h.calling _ _ hmem) hret hx hran with
      hran | hran
    · exact h.ran d bytes hran
    · exact hran

theorem Kept.sendQueued (h : Kept s) {t : Tid} {call : SendCall}
    (pc : s.pcs t = .sending call) :
    Kept { s with
      log := s.log ++ [.returned call]
      queue := s.queue ++ [.sendInLoop s.conn.channel.id call]
      pcs := Function.update s.pcs t .idle } := by
  have hread := h.calling t call (by simp [pc, CallPc.callOf])
  refine ⟨?_, ?_, ?_⟩
  · intro u c hcall
    by_cases hu : u = t
    · subst hu
      simp [CallPc.callOf] at hcall
    · exact h.calling u c (by simpa [Function.update_of_ne hu] using hcall)
  · intro c hcall
    simp only [todo, ← List.append_assoc, queuedCalls_append] at hcall
    rcases List.mem_append.mp hcall with hcall | hcall
    · exact h.queued c (by simpa [todo] using hcall)
    · rw [List.mem_singleton.mp hcall]
      exact hread
  · intro d bytes hran
    exact h.ran d bytes (by simpa using hran)

theorem Kept.functor (h : Kept s) (hc : Calls s) {f : Functor} {rest : List Functor} {io : Io}
    {x : Ctx} {fs : List Frame} (batch : s.batch = f :: rest)
    (hret : ∀ c call, f = .sendInLoop c call → s.ctx.WritesDirectly →
      0 ≤ io.write.ret ∧ io.write.ret ≤ call.len)
    (hx : s.ctx.runFunctor s.mem io f = .ok (x, fs)) :
    Kept { s.put x with batch := rest, frames := fs } := by
  have htodo : queuedCalls (ConnSystem.todo { s.put x with batch := rest, frames := fs }) =
      queuedCalls (rest ++ s.queue) := queuedCalls_put (Ctx.runFunctor_local hx)
  have hold : queuedCalls s.todo = f.callOf ++ queuedCalls (rest ++ s.queue) := by
    simp [todo, batch]
  refine ⟨h.calling, ?_, ?_⟩
  · rw [htodo]
    intro c hcall
    exact h.queued c (by rw [hold]; exact List.mem_append_right _ hcall)
  · intro d bytes hran
    have hran : Entry.ran d bytes ∈ x.log := hran
    rcases Ctx.runFunctor_quiet hx with ⟨hquiet, -⟩ | ⟨c, call, rfl, -, hsend⟩ | ⟨c, rfl, -, rfl⟩
    · obtain ⟨es, hes, hall⟩ := hquiet.log
      rw [hes] at hran
      exact h.ran d bytes (ran_of_noCall (fun e he => (hall e he).2) hran)
    · have hmem : call ∈ queuedCalls s.todo := by
        rw [hold]
        exact List.mem_append_left _ (by simp [Functor.callOf])
      rcases sendInLoop_ran (hc.queued _ hmem).2 (h.queued _ hmem) (hret c call rfl) hsend hran
        with hran | hran
      · exact h.ran d bytes hran
      · exact hran
    · obtain ⟨es, hes, hall⟩ := Ctx.shutdownInLoop_log (x := s.ctx)
      rw [hes] at hran
      exact h.ran d bytes (ran_of_noCall hall hran)

theorem Kept.step (h : Kept s) (hc : Calls s) (hmem : MemoryKept s a)
    (hok : SaneWrites s'.log ∨ DirectWriteOk s a) (hstep : Step s a s') : Kept s' := by
  cases hstep with
  | aside hs =>
      obtain ⟨q, hq, hall⟩ := hs.todo
      have hnil : queuedCalls q = [] :=
        queuedCalls_of_callOf fun f hf => Functor.callOf_of_isDestory (hall f hf)
      refine h.of_noCall hs.mem ⟨[], by simp [hs.log], by simp⟩ (by simp [hq, hnil]) ?_
      intro t
      rw [hs.pcs]
  | @poke p b hp =>
      refine ⟨?_, ?_, h.ran⟩
      · intro t call hcall
        cases hpc : s.pcs t with
        | sending d =>
            have hcall' : call = d := by simpa [hpc, CallPc.callOf] using hcall
            rw [Mem.read_poke (hcall' ▸ hp t d hpc)]
            exact h.calling t call hcall
        | idle | shutdownSeen | shutdownStored => simp [hpc, CallPc.callOf] at hcall
      · intro call hcall
        rw [Mem.read_poke (hmem call hcall)]
        exact h.queued call hcall
  | reported idle hreg => exact { h with }
  | handleEvent idle phase hactive =>
      exact h.of_noCall rfl ⟨_, rfl, by simp [Entry.isCall]⟩ rfl (fun _ => rfl)
  | @send call pc state len read =>
      refine ⟨?_, h.queued, ?_⟩
      · intro t c hcall
        by_cases ht : t = call.thread
        · subst ht
          simp only [Function.update_self] at hcall
          rw [List.mem_singleton.mp hcall]
          exact read
        · simp only [Function.update_of_ne ht] at hcall
          exact h.calling t c hcall
      · intro d bytes hran
        exact h.ran d bytes (by simpa using hran)
  | @sendInLoop call w x pc hx =>
      refine h.sendInLoop hc pc ?_ hx
      rcases hok with hsane | hok
      · simp only [setPc, put_log, Ctx.record_log, saneWrites_append] at hsane
        exact Ctx.sendInLoop_ret hx hsane.1
      · exact hok call pc
  | sendQueued pc other => exact h.sendQueued pc
  | shutdownIgnored pc state =>
      exact h.of_noCall rfl ⟨_, rfl, by simp [Entry.isCall]⟩ rfl (fun _ => rfl)
  | shutdown pc state =>
      exact h.of_noCall rfl ⟨_, rfl, by simp [Entry.isCall]⟩ rfl
        (callOf_update (by rw [pc]; rfl) rfl)
  | shutdownStore pc =>
      exact h.of_noCall rfl ⟨_, rfl, by simp [Entry.isCall]⟩
        (queuedCalls_put Ctx.shutdownStore_local) (callOf_update (by rw [put_pcs, pc]; rfl) rfl)
  | shutdownInLoop pc =>
      exact h.of_noCall rfl Ctx.shutdownInLoop_log
        (queuedCalls_put Ctx.shutdownInLoop_outputStep.local)
        (callOf_update (by rw [put_pcs, pc]; rfl) rfl)
  | shutdownQueued pc other =>
      exact h.of_noCall rfl ⟨[], by simp, by simp⟩ (by simp [todo, Functor.callOf])
        (callOf_update (by rw [pc]; rfl) rfl)
  | frame pc frames hx =>
      refine h.of_noCall rfl ?_ (queuedCalls_put (Ctx.runFrame_local hx)) (fun _ => rfl)
      rcases Ctx.runFrame_quiet hx with hquiet | ⟨-, -, -, hwrite⟩
      · obtain ⟨es, hes, hall⟩ := hquiet.log
        exact ⟨es, hes, fun e he => (hall e he).2⟩
      · exact Ctx.handleWrite_noCall hwrite
  | @functor f rest io x fs idle phase batch hx =>
      refine h.functor hc batch ?_ hx
      rintro c call rfl
      rcases hok with hsane | hok
      · exact Ctx.sendInLoop_ret (Ctx.runFunctor_sendInLoop hx).1 hsane
      · exact hok c call rest batch

theorem Established.kept (h : Established s) : Kept s := by
  have hnil : queuedCalls s.todo = [] :=
    queuedCalls_of_callOf fun f hf => Functor.callOf_of_isDestory (h.todo f hf)
  refine ⟨?_, by simp [hnil], ?_⟩
  · intro t
    simp [h.pcs, CallPc.callOf]
  · intro d bytes hran
    exact absurd (h.noCall _ hran).2 (by simp [Entry.isCall])

/-! ### The stream -/

/-- Before `connectEstablished` nothing has been sent. -/
theorem Fresh.noCall (h : Fresh s) : ∀ e ∈ s.log, e.isOutput = false ∧ e.isCall = false := by
  intro e he
  obtain ⟨t, rfl⟩ := h.log e he
  exact ⟨rfl, rfl⟩

/-- Nothing is lost, duplicated or reordered on the way out. -/
theorem output_conserved (h : (lts.restrict MemoryKept).Reachable s)
    (hsane : SaneWrites s.log) :
    written s.log ++ s.conn.outputBuffer.content = (ranCalls s.log).flatMap SendCall.bytes ∧
      ∀ t, byThread t (settled s.log) <+: byThread t (called s.log) ∧
        (byThread t (ranCalls s.log)).Sublist (byThread t (called s.log)) := by
  have hinv := sane_induct (P := fun s => Calls s ∧ s.ctx.Flow ∧ Kept s) h hsane
    (fun m hm => ⟨hm.calls, hm.flow, hm.kept⟩) ?_
  · rcases hinv with hfresh | ⟨-, hcalls, hflow, hkept⟩
    · have hcall := fun e he => (hfresh.noCall e he).2
      have hout : written s.log = [] := written_of_noOutput fun e he => (hfresh.noCall e he).1
      simp [hout, hfresh.empty, called_of_noCall hcall, settled_of_noCall hcall,
        ranCalls_of_noCall hcall]
    · have hpre : ∀ t, byThread t (settled s.log) <+: byThread t (called s.log) := by
        intro t
        rw [hcalls.order t, List.append_assoc]
        exact List.prefix_append ..
      refine ⟨?_, fun t => ⟨hpre t, ?_⟩⟩
      · rw [← taken_eq_messages hkept.ran]
        exact hflow.conserved
      · exact ((ranCalls_sublist_settled s.log).filter _).trans (hpre t).sublist
  · rintro m a m' - - ⟨hcalls, hflow, hkept⟩ hsane' hmem - hstep
    exact ⟨hcalls.step hstep, flow_step hflow hcalls hstep hsane',
      hkept.step hcalls hmem (Or.inl hsane') hstep⟩

/-- Thread 2 queues a message and the loop sends one of its own, in part, before it comes
to the queue and to `EPOLLOUT`. -/
theorem output_conserved_mixed : ∃ s : ConnSystem, written s.log = [13, 14, 10] ∧
    written s.log ++ s.conn.outputBuffer.content =
      (ranCalls s.log).flatMap SendCall.bytes := by
  obtain ⟨s, hr, hwritten, hsane⟩ := exists_of_endsWith MemoryKept [10, 11, 12, 13, 14]
    ([Action.send 2 100 3, .sendRun 2 (wrote 0).write] ++
      during [.send 1 103 2, .sendRun 1 (wrote 1).write] 0 ++ event EPOLLOUT 2)
    (fun s => written s.log = [13, 14, 10] ∧ SaneWrites s.log) (by decide +kernel)
  exact ⟨s, hwritten, (output_conserved hr hsane).1⟩

/-- Each `sendInLoop` wrote or buffered the bytes that stood there when `send` was
called, in every run whose steps leave the memory of queued messages alone and whose
direct writes do not fail. -/
theorem sendInLoop_took_message
    (h : (lts.restrict fun s a => MemoryKept s a ∧ DirectWriteOk s a).Reachable s)
    (call : SendCall) (bytes : List Byte) (hran : Entry.ran call bytes ∈ s.log) :
    bytes = call.bytes ∧ call ∈ called s.log := by
  have hinv := reachable_induct (P := fun s => Calls s ∧ Kept s) h
    (fun m hm => ⟨hm.calls, hm.kept⟩) ?_
  · rcases hinv with hfresh | ⟨-, hcalls, hkept⟩
    · obtain ⟨t, ht⟩ := hfresh.log _ hran
      simp at ht
    · refine ⟨hkept.ran call bytes hran, ?_⟩
      have hsettled : call ∈ byThread call.thread (settled s.log) :=
        List.mem_filter.mpr ⟨mem_settled_of_ran hran, by simp⟩
      have hcalled : call ∈ byThread call.thread (called s.log) := by
        rw [hcalls.order, List.append_assoc]
        exact List.mem_append_left _ hsettled
      exact (List.mem_filter.mp hcalled).1
  · rintro m a m' - - ⟨hcalls, hkept⟩ ⟨hmem, hok⟩ - hstep
    exact ⟨hcalls.step hstep, hkept.step hcalls hmem (Or.inr hok) hstep⟩

/-- Once the functor has run, the caller may reuse the memory. -/
theorem sendInLoop_took_message_before_reuse : ∃ (s : ConnSystem) (call : SendCall)
    (bytes : List Byte), Entry.ran call bytes ∈ s.log ∧ call.thread = 2 ∧
      bytes = call.bytes ∧ s.mem 100 = some 99 := by
  obtain ⟨s, hr, hran, hmem⟩ := exists_of_endsWith
    (fun s a => MemoryKept s a ∧ DirectWriteOk s a) [10, 11, 12]
    ([Action.send 2 100 3, .sendRun 2 (wrote 0).write] ++ turn 2 ++ [Action.poke 100 (some 99)])
    (fun s => Entry.ran ⟨2, 100, 3, [10, 11, 12]⟩ [10, 11, 12] ∈ s.log ∧
      s.mem 100 = some 99) (by decide +kernel)
  exact ⟨s, _, _, hran, rfl, (sendInLoop_took_message hr _ _ hran).1, hmem⟩

/-- The functor holds the pointer only: thread 2 sends `10 11 12`, reuses the memory as soon
as `send` has returned, and `99 11 12` goes out. -/
theorem sendInLoop_took_reused_memory : ∃ s, lts.Reachable s ∧ SaneWrites s.log ∧
    ∃ call bytes, Entry.ran call bytes ∈ s.log ∧ call.bytes = [10, 11, 12] ∧
      bytes = [99, 11, 12] := by
  obtain ⟨s, hr, hran, hsane⟩ := exists_of_endsWith (fun _ _ => True) [10, 11, 12]
    ([Action.send 2 100 3, .sendRun 2 (wrote 0).write, .poke 100 (some 99)] ++ turn 3)
    (fun s => Entry.ran ⟨2, 100, 3, [10, 11, 12]⟩ [99, 11, 12] ∈ s.log ∧ SaneWrites s.log)
    (by decide +kernel)
  exact ⟨s, hr.of_restrict, hsane, _, _, hran, rfl, rfl⟩

end ConnSystem

end Muduo
