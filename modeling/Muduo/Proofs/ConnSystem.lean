/-
The steps of `ConnSystem`, and the life of a connection up to `connectEstablished`.

`Step` says once what each action does; every invariant below is a case analysis on it.
A run has two parts.  In the first the connection is `Fresh`: nothing can happen to it
but that its loop comes to the call of `connectEstablished`.  From then on it is
`Started`, and stays so.  `reachable_induct` is the induction over runs with the first
part dealt with: an invariant is proved of the state `connectEstablished` leaves, and of
one step.
-/
import Muduo.ConnSystem
import Muduo.Proofs.Handlers

namespace Muduo

namespace ConnSystem

variable {s s' : ConnSystem} {a : Action}

/-- The functors still to run, in order. -/
def todo (s : ConnSystem) : List Functor := s.batch ++ s.queue

@[simp] theorem put_conn (x : Ctx) : (s.put x).conn = x.conn := rfl
@[simp] theorem put_poller (x : Ctx) : (s.put x).poller = x.poller := rfl
@[simp] theorem put_log (x : Ctx) : (s.put x).log = x.log := rfl
@[simp] theorem put_queue (x : Ctx) : (s.put x).queue = s.queue ++ x.pending := rfl
@[simp] theorem put_batch (x : Ctx) : (s.put x).batch = s.batch := rfl
@[simp] theorem put_frames (x : Ctx) : (s.put x).frames = s.frames := rfl
@[simp] theorem put_active (x : Ctx) : (s.put x).active = s.active := rfl
@[simp] theorem put_phase (x : Ctx) : (s.put x).phase = s.phase := rfl
@[simp] theorem put_pcs (x : Ctx) : (s.put x).pcs = s.pcs := rfl
@[simp] theorem put_mem (x : Ctx) : (s.put x).mem = s.mem := rfl
@[simp] theorem put_loopTid (x : Ctx) : (s.put x).loopTid = s.loopTid := rfl

@[simp] theorem ctx_conn : s.ctx.conn = s.conn := rfl
@[simp] theorem ctx_poller : s.ctx.poller = s.poller := rfl
@[simp] theorem ctx_log : s.ctx.log = s.log := rfl
@[simp] theorem ctx_pending : s.ctx.pending = [] := rfl

/-! ### One step -/

/-- A step that is no business of the connection's: what it has, what it did and what it
is in the middle of stay as they are. -/
structure Aside (s s' : ConnSystem) : Prop where
  loopTid : s'.loopTid = s.loopTid
  state : s'.conn.state = s.conn.state
  channel : s'.conn.channel = s.conn.channel
  output : s'.conn.outputBuffer = s.conn.outputBuffer
  channels : s'.poller.channels s.conn.channel.fd = s.poller.channels s.conn.channel.fd
  interest : s'.poller.interest s.conn.channel.fd = s.poller.interest s.conn.channel.fd
  log : s'.log = s.log
  active : s'.active = s.active
  frames : s'.frames = s.frames
  pcs : s'.pcs = s.pcs
  mem : s'.mem = s.mem
  todo : ∃ q, s'.todo = s.todo ++ q ∧ ∀ f ∈ q, f.isDestory = true

/-- What an action can do. -/
inductive Step (s : ConnSystem) : Action → ConnSystem → Prop
  | aside {a : Action} {s' : ConnSystem} (h : Aside s s') : Step s a s'
  | poke {p b} (h : ∀ t call, s.pcs t = .sending call → ¬ Covers call.message call.len p) :
      Step s (.poke p b) { s with mem := s.mem.poke p b }
  | reported {revents mask} (idle : s.LoopIdle)
      (h : s.poller.interest s.conn.channel.fd = some (s.conn.channel.id, mask)) :
      Step s (.poll (some revents)) (s.poll (some revents))
  | handleEvent (idle : s.LoopIdle) (phase : s.phase = .handling) (h : s.active = true) :
      Step s .handleEvent s.handleEvent
  | send {call} (pc : s.pcs call.thread = .idle) (state : s.conn.state = .kConnected)
      (len : call.len < 2 ^ 64) (read : s.mem.read call.message call.len = .ok call.bytes) :
      Step s (.send call.thread call.message call.len)
        { s with
          log := s.log ++ [.called call]
          pcs := Function.update s.pcs call.thread (.sending call) }
  | sendInLoop {call w x} (pc : s.pcs s.loopTid = .sending call)
      (h : s.ctx.sendInLoop s.mem call w = .ok x) :
      Step s (.sendRun s.loopTid w)
        ((s.put (x.record (.returned call))).setPc s.loopTid .idle)
  | sendQueued {t call w} (pc : s.pcs t = .sending call) (other : t ≠ s.loopTid) :
      Step s (.sendRun t w)
        { s with
          log := s.log ++ [.returned call]
          queue := s.queue ++ [.sendInLoop s.conn.channel.id call]
          pcs := Function.update s.pcs t .idle }
  | shutdownIgnored {t} (pc : s.pcs t = .idle) (state : s.conn.state ≠ .kConnected) :
      Step s (.shutdown t) { s with log := s.log ++ [.shutdownCalled t] }
  | shutdown {t} (pc : s.pcs t = .idle) (state : s.conn.state = .kConnected) :
      Step s (.shutdown t)
        { s with
          log := s.log ++ [.shutdownCalled t]
          pcs := Function.update s.pcs t .shutdownSeen }
  | shutdownStore {t} (pc : s.pcs t = .shutdownSeen) :
      Step s (.shutdownStore t) ((s.put s.ctx.shutdownStore).setPc t .shutdownStored)
  | shutdownInLoop (pc : s.pcs s.loopTid = .shutdownStored) :
      Step s (.shutdownRun s.loopTid)
        ((s.put s.ctx.shutdownInLoop).setPc s.loopTid .idle)
  | shutdownQueued {t} (pc : s.pcs t = .shutdownStored) (other : t ≠ s.loopTid) :
      Step s (.shutdownRun t)
        { s with
          queue := s.queue ++ [.shutdownInLoop s.conn.channel.id]
          pcs := Function.update s.pcs t .idle }
  | frame {f rest io x fs} (pc : s.pcs s.loopTid = .idle) (frames : s.frames = f :: rest)
      (h : s.ctx.runFrame io f = .ok (x, fs)) :
      Step s (.frame io) { s.put x with frames := fs ++ rest }
  | functor {f rest io x fs} (idle : s.LoopIdle) (phase : s.phase = .functors)
      (batch : s.batch = f :: rest) (h : s.ctx.runFunctor s.mem io f = .ok (x, fs)) :
      Step s (.functor io) { s.put x with batch := rest, frames := fs }

/-! ### The order of the loop -/

/-- There is a batch only in `doPendingFunctors`, and a channel waits to be handled only
before it. -/
structure Ordered (s : ConnSystem) : Prop where
  batch : s.phase = .functors ∨ s.batch = []
  active : s.active = true → s.phase = .handling

theorem Ordered.step (h : Ordered s) (hen : s.Enabled a) (hex : s.exec a = .ok s') :
    Ordered s' := by
  cases a with
  | send t message len =>
      obtain ⟨⟨x, pc⟩, -, hret⟩ := Except.bind_eq_ok.mp hex
      rw [Except.pure_eq_ok] at hret
      rw [← hret]
      exact ⟨h.batch, h.active⟩
  | sendRun t w =>
      obtain ⟨call, hpc⟩ := hen
      simp only [exec, hpc] at hex
      obtain ⟨x, -, hret⟩ := Except.bind_eq_ok.mp hex
      rw [Except.pure_eq_ok] at hret
      rw [← hret]
      exact ⟨h.batch, h.active⟩
  | poll revents =>
      obtain ⟨-, hphase, -⟩ := hen
      simp only [exec, Except.ok.injEq] at hex
      have hbatch : s.batch = [] := h.batch.resolve_left (by simp [hphase])
      rw [← hex]
      cases revents with
      | none => exact ⟨Or.inr hbatch, fun _ => rfl⟩
      | some revents => exact ⟨Or.inr hbatch, fun _ => rfl⟩
  | handleEvent =>
      simp only [exec, Except.ok.injEq] at hex
      rw [← hex]
      exact ⟨h.batch, fun hactive => by simp [ConnSystem.handleEvent] at hactive⟩
  | frame io =>
      obtain ⟨-, hne⟩ := hen
      obtain ⟨f, rest, hframes⟩ := List.exists_cons_of_ne_nil hne
      simp only [exec, hframes] at hex
      obtain ⟨⟨x, fs⟩, -, hret⟩ := Except.bind_eq_ok.mp hex
      rw [Except.pure_eq_ok] at hret
      rw [← hret]
      exact ⟨h.batch, h.active⟩
  | swap =>
      obtain ⟨-, -, hactive⟩ := hen
      simp only [exec, Except.ok.injEq] at hex
      rw [← hex]
      exact ⟨Or.inl rfl, fun ha => by simp [hactive] at ha⟩
  | functor io =>
      obtain ⟨-, hphase, hne⟩ := hen
      obtain ⟨f, rest, hbatch⟩ := List.exists_cons_of_ne_nil hne
      simp only [exec, hbatch] at hex
      obtain ⟨⟨x, fs⟩, -, hret⟩ := Except.bind_eq_ok.mp hex
      rw [Except.pure_eq_ok] at hret
      rw [← hret]
      exact ⟨Or.inl hphase, h.active⟩
  | batchEnd =>
      obtain ⟨-, hphase, hbatch⟩ := hen
      simp only [exec, Except.ok.injEq] at hex
      rw [← hex]
      refine ⟨Or.inr hbatch, fun ha => ?_⟩
      exact absurd (h.active ha) (by simp [hphase])
  | shutdown t | shutdownStore t | shutdownRun t | poke p b
  | setWriteCompleteCallback b | setHighWaterMarkCallback b m | queueDestory
  | others p =>
      simp only [exec, Except.ok.injEq] at hex
      rw [← hex]
      exact ⟨h.batch, h.active⟩

theorem Ordered.of_reachable (h : lts.Reachable s) : Ordered s := by
  refine h.induct ?_ ?_
  · intro s₀ h0
    exact ⟨Or.inr h0.batch, fun ha => by simp [h0.active] at ha⟩
  · intro m a m' _ hm hstep
    exact hm.step hstep.1 hstep.2

/-! ### Sorting the steps -/

theorem Aside.refl (s : ConnSystem) : Aside s s := by
  refine ⟨rfl, rfl, rfl, rfl, rfl, rfl, rfl, rfl, rfl, rfl, rfl, [], ?_, ?_⟩
  · simp
  · simp

theorem send_step {t : Tid} {message len : Nat}
    (hen : s.Enabled (.send t message len)) (hex : s.exec (.send t message len) = .ok s') :
    Step s (.send t message len) s' := by
  obtain ⟨hpc, hlen, -⟩ := hen
  obtain ⟨⟨x, pc⟩, hsend, hret⟩ := Except.bind_eq_ok.mp hex
  obtain ⟨bytes, hread, hsend⟩ := Except.bind_eq_ok.mp hsend
  rw [Except.pure_eq_ok] at hret hsend
  by_cases hs : s.conn.state = .kConnected
  · have hconn : s.ctx.connected = true := by simp [Ctx.connected, hs]
    rw [if_pos hconn, Prod.mk.injEq] at hsend
    have hstep := @Step.send s ⟨t, message, len, bytes⟩ hpc hs hlen hread
    rw [← hret, ← hsend.1, ← hsend.2]
    simpa [put, setPc, Ctx.record, ctx] using hstep
  · have hconn : s.ctx.connected = false := by simpa [Ctx.connected] using hs
    rw [hconn, if_neg (by simp), Prod.mk.injEq] at hsend
    have hsame : s' = s := by
      rw [← hret, ← hsend.1, ← hsend.2]
      simp [put, setPc, ctx, ← hpc]
    rw [hsame]
    exact .aside (.refl s)

theorem sendRun_step {t : Tid} {w : WriteResult} (hen : s.Enabled (.sendRun t w))
    (hex : s.exec (.sendRun t w) = .ok s') : Step s (.sendRun t w) s' := by
  obtain ⟨call, hpc⟩ := hen
  simp only [exec, hpc] at hex
  obtain ⟨x, hrun, hret⟩ := Except.bind_eq_ok.mp hex
  obtain ⟨y, hdisp, hrec⟩ := Except.bind_eq_ok.mp hrun
  rw [Except.pure_eq_ok] at hret hrec
  by_cases ht : t = s.loopTid
  · subst ht
    simp only [Ctx.dispatchSend, beq_self_eq_true, if_true] at hdisp
    rw [← hret, ← hrec]
    exact .sendInLoop hpc hdisp
  · have hne : (t == s.loopTid) = false := by simpa using ht
    simp only [Ctx.dispatchSend, hne, Bool.false_eq_true, if_false, Except.ok.injEq] at hdisp
    have hstep := Step.sendQueued (w := w) hpc ht
    rw [← hret, ← hrec, ← hdisp]
    simpa [put, setPc, Ctx.record, Ctx.queueInLoop, ctx] using hstep

theorem shutdown_step {t : Tid} (hpc : s.pcs t = .idle) :
    Step s (.shutdown t) ((s.put (s.ctx.shutdown t).1).setPc t (s.ctx.shutdown t).2) := by
  by_cases hs : s.conn.state = .kConnected
  · have hshut : s.ctx.shutdown t = (s.ctx.record (.shutdownCalled t), .shutdownSeen) := by
      simp [Ctx.shutdown, Ctx.connected, hs]
    have hstep := Step.shutdown (s := s) hpc hs
    rw [hshut]
    simpa [put, setPc, Ctx.record, ctx] using hstep
  · have hshut : s.ctx.shutdown t = (s.ctx.record (.shutdownCalled t), .idle) := by
      simp [Ctx.shutdown, Ctx.connected, hs]
    have hstep := Step.shutdownIgnored (s := s) hpc hs
    rw [hshut]
    simpa [put, setPc, Ctx.record, ctx, ← hpc] using hstep

theorem shutdownRun_step {t : Tid} (hpc : s.pcs t = .shutdownStored) :
    Step s (.shutdownRun t) ((s.put (s.ctx.shutdownRun (t == s.loopTid))).setPc t .idle) := by
  by_cases ht : t = s.loopTid
  · subst ht
    simp only [Ctx.shutdownRun, beq_self_eq_true, if_true]
    exact .shutdownInLoop hpc
  · have hne : (t == s.loopTid) = false := by simpa using ht
    have hstep := Step.shutdownQueued hpc ht
    simp only [Ctx.shutdownRun, hne, Bool.false_eq_true, if_false]
    simpa [put, setPc, Ctx.queueInLoop, ctx] using hstep

theorem step_cases (hord : Ordered s) (h : lts.step s a s') : Step s a s' := by
  obtain ⟨hen, hex⟩ := h
  cases a with
  | send t message len => exact send_step hen hex
  | sendRun t w => exact sendRun_step hen hex
  | shutdown t =>
      simp only [exec, Except.ok.injEq] at hex
      rw [← hex]
      exact shutdown_step hen
  | shutdownStore t =>
      simp only [exec, Except.ok.injEq] at hex
      rw [← hex]
      exact .shutdownStore hen
  | shutdownRun t =>
      simp only [exec, Except.ok.injEq] at hex
      rw [← hex]
      exact shutdownRun_step hen
  | poke p b =>
      simp only [exec, Except.ok.injEq] at hex
      rw [← hex]
      exact .poke hen
  | setWriteCompleteCallback isSet | setHighWaterMarkCallback isSet mark =>
      simp only [exec, Except.ok.injEq] at hex
      rw [← hex]
      exact .aside { Aside.refl s with }
  | queueDestory =>
      simp only [exec, Except.ok.injEq] at hex
      rw [← hex]
      refine .aside { Aside.refl s with todo := ⟨[.connectDestoryed s.conn.channel.id], ?_, ?_⟩ }
      · simp [todo]
      · simp [Functor.isDestory]
  | others poller =>
      obtain ⟨hc, hi⟩ := hen
      simp only [exec, Except.ok.injEq] at hex
      rw [← hex]
      exact .aside { Aside.refl s with channels := hc, interest := hi }
  | poll revents =>
      obtain ⟨hidle, -, hreg⟩ := hen
      simp only [exec, Except.ok.injEq] at hex
      rw [← hex]
      cases revents with
      | none => exact .aside { Aside.refl s with }
      | some revents =>
          obtain ⟨mask, hmask⟩ := hreg rfl
          exact .reported hidle hmask
  | handleEvent =>
      obtain ⟨hidle, hphase, hactive⟩ := hen
      simp only [exec, Except.ok.injEq] at hex
      rw [← hex]
      exact .handleEvent hidle hphase hactive
  | frame io =>
      obtain ⟨hpc, hne⟩ := hen
      obtain ⟨f, rest, hframes⟩ := List.exists_cons_of_ne_nil hne
      simp only [exec, hframes] at hex
      obtain ⟨⟨x, fs⟩, hrun, hret⟩ := Except.bind_eq_ok.mp hex
      rw [Except.pure_eq_ok] at hret
      rw [← hret]
      exact .frame hpc hframes hrun
  | swap =>
      obtain ⟨hidle, hphase, hactive⟩ := hen
      have hbatch : s.batch = [] := hord.batch.resolve_left (by simp [hphase])
      simp only [exec, Except.ok.injEq] at hex
      rw [← hex]
      refine .aside { Aside.refl s with todo := ⟨[], ?_, by simp⟩ }
      simp [todo, hbatch]
  | functor io =>
      obtain ⟨hidle, hphase, hne⟩ := hen
      obtain ⟨f, rest, hbatch⟩ := List.exists_cons_of_ne_nil hne
      simp only [exec, hbatch] at hex
      obtain ⟨⟨x, fs⟩, hrun, hret⟩ := Except.bind_eq_ok.mp hex
      rw [Except.pure_eq_ok] at hret
      rw [← hret]
      exact .functor hidle hphase hbatch hrun
  | batchEnd =>
      obtain ⟨-, -, hbatch⟩ := hen
      simp only [exec, Except.ok.injEq] at hex
      rw [← hex]
      exact .aside { Aside.refl s with }

/-! ### What every step keeps -/

/-- The log only grows. -/
theorem Step.log_grows (h : Step s a s') : ∃ es, s'.log = s.log ++ es := by
  cases h with
  | aside h => exact ⟨[], by simp [h.log]⟩
  | poke h => exact ⟨[], by simp⟩
  | reported idle h => exact ⟨[], by simp [ConnSystem.poll]⟩
  | handleEvent idle phase h => exact ⟨_, rfl⟩
  | send pc state len read => exact ⟨_, rfl⟩
  | @sendInLoop call w x pc h =>
      obtain ⟨es, hes, -⟩ := (Ctx.sendInLoop_outputStep h).log
      exact ⟨es ++ [.returned call], by simp [setPc, hes]⟩
  | sendQueued pc other => exact ⟨_, rfl⟩
  | shutdownIgnored pc state => exact ⟨_, rfl⟩
  | shutdown pc state => exact ⟨_, rfl⟩
  | shutdownStore pc => exact ⟨_, rfl⟩
  | shutdownInLoop pc =>
      obtain ⟨es, hes, -⟩ := (Ctx.shutdownInLoop_outputStep (x := s.ctx)).log
      exact ⟨es, hes⟩
  | shutdownQueued pc other => exact ⟨[], by simp⟩
  | frame pc frames h => exact (Ctx.runFrame_local h).log
  | functor idle phase batch h => exact (Ctx.runFunctor_local h).log

theorem Step.saneWrites (h : Step s a s') (hsane : SaneWrites s'.log) : SaneWrites s.log := by
  obtain ⟨es, hes⟩ := h.log_grows
  rw [hes, saneWrites_append] at hsane
  exact hsane.1

theorem Step.agrees (h : Step s a s') (hag : s.ctx.Agrees) : s'.ctx.Agrees := by
  cases h with
  | aside h =>
      have hag' := hag.congr h.channels h.interest
      simpa only [Ctx.Agrees, ctx_conn, ctx_poller, h.channel] using hag'
  | poke h => exact hag
  | reported idle h => exact hag
  | handleEvent idle phase h => exact hag
  | send pc state len read => exact hag
  | sendInLoop pc h => exact (Ctx.sendInLoop_outputStep h).agrees hag
  | sendQueued pc other => exact hag
  | shutdownIgnored pc state => exact hag
  | shutdown pc state => exact hag
  | shutdownStore pc => exact hag
  | shutdownInLoop pc => exact Ctx.shutdownInLoop_outputStep.agrees hag
  | shutdownQueued pc other => exact hag
  | frame pc frames h => exact (Ctx.runFrame_local h).agrees hag
  | functor idle phase batch h => exact (Ctx.runFunctor_local h).agrees hag

theorem Init.agrees (h : Init s) : s.ctx.Agrees := by
  obtain ⟨wc, hconn⟩ := h.conn
  have hindex : s.conn.channel.index = .kNew := by
    rw [hconn]
    rfl
  simp only [Ctx.Agrees, Channel.Agrees, ctx_conn, ctx_poller, hindex]
  exact ⟨h.channels, h.interest⟩

/-- The channel, the poller's map and the kernel agree in every state. -/
theorem agrees_of_reachable (h : lts.Reachable s) : s.ctx.Agrees := by
  refine h.induct (P := fun s => s.ctx.Agrees) ?_ ?_
  · intro s₀ h0
    exact h0.agrees
  · intro m a m' hm hag hstep
    exact (step_cases (Ordered.of_reachable hm) hstep).agrees hag

/-! ### Up to `connectEstablished` -/

/-- Nothing of the connection has run yet, and the call of `connectEstablished` is the
first thing that will. -/
structure Fresh (s : ConnSystem) : Prop where
  state : s.conn.state = .kConnecting
  index : s.conn.channel.index = .kNew
  events : s.conn.channel.events = 0
  revents : s.conn.channel.revents = 0
  wf : s.conn.outputBuffer.WF
  empty : s.conn.outputBuffer.content = []
  log : ∀ e ∈ s.log, ∃ t, e = .shutdownCalled t
  active : s.active = false
  pcs : ∀ t, s.pcs t = .idle
  handed : (s.frames = [] ∧ ∃ c rest, s.todo = .connectEstablished c :: rest ∧
      ∀ f ∈ rest, f.isDestory = true) ∨
    (s.frames = [.connectEstablished] ∧ ∀ f ∈ s.todo, f.isDestory = true)

/-- What `connectEstablished` leaves. -/
structure Established (s : ConnSystem) : Prop where
  state : s.conn.state = .kConnected
  index : s.conn.channel.index = .kAdded
  events : s.conn.channel.events = Channel.kReadEvent
  revents : s.conn.channel.revents = 0
  wf : s.conn.outputBuffer.WF
  empty : s.conn.outputBuffer.content = []
  log : ∃ es, (∀ e ∈ es, ∃ t, e = .shutdownCalled t) ∧
    s.log = es ++ [.establish, .stored .kConnected, .connectionCallback true]
  active : s.active = false
  pcs : ∀ t, s.pcs t = .idle
  frames : s.frames = []
  todo : ∀ f ∈ s.todo, f.isDestory = true

/-- `connectEstablished` has run and will not run again. -/
structure Started (s : ConnSystem) : Prop where
  state : s.conn.state ≠ .kConnecting
  frames : .connectEstablished ∉ s.frames
  todo : ∀ f ∈ s.todo, f.isEstablish = false

theorem Init.fresh (h : Init s) : Fresh s := by
  obtain ⟨wc, hconn⟩ := h.conn
  have htodo : s.todo = s.queue := by simp [todo, h.batch]
  refine ⟨by rw [hconn]; rfl, by rw [hconn]; rfl, by rw [hconn]; rfl, by rw [hconn]; rfl,
    ?_, ?_, ?_, h.active, h.pcs, ?_⟩
  · rw [hconn]
    exact Buffer.WF.new Buffer.kInitialSize
  · rw [hconn]
    exact Buffer.content_new Buffer.kInitialSize
  · intro e he
    simp [h.log] at he
  · rw [htodo]
    rcases h.handed with ⟨hq, hf⟩ | ⟨hq, hf⟩
    · exact Or.inl ⟨hf, _, [], hq, by simp⟩
    · exact Or.inr ⟨hf, by simp [hq]⟩

theorem Established.started (h : Established s) : Started s where
  state := by simp [h.state]
  frames := by simp [h.frames]
  todo f hf := Functor.isEstablish_of_isDestory (h.todo f hf)

/-- The call of `connectEstablished` itself. -/
theorem Fresh.established {x : Ctx} {rest : List Functor} (h : Fresh s)
    (hx : Ctx.EstablishStep s.ctx x) (hrest : ∀ f ∈ rest, f.isDestory = true)
    (hconn : s'.conn = x.conn) (hlog : s'.log = x.log) (hactive : s'.active = s.active)
    (hpcs : s'.pcs = s.pcs) (hframes : s'.frames = []) (htodo : s'.todo = rest) :
    Established s' := by
  have hevents : s'.conn.channel.events = Channel.kReadEvent := by
    rw [hconn, hx.channel]
    simp [h.events]
  refine ⟨by rw [hconn, hx.state], ?_, hevents, ?_, ?_, ?_, ⟨s.log, h.log, ?_⟩, ?_, ?_, hframes,
    ?_⟩
  · rw [hconn, hx.channel]
    exact Channel.withEvents_index_of_ne (Channel.or_ne_zero Channel.kReadEvent_ne_zero)
  · rw [hconn, hx.channel]
    exact h.revents
  · rw [hconn, hx.output]
    exact h.wf
  · rw [hconn, hx.output]
    exact h.empty
  · rw [hlog, hx.log]
    rfl
  · rw [hactive, h.active]
  · rw [hpcs]
    exact h.pcs
  · rw [htodo]
    exact hrest

theorem Fresh.not_connected (h : Fresh s) : s.conn.state ≠ .kConnected := by
  rw [h.state]
  simp

/-- From a fresh connection nothing leads but `connectEstablished`. -/
theorem Fresh.step (h : Fresh s) (hag : s.ctx.Agrees) (hstep : Step s a s') :
    Fresh s' ∨ Established s' := by
  have hnone : s.poller.interest s.conn.channel.fd = none := by
    simp only [Ctx.Agrees, Channel.Agrees, ctx_conn, h.index] at hag
    exact hag.2
  cases hstep with
  | aside hs =>
      obtain ⟨q, hq, hall⟩ := hs.todo
      refine Or.inl ⟨by rw [hs.state, h.state], by rw [hs.channel, h.index],
        by rw [hs.channel, h.events], by rw [hs.channel, h.revents],
        by rw [hs.output]; exact h.wf,
        by rw [hs.output, h.empty], by rw [hs.log]; exact h.log, by rw [hs.active, h.active],
        by rw [hs.pcs]; exact h.pcs, ?_⟩
      rw [hs.frames, hq]
      rcases h.handed with ⟨hf, c, rest, htodo, hrest⟩ | ⟨hf, htodo⟩
      · refine Or.inl ⟨hf, c, rest ++ q, by rw [htodo, List.cons_append], ?_⟩
        intro f hf
        rcases List.mem_append.mp hf with hf | hf
        · exact hrest f hf
        · exact hall f hf
      · refine Or.inr ⟨hf, ?_⟩
        intro f hf
        rcases List.mem_append.mp hf with hf | hf
        · exact htodo f hf
        · exact hall f hf
  | poke hp => exact Or.inl { h with }
  | reported idle hreg =>
      rw [hnone] at hreg
      simp at hreg
  | handleEvent idle phase hactive =>
      rw [h.active] at hactive
      simp at hactive
  | send pc state len read => exact absurd state h.not_connected
  | sendInLoop pc hx | sendQueued pc other | shutdownStore pc | shutdownInLoop pc
  | shutdownQueued pc other =>
      rw [h.pcs] at pc
      simp at pc
  | shutdownIgnored pc state =>
      refine Or.inl { h with log := ?_ }
      intro e he
      rcases List.mem_append.mp he with he | he
      · exact h.log e he
      · exact ⟨_, List.mem_singleton.mp he⟩
  | shutdown pc state => exact absurd state h.not_connected
  | @frame f rest io x fs pc frames hx =>
      rcases h.handed with ⟨hf, -⟩ | ⟨hf, htodo⟩
      · rw [hf] at frames
        simp at frames
      · rw [hf, List.cons.injEq] at frames
        obtain ⟨rfl, rfl⟩ := frames
        obtain ⟨hest, rfl⟩ := Ctx.runFrame_connectEstablished hx
        have hpending : x.pending = [] := hest.pending
        refine Or.inr (h.established hest htodo rfl rfl rfl rfl rfl ?_)
        simp [todo, hpending]
  | @functor f rest io x fs idle phase batch hx =>
      rcases h.handed with ⟨hf, c, rest', htodo, hrest⟩ | ⟨hf, -⟩
      · rw [todo, batch, List.cons_append, List.cons.injEq] at htodo
        obtain ⟨rfl, rfl⟩ := htodo
        obtain ⟨hest, rfl⟩ := Ctx.runFunctor_connectEstablished hx
        have hpending : x.pending = [] := hest.pending
        refine Or.inr (h.established hest hrest rfl rfl rfl rfl rfl ?_)
        simp [todo, hpending]
      · rw [idle.frames] at hf
        simp at hf

/-- A piece of code queues user callbacks only, whatever is left of the batch. -/
theorem mem_todo_put {x : Ctx} {batch : List Functor} (hx : Ctx.Local s.ctx x) {f : Functor}
    (hf : f ∈ batch ++ (s.queue ++ x.pending)) :
    f ∈ batch ++ s.queue ∨ f.isUserCallback = true := by
  obtain ⟨q, hq, hall⟩ := hx.pending
  rw [hq, ← List.append_assoc] at hf
  rcases List.mem_append.mp hf with hf | hf
  · exact Or.inl hf
  · exact Or.inr (hall f (by simpa using hf))

/-- No step of a started connection makes it connect again. -/
theorem started_step (h : Started s) (hstep : Step s a s') : Started s' := by
  have hput {x : Ctx} (hx : Ctx.Local s.ctx x) :
      ∀ f ∈ s.batch ++ (s.queue ++ x.pending), f.isEstablish = false := by
    intro f hf
    rcases mem_todo_put hx hf with hf | hf
    · exact h.todo f hf
    · exact Functor.isEstablish_of_isUserCallback hf
  cases hstep with
  | aside hs =>
      obtain ⟨q, hq, hall⟩ := hs.todo
      refine ⟨by rw [hs.state]; exact h.state, by rw [hs.frames]; exact h.frames, ?_⟩
      rw [hq]
      intro f hf
      rcases List.mem_append.mp hf with hf | hf
      · exact h.todo f hf
      · exact Functor.isEstablish_of_isDestory (hall f hf)
  | poke hp => exact { h with }
  | reported idle hreg => exact { h with }
  | handleEvent idle phase hactive =>
      exact { h with frames := by simp [ConnSystem.handleEvent, Ctx.handelEventWithGuard] }
  | send pc state len read => exact { h with }
  | shutdownIgnored pc state => exact { h with }
  | shutdown pc state => exact { h with }
  | shutdownStore pc =>
      exact ⟨by simp [setPc, Ctx.shutdownStore], h.frames, hput (x := s.ctx) (.refl _)⟩
  | @sendInLoop call w x pc hx =>
      have hout := Ctx.sendInLoop_outputStep hx
      refine ⟨?_, h.frames, hput (hout.local.trans (.record (.returned call)))⟩
      show x.conn.state ≠ .kConnecting
      rw [hout.state]
      exact h.state
  | shutdownInLoop pc =>
      have hout := Ctx.shutdownInLoop_outputStep (x := s.ctx)
      refine ⟨?_, h.frames, hput hout.local⟩
      show s.ctx.shutdownInLoop.conn.state ≠ .kConnecting
      rw [hout.state]
      exact h.state
  | sendQueued pc other | shutdownQueued pc other =>
      refine ⟨h.state, h.frames, ?_⟩
      intro f hf
      simp only [todo, ← List.append_assoc] at hf
      rcases List.mem_append.mp hf with hf | hf
      · exact h.todo f hf
      · rw [List.mem_singleton.mp hf]
        rfl
  | @frame f rest io x fs pc frames hx =>
      have hne : f ≠ .connectEstablished := by
        rintro rfl
        exact h.frames (by simp [frames])
      have hrest : .connectEstablished ∉ rest := fun hmem => h.frames (by simp [frames, hmem])
      obtain ⟨hstate, hfs⟩ := Ctx.runFrame_started hne h.state hx
      refine ⟨hstate, ?_, hput (Ctx.runFrame_local hx)⟩
      intro hmem
      rcases List.mem_append.mp hmem with hmem | hmem
      · exact hfs hmem
      · exact hrest hmem
  | @functor f rest io x fs idle phase batch hx =>
      have hf : f.isEstablish = false := h.todo f (by simp [todo, batch])
      obtain ⟨hstate, hfs⟩ := Ctx.runFunctor_started hf h.state hx
      refine ⟨hstate, hfs, ?_⟩
      intro g hg
      rcases mem_todo_put (Ctx.runFunctor_local hx) hg with hg | hg
      · exact h.todo g (by rw [todo, batch]; exact List.mem_cons_of_mem f hg)
      · exact Functor.isEstablish_of_isUserCallback hg

/-! ### Induction over runs -/

variable {C : ConnSystem → Action → Prop}

/-- The invariant rule, with what comes before `connectEstablished` dealt with. -/
theorem reachable_induct {P : ConnSystem → Prop} (h : (lts.restrict C).Reachable s)
    (h0 : ∀ m, Established m → P m)
    (hstep : ∀ m a m', lts.Reachable m → Started m → P m → C m a → m.Enabled a → Step m a m' →
      P m') : Fresh s ∨ (Started s ∧ P s) := by
  refine h.induct (P := fun s => Fresh s ∨ (Started s ∧ P s)) ?_ ?_
  · intro s₀ hinit
    exact Or.inl hinit.fresh
  · rintro m a m' hm hP ⟨hC, hs⟩
    have hr : lts.Reachable m := hm.of_restrict
    have hs' : Step m a m' := step_cases (Ordered.of_reachable hr) hs
    rcases hP with hfresh | ⟨hstarted, hP⟩
    · rcases hfresh.step (agrees_of_reachable hr) hs' with hfresh' | hest
      · exact Or.inl hfresh'
      · exact Or.inr ⟨hest.started, h0 _ hest⟩
    · exact Or.inr ⟨started_step hstarted hs', hstep m a m' hr hstarted hP hC hs.1 hs'⟩

/-- The same along runs in which every write result so far is sane. -/
theorem sane_induct {P : ConnSystem → Prop} (h : (lts.restrict C).Reachable s)
    (hsane : SaneWrites s.log) (h0 : ∀ m, Established m → P m)
    (hstep : ∀ m a m', lts.Reachable m → Started m → P m → SaneWrites m'.log → C m a →
      m.Enabled a → Step m a m' → P m') : Fresh s ∨ (Started s ∧ P s) := by
  have key : Fresh s ∨ (Started s ∧ (SaneWrites s.log → P s)) := by
    refine reachable_induct (P := fun s => SaneWrites s.log → P s) h ?_ ?_
    · intro m hm _
      exact h0 m hm
    · intro m a m' hr hm hP hC hen hs hsane'
      exact hstep m a m' hr hm (hP (hs.saneWrites hsane')) hsane' hC hen hs
  rcases key with hfresh | ⟨hstarted, hP⟩
  · exact Or.inl hfresh
  · exact Or.inr ⟨hstarted, hP hsane⟩

end ConnSystem

end Muduo
