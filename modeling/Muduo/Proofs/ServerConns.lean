/-
What holds of one connection holds of every connection of a server.

`exists_run` is the refinement: what a connection of a standing server has done is what it
does in some run of its own system, also after its object is gone.  Everything known of those
runs is then known of each connection, whatever the others do in between: its bytes go out in
order, its callbacks come in order and are complete when it is gone, and the epoll set of its
loop has it exactly while it is up, for writing exactly while it has unsent output.
-/
import Muduo.Proofs.Lifecycle

namespace Muduo

open Transcript

namespace ConnSystem

variable {s s' : ConnSystem} {a : Action}

/-! ### On its own loop no call is given up -/

/-- Every `sendInLoop` that ran took its message. -/
def NoneGivenUp (s : ConnSystem) : Prop := settled s.log = ranCalls s.log

theorem NoneGivenUp.of_noCall (h : NoneGivenUp s)
    (hlog : ∃ es, s'.log = s.log ++ es ∧ ∀ e ∈ es, e.isCall = false) : NoneGivenUp s' := by
  obtain ⟨es, hes, hall⟩ := hlog
  unfold NoneGivenUp
  rw [hes, settled_append, ranCalls_append, settled_of_noCall hall, ranCalls_of_noCall hall,
    List.append_nil, List.append_nil]
  exact h

theorem NoneGivenUp.sendInLoop (h : NoneGivenUp s) {call : SendCall} {w : WriteResult} {x : Ctx}
    (hstate : s.conn.state ≠ .kDisconnected) (hx : s.ctx.sendInLoop s.mem call w = .ok x) :
    settled x.log = ranCalls x.log := by
  rcases Ctx.sendInLoop_log hx with ⟨hs, -⟩ | ⟨-, es, bytes, hes, hall⟩
  · exact absurd hs hstate
  · have hcall := fun e he => Entry.isCall_of_isWrite (hall e he)
    have hold : settled s.log = ranCalls s.log := h
    simp [hes, settled_of_noCall hcall, ranCalls_of_noCall hcall, Entry.settledOf, Entry.ranOf,
      hold]

theorem NoneGivenUp.step (h : NoneGivenUp s) (hloop : OnLoop s) (hstep : Step s a s') :
    NoneGivenUp s' := by
  cases hstep with
  | aside hs => exact h.of_noCall ⟨[], by simp [hs.log], by simp⟩
  | poke hp => exact h
  | reported idle hreg => exact h
  | handleEvent idle phase hactive => exact h.of_noCall ⟨_, rfl, by simp [Entry.isCall]⟩
  | shutdownIgnored pc state | shutdown pc state | shutdownStore pc =>
      exact h.of_noCall ⟨_, rfl, by simp [Entry.isCall]⟩
  | shutdownInLoop pc => exact h.of_noCall Ctx.shutdownInLoop_log
  | shutdownQueued pc other => exact h.of_noCall ⟨[], by simp, by simp⟩
  | send pc state len read | sendQueued pc other =>
      simpa [NoneGivenUp, Entry.settledOf, Entry.ranOf] using h
  | @sendInLoop call w x pc hx =>
      have hran := h.sendInLoop (by simp [hloop.calling call pc]) hx
      show settled (x.log ++ [.returned call]) = ranCalls (x.log ++ [.returned call])
      simpa [Entry.settledOf, Entry.ranOf] using hran
  | frame pc frames hx =>
      refine h.of_noCall ?_
      rcases Ctx.runFrame_quiet hx with hquiet | ⟨-, -, -, hwrite⟩
      · obtain ⟨es, hes, hall⟩ := hquiet.log
        exact ⟨es, hes, fun e he => (hall e he).2⟩
      · exact Ctx.handleWrite_noCall hwrite
  | functor idle phase batch hx =>
      refine h.of_noCall ?_
      rcases Ctx.runFunctor_quiet hx with ⟨hquiet, -⟩ | ⟨c, call, rfl, -, -⟩ | ⟨c, rfl, -, rfl⟩
      · obtain ⟨es, hes, hall⟩ := hquiet.log
        exact ⟨es, hes, fun e he => (hall e he).2⟩
      · have hmem : .sendInLoop c call ∈ s.todo := by simp [todo, batch]
        have hcall := (hloop.todo _ hmem).1
        simp [Functor.callOf] at hcall
      · exact Ctx.shutdownInLoop_log

/-! ### While it is up the poller watches it -/

/-- A connection that is up has its channel in the epoll set. -/
def Watched (s : ConnSystem) : Prop := s.conn.state ≠ .kDisconnected → Registered s

/-- `connectDestoryed` begins after the close callback. -/
theorem Orderly.closed_of_begun (h : Orderly s) (hmem : .destoryBegin ∈ s.log) :
    .closeCallback ∈ s.log := by
  obtain ⟨before, after, hlog⟩ := List.append_of_mem hmem
  have hclosed : .closeCallback ∈ before := h.inTurn before _ after hlog
  rw [hlog]
  exact List.mem_append_left _ hclosed

/-- `connectDestoryed` of a connection that is up has not begun. -/
theorem Orderly.not_begun (h : Orderly s) (hopen : s.conn.state ≠ .kDisconnected) :
    .destoryBegin ∉ s.log :=
  fun hmem => hopen (h.disciplined.discipline.closed_state (h.closed_of_begun hmem))

theorem Watched.close {y x : Ctx} (hx : Ctx.CloseStep y x) : Watched (s.put x) :=
  fun hopen => absurd hx.state hopen

theorem Watched.frame (h : Watched s) (hord : Orderly s) (hstarted : Started s) {f : Frame}
    {rest : List Frame} {io : Io} {x : Ctx} {fs : List Frame} (frames : s.frames = f :: rest)
    (hx : s.ctx.runFrame io f = .ok (x, fs)) : Watched (s.put x) := by
  have hmem : f ∈ s.frames := by simp [frames]
  cases f with
  | connectEstablished => exact absurd hmem hstarted.frames
  | closePart =>
      rcases Ctx.runFrame_closePart hx with ⟨rfl, -⟩ | ⟨-, -, hclose, -⟩
      · exact h
      · exact Watched.close hclose
  | errorPart =>
      obtain ⟨rfl, -⟩ := Ctx.runFrame_errorPart hx
      exact h
  | readPart =>
      rcases Ctx.runFrame_readPart hx with ⟨rfl, -⟩ | ⟨-, y, hread, ⟨rfl, -⟩ | ⟨hclose, -⟩⟩
      · exact h
      · intro hopen
        have hopen : y.conn.state ≠ .kDisconnected := hopen
        rw [hread.state] at hopen
        show y.conn.channel.index = .kAdded ∧ y.conn.channel.isReading = true
        rw [hread.channel]
        exact h hopen
      · exact Watched.close hclose
  | writePart =>
      obtain ⟨-, rfl | ⟨-, hwrite⟩⟩ := Ctx.runFrame_writePart hx
      · exact h
      · have hout := Ctx.handleWrite_outputStep hwrite
        intro hopen
        have hopen : x.conn.state ≠ .kDisconnected := hopen
        rw [hout.state] at hopen
        exact Discipline.registered_output hout (h hopen)
  | closeCallback =>
      obtain ⟨rfl, -⟩ := Ctx.runFrame_closeCallback hx
      exact h
  | destoryStore => exact Watched.close (Ctx.runFrame_destoryStore hx).1
  | destoryRemove =>
      obtain ⟨hremove, -⟩ := Ctx.runFrame_destoryRemove hx
      intro hopen
      have hopen : x.conn.state ≠ .kDisconnected := hopen
      rw [hremove.state] at hopen
      have hnone := (hord.destruction.before (hord.not_begun hopen)).2 _ hmem
      simp [Frame.isDestory] at hnone

theorem Watched.functor (h : Watched s) (hloop : OnLoop s) (hstarted : Started s) {f : Functor}
    {rest : List Functor} {io : Io} {x : Ctx} {fs : List Frame} (batch : s.batch = f :: rest)
    (hx : s.ctx.runFunctor s.mem io f = .ok (x, fs)) : Watched (s.put x) := by
  have hmem : f ∈ s.todo := by simp [todo, batch]
  obtain ⟨hcall, hshut⟩ := hloop.todo f hmem
  cases f with
  | sendInLoop c call => simp [Functor.callOf] at hcall
  | shutdownInLoop c => simp [Functor.isShutdown] at hshut
  | connectEstablished c =>
      have hest := hstarted.todo _ hmem
      simp [Functor.isEstablish] at hest
  | writeComplete c | highWaterMark c n =>
      obtain ⟨rfl, -⟩ := Ctx.runFunctor_userCallback rfl hx
      exact h
  | removeConnectionInLoop c =>
      obtain ⟨rfl, -⟩ := Ctx.runFunctor_removeConnectionInLoop hx
      exact h
  | connectDestoryed c =>
      obtain ⟨rfl, -⟩ := Ctx.runFunctor_connectDestoryed hx
      exact h

theorem Watched.step (h : Watched s) (hord : Orderly s) (hstarted : Started s)
    (hstep : Step s a s') : Watched s' := by
  have hloop := hord.disciplined.run.onLoop
  cases hstep with
  | aside hs =>
      intro hopen
      rw [hs.state] at hopen
      show s'.conn.channel.index = .kAdded ∧ s'.conn.channel.isReading = true
      rw [hs.channel]
      exact h hopen
  | poke hp => exact h
  | reported idle hreg => exact h
  | handleEvent idle phase hactive => exact h
  | send pc state len read | shutdownIgnored pc state | shutdown pc state
  | sendQueued pc other | shutdownQueued pc other => exact h
  | @sendInLoop call w x pc hx =>
      intro _
      have hopen : s.conn.state ≠ .kDisconnected := by simp [hloop.calling call pc]
      have hkeep : Registered (s.put x) :=
        Discipline.registered_output (Ctx.sendInLoop_outputStep hx) (h hopen)
      exact hkeep
  | @shutdownStore t pc =>
      intro _
      have ht : t = s.loopTid := hloop.eq_loopTid (by simp [pc])
      rw [ht] at pc
      exact h (by simp [hloop.seen pc])
  | shutdownInLoop pc =>
      intro hopen
      have hconn : s.ctx.shutdownInLoop.conn = s.conn := Ctx.shutdownInLoop_conn
      have hopen : s.ctx.shutdownInLoop.conn.state ≠ .kDisconnected := hopen
      show s.ctx.shutdownInLoop.conn.channel.index = .kAdded ∧
        s.ctx.shutdownInLoop.conn.channel.isReading = true
      rw [hconn] at hopen ⊢
      exact h hopen
  | frame pc frames hx => exact h.frame hord hstarted frames hx
  | functor idle phase batch hx => exact h.functor hloop hstarted batch hx

/-! ### What has been sent -/

/-- On the loop's thread the calls have run in the order they were made, but for one that the
thread may be inside of. -/
theorem called_eq (hcalls : Calls s) (hloop : OnLoop s) :
    called s.log = settled s.log ++ (s.pcs s.loopTid).callOf := by
  refine eq_of_byThread (t := s.loopTid) ?_ hloop.callers
  intro u
  rw [hcalls.order u, hloop.queuedCalls_eq_nil, byThread_append]
  have hown : ∀ call ∈ (s.pcs s.loopTid).callOf, call.thread = s.loopTid := fun call hcall =>
    (hcalls.calling s.loopTid call hcall).1
  by_cases hu : u = s.loopTid
  · rw [hu, byThread_eq_self hown]
    simp [byThread]
  · have hidle : s.pcs u = .idle := hloop.others u hu
    have hnone : byThread u (s.pcs s.loopTid).callOf = [] :=
      byThread_eq_nil fun call hcall hthread => hu (hthread.symm.trans (hown call hcall))
    rw [hnone, hidle]
    simp [byThread, CallPc.callOf]

/-! ### Along a run -/

/-- What the server relies on, of a connection that has come up. -/
structure Served (s : ConnSystem) : Prop where
  noneGivenUp : NoneGivenUp s
  watched : Watched s

theorem Established.served (h : Established s) : Served s where
  noneGivenUp := by
    have hcall := fun e he => (h.noCall e he).2
    rw [NoneGivenUp, settled_of_noCall hcall, ranCalls_of_noCall hcall]
  watched _ := ⟨h.index, by simp [Channel.isReading, h.events, Channel.kReadEvent, Events.has,
    EPOLLIN, EPOLLPRI]⟩

theorem Started.orderly (h : Started s) (hr : (lts.restrict Ordinary).Reachable s) :
    Orderly s := by
  rcases orderly_of_reachable hr with hfresh | ⟨-, hord⟩
  · exact absurd hfresh.state h.state
  · exact hord

theorem served_of_reachable (h : (lts.restrict Ordinary).Reachable s) :
    Fresh s ∨ (Started s ∧ Served s) := by
  refine h.induct (P := fun s => Fresh s ∨ (Started s ∧ Served s))
    (fun s₀ h0 => .inl h0.fresh) ?_
  rintro m a m' hm hP ⟨-, hs⟩
  have hr : lts.Reachable m := hm.of_restrict
  have hstep : Step m a m' := step_cases (Ordered.of_reachable hr) hs
  rcases hP with hfresh | ⟨hstarted, hserved⟩
  · rcases hfresh.step (agrees_of_reachable hr) hstep with hfresh' | hest
    · exact .inl hfresh'
    · exact .inr ⟨hest.started, hest.served⟩
  · have hord := hstarted.orderly hm
    have hrun := hord.disciplined.run
    exact .inr ⟨started_step hstarted hstep, hserved.noneGivenUp.step hrun.onLoop hstep,
      hserved.watched.step hord hstarted hstep⟩

end ConnSystem

namespace TcpServer

variable {s s' : TcpServer} {a : Action} {l : LoopId} {c d : ConnId} {x x' : Accepted} {fd : Fd}

/-- What a connection of a standing server has done, it does in a run of its own system; while
it is alive it is in the state that run has come to. -/
theorem exists_run (h : (lts.restrict Ordinary).Reachable s) (hc : s.conns c = some x) :
    ∃ v, (ConnSystem.lts.restrict ConnSystem.Ordinary).Reachable v ∧ v.log = x.log ∧
      v.conn.channel.fd = x.conn.channel.fd ∧ (s.Alive c → v = s.view c x) := by
  have hall : ∀ c x, s.conns c = some x → ∃ v,
      (ConnSystem.lts.restrict ConnSystem.Ordinary).Reachable v ∧ v.log = x.log ∧
        v.conn.channel.fd = x.conn.channel.fd ∧ (s.Alive c → v = s.view c x) := by
    refine h.induct (P := fun s => ∀ c x, s.conns c = some x → ∃ v,
      (ConnSystem.lts.restrict ConnSystem.Ordinary).Reachable v ∧ v.log = x.log ∧
        v.conn.channel.fd = x.conn.channel.fd ∧ (s.Alive c → v = s.view c x)) ?_ ?_
    · intro s₀ h0 c x hc
      rw [h0.conns] at hc
      simp at hc
    · intro m a m' hm hP hstep c x' hc
      have hstand := standing_of_reachable hm
      have hcases := step_cases hstand.wired hstep.2
      by_cases hwas : m.Alive c ∨ m.conns c = none
      · exact ⟨m'.view c x', hstand.run hstep.1 hcases hc hwas, rfl, rfl, fun _ => rfl⟩
      · -- it was gone before the step, and stays as it was
        rw [not_or] at hwas
        obtain ⟨x, hx⟩ := Option.ne_none_iff_exists'.mp hwas.2
        obtain ⟨v, hv, hlog, hfd, -⟩ := hP c x hx
        obtain ⟨hfd', hlog'⟩ := hcases.kept hstand.wired hx hc
        refine ⟨v, hv, hlog.trans (hlog' hwas.1).symm, hfd.trans hfd'.symm, ?_⟩
        intro halive
        exact absurd (hcases.alive hstand.wired hx halive) hwas.1
  exact hall c x hc

/-! ### The bytes -/

/-- What a connection has written is a prefix of the messages it was asked to send, in the order
of the calls, and while it is alive what is missing is in its output buffer or the message of a
call that has not run. -/
theorem output_in_order (h : (lts.restrict Ordinary).Reachable s) (hc : s.conns c = some x)
    (hsane : SaneWrites x.log) :
    written x.log <+: (called x.log).flatMap SendCall.bytes ∧
      (s.Alive c → ∃ calling, calling.length ≤ 1 ∧ called x.log = ranCalls x.log ++ calling ∧
        written x.log ++ x.conn.outputBuffer.content =
          (ranCalls x.log).flatMap SendCall.bytes) := by
  obtain ⟨v, hv, hlog, -, hview⟩ := exists_run h hc
  rcases ConnSystem.served_of_reachable hv with hfresh | ⟨hstarted, hserved⟩
  · have hcall := fun e he => (hfresh.noCall e he).2
    have hout : written v.log = [] := written_of_noOutput fun e he => (hfresh.noCall e he).1
    rw [← hlog, hout, called_of_noCall hcall, ranCalls_of_noCall hcall]
    refine ⟨List.nil_prefix, fun halive => ⟨[], by simp, rfl, ?_⟩⟩
    have hempty : (s.view c x).conn.outputBuffer.content = [] := by
      rw [← hview halive]
      exact hfresh.empty
    rw [show x.conn.outputBuffer.content = [] from hempty]
    rfl
  · have hrun := (hstarted.orderly hv).disciplined.run
    rw [← hlog] at hsane ⊢
    obtain ⟨hflow, -, hkept⟩ := hrun.graceful.sane hsane
    have hran : ranCalls v.log = settled v.log := hserved.noneGivenUp.symm
    have hcalled : called v.log = ranCalls v.log ++ (v.pcs v.loopTid).callOf := by
      rw [hran]
      exact ConnSystem.called_eq hrun.graceful.calls hrun.onLoop
    have hconserved : written v.log ++ v.conn.outputBuffer.content =
        (ranCalls v.log).flatMap SendCall.bytes := by
      rw [← taken_eq_messages hkept.ran]
      exact hflow.conserved
    refine ⟨?_, fun halive => ⟨_, ?_, hcalled, ?_⟩⟩
    · rw [hcalled, List.flatMap_append, ← hconserved, List.append_assoc]
      exact List.prefix_append ..
    · cases v.pcs v.loopTid <;> simp [CallPc.callOf]
    · rw [← hconserved, hview halive]
      rfl

/-- Bytes 10, 11 and 12 are sent on connection 1 from its loop; the kernel takes the first. -/
def sending : List Action :=
  [.poke 100 (some 10), .poke 101 (some 11), .poke 102 (some 12), .hold 11 1, .send 11 1 100 3,
    .sendRun 11 1 { ret := 1, errno := .EWOULDBLOCK }]

theorem output_in_order_sending : ∃ x : Accepted, written x.log = [10] ∧
    written x.log ++ x.conn.outputBuffer.content = [10, 11, 12] ∧
      written x.log <+: (called x.log).flatMap SendCall.bytes := by
  obtain ⟨s, hr, x, hx, hsane, hwritten, hcontent⟩ := exists_of_run Ordinary
    (connecting ++ sending)
    (fun s => ∃ x ∈ s.conns 1, SaneWrites x.log ∧ written x.log = [10] ∧
      written x.log ++ x.conn.outputBuffer.content = [10, 11, 12]) (by decide +kernel)
  exact ⟨x, hwritten, hcontent, (output_in_order hr hx hsane).1⟩

/-! ### The epoll sets -/

/-- The connection has come up and has not gone down. -/
def IsUp (x : Accepted) : Prop :=
  x.conn.state = .kConnected ∨ x.conn.state = .kDisconnecting

/-- A channel that the kernel watches is that of a connection that is up. -/
theorem isUp_of_added (hrun : (ConnSystem.lts.restrict ConnSystem.Ordinary).Reachable (s.view c x))
    (hindex : x.conn.channel.index = .kAdded) : IsUp x := by
  rcases ConnSystem.orderly_of_reachable hrun with hfresh | ⟨hstarted, hord⟩
  · have hnew : x.conn.channel.index = .kNew := hfresh.index
    rw [hindex] at hnew
    simp at hnew
  · have hopen : x.conn.state ≠ .kDisconnected := fun hs =>
      (hord.disciplined.discipline.closed hs).1.index hindex
    have hcame : x.conn.state ≠ .kConnecting := hstarted.state
    unfold IsUp
    cases hs : x.conn.state with
    | kConnected => exact .inl rfl
    | kDisconnecting => exact .inr rfl
    | kDisconnected => exact absurd hs hopen
    | kConnecting => exact absurd hs hcame

/-- What is known of a connection that is up. -/
theorem served_of_isUp
    (hrun : (ConnSystem.lts.restrict ConnSystem.Ordinary).Reachable (s.view c x)) (hup : IsUp x) :
    ConnSystem.Started (s.view c x) ∧ ConnSystem.Served (s.view c x) ∧
      x.conn.state ≠ .kDisconnected := by
  have hne : x.conn.state ≠ .kConnecting ∧ x.conn.state ≠ .kDisconnected := by
    rcases hup with hs | hs <;> simp [hs]
  rcases ConnSystem.served_of_reachable hrun with hfresh | ⟨hstarted, hserved⟩
  · exact absurd hfresh.state hne.1
  · exact ⟨hstarted, hserved, hne.2⟩

/-- Each connection comes up once and before anything else, then has its messages, then goes
down at most once, and is closed at most once after that; one that is gone has been through all
of it. -/
theorem callbacks_in_turn (h : (lts.restrict Ordinary).Reachable s) (hc : s.conns c = some x) :
    (callbacks x.log = [] ∨ ∃ n, ∃ ending ∈ [[], [.connectionCallback false],
        [.connectionCallback false, .closeCallback]],
      callbacks x.log = upTo n ++ ending) ∧
    (¬ s.Alive c → ∃ n, callbacks x.log =
      upTo n ++ [.connectionCallback false, .closeCallback]) := by
  obtain ⟨v, hv, hlog, -, -⟩ := exists_run h hc
  have hstand := standing_of_reachable h
  rw [← hlog]
  rcases ConnSystem.orderly_of_reachable hv with hfresh | ⟨-, hord⟩
  · refine ⟨.inl (callbacks_of_noCallback ?_), ?_⟩
    · intro e he
      obtain ⟨t, rfl⟩ := hfresh.log e he
      rfl
    · intro hdead
      have hend := hstand.lives.ended c x hc hdead
      rw [← hlog] at hend
      obtain ⟨t, ht⟩ := hfresh.log _ hend
      simp at ht
  · have hdis := hord.disciplined.discipline
    refine ⟨.inr ?_, ?_⟩
    · by_cases hs : v.conn.state = .kDisconnected
      · obtain ⟨-, ⟨n, hn⟩ | ⟨⟨n, hn⟩, -⟩⟩ := hdis.closed hs
        · exact ⟨n, [.connectionCallback false], by simp, hn⟩
        · exact ⟨n, [.connectionCallback false, .closeCallback], by simp, hn⟩
      · obtain ⟨⟨n, hn⟩, -⟩ := hdis.opened hs
        exact ⟨n, [], by simp, by rw [hn, List.append_nil]⟩
    · intro hdead
      have hend := hstand.lives.ended c x hc hdead
      rw [← hlog] at hend
      have hbegin := hord.destruction.begun_of_end hend
      obtain ⟨before, after, heq⟩ := List.append_of_mem hbegin
      have hclosed : .closeCallback ∈ v.log := by
        rw [heq]
        exact List.mem_append_left _ (hord.inTurn before _ after heq)
      obtain ⟨-, ⟨n, hn⟩ | ⟨hcl, -⟩⟩ := hdis.closed (hdis.closed_state hclosed)
      · -- a close callback is one of the callbacks
        have hmem : Entry.closeCallback ∈ callbacks v.log :=
          List.mem_filter.mpr ⟨hclosed, rfl⟩
        rw [hn] at hmem
        simp [upTo, List.mem_replicate] at hmem
      · exact hcl

/-- Connection 1 is gone without having had a message. -/
theorem callbacks_in_turn_gone : ∃ (s : TcpServer) (x : Accepted), s.conns 1 = some x ∧
    ∃ n, callbacks x.log = upTo n ++ [.connectionCallback false, .closeCallback] := by
  obtain ⟨s, hr, hdead, x, hx⟩ := exists_of_run Ordinary
    (connecting ++ closing ++ turn 0 1 ++ destroying ++ [Action.batchEnd 1])
    (fun s => ¬ s.Alive 1 ∧ ∃ x ∈ s.conns 1, .destoryEnd ∈ x.log) (by decide +kernel)
  exact ⟨s, x, hx.1, (callbacks_in_turn hr hx.1).2 hdead⟩

end TcpServer

end Muduo
