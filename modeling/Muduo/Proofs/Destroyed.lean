/-
What is left of a connection after `connectDestoryed`.

`connectDestoryed` stores `kDisconnected` only if it finds `kConnected`, and then removes the
channel.  A functor that runs later is stopped by `kDisconnected` and by nothing else.  So
the connection stays out of the poller as long as `connectDestoryed` does not find
`kDisconnecting`, and no `shutdown` stores that afterwards.
-/
import Muduo.Proofs.State

namespace Muduo

open Transcript

namespace Ctx

variable {x x' : Ctx}

/-- In `kDisconnected` no functor touches the connection. -/
theorem runFunctor_disconnected {mem : Mem} {io : Io} {f : Functor} {fs : List Frame}
    (hf : f.isEstablish = false) (hs : x.conn.state = .kDisconnected)
    (h : x.runFunctor mem io f = .ok (x', fs)) : x'.conn = x.conn := by
  cases f with
  | sendInLoop c call =>
      obtain ⟨hsend, -⟩ := runFunctor_sendInLoop h
      rw [sendInLoop_disconnected hs, Except.ok.injEq] at hsend
      rw [← hsend]
      rfl
  | shutdownInLoop c =>
      obtain ⟨rfl, -⟩ := runFunctor_shutdownInLoop h
      exact shutdownInLoop_conn
  | connectEstablished c => simp [Functor.isEstablish] at hf
  | connectDestoryed c =>
      obtain ⟨rfl, -⟩ := runFunctor_connectDestoryed h
      rfl
  | writeComplete c | highWaterMark c n =>
      obtain ⟨rfl, -⟩ := runFunctor_userCallback rfl h
      rfl
  | removeConnectionInLoop c =>
      obtain ⟨rfl, -⟩ := runFunctor_removeConnectionInLoop h
      rfl

end Ctx

namespace ConnSystem

variable {s s' : ConnSystem} {a : Action}

/-- `connectDestoryed` does not start in `kDisconnecting`, and once it has started `shutdown`
does not store to `kDisconnected`. -/
def DestroysClosed (s : ConnSystem) : Action → Prop
  | .functor _ => (∃ f ∈ s.batch.head?, f.isDestory = true) → s.conn.state ≠ .kDisconnecting
  | .shutdownStore _ => .destoryBegin ∈ s.log → s.conn.state ≠ .kDisconnected
  | _ => True

instance (s : ConnSystem) (a : Action) : Decidable (DestroysClosed s a) :=
  match a with
  | .functor _ => inferInstanceAs
      (Decidable ((∃ f ∈ s.batch.head?, f.isDestory = true) → s.conn.state ≠ .kDisconnecting))
  | .shutdownStore _ =>
      inferInstanceAs (Decidable (.destoryBegin ∈ s.log → s.conn.state ≠ .kDisconnected))
  | .send _ _ _ | .sendRun _ _ | .shutdown _ | .shutdownRun _ | .poke _ _
  | .setWriteCompleteCallback _ | .setHighWaterMarkCallback _ _ | .queueDestory | .others _
  | .poll _ | .handleEvent | .frame _ | .swap | .batchEnd => .isTrue trivial

/-- Where `connectDestoryed` is, once it has begun. -/
inductive Destroying (s : ConnSystem) : Prop
  | storing (frames : s.frames = [.destoryStore, .destoryRemove]) (log : .destoryEnd ∉ s.log)
  | removing (frames : s.frames = [.destoryRemove]) (state : s.conn.state = .kDisconnected)
      (index : .destoryEnd ∈ s.log → s.conn.channel.index = .kNew)
  | done (frames : s.frames = []) (state : s.conn.state = .kDisconnected)
      (index : s.conn.channel.index = .kNew)

structure Destruction (s : ConnSystem) : Prop where
  before : .destoryBegin ∉ s.log → .destoryEnd ∉ s.log ∧ ∀ f ∈ s.frames, f.isDestory = false
  after : .destoryBegin ∈ s.log → s.active = false ∧ Destroying s

theorem Established.noDestory (h : Established s) : ∀ e ∈ s.log, e.isDestory = false := by
  obtain ⟨es, hes, hlog⟩ := h.log
  intro e he
  rw [hlog] at he
  rcases List.mem_append.mp he with he | he
  · obtain ⟨t, rfl⟩ := hes e he
    rfl
  · simp only [List.mem_cons, List.not_mem_nil, or_false] at he
    rcases he with rfl | rfl | rfl <;> rfl

theorem Established.destruction (h : Established s) : Destruction s := by
  refine ⟨fun _ => ⟨?_, by simp [h.frames]⟩, ?_⟩
  · intro hmem
    have hnot := h.noDestory _ hmem
    simp [Entry.isDestory] at hnot
  · intro hmem
    have hnot := h.noDestory _ hmem
    simp [Entry.isDestory] at hnot

namespace Destruction

theorem frames_destory (h : Destruction s) (hbegin : .destoryBegin ∈ s.log) :
    ∀ f ∈ s.frames, f.isDestory = true := by
  obtain ⟨-, hat⟩ := h.after hbegin
  cases hat with
  | storing frames log => simp [frames, Frame.isDestory]
  | removing frames state index => simp [frames, Frame.isDestory]
  | done frames state index => simp [frames]

theorem begun_of_end (h : Destruction s) (hend : .destoryEnd ∈ s.log) :
    .destoryBegin ∈ s.log := by
  by_contra hnot
  exact (h.before hnot).1 hend

/-- What `connectDestoryed` leaves stays. -/
theorem ended (h : Destruction s) (hend : .destoryEnd ∈ s.log) :
    s.conn.state = .kDisconnected ∧ s.conn.channel.index = .kNew := by
  obtain ⟨-, hat⟩ := h.after (h.begun_of_end hend)
  cases hat with
  | storing frames log => exact absurd hend log
  | removing frames state index => exact ⟨state, index hend⟩
  | done frames state index => exact ⟨state, index⟩

/-- Between the handlers a connection that is being destroyed is destroyed. -/
theorem done_of_idle (h : Destruction s) (hbegin : .destoryBegin ∈ s.log)
    (hframes : s.frames = []) :
    s.conn.state = .kDisconnected ∧ s.conn.channel.index = .kNew := by
  obtain ⟨-, hat⟩ := h.after hbegin
  cases hat with
  | storing frames log => simp [hframes] at frames
  | removing frames state index => simp [hframes] at frames
  | done frames state index => exact ⟨state, index⟩

/-- A step that is no part of `connectDestoryed`, and leaves a closed connection closed. -/
theorem same (h : Destruction s) (hframes : s'.frames = s.frames)
    (hactive : s'.active = s.active)
    (hlog : ∃ es, s'.log = s.log ++ es ∧ ∀ e ∈ es, e.isDestory = false)
    (hconn : .destoryBegin ∈ s.log → s.conn.state = .kDisconnected →
      s'.conn.state = .kDisconnected ∧ s'.conn.channel.index = s.conn.channel.index) :
    Destruction s' := by
  obtain ⟨es, hes, hall⟩ := hlog
  have hmem : ∀ e : Entry, e.isDestory = true → (e ∈ s'.log ↔ e ∈ s.log) := by
    intro e he
    rw [hes, List.mem_append]
    refine or_iff_left ?_
    intro hin
    rw [hall e hin] at he
    simp at he
  have hbegin := hmem .destoryBegin rfl
  have hend := hmem .destoryEnd rfl
  refine ⟨?_, ?_⟩
  · intro hnot
    rw [hbegin] at hnot
    rw [hend, hframes]
    exact h.before hnot
  · intro hin
    rw [hbegin] at hin
    obtain ⟨hact, hat⟩ := h.after hin
    refine ⟨by rw [hactive, hact], ?_⟩
    cases hat with
    | storing frames log =>
        exact .storing (by rw [hframes, frames]) (by rw [hend]; exact log)
    | removing frames state index =>
        obtain ⟨hstate, hindex⟩ := hconn hin state
        refine .removing (by rw [hframes, frames]) hstate ?_
        rw [hend, hindex]
        exact index
    | done frames state index =>
        obtain ⟨hstate, hindex⟩ := hconn hin state
        exact .done (by rw [hframes, frames]) hstate (by rw [hindex, index])

theorem frame (h : Destruction s) {f : Frame} {rest : List Frame} {io : Io} {x : Ctx}
    {fs : List Frame} (frames : s.frames = f :: rest) (hx : s.ctx.runFrame io f = .ok (x, fs)) :
    Destruction { s.put x with frames := fs ++ rest } := by
  cases hf : f.isDestory with
  | false =>
      -- before `connectDestoryed`: nothing of it is in the frames
      have hnot : .destoryBegin ∉ s.log := by
        intro hbegin
        have htrue := h.frames_destory hbegin f (by simp [frames])
        rw [hf] at htrue
        simp at htrue
      obtain ⟨⟨es, hes, hall⟩, hfs⟩ := Ctx.runFrame_undestroying hf hx
      obtain ⟨hend, hrest⟩ := h.before hnot
      have hlog : ∀ e : Entry, e.isDestory = true → e ∉ s.log → e ∉ x.log := by
        intro e he hnotin hin
        rw [hes] at hin
        rcases List.mem_append.mp hin with hin | hin
        · exact hnotin hin
        · rw [hall e hin] at he
          simp at he
      refine ⟨fun _ => ⟨hlog _ rfl hend, ?_⟩, fun hin => absurd hin (hlog _ rfl hnot)⟩
      intro g hg
      rcases List.mem_append.mp hg with hg | hg
      · exact hfs g hg
      · exact hrest g (by rw [frames]; exact List.mem_cons_of_mem f hg)
  | true =>
      have hbegin : .destoryBegin ∈ s.log := by
        by_contra hnot
        have hfalse := (h.before hnot).2 f (by simp [frames])
        rw [hf] at hfalse
        simp at hfalse
      obtain ⟨hactive, hat⟩ := h.after hbegin
      cases hat with
      | storing hframes hend =>
          rw [frames, List.cons.injEq] at hframes
          obtain ⟨rfl, rfl⟩ := hframes
          obtain ⟨hclose, rfl⟩ := Ctx.runFrame_destoryStore hx
          have hend : .destoryEnd ∉ x.log := by
            rw [hclose.log]
            simpa using hend
          refine ⟨fun hnot => absurd ?_ hnot, fun _ => ⟨hactive, ?_⟩⟩
          · rw [put_log, hclose.log]
            exact List.mem_append_left _ hbegin
          · exact .removing rfl hclose.state fun hin => absurd hin hend
      | removing hframes state index =>
          rw [frames, List.cons.injEq] at hframes
          obtain ⟨rfl, rfl⟩ := hframes
          obtain ⟨hremove, rfl⟩ := Ctx.runFrame_destoryRemove hx
          refine ⟨fun hnot => absurd ?_ hnot, fun _ => ⟨hactive, ?_⟩⟩
          · rw [put_log, hremove.log]
            exact List.mem_append_left _ hbegin
          · refine .done rfl ?_ ?_
            · rw [put_conn, hremove.state]
              exact state
            · rw [put_conn, hremove.channel]
      | done hframes state index =>
          rw [frames] at hframes
          simp at hframes

theorem functor (h : Destruction s) (hstarted : Started s) (hord : Ordered s) {f : Functor}
    {rest : List Functor} {io : Io} {x : Ctx} {fs : List Frame} (idle : s.LoopIdle)
    (phase : s.phase = .functors) (batch : s.batch = f :: rest)
    (hcond : DestroysClosed s (.functor io)) (hx : s.ctx.runFunctor s.mem io f = .ok (x, fs)) :
    Destruction { s.put x with batch := rest, frames := fs } := by
  have hest : f.isEstablish = false := hstarted.todo f (by simp [todo, batch])
  cases hf : f.isDestory with
  | false =>
      obtain ⟨hlog, rfl⟩ := Ctx.runFunctor_undestroying hf hx
      refine h.same idle.frames.symm rfl hlog ?_
      intro _ hs
      have hsame : x.conn = s.conn := Ctx.runFunctor_disconnected hest hs hx
      rw [put_conn, hsame]
      exact ⟨hs, rfl⟩
  | true =>
      have hstate : s.conn.state ≠ .kDisconnecting := hcond ⟨f, by simp [batch], hf⟩
      have hactive : s.active = false := by
        by_contra hne
        have hphase := hord.active (by simpa using hne)
        rw [phase] at hphase
        simp at hphase
      cases f with
      | connectDestoryed c =>
          obtain ⟨rfl, rfl⟩ := Ctx.runFunctor_connectDestoryed hx
          have hmem : Entry.destoryBegin ∈ (s.ctx.record .destoryBegin).log := by simp
          have hend : Entry.destoryEnd ∈ (s.ctx.record .destoryBegin).log ↔
              Entry.destoryEnd ∈ s.log := by simp
          refine ⟨fun hnot => absurd hmem hnot, fun _ => ⟨hactive, ?_⟩⟩
          by_cases hconn : s.conn.state = .kConnected
          · refine .storing (if_pos hconn) ?_
            intro hin
            rw [(h.ended (hend.mp hin)).1] at hconn
            simp at hconn
          · refine .removing (if_neg hconn) ?_ fun hin => (h.ended (hend.mp hin)).2
            have hne := hstarted.state
            show s.conn.state = .kDisconnected
            cases hs : s.conn.state with
            | kDisconnected => rfl
            | kConnecting => exact absurd hs hne
            | kConnected => exact absurd hs hconn
            | kDisconnecting => exact absurd hs hstate
      | _ => simp [Functor.isDestory] at hf

theorem step (h : Destruction s) (hstarted : Started s) (hord : Ordered s)
    (hag : s.ctx.Agrees) (hcond : DestroysClosed s a) (hstep : Step s a s') :
    Destruction s' := by
  cases hstep with
  | aside hs =>
      refine h.same hs.frames hs.active ⟨[], by simp [hs.log], by simp⟩ ?_
      intro _ hstate
      exact ⟨by rw [hs.state, hstate], by rw [hs.channel]⟩
  | poke hp => exact h.same rfl rfl ⟨[], by simp, by simp⟩ fun _ hs => ⟨hs, rfl⟩
  | reported idle hreg =>
      have hnot : .destoryBegin ∉ s.log := by
        intro hbegin
        obtain ⟨-, hindex⟩ := h.done_of_idle hbegin idle.frames
        simp only [Ctx.Agrees, Channel.Agrees, ctx_conn, ctx_poller, hindex] at hag
        rw [hag.2] at hreg
        simp at hreg
      exact ⟨fun _ => h.before hnot, fun hin => absurd hin hnot⟩
  | handleEvent idle phase hactive =>
      have hnot : .destoryBegin ∉ s.log := by
        intro hbegin
        rw [(h.after hbegin).1] at hactive
        simp at hactive
      refine ⟨fun _ => ⟨?_, ?_⟩, fun hin => absurd ?_ hnot⟩
      · simpa [ConnSystem.handleEvent] using (h.before hnot).1
      · simp [ConnSystem.handleEvent, Ctx.handelEventWithGuard, Frame.isDestory]
      · simpa [ConnSystem.handleEvent] using hin
  | send pc state len read | shutdownIgnored pc state | shutdown pc state
  | sendQueued pc other =>
      exact h.same rfl rfl ⟨_, rfl, by simp [Entry.isDestory]⟩ fun _ hs => ⟨hs, rfl⟩
  | @sendInLoop call w x pc hx =>
      have hout := Ctx.sendInLoop_outputStep hx
      refine h.same rfl rfl (hout.undestroying.trans (.record (e := .returned call) rfl)) ?_
      intro _ hs
      rw [Ctx.sendInLoop_disconnected hs, Except.ok.injEq] at hx
      rw [← hx]
      exact ⟨hs, rfl⟩
  | shutdownStore pc =>
      refine h.same rfl rfl ⟨_, rfl, by simp [Entry.isDestory]⟩ ?_
      intro hbegin hs
      exact absurd hs (hcond hbegin)
  | shutdownInLoop pc =>
      refine h.same rfl rfl Ctx.shutdownInLoop_outputStep.undestroying ?_
      intro _ hs
      show s.ctx.shutdownInLoop.conn.state = _ ∧ s.ctx.shutdownInLoop.conn.channel.index = _
      rw [Ctx.shutdownInLoop_conn]
      exact ⟨hs, rfl⟩
  | shutdownQueued pc other =>
      exact h.same rfl rfl ⟨[], by simp, by simp⟩ fun _ hs => ⟨hs, rfl⟩
  | frame pc frames hx => exact h.frame frames hx
  | functor idle phase batch hx => exact h.functor hstarted hord idle phase batch hcond hx

end Destruction

/-! ### No write comes after it -/

/-- A write answers for `connectDestoryed` not having returned before it. -/
def WritesAlive (before : List Entry) : Entry → Prop
  | .write _ _ _ => .destoryEnd ∉ before
  | _ => True

theorem writesAlive_of_not {e : Entry} (h : e.isWrite = false) (before : List Entry) :
    WritesAlive before e := by
  cases e <;> trivial

theorem writesAlive_of_alive {before : List Entry} (h : .destoryEnd ∉ before) (e : Entry) :
    WritesAlive before e := by
  cases e with
  | write requested ret accepted => exact h
  | _ => trivial

theorem writesAlive_step (h : Justified WritesAlive s.log) (hdes : Destruction s)
    (hstep : Step s a s') : Justified WritesAlive s'.log := by
  refine writes_step h (fun e he before => writesAlive_of_not he before) ?_ ?_ hstep
  · intro call _ hs pre e hpre
    refine writesAlive_of_alive ?_ e
    intro hend
    rcases List.mem_append.mp hend with hend | hend
    · exact hs (hdes.ended hend).1
    · have hwrite := hpre _ hend
      simp [Entry.isWrite] at hwrite
  · intro hmem _ e
    refine writesAlive_of_alive ?_ e
    intro hend
    have hdestory := hdes.frames_destory (hdes.begun_of_end hend) _ hmem
    simp [Frame.isDestory] at hdestory

/-- After `connectDestoryed` the connection is `kDisconnected` and the poller does not know
its descriptor, and nothing is written any more. -/
theorem destroyed_out_of_poller (h : (lts.restrict DestroysClosed).Reachable s)
    {before after : List Entry} (hlog : s.log = before ++ .destoryEnd :: after) :
    s.conn.state = .kDisconnected ∧ s.poller.channels s.conn.channel.fd = none ∧
      s.poller.interest s.conn.channel.fd = none ∧ ∀ e ∈ after, e.isWrite = false := by
  have hinv := reachable_induct
    (P := fun s => Destruction s ∧ Justified WritesAlive s.log) h ?_ ?_
  · rcases hinv with hfresh | ⟨-, hdes, hwrites⟩
    · obtain ⟨t, ht⟩ := hfresh.log .destoryEnd (by simp [hlog])
      simp at ht
    · obtain ⟨hstate, hindex⟩ := hdes.ended (by simp [hlog])
      have hag := agrees_of_reachable h.of_restrict
      simp only [Ctx.Agrees, Channel.Agrees, ctx_conn, ctx_poller, hindex] at hag
      refine ⟨hstate, hag.1, hag.2, ?_⟩
      intro e he
      obtain ⟨pre, post, rfl⟩ := List.append_of_mem he
      have halive := hwrites (before ++ .destoryEnd :: pre) e post (by rw [hlog]; simp)
      cases e with
      | write requested ret accepted => exact absurd (by simp) halive
      | _ => rfl
  · intro m hm
    refine ⟨hm.destruction, ?_⟩
    have hall := (justified_nil (Q := WritesAlive)).append fun e he before =>
      writesAlive_of_not (Entry.isWrite_of_noOutput (hm.noCall e he).1) before
    simpa using hall
  · rintro m a m' hr hstarted ⟨hdes, hwrites⟩ hcond - hstep
    exact ⟨hdes.step hstarted (Ordered.of_reachable hr) (agrees_of_reachable hr) hcond hstep,
      writesAlive_step hwrites hdes hstep⟩

/-- `connectDestoryed` runs on an open connection while a message of thread 2 is queued
behind it; the message is given up. -/
theorem destroyed_out_of_poller_queued : ∃ (s : ConnSystem) (call : SendCall),
    Entry.gaveUp call ∈ s.log ∧ s.conn.state = .kDisconnected ∧
      s.poller.interest s.conn.channel.fd = none := by
  obtain ⟨s, hr, hlog⟩ := exists_of_endsWith DestroysClosed [10, 11, 12]
    ([Action.queueDestory, .send 2 100 3, .sendRun 2 (wrote 0).write, .poll none, .swap,
      .functor (wrote 0), .frame (wrote 0), .frame (wrote 0), .functor (wrote 0), .batchEnd])
    (fun s => s.log = s.log.dropLast.dropLast ++
      Entry.destoryEnd :: [.gaveUp ⟨2, 100, 3, [10, 11, 12]⟩]) (by decide +kernel)
  obtain ⟨hstate, -, hinterest, -⟩ := destroyed_out_of_poller hr hlog
  exact ⟨s, ⟨2, 100, 3, [10, 11, 12]⟩, by rw [hlog]; simp, hstate, hinterest⟩

/-- The connection is half-closed when it is destroyed.  The message of thread 2, which had
passed its check before, is then handed to `::write`, which refuses it, and what is left puts
the channel back into the poller. -/
theorem destroyed_back_in_poller : ∃ s, lts.Reachable s ∧ s.conn.state = .kDisconnecting ∧
    s.poller.channels s.conn.channel.fd ≠ none ∧ s.poller.interest s.conn.channel.fd ≠ none ∧
      ∃ before after, s.log = before ++ Entry.destoryEnd :: after ∧
        Entry.write 3 (-1) [] ∈ after := by
  obtain ⟨s, hr, hstate, hchannels, hinterest, hlog⟩ :=
    exists_of_endsWith (fun _ _ => True) [9, 10, 11, 12]
    ([Action.send 2 101 3, .poll none, .shutdown 1, .shutdownStore 1, .shutdownRun 1, .queueDestory,
      .swap, .functor (wrote 0), .frame (wrote 0), .batchEnd, .sendRun 2 (wrote 0).write,
      .poll none, .swap, .functor refused, .batchEnd])
    (fun s => s.conn.state = .kDisconnecting ∧ s.poller.channels s.conn.channel.fd ≠ none ∧
      s.poller.interest s.conn.channel.fd ≠ none ∧
      s.log = [Entry.establish, .stored .kConnected, .connectionCallback true,
        .called ⟨2, 101, 3, [10, 11, 12]⟩, .shutdownCalled 1, .stored .kDisconnecting,
        .shutdownWrite .kDisconnecting [], .destoryBegin] ++ Entry.destoryEnd ::
        [.returned ⟨2, 101, 3, [10, 11, 12]⟩, .write 3 (-1) [],
          .ran ⟨2, 101, 3, [10, 11, 12]⟩ [9, 10, 11, 12]]) (by decide +kernel)
  exact ⟨s, hr.of_restrict, hstate, hchannels, hinterest, _, _, hlog, by decide⟩

end ConnSystem

end Muduo
