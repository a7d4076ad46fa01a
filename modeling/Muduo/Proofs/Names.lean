/-
What a piece of a connection's code leaves behind under the connection's name.

The functors a piece queues are bound to its own connection and call nothing but the user,
and the only pointer it puts into the interest set of its loop is that connection's.
-/
import Muduo.TcpServer
import Muduo.Proofs.Handlers
import Muduo.Proofs.Poller

namespace Muduo

/-! ### Pointers in the interest set -/

/-- Every pointer in the interest set was in it before or is the channel's own. -/
def EpollPoller.Adds (p' p : EpollPoller) (id : ChannelId) : Prop :=
  ∀ fd e, p'.interest fd = some e → p.interest fd = some e ∨ e.1 = id

namespace EpollPoller.Adds

variable {p p' : EpollPoller} {c : Channel}

theorem refl (p : EpollPoller) (id : ChannelId) : p.Adds p id := fun _ _ h => .inl h

theorem trans {q : EpollPoller} {id : ChannelId} (h₁ : p'.Adds p id) (h₂ : q.Adds p' id) :
    q.Adds p id := by
  intro fd e he
  rcases h₂ fd e he with he | he
  · exact h₁ fd e he
  · exact .inr he

theorem of_set {fd : Fd} {id : ChannelId} {entry : Option (ChannelId × Events)}
    (h : ∀ e, entry = some e → e.1 = id) :
    Adds { p with interest := Function.update p.interest fd entry } p id := by
  intro fd' e he
  simp only [Function.update_apply] at he
  split at he
  · exact .inr (h e he)
  · exact .inl he

theorem of_update {op : EpollOp} (h : p.update op c = .ok p') : p'.Adds p c.id := by
  have hown : ∀ e, some (c.id, c.events) = some e → e.1 = c.id := by
    intro e he
    rw [← Option.some.inj he]
  unfold EpollPoller.update at h
  cases op with
  | add =>
      dsimp only at h
      split at h
      · simp at h
      · rw [Except.ok.injEq] at h
        rw [← h]
        exact of_set hown
  | mod =>
      dsimp only at h
      split at h
      · rw [Except.ok.injEq] at h
        rw [← h]
        exact of_set hown
      · simp at h
  | del =>
      rw [Except.ok.injEq] at h
      rw [← h]
      exact of_set (by simp)

end EpollPoller.Adds

namespace Channel

variable {p p' : EpollPoller} {c c' : Channel} {events : Events}

theorem setEvents_adds (h : c.setEvents events p = .ok (p', c')) : p'.Adds p c.id := by
  unfold setEvents at h
  rw [EpollPoller.updateChannel_eq] at h
  obtain ⟨q, hq, hret⟩ := Except.map_eq_ok.mp h
  rw [Prod.mk.injEq] at hret
  have hadds := EpollPoller.Adds.of_update hq
  rw [← hret.1]
  exact fun fd e he => hadds fd e he

theorem remove_adds (h : c.remove p = .ok (p', c')) : p'.Adds p c.id := by
  unfold remove at h
  rw [EpollPoller.removeChannel_eq] at h
  obtain ⟨q, hq, hret⟩ := Except.map_eq_ok.mp h
  rw [Prod.mk.injEq] at hret
  rw [← hret.1]
  split at hq
  · have hadds := EpollPoller.Adds.of_update hq
    exact fun fd e he => hadds fd e he
  · rw [Except.ok.injEq] at hq
    rw [← hq]
    exact .refl _ _

end Channel

namespace Ctx

variable {x x' y : Ctx}

/-! ### Names -/

/-- A piece that queues user callbacks, bound to its own connection, and puts no pointer
into the interest set but that connection's. -/
structure Named (x x' : Ctx) : Prop where
  id : x'.conn.channel.id = x.conn.channel.id
  pending : ∃ q, x'.pending = x.pending ++ q ∧
    ∀ f ∈ q, f.isUserCallback = true ∧ f.conn = x.conn.channel.id
  interest : x'.poller.Adds x.poller x.conn.channel.id

namespace Named

theorem of_same (hid : x'.conn.channel.id = x.conn.channel.id)
    (hpending : x'.pending = x.pending) (hpoller : x'.poller = x.poller) : Named x x' :=
  ⟨hid, ⟨[], by simp [hpending], by simp⟩, by rw [hpoller]; exact .refl _ _⟩

theorem refl (x : Ctx) : Named x x := of_same rfl rfl rfl

theorem trans {z : Ctx} (h₁ : Named x y) (h₂ : Named y z) : Named x z := by
  obtain ⟨q₁, hq₁, hall₁⟩ := h₁.pending
  obtain ⟨q₂, hq₂, hall₂⟩ := h₂.pending
  have hadds := h₂.interest
  rw [h₁.id] at hall₂ hadds
  refine ⟨h₂.id.trans h₁.id, ⟨q₁ ++ q₂, by rw [hq₂, hq₁, List.append_assoc], ?_⟩,
    h₁.interest.trans hadds⟩
  intro f hf
  rcases List.mem_append.mp hf with hf | hf
  · exact hall₁ f hf
  · exact hall₂ f hf

theorem after (h : Named y x') (hid : y.conn.channel.id = x.conn.channel.id)
    (hpending : y.pending = x.pending) (hpoller : y.poller = x.poller) : Named x x' :=
  (of_same hid hpending hpoller).trans h

theorem queueWriteComplete : Named x x.queueWriteComplete := by
  unfold Ctx.queueWriteComplete
  split
  · refine ⟨rfl, ⟨[.writeComplete x.conn.channel.id], rfl, ?_⟩, .refl _ _⟩
    simp [Functor.isUserCallback, Functor.conn]
  · exact refl x

theorem queueHighWaterMark (n : Nat) : Named x (x.queueHighWaterMark n) := by
  simp only [Ctx.queueHighWaterMark]
  split
  · refine ⟨rfl, ⟨[_], rfl, ?_⟩, .refl _ _⟩
    simp [Functor.isUserCallback, Functor.conn]
  · exact refl x

theorem setEvents {g : Channel → Events}
    (h : x.updating (fun c => c.setEvents (g c)) = .ok x') : Named x x' := by
  obtain ⟨p, c, hset, rfl⟩ := updating_eq_ok h
  obtain rfl := Channel.setEvents_eq_ok hset
  exact ⟨rfl, ⟨[], by simp, by simp⟩, Channel.setEvents_adds hset⟩

theorem remove (h : x.updating Channel.remove = .ok x') : Named x x' := by
  obtain ⟨p, c, hrem, rfl⟩ := updating_eq_ok h
  obtain rfl := Channel.remove_eq_ok hrem
  exact ⟨rfl, ⟨[], by simp, by simp⟩, Channel.remove_adds hrem⟩

theorem invokeConnectionCallback (h : x.invokeConnectionCallback = .ok x') : Named x x' := by
  obtain rfl := invokeConnectionCallback_eq_ok h
  exact of_same rfl rfl rfl

/-! ### Output -/

theorem directWrite {mem : Mem} {call : SendCall} {w : WriteResult} {d : Direct}
    (h : x.directWrite mem call w = .ok (x', d)) : Named x x' := by
  obtain ⟨acc, -, h⟩ := Except.bind_eq_ok.mp h
  simp only [Nat.zero_le, if_true] at h
  rw [Except.pure_eq_ok, Prod.mk.injEq] at h
  have hrecord : Named x (x.record (.write call.len w.ret acc)) := of_same rfl rfl rfl
  rw [← h.1]
  split
  · exact hrecord.trans queueWriteComplete
  · exact hrecord

theorem bufferRemaining {mem : Mem} {call : SendCall} {d : Direct}
    (h : x.bufferRemaining mem call d = .ok x') : Named x x' := by
  unfold Ctx.bufferRemaining at h
  split at h
  · obtain ⟨data, -, h⟩ := Except.bind_eq_ok.mp h
    obtain ⟨out, -, h⟩ := Except.bind_eq_ok.mp h
    refine (queueHighWaterMark d.remaining).trans ?_
    dsimp only at h
    split at h
    · have hwriting := setEvents (g := fun c => c.events ||| Channel.kWriteEvent) h
      exact hwriting.after rfl rfl rfl
    · rw [Except.pure_eq_ok] at h
      rw [← h]
      exact of_same rfl rfl rfl
  · rw [Except.pure_eq_ok] at h
    rw [← h]
    exact of_same rfl rfl rfl

theorem sendInLoop {mem : Mem} {call : SendCall} {w : WriteResult}
    (h : x.sendInLoop mem call w = .ok x') : Named x x' := by
  unfold Ctx.sendInLoop at h
  split at h
  · rw [Except.ok.injEq] at h
    rw [← h]
    exact of_same rfl rfl rfl
  · split at h
    · obtain ⟨⟨y, d⟩, hd, h⟩ := Except.bind_eq_ok.mp h
      exact (directWrite hd).trans (bufferRemaining h)
    · exact bufferRemaining h

theorem shutdownInLoop : Named x x.shutdownInLoop := by
  unfold Ctx.shutdownInLoop
  split <;> exact of_same rfl rfl rfl

theorem writeFinished (h : x.writeFinished = .ok x') : Named x x' := by
  obtain ⟨y, hy, h⟩ := Except.bind_eq_ok.mp h
  rw [Except.pure_eq_ok] at h
  refine (setEvents (g := fun c => c.events &&& ~~~Channel.kWriteEvent) hy).trans
    (queueWriteComplete.trans ?_)
  rw [← h]
  split
  · exact shutdownInLoop
  · exact refl _

theorem handleWrite {w : WriteResult} (h : x.handleWrite w = .ok x') : Named x x' := by
  unfold Ctx.handleWrite at h
  split at h
  · dsimp only at h
    split at h
    · split at h
      · have hfinished := writeFinished h
        exact hfinished.after rfl rfl rfl
      · rw [Except.ok.injEq] at h
        rw [← h]
        exact of_same rfl rfl rfl
    · rw [Except.ok.injEq] at h
      rw [← h]
      exact of_same rfl rfl rfl
  · rw [Except.ok.injEq] at h
    rw [← h]
    exact refl x

/-! ### The other handlers -/

theorem handleClose {fs : List Frame} (h : x.handleClose = .ok (x', fs)) : Named x x' := by
  obtain ⟨y, hy, h⟩ := Except.bind_eq_ok.mp h
  obtain ⟨z, hz, h⟩ := Except.bind_eq_ok.mp h
  rw [Except.pure_eq_ok, Prod.mk.injEq] at h
  have hclosed := (setEvents (g := fun _ => Channel.kNoneEvent) hy).trans
    (invokeConnectionCallback hz)
  rw [← h.1]
  exact hclosed.after rfl rfl rfl

theorem handleRead {r : ReadvResult} {fs : List Frame} (h : x.handleRead r = .ok (x', fs)) :
    Named x x' := by
  obtain ⟨⟨input, n, e⟩, -, h⟩ := Except.bind_eq_ok.mp h
  dsimp only at h
  split at h
  · obtain ⟨y, hy, h⟩ := Except.bind_eq_ok.mp h
    obtain rfl := invokeMessageCallback_eq_ok hy
    rw [Except.pure_eq_ok, Prod.mk.injEq] at h
    rw [← h.1]
    exact of_same rfl rfl rfl
  · split at h
    · have hclosed := handleClose h
      exact hclosed.after rfl rfl rfl
    · rw [Except.pure_eq_ok, Prod.mk.injEq] at h
      rw [← h.1]
      exact of_same rfl rfl rfl

theorem connectEstablished (h : x.connectEstablished = .ok x') : Named x x' := by
  obtain ⟨y, hy, h⟩ := Except.bind_eq_ok.mp h
  have hup := (setEvents (g := fun c => c.events ||| Channel.kReadEvent) hy).trans
    (invokeConnectionCallback h)
  exact hup.after rfl rfl rfl

theorem destoryStore (h : x.destoryStore = .ok x') : Named x x' := by
  obtain ⟨y, hy, h⟩ := Except.bind_eq_ok.mp h
  have hdown := (setEvents (g := fun _ => Channel.kNoneEvent) hy).trans
    (invokeConnectionCallback h)
  exact hdown.after rfl rfl rfl

theorem destoryRemove (h : x.destoryRemove = .ok x') : Named x x' := by
  obtain ⟨y, hy, h⟩ := Except.bind_eq_ok.mp h
  rw [Except.pure_eq_ok] at h
  rw [← h]
  exact (remove hy).trans (of_same rfl rfl rfl)

end Named

theorem runFrame_named {io : Io} {f : Frame} {fs : List Frame}
    (h : x.runFrame io f = .ok (x', fs)) : Named x x' := by
  have hskip : ∀ {y : Ctx} {gs : List Frame}, Except.ok (y, gs) = (.ok (x', fs) : Except Fault _) →
      y = x → Named x x' := by
    intro y gs hret hy
    rw [Except.ok.injEq, Prod.mk.injEq] at hret
    rw [← hret.1, hy]
    exact .refl x
  unfold runFrame at h
  cases f with
  | connectEstablished =>
      obtain ⟨y, hy, h⟩ := Except.bind_eq_ok.mp h
      rw [Except.pure_eq_ok, Prod.mk.injEq] at h
      rw [← h.1]
      exact .connectEstablished hy
  | closePart =>
      dsimp only at h
      split at h
      · exact .handleClose h
      · exact hskip h rfl
  | errorPart =>
      dsimp only at h
      split at h
      · exact hskip h rfl
      · exact hskip h rfl
  | readPart =>
      dsimp only at h
      split at h
      · exact .handleRead h
      · exact hskip h rfl
  | writePart =>
      dsimp only at h
      split at h
      · obtain ⟨y, hy, h⟩ := Except.bind_eq_ok.mp h
        rw [Except.pure_eq_ok, Prod.mk.injEq] at h
        rw [← h.1]
        exact .handleWrite hy
      · exact hskip h rfl
  | closeCallback =>
      obtain ⟨y, hy, h⟩ := Except.bind_eq_ok.mp h
      obtain rfl := invokeCloseCallback_eq_ok hy
      rw [Except.pure_eq_ok, Prod.mk.injEq] at h
      rw [← h.1]
      exact .of_same rfl rfl rfl
  | destoryStore =>
      obtain ⟨y, hy, h⟩ := Except.bind_eq_ok.mp h
      rw [Except.pure_eq_ok, Prod.mk.injEq] at h
      rw [← h.1]
      exact .destoryStore hy
  | destoryRemove =>
      obtain ⟨y, hy, h⟩ := Except.bind_eq_ok.mp h
      rw [Except.pure_eq_ok, Prod.mk.injEq] at h
      rw [← h.1]
      exact .destoryRemove hy

theorem runFunctor_named {mem : Mem} {io : Io} {f : Functor} {fs : List Frame}
    (h : x.runFunctor mem io f = .ok (x', fs)) : Named x x' := by
  cases f with
  | sendInLoop c call => exact .sendInLoop (runFunctor_sendInLoop h).1
  | shutdownInLoop c =>
      obtain ⟨rfl, -⟩ := runFunctor_shutdownInLoop h
      exact .shutdownInLoop
  | connectEstablished c =>
      obtain ⟨y, hy, h⟩ := Except.bind_eq_ok.mp h
      rw [Except.pure_eq_ok, Prod.mk.injEq] at h
      rw [← h.1]
      exact .connectEstablished hy
  | connectDestoryed c =>
      obtain ⟨rfl, -⟩ := runFunctor_connectDestoryed h
      exact .of_same rfl rfl rfl
  | writeComplete c | highWaterMark c n =>
      obtain ⟨rfl, -⟩ := runFunctor_userCallback rfl h
      exact .refl _
  | removeConnectionInLoop c =>
      obtain ⟨rfl, -⟩ := runFunctor_removeConnectionInLoop h
      exact .refl _

end Ctx

end Muduo
