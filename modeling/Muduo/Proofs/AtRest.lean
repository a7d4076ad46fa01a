/-
A server at rest holds the connections that are open, and nothing else.

A connection goes down in `handleClose`, and from there to the end of its destructor it is handed
on: the close callback to the base loop, the removal back to its own loop.  Nothing is lost on
the way.  So when no loop has anything left to run, every connection that has gone down has been
closed, taken out of the map, taken out of the poller and destroyed, and only a pointer that the
user keeps can hold its object; and every connection that has not is up, in the map and watched.
-/
import Muduo.Proofs.ServerConns

namespace Muduo

namespace ConnSystem

variable {s s' : ConnSystem} {a : Action}

/-! ### A connection that goes down is handed on -/

/-- A connection that is down has had its close callback, or has it next. -/
def Announced (s : ConnSystem) : Prop :=
  s.conn.state = .kDisconnected → .closeCallback ∈ s.log ∨ .closeCallback ∈ s.frames

/-- A step that does not take the connection down. -/
theorem Announced.same (h : Announced s)
    (hstate : s'.conn.state = .kDisconnected → s.conn.state = .kDisconnected)
    (hlog : .closeCallback ∈ s.log → .closeCallback ∈ s'.log)
    (hframes : .closeCallback ∈ s.frames →
      .closeCallback ∈ s'.log ∨ .closeCallback ∈ s'.frames) : Announced s' := by
  intro hs
  rcases h (hstate hs) with hmem | hmem
  · exact .inl (hlog hmem)
  · exact hframes hmem

theorem Announced.frame (h : Announced s) (hord : Orderly s) (hstarted : Started s) {f : Frame}
    {rest fs : List Frame} {io : Io} {x : Ctx} (frames : s.frames = f :: rest)
    (hx : s.ctx.runFrame io f = .ok (x, fs)) :
    Announced { s.put x with frames := fs ++ rest } := by
  have hmem : f ∈ s.frames := by simp [frames]
  obtain ⟨es, hes⟩ := (Ctx.runFrame_local hx).log
  have hgrows : .closeCallback ∈ s.log → .closeCallback ∈ x.log := by
    intro hlog
    rw [hes]
    exact List.mem_append_left _ hlog
  -- a piece that leaves the state alone
  have hkeep : f ≠ .closeCallback → x.conn.state = s.conn.state →
      Announced { s.put x with frames := fs ++ rest } := by
    intro hne hstate
    refine h.same (fun hs => hstate.symm.trans hs) hgrows ?_
    rw [frames]
    intro hin
    exact .inr (List.mem_append_right _ ((List.mem_cons.mp hin).resolve_left (Ne.symm hne)))
  -- a piece that takes the connection down has the close callback next
  have hclosing : fs = [.closeCallback] → Announced { s.put x with frames := fs ++ rest } := by
    intro hfs _
    exact .inr (by simp [hfs])
  cases f with
  | connectEstablished => exact absurd hmem hstarted.frames
  | closePart =>
      rcases Ctx.runFrame_closePart hx with ⟨rfl, -⟩ | ⟨-, -, -, hfs⟩
      · exact hkeep (by simp) rfl
      · exact hclosing hfs
  | errorPart =>
      obtain ⟨rfl, -⟩ := Ctx.runFrame_errorPart hx
      exact hkeep (by simp) rfl
  | readPart =>
      rcases Ctx.runFrame_readPart hx with ⟨rfl, -⟩ | ⟨-, y, hread, ⟨rfl, -⟩ | ⟨-, hfs⟩⟩
      · exact hkeep (by simp) rfl
      · exact hkeep (by simp) hread.state
      · exact hclosing hfs
  | writePart =>
      obtain ⟨-, rfl | ⟨-, hwrite⟩⟩ := Ctx.runFrame_writePart hx
      · exact hkeep (by simp) rfl
      · exact hkeep (by simp) (Ctx.handleWrite_outputStep hwrite).state
  | closeCallback =>
      obtain ⟨rfl, -⟩ := Ctx.runFrame_closeCallback hx
      exact fun _ => .inl (by simp)
  | destoryStore =>
      have hbegun : .destoryBegin ∈ s.log := by
        by_contra hnot
        have hnone := (hord.destruction.before hnot).2 _ hmem
        simp [Frame.isDestory] at hnone
      exact fun _ => .inl (hgrows (hord.closed_of_begun hbegun))
  | destoryRemove =>
      exact hkeep (by simp) (Ctx.runFrame_destoryRemove hx).1.state

theorem Announced.step (h : Announced s) (hord : Orderly s) (hstarted : Started s)
    (hstep : Step s a s') : Announced s' := by
  obtain ⟨es, hes⟩ := hstep.log_grows
  have hgrows : .closeCallback ∈ s.log → .closeCallback ∈ s'.log := by
    rw [hes]
    exact List.mem_append_left _
  cases hstep with
  | aside hs =>
      refine h.same (fun hd => hs.state ▸ hd) hgrows ?_
      rw [hs.frames]
      exact .inr
  | poke hp => exact h
  | reported idle hreg => exact h
  | handleEvent idle phase hactive =>
      refine h.same id hgrows ?_
      rw [idle.frames]
      simp
  | send pc state len read | shutdownIgnored pc state | shutdown pc state
  | sendQueued pc other | shutdownQueued pc other => exact h.same id hgrows .inr
  | @sendInLoop call w x pc hx =>
      have hstate : x.conn.state = s.conn.state := (Ctx.sendInLoop_outputStep hx).state
      exact h.same (fun hd => hstate.symm.trans hd) hgrows .inr
  | shutdownStore pc =>
      intro hd
      have hd : StateE.kDisconnecting = .kDisconnected := hd
      simp at hd
  | shutdownInLoop pc =>
      have hconn : s.ctx.shutdownInLoop.conn = s.conn := Ctx.shutdownInLoop_conn
      refine h.same ?_ hgrows .inr
      intro hd
      have hd : s.ctx.shutdownInLoop.conn.state = .kDisconnected := hd
      rwa [hconn] at hd
  | frame pc frames hx => exact h.frame hord hstarted frames hx
  | @functor f rest io x fs idle phase batch hx =>
      have hmem : f ∈ s.todo := by simp [todo, batch]
      have hstate : x.conn.state = s.conn.state := by
        rcases Ctx.runFunctor_kind (hstarted.todo _ hmem) hx with
          ⟨hstays, -⟩ | ⟨c, call, -, -, hsend⟩ | ⟨c, -, -, rfl⟩
        · exact hstays.state
        · exact (Ctx.sendInLoop_outputStep hsend).state
        · rw [Ctx.shutdownInLoop_conn]
          rfl
      refine h.same (fun hd => hstate.symm.trans hd) hgrows ?_
      rw [idle.frames]
      simp

theorem announced_of_reachable (h : (lts.restrict Ordinary).Reachable s) : Announced s := by
  refine h.induct (P := Announced) ?_ ?_
  · intro s₀ h0 hs
    rw [h0.fresh.state] at hs
    simp at hs
  · rintro m a m' hm hP ⟨-, hs⟩
    have hr : lts.Reachable m := hm.of_restrict
    have hstep : Step m a m' := step_cases (Ordered.of_reachable hr) hs
    rcases orderly_of_reachable hm with hfresh | ⟨hstarted, hord⟩
    · intro hd
      rcases hfresh.step (agrees_of_reachable hr) hstep with hfresh' | hest
      · rw [hfresh'.state] at hd
        simp at hd
      · rw [hest.state] at hd
        simp at hd
    · exact hP.step hord hstarted hstep

end ConnSystem

namespace TcpServer

variable {s : TcpServer} {c : ConnId} {x : Accepted}

/-- No loop has anything of a connection left to run. -/
def AtRest (s : TcpServer) : Prop :=
  ∀ l < s.size, (s.loops l).queue = [] ∧ (s.loops l).funcs = [] ∧ (s.loops l).frames = []

instance (s : TcpServer) : Decidable s.AtRest := inferInstanceAs (Decidable (∀ l < _, _))

theorem AtRest.todo (h : s.AtRest) (hwired : Wired s) {l : LoopId} (hl : l < s.size) :
    s.todo l = [] := by
  obtain ⟨hqueue, hfuncs, -⟩ := h l hl
  have hbatch : (s.loops l).batch = [] := by
    refine List.eq_nil_iff_forall_not_mem.mpr ?_
    intro f hf
    have hin := (hwired.loops l).batch f hf
    rw [hfuncs] at hin
    simp at hin
  rw [TcpServer.todo, hbatch, hqueue]
  rfl

theorem AtRest.framesOf (h : s.AtRest) {l : LoopId} (hl : l < s.size) (c : ConnId) :
    s.framesOf l c = [] := by
  unfold TcpServer.framesOf
  rw [(h l hl).2.2, ite_self]

/-- Only the map and the user hold pointers. -/
theorem AtRest.alive_iff (h : s.AtRest) (c : ConnId) :
    s.Alive c ↔ c ∈ s.connections ∨ ∃ p ∈ s.held, p.2 = c := by
  constructor
  · rintro (hmem | hheld | ⟨l, hl, ⟨f, hf, -, -⟩ | ⟨hne, -⟩⟩)
    · exact .inl hmem
    · exact .inr hheld
    · obtain ⟨hqueue, hfuncs, -⟩ := h l hl
      rw [hqueue, hfuncs] at hf
      simp at hf
    · exact absurd (h l hl).2.2 hne
  · rintro (hmem | hheld)
    · exact .inl hmem
    · exact .inr (.inl hheld)

/-- Nothing of a connection is under way. -/
theorem AtRest.tally (h : s.AtRest) (hwired : Wired s) (hc : s.conns c = some x) :
    (s.tally c x).coming = 0 ∧ (s.tally c x).closing = 0 ∧ (s.tally c x).leaving = 0 ∧
      (s.tally c x).going = 0 := by
  obtain ⟨-, -, hlt⟩ := hwired.known c x hc
  have hbase : s.todo 0 = [] := h.todo hwired hwired.size
  simp [TcpServer.tally, h.todo hwired hlt, h.framesOf hlt, hbase]

/-- A connection that is at rest and has not been closed is up, and its loop watches it. -/
theorem up_at_rest (hstand : Standing s) (hc : s.conns c = some x) (halive : s.Alive c)
    (hframes : s.framesOf x.loop c = []) (hest : .establish ∈ x.log)
    (hnot : .closeCallback ∉ x.log) :
    IsUp x ∧ (s.loops x.loop).poller.interest x.conn.channel.fd =
      some (c, x.conn.channel.events) := by
  have hrun := hstand.lives.run c x hc halive
  have hopen : x.conn.state ≠ .kDisconnected := by
    intro hs
    rcases ConnSystem.announced_of_reachable hrun hs with hmem | hmem
    · exact hnot hmem
    · have hmem : .closeCallback ∈ s.framesOf x.loop c := hmem
      rw [hframes] at hmem
      simp at hmem
  rcases ConnSystem.served_of_reachable hrun with hfresh | ⟨-, hserved⟩
  · obtain ⟨t, ht⟩ := hfresh.log _ hest
    simp at ht
  · have hindex : x.conn.channel.index = .kAdded := (hserved.watched hopen).1
    have hag := run_agrees hrun
    simp only [Ctx.Agrees, Channel.Agrees, ctx, hindex] at hag
    exact ⟨isUp_of_added hrun hindex, by rw [hag.2, hstand.wired.id hc]⟩

/-- A connection that has begun to be destroyed and is at rest has been, and no poller has it. -/
theorem gone_at_rest (hstand : Standing s) (hc : s.conns c = some x)
    (hframes : s.framesOf x.loop c = []) (hbegin : .destoryBegin ∈ x.log) :
    .destoryEnd ∈ x.log ∧ ∀ l fd e, (s.loops l).poller.interest fd = some e → e.1 ≠ c := by
  have hends : s.Alive c → .destoryEnd ∈ x.log ∧ x.conn.channel.index = .kNew := by
    intro halive
    rcases ConnSystem.orderly_of_reachable (hstand.lives.run c x hc halive) with
      hfresh | ⟨-, hord⟩
    · obtain ⟨t, ht⟩ := hfresh.log _ hbegin
      simp at ht
    · obtain ⟨-, hindex⟩ := hord.destruction.done_of_idle hbegin hframes
      refine ⟨(hord.begun hbegin).resolve_right ?_, hindex⟩
      intro hmem
      have hmem : .destoryRemove ∈ s.framesOf x.loop c := hmem
      rw [hframes] at hmem
      simp at hmem
  refine ⟨?_, ?_⟩
  · by_cases halive : s.Alive c
    · exact (hends halive).1
    · exact hstand.lives.ended c x hc halive
  · rintro l fd e he rfl
    obtain ⟨d, z, hd, rfl, rfl, halive, -, howner⟩ :=
      hstand.lives.pointer hstand.wired (.inr (by rw [he]; simp))
    obtain rfl := howner e he
    obtain rfl : x = z := Option.some.inj (hc.symm.trans hd)
    have hag := run_agrees (hstand.lives.run _ x hc halive)
    simp only [Ctx.Agrees, Channel.Agrees, ctx, (hends halive).2] at hag
    rw [hag.2] at he
    simp at he

/-- A server at rest: each connection is in the map, alive, up and watched by its loop, and has not
been closed; or it has been closed and destroyed, once each, no poller has it, and only the
pointers that the user holds keep its object. -/
theorem at_rest (h : (lts.restrict Ordinary).Reachable s) (hrest : s.AtRest)
    (hc : s.conns c = some x) :
    (c ∈ s.connections ∧ s.Alive c ∧ IsUp x ∧ .closeCallback ∉ x.log ∧
      (s.loops x.loop).poller.interest x.conn.channel.fd = some (c, x.conn.channel.events)) ∨
    (c ∉ s.connections ∧ (s.Alive c ↔ ∃ p ∈ s.held, p.2 = c) ∧
      x.log.count .closeCallback = 1 ∧ x.log.count .destoryBegin = 1 ∧ .destoryEnd ∈ x.log ∧
      ∀ l fd e, (s.loops l).poller.interest fd = some e → e.1 ≠ c) := by
  have hstand := standing_of_reachable h
  obtain ⟨-, -, hlt⟩ := hstand.wired.known c x hc
  obtain ⟨hcoming, hclosing, hleaving, hgoing⟩ := hrest.tally hstand.wired hc
  have honce := (hstand.lives.once c x hc).listed
  have hbal := hstand.balanced c x hc
  have hreleased : (s.tally c x).released = 0 := List.count_eq_zero.mpr (hstand.released c)
  have hframes : s.framesOf x.loop c = [] := hrest.framesOf hlt c
  by_cases hmem : c ∈ s.connections
  · refine .inl ⟨hmem, .inl hmem, ?_⟩
    have hlisted : (s.tally c x).listed = 1 := if_pos hmem
    have hclosed : (s.tally c x).closed = 0 := by
      have := hbal.leaving
      omega
    have hup : 0 < (s.tally c x).up := by
      have := hbal.coming
      omega
    have hnot : .closeCallback ∉ x.log := List.count_eq_zero.mp hclosed
    obtain ⟨hisUp, hwatched⟩ := up_at_rest hstand hc (.inl hmem) hframes
      (List.count_pos_iff.mp hup) hnot
    exact ⟨hisUp, hnot, hwatched⟩
  · have hlisted : (s.tally c x).listed = 0 := if_neg hmem
    have hgone : (s.tally c x).gone = 1 := by
      have := hbal.going
      omega
    have hclosed : (s.tally c x).closed = 1 := by
      have := hbal.leaving
      omega
    have hbegin : .destoryBegin ∈ x.log := by
      refine List.count_pos_iff.mp ?_
      show 0 < (s.tally c x).gone
      omega
    refine .inr ⟨hmem, ?_, hclosed, hgone, gone_at_rest hstand hc hframes hbegin⟩
    rw [hrest.alive_iff]
    exact or_iff_right hmem

/-- Two connections, the first of them closed by its peer; the user has kept a pointer to it. -/
theorem at_rest_held : ∃ s : TcpServer, s.connections = {2} ∧ s.Alive 1 ∧
    ∃ x, s.conns 1 = some x ∧ x.log.count .closeCallback = 1 ∧
      ∀ l fd e, (s.loops l).poller.interest fd = some e → e.1 ≠ 1 := by
  obtain ⟨s, hr, hconnections, hheld, hrest, hsome⟩ := exists_of_run Ordinary
    (connecting ++ [Action.hold 20 1] ++ closing ++ turn 0 1 ++ destroying ++
      [Action.batchEnd 1] ++ [Action.poll 0 [] true, .accept 8, .swap 0, .batchEnd 0] ++ turn 1 1)
    (fun s => s.connections = {2} ∧ (20, 1) ∈ s.held ∧ s.AtRest ∧ (s.conns 1).isSome = true)
    (by decide +kernel)
  obtain ⟨x, hx⟩ := Option.isSome_iff_exists.mp hsome
  rcases at_rest hr hrest hx with ⟨hmem, -⟩ | ⟨-, halive, hclosed, -, -, hnone⟩
  · rw [hconnections] at hmem
    simp at hmem
  · exact ⟨s, hconnections, halive.mpr ⟨_, hheld, rfl⟩, x, hx, hclosed, hnone⟩

end TcpServer

end Muduo
