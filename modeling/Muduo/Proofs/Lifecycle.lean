/-
The life of every connection of a server that stands.

`Lives` is the invariant: what each connection does is a run of its own system as long as it
is alive, its books balance, a poller knows no descriptor but those of live connections of
its loop, and no loop waits to handle any other.  A connection that dies has been through
`connectDestoryed`, which is why nothing refers to it then.
-/
import Muduo.Proofs.Alive
import Muduo.Proofs.Counted
import Muduo.Proofs.ServerView
import Muduo.ServerTrace

namespace Muduo

open Transcript

namespace TcpServer

variable {s s' : TcpServer} {a : Action} {l : LoopId} {c d : ConnId} {x x' z : Accepted}
  {f : Functor} {fd : Fd}

structure Lives (s : TcpServer) : Prop where
  once : ∀ c x, s.conns c = some x → (s.tally c x).Once
  run : ∀ c x, s.conns c = some x → s.Alive c →
    (ConnSystem.lts.restrict ConnSystem.Ordinary).Reachable (s.view c x)
  inTurn : ∀ c x, s.conns c = some x → Justified InTurn x.log
  ended : ∀ c x, s.conns c = some x → ¬ s.Alive c → .destoryEnd ∈ x.log
  fds : ∀ c d x z, s.conns c = some x → s.conns d = some z → s.Alive c → s.Alive d →
    x.conn.channel.fd = z.conn.channel.fd → c = d
  /-- A descriptor that a poller knows is that of a live connection. -/
  backed : ∀ l fd, (s.loops l).poller.channels fd ≠ none ∨ (s.loops l).poller.interest fd ≠ none →
    ∃ c x, s.conns c = some x ∧ x.loop = l ∧ x.conn.channel.fd = fd ∧ s.Alive c
  active : ∀ l, (s.loops l).active.Nodup ∧ ∀ c ∈ (s.loops l).active, s.Alive c

/-! ### A server that stands -/

theorem undestroyed_of_reachable (h : (lts.restrict Ordinary).Reachable s) :
    .destroy ∉ s.log ∧ ∀ c, .released c ∉ s.log := by
  refine h.induct (P := fun s => .destroy ∉ s.log ∧ ∀ c, .released c ∉ s.log) ?_ ?_
  · intro m hm
    rw [hm.log]
    simp
  · rintro m a m' hr ⟨hdestroy, hreleased⟩ hstep
    have hwired := wired_of_reachable hr.of_restrict
    obtain ⟨es, hes, hkind⟩ := (step_cases hwired hstep.2).records hwired
    have hnew : ∀ e ∈ es, e ≠ .destroy ∧ ∀ c, e ≠ .released c := by
      intro e he
      rcases hkind with rfl | ⟨-, rfl⟩ | ⟨d, z, -, ⟨-, hold⟩ | ⟨-, hall⟩⟩
      · simp at he
      · exact hstep.1.elim
      · exact absurd hold hdestroy
      · rcases hall e he with rfl | rfl <;> simp
    rw [hes]
    refine ⟨?_, fun c => ?_⟩
    · intro hmem
      rcases List.mem_append.mp hmem with hmem | hmem
      · exact hdestroy hmem
      · exact (hnew _ hmem).1 rfl
    · intro hmem
      rcases List.mem_append.mp hmem with hmem | hmem
      · exact hreleased c hmem
      · exact (hnew _ hmem).2 c rfl

/-- What waits or runs, waits or runs for a live connection. -/
theorem dead_tally (h : Wired s) (hc : s.conns c = some x) (hdead : ¬ s.Alive c) :
    (s.tally c x).listed = 0 ∧ (s.tally c x).going = 0 := by
  obtain ⟨-, -, hlt⟩ := h.known c x hc
  refine ⟨if_neg fun hmem => hdead (.inl hmem), ?_⟩
  refine List.count_eq_zero.mpr ?_
  intro hmem
  exact hdead (Alive.of_todo (f := .connectDestoryed c) h hlt hmem rfl)

/-- A connection that is dead has been destroyed. -/
theorem dead_gone (h : Wired s) (hc : s.conns c = some x) (honce : (s.tally c x).Once)
    (hbal : (s.tally c x).Balanced) (hdead : ¬ s.Alive c) : .destoryBegin ∈ x.log := by
  obtain ⟨hlisted, hgoing⟩ := dead_tally h hc hdead
  have h₁ := honce.listed
  have h₂ := hbal.going
  have hgone : 0 < x.log.count .destoryBegin := by
    show 0 < (s.tally c x).gone
    omega
  exact List.count_pos_iff.mp hgone

/-- `connectDestoryed` comes after the close callback. -/
theorem closedFirst (hbal : (s.tally c x).Balanced) (hreleased : .released c ∉ s.log) :
    s.ClosedFirst c x := by
  intro f hf hdestory hconn
  cases f with
  | connectDestoryed d =>
      obtain rfl : d = c := hconn
      have hgoing : 0 < (s.tally d x).going :=
        List.count_pos_iff.mpr (List.mem_append_left _ hf)
      have hrel : (s.tally d x).released = 0 := List.count_eq_zero.mpr hreleased
      have h₁ := hbal.leaving
      have h₂ := hbal.going
      have hclosed : 0 < x.log.count .closeCallback := by
        show 0 < (s.tally d x).closed
        omega
      exact List.count_pos_iff.mp hclosed
  | _ => simp [Functor.isDestory] at hdestory

/-! ### What a run of its own tells of a connection -/

section Run

variable (hrun : (ConnSystem.lts.restrict ConnSystem.Ordinary).Reachable (s.view c x))

include hrun

theorem run_agrees : (s.ctx x).Agrees := ConnSystem.agrees_of_reachable hrun.of_restrict

theorem run_inTurn : Justified InTurn x.log := by
  rcases ConnSystem.orderly_of_reachable hrun with hfresh | ⟨-, hord⟩
  · have hall : Justified InTurn ([] ++ x.log) := by
      refine justified_nil.append ?_
      intro e he before
      obtain ⟨t, rfl⟩ := hfresh.log e he
      trivial
    simpa using hall
  · exact hord.inTurn

/-- A connection enters `handleClose` once. -/
theorem run_enters (h : Wired s) (hc : s.conns c = some x) (hent : s.Enters a c x) :
    (s.tally c x).closing + (s.tally c x).closed = 0 := by
  obtain ⟨l, io, f, rest, -, rfl, hframes, hent⟩ := hent
  obtain rfl := h.inside_loop rfl hframes hc
  have hview : (s.view (s.loops x.loop).inside x).frames = f :: rest := by
    show (if _ then _ else _) = _
    rw [if_pos rfl, hframes]
  rcases ConnSystem.orderly_of_reachable hrun with hfresh | ⟨-, hord⟩
  · rcases hfresh.handed with ⟨hnil, -⟩ | ⟨hest, -⟩
    · rw [hview] at hnil
      simp at hnil
    · rw [hview, List.cons.injEq] at hest
      obtain ⟨rfl, -⟩ := hest
      exact hent.elim
  · have hdis := hord.disciplined.discipline
    -- the mask that enters `handleClose` is one that a closed connection does not have
    have hopen : x.conn.state ≠ .kDisconnected := by
      intro hs
      obtain ⟨hfin, -⟩ := hdis.closed hs
      cases f with
      | closePart => exact hfin.closePart (by simp [hview])
      | readPart =>
          have hnot := hfin.readPart (by simp [hview])
          rw [show (s.view _ x).conn = x.conn from rfl] at hnot
          have hhas : x.conn.channel.revents.has (EPOLLIN ||| EPOLLPRI) = true := hent.1
          rw [hnot] at hhas
          simp at hhas
      | _ => exact hent.elim
    obtain ⟨hup, hnot, -⟩ := hdis.opened hopen
    have hclosing : (s.tally (s.loops x.loop).inside x).closing = 0 := List.count_eq_zero.mpr hnot
    have hclosed : (s.tally (s.loops x.loop).inside x).closed = 0 :=
      List.count_eq_zero.mpr hup.not_closed
    rw [hclosing, hclosed]

/-- What a connection that has just died leaves behind. -/
theorem run_dead (h : Wired s) (hc : s.conns c = some x) (hbegin : .destoryBegin ∈ x.log)
    (hdead : ¬ s.Alive c) : .destoryEnd ∈ x.log ∧ c ∉ (s.loops x.loop).active ∧
      (s.loops x.loop).poller.channels x.conn.channel.fd = none ∧
      (s.loops x.loop).poller.interest x.conn.channel.fd = none := by
  obtain ⟨-, -, hlt⟩ := h.known c x hc
  have hframes : s.framesOf x.loop c = [] := by
    by_contra hne
    exact hdead (Alive.of_frames hlt hne)
  rcases ConnSystem.orderly_of_reachable hrun with hfresh | ⟨-, hord⟩
  · obtain ⟨t, ht⟩ := hfresh.log _ hbegin
    simp at ht
  · obtain ⟨hactive, -⟩ := hord.destruction.after hbegin
    obtain ⟨-, hindex⟩ := hord.destruction.done_of_idle hbegin hframes
    have hindex : x.conn.channel.index = .kNew := hindex
    have hag : (s.ctx x).Agrees := run_agrees hrun
    simp only [Ctx.Agrees, Channel.Agrees, ctx, hindex] at hag
    refine ⟨?_, ?_, hag⟩
    · rcases hord.begun hbegin with hend | hmem
      · exact hend
      · have hmem : .destoryRemove ∈ s.framesOf x.loop c := hmem
        rw [hframes] at hmem
        simp at hmem
    · intro hmem
      have hfalse : decide (c ∈ (s.loops x.loop).active) = false := hactive
      simp [hmem] at hfalse

end Run

/-! ### Pointers -/

/-- What a poller knows at a descriptor is the live connection that the descriptor is of. -/
theorem Lives.pointer (hl : Lives s) (h : Wired s)
    (hknown : (s.loops l).poller.channels fd ≠ none ∨ (s.loops l).poller.interest fd ≠ none) :
    ∃ c x, s.conns c = some x ∧ x.loop = l ∧ x.conn.channel.fd = fd ∧ s.Alive c ∧
      (∀ d, (s.loops l).poller.channels fd = some d → d = c) ∧
      ∀ e, (s.loops l).poller.interest fd = some e → e.1 = c := by
  obtain ⟨c, x, hc, rfl, rfl, halive⟩ := hl.backed l fd hknown
  have hag := run_agrees (hl.run c x hc halive)
  have hid := h.id hc
  simp only [Ctx.Agrees, Channel.Agrees, ctx] at hag
  refine ⟨c, x, hc, rfl, rfl, halive, ?_, ?_⟩
  · intro d hd
    split at hag
    · rw [hag.1] at hd
      simp at hd
    · rw [hag.1, Option.some.injEq] at hd
      exact hd.symm.trans hid
    · rw [hag.1, Option.some.injEq] at hd
      exact hd.symm.trans hid
  · intro e he
    split at hag
    · rw [hag.2] at he
      simp at he
    · rw [hag.2, Option.some.injEq] at he
      rw [← he]
      exact hid
    · rw [hag.2] at he
      simp at he

theorem Lives.distinct (hl : Lives s) (h : Wired s) : Distinct s := by
  refine ⟨hl.fds, ?_, fun l => (hl.active l).1⟩
  intro l fd c x hpt hc
  obtain ⟨e, he, rfl⟩ := Option.map_eq_some_iff.mp hpt
  obtain ⟨d, z, hd, -, hfd, -, -, howner⟩ := hl.pointer h (.inr (by rw [he]; simp))
  obtain rfl := howner e he
  rw [hc, Option.some.injEq] at hd
  rw [hd]
  exact hfd

/-! ### A new connection -/

theorem new_init (h : Wired s) (hl : Lives s) (hstep : Step s (.accept fd) s')
    (hx : s'.conns s.nextConnId = some x) : ConnSystem.Init (s'.view s.nextConnId x) := by
  have hmem : ∀ l f, f ∈ (s.loops l).batch ++ (s.loops l).queue → f.conn ≠ s.nextConnId := by
    intro l f hf heq
    obtain ⟨z, hz⟩ := h.known_todo hf
    rw [heq, h.fresh] at hz
    simp at hz
  have hqueue : ∀ l, (s.loops l).queue.filter (Functor.isOf s.nextConnId) = [] := fun l =>
    Functor.filter_isOf_of_ne fun f hf => hmem l f (List.mem_append_right _ hf)
  have hbatch : ∀ l, (s.loops l).batch.filter (Functor.isOf s.nextConnId) = [] := fun l =>
    Functor.filter_isOf_of_ne fun f hf => hmem l f (List.mem_append_left _ hf)
  have hactive : ∀ l, s.nextConnId ∉ (s.loops l).active := by
    intro l hin
    obtain ⟨z, hz, -⟩ := (h.loops l).active _ hin
    rw [h.fresh] at hz
    simp at hz
  -- the descriptor is no live connection's, so no poller knows it
  have hunknown : ∀ l, s.Enabled (.accept fd) → (s.loops l).poller.channels fd = none ∧
      (s.loops l).poller.interest fd = none := by
    intro l hen
    obtain ⟨-, -, -, -, -, hfree⟩ := hen
    have hnot : ¬ ((s.loops l).poller.channels fd ≠ none ∨
        (s.loops l).poller.interest fd ≠ none) := by
      intro hknown
      obtain ⟨c, z, hc, -, hfd, halive⟩ := hl.backed l fd hknown
      exact hfree c (h.known c z hc).2.1 z hc halive hfd
    simpa [not_or] using hnot
  cases hstep with
  | acceptHere en base =>
      obtain rfl : s.newAccepted fd = x := by simpa using hx
      obtain ⟨hchannels, hinterest⟩ := hunknown 0 en
      have hloop : (s.newAccepted fd).loop = 0 := base
      have hq := hqueue 0
      have hb := hbatch 0
      have ha := hactive 0
      refine ⟨⟨s.writeCompleteCallback, rfl⟩, ?_, ?_, .inr ⟨?_, ?_⟩, rfl, ?_, ?_, fun _ => rfl⟩
      all_goals simp only [view, hloop, enter_loops, enlist_loops, accepted_loops, if_true]
      · exact hchannels
      · exact hinterest
      · exact hq
      · exact decide_eq_false ha
      · exact hb
  | accept en other =>
      obtain rfl : s.newAccepted fd = x := by simpa using hx
      obtain ⟨hchannels, hinterest⟩ := hunknown s.getNextLoop.1 en
      have hloop : (s.newAccepted fd).loop = s.getNextLoop.1 := rfl
      have hframes : ((s.accepted.enlist fd).push s.getNextLoop.1
          (.connectEstablished s.nextConnId)).framesOf s.getNextLoop.1 s.nextConnId = [] := by
        rw [framesOf_push, framesOf_enlist, framesOf_accepted]
        exact h.framesOf_none h.fresh
      refine ⟨⟨s.writeCompleteCallback, rfl⟩, ?_, ?_, .inl ⟨?_, hframes⟩, rfl, ?_, ?_,
        fun _ => rfl⟩
      all_goals simp only [view, hloop, push_loops, enlist_loops, accepted_loops, if_true]
      · exact hchannels
      · exact hinterest
      · rw [List.filter_append, hqueue, List.nil_append]
        exact List.filter_cons_of_pos (by
          simp [Functor.isOf, Functor.conn, Functor.isRemoval])
      · exact decide_eq_false (hactive _)
      · exact hbatch _
  | call own => simp [Action.own] at own

theorem new_fd (h : Wired s) (hstep : Step s (.accept fd) s')
    (hx : s'.conns s.nextConnId = some x) :
    x.conn.channel.fd = fd ∧ s.nextConnId ∈ s'.connections ∧
      ∀ d z, s.conns d = some z → s.Alive d → z.conn.channel.fd ≠ fd := by
  have hfree : s.Enabled (.accept fd) → ∀ d z, s.conns d = some z → s.Alive d →
      z.conn.channel.fd ≠ fd := by
    rintro ⟨-, -, -, -, -, hfree⟩ d z hd halive
    exact hfree d (h.known d z hd).2.1 z hd halive
  cases hstep with
  | acceptHere en base =>
      obtain rfl : s.newAccepted fd = x := by simpa using hx
      exact ⟨rfl, Finset.mem_insert_self _ _, hfree en⟩
  | accept en other =>
      obtain rfl : s.newAccepted fd = x := by simpa using hx
      exact ⟨rfl, Finset.mem_insert_self _ _, hfree en⟩
  | call own => simp [Action.own] at own

/-! ### A step of a server that stands -/

/-- What is known of a server that stands, in every state it reaches. -/
structure Standing (s : TcpServer) : Prop where
  wired : Wired s
  unlogged : Unlogged s
  balanced : ∀ c x, s.conns c = some x → (s.tally c x).Balanced
  released : ∀ c, .released c ∉ s.log
  lives : Lives s

namespace Standing

theorem once (h : Standing s) (hstep : Step s a s') (hc : s'.conns c = some x') :
    (s'.tally c x').Once := by
  rcases hstep.origin h.wired h.unlogged hc with ⟨x, hx, -, hm, hent⟩ | ⟨-, hnew⟩
  · refine (h.lives.once c x hx).move (h.balanced c x hx) hm ?_ ?_
    · intro hlt
      have henters := hent hlt
      have halive : s.Alive c := by
        obtain ⟨l, io, f, rest, -, hin, hframes, -⟩ := henters
        obtain ⟨z, hz, hloop⟩ := (h.wired.loops l).frames (by simp [hframes])
        exact .inr (.inr ⟨l, by rw [← hloop]; exact (h.wired.known _ z hz).2.2,
          .inr ⟨by simp [hframes], hin⟩⟩)
      exact run_enters (h.lives.run c x hx halive) h.wired hx henters
    · intro _
      exact List.count_eq_zero.mpr (h.released c)
  · rw [hnew]
    exact ⟨by simp [Tally.new], by simp [Tally.new]⟩

theorem run (h : Standing s) (hord : s.Ordinary a) (hstep : Step s a s')
    (hc : s'.conns c = some x') (hwas : s.Alive c ∨ s.conns c = none) :
    (ConnSystem.lts.restrict ConnSystem.Ordinary).Reachable (s'.view c x') := by
  cases hx : s.conns c with
  | none =>
      rcases hstep.unknown hx with hnone | ⟨rfl, fd, rfl⟩
      · rw [hnone] at hc
        simp at hc
      · exact .of_init (new_init h.wired h.lives hstep hc)
  | some x =>
      have halive : s.Alive c := hwas.resolve_right (by simp [hx])
      have hfirst := closedFirst (h.balanced c x hx) (h.released c)
      obtain ⟨z, hz, -, bs, hpath⟩ :=
        hstep.follows h.wired (h.lives.distinct h.wired) hord hfirst hx halive
      obtain rfl : x' = z := Option.some.inj (hc.symm.trans hz)
      exact (h.lives.run c x hx halive).path hpath

/-- A connection that dies has been destroyed, and nothing refers to it. -/
theorem dead (h : Standing s) (hord : s.Ordinary a) (hstep : Step s a s')
    (hc : s'.conns c = some x') (hwas : s.Alive c) (hdead : ¬ s'.Alive c) :
    .destoryEnd ∈ x'.log ∧ c ∉ (s'.loops x'.loop).active ∧
      (s'.loops x'.loop).poller.channels x'.conn.channel.fd = none ∧
      (s'.loops x'.loop).poller.interest x'.conn.channel.fd = none := by
  have hwired := h.wired.step hstep
  have honce := h.once hstep hc
  have hbalanced : (s'.tally c x').Balanced := by
    rcases hstep.origin h.wired h.unlogged hc with ⟨x, hx, -, hm, -⟩ | ⟨-, hnew⟩
    · exact (h.balanced c x hx).move hm
    · rw [hnew]
      exact ⟨rfl, rfl, rfl⟩
  have hrun := h.run hord hstep hc (.inl hwas)
  exact run_dead hrun hwired hc (dead_gone hwired hc honce hbalanced hdead) hdead

theorem fds (h : Standing s) (hstep : Step s a s') (hc : s'.conns c = some x')
    (hd : s'.conns d = some z) (hca : s'.Alive c)
    (hda : s'.Alive d) (hfd : x'.conn.channel.fd = z.conn.channel.fd) : c = d := by
  -- a connection of the new state is an old one that was alive, or the one just accepted
  have hcases : ∀ {c x'}, s'.conns c = some x' → s'.Alive c →
      (∃ x, s.conns c = some x ∧ s.Alive c ∧ x'.conn.channel.fd = x.conn.channel.fd) ∨
      (c = s.nextConnId ∧ ∀ d z, s.conns d = some z → s.Alive d →
        z.conn.channel.fd ≠ x'.conn.channel.fd) := by
    intro c x' hc hca
    cases hx : s.conns c with
    | some x =>
        exact .inl ⟨x, rfl, hstep.alive h.wired hx hca, (hstep.kept h.wired hx hc).1⟩
    | none =>
        rcases hstep.unknown hx with hnone | ⟨rfl, fd, rfl⟩
        · rw [hnone] at hc
          simp at hc
        · obtain ⟨heq, -, hfree⟩ := new_fd h.wired hstep hc
          rw [heq]
          exact .inr ⟨rfl, hfree⟩
  rcases hcases hc hca with ⟨x, hx, hxa, hxfd⟩ | ⟨rfl, hcfree⟩
  · rcases hcases hd hda with ⟨w, hw, hwa, hwfd⟩ | ⟨rfl, hdfree⟩
    · exact h.lives.fds c d x w hx hw hxa hwa (by rw [← hxfd, hfd, hwfd])
    · exact absurd (hxfd.symm.trans hfd) (hdfree c x hx hxa)
  · rcases hcases hd hda with ⟨w, hw, hwa, hwfd⟩ | ⟨rfl, -⟩
    · exact absurd (hwfd.symm.trans hfd.symm) (hcfree d w hw hwa)
    · rfl

theorem backed (h : Standing s) (hord : s.Ordinary a) (hstep : Step s a s')
    (hknown : (s'.loops l).poller.channels fd ≠ none ∨
    (s'.loops l).poller.interest fd ≠ none) :
    ∃ c x, s'.conns c = some x ∧ x.loop = l ∧ x.conn.channel.fd = fd ∧ s'.Alive c := by
  obtain ⟨c, x, hc, hloop, hfd, halive⟩ : ∃ c x, s.conns c = some x ∧ x.loop = l ∧
      x.conn.channel.fd = fd ∧ s.Alive c := by
    have hpoller : PollerKept s s' l fd ∨ _ := hstep.poller
    rcases hpoller with ⟨hchannels, hinterest⟩ | hown
    · rw [hchannels, hinterest] at hknown
      exact h.lives.backed l fd hknown
    · exact hown
  obtain ⟨x', hc', hloop', -⟩ := hstep.move h.wired hc
  have hfd' := (hstep.kept h.wired hc hc').1
  refine ⟨c, x', hc', hloop'.trans hloop, hfd'.trans hfd, ?_⟩
  by_contra hdead
  obtain ⟨-, -, hchannels, hinterest⟩ :=
    h.dead hord hstep hc' halive hdead
  rw [hloop'.trans hloop, hfd'.trans hfd] at hchannels hinterest
  rcases hknown with hknown | hknown
  · exact hknown hchannels
  · exact hknown hinterest

theorem active (h : Standing s) (hord : s.Ordinary a) (hstep : Step s a s') :
    (s'.loops l).active.Nodup ∧ ∀ c ∈ (s'.loops l).active, s'.Alive c := by
  have hold : (s'.loops l).active.Nodup ∧ ∀ c ∈ (s'.loops l).active, s.Alive c := by
    rcases hstep.active (l := l) with hsub | ⟨reports, accepting, en, heq⟩
    · obtain ⟨hnodup, halive⟩ := h.lives.active l
      exact ⟨hnodup.sublist hsub, fun c hc => halive c (hsub.subset hc)⟩
    · obtain ⟨-, -, hnodup, hpointee, -⟩ := en
      have hdist := h.lives.distinct h.wired
      rw [heq]
      refine ⟨?_, ?_⟩
      · have hmap : (reports.filterMap fun r => s.pointee l r.1) =
            (reports.map Prod.fst).filterMap (s.pointee l) := by
          rw [List.filterMap_map]
          rfl
        rw [hmap]
        refine hnodup.filterMap ?_
        intro fd fd' c hc hc'
        obtain ⟨x, hx, -⟩ := h.wired.pointee hc
        rw [← hdist.pointee l fd c x hc hx, hdist.pointee l fd' c x hc' hx]
      · intro c hc
        obtain ⟨r, hr, hpt⟩ := List.mem_filterMap.mp hc
        obtain ⟨d, hd, halive⟩ := hpointee r hr
        obtain rfl : d = c := Option.some.inj (Eq.trans (Eq.symm hd) hpt)
        exact halive
  refine ⟨hold.1, ?_⟩
  intro c hc
  by_contra hdead
  have hhome := ((h.wired.step hstep).loops l).active c hc
  obtain ⟨x', hx', hloop⟩ := hhome
  obtain ⟨-, hnot, -⟩ :=
    h.dead hord hstep hx' (hold.2 c hc) hdead
  rw [hloop] at hnot
  exact hnot hc

theorem step (h : Standing s) (hord : s.Ordinary a) (hstep : Step s a s') : Lives s' := by
  refine ⟨?_, ?_, ?_, ?_, ?_, ?_, ?_⟩
  · intro c x' hc
    exact h.once hstep hc
  · intro c x' hc halive
    refine h.run hord hstep hc ?_
    cases hx : s.conns c with
    | none => exact .inr rfl
    | some x => exact .inl (hstep.alive h.wired hx halive)
  · intro c x' hc
    by_cases hwas : s.Alive c ∨ s.conns c = none
    · exact run_inTurn (h.run hord hstep hc hwas)
    · rw [not_or] at hwas
      obtain ⟨x, hx⟩ := Option.ne_none_iff_exists'.mp hwas.2
      rw [(hstep.kept h.wired hx hc).2 hwas.1]
      exact h.lives.inTurn c x hx
  · intro c x' hc hdead
    cases hx : s.conns c with
    | none =>
        rcases hstep.unknown hx with hnone | ⟨rfl, fd, rfl⟩
        · rw [hnone] at hc
          simp at hc
        · exact absurd (.inl (new_fd h.wired hstep hc).2.1) hdead
    | some x =>
        by_cases hwas : s.Alive c
        · exact (h.dead hord hstep hc hwas hdead).1
        · rw [(hstep.kept h.wired hx hc).2 hwas]
          exact h.lives.ended c x hx hwas
  · intro c d x z hc hd hca hda hfd
    exact h.fds hstep hc hd hca hda hfd
  · intro l fd hknown
    exact h.backed hord hstep hknown
  · intro l
    exact h.active hord hstep

end Standing

theorem Standing.of_lives (h : (lts.restrict Ordinary).Reachable s) (hl : Lives s) : Standing s :=
  ⟨wired_of_reachable h.of_restrict, unlogged_of_reachable h.of_restrict,
    fun _ _ hc => balanced_of_reachable h.of_restrict hc, (undestroyed_of_reachable h).2, hl⟩

theorem Lives.init (h : lts.init s) : Lives s := by
  have hnone : ∀ c x, s.conns c ≠ some x := by
    intro c x
    rw [h.conns]
    simp
  refine ⟨fun c x hc => absurd hc (hnone c x), fun c x hc => absurd hc (hnone c x),
    fun c x hc => absurd hc (hnone c x), fun c x hc => absurd hc (hnone c x),
    fun c d x z hc => absurd hc (hnone c x), ?_, ?_⟩
  · intro l fd hknown
    rw [h.loops l] at hknown
    simp [LoopState.start, EpollPoller.empty] at hknown
  · intro l
    rw [h.loops l]
    simp [LoopState.start]

theorem standing_of_reachable (h : (lts.restrict Ordinary).Reachable s) : Standing s := by
  refine .of_lives h (h.induct (fun _ h0 => Lives.init h0) ?_)
  intro m a m' hr hl hstep
  have hstand := Standing.of_lives hr hl
  exact hstand.step hstep.1 (step_cases hstand.wired hstep.2)

/-! ### The lifecycle -/

/-- The life of an accepted connection so far. -/
structure Lived (s : TcpServer) (c : ConnId) (x : Accepted) : Prop where
  /-- `connectEstablished` is still to run or has run, once. -/
  established : (s.tally c x).coming + (s.tally c x).up = 1
  /-- It has run before any event is handled. -/
  events : ∀ before revents after, x.log = before ++ .handleEvent revents :: after →
    before.count .establish = 1
  /-- `connectDestoryed` runs at most once, on the connection's own loop, after the close
  callback that `handleClose` ends with. -/
  destroyed : x.log.count .destoryBegin ≤ 1
  own : ∀ l, .connectDestoryed c ∈ s.todo l → l = x.loop
  closed : ∀ before after, x.log = before ++ .destoryBegin :: after → .closeCallback ∈ before
  /-- Until it has returned somebody holds a pointer. -/
  alive : .destoryEnd ∉ x.log → s.Alive c

/-- In a server that stands, whose connections are used on their own loops, `connections_` has
the connections that are accepted and not removed, every connection goes through its life in
order and once, and every pointer to a channel is one to a live connection. -/
theorem lifecycle (h : (lts.restrict Ordinary).Reachable s) :
    (∀ c, c ∈ s.connections ↔
      (∃ x, s.conns c = some x) ∧ .removeConnectionInLoop c ∉ s.log) ∧
    (∀ c x, s.conns c = some x → s.Lived c x) ∧
    ∀ l, (∀ fd e, (s.loops l).poller.interest fd = some e → s.Alive e.1) ∧
      (∀ fd c, (s.loops l).poller.channels fd = some c → s.Alive c) ∧
      ∀ c ∈ (s.loops l).active, s.Alive c := by
  have hstand := standing_of_reachable h
  refine ⟨?_, ?_, ?_⟩
  · intro c
    have hlisted : ∀ x, s.conns c = some x →
        (c ∈ s.connections ↔ .removeConnectionInLoop c ∉ s.log) := by
      intro x hc
      have honce := (hstand.lives.once c x hc).listed
      have hrel : (s.tally c x).released = 0 := List.count_eq_zero.mpr (hstand.released c)
      rw [← List.count_eq_zero]
      show _ ↔ (s.tally c x).removed = 0
      by_cases hmem : c ∈ s.connections
      · have hone : (s.tally c x).listed = 1 := if_pos hmem
        exact ⟨fun _ => by omega, fun _ => hmem⟩
      · have hzero : (s.tally c x).listed = 0 := if_neg hmem
        exact ⟨fun hin => absurd hin hmem, fun _ => by omega⟩
    constructor
    · intro hmem
      obtain ⟨x, hc⟩ := hstand.wired.listed c hmem
      exact ⟨⟨x, hc⟩, (hlisted x hc).mp hmem⟩
    · rintro ⟨⟨x, hc⟩, hnot⟩
      exact (hlisted x hc).mpr hnot
  · intro c x hc
    have hbal := hstand.balanced c x hc
    have hturn := hstand.lives.inTurn c x hc
    refine ⟨hbal.coming, ?_, (hstand.lives.once c x hc).gone_le hbal, ?_, ?_, ?_⟩
    · intro before revents after heq
      have hmem : .establish ∈ before := hturn before _ after heq
      have hpos : 0 < before.count .establish := List.count_pos_iff.mpr hmem
      have hle : before.count .establish ≤ (s.tally c x).up := by
        show _ ≤ x.log.count .establish
        rw [heq, List.count_append]
        exact Nat.le_add_right _ _
      have hone := hbal.coming
      omega
    · intro l hmem
      have hplaced : s.Placed l (.connectDestoryed c) := by
        rcases List.mem_append.mp hmem with hmem | hmem
        · exact (hstand.wired.loops l).functors _
            (List.mem_append_right _ ((hstand.wired.loops l).batch _ hmem))
        · exact (hstand.wired.loops l).functors _ (List.mem_append_left _ hmem)
      exact ((hplaced.home rfl).loop hc).symm
    · intro before after heq
      exact hturn before _ after heq
    · intro hnot
      by_contra hdead
      exact hnot (hstand.lives.ended c x hc hdead)
  · intro l
    refine ⟨?_, ?_, (hstand.lives.active l).2⟩
    · intro fd e he
      have hknown : (s.loops l).poller.interest fd ≠ none := by simp [he]
      obtain ⟨c, x, -, -, -, halive, -, howner⟩ :=
        hstand.lives.pointer hstand.wired (.inr hknown)
      rw [howner e he]
      exact halive
    · intro fd c hc
      have hknown : (s.loops l).poller.channels fd ≠ none := by simp [hc]
      obtain ⟨d, x, -, -, -, halive, howner, -⟩ :=
        hstand.lives.pointer hstand.wired (.inl hknown)
      rw [howner c hc]
      exact halive

instance (s : TcpServer) (a : Action) : Decidable (s.Ordinary a) :=
  match a with
  | .destroy => .isFalse id
  | .send t c _ _ => inferInstanceAs (Decidable (∀ x ∈ s.conns c, t = s.threadId x.loop))
  | .shutdown t c => inferInstanceAs (Decidable (∀ x ∈ s.conns c, t = s.threadId x.loop))
  | .poll _ reports _ => inferInstanceAs (Decidable (∀ r ∈ reports, Plausible r.2))
  | .accept _ | .sendRun _ _ _ | .shutdownStore _ _ | .shutdownRun _ _
  | .setWriteCompleteCallback _ _ | .setHighWaterMarkCallback _ _ _ | .poke _ _ | .hold _ _
  | .drop _ _ | .handleEvent _ _ | .frame _ _ | .swap _ | .functor _ _ | .batchEnd _
  | .release _ => .isTrue trivial

/-- Connection 1 is closed by its peer, destroyed and gone; connection 2 then has its
descriptor. -/
theorem lifecycle_closed : ∃ s : TcpServer, s.connections = {2} ∧ ¬ s.Alive 1 ∧
    ∃ x, s.conns 1 = some x ∧ s.Lived 1 x := by
  obtain ⟨s, hr, hconnections, hdead, x, hx⟩ := exists_of_run Ordinary
    (connecting ++ closing ++ turn 0 1 ++ destroying ++ [Action.batchEnd 1] ++
      [Action.poll 0 [] true, .accept 7, .swap 0, .batchEnd 0] ++ turn 1 1)
    (fun s => s.connections = {2} ∧ ¬ s.Alive 1 ∧ ∃ x ∈ s.conns 1, .destoryEnd ∈ x.log)
    (by decide +kernel)
  exact ⟨s, hconnections, hdead, x, hx.1, (lifecycle hr).2.1 1 x hx.1⟩

end TcpServer

end Muduo
