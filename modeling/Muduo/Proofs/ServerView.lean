/-
Each connection of a server is a connection.

A step of the server is, for each of its connections, a step of that connection's own system
or none at all: a step of the connection is the step with the same name, and of what happens
to the others of its loop it sees a change of the poller at their descriptors.  So what is
known of every run of `ConnSystem` is known of each connection of a server.
-/
import Muduo.Proofs.Tally
import Muduo.Proofs.Orderly

namespace Muduo

namespace Functor

variable {c : ConnId} {f : Functor} {q : List Functor}

theorem isOf_of_ne (h : f.conn ≠ c) : f.isOf c = false := by
  simp [isOf, h]

theorem filter_isOf_of_ne (h : ∀ f ∈ q, f.conn ≠ c) : q.filter (isOf c) = [] := by
  refine List.filter_eq_nil_iff.mpr ?_
  intro f hf
  simp [isOf_of_ne (h f hf)]

theorem filter_isOf_of_own (h : ∀ f ∈ q, f.conn = c ∧ f.isRemoval = false) :
    q.filter (isOf c) = q := by
  refine List.filter_eq_self.mpr ?_
  intro f hf
  obtain ⟨hconn, hr⟩ := h f hf
  simp [isOf, hconn, hr]

theorem conn_ne_of_own {d : ConnId} (hne : d ≠ c)
    (h : ∀ f ∈ q, f.conn = d ∧ f.isRemoval = false) : ∀ f ∈ q, f.conn ≠ c := by
  intro f hf hconn
  exact hne ((h f hf).1.symm.trans hconn)

end Functor

namespace TcpServer

variable {s s' : TcpServer} {a : Action} {l : LoopId} {c d : ConnId} {x x' z : Accepted}
  {y : Ctx} {t : Tid} {pc : CallPc} {f : Functor} {fs : List Frame} {e : ServerEntry} {fd : Fd}
  {b : ConnSystem.Action} {rest : List Functor}

/-! ### What an update of another connection is to a connection -/

@[simp] theorem view_record : (s.record e).view c x = s.view c x := rfl
@[simp] theorem view_erased : (s.erased d e).view c x = s.view c x := rfl
@[simp] theorem view_enlist : (s.enlist fd).view c x = s.view c x := rfl
@[simp] theorem view_handled : (s.handled d z).view c x = s.view c x := rfl
@[simp] theorem view_accepted : s.accepted.view c x = s.view c x := by simp [view]

theorem view_push_other (h : f.isOf c = false) : (s.push l f).view c x = s.view c x := by
  have hnil : (if x.loop = l then [f] else []).filter (Functor.isOf c) = [] := by
    split <;> simp [h]
  simp only [view, push_loops, push_threadId, push_mem, List.filter_append, hnil,
    List.append_nil]

theorem view_popped_other (hbatch : (s.loops l).batch = f :: rest) (h : f.isOf c = false) :
    (s.popped l rest).view c x = s.view c x := by
  have hfilter : (if x.loop = l then rest else (s.loops x.loop).batch).filter (Functor.isOf c) =
      (s.loops x.loop).batch.filter (Functor.isOf c) := by
    by_cases hl : x.loop = l
    · rw [if_pos hl, hl, hbatch, List.filter_cons_of_neg (by simp [h])]
    · rw [if_neg hl]
  simp only [view, popped_loops, popped_threadId, popped_mem, hfilter]

theorem view_enter_other (hd : d ≠ c) (hframes : s.framesOf l c = []) :
    (s.enter l d fs).view c x = s.view c x := by
  have hsame : (s.enter l d fs).framesOf x.loop c = s.framesOf x.loop c := by
    rw [framesOf_enter, if_neg hd]
    by_cases hl : x.loop = l
    · rw [if_pos hl, hl, hframes]
    · rw [if_neg hl]
  unfold framesOf at hsame
  simp only [view, hsame]
  simp only [enter_loops, enter_threadId, enter_mem]

theorem view_put_other (hpending : ∀ f ∈ y.pending, f.conn ≠ c) :
    (s.put d z y).view c x =
      { s.view c x with
        poller := if x.loop = z.loop then y.poller else (s.loops x.loop).poller } := by
  have hnil : (if x.loop = z.loop then y.pending else []).filter (Functor.isOf c) = [] := by
    split
    · exact Functor.filter_isOf_of_ne hpending
    · rfl
  simp only [view, put_loops, put_threadId, put_mem, List.filter_append, hnil, List.append_nil]

/-! ### What an update of its own is to it -/

theorem view_put_self (hpending : ∀ f ∈ y.pending, f.conn = c ∧ f.isRemoval = false) :
    (s.put c x y).view c { x with conn := y.conn, log := y.log } = (s.view c x).put y := by
  simp only [view, ConnSystem.put, put_loops, put_threadId, put_mem, if_true, List.filter_append,
    Functor.filter_isOf_of_own hpending]

theorem view_enter_self : (s.enter x.loop c fs).view c x = { s.view c x with frames := fs } := by
  simp only [view, enter_loops, enter_threadId, enter_mem, if_true]

theorem view_push_self (h : f.isOf c = true) : (s.push x.loop f).view c x =
    { s.view c x with queue := (s.view c x).queue ++ [f] } := by
  have hself : [f].filter (Functor.isOf c) = [f] := List.filter_cons_of_pos h
  simp only [view, push_loops, push_threadId, push_mem, if_true, List.filter_append, hself]

theorem view_popped_self : (s.popped x.loop rest).view c x =
    { s.view c x with batch := rest.filter (Functor.isOf c) } := by
  simp only [view, popped_loops, popped_threadId, popped_mem, if_true]

theorem view_swapped_self : (s.swapped x.loop).view c x =
    { s.view c x with phase := .functors, batch := (s.view c x).queue, queue := [] } := by
  simp only [view, swapped_loops, swapped_threadId, swapped_mem, if_true, List.filter_nil]

theorem view_swapped_other (hl : x.loop ≠ l) : (s.swapped l).view c x = s.view c x := by
  simp only [view, swapped_loops, swapped_threadId, swapped_mem, if_neg hl]

theorem view_batchEnded_self : (s.batchEnded x.loop).view c x =
    { s.view c x with phase := .polling } := by
  simp only [view, batchEnded_loops, batchEnded_threadId, batchEnded_mem, if_true]

theorem view_batchEnded_other (hl : x.loop ≠ l) : (s.batchEnded l).view c x = s.view c x := by
  simp only [view, batchEnded_loops, batchEnded_threadId, batchEnded_mem, if_neg hl]

theorem view_taken_other {cs : List ConnId} (hactive : (s.loops l).active = d :: cs)
    (hd : d ≠ c) : (s.taken l cs).view c x = s.view c x := by
  have hsame : (c ∈ if x.loop = l then cs else (s.loops x.loop).active) ↔
      c ∈ (s.loops x.loop).active := by
    by_cases hl : x.loop = l
    · rw [if_pos hl, hl, hactive, List.mem_cons]
      exact ⟨.inr, fun h => h.resolve_left (Ne.symm hd)⟩
    · rw [if_neg hl]
  simp only [view, taken_loops, taken_threadId, taken_mem, hsame]

theorem view_taken_self {cs : List ConnId} (hc : c ∉ cs) :
    (s.taken x.loop cs).view c x = { s.view c x with active := false } := by
  simp only [view, taken_loops, taken_threadId, taken_mem, if_true, hc, decide_false]

/-! ### The loop's poll -/

theorem view_poll_self {reports : List (Fd × Events)} {accepting : Bool}
    (hactive : (s.loops x.loop).active = []) :
    (s.poll x.loop reports accepting).view c (s.reported x.loop reports c x) =
      (s.view c x).poll
        ((reports.find? fun r => s.pointee x.loop r.1 = some c).map Prod.snd) := by
  cases hfind : reports.find? fun r => s.pointee x.loop r.1 = some c with
  | none =>
      have hnot : c ∉ reports.filterMap fun r => s.pointee x.loop r.1 := by
        intro hmem
        obtain ⟨r, hr, hpt⟩ := List.mem_filterMap.mp hmem
        have hno := List.find?_eq_none.mp hfind r hr
        simp [hpt] at hno
      have hsame : s.reported x.loop reports c x = x := by simp only [reported, hfind]
      rw [hsame]
      simp [view, ConnSystem.poll, hactive, hnot]
  | some r =>
      have hmem : c ∈ reports.filterMap fun r => s.pointee x.loop r.1 := by
        have hpt := List.find?_some hfind
        exact List.mem_filterMap.mpr ⟨r, List.mem_of_find?_eq_some hfind, by simpa using hpt⟩
      have hsome : s.reported x.loop reports c x =
          { x with conn := { x.conn with channel := { x.conn.channel with revents := r.2 } } } := by
        simp only [reported, hfind]
      rw [hsome]
      simp [view, ConnSystem.poll, hmem]

theorem view_poll_other {reports : List (Fd × Events)} {accepting : Bool} (hl : x.loop ≠ l) :
    (s.poll l reports accepting).view c x = s.view c x := by
  simp only [view, poll_loops, poll_threadId, poll_mem, if_neg hl]

/-- A connection of another loop is not reported. -/
theorem Wired.reported_other (h : Wired s) (hc : s.conns c = some x) (hl : x.loop ≠ l)
    {reports : List (Fd × Events)} : s.reported l reports c x = x := by
  have hnone : reports.find? (fun r => s.pointee l r.1 = some c) = none := by
    refine List.find?_eq_none.mpr ?_
    intro r _ hpt
    exact hl ((h.pointee (by simpa using hpt)).loop hc)
  simp only [reported, hnone]

/-! ### A step of the server is a step of the connection -/

/-- The server stands, members of a connection are called on its own loop, and `epoll_wait`
reports masks that occur. -/
def Ordinary (s : TcpServer) : Action → Prop
  | .destroy => False
  | .send t c _ _ => ∀ x ∈ s.conns c, t = s.threadId x.loop
  | .shutdown t c => ∀ x ∈ s.conns c, t = s.threadId x.loop
  | .poll _ reports _ => ∀ r ∈ reports, Plausible r.2
  | _ => True

/-- What pollers and loops know a connection by is its own. -/
structure Distinct (s : TcpServer) : Prop where
  fds : ∀ c d x z, s.conns c = some x → s.conns d = some z → s.Alive c → s.Alive d →
    x.conn.channel.fd = z.conn.channel.fd → c = d
  pointee : ∀ l fd c x, s.pointee l fd = some c → s.conns c = some x → x.conn.channel.fd = fd
  active : ∀ l, (s.loops l).active.Nodup

/-- Two connections that are alive have different descriptors. -/
theorem Distinct.fd_ne (h : Distinct s) (hc : s.conns c = some x) (hd : s.conns d = some z)
    (halive : s.Alive c) (hdalive : s.Alive d) (hne : d ≠ c) :
    x.conn.channel.fd ≠ z.conn.channel.fd := by
  intro heq
  exact hne (h.fds c d x z hc hd halive hdalive heq).symm

/-- `connectDestoryed` of the connection, when it is the next functor of its loop, comes after
the close callback. -/
def ClosedFirst (s : TcpServer) (c : ConnId) (x : Accepted) : Prop :=
  ∀ f ∈ (s.loops x.loop).batch, f.isDestory = true → f.conn = c → .closeCallback ∈ x.log

/-- The connection does in its own system what the server's step does to it. -/
def Follows (s s' : TcpServer) (c : ConnId) (x : Accepted) : Prop :=
  ∃ x', s'.conns c = some x' ∧ x'.loop = x.loop ∧
    ∃ bs, Lts.Path (ConnSystem.lts.restrict ConnSystem.Ordinary) (s.view c x) bs (s'.view c x')

namespace Follows

theorem same (hc : s'.conns c = some z) (hloop : z.loop = x.loop)
    (hview : s'.view c z = s.view c x) : Follows s s' c x := by
  refine ⟨z, hc, hloop, [], ?_⟩
  rw [hview]
  exact .nil

theorem single (hc : s'.conns c = some z) (hloop : z.loop = x.loop)
    (hcond : ConnSystem.Ordinary (s.view c x) b) {v : ConnSystem}
    (hstep : ConnSystem.lts.step (s.view c x) b v) (hview : s'.view c z = v) :
    Follows s s' c x := by
  refine ⟨z, hc, hloop, [b], ?_⟩
  rw [hview]
  exact .single ⟨hcond, hstep⟩

theorem trans {m : TcpServer} (h₁ : Follows s m c x)
    (h₂ : ∀ z, m.conns c = some z → Follows m s' c z) : Follows s s' c x := by
  obtain ⟨z, hz, hloop, bs, hpath⟩ := h₁
  obtain ⟨x', hx, hloop', bs', hpath'⟩ := h₂ z hz
  exact ⟨x', hx, hloop'.trans hloop, bs ++ bs', hpath.append hpath'⟩

/-- Another connection of the server has run a piece of its code. -/
theorem put_other (hc : s'.conns c = some x)
    (hfd : x.loop = z.loop → x.conn.channel.fd ≠ z.conn.channel.fd)
    (hels : Ctx.Elsewhere (s.ctx z) y) (hpending : ∀ f ∈ y.pending, f.conn ≠ c)
    (hview : s'.view c x = (s.put d z y).view c x) : Follows s s' c x := by
  refine .single (b := .others (if x.loop = z.loop then y.poller else (s.loops x.loop).poller))
    hc rfl ⟨trivial, trivial, trivial⟩ ⟨?_, rfl⟩ (hview.trans (view_put_other hpending))
  by_cases hl : x.loop = z.loop
  · have hown := hels x.conn.channel.fd (hfd hl)
    rw [if_pos hl]
    show y.poller.channels x.conn.channel.fd = (s.loops x.loop).poller.channels _ ∧
      y.poller.interest x.conn.channel.fd = (s.loops x.loop).poller.interest _
    rw [hl]
    exact hown
  · rw [if_neg hl]
    exact ⟨rfl, rfl⟩

/-- The server queues `connectDestoryed`. -/
theorem queue_destory (hc : s'.conns c = some x) (hid : x.conn.channel.id = c)
    (hview : s'.view c x = (s.push x.loop (.connectDestoryed c)).view c x) :
    Follows s s' c x := by
  refine .single (b := .queueDestory) hc rfl ⟨trivial, trivial, trivial⟩ ⟨trivial, rfl⟩ ?_
  rw [hview, view_push_self (by simp [Functor.isOf, Functor.conn, Functor.isRemoval])]
  simp only [view, hid]

end Follows

/-! ### The steps, one by one -/

theorem Wired.view_idle (h : Wired s) (hidle : s.LoopIdle x.loop) (hc : s.conns c = some x) :
    (s.view c x).LoopIdle :=
  ⟨h.idle hidle.2.1 hc, framesOf_of_idle hidle.2.2⟩

theorem Ordinary.own (hord : s.Ordinary a) (hown : a.own = some (c, b)) (hc : s.conns c = some x) :
    ConnSystem.Ordinary (s.view c x) b := by
  cases a with
  | send t d message len =>
      obtain ⟨rfl, rfl⟩ := Prod.mk.inj (Option.some.inj hown)
      exact ⟨hord x hc, trivial, trivial⟩
  | shutdown t d =>
      obtain ⟨rfl, rfl⟩ := Prod.mk.inj (Option.some.inj hown)
      exact ⟨hord x hc, trivial, trivial⟩
  | sendRun t d w | shutdownStore t d | shutdownRun t d | setWriteCompleteCallback d isSet
  | setHighWaterMarkCallback d isSet mark =>
      obtain ⟨rfl, rfl⟩ := Prod.mk.inj (Option.some.inj hown)
      exact ⟨trivial, trivial, trivial⟩
  | _ => simp [Action.own] at hown

/-- A piece of the connection's own code. -/
theorem follows_frame (h : Wired s) (hc : s.conns c = some x) {io : Io} {g : Frame}
    {gs : List Frame} (pc : s.Idle (s.threadId x.loop)) (inside : (s.loops x.loop).inside = c)
    (frames : (s.loops x.loop).frames = g :: gs) (hrun : (s.ctx x).runFrame io g = .ok (y, fs)) :
    ConnSystem.lts.step (s.view c x) (.frame io)
      (((s.put c x y).enter x.loop c (fs ++ gs)).view c
        { x with conn := y.conn, log := y.log }) := by
  have hframes : (s.view c x).frames = g :: gs := by
    show (if (s.loops x.loop).inside = c then (s.loops x.loop).frames else []) = _
    rw [if_pos inside, frames]
  refine ⟨⟨h.idle pc hc, by simp [hframes]⟩, ?_⟩
  rw [view_enter_self (x := { x with conn := y.conn, log := y.log }),
    view_put_self (h.named_own hc (Ctx.runFrame_named hrun))]
  simp only [ConnSystem.exec, hframes]
  exact Except.bind_eq_ok.mpr ⟨(y, fs), hrun, rfl⟩

/-- One of the connection's own functors. -/
theorem follows_functor (h : Wired s) (hc : s.conns c = some x) {io : Io}
    (idle : s.LoopIdle x.loop) (phase : (s.loops x.loop).phase = .functors)
    (batch : (s.loops x.loop).batch = f :: rest) (hf : f.isRemoval = false) (hconn : f.conn = c)
    (hrun : (s.ctx x).runFunctor s.mem io f = .ok (y, fs)) :
    ConnSystem.lts.step (s.view c x) (.functor io)
      ((((s.popped x.loop rest).put c x y).enter x.loop c fs).view c
        { x with conn := y.conn, log := y.log }) := by
  have hbatch : (s.view c x).batch = f :: rest.filter (Functor.isOf c) := by
    show (s.loops x.loop).batch.filter _ = _
    rw [batch, List.filter_cons_of_pos (by simp [Functor.isOf, hconn, hf])]
  refine ⟨⟨h.view_idle idle hc, phase, by simp [hbatch]⟩, ?_⟩
  rw [view_enter_self (x := { x with conn := y.conn, log := y.log }),
    view_put_self (h.named_own hc (Ctx.runFunctor_named hrun)), view_popped_self]
  simp only [ConnSystem.exec, hbatch]
  exact Except.bind_eq_ok.mpr ⟨(y, fs), hrun, rfl⟩

/-- A piece of the code of another connection of the server. -/
theorem follows_frame_other (h : Wired s) (hdist : Distinct s) (hc : s.conns c = some x)
    (halive : s.Alive c) {io : Io} {g : Frame} {gs r : List Frame} (conn : s.conns d = some z)
    (hd : d ≠ c) (lt : z.loop < s.size) (inside : (s.loops z.loop).inside = d)
    (frames : (s.loops z.loop).frames = g :: gs)
    (hrun : (s.ctx z).runFrame io g = .ok (y, fs)) (hc' : s'.conns c = some x)
    (hview : s'.view c x = ((s.put d z y).enter z.loop d r).view c x) : Follows s s' c x := by
  have hdalive : s.Alive d := alive_of_frames lt inside frames
  refine .put_other (d := d) hc' (fun _ => hdist.fd_ne hc conn halive hdalive hd)
    (Ctx.runFrame_local hrun).elsewhere
    (Functor.conn_ne_of_own hd (h.named_own conn (Ctx.runFrame_named hrun))) ?_
  rw [hview]
  exact view_enter_other hd (framesOf_put_of_ne inside hd)

/-- The loop's poll is a poll of each of its connections. -/
theorem follows_poll (h : Wired s) (hdist : Distinct s) (hc : s.conns c = some x)
    {reports : List (Fd × Events)} {accepting : Bool} (hord : ∀ r ∈ reports, Plausible r.2)
    (idle : s.LoopIdle l) (phase : (s.loops l).phase = .polling) :
    Follows s (s.poll l reports accepting) c x := by
  by_cases hl : x.loop = l
  · subst hl
    have hactive : (s.loops x.loop).active = [] :=
      (h.loops x.loop).handling.resolve_left (by simp [phase])
    refine .single (z := s.reported x.loop reports c x) (by rw [poll_conns, hc]; rfl)
      reported_loop (b := .poll ((reports.find? fun r => s.pointee x.loop r.1 = some c).map
        Prod.snd)) ?_ ⟨⟨h.view_idle idle hc, phase, ?_⟩, rfl⟩ (view_poll_self hactive)
    · refine ⟨trivial, ?_, trivial⟩
      cases hfind : reports.find? fun r => s.pointee x.loop r.1 = some c with
      | none => trivial
      | some r => exact hord r (List.mem_of_find?_eq_some hfind)
    · intro hsome
      obtain ⟨r, hfind⟩ : ∃ r, (reports.find? fun r => s.pointee x.loop r.1 = some c) =
          some r := by
        cases hfind : reports.find? fun r => s.pointee x.loop r.1 = some c with
        | none => simp [hfind] at hsome
        | some r => exact ⟨r, rfl⟩
      have hpt : s.pointee x.loop r.1 = some c := by simpa using List.find?_some hfind
      obtain ⟨e, he, hid⟩ := Option.map_eq_some_iff.mp hpt
      refine ⟨e.2, ?_⟩
      show (s.loops x.loop).poller.interest x.conn.channel.fd = some (x.conn.channel.id, e.2)
      rw [hdist.pointee _ _ _ _ hpt hc, he, h.id hc, ← hid]
  · refine .same (z := x) ?_ rfl (view_poll_other hl)
    rw [poll_conns, hc, Option.map_some, h.reported_other hc hl]

/-- A loop handles the next of its active channels. -/
theorem follows_handleEvent (h : Wired s) (hdist : Distinct s) (hc : s.conns c = some x)
    {cs : List ConnId} (idle : s.LoopIdle l) (phase : (s.loops l).phase = .handling)
    (active : (s.loops l).active = d :: cs) (conn : s.conns d = some z) :
    Follows s (((s.handled d z).taken l cs).enter l d Ctx.handelEventWithGuard) c x := by
  by_cases hd : d = c
  · subst hd
    obtain rfl : x = z := by simpa [hc] using conn
    obtain rfl := ((h.loops l).active d (by simp [active])).loop hc
    have hnot : d ∉ cs := by
      have hnodup := hdist.active x.loop
      rw [active, List.nodup_cons] at hnodup
      exact hnodup.1
    refine .single (z := { x with log := x.log ++ [.handleEvent x.conn.channel.revents] })
      (b := .handleEvent) (by simp) rfl ⟨trivial, trivial, trivial⟩
      ⟨⟨h.view_idle idle hc, phase, by simp [view, active]⟩, rfl⟩ ?_
    rw [view_enter_self (x := { x with
      log := x.log ++ [.handleEvent x.conn.channel.revents] }),
      view_taken_self (x := { x with
        log := x.log ++ [.handleEvent x.conn.channel.revents] }) hnot]
    rfl
  · have hne : c ≠ d := Ne.symm hd
    refine .same (z := x) (by simpa [hne] using hc) rfl ?_
    rw [view_enter_other hd, view_taken_other (s := s.handled d z) active hd, view_handled]
    rw [framesOf_taken, framesOf_handled]
    exact framesOf_of_idle idle.2.2

/-- A loop runs the next functor of its batch. -/
theorem follows_batch (h : Wired s) (hdist : Distinct s) (hfirst : s.ClosedFirst c x)
    (hc : s.conns c = some x) (halive : s.Alive c) {io : Io} (idle : s.LoopIdle z.loop)
    (phase : (s.loops z.loop).phase = .functors) (batch : (s.loops z.loop).batch = f :: rest)
    (hf : f.isRemoval = false) (alive : s.Alive f.conn) (conn : s.conns f.conn = some z)
    (hrun : (s.ctx z).runFunctor s.mem io f = .ok (y, fs)) :
    Follows s (((s.popped z.loop rest).put f.conn z y).enter z.loop f.conn fs) c x := by
  by_cases hd : f.conn = c
  · obtain rfl : x = z := by simpa [hc, hd] using conn
    rw [hd]
    refine .single (z := { x with conn := y.conn, log := y.log }) (b := .functor io) (by simp)
      rfl ⟨trivial, trivial, ?_⟩ (follows_functor h hc idle phase batch hf hd hrun) rfl
    rintro ⟨g, hg, hdestory⟩
    obtain ⟨hbatch, hof⟩ := List.mem_filter.mp (List.mem_of_mem_head? hg)
    refine hfirst g hbatch hdestory ?_
    simp [Functor.isOf] at hof
    exact hof.1
  · have hne : c ≠ f.conn := Ne.symm hd
    have hother := Functor.conn_ne_of_own hd (h.named_own conn (Ctx.runFunctor_named hrun))
    refine .put_other (d := f.conn) (by simpa [hne] using hc)
      (fun _ => hdist.fd_ne hc conn halive alive hd) (Ctx.runFunctor_local hrun).elsewhere
      hother ?_
    have hframes : ((s.popped z.loop rest).put f.conn z y).framesOf z.loop c = [] :=
      framesOf_popped_of_idle idle.2.2
    rw [view_enter_other hd hframes, view_put_other hother, view_put_other hother,
      view_popped_other batch (Functor.isOf_of_ne hd), popped_loops]

theorem Step.follows (h : Wired s) (hdist : Distinct s) (hord : s.Ordinary a)
    (hfirst : s.ClosedFirst c x) (hstep : Step s a s') (hc : s.conns c = some x)
    (halive : s.Alive c) : Follows s s' c x := by
  have hid := h.id hc
  cases hstep with
  | hold | drop | destroy => exact .same hc rfl rfl
  | poke reads =>
      refine .single (b := .poke _ _) hc rfl ⟨trivial, trivial, trivial⟩ ⟨?_, rfl⟩ rfl
      intro t call hpc
      have hpc : x.pcs t = .sending call := hpc
      have hheld := h.calling c x t hc (by simp [hpc])
      have hnot := reads (t, c) hheld x hc
      rw [hpc] at hnot
      exact hnot
  | @acceptHere sockfd en base =>
      have hne := h.ne_new hc
      refine .same (z := x) (by simpa [hne] using hc) rfl ?_
      rw [view_enter_other (Ne.symm hne), view_enlist, view_accepted]
      rw [framesOf_enlist, framesOf_accepted]
      exact framesOf_of_idle en.1.2.2
  | @accept sockfd en other =>
      have hne := h.ne_new hc
      refine .same (z := x) (by simpa [hne] using hc) rfl ?_
      rw [view_push_other (Functor.isOf_of_ne (Ne.symm hne)), view_enlist, view_accepted]
  | @call a d b z t y pc own conn held hcalled view =>
      by_cases hd : d = c
      · subst hd
        obtain rfl : x = z := by simpa [hc] using conn
        refine .single (z := { x with
          conn := y.conn, log := y.log, pcs := Function.update x.pcs t pc }) (by simp) rfl
          (hord.own own hc) view ?_
        rw [← view_put_self (h.called_own hc hcalled)]
        rfl
      · have hne : c ≠ d := Ne.symm hd
        have hdalive : s.Alive d := .inr (.inl ⟨(t, d), held, rfl⟩)
        exact .put_other (by simpa [hne] using hc)
          (fun _ => hdist.fd_ne hc conn halive hdalive hd) hcalled.elsewhere
          (Functor.conn_ne_of_own hd (h.called_own conn hcalled)) rfl
  | poll en => exact follows_poll h hdist hc hord en.1 en.2.1
  | handleEvent idle phase active alive conn =>
      exact follows_handleEvent h hdist hc idle phase active conn
  | @frame l io d f rest z y fs lt pc inside frames conn hf hrun =>
      obtain rfl := h.inside_loop inside frames conn
      by_cases hd : d = c
      · subst hd
        obtain rfl : x = z := by simpa [hc] using conn
        exact .single (z := { x with conn := y.conn, log := y.log }) (b := .frame io) (by simp) rfl
          ⟨trivial, trivial, trivial⟩ (follows_frame h hc pc inside frames hrun) rfl
      · have hne : c ≠ d := Ne.symm hd
        exact follows_frame_other h hdist hc halive conn hd lt inside frames hrun
          (by simpa [hne] using hc) rfl
  | @closeHere io d rest z lt pc inside frames conn hrun =>
      have h0 := h.inside_loop inside frames conn
      rw [← h0] at lt pc inside frames ⊢
      by_cases hd : d = c
      · subst hd
        obtain rfl : x = z := by simpa [hc] using conn
        have hframe : Follows s ((s.put d x ((s.ctx x).record .closeCallback)).enter x.loop d rest)
            d x :=
          .single (z := { x with log := x.log ++ [.closeCallback] }) (b := .frame io)
            (by simp [ctx]) rfl ⟨trivial, trivial, trivial⟩
            (follows_frame h hc pc inside frames hrun) rfl
        refine hframe.trans ?_
        intro z hz
        obtain rfl : { x with log := x.log ++ [.closeCallback] } = z := by simpa [ctx] using hz
        exact .queue_destory hz hid rfl
      · have hne : c ≠ d := Ne.symm hd
        refine follows_frame_other (r := rest) h hdist hc halive conn hd lt inside frames hrun
          (by simpa [hne] using hc) ?_
        have hother : (Functor.connectDestoryed d).isOf c = false := Functor.isOf_of_ne hd
        rw [view_push_other hother, view_erased, view_record]
  | @close l io d rest z other lt pc inside frames conn hrun =>
      obtain rfl := h.inside_loop inside frames conn
      have hremoval : (Functor.removeConnectionInLoop d).isOf c = false := by
        simp [Functor.isOf, Functor.isRemoval]
      by_cases hd : d = c
      · subst hd
        obtain rfl : x = z := by simpa [hc] using conn
        refine .single (z := { x with log := x.log ++ [.closeCallback] }) (b := .frame io)
          (by simp [ctx]) rfl ⟨trivial, trivial, trivial⟩
          (follows_frame h hc pc inside frames hrun) ?_
        rw [view_push_other hremoval, view_record]
        rfl
      · have hne : c ≠ d := Ne.symm hd
        refine follows_frame_other (r := rest) h hdist hc halive conn hd lt inside frames hrun
          (by simpa [hne] using hc) ?_
        rw [view_push_other hremoval, view_record]
  | @swap l idle phase active =>
      by_cases hl : x.loop = l
      · subst hl
        exact .single (b := .swap) hc rfl ⟨trivial, trivial, trivial⟩
          ⟨⟨h.view_idle idle hc, phase, by simp [view, active]⟩, rfl⟩ view_swapped_self
      · exact .same hc rfl (view_swapped_other hl)
  | @removal io d rest z idle phase batch alive conn =>
      by_cases hd : d = c
      · subst hd
        obtain rfl : x = z := by simpa [hc] using conn
        refine .queue_destory (by simpa using hc) hid ?_
        have hself : (Functor.connectDestoryed d).isOf d = true := by
          simp [Functor.isOf, Functor.conn, Functor.isRemoval]
        rw [view_push_self hself, view_push_self hself, view_erased,
          view_popped_other batch (by simp [Functor.isOf, Functor.isRemoval])]
      · refine .same (z := x) (by simpa using hc) rfl ?_
        have hother : (Functor.connectDestoryed d).isOf c = false := Functor.isOf_of_ne hd
        rw [view_push_other hother, view_erased, view_popped_other batch (Functor.isOf_of_ne hd)]
  | functor idle phase batch hf alive conn hrun =>
      obtain rfl := h.batch_loop batch hf conn
      exact follows_batch h hdist hfirst hc halive idle phase batch hf alive conn hrun
  | @batchEnd l idle phase batch =>
      by_cases hl : x.loop = l
      · subst hl
        exact .single (b := .batchEnd) hc rfl ⟨trivial, trivial, trivial⟩
          ⟨⟨h.view_idle idle hc, phase, by simp [view, batch]⟩, rfl⟩ view_batchEnded_self
      · exact .same hc rfl (view_batchEnded_other hl)
  | @release d z destroyed listed conn =>
      by_cases hd : d = c
      · subst hd
        obtain rfl : x = z := by simpa [hc] using conn
        exact .queue_destory (by simpa using hc) hid rfl
      · exact .same (z := x) (by simpa using hc) rfl (view_push_other (Functor.isOf_of_ne hd))

end TcpServer

end Muduo
