/-
A connection's life as its server counts it.

What has been queued, what has run and what is still to come of a connection's coming and
going is a `Tally`, and a connection's life is a machine that moves from tally to tally:
`connectEstablished` once, `handleClose` and its close callback, the removal on the base
loop or the release by `~TcpServer`, then `connectDestoryed`.  As long as `handleClose` is
entered at most once the books balance, and every step of the server is such a move, or
none, for each of its connections.
-/
import Muduo.Proofs.Wired

namespace Muduo

/-- How far a connection has come. -/
@[ext] structure Tally where
  /-- `connectEstablished` is still to run; it has run. -/
  coming : Nat
  up : Nat
  /-- The close callback is still to be called; it has been called. -/
  closing : Nat
  closed : Nat
  /-- `removeConnectionInLoop` is still to run; it has run. -/
  leaving : Nat
  removed : Nat
  /-- `~TcpServer` has released the connection. -/
  released : Nat
  /-- The connection is in `connections_`. -/
  listed : Nat
  /-- `connectDestoryed` is still to run; it has run. -/
  going : Nat
  gone : Nat

namespace Tally

variable {k k' : Tally}

/-- The tally of a connection just accepted. -/
def new : Tally := ⟨1, 0, 0, 0, 0, 0, 0, 1, 0, 0⟩

/-- What can happen next.  The removal and the release take the connection off the list if it
is still on it. -/
inductive Move (k : Tally) : Tally → Prop
  | none : Move k k
  | establish {n} (h : k.coming = n + 1) : Move k { k with coming := n, up := k.up + 1 }
  | enterClose : Move k { k with closing := k.closing + 1 }
  | close {n} (h : k.closing = n + 1) :
      Move k { k with closing := n, closed := k.closed + 1, leaving := k.leaving + 1 }
  | closeHere {n} (h : k.closing = n + 1) :
      Move k { k with
        closing := n, closed := k.closed + 1
        removed := k.removed + 1, listed := 0, going := k.going + 1 }
  | remove {n} (h : k.leaving = n + 1) :
      Move k { k with leaving := n, removed := k.removed + 1, listed := 0, going := k.going + 1 }
  | release (h : k.listed = 1) :
      Move k { k with released := k.released + 1, listed := 0, going := k.going + 1 }
  | destory {n} (h : k.going = n + 1) : Move k { k with going := n, gone := k.gone + 1 }

/-- What holds in every life: the books of each hand-over balance. -/
structure Balanced (k : Tally) : Prop where
  coming : k.coming + k.up = 1
  leaving : k.closed = k.leaving + k.removed
  going : k.going + k.gone = k.removed + k.released

/-- What holds in a life in which `handleClose` is entered at most once. -/
structure Once (k : Tally) : Prop where
  closing : k.closing + k.closed ≤ 1
  listed : k.listed + k.removed + k.released = 1

theorem Balanced.move (h : Balanced k) (hm : Move k k') : Balanced k' := by
  obtain ⟨h₁, h₂, h₃⟩ := h
  cases hm with
  | none => exact ⟨h₁, h₂, h₃⟩
  | enterClose => exact ⟨h₁, h₂, h₃⟩
  | establish h | close h | closeHere h | remove h | release h | destory h =>
      constructor <;> simp only <;> omega

/-- `handleClose` is entered only when it has not been before, and nothing is removed after its
release. -/
theorem Once.move (h : Once k) (hb : Balanced k) (hm : Move k k')
    (hclose : k.closing < k'.closing → k.closing + k.closed = 0)
    (hremove : k.removed < k'.removed → k.released = 0) : Once k' := by
  obtain ⟨h₁, h₂⟩ := h
  obtain ⟨b₁, b₂, b₃⟩ := hb
  cases hm with
  | none => exact ⟨h₁, h₂⟩
  | establish hn => exact ⟨h₁, h₂⟩
  | enterClose =>
      have h0 := hclose (Nat.lt_succ_self _)
      exact ⟨by simp only; omega, h₂⟩
  | close hn => exact ⟨by simp only; omega, h₂⟩
  | closeHere hn | remove hn =>
      have h0 := hremove (Nat.lt_succ_self _)
      constructor <;> simp only <;> omega
  | release hl => constructor <;> simp only <;> omega
  | destory hn => exact ⟨h₁, h₂⟩

theorem Once.gone_le (h : Once k) (hb : Balanced k) : k.gone ≤ 1 := by
  have h₁ := h.listed
  have h₂ := hb.going
  omega

end Tally

/-- A functor of a connection's coming and going. -/
def Functor.isStage : Functor → Bool
  | .connectEstablished _ => true
  | .connectDestoryed _ => true
  | .removeConnectionInLoop _ => true
  | _ => false

namespace TcpServer

variable {s s' : TcpServer} {a : Action} {l l' : LoopId} {c d : ConnId} {x x' z : Accepted}
  {y : Ctx} {t : Tid} {pc : CallPc} {f g : Functor} {fs : List Frame} {e : ServerEntry}

/-- What the loop's thread has left of the connection's code. -/
def framesOf (s : TcpServer) (l : LoopId) (c : ConnId) : List Frame :=
  if (s.loops l).inside = c then (s.loops l).frames else []

/-- The tally of a connection. -/
def tally (s : TcpServer) (c : ConnId) (x : Accepted) : Tally where
  coming := (s.todo x.loop).count (.connectEstablished c) +
    (s.framesOf x.loop c).count .connectEstablished
  up := x.log.count .establish
  closing := (s.framesOf x.loop c).count .closeCallback
  closed := x.log.count .closeCallback
  leaving := (s.todo 0).count (.removeConnectionInLoop c)
  removed := s.log.count (.removeConnectionInLoop c)
  released := s.log.count (.released c)
  listed := if c ∈ s.connections then 1 else 0
  going := (s.todo x.loop).count (.connectDestoryed c)
  gone := x.log.count .destoryBegin

/-! ### The functors to run -/

@[simp] theorem todo_put : (s.put c x y).todo l =
    s.todo l ++ if l = x.loop then y.pending else [] := by
  simp [todo]

@[simp] theorem todo_push : (s.push l f).todo l' = s.todo l' ++ if l' = l then [f] else [] := by
  simp [todo]

@[simp] theorem todo_enter : (s.enter l c fs).todo l' = s.todo l' := by simp [todo]
@[simp] theorem todo_erased : (s.erased c e).todo l = s.todo l := rfl
@[simp] theorem todo_record : (s.record e).todo l = s.todo l := rfl
@[simp] theorem todo_accepted : s.accepted.todo l = s.todo l := by simp [todo]
@[simp] theorem todo_enlist {fd : Fd} : (s.enlist fd).todo l = s.todo l := rfl
@[simp] theorem todo_handled : (s.handled c x).todo l = s.todo l := rfl
@[simp] theorem todo_taken {cs : List ConnId} : (s.taken l cs).todo l' = s.todo l' := by
  simp [todo]

@[simp] theorem todo_batchEnded : (s.batchEnded l).todo l' = s.todo l' := by simp [todo]

@[simp] theorem todo_poll {reports : List (Fd × Events)} {b : Bool} :
    (s.poll l reports b).todo l' = s.todo l' := by
  simp [todo]

theorem todo_popped {rest : List Functor} (h : (s.loops l).batch = f :: rest) :
    s.todo l' = (if l' = l then [f] else []) ++ (s.popped l rest).todo l' := by
  unfold todo
  rw [popped_loops]
  by_cases hl : l' = l
  · simp [hl, h]
  · simp [hl]

/-! ### The frames of a connection -/

@[simp] theorem framesOf_put : (s.put d z y).framesOf l c = s.framesOf l c := by simp [framesOf]
@[simp] theorem framesOf_push : (s.push l f).framesOf l' c = s.framesOf l' c := by
  simp [framesOf]

@[simp] theorem framesOf_erased : (s.erased d e).framesOf l c = s.framesOf l c := rfl
@[simp] theorem framesOf_record : (s.record e).framesOf l c = s.framesOf l c := rfl
@[simp] theorem framesOf_accepted : s.accepted.framesOf l c = s.framesOf l c := by
  simp [framesOf]

@[simp] theorem framesOf_enlist {fd : Fd} : (s.enlist fd).framesOf l c = s.framesOf l c := rfl
@[simp] theorem framesOf_handled : (s.handled d z).framesOf l c = s.framesOf l c := rfl
@[simp] theorem framesOf_taken {cs : List ConnId} :
    (s.taken l cs).framesOf l' c = s.framesOf l' c := by
  simp [framesOf]

@[simp] theorem framesOf_popped {rest : List Functor} :
    (s.popped l rest).framesOf l' c = s.framesOf l' c := by
  simp [framesOf]

@[simp] theorem framesOf_swapped : (s.swapped l).framesOf l' c = s.framesOf l' c := by
  simp [framesOf]

@[simp] theorem framesOf_batchEnded : (s.batchEnded l).framesOf l' c = s.framesOf l' c := by
  simp [framesOf]

@[simp] theorem framesOf_poll {reports : List (Fd × Events)} {b : Bool} :
    (s.poll l reports b).framesOf l' c = s.framesOf l' c := by
  simp [framesOf]

@[simp] theorem framesOf_enter : (s.enter l d fs).framesOf l' c =
    if l' = l then (if d = c then fs else []) else s.framesOf l' c := by
  unfold framesOf
  rw [enter_loops]
  by_cases hl : l' = l
  · simp [hl]
  · simp [hl]

theorem framesOf_of_idle (h : (s.loops l).frames = []) : s.framesOf l c = [] := by
  unfold framesOf
  rw [h, ite_self]

/-- While the loop's thread is inside a connection, no other has frames. -/
theorem framesOf_put_of_ne (inside : (s.loops l).inside = d) (hd : d ≠ c) :
    (s.put d z y).framesOf l c = [] := by
  rw [framesOf_put, framesOf, inside, if_neg hd]

theorem framesOf_popped_of_idle {rest : List Functor} (h : (s.loops l).frames = []) :
    ((s.popped l rest).put d z y).framesOf l c = [] := by
  rw [framesOf_put, framesOf_popped]
  exact framesOf_of_idle h

/-! ### The tally after an update -/

/-- Of the log of its connection a tally reads three counts. -/
theorem tally_congr_count (hloop : x'.loop = x.loop)
    (hup : x'.log.count .establish = x.log.count .establish)
    (hclosed : x'.log.count .closeCallback = x.log.count .closeCallback)
    (hgone : x'.log.count .destoryBegin = x.log.count .destoryBegin) :
    s.tally c x' = s.tally c x := by
  unfold tally
  rw [hloop, hup, hclosed, hgone]

theorem count_of_marks {log es : List Entry} {e : Entry} (hlog : marks log = es)
    (he : e.isMark = true) : log.count e = es.count e := by
  rw [← hlog]
  exact (count_marks he).symm

theorem tally_congr_log (hloop : x'.loop = x.loop) (hlog : marks x'.log = marks x.log) :
    s.tally c x' = s.tally c x := by
  have hcount : ∀ e : Entry, e.isMark = true → x'.log.count e = x.log.count e := by
    intro e he
    rw [count_of_marks hlog he, count_marks he]
  exact tally_congr_count hloop (hcount _ rfl) (hcount _ rfl) (hcount _ rfl)

/-- Of the server it reads the functors of coming and going, the connection's frames and the
server's records of it. -/
theorem tally_congr (htodo : ∀ l g, g.isStage = true → g.conn = c →
      (s'.todo l).count g = (s.todo l).count g)
    (hframes : s'.framesOf x.loop c = s.framesOf x.loop c)
    (hlisted : c ∈ s'.connections ↔ c ∈ s.connections)
    (hremoved : s'.log.count (.removeConnectionInLoop c) = s.log.count (.removeConnectionInLoop c))
    (hreleased : s'.log.count (.released c) = s.log.count (.released c)) :
    s'.tally c x = s.tally c x := by
  unfold tally
  rw [htodo _ _ rfl rfl, htodo _ _ rfl rfl, htodo _ _ rfl rfl, hframes, hremoved, hreleased]
  simp only [hlisted]

theorem count_put (hy : ∀ f ∈ y.pending, f.isStage = false) (hg : g.isStage = true) :
    ((s.put d z y).todo l).count g = (s.todo l).count g := by
  have hzero : y.pending.count g = 0 := by
    refine List.count_eq_zero.mpr ?_
    intro hmem
    rw [hy g hmem] at hg
    simp at hg
  rw [todo_put, List.count_append]
  split
  · rw [hzero, Nat.add_zero]
  · rw [List.count_nil, Nat.add_zero]

theorem tally_put (hy : ∀ f ∈ y.pending, f.isStage = false) :
    (s.put d z y).tally c x = s.tally c x :=
  tally_congr (fun _ _ hg _ => count_put hy hg) (by simp) Iff.rfl rfl rfl

theorem count_push (hne : f ≠ g) : ((s.push l f).todo l').count g = (s.todo l').count g := by
  rw [todo_push, List.count_append]
  split
  · rw [List.count_singleton, if_neg (by simpa using hne), Nat.add_zero]
  · rw [List.count_nil, Nat.add_zero]

theorem count_push_self : ((s.push l f).todo l).count f = (s.todo l).count f + 1 := by
  rw [todo_push, if_pos rfl, List.count_append, List.count_singleton_self]

/-- A functor for another connection. -/
theorem tally_push_of_ne (h : f.conn ≠ c) : (s.push l f).tally c x = s.tally c x := by
  refine tally_congr (fun l' g _ hg => count_push ?_) (by simp) Iff.rfl rfl rfl
  rintro rfl
  exact h hg

theorem tally_push_removal : (s.push 0 (.removeConnectionInLoop c)).tally c x =
    { s.tally c x with leaving := (s.tally c x).leaving + 1 } := by
  simp only [tally, count_push_self, framesOf_push]
  rw [count_push (by simp), count_push (by simp)]
  rfl

theorem tally_push_establish : (s.push x.loop (.connectEstablished c)).tally c x =
    { s.tally c x with coming := (s.tally c x).coming + 1 } := by
  simp only [tally, count_push_self, framesOf_push, Nat.add_right_comm]
  rw [count_push (by simp), count_push (by simp)]
  rfl

theorem tally_push_destory : (s.push x.loop (.connectDestoryed c)).tally c x =
    { s.tally c x with going := (s.tally c x).going + 1 } := by
  simp only [tally, count_push_self, framesOf_push]
  rw [count_push (by simp), count_push (by simp)]
  rfl

/-- A functor taken from the batch. -/
theorem count_popped {rest : List Functor} (hbatch : (s.loops l).batch = f :: rest) (hne : f ≠ g) :
    ((s.popped l rest).todo l').count g = (s.todo l').count g := by
  rw [todo_popped hbatch, List.count_append]
  split
  · rw [List.count_singleton, if_neg (by simpa using hne), Nat.zero_add]
  · rw [List.count_nil, Nat.zero_add]

theorem count_popped_self {rest : List Functor} (hbatch : (s.loops l).batch = f :: rest) :
    (s.todo l).count f = ((s.popped l rest).todo l).count f + 1 := by
  rw [todo_popped hbatch, if_pos rfl, List.singleton_append, List.count_cons_self]

theorem tally_popped_of_ne {rest : List Functor} (hbatch : (s.loops l).batch = f :: rest)
    (h : f.conn ≠ c) : (s.popped l rest).tally c x = s.tally c x := by
  refine tally_congr (fun l' g _ hg => count_popped hbatch ?_) (by simp) Iff.rfl rfl rfl
  rintro rfl
  exact h hg

/-- The frames of another connection. -/
theorem tally_enter_of_ne (hd : d ≠ c) (hframes : s.framesOf l c = []) :
    (s.enter l d fs).tally c x = s.tally c x := by
  refine tally_congr (by simp) ?_ Iff.rfl rfl rfl
  rw [framesOf_enter]
  by_cases hl : x.loop = l
  · rw [if_pos hl, if_neg hd, hl, hframes]
  · rw [if_neg hl]

/-- The server's record of another connection. -/
theorem tally_erased_of_ne (hd : d ≠ c) (he : e ≠ .removeConnectionInLoop c)
    (he' : e ≠ .released c) : (s.erased d e).tally c x = s.tally c x := by
  refine tally_congr (by simp) (by simp) (by simp [Ne.symm hd]) ?_ ?_
  · rw [erased_log, List.count_append, List.count_singleton, if_neg (by simpa using he),
      Nat.add_zero]
  · rw [erased_log, List.count_append, List.count_singleton, if_neg (by simpa using he'),
      Nat.add_zero]

theorem tally_erased_removed : (s.erased c (.removeConnectionInLoop c)).tally c x =
    { s.tally c x with removed := (s.tally c x).removed + 1, listed := 0 } := by
  ext <;> simp [tally]

theorem tally_erased_released : (s.erased c (.released c)).tally c x =
    { s.tally c x with released := (s.tally c x).released + 1, listed := 0 } := by
  ext <;> simp [tally]

theorem tally_record : (s.record (.removeConnection d)).tally c x = s.tally c x :=
  tally_congr (by simp) (by simp) Iff.rfl (by simp) (by simp)

end TcpServer

namespace Ctx

variable {x y : Ctx}

theorem Named.unstaged (h : Named x y) (hx : x.pending = []) :
    ∀ f ∈ y.pending, f.isStage = false := by
  obtain ⟨q, hq, hall⟩ := h.pending
  intro f hf
  rw [hq, hx, List.nil_append] at hf
  obtain ⟨hkind, -⟩ := hall f hf
  cases f <;> simp [Functor.isUserCallback, Functor.isStage] at hkind ⊢

end Ctx

namespace TcpServer

variable {s s' : TcpServer} {a : Action} {l l' : LoopId} {c d : ConnId} {x x' z : Accepted}
  {y : Ctx} {t : Tid} {pc : CallPc} {f g : Functor} {fs : List Frame} {e : ServerEntry}

theorem Called.unstaged (h : Called x t (s.ctx x) y) : ∀ f ∈ y.pending, f.isStage = false := by
  obtain ⟨q, hq, hall⟩ := h.pending
  intro f hf
  rw [hq, ctx, List.nil_append] at hf
  obtain ⟨-, hkind⟩ := hall f hf
  cases f <;> simp [Functor.isUserCallback, Functor.isStage, Functor.owns] at hkind ⊢

/-! ### A step is a move -/

/-- The action enters `handleClose` of the connection. -/
def Enters (s : TcpServer) (a : Action) (c : ConnId) (x : Accepted) : Prop :=
  ∃ l io f rest, a = .frame l io ∧ (s.loops l).inside = c ∧ (s.loops l).frames = f :: rest ∧
    (s.ctx x).EntersClose io f

/-- The step is a move of the connection, and one that enters `handleClose` when it seems
so. -/
def Moves (s s' : TcpServer) (a : Action) (c : ConnId) (x : Accepted) : Prop :=
  ∃ x', s'.conns c = some x' ∧ x'.loop = x.loop ∧ Tally.Move (s.tally c x) (s'.tally c x') ∧
    ((s.tally c x).closing < (s'.tally c x').closing → s.Enters a c x)

namespace Moves

theorem same (hc : s'.conns c = some z) (hloop : z.loop = x.loop)
    (heq : s'.tally c z = s.tally c x) : Moves s s' a c x := by
  refine ⟨z, hc, hloop, ?_, ?_⟩
  · rw [heq]
    exact .none
  · rw [heq]
    exact fun hlt => absurd hlt (Nat.lt_irrefl _)

theorem of_move {k : Tally} (hc : s'.conns c = some z) (hloop : z.loop = x.loop)
    (hm : Tally.Move (s.tally c x) k) (hle : k.closing ≤ (s.tally c x).closing)
    (heq : s'.tally c z = k) : Moves s s' a c x := by
  refine ⟨z, hc, hloop, ?_, ?_⟩
  · rw [heq]
    exact hm
  · rw [heq]
    exact fun hlt => absurd hlt (Nat.not_lt.mpr hle)

end Moves

/-- The connection's own frames. -/
theorem tally_enter_self (hloop : x.loop = l) : (s.enter l c fs).tally c x =
    { s.tally c x with
      coming := (s.todo l).count (.connectEstablished c) + fs.count .connectEstablished
      closing := fs.count .closeCallback } := by
  simp only [tally, hloop, todo_enter, framesOf_enter, if_true]
  rfl

theorem frame_move {io : Io} {f : Frame} {rest : List Frame}
    (inside : (s.loops x.loop).inside = c) (frames : (s.loops x.loop).frames = f :: rest)
    (hf : f ≠ .closeCallback) (hrun : (s.ctx x).runFrame io f = .ok (y, fs)) :
    Moves s ((s.put c x y).enter x.loop c (fs ++ rest)) (.frame x.loop io) c x := by
  obtain ⟨hlog, hfs⟩ := Ctx.runFrame_marks hrun
  have hcount : ∀ e : Entry, e.isMark = true →
      y.log.count e = x.log.count e + f.marks.count e := by
    intro e he
    rw [count_of_marks hlog he, List.count_append, count_marks he]
    rfl
  have hpending := (Ctx.runFrame_named hrun).unstaged rfl
  have hconns : ((s.put c x y).enter x.loop c (fs ++ rest)).conns c =
      some { x with conn := y.conn, log := y.log } := by simp
  have hold : s.framesOf x.loop c = f :: rest := by rw [framesOf, if_pos inside, frames]
  have hnew : ((s.put c x y).enter x.loop c (fs ++ rest)).tally c
      { x with conn := y.conn, log := y.log } =
        { s.tally c x with
          coming := (s.todo x.loop).count (.connectEstablished c) +
            (fs ++ rest).count .connectEstablished
          up := x.log.count .establish + f.marks.count .establish
          closing := (fs ++ rest).count .closeCallback
          closed := x.log.count .closeCallback + f.marks.count .closeCallback
          gone := x.log.count .destoryBegin + f.marks.count .destoryBegin } := by
    rw [tally_enter_self (x := { x with conn := y.conn, log := y.log }) rfl,
      tally_put hpending, count_put hpending rfl]
    simp only [tally, hcount .establish rfl, hcount .closeCallback rfl, hcount .destoryBegin rfl]
  by_cases hest : f = .connectEstablished
  · subst hest
    have hnil : fs = [] := by
      rcases hfs with hnil | ⟨-, hen⟩
      · exact hnil
      · exact hen.elim
    subst hnil
    refine .of_move hconns rfl (.establish (n := (s.todo x.loop).count (.connectEstablished c) +
      rest.count .connectEstablished) ?_) (Nat.le_refl _) ?_
    · simp only [tally, hold, List.count_cons_self]
      omega
    · rw [hnew]
      ext <;> simp [tally, hold, Frame.marks]
  · have hcoming : (f :: rest).count .connectEstablished = rest.count .connectEstablished :=
      List.count_cons_of_ne hest
    have hclosing : (f :: rest).count .closeCallback = rest.count .closeCallback :=
      List.count_cons_of_ne hf
    have hmarks : f.marks.count .establish = 0 ∧ f.marks.count .closeCallback = 0 ∧
        f.marks.count .destoryBegin = 0 := by
      cases f <;> simp [Frame.marks] at hest hf ⊢
    obtain ⟨hup, hclosed, hgone⟩ := hmarks
    rcases hfs with rfl | ⟨rfl, hen⟩
    · refine .same hconns rfl ?_
      rw [hnew]
      ext <;> simp [tally, hold, hcoming, hclosing, hup, hclosed, hgone]
    · refine ⟨_, hconns, rfl, ?_, fun _ => ⟨x.loop, io, f, rest, rfl, inside, frames, hen⟩⟩
      have heq : ((s.put c x y).enter x.loop c ([.closeCallback] ++ rest)).tally c
          { x with conn := y.conn, log := y.log } =
            { s.tally c x with closing := (s.tally c x).closing + 1 } := by
        rw [hnew]
        ext <;> simp [tally, hold, hcoming, hclosing, hup, hclosed, hgone]
      rw [heq]
      exact .enterClose

/-- The close callback is called. -/
theorem tally_closed {rest : List Frame} (inside : (s.loops x.loop).inside = c)
    (frames : (s.loops x.loop).frames = .closeCallback :: rest) :
    ((s.put c x ((s.ctx x).record .closeCallback)).enter x.loop c rest).tally c
        { x with log := x.log ++ [.closeCallback] } =
      { s.tally c x with
        closing := rest.count .closeCallback, closed := (s.tally c x).closed + 1 } := by
  have hold : s.framesOf x.loop c = .closeCallback :: rest := by
    rw [framesOf, if_pos inside, frames]
  rw [tally_enter_self (x := { x with log := x.log ++ [.closeCallback] }) rfl,
    tally_put (by simp [ctx]), count_put (by simp [ctx]) rfl]
  ext <;> simp [tally, hold]

theorem closing_eq {rest : List Frame} (inside : (s.loops x.loop).inside = c)
    (frames : (s.loops x.loop).frames = .closeCallback :: rest) :
    (s.tally c x).closing = rest.count .closeCallback + 1 := by
  simp [tally, framesOf, inside, frames]

theorem close_move {io : Io} {rest : List Frame} (inside : (s.loops x.loop).inside = c)
    (frames : (s.loops x.loop).frames = .closeCallback :: rest) :
    Moves s ((((s.put c x ((s.ctx x).record .closeCallback)).enter x.loop c rest).record
      (.removeConnection c)).push 0 (.removeConnectionInLoop c)) (.frame x.loop io) c x := by
  have hclosing := closing_eq inside frames
  refine .of_move (z := { x with log := x.log ++ [.closeCallback] }) (by simp [ctx]) rfl
    (.close hclosing) (by simp only; omega) ?_
  rw [tally_push_removal, tally_record, tally_closed inside frames]

theorem closeHere_move {io : Io} {rest : List Frame} (inside : (s.loops x.loop).inside = c)
    (frames : (s.loops x.loop).frames = .closeCallback :: rest) :
    Moves s (((((s.put c x ((s.ctx x).record .closeCallback)).enter x.loop c rest).record
      (.removeConnection c)).erased c (.removeConnectionInLoop c)).push x.loop
        (.connectDestoryed c)) (.frame x.loop io) c x := by
  have hclosing := closing_eq inside frames
  refine .of_move (z := { x with log := x.log ++ [.closeCallback] }) (by simp [ctx]) rfl
    (.closeHere hclosing) (by simp only; omega) ?_
  rw [tally_push_destory (x := { x with log := x.log ++ [.closeCallback] }), tally_erased_removed,
    tally_record, tally_closed inside frames]

theorem removal_move {io : Io} {rest : List Functor} (hc : s.conns c = some x)
    (batch : (s.loops 0).batch = .removeConnectionInLoop c :: rest) :
    Moves s (((s.popped 0 rest).erased c (.removeConnectionInLoop c)).push x.loop
      (.connectDestoryed c)) (.functor 0 io) c x := by
  refine .of_move (z := x) (by simpa using hc) rfl (.remove (count_popped_self batch))
    (Nat.le_refl _) ?_
  rw [tally_push_destory, tally_erased_removed]
  simp only [tally, framesOf_popped]
  rw [count_popped (g := .connectEstablished c) batch (by simp),
    count_popped (g := .connectDestoryed c) batch (by simp)]
  rfl

theorem release_move (hc : s.conns c = some x) (listed : c ∈ s.connections) :
    Moves s ((s.erased c (.released c)).push x.loop (.connectDestoryed c)) (.release c) c x := by
  refine .of_move (z := x) (by simpa using hc) rfl (.release (if_pos listed)) (Nat.le_refl _) ?_
  rw [tally_push_destory, tally_erased_released]

theorem functor_move {io : Io} {rest : List Functor} (idle : (s.loops x.loop).frames = [])
    (batch : (s.loops x.loop).batch = f :: rest) (hf : f.isRemoval = false)
    (hrun : (s.ctx x).runFunctor s.mem io f = .ok (y, fs)) :
    Moves s (((s.popped x.loop rest).put f.conn x y).enter x.loop f.conn fs)
      (.functor x.loop io) f.conn x := by
  obtain ⟨hlog, hfs⟩ := Ctx.runFunctor_marks hrun
  have hcount : ∀ e : Entry, e.isMark = true →
      y.log.count e = x.log.count e + f.marks.count e := by
    intro e he
    rw [count_of_marks hlog he, List.count_append, count_marks he]
    rfl
  have hpending := (Ctx.runFunctor_named hrun).unstaged rfl
  have hconns : (((s.popped x.loop rest).put f.conn x y).enter x.loop f.conn fs).conns f.conn =
      some { x with conn := y.conn, log := y.log } := by simp
  have hold : s.framesOf x.loop f.conn = [] := framesOf_of_idle idle
  have hnone : fs.count .connectEstablished = 0 ∧ fs.count .closeCallback = 0 := by
    constructor
    · refine List.count_eq_zero.mpr ?_
      intro hmem
      simpa using hfs _ hmem
    · refine List.count_eq_zero.mpr ?_
      intro hmem
      simpa using hfs _ hmem
  have hnew : (((s.popped x.loop rest).put f.conn x y).enter x.loop f.conn fs).tally f.conn
      { x with conn := y.conn, log := y.log } =
        { s.tally f.conn x with
          coming := ((s.popped x.loop rest).todo x.loop).count (.connectEstablished f.conn)
          up := x.log.count .establish + f.marks.count .establish
          leaving := ((s.popped x.loop rest).todo 0).count (.removeConnectionInLoop f.conn)
          going := ((s.popped x.loop rest).todo x.loop).count (.connectDestoryed f.conn)
          gone := x.log.count .destoryBegin + f.marks.count .destoryBegin } := by
    have hclosed : f.marks.count .closeCallback = 0 := by
      cases f <;> simp [Functor.marks]
    rw [tally_enter_self (x := { x with conn := y.conn, log := y.log }) rfl,
      tally_put hpending, count_put hpending rfl]
    simp only [tally, hold, hnone, hcount .establish rfl, hcount .closeCallback rfl,
      hcount .destoryBegin rfl, hclosed, List.count_nil, Nat.add_zero]
    rfl
  have hother : ∀ g, f ≠ g → ∀ l, ((s.popped x.loop rest).todo l).count g = (s.todo l).count g :=
    fun g hne l => count_popped batch hne
  by_cases hest : f = .connectEstablished f.conn
  · refine .of_move hconns rfl (.establish (n := ((s.popped x.loop rest).todo x.loop).count
      (.connectEstablished f.conn)) ?_) (Nat.le_refl _) ?_
    · have hself := count_popped_self batch
      rw [hest] at hself
      simp only [tally, hold, List.count_nil, Nat.add_zero]
      exact hself
    · have hmarks : f.marks = [.establish] := by rw [hest]; rfl
      rw [hnew, hmarks, hother (.removeConnectionInLoop f.conn) (by rw [hest]; simp),
        hother (.connectDestoryed f.conn) (by rw [hest]; simp)]
      ext <;> simp [tally]
  by_cases hdes : f = .connectDestoryed f.conn
  · refine .of_move hconns rfl (.destory (n := ((s.popped x.loop rest).todo x.loop).count
      (.connectDestoryed f.conn)) ?_) (Nat.le_refl _) ?_
    · have hself := count_popped_self batch
      rw [hdes] at hself
      exact hself
    · have hmarks : f.marks = [.destoryBegin] := by rw [hdes]; rfl
      rw [hnew, hmarks, hother (.removeConnectionInLoop f.conn) (by rw [hdes]; simp),
        hother (.connectEstablished f.conn) (by rw [hdes]; simp)]
      ext <;> simp [tally, hold]
  · have hmarks : f.marks = [] := by
      cases f <;> simp [Functor.marks, Functor.conn] at hest hdes ⊢
    have hremoval : f ≠ .removeConnectionInLoop f.conn := by
      intro heq
      rw [heq] at hf
      simp [Functor.isRemoval] at hf
    refine .same hconns rfl ?_
    rw [hnew, hmarks, hother _ hest, hother _ hdes, hother _ hremoval]
    ext <;> simp [tally, hold]

theorem Wired.ne_new (h : Wired s) (hc : s.conns c = some x) : c ≠ s.nextConnId := by
  rintro rfl
  rw [h.fresh] at hc
  simp at hc

/-- A call of a member leaves the connections as far as they were. -/
theorem call_move {t : Tid} {pc : CallPc} (conn : s.conns d = some z)
    (hcalled : Called z t (s.ctx z) y) (hc : s.conns c = some x) :
    Moves s ((s.put d z y).setPc d t pc) a c x := by
  have heq : ∀ x₁, ((s.put d z y).setPc d t pc).tally c x₁ = s.tally c x₁ :=
    fun x₁ => tally_put (x := x₁) hcalled.unstaged
  by_cases hd : c = d
  · subst hd
    obtain rfl : x = z := by simpa [hc] using conn
    refine .same (z := { x with
      conn := y.conn, log := y.log, pcs := Function.update x.pcs t pc }) (by simp) rfl ?_
    rw [heq]
    exact tally_congr_log rfl hcalled.marks
  · exact .same (z := x) (by simpa [hd] using hc) rfl (heq x)

/-- Handling an event only begins with the frames of the handler. -/
theorem handleEvent_move (h : Wired s) {cs : List ConnId} (idle : s.LoopIdle l)
    (active : (s.loops l).active = d :: cs) (conn : s.conns d = some z)
    (hc : s.conns c = some x) :
    Moves s (((s.handled d z).taken l cs).enter l d Ctx.handelEventWithGuard) a c x := by
  by_cases hd : c = d
  · subst hd
    obtain rfl : x = z := by simpa [hc] using conn
    obtain rfl := ((h.loops l).active c (by simp [active])).loop hc
    have hframes : s.framesOf x.loop c = [] := framesOf_of_idle idle.2.2
    refine .same (z := { x with log := x.log ++ [.handleEvent x.conn.channel.revents] })
      (by simp) rfl ?_
    rw [tally_enter_self
      (x := { x with log := x.log ++ [.handleEvent x.conn.channel.revents] }) rfl,
      tally_congr (s := s) (by simp) (by simp) Iff.rfl rfl rfl]
    simp only [tally, hframes, Ctx.handelEventWithGuard, todo_taken, todo_handled,
      List.count_append, List.count_nil]
    rfl
  · have hframes : ((s.handled d z).taken l cs).framesOf l c = [] := by
      rw [framesOf_taken, framesOf_handled]
      exact framesOf_of_idle idle.2.2
    refine .same (z := x) (by simpa [hd] using hc) rfl ?_
    rw [tally_enter_of_ne (Ne.symm hd) hframes]
    exact tally_congr (by simp) (by simp) Iff.rfl rfl rfl

theorem Step.move (h : Wired s) (hstep : Step s a s') (hc : s.conns c = some x) :
    Moves s s' a c x := by
  cases hstep with
  | poke | hold | drop => exact .same hc rfl rfl
  | batchEnd => exact .same hc rfl (tally_congr (by simp) (by simp) Iff.rfl rfl rfl)
  | destroy hnot =>
      exact .same hc rfl (tally_congr (by simp) (by simp) Iff.rfl (by simp) (by simp))
  | @acceptHere sockfd en base =>
      have hne := h.ne_new hc
      have hframes : s.framesOf 0 c = [] := framesOf_of_idle en.1.2.2
      refine .same (z := x) (by simpa [hne] using hc) rfl
        (tally_congr (by simp) ?_ (by simp [hne]) rfl rfl)
      rw [framesOf_enter]
      by_cases hl : x.loop = 0
      · rw [if_pos hl, if_neg (Ne.symm hne), hl, hframes]
      · rw [if_neg hl, framesOf_enlist, framesOf_accepted]
  | @accept sockfd en other =>
      have hne := h.ne_new hc
      refine .same (z := x) (by simpa [hne] using hc) rfl ?_
      rw [tally_push_of_ne (Ne.symm hne)]
      exact tally_congr (by simp) (by simp) (by simp [hne]) rfl rfl
  | call own conn held hcalled view => exact call_move conn hcalled hc
  | @poll l reports accepting en =>
      refine .same (z := s.reported l reports c x) ?_ reported_loop ?_
      · rw [poll_conns, hc, Option.map_some]
      · exact (tally_congr_log reported_loop (congrArg marks reported_log)).trans
          (tally_congr (by simp) (by simp) Iff.rfl rfl rfl)
  | handleEvent idle phase active alive conn => exact handleEvent_move h idle active conn hc
  | @frame l io d f rest z y fs lt pc inside frames conn hf hrun =>
      by_cases hd : c = d
      · subst hd
        obtain rfl : x = z := by simpa [hc] using conn
        obtain rfl := h.inside_loop inside frames hc
        exact frame_move inside frames hf hrun
      · have hframes : (s.put d z y).framesOf l c = [] :=
          framesOf_put_of_ne inside (Ne.symm hd)
        refine .same (z := x) (by simpa [hd] using hc) rfl ?_
        rw [tally_enter_of_ne (Ne.symm hd) hframes]
        exact tally_put ((Ctx.runFrame_named hrun).unstaged rfl)
  | @closeHere io d rest z lt pc inside frames conn =>
      by_cases hd : c = d
      · subst hd
        obtain rfl : x = z := by simpa [hc] using conn
        have h0 := h.inside_loop inside frames hc
        rw [← h0] at inside frames
        have hmove : Moves s _ (.frame x.loop io) c x := closeHere_move inside frames
        rw [h0] at hmove ⊢
        exact hmove
      · have hframes : (s.put d z ((s.ctx z).record .closeCallback)).framesOf 0 c = [] :=
          framesOf_put_of_ne inside (Ne.symm hd)
        refine .same (z := x) (by simpa [hd] using hc) rfl ?_
        rw [tally_push_of_ne (by exact Ne.symm hd),
          tally_erased_of_ne (Ne.symm hd) (by simpa using Ne.symm hd) (by simp), tally_record,
          tally_enter_of_ne (Ne.symm hd) hframes]
        exact tally_put (by simp [ctx])
  | @close l io d rest z other lt pc inside frames conn =>
      by_cases hd : c = d
      · subst hd
        obtain rfl : x = z := by simpa [hc] using conn
        obtain rfl := h.inside_loop inside frames hc
        exact close_move inside frames
      · have hframes : (s.put d z ((s.ctx z).record .closeCallback)).framesOf l c = [] :=
          framesOf_put_of_ne inside (Ne.symm hd)
        refine .same (z := x) (by simpa [hd] using hc) rfl ?_
        rw [tally_push_of_ne (by exact Ne.symm hd), tally_record,
          tally_enter_of_ne (Ne.symm hd) hframes]
        exact tally_put (by simp [ctx])
  | @swap l idle phase active =>
      refine .same hc rfl (tally_congr ?_ (by simp) Iff.rfl rfl rfl)
      intro l' g _ _
      rw [h.todo_swapped phase]
  | @removal io d rest z idle phase batch alive conn =>
      by_cases hd : c = d
      · subst hd
        obtain rfl : x = z := by simpa [hc] using conn
        exact removal_move hc batch
      · refine .same (z := x) (by simpa using hc) rfl ?_
        rw [tally_push_of_ne (by exact Ne.symm hd),
          tally_erased_of_ne (Ne.symm hd) (by simpa using Ne.symm hd) (by simp)]
        exact tally_popped_of_ne batch (Ne.symm hd)
  | @functor l io f rest z y fs idle phase batch hf alive conn hrun =>
      by_cases hd : c = f.conn
      · subst hd
        obtain rfl : x = z := by simpa [hc] using conn
        obtain rfl := h.batch_loop batch hf hc
        exact functor_move idle.2.2 batch hf hrun
      · have hframes : ((s.popped l rest).put f.conn z y).framesOf l c = [] :=
          framesOf_popped_of_idle idle.2.2
        refine .same (z := x) (by simpa [hd] using hc) rfl ?_
        rw [tally_enter_of_ne (Ne.symm hd) hframes,
          tally_put ((Ctx.runFunctor_named hrun).unstaged rfl)]
        exact tally_popped_of_ne batch (Ne.symm hd)
  | @release d z destroyed listed conn =>
      by_cases hd : c = d
      · subst hd
        obtain rfl : x = z := by simpa [hc] using conn
        exact release_move hc listed
      · refine .same (z := x) (by simpa using hc) rfl ?_
        rw [tally_push_of_ne (by exact Ne.symm hd)]
        exact tally_erased_of_ne (Ne.symm hd) (by simp) (by simpa using Ne.symm hd)

end TcpServer

end Muduo
