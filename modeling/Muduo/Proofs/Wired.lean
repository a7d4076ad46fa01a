/-
How the parts of a server refer to each other.

`Wired` is the invariant that everything that names a connection names one that exists: the
functors, the pointers in the interest sets and in the active channels, and the frames of a
loop are those of connections of that loop.  Every update of a part keeps it, and so does
every step; under it a step of the system is a `Step`.
-/
import Muduo.Proofs.TcpServer

namespace Muduo

namespace TcpServer

/-! ### Who refers to whom -/

/-- A connection of the loop. -/
def Homed (s : TcpServer) (l : LoopId) (c : ConnId) : Prop :=
  ∃ x, s.conns c = some x ∧ x.loop = l

/-- A functor that may wait on the loop: the removals wait on the base loop, the functors of
a connection on its own. -/
def Placed (s : TcpServer) (l : LoopId) (f : Functor) : Prop :=
  if f.isRemoval then l = 0 ∧ ∃ x, s.conns f.conn = some x else s.Homed l f.conn

end TcpServer

/-- What a loop refers to is at home there, and it is where it seems to be in its turn. -/
structure LoopState.Wired (q : LoopState) (home : ConnId → Prop) (placed : Functor → Prop) :
    Prop where
  interest : ∀ fd e, q.poller.interest fd = some e → home e.1
  functors : ∀ f ∈ q.queue ++ q.funcs, placed f
  batch : ∀ f ∈ q.batch, f ∈ q.funcs
  order : q.phase = .functors ∨ q.batch = []
  handling : q.phase = .handling ∨ q.active = []
  active : ∀ c ∈ q.active, home c
  frames : q.frames ≠ [] → home q.inside

theorem LoopState.Wired.mono {q : LoopState} {home home' : ConnId → Prop}
    {placed placed' : Functor → Prop} (h : q.Wired home placed)
    (hhome : ∀ c, home c → home' c) (hplaced : ∀ f, placed f → placed' f) :
    q.Wired home' placed' :=
  { h with
    interest := fun fd e he => hhome _ (h.interest fd e he)
    functors := fun f hf => hplaced _ (h.functors f hf)
    active := fun c hc => hhome _ (h.active c hc)
    frames := fun hne => hhome _ (h.frames hne) }

namespace TcpServer

variable {s s' : TcpServer} {l : LoopId} {c : ConnId} {x x' : Accepted} {y : Ctx} {t : Tid}
  {pc : CallPc} {f : Functor} {fs : List Frame} {a : Action}

structure Wired (s : TcpServer) : Prop where
  size : 1 ≤ s.size
  next : s.next < s.size
  known : ∀ c x, s.conns c = some x →
    x.conn.channel.id = c ∧ c < s.nextConnId ∧ x.loop < s.size
  listed : ∀ c ∈ s.connections, ∃ x, s.conns c = some x
  held : ∀ p ∈ s.held, ∃ x, s.conns p.2 = some x
  calling : ∀ c x t, s.conns c = some x → x.pcs t ≠ .idle → (t, c) ∈ s.held
  loops : ∀ l, (s.loops l).Wired (s.Homed l) (s.Placed l)

/-- No connection is forgotten, and none moves to another loop. -/
def Grows (s s' : TcpServer) : Prop :=
  ∀ c x, s.conns c = some x → ∃ x', s'.conns c = some x' ∧ x'.loop = x.loop

theorem Homed.mono (h : s.Homed l c) (hg : Grows s s') : s'.Homed l c := by
  obtain ⟨x, hc, hloop⟩ := h
  obtain ⟨x', hc', hloop'⟩ := hg c x hc
  exact ⟨x', hc', hloop'.trans hloop⟩

theorem Placed.mono (h : s.Placed l f) (hg : Grows s s') : s'.Placed l f := by
  unfold Placed at *
  by_cases hr : f.isRemoval = true
  · rw [if_pos hr] at *
    obtain ⟨hl, x, hx⟩ := h
    obtain ⟨x', hx', -⟩ := hg _ x hx
    exact ⟨hl, x', hx'⟩
  · rw [if_neg hr] at *
    exact h.mono hg

theorem Placed.of_home (hr : f.isRemoval = false) (h : s.Homed l f.conn) : s.Placed l f := by
  unfold Placed
  rw [if_neg (by simp [hr])]
  exact h

theorem Placed.home (h : s.Placed l f) (hr : f.isRemoval = false) : s.Homed l f.conn := by
  unfold Placed at h
  rwa [if_neg (by simp [hr])] at h

namespace Wired

/-- A change of what a loop has. -/
theorem setLoop (h : Wired s) {q : LoopState} (hq : q.Wired (s.Homed l) (s.Placed l)) :
    Wired (s.setLoop l q) := by
  refine { h with loops := ?_ }
  intro l'
  rw [setLoop_loops]
  by_cases hl : l' = l
  · rw [if_pos hl, hl]
    exact hq
  · rw [if_neg hl]
    exact h.loops l'

theorem grows_setConn (hc : s.conns c = some x) (hloop : x'.loop = x.loop) :
    Grows s (s.setConn c x') := by
  intro c' z hz
  by_cases heq : c' = c
  · rw [heq, hc, Option.some.injEq] at hz
    rw [heq, ← hz]
    exact ⟨x', by simp [TcpServer.setConn], hloop⟩
  · exact ⟨z, by simp [TcpServer.setConn, heq, hz], rfl⟩

/-- A change of what a connection has. -/
theorem setConn (h : Wired s) (hc : s.conns c = some x) (hloop : x'.loop = x.loop)
    (hid : x'.conn.channel.id = x.conn.channel.id)
    (hpcs : ∀ t, x'.pcs t ≠ .idle → (t, c) ∈ s.held) : Wired (s.setConn c x') := by
  have hg := grows_setConn hc hloop
  refine { h with known := ?_, listed := ?_, held := ?_, calling := ?_, loops := ?_ }
  · intro c' z hz
    by_cases heq : c' = c
    · obtain rfl : x' = z := by simpa [TcpServer.setConn, heq] using hz
      rw [heq, hid, hloop]
      exact h.known c x hc
    · exact h.known c' z (by simpa [TcpServer.setConn, heq] using hz)
  · intro c' hc'
    obtain ⟨z, hz⟩ := h.listed c' hc'
    obtain ⟨z', hz', -⟩ := hg c' z hz
    exact ⟨z', hz'⟩
  · intro p hp
    obtain ⟨z, hz⟩ := h.held p hp
    obtain ⟨z', hz', -⟩ := hg p.2 z hz
    exact ⟨z', hz'⟩
  · intro c' z t hz hpc
    by_cases heq : c' = c
    · obtain rfl : x' = z := by simpa [TcpServer.setConn, heq] using hz
      rw [heq]
      exact hpcs t hpc
    · exact h.calling c' z t (by simpa [TcpServer.setConn, heq] using hz) hpc
  · intro l'
    exact (h.loops l').mono (fun _ hc' => hc'.mono hg) (fun _ hf => hf.mono hg)

theorem push (h : Wired s) (hf : s.Placed l f) : Wired (s.push l f) := by
  refine h.setLoop { h.loops l with functors := ?_ }
  intro g hg
  have hcases : g ∈ (s.loops l).queue ++ (s.loops l).funcs ∨ g = f := by
    simp only [List.mem_append, List.mem_singleton] at hg ⊢
    tauto
  rcases hcases with hg | rfl
  · exact (h.loops l).functors g hg
  · exact hf

theorem enter (h : Wired s) (hc : s.Homed l c) : Wired (s.enter l c fs) :=
  h.setLoop { h.loops l with frames := fun _ => hc }

theorem put (h : Wired s) (hc : s.conns c = some x)
    (hid : y.conn.channel.id = x.conn.channel.id)
    (hpending : ∀ f ∈ y.pending, f.conn = c ∧ f.isRemoval = false)
    (hinterest : y.poller.Adds (s.loops x.loop).poller c) : Wired (s.put c x y) := by
  have hset : Wired (s.setConn c { x with conn := y.conn, log := y.log }) :=
    h.setConn hc rfl hid fun t => h.calling c x t hc
  have hhome : (s.setConn c { x with conn := y.conn, log := y.log }).Homed x.loop c :=
    ⟨{ x with conn := y.conn, log := y.log }, by simp [TcpServer.setConn], rfl⟩
  have hloop := hset.loops x.loop
  refine hset.setLoop { hloop with interest := ?_, functors := ?_ }
  · intro fd e he
    rcases hinterest fd e he with he | he
    · exact hloop.interest fd e he
    · rw [he]
      exact hhome
  · intro g hg
    have hcases : g ∈ (s.loops x.loop).queue ++ (s.loops x.loop).funcs ∨ g ∈ y.pending := by
      simp only [List.mem_append] at hg ⊢
      tauto
    rcases hcases with hg | hg
    · exact hloop.functors g hg
    · obtain ⟨hconn, hr⟩ := hpending g hg
      refine .of_home hr ?_
      rw [hconn]
      exact hhome

theorem setPc (h : Wired s) (hc : s.conns c = some x) (hheld : (t, c) ∈ s.held) :
    Wired (s.setPc c t pc) := by
  have heq : s.setPc c t pc = s.setConn c { x with pcs := Function.update x.pcs t pc } := by
    simp only [TcpServer.setPc, TcpServer.setConn, hc, Option.map_some]
  rw [heq]
  refine h.setConn hc rfl rfl ?_
  intro u hu
  by_cases ht : u = t
  · rw [ht]
    exact hheld
  · refine h.calling c x u hc ?_
    simpa [ht] using hu

/-- What the server does to its own records. -/
theorem erased (h : Wired s) {e : ServerEntry} : Wired (s.erased c e) :=
  { h with
    listed := fun c' hc' => h.listed c' (Finset.mem_of_mem_erase hc')
    loops := h.loops }

theorem record (h : Wired s) (e : ServerEntry) : Wired (s.record e) :=
  { h with loops := h.loops }

theorem getNextLoop (h : Wired s) : s.getNextLoop.1 < s.size ∧ s.getNextLoop.2 < s.size := by
  have hsize := h.size
  have hnext := h.next
  unfold TcpServer.getNextLoop
  by_cases h1 : s.size = 1
  · rw [if_pos h1]
    exact ⟨hsize, hnext⟩
  · rw [if_neg h1]
    refine ⟨?_, Nat.mod_lt _ hsize⟩
    show (if s.next = 0 then 1 else s.next) < s.size
    split <;> omega

theorem fresh (h : Wired s) : s.conns s.nextConnId = none := by
  cases hc : s.conns s.nextConnId with
  | none => rfl
  | some x =>
      have hlt := (h.known s.nextConnId x hc).2.1
      exact absurd hlt (Nat.lt_irrefl _)

theorem grows_enlist (h : Wired s) {fd : Fd} : Grows s (s.enlist fd) := by
  intro c x hc
  refine ⟨x, ?_, rfl⟩
  rw [enlist_conns, if_neg ?_]
  · exact hc
  · rintro rfl
    rw [h.fresh] at hc
    simp at hc

theorem enlist (h : Wired s) {fd : Fd} : Wired (s.enlist fd) := by
  have hg : Grows s (s.enlist fd) := h.grows_enlist
  refine ⟨h.size, h.getNextLoop.2, ?_, ?_, ?_, ?_, ?_⟩
  · intro c z hc
    rw [enlist_conns] at hc
    by_cases heq : c = s.nextConnId
    · rw [if_pos heq, Option.some.injEq] at hc
      rw [heq, ← hc]
      exact ⟨rfl, Nat.lt_succ_self _, h.getNextLoop.1⟩
    · rw [if_neg heq] at hc
      obtain ⟨hid, hlt, hloop⟩ := h.known c z hc
      exact ⟨hid, Nat.lt_succ_of_lt hlt, hloop⟩
  · intro c hc
    rcases Finset.mem_insert.mp hc with rfl | hc
    · exact ⟨s.newAccepted fd, by rw [enlist_conns, if_pos rfl]⟩
    · obtain ⟨z, hz⟩ := h.listed c hc
      obtain ⟨z', hz', -⟩ := hg c z hz
      exact ⟨z', hz'⟩
  · intro p hp
    obtain ⟨z, hz⟩ := h.held p hp
    obtain ⟨z', hz', -⟩ := hg p.2 z hz
    exact ⟨z', hz'⟩
  · intro c z t hc hpc
    rw [enlist_conns] at hc
    by_cases heq : c = s.nextConnId
    · rw [if_pos heq, Option.some.injEq] at hc
      rw [← hc] at hpc
      exact absurd rfl hpc
    · rw [if_neg heq] at hc
      exact h.calling c z t hc hpc
  · intro l
    exact (h.loops l).mono (fun _ hc => hc.mono hg) (fun _ hf => hf.mono hg)

theorem homed_new {fd : Fd} : (s.enlist fd).Homed s.getNextLoop.1 s.nextConnId :=
  ⟨s.newAccepted fd, by rw [enlist_conns, if_pos rfl], rfl⟩

theorem pointee (h : Wired s) {fd : Fd} (hc : s.pointee l fd = some c) : s.Homed l c := by
  obtain ⟨e, he, rfl⟩ := Option.map_eq_some_iff.mp hc
  exact (h.loops l).interest fd e he

theorem poll (h : Wired s) {reports : List (Fd × Events)} {accepting : Bool}
    (hphase : (s.loops l).phase = .polling) : Wired (s.poll l reports accepting) := by
  have hg : Grows s (s.poll l reports accepting) := by
    intro c x hc
    exact ⟨s.reported l reports c x, by rw [poll_conns, hc, Option.map_some], reported_loop⟩
  have hback : ∀ {c z}, (s.poll l reports accepting).conns c = some z → ∃ x, s.conns c = some x ∧
      z.conn.channel.id = x.conn.channel.id ∧ z.loop = x.loop ∧ z.pcs = x.pcs := by
    intro c z hc
    obtain ⟨x, hx, rfl⟩ := Option.map_eq_some_iff.mp hc
    exact ⟨x, hx, reported_id, reported_loop, reported_pcs⟩
  refine ⟨h.size, h.next, ?_, ?_, ?_, ?_, ?_⟩
  · intro c z hc
    obtain ⟨x, hx, hid, hloop, -⟩ := hback hc
    rw [hid, hloop]
    exact h.known c x hx
  · intro c hc
    obtain ⟨x, hx⟩ := h.listed c hc
    obtain ⟨x', hx', -⟩ := hg c x hx
    exact ⟨x', hx'⟩
  · intro p hp
    obtain ⟨x, hx⟩ := h.held p hp
    obtain ⟨x', hx', -⟩ := hg p.2 x hx
    exact ⟨x', hx'⟩
  · intro c z t hc hpc
    obtain ⟨x, hx, -, -, hpcs⟩ := hback hc
    rw [hpcs] at hpc
    exact h.calling c x t hx hpc
  · intro l'
    have hmono : ∀ q : LoopState, q.Wired (s.Homed l') (s.Placed l') →
        q.Wired ((s.poll l reports accepting).Homed l') ((s.poll l reports accepting).Placed l') :=
      fun q hq => hq.mono (fun _ hc => hc.mono hg) (fun _ hf => hf.mono hg)
    show ((s.setLoop l _).loops l').Wired _ _
    rw [setLoop_loops]
    by_cases hl : l' = l
    · rw [if_pos hl]
      subst hl
      refine hmono _ { h.loops l' with order := .inr ?_, handling := .inl rfl, active := ?_ }
      · exact (h.loops l').order.resolve_left (by simp [hphase])
      · intro c hc
        obtain ⟨r, -, hr⟩ := List.mem_filterMap.mp hc
        exact h.pointee hr
    · rw [if_neg hl]
      exact hmono _ (h.loops l')

theorem accepted (h : Wired s) : Wired s.accepted := by
  have hl := h.loops 0
  exact h.setLoop ⟨hl.interest, hl.functors, hl.batch, hl.order, hl.handling, hl.active, hl.frames⟩

theorem id (h : Wired s) (hc : s.conns c = some x) : x.conn.channel.id = c :=
  (h.known c x hc).1

/-- What a piece of a connection's code queues is the connection's. -/
theorem named_own (h : Wired s) (hc : s.conns c = some x) (hy : Ctx.Named (s.ctx x) y) :
    ∀ f ∈ y.pending, f.conn = c ∧ f.isRemoval = false := by
  obtain ⟨q, hq, hall⟩ := hy.pending
  intro f hf
  rw [hq, ctx, List.nil_append] at hf
  obtain ⟨hkind, hconn⟩ := hall f hf
  rw [ctx, h.id hc] at hconn
  refine ⟨hconn, ?_⟩
  cases f with
  | removeConnectionInLoop d => simp [Functor.isUserCallback] at hkind
  | _ => rfl

theorem called_own (h : Wired s) (hc : s.conns c = some x) (hy : Called x t (s.ctx x) y) :
    ∀ f ∈ y.pending, f.conn = c ∧ f.isRemoval = false := by
  obtain ⟨q, hq, hall⟩ := hy.pending
  intro f hf
  rw [hq, ctx, List.nil_append] at hf
  obtain ⟨hconn, hkind⟩ := hall f hf
  rw [ctx, h.id hc] at hconn
  refine ⟨hconn, ?_⟩
  cases f with
  | removeConnectionInLoop d => simp [Functor.isUserCallback, Functor.owns] at hkind
  | _ => rfl

theorem called (h : Wired s) (hc : s.conns c = some x) (hheld : (t, c) ∈ s.held)
    (hy : Called x t (s.ctx x) y) : Wired ((s.put c x y).setPc c t pc) := by
  have hinterest := hy.interest
  simp only [ctx, h.id hc] at hinterest
  refine (h.put hc hy.id (h.called_own hc hy) hinterest).setPc
    (x := { x with conn := y.conn, log := y.log }) ?_ hheld
  rw [put_conns, if_pos rfl]

theorem named (h : Wired s) (hc : s.conns c = some x) (hy : Ctx.Named (s.ctx x) y) :
    Wired (s.put c x y) := by
  have hinterest := hy.interest
  simp only [ctx, h.id hc] at hinterest
  exact h.put hc hy.id (h.named_own hc hy) hinterest

/-- The batch loses its first functor. -/
theorem popped (h : Wired s) {rest : List Functor} (hbatch : (s.loops l).batch = f :: rest)
    (hphase : (s.loops l).phase = .functors) : Wired (s.popped l rest) := by
  refine h.setLoop { h.loops l with batch := ?_, order := .inl hphase }
  intro g hg
  refine (h.loops l).batch g ?_
  rw [hbatch]
  exact List.mem_cons_of_mem f hg

end Wired

theorem Homed.loop (h : s.Homed l c) (hc : s.conns c = some x) : x.loop = l := by
  obtain ⟨z, hz, hloop⟩ := h
  rw [hc, Option.some.injEq] at hz
  rw [hz]
  exact hloop

/-- A loop's thread is inside a connection of that loop. -/
theorem Wired.inside_loop (h : Wired s) {f : Frame} {rest : List Frame}
    (inside : (s.loops l).inside = c) (frames : (s.loops l).frames = f :: rest)
    (hc : s.conns c = some x) : x.loop = l := by
  have hhome := (h.loops l).frames (by simp [frames])
  rw [inside] at hhome
  exact hhome.loop hc

/-- Code on the stack of a loop's thread keeps its connection. -/
theorem alive_of_frames {g : Frame} {gs : List Frame} (lt : l < s.size)
    (inside : (s.loops l).inside = c) (frames : (s.loops l).frames = g :: gs) : s.Alive c :=
  .inr (.inr ⟨l, lt, .inr ⟨by simp [frames], inside⟩⟩)

/-- The functors of a batch are of connections of that loop. -/
theorem Wired.batch_loop (h : Wired s) {rest : List Functor}
    (batch : (s.loops l).batch = f :: rest) (hf : f.isRemoval = false)
    (hc : s.conns f.conn = some x) : x.loop = l := by
  have hmem : f ∈ (s.loops l).funcs := (h.loops l).batch f (by simp [batch])
  exact (((h.loops l).functors f (List.mem_append_right _ hmem)).home hf).loop hc

theorem homed_put : (s.put c x y).Homed x.loop c :=
  ⟨{ x with conn := y.conn, log := y.log }, by rw [put_conns, if_pos rfl], rfl⟩

/-- Taking a functor from the batch is no business of a connection's. -/
theorem ctx_popped {rest : List Functor} : (s.popped l rest).ctx x = s.ctx x := by
  unfold ctx
  rw [popped_loops]

/-- A step keeps the references. -/
theorem Wired.step (h : Wired s) (hstep : Step s a s') : Wired s' := by
  cases hstep with
  | @acceptHere sockfd en base =>
      refine h.accepted.enlist.enter ?_
      rw [← base]
      exact homed_new
  | @accept sockfd en other =>
      exact h.accepted.enlist.push (.of_home rfl homed_new)
  | call own conn held hcalled view => exact h.called conn held hcalled
  | poke reads => exact { h with loops := h.loops }
  | @hold t c x conn alive =>
      refine { h with held := ?_, calling := ?_, loops := h.loops }
      · intro p hp
        rcases List.mem_cons.mp hp with rfl | hp
        · exact ⟨x, conn⟩
        · exact h.held p hp
      · intro d z u hz hpc
        exact List.mem_cons_of_mem _ (h.calling d z u hz hpc)
  | @drop t c idle held =>
      refine { h with held := ?_, calling := ?_, loops := h.loops }
      · intro p hp
        exact h.held p (List.mem_of_mem_erase hp)
      · intro d z u hz hpc
        -- the thread that drops the pointer is in no call
        have hne : (u, d) ≠ (t, c) := by
          intro heq
          obtain ⟨rfl, rfl⟩ := Prod.mk.inj heq
          exact hpc (idle d (h.known d z hz).2.1 z hz)
        exact (List.mem_erase_of_ne hne).mpr (h.calling d z u hz hpc)
  | poll en => exact h.poll en.2.1
  | @handleEvent l c x rest idle phase active alive conn =>
      have hhome : s.Homed l c := (h.loops l).active c (by simp [active])
      have hhandled : Wired (s.handled c x) :=
        h.setConn conn rfl rfl fun t => h.calling c x t conn
      have hloop := hhandled.loops l
      have htaken : Wired ((s.handled c x).taken l rest) := by
        refine hhandled.setLoop ⟨hloop.interest, hloop.functors, hloop.batch, hloop.order,
          .inl phase, ?_, hloop.frames⟩
        intro d hd
        refine hloop.active d ?_
        rw [handled_loops, active]
        exact List.mem_cons_of_mem c hd
      exact htaken.enter (hhome.mono (grows_setConn conn rfl))
  | @frame l io c f rest x y fs lt pc inside frames conn hf hrun =>
      refine (h.named conn (Ctx.runFrame_named hrun)).enter ?_
      rw [← h.inside_loop inside frames conn]
      exact homed_put
  | @closeHere io c rest x lt pc inside frames conn =>
      have hput : Wired (s.put c x ((s.ctx x).record .closeCallback)) :=
        h.named conn (.of_same rfl rfl rfl)
      have henter : (s.put c x ((s.ctx x).record .closeCallback)).Homed 0 c := by
        rw [← h.inside_loop inside frames conn]
        exact homed_put
      exact ((hput.enter henter).record _).erased.push (.of_home rfl homed_put)
  | @close l io c rest x other lt pc inside frames conn =>
      have hput : Wired (s.put c x ((s.ctx x).record .closeCallback)) :=
        h.named conn (.of_same rfl rfl rfl)
      have henter : (s.put c x ((s.ctx x).record .closeCallback)).Homed l c := by
        rw [← h.inside_loop inside frames conn]
        exact homed_put
      have hknown := henter
      obtain ⟨z, hz, -⟩ := hknown
      exact ((hput.enter henter).record _).push ⟨rfl, z, hz⟩
  | @swap l idle phase active =>
      have hloop := h.loops l
      refine h.setLoop ⟨hloop.interest, ?_, fun _ hf => hf, .inl rfl, .inr active,
        hloop.active, hloop.frames⟩
      intro f hf
      exact hloop.functors f (List.mem_append_left _ (by simpa using hf))
  | removal idle phase batch alive conn =>
      exact (h.popped batch phase).erased.push (.of_home rfl ⟨_, conn, rfl⟩)
  | @functor l io f rest x y fs idle phase batch hf alive conn hrun =>
      have hpop := h.popped batch phase
      have hnamed := Ctx.runFunctor_named hrun
      rw [← ctx_popped (l := l)] at hnamed
      refine (hpop.named conn hnamed).enter ?_
      rw [← h.batch_loop batch hf conn]
      exact homed_put
  | @batchEnd l idle phase batch =>
      have hloop := h.loops l
      have hactive : (s.loops l).active = [] := hloop.handling.resolve_left (by simp [phase])
      refine h.setLoop ⟨hloop.interest, ?_, by simp [batch], .inr batch, .inr hactive,
        hloop.active, hloop.frames⟩
      intro f hf
      exact hloop.functors f (List.mem_append_left _ (by simpa using hf))
  | destroy hnot => exact h.record _
  | release destroyed listed conn => exact h.erased.push (.of_home rfl ⟨_, conn, rfl⟩)

/-- The functors a loop still has to run, in order. -/
def todo (s : TcpServer) (l : LoopId) : List Functor := (s.loops l).batch ++ (s.loops l).queue

/-- Swapping the queue out changes nothing of it. -/
theorem Wired.todo_swapped {l' : LoopId} (h : Wired s) (hphase : (s.loops l).phase = .handling) :
    (s.swapped l).todo l' = s.todo l' := by
  unfold todo
  rw [swapped_loops]
  by_cases hl : l' = l
  · have hbatch : (s.loops l).batch = [] := (h.loops l).order.resolve_left (by simp [hphase])
    simp [hl, hbatch]
  · simp [hl]

/-! ### Sorting the steps -/

/-- Setting a callback is a call that leaves nothing behind. -/
theorem setConn_eq {conn : TcpConnection} :
    s.setConn c { x with conn } =
      (s.put c x { s.ctx x with conn }).setPc c t (x.pcs t) := by
  have hloops : Function.update s.loops x.loop
      { s.loops x.loop with queue := (s.loops x.loop).queue ++ [] } = s.loops := by
    rw [List.append_nil]
    exact Function.update_eq_self _ _
  simp only [setPc, put, setLoop, setConn, ctx, hloops, Function.update_self, Option.map_some,
    Function.update_idem, Function.update_eq_self]

theorem view_setConn {conn : TcpConnection} :
    ((s.view c x).put { s.ctx x with conn }).setPc t (x.pcs t) = { s.view c x with conn } := by
  simp only [ConnSystem.put, ConnSystem.setPc, ctx, view, List.append_nil,
    Function.update_eq_self]

theorem Wired.idle (h : Wired s) (hidle : s.Idle t) (hc : s.conns c = some x) :
    x.pcs t = .idle :=
  hidle c (h.known c x hc).2.1 x hc

theorem send_step (h : Wired s) {message len : Nat} (hen : s.Enabled (.send t c message len))
    (hex : s.exec (.send t c message len) = .ok s') : Step s (.send t c message len) s' := by
  obtain ⟨hidle, hheld, hlen, hread⟩ := hen
  obtain ⟨x, hx⟩ := h.held _ hheld
  simp only [exec, hx] at hex
  obtain ⟨⟨y, pc⟩, hsend, hret⟩ := Except.bind_eq_ok.mp hex
  rw [Except.pure_eq_ok] at hret
  rw [← hret]
  refine .call rfl hx hheld (.send hsend) ⟨⟨h.idle hidle hx, hlen, ?_⟩, ?_⟩
  · cases hbytes : s.mem.read message len with
    | error e => simp [hbytes, Except.toBool] at hread
    | ok bytes => exact ⟨bytes, hbytes⟩
  · exact Except.bind_eq_ok.mpr ⟨(y, pc), hsend, rfl⟩

theorem sendRun_step (h : Wired s) {w : WriteResult} (hen : s.Enabled (.sendRun t c w))
    (hex : s.exec (.sendRun t c w) = .ok s') : Step s (.sendRun t c w) s' := by
  obtain ⟨x, hx, hpc⟩ := hen
  obtain ⟨call, hcall⟩ : ∃ call, x.pcs t = .sending call := by
    cases hcase : x.pcs t with
    | sending call => exact ⟨call, rfl⟩
    | _ => simp [hcase] at hpc
  have hne : x.pcs t ≠ .idle := by simp [hcall]
  have hx : s.conns c = some x := hx
  simp only [exec, hx, hcall] at hex
  obtain ⟨y, hrun, hret⟩ := Except.bind_eq_ok.mp hex
  rw [Except.pure_eq_ok] at hret
  rw [← hret]
  refine .call rfl hx (h.calling c x t hx hne) (.sendRun hne hrun) ⟨⟨call, hcall⟩, ?_⟩
  simp only [ConnSystem.exec, view, hcall]
  exact Except.bind_eq_ok.mpr ⟨y, hrun, rfl⟩

theorem shutdown_step (h : Wired s) (hen : s.Enabled (.shutdown t c))
    (hex : s.exec (.shutdown t c) = .ok s') : Step s (.shutdown t c) s' := by
  obtain ⟨hidle, hheld⟩ := hen
  obtain ⟨x, hx⟩ := h.held _ hheld
  simp only [exec, hx, Except.ok.injEq] at hex
  rw [← hex]
  exact .call rfl hx hheld .shutdown ⟨h.idle hidle hx, rfl⟩

theorem shutdownStore_step (h : Wired s) (hen : s.Enabled (.shutdownStore t c))
    (hex : s.exec (.shutdownStore t c) = .ok s') : Step s (.shutdownStore t c) s' := by
  obtain ⟨x, hx, hpc⟩ := hen
  have hx : s.conns c = some x := hx
  simp only [exec, hx, Except.ok.injEq] at hex
  rw [← hex]
  exact .call rfl hx (h.calling c x t hx (by simp [hpc])) .shutdownStore ⟨hpc, rfl⟩

theorem shutdownRun_step (h : Wired s) (hen : s.Enabled (.shutdownRun t c))
    (hex : s.exec (.shutdownRun t c) = .ok s') : Step s (.shutdownRun t c) s' := by
  obtain ⟨x, hx, hpc⟩ := hen
  have hne : x.pcs t ≠ .idle := by simp [hpc]
  have hx : s.conns c = some x := hx
  simp only [exec, hx, Except.ok.injEq] at hex
  rw [← hex]
  exact .call rfl hx (h.calling c x t hx hne) (.shutdownRun hne) ⟨hpc, rfl⟩

/-- A callback is set on a connection that somebody holds. -/
theorem set_step {b : ConnSystem.Action} (hown : a.own = some (c, b))
    (hheld : ∃ p ∈ s.held, p.2 = c) {g : TcpConnection → TcpConnection}
    (hchannel : ∀ conn, (g conn).channel = conn.channel)
    (hview : ∀ v : ConnSystem, v.Enabled b ∧ v.exec b = .ok { v with conn := g v.conn })
    (hx : s.conns c = some x) : Step s a (s.setConn c { x with conn := g x.conn }) := by
  obtain ⟨⟨u, d⟩, hp, hd⟩ := hheld
  obtain rfl : d = c := hd
  have hstep := hview (s.view d x)
  rw [setConn_eq (t := u)]
  refine .call hown hx hp ⟨?_, ?_, rfl, ⟨[], rfl, by simp⟩, .refl _ _, fun _ _ => ⟨rfl, rfl⟩⟩ ?_
  · exact congrArg Channel.id (hchannel x.conn)
  · exact congrArg Channel.fd (hchannel x.conn)
  · rw [view_setConn]
    exact hstep

theorem newConnection_eq {sockfd : Fd} : s.newConnection sockfd = if s.getNextLoop.1 = 0 then
    (s.enlist sockfd).enter 0 s.nextConnId [.connectEstablished]
    else (s.enlist sockfd).push s.getNextLoop.1 (.connectEstablished s.nextConnId) := rfl

theorem handleEvent_eq {rest : List ConnId} (hc : s.conns c = some x)
    (hactive : (s.loops l).active = c :: rest) : s.handleEvent l c =
    ((s.handled c x).taken l rest).enter l c Ctx.handelEventWithGuard := by
  simp only [TcpServer.handleEvent, hc, hactive, List.tail_cons, handled, taken, enter, setLoop,
    Function.update_self, Function.update_idem]
  rfl

theorem removeConnectionInLoop_eq (hc : s.conns c = some x) : s.removeConnectionInLoop c =
    (s.erased c (.removeConnectionInLoop c)).push x.loop (.connectDestoryed c) := by
  have hc' : (s.erased c (.removeConnectionInLoop c)).conns c = some x := hc
  simp only [removeConnectionInLoop, erased, queueDestory] at hc' ⊢
  rw [hc']

theorem release_eq (hc : s.conns c = some x) : s.release c =
    (s.erased c (.released c)).push x.loop (.connectDestoryed c) := by
  have hc' : (s.erased c (.released c)).conns c = some x := hc
  simp only [release, erased, queueDestory] at hc' ⊢
  rw [hc']

theorem closeCallback_step {io : Io} {rest : List Frame} (hlt : l < s.size)
    (hpc : s.Idle (s.threadId l)) (hframes : (s.loops l).frames = .closeCallback :: rest)
    (hx : s.conns (s.loops l).inside = some x)
    (hrun : (s.ctx x).runFrame io .closeCallback = .ok ((s.ctx x).record .closeCallback, [])) :
    Step s (.frame l io) (((s.put (s.loops l).inside x ((s.ctx x).record .closeCallback)).enter l
      (s.loops l).inside rest).removeConnection l (s.loops l).inside) := by
  unfold removeConnection
  by_cases hl : l = 0
  · subst hl
    rw [if_pos rfl, removeConnectionInLoop_eq (x := { x with log := x.log ++ [.closeCallback] })]
    · exact .closeHere hlt hpc rfl hframes hx hrun
    · show (s.put _ x _).conns _ = _
      rw [put_conns, if_pos rfl]
      rfl
  · rw [if_neg hl]
    exact .close hl hlt hpc rfl hframes hx hrun

theorem frame_step (h : Wired s) {io : Io} (hen : s.Enabled (.frame l io))
    (hex : s.exec (.frame l io) = .ok s') : Step s (.frame l io) s' := by
  obtain ⟨hlt, hpc, hne⟩ := hen
  obtain ⟨f, rest, hframes⟩ := List.exists_cons_of_ne_nil hne
  obtain ⟨x, hx, -⟩ := (h.loops l).frames hne
  simp only [exec, runFrame, hframes, hx] at hex
  obtain ⟨⟨y, fs⟩, hrun, hret⟩ := Except.bind_eq_ok.mp hex
  rw [Except.pure_eq_ok] at hret
  rw [← hret]
  by_cases hf : f = .closeCallback
  · subst hf
    obtain ⟨rfl, rfl⟩ := Ctx.runFrame_closeCallback hrun
    rw [if_pos rfl]
    exact closeCallback_step hlt hpc hframes hx hrun
  · rw [if_neg hf]
    exact .frame hlt hpc rfl hframes hx hf hrun

theorem runFunctor_eq {io : Io} {rest : List Functor} (hbatch : (s.loops l).batch = f :: rest)
    (hr : f.isRemoval = false) (hx : s.conns f.conn = some x) : s.runFunctor l io = do
      let (y, fs) ← ((s.popped l rest).ctx x).runFunctor s.mem io f
      return ((s.popped l rest).put f.conn x y).enter l f.conn fs := by
  cases f with
  | removeConnectionInLoop c => simp [Functor.isRemoval] at hr
  | _ =>
      simp only [runFunctor, hbatch, hx]
      rfl

theorem functor_step (h : Wired s) {io : Io} (hen : s.Enabled (.functor l io))
    (hex : s.exec (.functor l io) = .ok s') : Step s (.functor l io) s' := by
  obtain ⟨hidle, hphase, f, hhead, halive⟩ := hen
  obtain ⟨rest, hbatch⟩ := List.head?_eq_some_iff.mp hhead
  have hmem : f ∈ (s.loops l).funcs := (h.loops l).batch f (by simp [hbatch])
  have hplaced := (h.loops l).functors f (List.mem_append_right _ hmem)
  by_cases hr : f.isRemoval = true
  · cases f with
    | removeConnectionInLoop c =>
        obtain ⟨rfl, x, hx⟩ := hplaced
        simp only [exec, runFunctor, hbatch, Except.ok.injEq] at hex
        have hex : (s.popped 0 rest).removeConnectionInLoop c = s' := hex
        have hx' : (s.popped 0 rest).conns c = some x := hx
        rw [← hex, removeConnectionInLoop_eq hx']
        exact .removal hidle hphase hbatch halive hx
    | _ => simp [Functor.isRemoval] at hr
  · have hr : f.isRemoval = false := by simpa using hr
    obtain ⟨x, hx, -⟩ := hplaced.home hr
    have hex : s.runFunctor l io = .ok s' := hex
    rw [runFunctor_eq hbatch hr hx] at hex
    obtain ⟨⟨y, fs⟩, hrun, hret⟩ := Except.bind_eq_ok.mp hex
    rw [Except.pure_eq_ok] at hret
    rw [ctx_popped] at hrun
    rw [← hret]
    exact .functor hidle hphase hbatch hr halive hx hrun

theorem step_cases (h : Wired s) (hstep : lts.step s a s') : Step s a s' := by
  obtain ⟨hen, hex⟩ := hstep
  cases a with
  | send t c message len => exact send_step h hen hex
  | sendRun t c w => exact sendRun_step h hen hex
  | shutdown t c => exact shutdown_step h hen hex
  | shutdownStore t c => exact shutdownStore_step h hen hex
  | shutdownRun t c => exact shutdownRun_step h hen hex
  | setWriteCompleteCallback c isSet =>
      obtain ⟨p, hp, rfl⟩ := hen
      obtain ⟨x, hx⟩ := h.held p hp
      simp only [exec, hx, Except.ok.injEq] at hex
      rw [← hex]
      exact set_step (b := .setWriteCompleteCallback isSet) rfl ⟨p, hp, rfl⟩
        (g := fun conn => { conn with writeCompleteCallback := isSet }) (fun _ => rfl)
        (fun _ => ⟨trivial, rfl⟩) hx
  | setHighWaterMarkCallback c isSet mark =>
      obtain ⟨p, hp, rfl⟩ := hen
      obtain ⟨x, hx⟩ := h.held p hp
      simp only [exec, hx, Except.ok.injEq] at hex
      rw [← hex]
      exact set_step (b := .setHighWaterMarkCallback isSet mark) rfl ⟨p, hp, rfl⟩
        (g := fun conn => { conn with
          highWaterMarkCallback := isSet, highWaterMark := mark }) (fun _ => rfl)
        (fun _ => ⟨trivial, rfl⟩) hx
  | accept sockfd =>
      have hex : s.accepted.newConnection sockfd = s' := Except.ok.inj hex
      rw [← hex, newConnection_eq]
      by_cases h0 : s.getNextLoop.1 = 0
      · have hbase : s.accepted.getNextLoop.1 = 0 := h0
        rw [if_pos hbase]
        exact .acceptHere hen h0
      · have hother : s.accepted.getNextLoop.1 ≠ 0 := h0
        rw [if_neg hother]
        exact .accept hen h0
  | poke p b =>
      simp only [exec, Except.ok.injEq] at hex
      rw [← hex]
      exact .poke hen
  | hold t c =>
      obtain ⟨-, halive, x, hx, -⟩ := hen
      simp only [exec, Except.ok.injEq] at hex
      rw [← hex]
      exact .hold hx halive
  | drop t c =>
      simp only [exec, Except.ok.injEq] at hex
      rw [← hex]
      exact .drop hen.1 hen.2
  | poll l reports accepting =>
      simp only [exec, Except.ok.injEq] at hex
      rw [← hex]
      exact .poll hen
  | handleEvent l c =>
      obtain ⟨hidle, hphase, hhead, halive⟩ := hen
      obtain ⟨rest, hactive⟩ := List.head?_eq_some_iff.mp hhead
      obtain ⟨x, hx, -⟩ := (h.loops l).active c (by simp [hactive])
      simp only [exec, Except.ok.injEq] at hex
      rw [← hex, handleEvent_eq hx hactive]
      exact .handleEvent hidle hphase hactive halive hx
  | frame l io => exact frame_step h hen hex
  | swap l =>
      obtain ⟨hidle, hphase, hactive, -⟩ := hen
      simp only [exec, Except.ok.injEq] at hex
      rw [← hex]
      exact .swap hidle hphase hactive
  | functor l io => exact functor_step h hen hex
  | batchEnd l =>
      obtain ⟨hidle, hphase, hbatch⟩ := hen
      simp only [exec, Except.ok.injEq] at hex
      rw [← hex]
      exact .batchEnd hidle hphase hbatch
  | destroy =>
      simp only [exec, Except.ok.injEq] at hex
      rw [← hex]
      exact .destroy hen
  | release c =>
      obtain ⟨x, hx⟩ := h.listed c hen.2
      simp only [exec, Except.ok.injEq] at hex
      rw [← hex, release_eq hx]
      exact .release hen.1 hen.2 hx

theorem wired_of_init (h : lts.init s) : Wired s where
  size := h.size
  next := by rw [h.next]; exact h.size
  known c x hc := by simp [h.conns] at hc
  listed c hc := by simp [h.connections] at hc
  held p hp := by simp [h.held] at hp
  calling c x t hc := by simp [h.conns] at hc
  loops l := by
    rw [h.loops l]
    refine ⟨?_, ?_, ?_, .inr rfl, .inr rfl, ?_, ?_⟩ <;> simp [LoopState.start, EpollPoller.empty]

theorem wired_of_reachable (h : lts.Reachable s) : Wired s :=
  h.induct (fun _ h0 => wired_of_init h0) fun _ _ _ _ hm hstep => hm.step (step_cases hm hstep)

end TcpServer

end Muduo
