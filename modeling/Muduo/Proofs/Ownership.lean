/-
Whether a connection outlives the functors that do not own it.

`send` and `shutdown` bind `this`, so what keeps the connection until its functor has run is
somebody else.  As long as the connection is in `connections_`, and while it is on its way
out, a functor that owns it will still be queued behind everything that waits now; `Kept` says
so.  After that only user code keeps it: the functors are safe as long as the last pointer is
not dropped over one of them.
-/
import Muduo.Proofs.Wired
import Muduo.ServerTrace

namespace Muduo

namespace TcpServer

variable {s s' : TcpServer} {a : Action} {l : LoopId} {c d : ConnId} {t : Tid}

/-- User code holds a pointer to the connection. -/
def Held (s : TcpServer) (c : ConnId) : Prop := ∃ p ∈ s.held, p.2 = c

/-- What waits in the loop's queue will have an owner when it runs: the connection is in
`connections_`, or its close callback is about to be called, or its removal waits on the base
loop, or a functor in the same queue owns it. -/
def Kept (s : TcpServer) (l : LoopId) (c : ConnId) : Prop :=
  c ∈ s.connections ∨
    (∃ l' < s.size, (s.loops l').inside = c ∧ .closeCallback ∈ (s.loops l').frames) ∨
    .removeConnectionInLoop c ∈ s.todo 0 ∨
    ∃ f ∈ (s.loops l).queue, f.owns = true ∧ f.conn = c

/-- A functor that `doPendingFunctors` has swapped out owns the connection. -/
def Owned (s : TcpServer) (l : LoopId) (c : ConnId) : Prop :=
  ∃ f ∈ (s.loops l).funcs, f.owns = true ∧ f.conn = c

theorem Kept.mono (h : s.Kept l c) (hsize : s'.size = s.size)
    (hlisted : c ∈ s.connections → c ∈ s'.connections)
    (hclosing : ∀ l', (s.loops l').inside = c → .closeCallback ∈ (s.loops l').frames →
      (s'.loops l').inside = c ∧ .closeCallback ∈ (s'.loops l').frames)
    (hremoving : .removeConnectionInLoop c ∈ s.todo 0 → .removeConnectionInLoop c ∈ s'.todo 0)
    (hqueue : ∀ f ∈ (s.loops l).queue, f ∈ (s'.loops l).queue) : s'.Kept l c := by
  rcases h with h | ⟨l', hlt, hin, hmem⟩ | h | ⟨f, hf, howns, hconn⟩
  · exact .inl (hlisted h)
  · rw [← hsize] at hlt
    exact .inr (.inl ⟨l', hlt, hclosing l' hin hmem⟩)
  · exact .inr (.inr (.inl (hremoving h)))
  · exact .inr (.inr (.inr ⟨f, hqueue f hf, howns, hconn⟩))

/-- A functor that owns the connection keeps it from when it is queued. -/
theorem kept_push {f : Functor} {x : Accepted} (hhome : s.Homed l f.conn)
    (hc : s.conns f.conn = some x) (howns : f.owns = true) :
    (s'.push x.loop f).Kept l f.conn := by
  rw [hhome.loop hc]
  exact .inr (.inr (.inr ⟨f, by simp, howns, rfl⟩))

/-- A loop that has the close callback left to call is not one that is in no code. -/
theorem ne_of_idle {l' : LoopId} (hidle : (s.loops l).frames = [])
    (hmem : .closeCallback ∈ (s.loops l').frames) : l' ≠ l := by
  rintro rfl
  rw [hidle] at hmem
  simp at hmem

/-- Loops inside different connections are different. -/
theorem ne_of_inside {l' : LoopId} (hd : c ≠ d) (inside : (s.loops l).inside = d)
    (hin : (s.loops l').inside = c) : l' ≠ l := by
  rintro rfl
  exact hd (hin.symm.trans inside)

/-- Running a functor that is no removal leaves every removal where it is. -/
theorem removal_of_popped {f : Functor} {rest : List Functor} {x : Accepted} {y : Ctx}
    {fs : List Frame} (batch : (s.loops l).batch = f :: rest) (hf : f.isRemoval = false)
    (hr : .removeConnectionInLoop c ∈ s.todo 0) :
    .removeConnectionInLoop c ∈
      (((s.popped l rest).put f.conn x y).enter l f.conn fs).todo 0 := by
  have hne : .removeConnectionInLoop c ≠ f := by
    rintro rfl
    simp [Functor.isRemoval] at hf
  by_cases hl : l = 0
  · subst hl
    simp only [todo, batch, List.cons_append, List.mem_cons, hne, false_or] at hr
    simp only [todo, enter_loops, put_loops, popped_loops, if_true, ← List.append_assoc]
    exact List.mem_append_left _ hr
  · simp only [todo, enter_loops, put_loops, popped_loops, Ne.symm hl, if_false,
      ← List.append_assoc]
    exact List.mem_append_left _ hr

/-- What keeps a connection goes on keeping it, in the queue or in the batch. -/
theorem Kept.step (h : Wired s) (hhome : s.Homed l c) (hk : s.Kept l c) (hstep : Step s a s') :
    s'.Kept l c ∨ (a = .swap l ∧ s'.Owned l c) := by
  cases hstep with
  | poke | hold | drop | poll | batchEnd | destroy =>
      exact .inl (hk.mono rfl (by simp) (by simp +contextual) (by simp [todo]) (by simp))
  | @acceptHere sockfd en base =>
      refine .inl (hk.mono rfl (by simp +contextual) ?_ (by simp [todo]) (by simp))
      intro l' hin hmem
      simp [ne_of_idle en.1.2.2 hmem, hin, hmem]
  | accept en other =>
      refine .inl (hk.mono rfl (by simp +contextual) (by simp +contextual) ?_ ?_)
      · simp +contextual [todo]
      · simp +contextual
  | call own conn held hcalled view =>
      refine .inl (hk.mono rfl (by simp) (by simp +contextual) ?_ ?_)
      · simp +contextual [todo, or_imp]
      · simp +contextual
  | @handleEvent l₀ d x rest idle phase active alive conn =>
      refine .inl (hk.mono rfl (by simp) ?_ (by simp [todo]) (by simp))
      intro l' hin hmem
      simp [ne_of_idle idle.2.2 hmem, hin, hmem]
  | @frame l₀ io d f rest x y fs lt pc inside frames conn hf hrun =>
      refine .inl (hk.mono rfl (by simp) ?_ ?_ ?_)
      · intro l' hin hmem
        by_cases hl : l' = l₀
        · subst hl
          rw [frames] at hmem
          have hrest : .closeCallback ∈ rest := (List.mem_cons.mp hmem).resolve_left (Ne.symm hf)
          simp [hrest, ← hin, inside]
        · simp [hl, hin, hmem]
      · simp +contextual [todo, or_imp]
      · simp +contextual
  | @closeHere io d rest x lt pc inside frames conn =>
      by_cases hd : c = d
      · subst hd
        exact .inl (kept_push (f := .connectDestoryed c) hhome conn rfl)
      · refine .inl (hk.mono rfl ?_ ?_ ?_ ?_)
        · simp [hd]
        · intro l' hin hmem
          simp [ne_of_inside hd inside hin, hin, hmem]
        · simp +contextual [todo, or_imp]
        · simp +contextual
  | @close l₀ io d rest x other lt pc inside frames conn =>
      by_cases hd : c = d
      · subst hd
        refine .inl (.inr (.inr (.inl ?_)))
        simp [todo]
      · refine .inl (hk.mono rfl (by simp) ?_ ?_ ?_)
        · intro l' hin hmem
          simp [ne_of_inside hd inside hin, hin, hmem]
        · simp +contextual [todo, or_imp]
        · simp +contextual
  | @swap l₀ idle phase active =>
      have hremoving : .removeConnectionInLoop c ∈ s.todo 0 →
          .removeConnectionInLoop c ∈ (s.swapped l₀).todo 0 := by
        rw [h.todo_swapped phase]
        exact id
      by_cases hl : l = l₀
      · subst hl
        rcases hk with hk | hk | hk | ⟨f, hf, howns, hconn⟩
        · exact .inl (.inl hk)
        · exact .inl (.inr (.inl (by simpa using hk)))
        · exact .inl (.inr (.inr (.inl (hremoving hk))))
        · exact .inr ⟨rfl, f, by simpa using hf, howns, hconn⟩
      · exact .inl (hk.mono rfl (by simp) (by simp +contextual) hremoving (by simp [hl]))
  | @removal io d rest x idle phase batch alive conn =>
      by_cases hd : c = d
      · subst hd
        exact .inl (kept_push (f := .connectDestoryed c) hhome conn rfl)
      · refine .inl (hk.mono rfl ?_ (by simp +contextual) ?_ ?_)
        · simp [hd]
        · simp +contextual [todo, batch, hd]
        · simp +contextual
  | @functor l₀ io f rest x y fs idle phase batch hf alive conn hrun =>
      refine .inl (hk.mono rfl (by simp) ?_ (removal_of_popped batch hf) (by simp +contextual))
      intro l' hin hmem
      simp [ne_of_idle idle.2.2 hmem, hin, hmem]
  | @release d x destroyed listed conn =>
      by_cases hd : c = d
      · subst hd
        exact .inl (kept_push (f := .connectDestoryed c) hhome conn rfl)
      · refine .inl (hk.mono rfl ?_ (by simp +contextual) ?_ ?_)
        · simp [hd]
        · simp +contextual [todo]
        · simp +contextual

/-! ### Every functor that does not own its connection -/

/-- Every functor bound to `this` has somebody who keeps its connection. -/
structure Covered (s : TcpServer) : Prop where
  queue : ∀ l, ∀ f ∈ (s.loops l).queue, f.owns = false → s.Held f.conn ∨ s.Kept l f.conn
  batch : ∀ l, ∀ f ∈ (s.loops l).batch, f.owns = false →
    s.Held f.conn ∨ s.Kept l f.conn ∨ s.Owned l f.conn

/-- The last pointer that user code has to a connection is not dropped over a functor that
does not own it, unless the functor will have another owner. -/
def DropsCovered (s : TcpServer) : Action → Prop
  | .drop t c => (∃ p ∈ s.held.erase (t, c), p.2 = c) ∨ ∀ l < s.size,
      (∀ f ∈ (s.loops l).queue, f.owns = false → f.conn = c → s.Kept l c) ∧
      (∀ f ∈ (s.loops l).batch, f.owns = false → f.conn = c → s.Kept l c ∨ s.Owned l c)
  | _ => True

theorem queue_of_push {f g : Functor} {l' : LoopId} (hf : f ∈ ((s.push l' g).loops l).queue)
    (howns : f.owns = false) (hg : g.owns = true) : f ∈ (s.loops l).queue := by
  simp only [push_loops, List.mem_append] at hf
  refine hf.resolve_right ?_
  intro hmem
  split at hmem
  · rw [List.mem_singleton.mp hmem, hg] at howns
    simp at howns
  · simp at hmem

theorem queue_of_put {f : Functor} {x : Accepted} {y : Ctx} (hy : Ctx.Named (s.ctx x) y)
    (hf : f ∈ ((s.put c x y).loops l).queue) (howns : f.owns = false) :
    f ∈ (s.loops l).queue := by
  obtain ⟨q, hq, hall⟩ := hy.pending
  simp only [put_loops, List.mem_append] at hf
  refine hf.resolve_right ?_
  intro hmem
  split at hmem
  · obtain ⟨hkind, -⟩ := hall f (by simpa [hq, ctx] using hmem)
    cases f <;> simp [Functor.isUserCallback, Functor.owns] at hkind howns
  · simp at hmem

/-- A functor that does not own its connection is queued by somebody who holds it. -/
theorem Step.queued {f : Functor} (h : Wired s) (hstep : Step s a s')
    (hf : f ∈ (s'.loops l).queue) (howns : f.owns = false) :
    (f ∈ (s.loops l).queue ∧ a ≠ .swap l) ∨ s'.Held f.conn := by
  cases hstep with
  | poke | hold | drop | poll | handleEvent | batchEnd | destroy | acceptHere =>
      exact .inl ⟨by simpa using hf, by simp⟩
  | @call a c b x t y pc own conn held hcalled view =>
      obtain ⟨q, hq, hall⟩ := hcalled.pending
      by_cases hold : f ∈ (s.loops l).queue
      · refine .inl ⟨hold, ?_⟩
        rintro rfl
        simp [Action.own] at own
      · have hnew : f ∈ q := by
          have hmem : f ∈ if l = x.loop then y.pending else [] := by simpa [hold] using hf
          split at hmem
          · simpa [hq, ctx] using hmem
          · simp at hmem
        right
        obtain ⟨hconn, -⟩ := hall f hnew
        refine ⟨(t, c), held, ?_⟩
        rw [hconn]
        exact (h.id conn).symm
  | @swap l₀ idle phase active =>
      by_cases hl : l = l₀
      · simp [hl] at hf
      · exact .inl ⟨by simpa [hl] using hf, by simpa using Ne.symm hl⟩
  | accept en other | release destroyed listed conn =>
      refine .inl ⟨?_, by simp⟩
      simpa using queue_of_push hf howns rfl
  | closeHere lt pc inside frames conn | close other lt pc inside frames conn
  | removal idle phase batch alive conn =>
      refine .inl ⟨?_, by simp⟩
      have hpush := queue_of_push hf howns rfl
      simpa [ctx] using hpush
  | @frame l₀ io d g rest x y fs lt pc inside frames conn hg hrun =>
      refine .inl ⟨?_, by simp⟩
      have hput : f ∈ ((s.put d x y).loops l).queue := by simpa using hf
      exact queue_of_put (Ctx.runFrame_named hrun) hput howns
  | @functor l₀ io g rest x y fs idle phase batch hg alive conn hrun =>
      refine .inl ⟨?_, by simp⟩
      have hnamed := Ctx.runFunctor_named hrun
      rw [← ctx_popped (l := l₀)] at hnamed
      have hput : f ∈ (((s.popped l₀ rest).put g.conn x y).loops l).queue := by simpa using hf
      have hqueue := queue_of_put hnamed hput howns
      simpa using hqueue

/-- The batch is what the queue was, less what has run. -/
theorem Step.batched {f : Functor} (hstep : Step s a s') (hf : f ∈ (s'.loops l).batch) :
    (f ∈ (s.loops l).batch ∧ (s'.loops l).funcs = (s.loops l).funcs) ∨
      (a = .swap l ∧ f ∈ (s.loops l).queue) := by
  cases hstep with
  | poke | hold | drop | poll | handleEvent | destroy | acceptHere | accept | call | frame
  | closeHere | close | release => exact .inl ⟨by simpa using hf, by simp⟩
  | @swap l₀ idle phase active =>
      by_cases hl : l = l₀
      · subst hl
        exact .inr ⟨rfl, by simpa using hf⟩
      · exact .inl ⟨by simpa [hl] using hf, by simp [hl]⟩
  | @removal io d rest x idle phase batch alive conn =>
      refine .inl ⟨?_, by simp⟩
      by_cases hl : l = 0
      · subst hl
        simp only [push_loops, erased_loops, popped_loops, if_true] at hf
        rw [batch]
        exact List.mem_cons_of_mem _ hf
      · simpa [hl] using hf
  | @functor l₀ io g rest x y fs idle phase batch hg alive conn hrun =>
      refine .inl ⟨?_, by simp⟩
      by_cases hl : l = l₀
      · subst hl
        simp only [enter_loops, put_loops, popped_loops, if_true] at hf
        rw [batch]
        exact List.mem_cons_of_mem _ hf
      · simpa [hl] using hf
  | @batchEnd l₀ idle phase batch =>
      by_cases hl : l = l₀
      · subst hl
        simp [batch] at hf
      · exact .inl ⟨by simpa using hf, by simp [hl]⟩

/-- Such a functor is of a connection of the loop it waits on. -/
theorem Wired.homed (h : Wired s) {f : Functor}
    (hf : f ∈ (s.loops l).queue ++ (s.loops l).funcs) (howns : f.owns = false) :
    s.Homed l f.conn ∧ l < s.size := by
  have hr : f.isRemoval = false := by
    cases f with
    | removeConnectionInLoop e => simp [Functor.owns] at howns
    | _ => rfl
  have hhome := ((h.loops l).functors f hf).home hr
  refine ⟨hhome, ?_⟩
  obtain ⟨x, hx, hloop⟩ := hhome
  rw [← hloop]
  exact (h.known _ x hx).2.2

theorem Wired.homed_batch (h : Wired s) {f : Functor} (hf : f ∈ (s.loops l).batch)
    (howns : f.owns = false) : s.Homed l f.conn ∧ l < s.size :=
  h.homed (List.mem_append_right _ ((h.loops l).batch f hf)) howns

theorem Covered.drop (h : Wired s) (hcov : Covered s) (hdrop : s.DropsCovered (.drop t c)) :
    Covered { s with held := s.held.erase (t, c) } := by
  have hheld : ∀ d, d ≠ c → s.Held d → ∃ p ∈ s.held.erase (t, c), p.2 = d := by
    rintro d hd ⟨p, hp, hpd⟩
    refine ⟨p, (List.mem_erase_of_ne ?_).mpr hp, hpd⟩
    rintro rfl
    exact hd hpd.symm
  refine ⟨?_, ?_⟩
  · intro l f hf howns
    by_cases hd : f.conn = c
    · rw [hd]
      rcases hdrop with hstill | hkept
      · exact .inl hstill
      · obtain ⟨-, hlt⟩ := h.homed (List.mem_append_left _ hf) howns
        exact .inr ((hkept l hlt).1 f hf howns hd)
    · rcases hcov.queue l f hf howns with hh | hk
      · exact .inl (hheld _ hd hh)
      · exact .inr hk
  · intro l f hf howns
    by_cases hd : f.conn = c
    · rw [hd]
      rcases hdrop with hstill | hkept
      · exact .inl hstill
      · obtain ⟨-, hlt⟩ := h.homed_batch hf howns
        exact .inr ((hkept l hlt).2 f hf howns hd)
    · rcases hcov.batch l f hf howns with hh | hk
      · exact .inl (hheld _ hd hh)
      · exact .inr hk

/-- Only `drop` takes a pointer away. -/
theorem Held.step (hh : s.Held c) (hstep : Step s a s') :
    s'.Held c ∨ ∃ t d, a = .drop t d ∧ s' = { s with held := s.held.erase (t, d) } := by
  obtain ⟨p, hp, hpc⟩ := hh
  cases hstep with
  | @drop t d idle held => exact .inr ⟨t, d, rfl, rfl⟩
  | hold conn alive => exact .inl ⟨p, List.mem_cons_of_mem _ hp, hpc⟩
  | _ => exact .inl ⟨p, hp, hpc⟩

theorem Covered.step (h : Wired s) (hcov : Covered s) (hdrop : s.DropsCovered a)
    (hstep : Step s a s') : Covered s' := by
  by_cases hnot : ∃ t d, a = .drop t d ∧ s' = { s with held := s.held.erase (t, d) }
  · obtain ⟨t, d, rfl, rfl⟩ := hnot
    exact hcov.drop h hdrop
  · have hheld : ∀ {d}, s.Held d → s'.Held d := fun hh => (hh.step hstep).resolve_right hnot
    refine ⟨?_, ?_⟩
    · intro l f hf howns
      rcases hstep.queued h hf howns with ⟨hold, hswap⟩ | hh
      · rcases hcov.queue l f hold howns with hh | hk
        · exact .inl (hheld hh)
        · obtain ⟨hhome, -⟩ := h.homed (List.mem_append_left _ hold) howns
          rcases hk.step h hhome hstep with hk | ⟨heq, -⟩
          · exact .inr hk
          · exact absurd heq hswap
      · exact .inl hh
    · intro l f hf howns
      have hkeep : s.Homed l f.conn → s.Kept l f.conn →
          s'.Kept l f.conn ∨ s'.Owned l f.conn := by
        intro hhome hk
        rcases hk.step h hhome hstep with hk | ⟨-, ho⟩
        · exact .inl hk
        · exact .inr ho
      rcases hstep.batched hf with ⟨hold, hfuncs⟩ | ⟨-, hold⟩
      · rcases hcov.batch l f hold howns with hh | hk | ho
        · exact .inl (hheld hh)
        · exact .inr (hkeep (h.homed_batch hold howns).1 hk)
        · refine .inr (.inr ?_)
          unfold Owned at *
          rw [hfuncs]
          exact ho
      · rcases hcov.queue l f hold howns with hh | hk
        · exact .inl (hheld hh)
        · exact .inr (hkeep (h.homed (List.mem_append_left _ hold) howns).1 hk)

theorem covered_of_reachable (h : (lts.restrict DropsCovered).Reachable s) : Covered s := by
  refine h.induct ?_ ?_
  · intro m hm
    refine ⟨fun l f hf => ?_, fun l f hf => ?_⟩
    · rw [hm.loops l] at hf
      simp [LoopState.start] at hf
    · rw [hm.loops l] at hf
      simp [LoopState.start] at hf
  · intro m a m' hr hcov hstep
    have hwired := wired_of_reachable hr.of_restrict
    exact hcov.step hwired hstep.1 (step_cases hwired hstep.2)

/-! ### Alive or not -/

theorem Kept.alive (h : Wired s) (hlt : l < s.size) (hk : s.Kept l c) : s.Alive c := by
  rcases hk with hk | ⟨l', hlt', hin, hmem⟩ | hk | ⟨f, hf, howns, hconn⟩
  · exact .inl hk
  · exact .inr (.inr ⟨l', hlt', .inr ⟨List.ne_nil_of_mem hmem, hin⟩⟩)
  · refine .inr (.inr ⟨0, h.size, .inl ⟨.removeConnectionInLoop c, ?_, rfl, rfl⟩⟩)
    rcases List.mem_append.mp hk with hk | hk
    · exact List.mem_append_right _ ((h.loops 0).batch _ hk)
    · exact List.mem_append_left _ hk
  · exact .inr (.inr ⟨l, hlt, .inl ⟨f, List.mem_append_left _ hf, howns, hconn⟩⟩)

/-- As long as the last pointer to a connection is not dropped over a functor that nobody else
will own it for, no functor outlives its connection. -/
theorem functors_outlived (h : (lts.restrict DropsCovered).Reachable s) {f : Functor}
    (hf : f ∈ s.todo l) (howns : f.owns = false) : s.Alive f.conn := by
  have hwired := wired_of_reachable h.of_restrict
  have hcov := covered_of_reachable h
  rcases List.mem_append.mp hf with hf | hf
  · obtain ⟨-, hlt⟩ := hwired.homed_batch hf howns
    rcases hcov.batch l f hf howns with hh | hk | ⟨g, hg, hgowns, hconn⟩
    · exact .inr (.inl hh)
    · exact hk.alive hwired hlt
    · exact .inr (.inr ⟨l, hlt, .inl ⟨g, List.mem_append_right _ hg, hgowns, hconn⟩⟩)
  · obtain ⟨-, hlt⟩ := hwired.homed (List.mem_append_left _ hf) howns
    rcases hcov.queue l f hf howns with hh | hk
    · exact .inr (.inl hh)
    · exact hk.alive hwired hlt

instance (s : TcpServer) (l : LoopId) (c : ConnId) : Decidable (s.Kept l c) :=
  inferInstanceAs (Decidable (_ ∨ _ ∨ _ ∨ _))

instance (s : TcpServer) (l : LoopId) (c : ConnId) : Decidable (s.Owned l c) :=
  inferInstanceAs (Decidable (∃ f ∈ (s.loops l).funcs, f.owns = true ∧ f.conn = c))

instance (s : TcpServer) (a : Action) : Decidable (s.DropsCovered a) :=
  match a with
  | .drop t c => inferInstanceAs (Decidable ((∃ p ∈ s.held.erase (t, c), p.2 = c) ∨
      ∀ l < s.size, (∀ f ∈ (s.loops l).queue, f.owns = false → f.conn = c → s.Kept l c) ∧
        (∀ f ∈ (s.loops l).batch, f.owns = false → f.conn = c → s.Kept l c ∨ s.Owned l c)))
  | .accept _ | .send _ _ _ _ | .sendRun _ _ _ | .shutdown _ _ | .shutdownStore _ _
  | .shutdownRun _ _ | .setWriteCompleteCallback _ _ | .setHighWaterMarkCallback _ _ _
  | .poke _ _ | .hold _ _ | .poll _ _ _ | .handleEvent _ _ | .frame _ _ | .swap _
  | .functor _ _ | .batchEnd _ | .destroy | .release _ => .isTrue trivial

/-- Thread 5 shuts connection 1 down and lets go of it while the functor waits; the server
still has it. -/
theorem functors_outlived_dropped : ∃ s : TcpServer,
    s.todo 1 = [.shutdownInLoop 1] ∧ s.held = [] ∧ s.Alive 1 := by
  obtain ⟨s, hr, htodo, hheld⟩ := exists_of_run DropsCovered
    (connecting ++ [Action.hold 5 1, .shutdown 5 1, .shutdownStore 5 1, .shutdownRun 5 1, .drop 5 1,
      .poll 1 [] false, .swap 1])
    (fun s => s.todo 1 = [Functor.shutdownInLoop 1] ∧ s.held = []) (by decide +kernel)
  have halive := functors_outlived (f := .shutdownInLoop 1) hr (by rw [htodo]; simp) rfl
  exact ⟨s, htodo, hheld, halive⟩

/-- Thread 5 is in `shutdown` while the peer's close takes connection 1 down to the end of
`connectDestoryed`.  Its functor is queued then, the batch ends, and thread 5 lets go. -/
theorem functor_outlives : ∃ s : TcpServer, lts.Reachable s ∧ s.LoopIdle 1 ∧
    (s.loops 1).phase = .functors ∧ (s.loops 1).batch = [.shutdownInLoop 1] ∧ ¬ s.Alive 1 := by
  obtain ⟨s, hr, hidle, hphase, hbatch, hdead⟩ := exists_of_run (fun _ _ => True)
    (connecting ++ [Action.hold 5 1, .shutdown 5 1] ++ closing ++ turn 0 1 ++ destroying ++
      [Action.shutdownStore 5 1, .shutdownRun 5 1, .batchEnd 1, .drop 5 1, .poll 1 [] false,
        .swap 1])
    (fun s => s.LoopIdle 1 ∧ (s.loops 1).phase = .functors ∧
      (s.loops 1).batch = [Functor.shutdownInLoop 1] ∧ ¬ s.Alive 1) (by decide +kernel)
  exact ⟨s, hr.of_restrict, hidle, hphase, hbatch, hdead⟩

end TcpServer

end Muduo
