/-
What a step of the server makes of what it knows.

No step brings a connection back to life, none changes a connection that is gone, and only
the code of a connection changes what a poller knows at its descriptor.
-/
import Muduo.Proofs.Tally

namespace Muduo

namespace TcpServer

variable {s s' : TcpServer} {a : Action} {l : LoopId} {c d : ConnId} {x x' z : Accepted}
  {y : Ctx} {t : Tid} {pc : CallPc} {f : Functor} {fs : List Frame} {e : ServerEntry} {fd : Fd}
  {rest : List Functor}

/-! ### Who is alive -/

theorem Alive.of_functor (hlt : l < s.size) (hf : f ∈ (s.loops l).queue ++ (s.loops l).funcs)
    (howns : f.owns = true) : s.Alive f.conn :=
  .inr (.inr ⟨l, hlt, .inl ⟨f, hf, howns, rfl⟩⟩)

theorem Alive.of_todo (h : Wired s) (hlt : l < s.size) (hf : f ∈ s.todo l)
    (howns : f.owns = true) : s.Alive f.conn := by
  refine .of_functor hlt ?_ howns
  rcases List.mem_append.mp hf with hf | hf
  · exact List.mem_append_right _ ((h.loops l).batch f hf)
  · exact List.mem_append_left _ hf

theorem Alive.of_frames (hlt : l < s.size) (hframes : s.framesOf l c ≠ []) : s.Alive c := by
  unfold framesOf at hframes
  by_cases hin : (s.loops l).inside = c
  · rw [if_pos hin] at hframes
    exact .inr (.inr ⟨l, hlt, .inr ⟨hframes, hin⟩⟩)
  · rw [if_neg hin] at hframes
    exact absurd rfl hframes

/-- Who is alive is a matter of the map, the pointers that are held, and the functors and frames
of the loops; this is about an update of the last two. -/
theorem Alive.loops {p : Prop} (h : s'.Alive c) (hsize : s'.size = s.size)
    (hconnections : s'.connections = s.connections) (hheld : s'.held = s.held)
    (hfunctors : ∀ l, ∀ f ∈ (s'.loops l).queue ++ (s'.loops l).funcs, f.conn = c →
      f ∈ (s.loops l).queue ++ (s.loops l).funcs ∨ p)
    (hframes : ∀ l, (s'.loops l).frames ≠ [] → (s'.loops l).inside = c →
      ((s.loops l).frames ≠ [] ∧ (s.loops l).inside = c) ∨ p) : s.Alive c ∨ p := by
  rcases h with hmem | ⟨q, hq, hqc⟩ | ⟨l, hlt, ⟨f, hf, howns, hconn⟩ | ⟨hne, hin⟩⟩
  · rw [hconnections] at hmem
    exact .inl (.inl hmem)
  · rw [hheld] at hq
    exact .inl (.inr (.inl ⟨q, hq, hqc⟩))
  · rw [hsize] at hlt
    rcases hfunctors l f hf hconn with hold | hp
    · refine .inl ?_
      rw [← hconn]
      exact .of_functor hlt hold howns
    · exact .inr hp
  · rw [hsize] at hlt
    rcases hframes l hne hin with hold | hp
    · exact .inl (.inr (.inr ⟨l, hlt, .inr hold⟩))
    · exact .inr hp

theorem alive_push (h : (s.push l f).Alive c) : s.Alive c ∨ f.conn = c := by
  refine h.loops rfl rfl rfl ?_ ?_
  · intro l' g hg hconn
    rw [push_loops] at hg
    simp only [List.mem_append] at hg ⊢
    rcases hg with (hg | hg) | hg
    · exact .inl (.inl hg)
    · by_cases hl : l' = l
      · rw [if_pos hl, List.mem_singleton] at hg
        rw [← hg]
        exact .inr hconn
      · rw [if_neg hl] at hg
        simp at hg
    · exact .inl (.inr hg)
  · intro l' hne hin
    rw [push_loops] at hne hin
    exact .inl ⟨hne, hin⟩

theorem alive_put (h : (s.put d z y).Alive c) : s.Alive c ∨ ∃ f ∈ y.pending, f.conn = c := by
  refine h.loops rfl rfl rfl ?_ ?_
  · intro l g hg hconn
    rw [put_loops] at hg
    simp only [List.mem_append] at hg ⊢
    rcases hg with (hg | hg) | hg
    · exact .inl (.inl hg)
    · by_cases hl : l = z.loop
      · rw [if_pos hl] at hg
        exact .inr ⟨g, hg, hconn⟩
      · rw [if_neg hl] at hg
        simp at hg
    · exact .inl (.inr hg)
  · intro l hne hin
    rw [put_loops] at hne hin
    exact .inl ⟨hne, hin⟩

theorem alive_enter (h : (s.enter l d fs).Alive c) : s.Alive c ∨ d = c := by
  refine h.loops rfl rfl rfl ?_ ?_
  · intro l' g hg _
    rw [enter_loops] at hg
    exact .inl hg
  · intro l' hne hin
    rw [enter_loops] at hne hin
    by_cases hl : l' = l
    · exact .inr (by simpa [hl] using hin)
    · exact .inl ⟨by simpa [hl] using hne, by simpa [hl] using hin⟩

/-- What an update that only moves functors or channels leaves alive was alive. -/
theorem Alive.same (h : s'.Alive c) (hsize : s'.size = s.size)
    (hconnections : s'.connections = s.connections) (hheld : s'.held = s.held)
    (hfunctors : ∀ l, ∀ f ∈ (s'.loops l).queue ++ (s'.loops l).funcs,
      f ∈ (s.loops l).queue ++ (s.loops l).funcs)
    (hframes : ∀ l, (s'.loops l).frames = (s.loops l).frames)
    (hinside : ∀ l, (s'.loops l).inside = (s.loops l).inside) : s.Alive c := by
  have hor : s.Alive c ∨ False := by
    refine h.loops hsize hconnections hheld (fun l f hf _ => .inl (hfunctors l f hf)) ?_
    intro l hne hin
    rw [hframes] at hne
    rw [hinside] at hin
    exact .inl ⟨hne, hin⟩
  exact hor.resolve_right id

theorem alive_popped (h : (s.popped l rest).Alive c) : s.Alive c :=
  h.same rfl rfl rfl (by simp) (by simp) (by simp)

theorem alive_swapped (h : (s.swapped l).Alive c) : s.Alive c := by
  refine h.same rfl rfl rfl ?_ (by simp) (by simp)
  intro l' f hf
  rw [swapped_loops] at hf
  by_cases hl : l' = l
  · rw [hl]
    exact List.mem_append_left _ (by simpa [hl] using hf)
  · simpa [hl] using hf

theorem alive_batchEnded (h : (s.batchEnded l).Alive c) : s.Alive c := by
  refine h.same rfl rfl rfl ?_ (by simp) (by simp)
  intro l' f hf
  rw [batchEnded_loops] at hf
  by_cases hl : l' = l
  · rw [hl]
    exact List.mem_append_left _ (by simpa [hl] using hf)
  · simpa [hl] using hf

theorem alive_erased (h : (s.erased d e).Alive c) : s.Alive c := by
  rcases h with hmem | hold
  · exact .inl (Finset.mem_of_mem_erase hmem)
  · exact .inr hold

theorem alive_record (h : (s.record e).Alive c) : s.Alive c := h

theorem alive_enlist (h : (s.enlist fd).Alive c) : s.Alive c ∨ c = s.nextConnId := by
  rcases h with hmem | hold
  · rcases Finset.mem_insert.mp hmem with heq | hmem
    · exact .inr heq
    · exact .inl (.inl hmem)
  · exact .inl (.inr hold)

theorem alive_accepted (h : s.accepted.Alive c) : s.Alive c :=
  h.same rfl rfl rfl (by simp) (by simp) (by simp)

theorem alive_taken {cs : List ConnId} (h : (s.taken l cs).Alive c) : s.Alive c :=
  h.same rfl rfl rfl (by simp) (by simp) (by simp)

theorem alive_poll {reports : List (Fd × Events)} {accepting : Bool}
    (h : (s.poll l reports accepting).Alive c) : s.Alive c :=
  h.same rfl rfl rfl (by simp) (by simp) (by simp)

/-- No step brings a connection back. -/
theorem Step.alive (h : Wired s) (hstep : Step s a s') (hc : s.conns c = some x)
    (halive : s'.Alive c) : s.Alive c := by
  have hpending : ∀ {d} {q : List Functor}, s.Alive d →
      (∀ f ∈ q, f.conn = d ∧ f.isRemoval = false) → (∃ f ∈ q, f.conn = c) → s.Alive c := by
    rintro d q hd hq ⟨f, hf, hconn⟩
    rw [← hconn, (hq f hf).1]
    exact hd
  cases hstep with
  | poke | destroy => exact halive
  | @hold t d z conn alive =>
      rcases halive with hmem | ⟨q, hq, hqc⟩ | hold
      · exact .inl hmem
      · rcases List.mem_cons.mp hq with rfl | hq
        · rw [← hqc]
          exact alive
        · exact .inr (.inl ⟨q, hq, hqc⟩)
      · exact .inr (.inr hold)
  | drop idle held =>
      rcases halive with hmem | ⟨q, hq, hqc⟩ | hold
      · exact .inl hmem
      · exact .inr (.inl ⟨q, List.mem_of_mem_erase hq, hqc⟩)
      · exact .inr (.inr hold)
  | acceptHere en base =>
      have hne := h.ne_new hc
      have henlist := (alive_enter halive).resolve_right (Ne.symm hne)
      exact alive_accepted ((alive_enlist henlist).resolve_right hne)
  | accept en other =>
      have hne := h.ne_new hc
      have henlist := (alive_push halive).resolve_right (Ne.symm hne)
      exact alive_accepted ((alive_enlist henlist).resolve_right hne)
  | @call a d b z t y pc own conn held hcalled view =>
      have hput : (s.put d z y).Alive c := halive
      rcases alive_put hput with hold | hnew
      · exact hold
      · exact hpending (.inr (.inl ⟨(t, d), held, rfl⟩)) (h.called_own conn hcalled) hnew
  | poll en => exact alive_poll halive
  | @handleEvent l d z rest idle phase active alive conn =>
      rcases alive_enter halive with hold | rfl
      · have htaken : (s.taken l rest).Alive c := hold
        exact alive_taken htaken
      · exact alive
  | @frame l io d f rest z y fs lt pc inside frames conn hf hrun =>
      have hd := alive_of_frames lt inside frames
      rcases alive_enter halive with hold | rfl
      · rcases alive_put hold with hold | hnew
        · exact hold
        · exact hpending hd (h.named_own conn (Ctx.runFrame_named hrun)) hnew
      · exact hd
  | @closeHere io d rest z lt pc inside frames conn hrun =>
      have hd := alive_of_frames lt inside frames
      rcases alive_push halive with hold | rfl
      · have henter := alive_record (alive_erased hold)
        rcases alive_enter henter with hold | rfl
        · exact (alive_put hold).resolve_right (by simp [ctx])
        · exact hd
      · exact hd
  | @close l io d rest z other lt pc inside frames conn hrun =>
      have hd := alive_of_frames lt inside frames
      rcases alive_push halive with hold | rfl
      · rcases alive_enter (alive_record hold) with hold | rfl
        · exact (alive_put hold).resolve_right (by simp [ctx])
        · exact hd
      · exact hd
  | swap idle phase active => exact alive_swapped halive
  | removal idle phase batch alive conn =>
      rcases alive_push halive with hold | rfl
      · exact alive_popped (alive_erased hold)
      · exact alive
  | @functor l io f rest z y fs idle phase batch hf alive conn hrun =>
      rcases alive_enter halive with hold | rfl
      · rcases alive_put hold with hold | hnew
        · exact alive_popped hold
        · exact hpending alive (h.named_own conn (Ctx.runFunctor_named hrun)) hnew
      · exact alive
  | batchEnd idle phase batch => exact alive_batchEnded halive
  | @release d z destroyed listed conn =>
      rcases alive_push halive with hold | rfl
      · exact alive_erased hold
      · exact .inl listed

/-! ### What stays of a connection -/

/-- A connection keeps its descriptor, and once it is gone it does nothing more. -/
theorem Step.kept (h : Wired s) (hstep : Step s a s') (hc : s.conns c = some x)
    (hc' : s'.conns c = some x') :
    x'.conn.channel.fd = x.conn.channel.fd ∧ (¬ s.Alive c → x'.log = x.log) := by
  have hsame : x' = x → x'.conn.channel.fd = x.conn.channel.fd ∧
      (¬ s.Alive c → x'.log = x.log) := by
    rintro rfl
    exact ⟨rfl, fun _ => rfl⟩
  cases hstep with
  | poke | hold | drop | swap | batchEnd | destroy | release | removal =>
      exact hsame (Option.some.inj (hc'.symm.trans hc))
  | acceptHere | accept =>
      have hne := h.ne_new hc
      refine hsame (Option.some.inj (Eq.trans ?_ hc))
      rw [← hc']
      simp [hne]
  | poll en =>
      rw [poll_conns, hc, Option.map_some, Option.some.injEq] at hc'
      rw [← hc']
      exact ⟨reported_fd, fun _ => reported_log⟩
  | @call a d b z t y pc own conn held hcalled view =>
      by_cases hd : c = d
      · subst hd
        obtain rfl : x = z := by simpa [hc] using conn
        have heq : { x with conn := y.conn, log := y.log, pcs := Function.update x.pcs t pc } =
            x' := by simpa using hc'
        rw [← heq]
        exact ⟨hcalled.fd, fun hdead => absurd (.inr (.inl ⟨(t, c), held, rfl⟩)) hdead⟩
      · exact hsame (by simpa [hd, hc] using hc'.symm)
  | @handleEvent l d z rest idle phase active alive conn =>
      by_cases hd : c = d
      · subst hd
        obtain rfl : x = z := by simpa [hc] using conn
        have heq : { x with log := x.log ++ [.handleEvent x.conn.channel.revents] } = x' := by
          simpa using hc'
        rw [← heq]
        exact ⟨rfl, fun hdead => absurd alive hdead⟩
      · exact hsame (by simpa [hd, hc] using hc'.symm)
  | @frame l io d f rest z y fs lt pc inside frames conn hf hrun =>
      by_cases hd : c = d
      · subst hd
        obtain rfl : x = z := by simpa [hc] using conn
        have heq : { x with conn := y.conn, log := y.log } = x' := by simpa using hc'
        rw [← heq]
        exact ⟨(Ctx.runFrame_local hrun).fd,
          fun hdead => absurd (alive_of_frames lt inside frames) hdead⟩
      · exact hsame (by simpa [hd, hc] using hc'.symm)
  | @closeHere io d rest z lt pc inside frames conn hrun =>
      by_cases hd : c = d
      · subst hd
        obtain rfl : x = z := by simpa [hc] using conn
        have heq : { x with log := x.log ++ [.closeCallback] } = x' := by simpa [ctx] using hc'
        rw [← heq]
        exact ⟨rfl, fun hdead => absurd (alive_of_frames lt inside frames) hdead⟩
      · exact hsame (by simpa [hd, hc] using hc'.symm)
  | @close l io d rest z other lt pc inside frames conn hrun =>
      by_cases hd : c = d
      · subst hd
        obtain rfl : x = z := by simpa [hc] using conn
        have heq : { x with log := x.log ++ [.closeCallback] } = x' := by simpa [ctx] using hc'
        rw [← heq]
        exact ⟨rfl, fun hdead => absurd (alive_of_frames lt inside frames) hdead⟩
      · exact hsame (by simpa [hd, hc] using hc'.symm)
  | @functor l io f rest z y fs idle phase batch hf alive conn hrun =>
      by_cases hd : c = f.conn
      · subst hd
        obtain rfl : x = z := by simpa [hc] using conn
        have heq : { x with conn := y.conn, log := y.log } = x' := by simpa using hc'
        rw [← heq]
        exact ⟨(Ctx.runFunctor_local hrun).fd, fun hdead => absurd alive hdead⟩
      · exact hsame (by simpa [hd, hc] using hc'.symm)

/-! ### What the loops know -/

/-- The poller of the loop knows at the descriptor what it knew. -/
def PollerKept (s s' : TcpServer) (l : LoopId) (fd : Fd) : Prop :=
  (s'.loops l).poller.channels fd = (s.loops l).poller.channels fd ∧
    (s'.loops l).poller.interest fd = (s.loops l).poller.interest fd

theorem pollerKept_put (hels : Ctx.Elsewhere (s.ctx z) y) :
    PollerKept s (s.put d z y) l fd ∨ (z.loop = l ∧ z.conn.channel.fd = fd) := by
  unfold PollerKept
  rw [put_loops]
  by_cases hl : l = z.loop
  · by_cases hfd : fd = z.conn.channel.fd
    · exact .inr ⟨hl.symm, hfd.symm⟩
    · have hkept := hels fd hfd
      simp only [if_pos hl]
      rw [hl]
      exact .inl hkept
  · simp only [if_neg hl]
    exact .inl ⟨trivial, trivial⟩

theorem poller_put_record {e : Entry} :
    ((s.put d z ((s.ctx z).record e)).loops l).poller = (s.loops l).poller := by
  rw [put_loops]
  by_cases hl : l = z.loop
  · rw [if_pos hl, hl]
    rfl
  · rw [if_neg hl]

/-- Only a connection's own code changes what its poller knows at its descriptor. -/
theorem Step.poller (hstep : Step s a s') : PollerKept s s' l fd ∨
    ∃ d z, s.conns d = some z ∧ z.loop = l ∧ z.conn.channel.fd = fd ∧ s.Alive d := by
  cases hstep with
  | @call a d b z t y pc own conn held hcalled view =>
      rcases pollerKept_put (d := d) hcalled.elsewhere with hkept | ⟨hl, hfd⟩
      · exact .inl hkept
      · exact .inr ⟨d, z, conn, hl, hfd, .inr (.inl ⟨(t, d), held, rfl⟩)⟩
  | @frame l₀ io d f rest z y fs lt pc inside frames conn hf hrun =>
      rcases pollerKept_put (d := d) (Ctx.runFrame_local hrun).elsewhere with hkept | ⟨hl, hfd⟩
      · refine .inl ?_
        unfold PollerKept at *
        rw [enter_loops]
        exact hkept
      · exact .inr ⟨d, z, conn, hl, hfd, alive_of_frames lt inside frames⟩
  | @functor l₀ io f rest z y fs idle phase batch hf alive conn hrun =>
      have hels : Ctx.Elsewhere ((s.popped l₀ rest).ctx z) y := by
        rw [ctx_popped]
        exact (Ctx.runFunctor_local hrun).elsewhere
      rcases pollerKept_put (d := f.conn) hels with hkept | ⟨hl, hfd⟩
      · refine .inl ?_
        unfold PollerKept at *
        rw [enter_loops]
        rw [popped_loops] at hkept
        exact hkept
      · exact .inr ⟨f.conn, z, conn, hl, hfd, alive⟩
  | closeHere | close =>
      refine .inl ?_
      unfold PollerKept
      simp only [push_loops, erased_loops, record_loops, enter_loops, poller_put_record, and_self]
  | _ => exact .inl (by simp [PollerKept])

/-- A channel waits to be handled because it did, or because `epoll_wait` has reported it. -/
theorem Step.active (hstep : Step s a s') : (s'.loops l).active.Sublist (s.loops l).active ∨
    ∃ reports accepting, s.Enabled (.poll l reports accepting) ∧
      (s'.loops l).active = reports.filterMap fun r => s.pointee l r.1 := by
  cases hstep with
  | @poll l₀ reports accepting en =>
      by_cases hl : l = l₀
      · subst hl
        exact .inr ⟨reports, accepting, en, by simp⟩
      · exact .inl (by simp [hl])
  | @handleEvent l₀ d z rest idle phase active alive conn =>
      by_cases hl : l = l₀
      · subst hl
        refine .inl ?_
        rw [active]
        simp
      · exact .inl (by simp [hl])
  | _ => exact .inl (by simp)

end TcpServer

end Muduo
