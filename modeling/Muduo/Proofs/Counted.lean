/-
The books of a server balance.

A connection of the state after a step was there before it, and the step is a move of its
tally, or it has just been accepted and its tally is new.  So what holds of a new tally and
is kept by every move holds of every connection in every reachable state.
-/
import Muduo.Proofs.Tally

namespace Muduo

namespace TcpServer

variable {s s' : TcpServer} {a : Action} {l : LoopId} {c d : ConnId} {x x' z : Accepted}
  {f : Functor} {fd : Fd}

/-! ### What the server logs -/

/-- What a step adds to the log of the server.  A removal or its announcement has been on its
way. -/
theorem Step.records (h : Wired s) (hstep : Step s a s') : ∃ es, s'.log = s.log ++ es ∧
    (es = [] ∨ (es = [.destroy] ∧ a = .destroy) ∨
      ∃ d z, s.conns d = some z ∧
        ((es = [.released d] ∧ .destroy ∈ s.log) ∨
          ((0 < (s.tally d z).closing ∨ 0 < (s.tally d z).leaving) ∧
            ∀ e ∈ es, e = .removeConnection d ∨ e = .removeConnectionInLoop d))) := by
  cases hstep with
  | destroy hnot => exact ⟨[.destroy], rfl, .inr (.inl ⟨rfl, rfl⟩)⟩
  | @release d z destroyed listed conn =>
      exact ⟨[.released d], rfl, .inr (.inr ⟨d, z, conn, .inl ⟨rfl, destroyed⟩⟩)⟩
  | @removal io d rest z idle phase batch alive conn =>
      refine ⟨[.removeConnectionInLoop d], rfl, .inr (.inr ⟨d, z, conn, .inr ⟨.inr ?_, ?_⟩⟩)⟩
      · show 0 < (s.todo 0).count _
        rw [count_popped_self batch]
        exact Nat.succ_pos _
      · simp
  | @closeHere io d rest z lt pc inside frames conn =>
      have h0 := h.inside_loop inside frames conn
      rw [← h0] at inside frames
      refine ⟨[.removeConnection d, .removeConnectionInLoop d], ?_,
        .inr (.inr ⟨d, z, conn, .inr ⟨.inl ?_, ?_⟩⟩)⟩
      · simp
      · rw [closing_eq inside frames]
        exact Nat.succ_pos _
      · simp
  | @close l io d rest z other lt pc inside frames conn =>
      obtain rfl := h.inside_loop inside frames conn
      refine ⟨[.removeConnection d], ?_, .inr (.inr ⟨d, z, conn, .inr ⟨.inl ?_, ?_⟩⟩)⟩
      · simp
      · rw [closing_eq inside frames]
        exact Nat.succ_pos _
      · simp
  | _ => exact ⟨[], by simp, .inl rfl⟩

/-! ### Where a connection comes from -/

theorem Step.unknown (hstep : Step s a s') (hc : s.conns c = none) :
    s'.conns c = none ∨ (c = s.nextConnId ∧ ∃ fd, a = .accept fd) := by
  have hne : ∀ {d z}, s.conns d = some z → c ≠ d := by
    rintro d z hd rfl
    rw [hc] at hd
    simp at hd
  cases hstep with
  | @acceptHere sockfd en base =>
      by_cases heq : c = s.nextConnId
      · exact .inr ⟨heq, sockfd, rfl⟩
      · exact .inl (by simpa [heq] using hc)
  | @accept sockfd en other =>
      by_cases heq : c = s.nextConnId
      · exact .inr ⟨heq, sockfd, rfl⟩
      · exact .inl (by simpa [heq] using hc)
  | poke | hold | drop | batchEnd | destroy | swap => exact .inl hc
  | call own conn held hcalled view => exact .inl (by simpa [hne conn] using hc)
  | poll en => exact .inl (by simp [hc])
  | handleEvent idle phase active alive conn => exact .inl (by simpa [hne conn] using hc)
  | frame lt pc inside frames conn hf hrun => exact .inl (by simpa [hne conn] using hc)
  | closeHere lt pc inside frames conn => exact .inl (by simpa [hne conn] using hc)
  | close other lt pc inside frames conn => exact .inl (by simpa [hne conn] using hc)
  | removal idle phase batch alive conn => exact .inl (by simpa using hc)
  | functor idle phase batch hf alive conn hrun => exact .inl (by simpa [hne conn] using hc)
  | release destroyed listed conn => exact .inl (by simpa using hc)

/-- What waits on a loop waits for connections that exist. -/
theorem Wired.known_todo (h : Wired s) (hf : f ∈ s.todo l) : ∃ x, s.conns f.conn = some x := by
  have hplaced : s.Placed l f := by
    rcases List.mem_append.mp hf with hf | hf
    · exact (h.loops l).functors f (List.mem_append_right _ ((h.loops l).batch f hf))
    · exact (h.loops l).functors f (List.mem_append_left _ hf)
  unfold Placed at hplaced
  by_cases hr : f.isRemoval = true
  · rw [if_pos hr] at hplaced
    exact hplaced.2
  · rw [if_neg hr] at hplaced
    obtain ⟨x, hx, -⟩ := hplaced
    exact ⟨x, hx⟩

theorem Wired.count_todo (h : Wired s) (hc : s.conns c = none) (hf : f.conn = c) :
    (s.todo l).count f = 0 := by
  refine List.count_eq_zero.mpr ?_
  intro hmem
  obtain ⟨x, hx⟩ := h.known_todo hmem
  rw [hf, hc] at hx
  simp at hx

theorem Wired.framesOf_none (h : Wired s) (hc : s.conns c = none) : s.framesOf l c = [] := by
  unfold framesOf
  by_cases hin : (s.loops l).inside = c
  · rw [if_pos hin]
    by_contra hne
    obtain ⟨x, hx, -⟩ := (h.loops l).frames hne
    rw [hin, hc] at hx
    simp at hx
  · rw [if_neg hin]

/-- The server has logged nothing about connections that do not exist. -/
def Unlogged (s : TcpServer) : Prop :=
  ∀ c, s.conns c = none → .removeConnectionInLoop c ∉ s.log ∧ .released c ∉ s.log

/-- What is counted about a connection that is about to be accepted. -/
theorem tally_enlist (h : Wired s) (hlog : Unlogged s) :
    (s.enlist fd).tally s.nextConnId (s.newAccepted fd) =
      { Tally.new with coming := 0 } := by
  have hnone := h.fresh
  obtain ⟨hremoved, hreleased⟩ := hlog _ hnone
  have htodo : ∀ l f, f.conn = s.nextConnId → (s.todo l).count f = 0 :=
    fun l f hf => h.count_todo hnone hf
  unfold tally
  rw [todo_enlist, todo_enlist, htodo _ _ rfl, htodo _ _ rfl, htodo _ _ rfl, framesOf_enlist,
    h.framesOf_none hnone, enlist_log, List.count_eq_zero.mpr hremoved,
    List.count_eq_zero.mpr hreleased, enlist_connections, if_pos (Finset.mem_insert_self _ _)]
  rfl

theorem Step.new (h : Wired s) (hlog : Unlogged s) (hstep : Step s (.accept fd) s')
    (hx : s'.conns s.nextConnId = some x) : s'.tally s.nextConnId x = Tally.new := by
  have haccepted : Unlogged s.accepted := hlog
  have htally : (s.accepted.enlist fd).tally s.nextConnId (s.newAccepted fd) =
      { Tally.new with coming := 0 } := tally_enlist h.accepted haccepted
  cases hstep with
  | acceptHere en base =>
      obtain rfl : s.newAccepted fd = x := by simpa using hx
      have hloop : (s.newAccepted fd).loop = 0 := base
      rw [tally_enter_self hloop, htally, todo_enlist,
        h.accepted.count_todo (c := s.nextConnId) h.fresh rfl]
      rfl
  | accept en other =>
      obtain rfl : s.newAccepted fd = x := by simpa using hx
      have hpush := tally_push_establish (s := s.accepted.enlist fd) (x := s.newAccepted fd)
        (c := s.nextConnId)
      rw [htally] at hpush
      exact hpush
  | call own => simp [Action.own] at own

/-- A connection of the new state was there before, and the step is a move of it, or it is
new. -/
theorem Step.origin (h : Wired s) (hlog : Unlogged s) (hstep : Step s a s')
    (hx : s'.conns c = some x') :
    (∃ x, s.conns c = some x ∧ x'.loop = x.loop ∧
      Tally.Move (s.tally c x) (s'.tally c x') ∧
      ((s.tally c x).closing < (s'.tally c x').closing → s.Enters a c x)) ∨
    (s.conns c = none ∧ s'.tally c x' = Tally.new) := by
  cases hc : s.conns c with
  | some x =>
      obtain ⟨z, hz, hloop, hmove, henters⟩ := hstep.move h hc
      obtain rfl : x' = z := Option.some.inj (hx.symm.trans hz)
      exact .inl ⟨x, rfl, hloop, hmove, henters⟩
  | none =>
      rcases hstep.unknown hc with hnone | ⟨rfl, fd, rfl⟩
      · rw [hnone] at hx
        simp at hx
      · exact .inr ⟨rfl, hstep.new h hlog hx⟩

theorem Unlogged.step (h : Wired s) (hlog : Unlogged s) (hstep : Step s a s') : Unlogged s' := by
  intro c hc
  have hold : s.conns c = none := by
    cases hx : s.conns c with
    | none => rfl
    | some x =>
        obtain ⟨z, hz, -⟩ := hstep.move h hx
        rw [hc] at hz
        simp at hz
  obtain ⟨hremoved, hreleased⟩ := hlog c hold
  obtain ⟨es, hes, hkind⟩ := hstep.records h
  have hne : ∀ {d z}, s.conns d = some z → d ≠ c := by
    rintro d z hd rfl
    rw [hold] at hd
    simp at hd
  have hnew : ∀ e ∈ es, e ≠ .removeConnectionInLoop c ∧ e ≠ .released c := by
    intro e he
    rcases hkind with rfl | ⟨rfl, -⟩ | ⟨d, z, hd, ⟨rfl, -⟩ | ⟨-, hall⟩⟩
    · simp at he
    · obtain rfl := List.mem_singleton.mp he
      simp
    · obtain rfl := List.mem_singleton.mp he
      simpa using hne hd
    · rcases hall e he with rfl | rfl
      · simp
      · simpa using hne hd
  rw [hes]
  constructor
  · intro hmem
    rcases List.mem_append.mp hmem with hmem | hmem
    · exact hremoved hmem
    · exact (hnew _ hmem).1 rfl
  · intro hmem
    rcases List.mem_append.mp hmem with hmem | hmem
    · exact hreleased hmem
    · exact (hnew _ hmem).2 rfl

theorem unlogged_of_reachable (h : lts.Reachable s) : Unlogged s := by
  refine h.induct ?_ ?_
  · intro m hm c _
    rw [hm.log]
    simp
  · intro m a m' hr hlog hstep
    have hwired := wired_of_reachable hr
    exact hlog.step hwired (step_cases hwired hstep)

/-! ### What every tally has -/

/-- What a new tally has and every move of a step keeps, every tally has.  The runs may be
subject to a condition. -/
theorem tally_induct {C : TcpServer → Action → Prop} {P : Tally → Prop}
    (h : (lts.restrict C).Reachable s) (hnew : P Tally.new)
    (hmove : ∀ m a m' c x x', (lts.restrict C).Reachable m → C m a → Step m a m' →
      m.conns c = some x → m'.conns c = some x' → Tally.Move (m.tally c x) (m'.tally c x') →
      ((m.tally c x).closing < (m'.tally c x').closing → m.Enters a c x) →
      P (m.tally c x) → P (m'.tally c x'))
    (hc : s.conns c = some x) : P (s.tally c x) := by
  have hall : ∀ c x, s.conns c = some x → P (s.tally c x) := by
    refine h.induct (P := fun s => ∀ c x, s.conns c = some x → P (s.tally c x)) ?_ ?_
    · intro m hm c x hc
      rw [hm.conns] at hc
      simp at hc
    · intro m a m' hr hall hstep c x' hc
      have hwired := wired_of_reachable hr.of_restrict
      have hcases := step_cases hwired hstep.2
      rcases hcases.origin hwired (unlogged_of_reachable hr.of_restrict) hc with
        ⟨x, hx, -, hm, henters⟩ | ⟨-, hnewT⟩
      · exact hmove m a m' c x x' hr hstep.1 hcases hx hc hm henters (hall c x hx)
      · rw [hnewT]
        exact hnew
  exact hall c x hc

theorem balanced_of_reachable (h : lts.Reachable s) (hc : s.conns c = some x) :
    (s.tally c x).Balanced := by
  refine tally_induct h.restrict_true ⟨rfl, rfl, rfl⟩ ?_ hc
  intro m a m' c x x' _ _ _ _ _ hm _ hbal
  exact hbal.move hm

end TcpServer

end Muduo
