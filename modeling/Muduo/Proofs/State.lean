/-
The stores to `m_state`.

`shutdown` loads `m_state` and stores it in two steps, on any thread, while the loop's
thread stores it too.  `Step.state_cases` lists what can be stored.  The state never goes
back exactly as long as no `shutdown` that saw `kConnected` stores `kDisconnecting` after the
loop has stored `kDisconnected`.
-/
import Muduo.Proofs.Shutdown

namespace Muduo

/-- The place of a state along `kConnecting`, `kConnected`, `kDisconnecting`,
`kDisconnected`. -/
def StateE.rank : StateE → Nat
  | .kConnecting => 0
  | .kConnected => 1
  | .kDisconnecting => 2
  | .kDisconnected => 3

/-- From `kConnecting` on, no store goes back. -/
def Forward (states : List StateE) : Prop :=
  (.kConnecting :: states).Pairwise fun st st' => st.rank ≤ st'.rank

instance (states : List StateE) : Decidable (Forward states) :=
  inferInstanceAs (Decidable (List.Pairwise _ _))

theorem forward_nil : Forward [] := List.pairwise_singleton _ _

theorem forward_append_singleton {states : List StateE} {st : StateE} :
    Forward (states ++ [st]) ↔
      Forward states ∧ ∀ st' ∈ StateE.kConnecting :: states, st'.rank ≤ st.rank := by
  unfold Forward
  rw [← List.cons_append, List.pairwise_append]
  simp

namespace ConnSystem

variable {s s' : ConnSystem} {a : Action}

/-- Once the connection is up, a step stores nothing, or closes, or is the store of
`shutdown`. -/
theorem Step.state_cases (hstarted : Started s) (hstep : Step s a s') :
    (s'.conn.state = s.conn.state ∧ stores s'.log = stores s.log) ∨
      (s'.conn.state = .kDisconnected ∧ stores s'.log = stores s.log ++ [.kDisconnected]) ∨
      (∃ t, a = .shutdownStore t ∧ s'.conn.state = .kDisconnecting ∧
        stores s'.log = stores s.log ++ [.kDisconnecting]) := by
  have out {x : Ctx} (hx : Ctx.OutputStep s.ctx x) :
      x.conn.state = s.conn.state ∧ stores x.log = stores s.log := ⟨hx.state, hx.stores⟩
  cases hstep with
  | aside hs => exact Or.inl ⟨hs.state, by rw [hs.log]⟩
  | poke hp => exact Or.inl ⟨rfl, rfl⟩
  | reported idle hreg => exact Or.inl ⟨rfl, rfl⟩
  | handleEvent idle phase hactive =>
      exact Or.inl ⟨rfl, by simp [ConnSystem.handleEvent, Entry.storeOf]⟩
  | send pc state len read => exact Or.inl ⟨rfl, by simp [Entry.storeOf]⟩
  | @sendInLoop call w x pc hx =>
      obtain ⟨hstate, hstores⟩ := out (Ctx.sendInLoop_outputStep hx)
      exact Or.inl ⟨hstate, by simp [setPc, Entry.storeOf, hstores]⟩
  | sendQueued pc other => exact Or.inl ⟨rfl, by simp [Entry.storeOf]⟩
  | shutdownIgnored pc state => exact Or.inl ⟨rfl, by simp [Entry.storeOf]⟩
  | shutdown pc state => exact Or.inl ⟨rfl, by simp [Entry.storeOf]⟩
  | @shutdownStore t pc =>
      refine Or.inr (Or.inr ⟨t, rfl, rfl, ?_⟩)
      simp [setPc, Ctx.shutdownStore, Entry.storeOf]
  | shutdownInLoop pc => exact Or.inl (out Ctx.shutdownInLoop_outputStep)
  | shutdownQueued pc other => exact Or.inl ⟨rfl, rfl⟩
  | @frame f rest io x fs pc frames hx =>
      have hne : f ≠ .connectEstablished := by
        rintro rfl
        exact hstarted.frames (by simp [frames])
      rcases Ctx.runFrame_kind hne hx with hstays | hcloses | ⟨-, -, -, hwrite⟩
      · exact Or.inl ⟨hstays.state, hstays.stores⟩
      · exact Or.inr (Or.inl ⟨hcloses.state, hcloses.stores⟩)
      · exact Or.inl (out (Ctx.handleWrite_outputStep hwrite))
  | @functor f rest io x fs idle phase batch hx =>
      have hest : f.isEstablish = false := hstarted.todo f (by simp [todo, batch])
      rcases Ctx.runFunctor_kind hest hx with ⟨hstays, -, -⟩ | ⟨c, call, -, -, hsend⟩ |
        ⟨c, -, -, rfl⟩
      · exact Or.inl ⟨hstays.state, hstays.stores⟩
      · exact Or.inl (out (Ctx.sendInLoop_outputStep hsend))
      · exact Or.inl (out Ctx.shutdownInLoop_outputStep)

/-! ### The state never goes back -/

/-- `shutdown` does not store to a state that is already `kDisconnected`. -/
def StoresOpen (s : ConnSystem) : Action → Prop
  | .shutdownStore _ => s.conn.state ≠ .kDisconnected
  | _ => True

instance (s : ConnSystem) (a : Action) : Decidable (StoresOpen s a) :=
  match a with
  | .shutdownStore _ => inferInstanceAs (Decidable (s.conn.state ≠ .kDisconnected))
  | .send _ _ _ | .sendRun _ _ | .shutdown _ | .shutdownRun _ | .poke _ _
  | .setWriteCompleteCallback _ | .setHighWaterMarkCallback _ _ | .queueDestory | .others _
  | .poll _ | .handleEvent | .frame _ | .swap | .functor _ | .batchEnd => .isTrue trivial

/-- The state is the last value stored, and no earlier one is past it. -/
structure Forwarded (s : ConnSystem) : Prop where
  forward : Forward (stores s.log)
  bound : ∀ st ∈ StateE.kConnecting :: stores s.log, st.rank ≤ s.conn.state.rank

/-- The state is a value that was stored, unless it is the first. -/
def Stored (s : ConnSystem) : Prop := s.conn.state ∈ StateE.kConnecting :: stores s.log

theorem Fresh.stores_eq_nil (h : Fresh s) : stores s.log = [] := by
  refine List.flatMap_eq_nil_iff.mpr ?_
  intro e he
  obtain ⟨t, rfl⟩ := h.log e he
  rfl

theorem Established.stores_eq (h : Established s) : stores s.log = [.kConnected] := by
  obtain ⟨es, hes, hlog⟩ := h.log
  have hnil : stores es = [] := by
    refine List.flatMap_eq_nil_iff.mpr ?_
    intro e he
    obtain ⟨t, rfl⟩ := hes e he
    rfl
  rw [hlog, stores_append, hnil]
  rfl

theorem Forwarded.stored (h : Forwarded s) {st : StateE} (hle : s.conn.state.rank ≤ st.rank)
    (hstate : s'.conn.state = st) (hstores : stores s'.log = stores s.log ++ [st]) :
    Forwarded s' := by
  have hbound : ∀ st' ∈ StateE.kConnecting :: stores s.log, st'.rank ≤ st.rank := by
    intro st' hmem
    have hst := h.bound st' hmem
    omega
  refine ⟨?_, ?_⟩
  · rw [hstores]
    exact forward_append_singleton.mpr ⟨h.forward, hbound⟩
  · intro st' hmem
    rw [hstores, ← List.cons_append] at hmem
    rw [hstate]
    rcases List.mem_append.mp hmem with hmem | hmem
    · exact hbound st' hmem
    · exact Nat.le_of_eq (congrArg StateE.rank (List.mem_singleton.mp hmem))

theorem Forwarded.step (h : Forwarded s) (hstarted : Started s) (hopen : StoresOpen s a)
    (hstep : Step s a s') : Forwarded s' := by
  rcases hstep.state_cases hstarted with ⟨hstate, hstores⟩ | ⟨hstate, hstores⟩ |
    ⟨t, rfl, hstate, hstores⟩
  · refine ⟨by rw [hstores]; exact h.forward, ?_⟩
    rw [hstores, hstate]
    exact h.bound
  · refine h.stored ?_ hstate hstores
    cases s.conn.state <;> decide
  · refine h.stored ?_ hstate hstores
    have hopen : s.conn.state ≠ .kDisconnected := hopen
    cases hst : s.conn.state with
    | kDisconnected => exact absurd hst hopen
    | _ => decide

theorem forwarded_of_reachable (h : (lts.restrict StoresOpen).Reachable s) : Forwarded s := by
  have hinv := reachable_induct (P := Forwarded) h ?_ ?_
  · rcases hinv with hfresh | ⟨-, hforwarded⟩
    · refine ⟨by rw [hfresh.stores_eq_nil]; exact forward_nil, ?_⟩
      rw [hfresh.stores_eq_nil, hfresh.state]
      simp
    · exact hforwarded
  · intro m hm
    refine ⟨by rw [hm.stores_eq]; decide, ?_⟩
    rw [hm.stores_eq, hm.state]
    decide
  · intro m a m' _ hstarted hm hopen _ hstep
    exact hm.step hstarted hopen hstep

theorem stored_of_reachable (h : lts.Reachable s) : Stored s := by
  have hr : (lts.restrict fun _ _ => True).Reachable s := h.restrict_true
  have hinv := reachable_induct (P := Stored) hr ?_ ?_
  · rcases hinv with hfresh | ⟨-, hstored⟩
    · rw [Stored, hfresh.state]
      exact List.mem_cons_self ..
    · exact hstored
  · intro m hm
    rw [Stored, hm.state, hm.stores_eq]
    decide
  · intro m a m' _ hstarted hm _ _ hstep
    rcases hstep.state_cases hstarted with ⟨hstate, hstores⟩ | ⟨hstate, hstores⟩ |
      ⟨t, -, hstate, hstores⟩
    · rw [Stored, hstate, hstores]
      exact hm
    · rw [Stored, hstate, hstores]
      simp
    · rw [Stored, hstate, hstores]
      simp

/-- A store that goes back shows in the log for good. -/
theorem storesOpen_of_forward (hr : lts.Reachable s) (hstep : lts.step s a s')
    (h : Forward (stores s'.log)) : StoresOpen s a := by
  cases a with
  | shutdownStore t =>
      intro hclosed
      have hstored := stored_of_reachable hr
      rw [Stored, hclosed] at hstored
      have hs' : s' = (s.put s.ctx.shutdownStore).setPc t .shutdownStored := by
        simpa [exec] using hstep.2.symm
      have hstores : stores s'.log = stores s.log ++ [.kDisconnecting] := by
        rw [hs']
        simp [setPc, Ctx.shutdownStore, Entry.storeOf]
      rw [hstores] at h
      have hle := (forward_append_singleton.mp h).2 _ hstored
      exact absurd hle (by decide)
  | _ => trivial

theorem forward_of_append {states states' : List StateE} (h : Forward (states ++ states')) :
    Forward states := by
  unfold Forward at *
  rw [← List.cons_append] at h
  exact (List.pairwise_append.mp h).1

theorem stores_prefix (hr : lts.Reachable s) (hstep : lts.step s a s') :
    ∃ states, stores s'.log = stores s.log ++ states := by
  obtain ⟨es, hes⟩ := (step_cases (Ordered.of_reachable hr) hstep).log_grows
  exact ⟨stores es, by rw [hes, stores_append]⟩

/-- Along a run the state only moves forward, and never leaves `kDisconnected`, exactly if
no step of the run is a store of `shutdown` to a state that is `kDisconnected` already. -/
theorem stores_forward_iff {s₀ : ConnSystem} {as : List Action} (h0 : lts.init s₀)
    (h : Lts.Path lts s₀ as s) :
    (Forward (stores s.log) ∧ (.kDisconnected ∈ stores s.log → s.conn.state = .kDisconnected)) ↔
      Lts.Path (lts.restrict StoresOpen) s₀ as s := by
  constructor
  · rintro ⟨hforward, -⟩
    induction h with
    | nil => exact Lts.Path.nil
    | @snoc m s' as a hpath hstep ih =>
        have hr : lts.Reachable m := ⟨as, s₀, h0, hpath⟩
        obtain ⟨states, hstates⟩ := stores_prefix hr hstep
        have hbefore : Forward (stores m.log) := by
          rw [hstates] at hforward
          exact forward_of_append hforward
        exact (ih hbefore).snoc ⟨storesOpen_of_forward hr hstep hforward, hstep⟩
  · intro hpath
    have hforwarded := forwarded_of_reachable ⟨as, s₀, h0, hpath⟩
    refine ⟨hforwarded.forward, ?_⟩
    intro hmem
    have hle := hforwarded.bound _ (List.mem_cons_of_mem _ hmem)
    cases hst : s.conn.state with
    | kDisconnected => rfl
    | _ => exact absurd (hst ▸ hle) (by decide)

/-- Thread 2 shuts down, and the peer closes. -/
theorem stores_forward_iff_closed : ∃ s : ConnSystem,
    stores s.log = [.kConnected, .kDisconnecting, .kDisconnected] ∧ Forward (stores s.log) := by
  obtain ⟨s, ⟨as, s₀, h0, hpath⟩, hstores⟩ := exists_of_endsWith StoresOpen []
    ([Action.shutdown 2, .shutdownStore 2, .shutdownRun 2] ++ turn 0 ++ event EPOLLHUP 0)
    (fun s => stores s.log = [StateE.kConnected, .kDisconnecting, .kDisconnected])
    (by decide +kernel)
  exact ⟨s, hstores, ((stores_forward_iff h0 hpath.of_restrict).mpr hpath).1⟩

/-- Thread 2 is in `shutdown`, between its load and its store, when the loop handles the
close of the peer: the connection leaves `kDisconnected`. -/
theorem stores_went_back : ∃ s, lts.Reachable s ∧
    stores s.log = [.kConnected, .kDisconnected, .kDisconnecting] ∧
      s.conn.state = .kDisconnecting ∧ ¬ Forward (stores s.log) := by
  obtain ⟨s, hr, hstores, hstate⟩ := exists_of_endsWith (fun _ _ => True) []
    ([Action.shutdown 2] ++ event EPOLLHUP 0 ++ [Action.shutdownStore 2])
    (fun s => stores s.log = [StateE.kConnected, .kDisconnected, .kDisconnecting] ∧
      s.conn.state = .kDisconnecting) (by decide +kernel)
  exact ⟨s, hr.of_restrict, hstores, hstate, by rw [hstores]; decide⟩

end ConnSystem

end Muduo
