/-
`~TcpServer`, and the closes that are on their way when it begins.

A close callback and a queued `removeConnectionInLoop` refer to the server without owning
it.  The destructor waits for neither, and it releases every connection of the map, those
whose removal is on its way included.  What is safe is a server that is destroyed when
nothing of a close is under way and none is entered afterwards; the tally of a connection
then says that it is destroyed once, by its removal or by its release.
-/
import Muduo.Lib.Transcript
import Muduo.Proofs.Counted
import Muduo.ServerTrace

namespace Muduo

namespace TcpServer

variable {s s' : TcpServer} {a : Action} {l : LoopId} {c : ConnId} {x x' : Accepted}

/-- Nothing of a close is on its way. -/
def Settled (s : TcpServer) : Prop :=
  ∀ c < s.nextConnId, .removeConnectionInLoop c ∉ s.todo 0 ∧
    ∀ l < s.size, .closeCallback ∉ s.framesOf l c

/-- `handleClose` is entered once at most for a connection and not after `~TcpServer` has
begun, and that begins when nothing of a close is on its way. -/
def SafeDestroy (s : TcpServer) : Action → Prop
  | .frame l io => ∀ f ∈ (s.loops l).frames.head?, ∀ x ∈ s.conns (s.loops l).inside,
      (s.ctx x).EntersClose io f →
        .closeCallback ∉ x.log ∧ .closeCallback ∉ (s.loops l).frames ∧ .destroy ∉ s.log
  | .destroy => s.Settled
  | _ => True

/-- The condition on a step that enters `handleClose`. -/
theorem SafeDestroy.enters (h : Wired s) (hsafe : s.SafeDestroy a) (hc : s.conns c = some x)
    (hent : s.Enters a c x) :
    (s.tally c x).closing + (s.tally c x).closed = 0 ∧ .destroy ∉ s.log := by
  obtain ⟨l, io, f, rest, rfl, rfl, hframes, hent⟩ := hent
  obtain ⟨hlog, hnone, hdestroy⟩ := hsafe f (by simp [hframes]) x hc hent
  obtain rfl := h.inside_loop rfl hframes hc
  refine ⟨?_, hdestroy⟩
  have hclosing : (s.tally (s.loops x.loop).inside x).closing = 0 := by
    show (s.framesOf x.loop _).count .closeCallback = 0
    rw [framesOf, if_pos rfl]
    exact List.count_eq_zero.mpr hnone
  have hclosed : (s.tally (s.loops x.loop).inside x).closed = 0 := List.count_eq_zero.mpr hlog
  rw [hclosing, hclosed]

end TcpServer

/-- A removal comes of a close. -/
theorem Tally.Move.of_removed {k k' : Tally} (h : Tally.Move k k') (hlt : k.removed < k'.removed) :
    0 < k.closing ∨ 0 < k.leaving := by
  cases h with
  | closeHere hn =>
      refine .inl ?_
      omega
  | remove hn =>
      refine .inr ?_
      omega
  | _ => exact absurd hlt (Nat.lt_irrefl _)

/-- A life with no close under way stays so until one is entered. -/
theorem Tally.Move.settled {k k' : Tally} (h : Tally.Move k k')
    (hclosing : k.closing = 0) (hleaving : k.leaving = 0) (hle : ¬ k.closing < k'.closing) :
    k'.closing = 0 ∧ k'.leaving = 0 := by
  cases h with
  | enterClose => exact absurd (Nat.lt_succ_self _) hle
  | close hn | closeHere hn | remove hn => omega
  | _ => exact ⟨hclosing, hleaving⟩

namespace TcpServer

variable {s s' : TcpServer} {a : Action} {l : LoopId} {c : ConnId} {x x' : Accepted}

/-! ### No close after the destruction -/

/-- Once `~TcpServer` has begun no close is under way, and before it nothing is released. -/
structure Gone (s : TcpServer) : Prop where
  settled : .destroy ∈ s.log → ∀ c x, s.conns c = some x →
    (s.tally c x).closing = 0 ∧ (s.tally c x).leaving = 0
  released : .destroy ∉ s.log → ∀ c, .released c ∉ s.log

theorem Settled.tally (h : Wired s) (hset : s.Settled) (hc : s.conns c = some x) :
    (s.tally c x).closing = 0 ∧ (s.tally c x).leaving = 0 := by
  obtain ⟨-, hlt, hloop⟩ := h.known c x hc
  obtain ⟨hleaving, hclosing⟩ := hset c hlt
  exact ⟨List.count_eq_zero.mpr (hclosing _ hloop), List.count_eq_zero.mpr hleaving⟩

/-- A step after the destruction has begun, and the step that begins it. -/
theorem Gone.settled_step (h : Wired s) (hgone : Gone s) (hsafe : s.SafeDestroy a)
    (hstep : Step s a s') (hdestroy : .destroy ∈ s'.log) (hc : s.conns c = some x)
    (hm : Tally.Move (s.tally c x) (s'.tally c x'))
    (hent : (s.tally c x).closing < (s'.tally c x').closing → s.Enters a c x) :
    (s'.tally c x').closing = 0 ∧ (s'.tally c x').leaving = 0 := by
  have hcases : .destroy ∈ s.log ∨ a = .destroy := by
    obtain ⟨es, hes, hkind⟩ := hstep.records h
    rw [hes] at hdestroy
    rcases List.mem_append.mp hdestroy with hmem | hmem
    · exact .inl hmem
    · rcases hkind with rfl | ⟨-, ha⟩ | ⟨d, z, -, ⟨rfl, hold⟩ | ⟨-, hall⟩⟩
      · simp at hmem
      · exact .inr ha
      · exact .inl hold
      · rcases hall _ hmem with heq | heq <;> simp at heq
  rcases hcases with hold | rfl
  · obtain ⟨hclosing, hleaving⟩ := hgone.settled hold c x hc
    refine hm.settled hclosing hleaving ?_
    intro hlt
    exact (hsafe.enters h hc (hent hlt)).2 hold
  · obtain ⟨hclosing, hleaving⟩ := Settled.tally h hsafe hc
    refine hm.settled hclosing hleaving ?_
    intro hlt
    obtain ⟨l, io, f, rest, ha, -⟩ := hent hlt
    simp at ha

theorem Gone.step (h : Wired s) (hlog : Unlogged s) (hgone : Gone s) (hsafe : s.SafeDestroy a)
    (hstep : Step s a s') : Gone s' := by
  refine ⟨?_, ?_⟩
  · intro hdestroy c x' hc
    rcases hstep.origin h hlog hc with ⟨x, hx, -, hm, hent⟩ | ⟨-, hnew⟩
    · exact hgone.settled_step h hsafe hstep hdestroy hx hm hent
    · rw [hnew]
      exact ⟨rfl, rfl⟩
  · intro hdestroy c hmem
    obtain ⟨es, hes, hkind⟩ := hstep.records h
    rw [hes, List.mem_append, not_or] at hdestroy
    rw [hes] at hmem
    rcases List.mem_append.mp hmem with hmem | hmem
    · exact hgone.released hdestroy.1 c hmem
    · rcases hkind with rfl | ⟨rfl, -⟩ | ⟨d, z, -, ⟨-, hold⟩ | ⟨-, hall⟩⟩
      · simp at hmem
      · simp at hmem
      · exact hdestroy.1 hold
      · rcases hall _ hmem with heq | heq <;> simp at heq

theorem gone_of_reachable (h : (lts.restrict SafeDestroy).Reachable s) : Gone s := by
  refine h.induct ?_ ?_
  · intro m hm
    refine ⟨?_, ?_⟩
    · intro hdestroy
      rw [hm.log] at hdestroy
      simp at hdestroy
    · intro _ c
      rw [hm.log]
      simp
  · intro m a m' hr hgone hstep
    have hwired := wired_of_reachable hr.of_restrict
    exact hgone.step hwired (unlogged_of_reachable hr.of_restrict) hstep.1
      (step_cases hwired hstep.2)

/-! ### Once for each connection -/

theorem once_of_reachable (h : (lts.restrict SafeDestroy).Reachable s)
    (hc : s.conns c = some x) : (s.tally c x).Once := by
  refine tally_induct h ⟨by simp [Tally.new], by simp [Tally.new]⟩ ?_ hc
  intro m a m' c x x' hr hsafe hstep hx _ hm hent honce
  have hwired := wired_of_reachable hr.of_restrict
  have hgone := gone_of_reachable hr
  refine honce.move (balanced_of_reachable hr.of_restrict hx) hm ?_ ?_
  · intro hlt
    exact (hsafe.enters hwired hx (hent hlt)).1
  · intro hlt
    -- a removal on its way says that the server stands, and so nothing is released
    have hdestroy : .destroy ∉ m.log := by
      intro hmem
      obtain ⟨hclosing, hleaving⟩ := hgone.settled hmem c x hx
      rcases hm.of_removed hlt with hpos | hpos <;> omega
    exact List.count_eq_zero.mpr (hgone.released hdestroy c)

/-- After `~TcpServer` has begun the server is not touched. -/
def Untouched (log : List ServerEntry) : Prop :=
  Transcript.Justified (fun before e => .destroy ∈ before →
    ∀ c, e ≠ .removeConnection c ∧ e ≠ .removeConnectionInLoop c) log

theorem untouched_of_reachable (h : (lts.restrict SafeDestroy).Reachable s) :
    Untouched s.log := by
  refine h.induct (P := fun s => Untouched s.log) ?_ ?_
  · intro m hm
    show Untouched m.log
    rw [hm.log]
    exact Transcript.justified_nil
  · intro m a m' hr hjust hstep
    have hwired := wired_of_reachable hr.of_restrict
    have hgone := gone_of_reachable hr
    obtain ⟨es, hes, hkind⟩ := (step_cases hwired hstep.2).records hwired
    rw [hes]
    refine hjust.append_while ?_
    intro pre e post heq hmem
    have he : e ∈ es := by rw [heq]; simp
    rcases hkind with rfl | ⟨rfl, -⟩ | ⟨d, z, hd, ⟨rfl, -⟩ | ⟨hpos, hall⟩⟩
    · simp at he
    · obtain rfl := List.mem_singleton.mp he
      simp
    · obtain rfl := List.mem_singleton.mp he
      simp
    · -- something of a close is on its way, so the server stands
      exfalso
      have hdestroy : .destroy ∈ m.log := by
        rcases List.mem_append.mp hmem with hmem | hmem
        · exact hmem
        · rcases hall .destroy (by rw [heq]; exact List.mem_append_left _ hmem) with h | h <;>
            simp at h
      obtain ⟨hclosing, hleaving⟩ := hgone.settled hdestroy d z hd
      omega

/-- Destroying a server is safe when nothing of a close is on its way and none is entered
afterwards. -/
theorem destroyed_safely (h : (lts.restrict SafeDestroy).Reachable s) :
    (∀ before after, s.log = before ++ .destroy :: after →
      ∀ c, .removeConnection c ∉ after ∧ .removeConnectionInLoop c ∉ after) ∧
    ∀ c x, s.conns c = some x → x.log.count .destoryBegin ≤ 1 := by
  refine ⟨?_, ?_⟩
  · intro before after heq c
    have hjust := untouched_of_reachable h
    have hnot : ∀ e ∈ after, e ≠ .removeConnection c ∧ e ≠ .removeConnectionInLoop c := by
      intro e he
      obtain ⟨pre, post, rfl⟩ := List.append_of_mem he
      have hcut : s.log = (before ++ .destroy :: pre) ++ e :: post := by
        rw [heq, List.append_assoc, List.cons_append]
      exact hjust _ _ _ hcut (by simp) c
    exact ⟨fun hmem => (hnot _ hmem).1 rfl, fun hmem => (hnot _ hmem).2 rfl⟩
  · intro c x hc
    exact (once_of_reachable h hc).gone_le (balanced_of_reachable h.of_restrict hc)

end TcpServer

instance (x : Ctx) (io : Io) (f : Frame) : Decidable (x.EntersClose io f) :=
  match f with
  | .closePart => inferInstanceAs (Decidable (_ ∧ _))
  | .readPart => inferInstanceAs (Decidable (_ ∧ _))
  | .connectEstablished | .errorPart | .writePart | .closeCallback | .destoryStore
  | .destoryRemove => .isFalse id

namespace TcpServer

instance (s : TcpServer) : Decidable s.Settled :=
  inferInstanceAs (Decidable (∀ c < s.nextConnId, _ ∧ ∀ l < s.size, _))

instance (s : TcpServer) (a : Action) : Decidable (s.SafeDestroy a) :=
  match a with
  | .frame l io => inferInstanceAs (Decidable (∀ f ∈ (s.loops l).frames.head?,
      ∀ x ∈ s.conns (s.loops l).inside, (s.ctx x).EntersClose io f →
        .closeCallback ∉ x.log ∧ .closeCallback ∉ (s.loops l).frames ∧ .destroy ∉ s.log))
  | .destroy => inferInstanceAs (Decidable s.Settled)
  | .accept _ | .send _ _ _ _ | .sendRun _ _ _ | .shutdown _ _ | .shutdownStore _ _
  | .shutdownRun _ _ | .setWriteCompleteCallback _ _ | .setHighWaterMarkCallback _ _ _
  | .poke _ _ | .hold _ _ | .drop _ _ | .poll _ _ _ | .handleEvent _ _ | .swap _
  | .functor _ _ | .batchEnd _ | .release _ => .isTrue trivial

/-- The server is destroyed after connection 1 has come down and while connection 2 is up. -/
theorem destroyed_safely_settled : ∃ s : TcpServer,
    s.log = [.removeConnection 1, .removeConnectionInLoop 1, .destroy, .released 2] ∧
    ∀ c x, s.conns c = some x → x.log.count .destoryBegin ≤ 1 := by
  obtain ⟨s, hr, hlog⟩ := exists_of_run SafeDestroy
    (connecting ++ closing ++ turn 0 1 ++ destroying ++ [Action.batchEnd 1] ++
      [Action.poll 0 [] true, .accept 8, .swap 0, .batchEnd 0] ++ turn 1 1 ++
      [Action.destroy, .release 2] ++ destroying)
    (fun s => s.log =
      [ServerEntry.removeConnection 1, .removeConnectionInLoop 1, .destroy, .released 2])
    (by decide +kernel)
  exact ⟨s, hlog, (destroyed_safely hr).2⟩

/-- `~TcpServer` begins on another thread while the removal of connection 1 waits on the base
loop.  It releases the connection; the removal runs, and the connection is destroyed twice. -/
theorem destroyed_twice : ∃ s : TcpServer, lts.Reachable s ∧
    s.log = [.removeConnection 1, .destroy, .released 1, .removeConnectionInLoop 1] ∧
    ∃ x, s.conns 1 = some x ∧ x.log.count .destoryBegin = 2 := by
  obtain ⟨s, hr, hlog, x, hx, hcount⟩ := exists_of_run (fun _ _ => True)
    (connecting ++ closing ++ [Action.destroy, .release 1] ++ destroying ++ [Action.batchEnd 1] ++
      turn 0 1 ++ destroying)
    (fun s => s.log =
        [ServerEntry.removeConnection 1, .destroy, .released 1, .removeConnectionInLoop 1] ∧
      ∃ x ∈ s.conns 1, x.log.count .destoryBegin = 2) (by decide +kernel)
  exact ⟨s, hr.of_restrict, hlog, x, hx, hcount⟩

end TcpServer

end Muduo
