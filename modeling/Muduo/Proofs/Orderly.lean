/-
A connection that is destroyed after it has been closed.

So a server treats its connections as long as it stands: `connectDestoryed` is queued by the
removal, and that by the close callback.  On its own loop such a connection is `Orderly`: its
stages come in turn, none of its events before `connectEstablished` and `connectDestoryed`
not before the close callback, and when `connectDestoryed` is over the poller has forgotten
it.
-/
import Muduo.Proofs.Callbacks
import Muduo.Proofs.Destroyed
import Muduo.Proofs.Marks

namespace Muduo

open Transcript

/-- A stage answers for the one that must have come before it. -/
def InTurn (before : List Entry) : Entry → Prop
  | .handleEvent _ => .establish ∈ before
  | .destoryBegin => .closeCallback ∈ before
  | _ => True

theorem Up.not_closed {log : List Entry} (h : Up log) : .closeCallback ∉ log := by
  obtain ⟨n, hn⟩ := h
  intro hmem
  have hcb : .closeCallback ∈ callbacks log := List.mem_filter.mpr ⟨hmem, rfl⟩
  rw [hn] at hcb
  simp [upTo, List.mem_replicate] at hcb

namespace ConnSystem

variable {s s' : ConnSystem} {a : Action} {es : List Entry}

/-- `connectDestoryed` is run after the close callback. -/
def ClosedFirst (s : ConnSystem) : Action → Prop
  | .functor _ => (∃ f ∈ s.batch.head?, f.isDestory = true) → .closeCallback ∈ s.log
  | _ => True

/-- A server that stands, an `epoll_wait` that reports masks that occur, and calls on the
loop's thread. -/
def Ordinary (s : ConnSystem) (a : Action) : Prop :=
  LoopOnly s a ∧ PlausibleMask a ∧ ClosedFirst s a

/-- The end of `connectDestoryed` has come or is still to come. -/
def Begun (s : ConnSystem) : Prop :=
  .destoryBegin ∈ s.log → .destoryEnd ∈ s.log ∨ .destoryRemove ∈ s.frames

structure Orderly (s : ConnSystem) : Prop where
  disciplined : Disciplined s
  destruction : Destruction s
  inTurn : Justified InTurn s.log
  begun : Begun s

/-! ### Where `connectDestoryed` begins -/

/-- Only its functor begins `connectDestoryed`. -/
theorem Step.begins (h : Step s a s') (hes : s'.log = s.log ++ es)
    (hmem : .destoryBegin ∈ es) :
    ∃ io f rest, a = .functor io ∧ s.batch = f :: rest ∧ f.isDestory = true := by
  have hnone : ∀ ms, marks s'.log = marks s.log ++ ms → .destoryBegin ∈ ms := by
    intro ms hms
    rw [hes, marks_append, List.append_cancel_left_eq] at hms
    rw [← hms]
    exact (mem_marks rfl).mpr hmem
  cases h with
  | aside hs =>
      have hin := hnone [] (by rw [hs.log, List.append_nil])
      simp at hin
  | poke hp =>
      have hin := hnone [] (by simp)
      simp at hin
  | reported idle hreg =>
      have hin := hnone [] (by simp [ConnSystem.poll])
      simp at hin
  | handleEvent idle phase hactive =>
      have hin := hnone [.handleEvent s.conn.channel.revents] (marks_append _ _)
      simp at hin
  | send pc state len read | sendQueued pc other | shutdownIgnored pc state | shutdown pc state
  | shutdownStore pc =>
      have hin := hnone [] (marks_append _ _)
      simp at hin
  | @sendInLoop call w x pc hx =>
      have hin := hnone [] (by
        show marks (x.log ++ [.returned call]) = _
        rw [marks_append, (Ctx.sendInLoop_outputStep hx).marks]
        rfl)
      simp at hin
  | shutdownInLoop pc =>
      have hin := hnone [] (by
        show marks s.ctx.shutdownInLoop.log = _
        rw [Ctx.shutdownInLoop_outputStep.marks, List.append_nil]
        rfl)
      simp at hin
  | shutdownQueued pc other =>
      have hin := hnone [] (by simp)
      simp at hin
  | @frame f rest io x fs pc frames hx =>
      have hin := hnone f.marks (Ctx.runFrame_marks hx).1
      cases f <;> simp [Frame.marks] at hin
  | @functor f rest io x fs idle phase batch hx =>
      have hin := hnone f.marks (Ctx.runFunctor_marks hx).1
      refine ⟨io, f, rest, rfl, batch, ?_⟩
      cases f with
      | connectDestoryed c => rfl
      | _ => simp [Functor.marks] at hin

/-- The last piece of `connectDestoryed` stays until it is run. -/
theorem Step.ends (h : Step s a s') (hmem : .destoryRemove ∈ s.frames) :
    .destoryEnd ∈ s'.log ∨ .destoryRemove ∈ s'.frames := by
  cases h with
  | aside hs =>
      rw [hs.frames]
      exact .inr hmem
  | handleEvent idle phase hactive =>
      rw [idle.frames] at hmem
      simp at hmem
  | functor idle phase batch hx =>
      rw [idle.frames] at hmem
      simp at hmem
  | @frame f rest io x fs pc frames hx =>
      rw [frames] at hmem
      rcases List.mem_cons.mp hmem with rfl | hmem
      · refine .inl ?_
        obtain ⟨hremove, -⟩ := Ctx.runFrame_destoryRemove hx
        rw [put_log, hremove.log]
        simp
      · exact .inr (List.mem_append_right _ hmem)
  | _ => exact .inr hmem

theorem Begun.step (h : Begun s) (hstep : Step s a s') : Begun s' := by
  intro hbegin
  obtain ⟨es, hes⟩ := hstep.log_grows
  rw [hes] at hbegin
  rcases List.mem_append.mp hbegin with hold | hnew
  · rcases h hold with hend | hframes
    · rw [hes]
      exact .inl (List.mem_append_left _ hend)
    · exact hstep.ends hframes
  · obtain ⟨io, f, rest, rfl, hbatch, hf⟩ := hstep.begins hes hnew
    cases hstep with
    | aside hs =>
        have hnil : es = [] := by simpa [hs.log] using hes.symm
        rw [hnil] at hnew
        simp at hnew
    | functor idle phase batch hx =>
        rw [hbatch, List.cons.injEq] at batch
        obtain ⟨rfl, rfl⟩ := batch
        cases f with
        | connectDestoryed c =>
            obtain ⟨-, rfl⟩ := Ctx.runFunctor_connectDestoryed hx
            refine .inr ?_
            by_cases hconn : s.conn.state = .kConnected <;> simp [hconn]
        | _ => simp [Functor.isDestory] at hf

/-! ### One step -/

/-- After the close callback the connection is closed. -/
theorem Discipline.closed_state (h : Discipline s) (hmem : .closeCallback ∈ s.log) :
    s.conn.state = .kDisconnected := by
  by_contra hne
  exact (h.opened hne).1.not_closed hmem

theorem Disciplined.destroysClosed (h : Disciplined s) (hfirst : ClosedFirst s a)
    (hen : s.Enabled a) : DestroysClosed s a := by
  cases a with
  | functor io =>
      intro hhead
      rw [h.discipline.closed_state (hfirst hhead)]
      simp
  | shutdownStore t =>
      intro _
      have hpc : s.pcs t = .shutdownSeen := hen
      have ht : t = s.loopTid := h.run.onLoop.eq_loopTid (by simp [hpc])
      rw [ht] at hpc
      rw [h.run.onLoop.seen hpc]
      simp
  | _ => trivial

theorem inTurn_step (h : Justified InTurn s.log) (hest : .establish ∈ s.log)
    (hfirst : ClosedFirst s a) (hstep : Step s a s') : Justified InTurn s'.log := by
  obtain ⟨es, hes⟩ := hstep.log_grows
  rw [hes]
  refine h.append_while ?_
  intro pre e post heq
  cases e with
  | handleEvent revents => exact List.mem_append_left _ hest
  | destoryBegin =>
      obtain ⟨io, f, rest, rfl, hbatch, hf⟩ := hstep.begins hes (by rw [heq]; simp)
      exact List.mem_append_left _ (hfirst ⟨f, by simp [hbatch], hf⟩)
  | _ => trivial

theorem Established.inTurn (h : Established s) : Justified InTurn s.log := by
  have hnone : ∀ e ∈ s.log, e.isDestory = false ∧ ∀ r, e ≠ .handleEvent r := by
    intro e he
    refine ⟨h.noDestory e he, ?_⟩
    rintro r rfl
    obtain ⟨es, hes, hlog⟩ := h.log
    rw [hlog] at he
    rcases List.mem_append.mp he with he | he
    · obtain ⟨t, ht⟩ := hes _ he
      simp at ht
    · simp at he
  have hall : Justified InTurn ([] ++ s.log) := by
    refine justified_nil.append ?_
    intro e he before
    obtain ⟨hdestory, hevent⟩ := hnone e he
    cases e with
    | handleEvent r => exact absurd rfl (hevent r)
    | destoryBegin => simp [Entry.isDestory] at hdestory
    | _ => trivial
  simpa using hall

theorem orderly_of_reachable (h : (lts.restrict Ordinary).Reachable s) :
    Fresh s ∨ (Started s ∧ Orderly s) := by
  refine reachable_induct h ?_ ?_
  · intro m hm
    refine ⟨hm.disciplined, hm.destruction, hm.inTurn, ?_⟩
    intro hmem
    have hnot := hm.noDestory _ hmem
    simp [Entry.isDestory] at hnot
  · rintro m a m' hr hstarted ⟨hdis, hdes, hturn, hbegun⟩ ⟨hloop, hmask, hfirst⟩ hen hstep
    have hord := Ordered.of_reachable hr
    have hag := agrees_of_reachable hr
    refine ⟨hdis.step hstarted hord hag hloop hmask hen hstep, ?_, ?_, hbegun.step hstep⟩
    · exact hdes.step hstarted hord hag (hdis.destroysClosed hfirst hen) hstep
    · exact inTurn_step hturn hdis.established hfirst hstep

end ConnSystem

end Muduo
