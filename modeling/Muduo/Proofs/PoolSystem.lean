/-
The start and the end of a pool's threads.

`Built` says how far `start` has come, in the pool's own fields, in the threads and in where
the main thread is with each of them.  A step of the pool moves at most one thread, so what a
single thread keeps to is kept by all of them; the two come together where `startLoop`
returns, because the loop that `loop_` holds by then is the one that goes into `loops_`.
-/
import Muduo.Lib.Family
import Muduo.PoolSystem
import Muduo.Proofs.OwnerQuits
import Muduo.Proofs.EventLoopThreadPool

namespace Muduo

/-- The destructor is under way. -/
def OwnerPc.destructing : OwnerPc → Bool
  | .testing => true
  | .reading => true
  | .calling => true
  | .quitting => true
  | .joining => true
  | .leaving => true
  | .undefined => true
  | _ => false

/-- How many threads there are, of the `n` to be made. -/
def PoolPc.count (n : Nat) : PoolPc → Nat
  | .idle => 0
  | .creating i => i
  | .waiting i => i + 1
  | _ => n

namespace EventLoopThread

variable {F : Type} {s s' : EventLoopThread F} {a : Action F}

/-! ### One thread -/

theorem Step.threadId (h : Step s a s') : s'.loop.threadId = s.loop.threadId := by
  cases h with
  | callLoop thread step => exact step.threadId
  | use may alive step => exact step.threadId
  | quit pc alive step => exact step.threadId
  | _ => rfl

/-- A thread that has been created is not undone. -/
theorem Step.created (h : Step s a s') (hs : s.thread ≠ .unstarted) : s'.thread ≠ .unstarted := by
  cases h with
  | use may alive step =>
      rcases withLoop_thread (s := s) _ with ⟨-, -, hret⟩ | ⟨-, hsame⟩
      · rw [hret]
        simp
      · rw [hsame]
        exact hs
  | startLoop pc | construct thread | storeLoop thread | setPromise thread | callLoop thread step
  | lock thread | clearLoop thread | unlock thread | finish thread => simp
  | _ => exact hs

/-- What a step does to the owner's place. -/
theorem Step.owner (h : Step s a s') : a = .startLoop ∨
    a = .startLoopReturn ∧ s.ownerPc = .starting ∧ s'.ownerPc = .started ∧ s.promiseSet = true ∨
    a = .leave ∧ s.ownerPc.destructing = true ∧ s'.ownerPc = .destroyed ∨
    (a ≠ .startLoopReturn ∧ a ≠ .leave) ∧ (s'.ownerPc = s.ownerPc ∨
      s'.ownerPc.destructing = true ∧
        (a = .destroy ∧ s.ownerPc = .started ∨ s.ownerPc.destructing = true)) := by
  cases h with
  | startLoop pc => exact Or.inl rfl
  | startLoopReturn pc set => exact Or.inr (Or.inl ⟨rfl, pc, rfl, set⟩)
  | leave pc => exact Or.inr (Or.inr (Or.inl ⟨rfl, by rw [pc]; rfl, rfl⟩))
  | construct thread | storeLoop thread | setPromise thread | callLoop thread step | lock thread
  | clearLoop thread | unlock thread | finish thread | use may alive step =>
      exact Or.inr (Or.inr (Or.inr ⟨by simp, Or.inl rfl⟩))
  | destroy pc =>
      exact Or.inr (Or.inr (Or.inr ⟨by simp, Or.inr ⟨rfl, Or.inl ⟨rfl, pc⟩⟩⟩))
  | testSet pc set | testNull pc null | readSet pc set | readNull pc null | quit pc alive step
  | quitDead pc dead | useDead pc inside dead | quitReturn pc | join pc ended =>
      exact Or.inr (Or.inr (Or.inr ⟨by simp, Or.inr ⟨rfl, Or.inr (by rw [pc]; rfl)⟩⟩))

end EventLoopThread

namespace EventLoopThreadPool

variable {Loop : Type} {p p' : EventLoopThreadPool Loop} {loop : Option Loop}

/-- `getNextLoop` writes `next_` only. -/
theorem getNextLoop_next (h : p.getNextLoop = .ok (loop, p')) :
    ∃ next, p' = { p with next := next } := by
  unfold getNextLoop at h
  by_cases hone : p.loops.length = 1
  · rw [if_pos hone, Except.ok.injEq, Prod.mk.injEq] at h
    exact ⟨p.next, h.2.symm⟩
  rw [if_neg hone] at h
  by_cases hne : p.loops ≠ []
  · rw [if_pos hne] at h
    dsimp only at h
    split at h
    · rw [Except.ok.injEq, Prod.mk.injEq] at h
      exact ⟨_, h.2.symm⟩
    · simp at h
  · rw [if_neg hne, Except.ok.injEq, Prod.mk.injEq] at h
    exact ⟨p.next, h.2.symm⟩

/-- With one loop the pool stays as it is and gives the base loop. -/
theorem nextLoops_single (hone : p.loops.length = 1) (k : Nat) :
    p.nextLoops k = .ok (List.replicate k (some p.baseLoop), p) := by
  induction k with
  | zero => rfl
  | succ k ih =>
    unfold nextLoops
    rw [ih, List.replicate_succ']
    show (p.getNextLoop >>= _) = _
    have hcall : p.getNextLoop = .ok (some p.baseLoop, p) := if_pos hone
    rw [hcall]
    rfl

end EventLoopThreadPool

namespace PoolSystem

variable {F : Type} {s s' : PoolSystem F} {a : Action F}

/-! ### The steps -/

/-- The object when `startLoop` has just created its thread. -/
def launched (owner t : Tid) : EventLoopThread F :=
  { EventLoopThread.new owner t with ownerPc := .starting, thread := .created }

inductive Step (s : PoolSystem F) : Action F → PoolSystem F → Prop
  | start {cb : Bool} (pc : s.pc = .idle) :
      Step s (.start cb) { s with
        cb := cb
        pool := { s.pool with started := true, loops := s.pool.loops ++ [s.pool.baseLoop] }
        pc := .creating 0 }
  | create {t : Tid} {i : Nat} (pc : s.pc = .creating i) (more : (i : Int) < s.pool.numThreads)
      (free : s.FreeId t) :
      Step s (.create t) { s with
        threads := s.threads ++ [launched s.owner t]
        pool := { s.pool with threads := s.pool.threads ++ [s.pool.subName i] }
        pc := .waiting i }
  | startLoopReturn {i : Nat} {th th' : EventLoopThread F} (pc : s.pc = .waiting i)
      (at_i : s.threads[i]? = some th)
      (step : EventLoopThread.lts.step th .startLoopReturn th') :
      Step s (.member i .startLoopReturn) { s with
        threads := s.threads.set i th'
        pool := { s.pool with
          loops := s.pool.loops ++ [if th.loopSet then .worker i else .null] }
        pc := .creating (i + 1) }
  | leave {i : Nat} {th th' : EventLoopThread F} (at_i : s.threads[i]? = some th)
      (step : EventLoopThread.lts.step th .leave th') :
      Step s (.member i .leave) { s with
        threads := s.threads.set i th'
        pc := .destroying (i + 1) }
  | member {i : Nat} {b : EventLoopThread.Action F} {th th' : EventLoopThread F}
      (may : s.mayStep i b = true) (at_i : s.threads[i]? = some th)
      (step : EventLoopThread.lts.step th b th') (other : b ≠ .startLoopReturn ∧ b ≠ .leave) :
      Step s (.member i b) { s with threads := s.threads.set i th' }
  | startReturn {i : Nat} (pc : s.pc = .creating i) (enough : ¬ (i : Int) < s.pool.numThreads) :
      Step s .startReturn { s with
        called := s.called ++ if s.pool.numThreads = 0 ∧ s.cb then [s.pool.baseLoop] else []
        pc := .started }
  | getNextLoop {loop : Option LoopPtr} {pool : EventLoopThreadPool LoopPtr}
      (pc : s.pc = .started) (call : s.pool.getNextLoop = .ok (loop, pool)) :
      Step s .getNextLoop { s with pool := pool, handed := s.handed ++ [loop] }
  | destroy (pc : s.pc = .started) : Step s .destroy { s with pc := .destroying 0 }
  | destroyReturn (pc : s.pc = .destroying s.threads.length) :
      Step s .destroyReturn { s with pc := .destroyed }

theorem mainStep_cases (h : s.mainStep a s.pc = some s') : Step s a s' := by
  cases hpc : s.pc with
  | idle =>
      rw [hpc] at h
      cases a with
      | start cb =>
          simp only [mainStep, Option.some.injEq] at h
          rw [← h]
          exact .start hpc
      | _ => simp [mainStep] at h
  | creating i =>
      rw [hpc] at h
      cases a with
      | create t =>
          simp only [mainStep] at h
          by_cases hmore : (i : Int) < s.pool.numThreads ∧ s.FreeId t
          · rw [if_pos hmore, Option.map_eq_some_iff] at h
            obtain ⟨th, hth, rfl⟩ := h
            obtain rfl := Option.some.inj hth
            exact .create hpc hmore.1 hmore.2
          · rw [if_neg hmore] at h
            simp at h
      | startReturn =>
          simp only [mainStep] at h
          by_cases hmore : (i : Int) < s.pool.numThreads
          · rw [if_pos hmore] at h
            simp at h
          · rw [if_neg hmore, Option.some.injEq] at h
            rw [← h]
            exact .startReturn hpc hmore
      | _ => simp [mainStep] at h
  | started =>
      rw [hpc] at h
      cases a with
      | getNextLoop =>
          simp only [mainStep] at h
          split at h
          · rw [Option.some.injEq] at h
            rw [← h]
            exact .getNextLoop hpc ‹_›
          · simp at h
      | destroy =>
          simp only [mainStep, Option.some.injEq] at h
          rw [← h]
          exact .destroy hpc
      | _ => simp [mainStep] at h
  | destroying i =>
      rw [hpc] at h
      cases a with
      | destroyReturn =>
          simp only [mainStep] at h
          by_cases hi : i = s.threads.length
          · rw [if_pos hi, Option.some.injEq] at h
            rw [← h]
            rw [hi] at hpc
            exact .destroyReturn hpc
          · rw [if_neg hi] at h
            simp at h
      | _ => simp [mainStep] at h
  | waiting i | destroyed =>
      rw [hpc] at h
      simp [mainStep] at h

theorem step_cases (h : lts.step s a s') : Step s a s' := by
  have h : s.next a = some s' := h
  cases a with
  | member i b =>
      simp only [next] at h
      by_cases hmay : s.mayStep i b = true
      · rw [if_pos hmay, Option.bind_eq_some_iff] at h
        obtain ⟨th, hth, h⟩ := h
        obtain ⟨th', hstep, rfl⟩ := Option.map_eq_some_iff.mp h
        cases b with
        | startLoopReturn =>
            have hpc : s.pc = .waiting i := by simpa [mayStep] using hmay
            exact .startLoopReturn hpc hth hstep
        | leave => exact .leave hth hstep
        | _ => exact .member hmay hth hstep (by simp)
      · rw [if_neg hmay] at h
        simp at h
  | start cb | create t | startReturn | getNextLoop | destroy | destroyReturn =>
      exact mainStep_cases h

/-! ### The threads -/

/-- The step is a call of `quit` that no destructor makes. -/
def Action.callsQuit : Action F → Bool
  | .member _ (.use (.quit _)) => true
  | _ => false

/-- Nobody calls `quit` on the loop of a thread, the destructors of `threads_` apart. -/
def Quiet (_ : PoolSystem F) (a : Action F) : Prop :=
  a.callsQuit = false

instance (s : PoolSystem F) (a : Action F) : Decidable (Quiet s a) :=
  inferInstanceAs (Decidable (_ = _))

/-- The thread is one that nobody but its destructor tells to quit. -/
abbrev Apart (th : EventLoopThread F) : Prop :=
  (EventLoopThread.lts.restrict EventLoopThread.OwnerQuits).Reachable th

theorem launched_reachable {C : EventLoopThread F → EventLoopThread.Action F → Prop}
    {owner t : Tid} (hne : t ≠ owner) (hstart : ∀ th, C th .startLoop) :
    (EventLoopThread.lts.restrict C).Reachable (launched owner t) := by
  have hnew : (EventLoopThread.lts.restrict C).Reachable (EventLoopThread.new owner t) :=
    Lts.Reachable.of_init ⟨owner, t, hne.symm, rfl⟩
  have hstep : (EventLoopThread.new owner t : EventLoopThread F).next .startLoop =
      some (launched owner t) := rfl
  exact hnew.step ⟨hstart _, hstep⟩

/-- A step of the pool moves one thread at most, by a step that meets what the pool's steps
answer for. -/
theorem Step.moves {C : EventLoopThread F → EventLoopThread.Action F → Prop} (h : Step s a s')
    (hstart : ∀ th, C th .startLoop)
    (hmember : ∀ i b th, a = .member i b → s.threads[i]? = some th → C th b) :
    Lts.Moves (EventLoopThread.lts.restrict C) s.threads s'.threads := by
  cases h with
  | create pc more free => exact .add (launched_reachable free.1 hstart)
  | startLoopReturn pc at_i step | leave at_i step | member may at_i step other =>
      exact .move at_i ⟨hmember _ _ _ rfl at_i, step⟩
  | _ => exact .stay

theorem Quiet.ownerQuits {i : Nat} {b : EventLoopThread.Action F} (h : Quiet s (.member i b))
    (th : EventLoopThread F) : th.OwnerQuits b := by
  cases b with
  | use b =>
      cases b with
      | quit t => simp [Quiet, Action.callsQuit] at h
      | _ => trivial
  | _ => trivial

/-- The step moves one thread, and the others are as they were. -/
theorem getElem?_set_cases {l : List (EventLoopThread F)} {i j : Nat} {th t : EventLoopThread F}
    (h : (l.set i th)[j]? = some t) : j = i ∧ t = th ∨ j ≠ i ∧ l[j]? = some t := by
  by_cases hij : i = j
  · subst hij
    rw [List.getElem?_set_self'] at h
    obtain ⟨-, -, rfl⟩ := Option.map_eq_some_iff.mp h
    exact Or.inl ⟨rfl, rfl⟩
  · rw [List.getElem?_set_ne hij] at h
    exact Or.inr ⟨fun he => hij he.symm, h⟩

/-! ### Where the main thread is with each of them -/

/-- The owner of the j-th thread, for the place the main thread is at. -/
def OwnerAt (pc : PoolPc) (j : Nat) (o : OwnerPc) : Prop :=
  match pc with
  | .waiting i => if j = i then o = .starting else o = .started
  | .destroying i =>
      if j < i then o = .destroyed
      else if j = i then o = .started ∨ o.destructing = true
      else o = .started
  | .destroyed => o = .destroyed
  | _ => o = .started

theorem OwnerAt.destructing {pc : PoolPc} {j : Nat} {o : OwnerPc} (h : OwnerAt pc j o)
    (ho : o.destructing = true) : pc = .destroying j := by
  have hne : o ≠ .started ∧ o ≠ .starting ∧ o ≠ .destroyed := by
    refine ⟨?_, ?_, ?_⟩ <;> rintro rfl <;> simp [OwnerPc.destructing] at ho
  cases pc with
  | waiting i =>
      by_cases hj : j = i
      · simp only [OwnerAt, hj] at h
        exact absurd h hne.2.1
      · simp only [OwnerAt, hj] at h
        exact absurd h hne.1
  | destroying i =>
      by_cases hlt : j < i
      · simp only [OwnerAt, hlt] at h
        exact absurd h hne.2.2
      · by_cases hj : j = i
        · rw [hj]
        · simp only [OwnerAt, hlt, hj] at h
          exact absurd h hne.1
  | destroyed => exact absurd h hne.2.2
  | idle | creating i | started => exact absurd h hne.1

/-- The threads that `start` has created, and the owner's place with each. -/
structure Placed (s : PoolSystem F) : Prop where
  range : s.pool.numThreads < 2 ^ 31
  count : s.threads.length = s.pc.count s.pool.numThreads.toNat
  bound : s.threads.length ≤ s.pool.numThreads.toNat
  owners : ∀ j th, s.threads[j]? = some th → OwnerAt s.pc j th.ownerPc

namespace Placed

/-- A step of the i-th thread that takes the main thread from `s.pc` to `pc`. -/
theorem owners_set (h : Placed s) {i : Nat} {th' : EventLoopThread F} {pc : PoolPc}
    (hi : OwnerAt pc i th'.ownerPc)
    (hothers : ∀ j o, j ≠ i → OwnerAt s.pc j o → OwnerAt pc j o) :
    ∀ j t, (s.threads.set i th')[j]? = some t → OwnerAt pc j t.ownerPc := by
  intro j t ht
  rcases getElem?_set_cases ht with ⟨rfl, rfl⟩ | ⟨hne, ht⟩
  · exact hi
  · exact hothers j _ hne (h.owners j t ht)

/-- The i-th thread has taken a step that does not move the main thread. -/
theorem member_owner (h : Placed s) {i : Nat} {b : EventLoopThread.Action F}
    {th th' : EventLoopThread F} (may : s.mayStep i b = true) (at_i : s.threads[i]? = some th)
    (step : EventLoopThread.lts.step th b th') (other : b ≠ .startLoopReturn ∧ b ≠ .leave) :
    OwnerAt s.pc i th'.ownerPc := by
  have hat := h.owners i th at_i
  rcases (EventLoopThread.step_cases step).owner with
    rfl | ⟨rfl, -⟩ | ⟨rfl, -⟩ | ⟨-, hsame | ⟨hto, hfrom⟩⟩
  · simp [mayStep] at may
  · exact absurd rfl other.1
  · exact absurd rfl other.2
  · rw [hsame]
    exact hat
  · have hpc : s.pc = .destroying i := by
      rcases hfrom with ⟨rfl, -⟩ | hfrom
      · simpa [mayStep] using may
      · exact hat.destructing hfrom
    rw [hpc]
    simp [OwnerAt, hto]

theorem step (h : Placed s) (hstep : Step s a s') : Placed s' := by
  have hrange := h.range
  have hcount := h.count
  have hbound := h.bound
  cases hstep with
  | start pc =>
      rw [pc] at hcount
      refine ⟨hrange, hcount, hbound, ?_⟩
      intro j th hj
      have hnil : s.threads = [] := List.length_eq_zero_iff.mp hcount
      rw [hnil] at hj
      simp at hj
  | @create t i pc more free =>
      rw [pc] at hcount
      have hlength : s.threads.length = i := hcount
      refine ⟨hrange, ?_, ?_, ?_⟩
      · simp [PoolPc.count, hlength]
      · rw [List.length_append, hlength]
        show i + 1 ≤ s.pool.numThreads.toNat
        omega
      · intro j th hj
        by_cases hlast : j = i
        · subst hlast
          rw [List.getElem?_append_right (by omega), hlength] at hj
          simp only [Nat.sub_self, List.getElem?_cons_zero, Option.some.injEq] at hj
          rw [← hj]
          simp [OwnerAt, launched]
        · have hlt : j < s.threads.length := by
            have := (List.getElem?_eq_some_iff.mp hj).1
            simp only [List.length_append, List.length_singleton] at this
            omega
          rw [List.getElem?_append_left hlt] at hj
          have hat := h.owners j th hj
          rw [pc] at hat
          simpa [OwnerAt, hlast] using hat
  | @startLoopReturn i th th' pc at_i step =>
      rw [pc] at hcount
      refine ⟨hrange, by simpa [PoolPc.count] using hcount, by simpa using hbound,
        h.owners_set ?_ ?_⟩
      · rcases (EventLoopThread.step_cases step).owner with
          hb | ⟨-, -, hto, -⟩ | ⟨hb, -⟩ | ⟨⟨hb, -⟩, -⟩
        · simp at hb
        · exact hto
        · simp at hb
        · exact absurd rfl hb
      · intro j o hne hat
        rw [pc] at hat
        simpa [OwnerAt, hne] using hat
  | @leave i th th' at_i step =>
      rcases (EventLoopThread.step_cases step).owner with
        hb | ⟨hb, -⟩ | ⟨-, hfrom, hto⟩ | ⟨⟨-, hb⟩, -⟩
      · simp at hb
      · simp at hb
      · have hpc := (h.owners i th at_i).destructing hfrom
        rw [hpc] at hcount
        refine ⟨hrange, by simpa [PoolPc.count] using hcount, by simpa using hbound,
          h.owners_set ?_ ?_⟩
        · simpa [OwnerAt] using hto
        · intro j o hne hat
          rw [hpc] at hat
          by_cases hlt : j < i
          · simp only [OwnerAt, hlt, if_true] at hat
            simpa [OwnerAt, show j < i + 1 by omega] using hat
          · simp only [OwnerAt, hlt, if_false, hne] at hat
            have hge : ¬ j < i + 1 := by omega
            simp only [OwnerAt, hge, if_false]
            by_cases hj : j = i + 1
            · rw [if_pos hj]
              exact Or.inl hat
            · rw [if_neg hj]
              exact hat
      · exact absurd rfl hb
  | @member i b th th' may at_i step other =>
      refine ⟨hrange, by simpa using hcount, by simpa using hbound, h.owners_set ?_ ?_⟩
      · exact h.member_owner may at_i step other
      · exact fun j o _ hat => hat
  | @startReturn i pc enough =>
      rw [pc] at hcount
      have hlength : s.threads.length = i := hcount
      refine ⟨hrange, ?_, hbound, ?_⟩
      · show s.threads.length = s.pool.numThreads.toNat
        omega
      · intro j th hj
        have hat := h.owners j th hj
        rw [pc] at hat
        exact hat
  | getNextLoop pc call =>
      obtain ⟨next, rfl⟩ := EventLoopThreadPool.getNextLoop_next call
      exact ⟨hrange, hcount, hbound, h.owners⟩
  | destroy pc =>
      rw [pc] at hcount
      refine ⟨hrange, hcount, hbound, ?_⟩
      intro j th hj
      have hat := h.owners j th hj
      rw [pc] at hat
      by_cases hzero : j = 0
      · simp only [OwnerAt, hzero]
        exact Or.inl hat
      · simpa [OwnerAt, hzero] using hat
  | destroyReturn pc =>
      rw [pc] at hcount
      refine ⟨hrange, hcount, hbound, ?_⟩
      intro j th hj
      have hat := h.owners j th hj
      rw [pc] at hat
      simpa [OwnerAt, (List.getElem?_eq_some_iff.mp hj).1] using hat

end Placed

theorem placed_of_reachable (h : lts.Reachable s) : Placed s := by
  refine h.induct ?_ ?_
  · rintro s₀ ⟨owner, name, n, -, hrange, rfl⟩
    exact ⟨hrange, rfl, Nat.zero_le _, by simp [new]⟩
  · intro m b m' _ hm hstep
    exact hm.step (step_cases hstep)

/-! ### The ids of the threads -/

/-- The id of the main thread, then those of the threads. -/
def ids (s : PoolSystem F) : List Tid :=
  s.owner :: s.threads.map fun th => th.loop.threadId

/-- A step of a thread does not change its id. -/
theorem ids_set {i : Nat} {b : EventLoopThread.Action F} {th th' : EventLoopThread F}
    (at_i : s.threads[i]? = some th) (step : EventLoopThread.lts.step th b th') :
    ((s.threads.set i th').map fun th => th.loop.threadId) =
      s.threads.map fun th => th.loop.threadId := by
  obtain ⟨hlt, rfl⟩ := List.getElem?_eq_some_iff.mp at_i
  have hid := (EventLoopThread.step_cases step).threadId
  have hlt' : i < (s.threads.map fun th => th.loop.threadId).length := by simpa using hlt
  rw [List.map_set, hid]
  calc (s.threads.map fun th => th.loop.threadId).set i s.threads[i].loop.threadId
      = (s.threads.map fun th => th.loop.threadId).set i
          (s.threads.map fun th => th.loop.threadId)[i] := by rw [List.getElem_map]
    _ = s.threads.map fun th => th.loop.threadId := List.set_getElem_self hlt'

/-- While `start` runs no thread has ended, so a new thread's id is not that of another. -/
theorem Step.ids (h : Step s a s') (hids : s.ids.Nodup) (hplaced : Placed s)
    (hapart : ∀ th ∈ s.threads, Apart th) : s'.ids.Nodup := by
  cases h with
  | @create t i pc more free =>
      have hfresh : ∀ th ∈ s.threads, th.loop.threadId ≠ t := by
        intro th hth
        obtain ⟨j, hj⟩ := List.mem_iff_getElem?.mp hth
        have hat := hplaced.owners j th hj
        rw [pc] at hat
        have howned := EventLoopThread.owned_of_reachable (hapart th hth)
        have hstarted : th.ownerPc = .started := hat
        obtain ⟨-, hreturn⟩ := howned.unquit (by rw [hstarted]; rfl)
        refine free.2 th hth fun hended => ?_
        rw [hended] at hreturn
        simp [ThreadPc.beforeReturn, ThreadPc.beforeLoop] at hreturn
      show (s.owner :: (s.threads ++ [launched s.owner t]).map _).Nodup
      rw [List.map_append, ← List.cons_append]
      refine List.nodup_append.mpr ⟨hids, by simp, ?_⟩
      rintro u hu v hv
      obtain rfl : v = t := by simpa [launched, EventLoopThread.new, EventLoop.new] using hv
      rcases List.mem_cons.mp hu with rfl | hu
      · exact free.1.symm
      · obtain ⟨th, hth, rfl⟩ := List.mem_map.mp hu
        exact hfresh th hth
  | startLoopReturn pc at_i step | leave at_i step | member may at_i step other =>
      unfold PoolSystem.ids at hids ⊢
      rw [ids_set at_i step]
      exact hids
  | _ => exact hids

/-! ### The pool's own fields -/

/-- The pool when `start` has made `k` threads and has put the loops of `j` into `loops_`. -/
structure Made (p : EventLoopThreadPool LoopPtr) (k j : Nat) : Prop where
  base : p.baseLoop = .base
  started : p.started = true
  next : p.next = 0
  threads : p.threads = (List.range k).map p.subName
  loops : p.loops = .base :: (List.range j).map .worker

/-- What `start` should return on this pool, if the i-th `startLoop` returns the i-th thread's
loop, and the loop it should call `cb` on. -/
def target (s : PoolSystem F) : EventLoopThreadPool LoopPtr × Option LoopPtr :=
  ((EventLoopThreadPool.new .base s.pool.name).setThreadNum s.pool.numThreads).start s.cb .worker

/-- `start` has returned what it should, and so has each `getNextLoop` since. -/
def After (s : PoolSystem F) : Prop :=
  s.called = s.target.2.toList ∧
    s.target.1.nextLoops s.handed.length = .ok (s.handed, s.pool)

/-- The pool, and what has come of it, where the main thread is. -/
def PoolAt (s : PoolSystem F) : Prop :=
  match s.pc with
  | .idle =>
      s.pool = (EventLoopThreadPool.new .base s.pool.name).setThreadNum s.pool.numThreads ∧
        s.called = [] ∧ s.handed = []
  | .creating i => Made s.pool i i ∧ s.called = [] ∧ s.handed = []
  | .waiting i => Made s.pool (i + 1) i ∧ s.called = [] ∧ s.handed = []
  | _ => After s

/-- The `for` has come to its end. -/
theorem Made.target (h : Made s.pool s.pool.numThreads.toNat s.pool.numThreads.toNat) :
    s.pool = s.target.1 := by
  obtain ⟨hbase, hstarted, hnext, hthreads, hloops⟩ := h
  cases hpool : s.pool with
  | mk baseLoop name started numThreads next threads loops =>
      simp only [hpool] at hbase hstarted hnext hthreads hloops
      simp only [PoolSystem.target, hpool, EventLoopThreadPool.start,
        EventLoopThreadPool.setThreadNum, EventLoopThreadPool.new, hbase, hstarted, hnext, hloops,
        List.nil_append, List.singleton_append]
      rw [hthreads]
      rfl

theorem After.getNextLoop (h : After s) {loop : Option LoopPtr}
    {pool : EventLoopThreadPool LoopPtr} (call : s.pool.getNextLoop = .ok (loop, pool)) :
    After { s with pool := pool, handed := s.handed ++ [loop] } := by
  obtain ⟨hcalled, hcalls⟩ := h
  obtain ⟨next, hnext⟩ := EventLoopThreadPool.getNextLoop_next call
  have hsame : ({ s with pool := pool, handed := s.handed ++ [loop] } : PoolSystem F).target =
      s.target := by
    rw [hnext]
    rfl
  unfold After
  rw [hsame]
  refine ⟨hcalled, ?_⟩
  show s.target.1.nextLoops (s.handed ++ [loop]).length = .ok (s.handed ++ [loop], pool)
  rw [List.length_append]
  show s.target.1.nextLoops (s.handed.length + 1) = _
  unfold EventLoopThreadPool.nextLoops
  rw [hcalls]
  show (s.pool.getNextLoop >>= _) = _
  rw [call]
  rfl

theorem Step.poolAt (h : Step s a s') (hpool : PoolAt s) (hplaced : Placed s)
    (hapart : ∀ th ∈ s.threads, Apart th) : PoolAt s' := by
  unfold PoolAt at hpool
  cases h with
  | start pc =>
      rw [pc] at hpool
      obtain ⟨hinit, hcalled, hhanded⟩ := hpool
      have hbase : s.pool.baseLoop = .base := by rw [hinit]; rfl
      have hnext : s.pool.next = 0 := by rw [hinit]; rfl
      have hthreads : s.pool.threads = [] := by rw [hinit]; rfl
      have hloops : s.pool.loops = [] := by rw [hinit]; rfl
      refine ⟨⟨hbase, rfl, hnext, hthreads, ?_⟩, hcalled, hhanded⟩
      simp [hloops, hbase]
  | @create t i pc more free =>
      rw [pc] at hpool
      obtain ⟨hmade, hcalled, hhanded⟩ := hpool
      refine ⟨⟨hmade.base, hmade.started, hmade.next, ?_, hmade.loops⟩, hcalled, hhanded⟩
      show s.pool.threads ++ [s.pool.subName i] = (List.range (i + 1)).map s.pool.subName
      rw [List.range_succ, List.map_append, ← hmade.threads]
      rfl
  | @startLoopReturn i th th' pc at_i step =>
      rw [pc] at hpool
      obtain ⟨hmade, hcalled, hhanded⟩ := hpool
      have hth := List.mem_of_getElem? at_i
      have hset : th.loopSet = true := by
        rcases (EventLoopThread.step_cases step).owner with
          hb | ⟨-, hfrom, -, hpromise⟩ | ⟨hb, -⟩ | ⟨⟨hb, -⟩, -⟩
        · simp at hb
        · have howned := EventLoopThread.owned_of_reachable (hapart th hth)
          have hshape := EventLoopThread.shape_of_reachable (hapart th hth).of_restrict
          exact (howned.there hshape (by rw [hfrom]; rfl) hpromise).1
        · simp at hb
        · exact absurd rfl hb
      refine ⟨⟨hmade.base, hmade.started, hmade.next, hmade.threads, ?_⟩, hcalled, hhanded⟩
      show s.pool.loops ++ [if th.loopSet then LoopPtr.worker i else .null] = _
      rw [if_pos hset, hmade.loops, List.range_succ, List.map_append]
      rfl
  | @leave i th th' at_i step =>
      rcases (EventLoopThread.step_cases step).owner with
        hb | ⟨hb, -⟩ | ⟨-, hfrom, -⟩ | ⟨⟨-, hb⟩, -⟩
      · simp at hb
      · simp at hb
      · rw [(hplaced.owners i th at_i).destructing hfrom] at hpool
        exact hpool
      · exact absurd rfl hb
  | member may at_i step other => exact hpool
  | @startReturn i pc enough =>
      have hcount := hplaced.count
      have hbound := hplaced.bound
      rw [pc] at hpool hcount
      obtain ⟨hmade, hcalled, hhanded⟩ := hpool
      have hlast : i = s.pool.numThreads.toNat := by
        have hlength : s.threads.length = i := hcount
        omega
      subst hlast
      refine ⟨?_, ?_⟩
      · show s.called ++ _ = _
        rw [hcalled, hmade.base]
        by_cases hcb : s.pool.numThreads = 0 ∧ s.cb = true
        · simp [target, EventLoopThreadPool.start, EventLoopThreadPool.setThreadNum,
            EventLoopThreadPool.new, hcb.1, hcb.2]
        · have hnone : s.target.2 = none := if_neg hcb
          show [] ++ (if s.pool.numThreads = 0 ∧ s.cb = true then [LoopPtr.base] else []) =
            s.target.2.toList
          rw [hnone, if_neg hcb]
          rfl
      · show s.target.1.nextLoops s.handed.length = .ok (s.handed, s.pool)
        rw [hhanded, hmade.target]
        rfl
  | @getNextLoop loop pool pc call =>
      rw [pc] at hpool
      have hafter := After.getNextLoop hpool call
      unfold PoolAt
      rw [show ({ s with pool := pool, handed := s.handed ++ [loop] } : PoolSystem F).pc =
        .started from pc]
      exact hafter
  | destroy pc =>
      rw [pc] at hpool
      exact hpool
  | destroyReturn pc =>
      rw [pc] at hpool
      exact hpool

/-! ### The whole pool -/

structure Built (s : PoolSystem F) : Prop where
  placed : Placed s
  apart : ∀ th ∈ s.threads, Apart th
  ids : s.ids.Nodup
  pool : PoolAt s

theorem built_of_reachable (h : (lts.restrict Quiet).Reachable s) : Built s := by
  refine h.induct ?_ ?_
  · rintro s₀ ⟨owner, name, n, hlow, hhigh, rfl⟩
    exact ⟨placed_of_reachable (Lts.Reachable.of_init ⟨owner, name, n, hlow, hhigh, rfl⟩),
      by simp [new], by simp [ids, new], rfl, rfl, rfl⟩
  · rintro m b m' hr hm ⟨hquiet, hstep⟩
    have hcases := step_cases hstep
    have hmoves : Lts.Moves (EventLoopThread.lts.restrict EventLoopThread.OwnerQuits)
        m.threads m'.threads := by
      refine hcases.moves (fun _ => trivial) ?_
      rintro i c th rfl -
      exact Quiet.ownerQuits hquiet th
    exact ⟨hm.placed.step hcases, hmoves.reachable hm.apart,
      hcases.ids hm.ids hm.placed hm.apart, hcases.poolAt hm.pool hm.placed hm.apart⟩

theorem OwnerAt.afterStart {pc : PoolPc} {j : Nat} {o : OwnerPc} (h : OwnerAt pc j o)
    (hpc : pc.afterStart = true) : o.afterStart = true := by
  have hcases : o = .started ∨ o = .destroyed ∨ o.destructing = true := by
    cases pc with
    | started => exact Or.inl h
    | destroyed => exact Or.inr (Or.inl h)
    | destroying i =>
        unfold OwnerAt at h
        dsimp only at h
        split at h
        · exact Or.inr (Or.inl h)
        · split at h
          · rcases h with h | h
            · exact Or.inl h
            · exact Or.inr (Or.inr h)
          · exact Or.inl h
    | idle | creating i | waiting i => simp [PoolPc.afterStart] at hpc
  rcases hcases with rfl | rfl | h
  · rfl
  · rfl
  · cases o <;> first | rfl | simp [OwnerPc.destructing] at h

namespace Built

theorem after (h : Built s) (hpc : s.pc.afterStart = true) : After s := by
  have hpool := h.pool
  unfold PoolAt at hpool
  cases hs : s.pc with
  | started | destroying i | destroyed =>
      rw [hs] at hpool
      exact hpool
  | idle | creating i | waiting i =>
      rw [hs] at hpc
      simp [PoolPc.afterStart] at hpc

theorem length (h : Built s) (hpc : s.pc.afterStart = true) :
    s.threads.length = s.pool.numThreads.toNat := by
  rw [h.placed.count]
  cases hs : s.pc with
  | started | destroying i | destroyed => rfl
  | idle | creating i | waiting i =>
      rw [hs] at hpc
      simp [PoolPc.afterStart] at hpc

/-- Until the destructor's `quit`, the loop of a thread that `startLoop` has returned for
exists. -/
theorem loop_there (h : Built s) (hpc : s.pc.afterStart = true) {i : Nat}
    {th : EventLoopThread F} (hi : s.threads[i]? = some th) :
    th.promiseSet = true ∧
      (th.ownerPc.beforeQuit = true → th.loopSet = true ∧ th.thread.hasLoop = true) := by
  have hth := h.apart th (List.mem_of_getElem? hi)
  have hshape := EventLoopThread.shape_of_reachable hth.of_restrict
  have hset := hshape.started ((h.placed.owners i th hi).afterStart hpc)
  exact ⟨hset, fun hbefore =>
    (EventLoopThread.owned_of_reachable hth).there hshape hbefore hset⟩

end Built

/-! ### Runs -/

/-- A run of a pool of two threads, with the main thread 1, found by computing it. -/
theorem exists_of_run (C : PoolSystem F → Action F → Prop) [∀ s a, Decidable (C s a)]
    (as : List (Action F)) (p : PoolSystem F → Prop) [DecidablePred p]
    (h : (Lts.run (Lts.guarded (fun s a => decide (C s a)) next) (new 1 "server" 2) as).any
      (fun s => decide (p s)) = true) : ∃ s, (lts.restrict C).Reachable s ∧ p s := by
  obtain ⟨s, hrun, hp⟩ := Lts.Run.of_run (T := lts) (C := C) (I := fun _ => True)
    (fun _ _ _ _ hnext => ⟨hnext, trivial⟩) (fun _ _ _ hca => of_decide_eq_true hca)
    ⟨1, "server", 2, by decide, by decide, rfl⟩ trivial h
  exact ⟨s, ⟨_, hrun⟩, of_decide_eq_true hp⟩

/-- The i-th turn of the `for`, with the thread `t`. -/
def starting (i : Nat) (t : Tid) : List (Action F) :=
  [.create t, .member i .construct, .member i .storeLoop, .member i .setPromise,
    .member i .startLoopReturn]

/-- `start`, with the second thread in `loop()` only after it has returned. -/
def startingTwo : List (Action F) :=
  [.start true] ++ starting 0 2 ++ [.member 0 .callLoop, .member 0 (.use .testQuit)] ++
    starting 1 3 ++ [.startReturn]

/-- What `start` leaves, run against the threads it starts, is what it leaves when each
`startLoop` is a call that returns the loop of its own thread, and `getNextLoop` goes on from
there.  By then every thread has run its `threadInitCallback_` to the end and is one more
thread. -/
theorem start_refines (h : (lts.restrict Quiet).Reachable s) (hpc : s.pc.afterStart = true) :
    s.called = s.target.2.toList ∧
      s.target.1.nextLoops s.handed.length = .ok (s.handed, s.pool) ∧
      s.threads.length = s.pool.numThreads.toNat ∧
      (∀ th ∈ s.threads, th.thread.afterPromise = true) ∧ s.ids.Nodup := by
  have hbuilt := built_of_reachable h
  obtain ⟨hcalled, hcalls⟩ := hbuilt.after hpc
  refine ⟨hcalled, hcalls, hbuilt.length hpc, ?_, hbuilt.ids⟩
  intro th hth
  obtain ⟨i, hi⟩ := List.mem_iff_getElem?.mp hth
  have hshape := EventLoopThread.shape_of_reachable (hbuilt.apart th hth).of_restrict
  rw [← hshape.promiseSet]
  exact (hbuilt.loop_there hpc hi).1

/-- Two threads have been started, and three connections have been given out. -/
theorem start_refines_two : ∃ s : PoolSystem Nat, s.called = [] ∧ s.target.2.toList = [] ∧
    s.target.1.nextLoops 3 = .ok ([some (.worker 0), some (.worker 1), some (.worker 0)], s.pool) ∧
      [1, 2, 3].Nodup := by
  obtain ⟨s, hr, hpc, hhanded, hids, hcalled⟩ := exists_of_run Quiet
    (startingTwo ++ [.getNextLoop, .getNextLoop, .getNextLoop])
    (fun s : PoolSystem Nat => s.pc = .started ∧
      s.handed = [some (.worker 0), some (.worker 1), some (.worker 0)] ∧ s.ids = [1, 2, 3] ∧
        s.called = []) (by decide +kernel)
  obtain ⟨hcall, hcalls, -, -, hnodup⟩ := start_refines hr (by rw [hpc]; rfl)
  rw [hhanded] at hcalls
  rw [hids] at hnodup
  exact ⟨s, hcalled, hcall ▸ hcalled, hcalls, hnodup⟩

/-! ### The loops that are handed out -/

/-- With threads to start, the calls go round the workers. -/
theorem target_calls (hpos : 0 < s.pool.numThreads) (hrange : s.pool.numThreads < 2 ^ 31)
    (k : Nat) : ∃ p, s.target.1.nextLoops k =
        .ok ((List.range k).map fun i => some (.worker (i % s.pool.numThreads.toNat)), p) ∧
      EventLoopThreadPool.Cycling .base .worker s.pool.numThreads.toNat k p := by
  have hrunning : s.target.1 =
      EventLoopThreadPool.running .base s.pool.name s.pool.numThreads.toNat s.cb .worker := by
    unfold EventLoopThreadPool.running
    rw [Int.toNat_of_nonneg (Int.le_of_lt hpos)]
    rfl
  rw [hrunning]
  exact EventLoopThreadPool.nextLoops_cycling (by omega) (by omega) k

theorem target_single (hneg : s.pool.numThreads ≤ 0) : s.target.1.loops.length = 1 := by
  simp [target, EventLoopThreadPool.start, EventLoopThreadPool.setThreadNum,
    EventLoopThreadPool.new, Int.toNat_of_nonpos hneg]

/-- What has been handed out, and what comes next. -/
theorem After.handed (h : After s) (hrange : s.pool.numThreads < 2 ^ 31) :
    (s.pool.numThreads ≤ 0 → (∀ p ∈ s.handed, p = some .base) ∧
      ∃ pool, s.pool.getNextLoop = .ok (some .base, pool)) ∧
    (0 < s.pool.numThreads →
      (∀ p ∈ s.handed, ∃ i < s.pool.numThreads.toNat, p = some (.worker i)) ∧
      ∃ i < s.pool.numThreads.toNat, ∃ pool,
        s.pool.getNextLoop = .ok (some (.worker i), pool)) := by
  obtain ⟨-, hcalls⟩ := h
  constructor
  · intro hneg
    rw [EventLoopThreadPool.nextLoops_single (target_single hneg), Except.ok.injEq,
      Prod.mk.injEq] at hcalls
    obtain ⟨hhanded, hpool⟩ := hcalls
    refine ⟨?_, s.pool, ?_⟩
    · intro p hp
      rw [← hhanded] at hp
      exact (List.mem_replicate.mp hp).2
    · have hone := target_single hneg
      rw [hpool] at hone
      have hbase : s.pool.baseLoop = .base := by
        rw [← hpool]
        rfl
      have hcall : s.pool.getNextLoop = .ok (some s.pool.baseLoop, s.pool) := if_pos hone
      rw [hcall, hbase]
  · intro hpos
    have hn : 0 < s.pool.numThreads.toNat := by omega
    obtain ⟨p, hcalls', hcycling⟩ := target_calls hpos hrange s.handed.length
    rw [hcalls', Except.ok.injEq, Prod.mk.injEq] at hcalls
    obtain ⟨hhanded, rfl⟩ := hcalls
    refine ⟨?_, ?_⟩
    · intro p hp
      rw [← hhanded] at hp
      obtain ⟨i, -, rfl⟩ := List.mem_map.mp hp
      exact ⟨_, Nat.mod_lt i hn, rfl⟩
    · obtain ⟨pool, hcall, -⟩ := hcycling.step hn (by omega)
      exact ⟨_, Nat.mod_lt _ hn, pool, hcall⟩

/-- A loop that has been handed out is the base loop when there are no threads, else that of one
of the threads, where it exists until the destructor's `quit`. -/
theorem Built.handed_there (h : Built s) (hpc : s.pc.afterStart = true) :
    ∀ p ∈ s.handed, s.pool.numThreads ≤ 0 ∧ p = some .base ∨
      ∃ i th, p = some (.worker i) ∧ s.threads[i]? = some th ∧
        (th.ownerPc.beforeQuit = true → th.loopSet = true ∧ th.thread.hasLoop = true) := by
  intro p hp
  obtain ⟨hnone, hsome⟩ := (h.after hpc).handed h.placed.range
  rcases Int.lt_or_le 0 s.pool.numThreads with hpos | hneg
  · obtain ⟨i, hi, rfl⟩ := (hsome hpos).1 p hp
    have hlt : i < s.threads.length := by
      rw [h.length hpc]
      exact hi
    exact Or.inr ⟨i, s.threads[i], rfl, List.getElem?_eq_getElem hlt,
      (h.loop_there hpc (List.getElem?_eq_getElem hlt)).2⟩
  · exact Or.inl ⟨hneg, (hnone hneg).1 p hp⟩

/-- After `start` there is a loop to hand out. -/
theorem Built.getNextLoop (h : Built s) (hpc : s.pc.afterStart = true) :
    ∃ loop pool, s.pool.getNextLoop = .ok (some loop, pool) ∧ loop ≠ .null := by
  obtain ⟨hnone, hsome⟩ := (h.after hpc).handed h.placed.range
  rcases Int.lt_or_le 0 s.pool.numThreads with hpos | hneg
  · obtain ⟨-, i, -, pool, hcall⟩ := hsome hpos
    exact ⟨_, pool, hcall, by simp⟩
  · obtain ⟨-, pool, hcall⟩ := hnone hneg
    exact ⟨_, pool, hcall, by simp⟩

/-- A loop that `getNextLoop` has handed out exists until the pool's destruction has told it to
quit: it is the base loop when there are no threads, else that of one of the threads, and
`loop_` of that thread still holds its address.  And there is always one to hand out. -/
theorem handed_exist (h : (lts.restrict Quiet).Reachable s) :
    (∀ p ∈ s.handed, s.pool.numThreads ≤ 0 ∧ p = some .base ∨
      ∃ i th, p = some (.worker i) ∧ s.threads[i]? = some th ∧
        (th.ownerPc.beforeQuit = true → th.loopSet = true ∧ th.thread.hasLoop = true)) ∧
    (s.pc = .started → ∃ loop pool, s.pool.getNextLoop = .ok (some loop, pool)) := by
  have hbuilt := built_of_reachable h
  by_cases hpc : s.pc.afterStart = true
  · obtain ⟨loop, pool, hcall, -⟩ := hbuilt.getNextLoop hpc
    exact ⟨hbuilt.handed_there hpc, fun _ => ⟨loop, pool, hcall⟩⟩
  · have hpool := hbuilt.pool
    unfold PoolAt at hpool
    cases hs : s.pc with
    | idle | creating i | waiting i =>
        rw [hs] at hpool
        rw [hpool.2.2]
        exact ⟨by simp, by simp⟩
    | started | destroying i | destroyed => simp [hs, PoolPc.afterStart] at hpc

/-- The second thread's loop has been handed out before the thread is in `loop()`. -/
theorem handed_exist_two : ∃ (s : PoolSystem Nat) (th : EventLoopThread Nat),
    some (.worker 1) ∈ s.handed ∧ s.threads[1]? = some th ∧ th.thread = .promised ∧
      th.loopSet = true := by
  obtain ⟨s, hr, hhanded, th, hth, hpc, hpromised⟩ := exists_of_run Quiet
    (startingTwo ++ [.getNextLoop, .getNextLoop])
    (fun s : PoolSystem Nat => some (.worker 1) ∈ s.handed ∧ ∃ th ∈ s.threads[1]?,
      th.ownerPc = .started ∧ th.thread = .promised) (by decide +kernel)
  rcases (handed_exist hr).1 _ hhanded with ⟨-, hbase⟩ | ⟨i, u, hi, hu, hexists⟩
  · simp at hbase
  · obtain rfl : i = 1 := by simpa using hi.symm
    obtain rfl : u = th := Option.some.inj (hu.symm.trans hth)
    exact ⟨s, u, hhanded, hu, hpromised, (hexists (by rw [hpc]; rfl)).1⟩

/-! ### The end -/

/-- The `threadFunc` of a thread does not return while the thread's destructor is inside
`quit`. -/
def EndsAfterQuit (s : PoolSystem F) : Action F → Prop
  | .member i b => ∀ th ∈ s.threads[i]?, th.EndsAfterQuit b
  | _ => True

instance (s : PoolSystem F) (a : Action F) : Decidable (EndsAfterQuit s a) :=
  match a with
  | .member i b => decidable_of_iff (s.threads[i]?.all fun th => decide (th.EndsAfterQuit b)) <| by
      simp [EndsAfterQuit, Option.all_eq_true]
  | .start _ | .create _ | .startReturn | .getNextLoop | .destroy | .destroyReturn =>
      .isTrue trivial

/-- No thread's destructor comes to anything undefined. -/
theorem defined_of_reachable
    (h : (lts.restrict fun s a => Quiet s a ∧ EndsAfterQuit s a).Reachable s) :
    ∀ th ∈ s.threads, th.ownerPc ≠ .undefined := by
  have hall : ∀ th ∈ s.threads, (EventLoopThread.lts.restrict fun th b =>
      th.OwnerQuits b ∧ th.EndsAfterQuit b).Reachable th := by
    refine h.induct (P := fun s => ∀ th ∈ s.threads, (EventLoopThread.lts.restrict fun th b =>
      th.OwnerQuits b ∧ th.EndsAfterQuit b).Reachable th) ?_ ?_
    · rintro s₀ ⟨owner, name, n, -, -, rfl⟩
      simp [new]
    · rintro m b m' - hm ⟨⟨hquiet, hends⟩, hstep⟩
      refine ((step_cases hstep).moves (fun _ => ⟨trivial, trivial⟩) ?_).reachable hm
      rintro i c th rfl hi
      exact ⟨Quiet.ownerQuits hquiet th, hends th hi⟩
  exact fun th hth => EventLoopThread.defined_of_reachable (hall th hth)

/-- As long as no thread comes to its end while its destructor is inside `quit`, each destructor
calls `quit` once, on a loop that exists and goes on to exist until `quit` has returned, and returns
when its thread has ended; when the pool is gone, all have. -/
theorem destroyed_joined
    (h : (lts.restrict fun s a => Quiet s a ∧ EndsAfterQuit s a).Reachable s) :
    (∀ th ∈ s.threads, th.ownerPc ≠ .undefined ∧
      th.log <+: [.quitCalled true, .returned .ended]) ∧
    (s.pc = .destroyed → ∀ th ∈ s.threads, th.thread = .ended ∧
      th.log = [.quitCalled true, .returned .ended]) := by
  have hbuilt := built_of_reachable (h.restrict_mono fun _ _ hc => hc.1)
  have howned : ∀ th ∈ s.threads, th.Owned :=
    fun th hth => EventLoopThread.owned_of_reachable (hbuilt.apart th hth)
  constructor
  · intro th hth
    have hdefined := defined_of_reachable h th hth
    refine ⟨hdefined, ?_⟩
    rw [(howned th hth).log]
    cases hpc : th.ownerPc with
    | undefined => exact absurd hpc hdefined
    | _ => simp [OwnerPc.done]
  · intro hpc th hth
    obtain ⟨i, hi⟩ := List.mem_iff_getElem?.mp hth
    have hat := hbuilt.placed.owners i th hi
    rw [hpc] at hat
    have howner : th.ownerPc = .destroyed := hat
    refine ⟨(howned th hth).ended (by rw [howner]; rfl), ?_⟩
    rw [(howned th hth).log, howner]
    rfl

/-- The destruction of the i-th thread, which is in `epoll_wait`. -/
def ending (i : Nat) : List (Action F) :=
  ([.destroy, .testLoop, .readLoop, .quit, .use (.test 1), .use (.write 1), .quitReturn,
    .use (.poll [.wakeup]), .use .handleEvent, .use .setCalling, .use .swap, .use .clearCalling,
    .use .release, .use .testQuit, .lock, .clearLoop, .unlock, .finish, .join, .leave] :
      List (EventLoopThread.Action F)).map (.member i)

/-- Two threads have been started and destroyed. -/
theorem destroyed_joined_two : ∃ (s : PoolSystem Nat) (th th' : EventLoopThread Nat),
    s.threads = [th, th'] ∧ th.thread = .ended ∧
      th'.log = [.quitCalled true, .returned .ended] := by
  obtain ⟨s, hr, hpc, hlength⟩ := exists_of_run (fun s a => Quiet s a ∧ EndsAfterQuit s a)
    (startingTwo ++ [.member 1 .callLoop, .member 1 (.use .testQuit), .destroy] ++ ending 0 ++
      ending 1 ++ [.destroyReturn])
    (fun s : PoolSystem Nat => s.pc = .destroyed ∧ s.threads.length = 2) (by decide +kernel)
  obtain ⟨th, th', hthreads⟩ := List.length_eq_two.mp hlength
  have hall := (destroyed_joined hr).2 hpc
  rw [hthreads] at hall
  exact ⟨s, th, th', hthreads, (hall th (by simp)).1, (hall th' (by simp)).2⟩

end PoolSystem

end Muduo
