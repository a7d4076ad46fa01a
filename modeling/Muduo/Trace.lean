/-
Running `ConnSystem` on a list of actions.

`next` looks at everything `Enabled` asks for but one thing: no other thread than the
listed ones may be inside a call, which it relies on and keeps.
-/
import Muduo.ConnSystem

namespace Muduo.ConnSystem

/-- The thread whose call an action belongs to. -/
def Action.caller : Action → Option Tid
  | .send t _ _ => some t
  | .sendRun t _ => some t
  | .shutdown t => some t
  | .shutdownStore t => some t
  | .shutdownRun t => some t
  | _ => none

variable {s s' : ConnSystem} {a : Action}

/-- An action moves no thread but its caller. -/
theorem exec_pcs (h : s.exec a = .ok s') {t : Tid} (ht : a.caller ≠ some t) :
    s'.pcs t = s.pcs t := by
  cases a with
  | send u message len =>
      have hne : t ≠ u := fun hc => ht (by rw [hc]; rfl)
      obtain ⟨⟨x, pc⟩, -, hret⟩ := Except.bind_eq_ok.mp h
      rw [Except.pure_eq_ok] at hret
      rw [← hret]
      exact Function.update_of_ne hne _ _
  | sendRun u w =>
      have hne : t ≠ u := fun hc => ht (by rw [hc]; rfl)
      cases hpc : s.pcs u with
      | sending call =>
          simp only [exec, hpc] at h
          obtain ⟨x, -, hret⟩ := Except.bind_eq_ok.mp h
          rw [Except.pure_eq_ok] at hret
          rw [← hret]
          exact Function.update_of_ne hne _ _
      | idle | shutdownSeen | shutdownStored =>
          simp only [exec, hpc, Except.ok.injEq] at h
          rw [h]
  | shutdown u | shutdownStore u | shutdownRun u =>
      have hne : t ≠ u := fun hc => ht (by rw [hc]; rfl)
      simp only [exec, Except.ok.injEq] at h
      rw [← h]
      exact Function.update_of_ne hne _ _
  | poll revents =>
      simp only [exec, Except.ok.injEq] at h
      rw [← h]
      cases revents <;> rfl
  | frame io =>
      cases hframes : s.frames with
      | nil =>
          simp only [exec, hframes, Except.ok.injEq] at h
          rw [h]
      | cons f rest =>
          simp only [exec, hframes] at h
          obtain ⟨⟨x, fs⟩, -, hret⟩ := Except.bind_eq_ok.mp h
          rw [Except.pure_eq_ok] at hret
          rw [← hret]
          rfl
  | functor io =>
      cases hbatch : s.batch with
      | nil =>
          simp only [exec, hbatch, Except.ok.injEq] at h
          rw [h]
      | cons f rest =>
          simp only [exec, hbatch] at h
          obtain ⟨⟨x, fs⟩, -, hret⟩ := Except.bind_eq_ok.mp h
          rw [Except.pure_eq_ok] at hret
          rw [← hret]
          rfl
  | poke p b | setWriteCompleteCallback isSet | setHighWaterMarkCallback isSet mark
  | queueDestory | others poller | handleEvent | swap | batchEnd =>
      simp only [exec, Except.ok.injEq] at h
      exact congrArg (fun m => m.pcs t) h.symm

/-- What `Enabled` asks for, as far as it can be looked up; `others` is refused. -/
def check (ts : List Tid) (s : ConnSystem) : Action → Bool
  | .send t message len =>
      s.pcs t = .idle && len < 2 ^ 64 && (s.mem.read message len).toBool
  | .sendRun t _ => (s.pcs t matches .sending _)
  | .shutdown t => s.pcs t = .idle
  | .shutdownStore t => s.pcs t = .shutdownSeen
  | .shutdownRun t => s.pcs t = .shutdownStored
  | .poke p _ => ts.all fun t => match s.pcs t with
      | .sending call => !Covers call.message call.len p
      | _ => true
  | .setWriteCompleteCallback _ => true
  | .setHighWaterMarkCallback _ _ => true
  | .queueDestory => true
  | .others _ => false
  | .poll revents => s.pcs s.loopTid = .idle && s.frames = [] && s.phase = .polling &&
      (revents.isNone || (s.poller.interest s.conn.channel.fd).any fun e =>
        e.1 == s.conn.channel.id)
  | .handleEvent => s.pcs s.loopTid = .idle && s.frames = [] && s.phase = .handling && s.active
  | .frame _ => s.pcs s.loopTid = .idle && s.frames ≠ []
  | .swap => s.pcs s.loopTid = .idle && s.frames = [] && s.phase = .handling && !s.active
  | .functor _ => s.pcs s.loopTid = .idle && s.frames = [] && s.phase = .functors && s.batch ≠ []
  | .batchEnd => s.pcs s.loopTid = .idle && s.frames = [] && s.phase = .functors && s.batch = []

/-- The state after an action of one of the threads `ts`. -/
def next (ts : List Tid) (s : ConnSystem) (a : Action) : Option ConnSystem :=
  if s.check ts a ∧ a.caller.all (· ∈ ts) then (s.exec a).toOption else none

/-- Only the threads `ts` are inside a call. -/
def OnlyCallers (ts : List Tid) (s : ConnSystem) : Prop := ∀ t, t ∉ ts → s.pcs t = .idle

theorem enabled_of_check {ts : List Tid} (honly : OnlyCallers ts s) (h : s.check ts a = true) :
    s.Enabled a := by
  cases a with
  | send t message len =>
      simp only [check, Bool.and_eq_true, decide_eq_true_eq] at h
      refine ⟨h.1.1, h.1.2, ?_⟩
      cases hread : s.mem.read message len with
      | error e => simp [hread, Except.toBool] at h
      | ok bytes => exact ⟨bytes, rfl⟩
  | sendRun t w =>
      cases hpc : s.pcs t with
      | sending call => exact ⟨call, hpc⟩
      | idle | shutdownSeen | shutdownStored => simp [check, hpc] at h
  | shutdown t | shutdownStore t | shutdownRun t =>
      simp only [check, decide_eq_true_eq] at h
      exact h
  | poke p b =>
      intro t call hpc
      have ht : t ∈ ts := by
        by_contra hnot
        rw [honly t hnot] at hpc
        simp at hpc
      have hall := List.all_eq_true.mp h t ht
      simpa only [hpc, Bool.not_eq_true', decide_eq_false_iff_not] using hall
  | setWriteCompleteCallback isSet | setHighWaterMarkCallback isSet mark | queueDestory =>
      exact trivial
  | others poller => simp [check] at h
  | poll revents =>
      simp only [check, Bool.and_eq_true, decide_eq_true_eq, Bool.or_eq_true] at h
      refine ⟨⟨h.1.1.1, h.1.1.2⟩, h.1.2, ?_⟩
      intro hsome
      rcases h.2 with hnone | hreg
      · rw [Option.isNone_iff_eq_none.mp hnone] at hsome
        simp at hsome
      · obtain ⟨⟨c, mask⟩, hint, hc⟩ := (Option.any_eq_true _ _).mp hreg
        rw [beq_iff_eq] at hc
        exact ⟨mask, by rw [hint, ← hc]⟩
  | handleEvent | swap | batchEnd =>
      simp only [check, Bool.and_eq_true, decide_eq_true_eq, Bool.not_eq_true'] at h
      exact ⟨⟨h.1.1.1, h.1.1.2⟩, h.1.2, h.2⟩
  | frame io =>
      simp only [check, Bool.and_eq_true, decide_eq_true_eq] at h
      exact h
  | functor io =>
      simp only [check, Bool.and_eq_true, decide_eq_true_eq] at h
      exact ⟨⟨h.1.1.1, h.1.1.2⟩, h.1.2, h.2⟩

theorem next_sound {ts : List Tid} (honly : OnlyCallers ts s) (h : s.next ts a = some s') :
    lts.step s a s' ∧ OnlyCallers ts s' := by
  unfold next at h
  by_cases hok : s.check ts a = true ∧ a.caller.all (· ∈ ts) = true
  · rw [if_pos hok] at h
    have hexec := Except.toOption_eq_some.mp h
    refine ⟨⟨enabled_of_check honly hok.1, hexec⟩, ?_⟩
    intro t ht
    rw [exec_pcs hexec ?_]
    · exact honly t ht
    · intro hcaller
      exact ht (by simpa [hcaller] using hok.2)
  · rw [if_neg hok] at h
    simp at h

/-- A connection just handed to the loop of thread 1, in an idle program whose memory
holds `bytes` from address 100 on. -/
def start (bytes : List Byte) : ConnSystem where
  loopTid := 1
  conn := TcpConnection.new 7 5 false
  poller := EpollPoller.empty
  log := []
  queue := [.connectEstablished 7]
  phase := .polling
  active := false
  batch := []
  frames := []
  pcs := fun _ => .idle
  mem := fun a => if a < 100 then none else bytes[a - 100]?

theorem start_init (bytes : List Byte) : lts.init (start bytes) where
  conn := ⟨false, rfl⟩
  channels := rfl
  interest := rfl
  handed := Or.inl ⟨rfl, rfl⟩
  log := rfl
  active := rfl
  batch := rfl
  pcs _ := rfl

/-- The kernel accepts `n` bytes of the next `::write`. -/
def wrote (n : Nat) : Io where
  write := { ret := n, errno := .EWOULDBLOCK }
  readv := { ret := 0, data := [], errno := .EWOULDBLOCK }

/-- The kernel refuses the next `::write`, as it does once the output has been closed. -/
def refused : Io where
  write := { ret := -1, errno := .EPIPE }
  readv := { ret := 0, data := [], errno := .EWOULDBLOCK }

/-- The loop's first turn: it comes to `connectEstablished`. -/
def connecting : List Action := [.poll none, .swap, .functor (wrote 0), .batchEnd]

/-- The loop's turn on one functor. -/
def turn (n : Nat) : List Action := [.poll none, .swap, .functor (wrote n), .batchEnd]

/-- The same, with calls made before it from the handler of another channel. -/
def during (calls : List Action) (n : Nat) : List Action :=
  [.poll none] ++ calls ++ [.swap, .functor (wrote n), .batchEnd]

/-- The loop's turn on one event, up to the end of its handling. -/
def event (revents : Events) (n : Nat) : List Action :=
  [.poll (some revents), .handleEvent, .frame (wrote n), .frame (wrote n), .frame (wrote n),
    .frame (wrote n)]

/-- `::readv` finds `n` bytes. -/
def read (n : Nat) : Io where
  write := { ret := 0, errno := .EWOULDBLOCK }
  readv := { ret := n, data := List.replicate n 0, errno := .EWOULDBLOCK }

/-- The loop's turn on an event for reading, up to the end of its handling; with no bytes to
read, up to the end of `handleClose`. -/
def eventRead (revents : Events) (n : Nat) : List Action :=
  [.poll (some revents), .handleEvent, .frame (read n), .frame (read n), .frame (read n),
    .frame (read n)]

/-- The run of `as` after `connectEstablished` ends in a state with the property `p`. -/
def endsWith (c : ConnSystem → Action → Bool) (bytes : List Byte) (as : List Action)
    (p : ConnSystem → Bool) : Bool :=
  (Lts.run (Lts.guarded c (next [1, 2])) (start bytes) (connecting ++ as)).any p

/-- A run of the threads 1 and 2, found by computing it.  `c` decides the condition `C` on its
steps, as far as those two threads are concerned. -/
theorem exists_of_run (C : ConnSystem → Action → Prop) (c : ConnSystem → Action → Bool)
    (hc : ∀ s a, OnlyCallers [1, 2] s → c s a = true → C s a)
    (bytes : List Byte) (as : List Action) (p : ConnSystem → Prop) [DecidablePred p]
    (h : endsWith c bytes as (fun s => decide (p s)) = true) :
    ∃ s, (lts.restrict C).Reachable s ∧ p s := by
  obtain ⟨s, hrun, hp⟩ := Lts.Run.of_run (T := lts)
    (fun _ _ _ honly hnext => next_sound honly hnext) hc (start_init bytes) (fun _ _ => rfl) h
  exact ⟨s, ⟨_, hrun⟩, of_decide_eq_true hp⟩

/-- The same for a condition that can be looked up. -/
theorem exists_of_endsWith (C : ConnSystem → Action → Prop) [∀ s a, Decidable (C s a)]
    (bytes : List Byte) (as : List Action) (p : ConnSystem → Prop) [DecidablePred p]
    (h : endsWith (fun s a => decide (C s a)) bytes as (fun s => decide (p s)) = true) :
    ∃ s, (lts.restrict C).Reachable s ∧ p s :=
  exists_of_run C _ (fun _ _ _ hc => of_decide_eq_true hc) bytes as p h

end Muduo.ConnSystem
