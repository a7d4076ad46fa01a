/-
The poller's bookkeeping over whole runs.

`Booked` says of a state that every channel in use agrees with the poller, and that the
poller knows no other descriptor.  A call on one channel leaves the others alone because
their descriptors are different from its own, so the invariant is one lemma about putting
a channel back, `Booked.put`, and one case for each action.
-/
import Muduo.Poller
import Muduo.Proofs.Channel

namespace Muduo

open Channel (Agrees)

namespace EpollPoller

variable {p p' : EpollPoller} {c : Channel}

/-- `updateChannel` puts a new channel into the map and makes its one call. -/
theorem updateChannel_eq (p : EpollPoller) (c : Channel) : p.updateChannel c =
    (({ p with channels := if c.index = .kNew then
        Function.update p.channels c.fd (some c.id) else p.channels } : EpollPoller).update
      (updateOp c) c).map (·, c.withEvents c.events) := by
  cases hi : c.index with
  | kNew | kDeleted =>
      simp only [updateChannel, updateOp, hi, update, Channel.withEvents]
      split <;> rfl
  | kAdded =>
      by_cases hnone : c.isNoneEvent = true
      · have h0 : c.events = 0 := by simpa [Channel.isNoneEvent, Channel.kNoneEvent] using hnone
        simp only [updateChannel, updateOp, hi, if_pos hnone, update, Channel.withEvents, h0]
        rfl
      · have h0 : c.events ≠ 0 := by simpa [Channel.isNoneEvent, Channel.kNoneEvent] using hnone
        have hsame : c.withEvents c.events = c := by
          simp only [Channel.withEvents, h0, and_false, if_false, ← hi]
        simp only [updateChannel, updateOp, hi, if_neg hnone, update, hsame, reduceCtorEq, if_false]
        split <;> rfl

/-- `removeChannel` takes the channel out of the map and makes its call, if it has one. -/
theorem removeChannel_eq (p : EpollPoller) (c : Channel) :
    p.removeChannel c =
      (match removeOp c with
        | some op => ({ p with channels := Function.update p.channels c.fd none } :
            EpollPoller).update op c
        | none => .ok { p with channels := Function.update p.channels c.fd none }).map
      (·, { c with index := .kNew }) := by
  by_cases hi : c.index = .kAdded
  · simp only [removeChannel, removeOp, if_pos hi]
    rfl
  · simp only [removeChannel, removeOp, if_neg hi]
    rfl

theorem Takes.congr {fd : Fd} {op : EpollOp} (h : p.Takes fd op)
    (hi : p'.interest fd = p.interest fd) : p'.Takes fd op := by
  cases op <;> simpa only [Takes, hi] using h

/-- A call that `epoll_ctl` takes does not end in `LOG_FATAL`. -/
theorem update_of_takes {op : EpollOp} (h : p.Takes c.fd op) : ∃ p', p.update op c = .ok p' := by
  cases op with
  | add =>
      have hnone : p.interest c.fd = none := h
      simp [update, hnone]
  | mod =>
      have hsome : (p.interest c.fd).isSome = true := h
      simp [update, hsome]
  | del => exact ⟨_, rfl⟩

/-- The call `updateChannel` makes for an agreeing channel is one `epoll_ctl` takes. -/
theorem takes_updateOp {events : Events} (h : Agrees p c) :
    p.Takes c.fd (updateOp { c with events := events }) := by
  cases hi : c.index with
  | kNew | kDeleted =>
      simp only [Agrees, hi] at h
      simp only [updateOp]
      exact h.2
  | kAdded =>
      simp only [Agrees, hi] at h
      simp only [updateOp]
      split <;> simp [Takes, h.2]

theorem takes_removeOp (h : Agrees p c) {op : EpollOp} (hop : removeOp c = some op) :
    p.Takes c.fd op := by
  unfold removeOp at hop
  by_cases hi : c.index = .kAdded
  · rw [if_pos hi] at hop
    simp only [Agrees, hi] at h
    simp only [Option.some.injEq] at hop
    rw [← hop]
    simp [Takes, h.2]
  · rw [if_neg hi] at hop
    simp at hop

/-- The map knows exactly the channels whose index is not `kNew`. -/
theorem hasChannel_iff (h : Agrees p c) : p.hasChannel c = true ↔ c.index ≠ .kNew := by
  unfold hasChannel
  cases hi : c.index with
  | kNew => simp only [Agrees, hi] at h; simp [h.1]
  | kAdded | kDeleted => simp only [Agrees, hi] at h; simp [h.1]

end EpollPoller

namespace PollerSystem

variable {s s' : PollerSystem} {a : Action} {id : ChannelId} {c c' : Channel}

/-! ### The invariant -/

/-- Every channel in use agrees with the poller, which knows no other descriptor. -/
structure Booked (s : PollerSystem) : Prop where
  id : ∀ i c, s.channels i = some c → c.id = i
  agrees : ∀ i c, s.channels i = some c → Agrees s.poller c
  distinct : ∀ i j c d, s.channels i = some c → s.channels j = some d → c.fd = d.fd → i = j
  rest : ∀ fd, (∀ i c, s.channels i = some c → c.fd ≠ fd) →
    s.poller.channels fd = none ∧ s.poller.interest fd = none

theorem booked_of_init (h : lts.init s) : Booked s := by
  obtain ⟨hp, hc⟩ := h
  refine ⟨?_, ?_, ?_, ?_⟩
  · intro i c hi
    simp [hc] at hi
  · intro i c hi
    simp [hc] at hi
  · intro i j c d hi
    simp [hc] at hi
  · intro fd _
    rw [hp]
    exact ⟨rfl, rfl⟩

/-- What a table holds after one entry is written. -/
theorem of_update {f : ChannelId → Option Channel} {i : ChannelId} {d : Channel}
    (h : Function.update f id (some c') i = some d) :
    (i = id ∧ d = c') ∨ (i ≠ id ∧ f i = some d) := by
  by_cases hi : i = id
  · refine .inl ⟨hi, ?_⟩
    simpa [hi] using h.symm
  · refine .inr ⟨hi, ?_⟩
    simpa [hi] using h

/-- A call that keeps the channel agreeing and touches no other descriptor. -/
theorem Booked.put (h : Booked s) (hc : s.channels id = some c) {p : EpollPoller}
    (hid : c'.id = c.id) (hfd : c'.fd = c.fd) (hagrees : Agrees p c')
    (hframe : ∀ fd, fd ≠ c.fd →
      p.channels fd = s.poller.channels fd ∧ p.interest fd = s.poller.interest fd) :
    Booked (s.put id (p, c')) := by
  have hne : ∀ i d, i ≠ id → s.channels i = some d → d.fd ≠ c.fd := by
    intro i d hi hd heq
    exact hi (h.distinct i id d c hd hc heq)
  refine ⟨?_, ?_, ?_, ?_⟩
  · intro i d hd
    rcases of_update hd with ⟨rfl, rfl⟩ | ⟨-, hd⟩
    · rw [hid]
      exact h.id i c hc
    · exact h.id i d hd
  · intro i d hd
    rcases of_update hd with ⟨rfl, rfl⟩ | ⟨hi, hd⟩
    · exact hagrees
    · obtain ⟨hch, hint⟩ := hframe d.fd (hne i d hi hd)
      exact (h.agrees i d hd).congr hch hint
  · intro i j d e hd he heq
    rcases of_update hd with ⟨rfl, rfl⟩ | ⟨hi, hdold⟩
    · rcases of_update he with ⟨rfl, -⟩ | ⟨hj, heold⟩
      · rfl
      · rw [hfd] at heq
        exact absurd heq.symm (hne j e hj heold)
    · rcases of_update he with ⟨rfl, rfl⟩ | ⟨-, heold⟩
      · rw [hfd] at heq
        exact absurd heq (hne i d hi hdold)
      · exact h.distinct i j d e hdold heold heq
  · intro fd hfresh
    have hcfd : fd ≠ c.fd := by
      intro heq
      refine hfresh id c' ?_ (by rw [hfd, heq])
      simp [PollerSystem.put]
    obtain ⟨hch, hint⟩ := hframe fd hcfd
    have hrest := h.rest fd ?_
    · exact ⟨hch.trans hrest.1, hint.trans hrest.2⟩
    · intro i d hd heq
      by_cases hi : i = id
      · rw [hi, hc, Option.some.injEq] at hd
        exact hcfd (by rw [← heq, hd])
      · refine hfresh i d ?_ heq
        simpa [PollerSystem.put, hi] using hd

/-- A change of interest succeeds in a booked state. -/
theorem Booked.exec_interest (h : Booked s) (hc : s.channels id = some c)
    (call : InterestCall) : ∃ p, s.exec (.interest id call) =
        .ok (s.put id (p, c.withEvents (call.events c.events))) ∧
      Booked (s.put id (p, c.withEvents (call.events c.events))) := by
  obtain ⟨p, hset, hagrees⟩ := (h.agrees id c hc).setEvents (call.events c.events)
  refine ⟨p, ?_, h.put hc rfl rfl hagrees fun fd hfd => Channel.setEvents_frame hset hfd⟩
  simp only [exec, hc, InterestCall.run_eq, hset, Except.map]

/-- A removal succeeds in a booked state. -/
theorem Booked.exec_remove (h : Booked s) (hc : s.channels id = some c) :
    ∃ p, s.exec (.remove id) = .ok (s.put id (p, { c with index := .kNew })) ∧
      Booked (s.put id (p, { c with index := .kNew })) := by
  obtain ⟨p, hrem, hch, hint⟩ := (h.agrees id c hc).remove
  refine ⟨p, ?_, h.put hc rfl rfl ⟨hch, hint⟩ fun fd hfd => Channel.remove_frame hrem hfd⟩
  simp only [exec, hc, hrem, Except.map]

/-- A new channel is one the poller does not know, its descriptor being in no use. -/
theorem Booked.create {fd : Fd} (h : Booked s) (hen : s.Enabled (.create id fd)) :
    Booked { s with channels := Function.update s.channels id (some (Channel.new id fd)) } := by
  obtain ⟨hfree, hfresh⟩ := hen
  refine ⟨?_, ?_, ?_, ?_⟩
  · intro i d hd
    rcases of_update hd with ⟨rfl, rfl⟩ | ⟨-, hd⟩
    · rfl
    · exact h.id i d hd
  · intro i d hd
    rcases of_update hd with ⟨rfl, rfl⟩ | ⟨-, hd⟩
    · exact h.rest fd hfresh
    · exact h.agrees i d hd
  · intro i j d e hd he heq
    rcases of_update hd with ⟨rfl, rfl⟩ | ⟨-, hdold⟩
    · rcases of_update he with ⟨rfl, -⟩ | ⟨-, heold⟩
      · rfl
      · exact absurd heq.symm (hfresh j e heold)
    · rcases of_update he with ⟨rfl, rfl⟩ | ⟨-, heold⟩
      · exact absurd heq (hfresh i d hdold)
      · exact h.distinct i j d e hdold heold heq
  · intro fd' hfresh'
    refine h.rest fd' ?_
    intro i d hd
    refine hfresh' i d ?_
    have hi : i ≠ id := by
      intro hi
      rw [hi, hfree] at hd
      simp at hd
    simpa [hi] using hd

/-- A channel out of use leaves nothing behind. -/
theorem Booked.retire (h : Booked s) (hc : s.channels id = some c) (hi : c.index = .kNew) :
    Booked { s with channels := Function.update s.channels id none } := by
  have hold : ∀ i d, Function.update s.channels id none i = some d → s.channels i = some d := by
    intro i d hd
    by_cases hid : i = id
    · simp [hid] at hd
    · simpa [hid] using hd
  refine ⟨?_, ?_, ?_, ?_⟩
  · intro i d hd
    exact h.id i d (hold i d hd)
  · intro i d hd
    exact h.agrees i d (hold i d hd)
  · intro i j d e hd he
    exact h.distinct i j d e (hold i d hd) (hold j e he)
  · intro fd hfresh
    by_cases hfd : c.fd = fd
    · have hagrees := h.agrees id c hc
      simp only [Agrees, hi] at hagrees
      rw [← hfd]
      exact hagrees
    · refine h.rest fd ?_
      intro i d hd heq
      by_cases hid : i = id
      · rw [hid, hc, Option.some.injEq] at hd
        exact hfd (by rw [hd, heq])
      · refine hfresh i d ?_ heq
        simpa [hid] using hd

theorem Booked.step (h : Booked s) (hstep : lts.step s a s') : Booked s' := by
  obtain ⟨hen, hexec⟩ := hstep
  cases a with
  | create id fd =>
      simp only [exec, Except.ok.injEq] at hexec
      rw [← hexec]
      exact h.create hen
  | interest id call =>
      obtain ⟨c, hc⟩ := Option.isSome_iff_exists.mp hen
      obtain ⟨p, hok, hbooked⟩ := h.exec_interest hc call
      rw [hok, Except.ok.injEq] at hexec
      rw [← hexec]
      exact hbooked
  | remove id =>
      obtain ⟨c, hc⟩ := Option.isSome_iff_exists.mp hen
      obtain ⟨p, hok, hbooked⟩ := h.exec_remove hc
      rw [hok, Except.ok.injEq] at hexec
      rw [← hexec]
      exact hbooked
  | retire id =>
      obtain ⟨c, hc, hi⟩ := hen
      simp only [exec, Except.ok.injEq] at hexec
      rw [← hexec]
      exact h.retire hc hi

theorem booked_of_reachable (h : lts.Reachable s) : Booked s :=
  h.induct (fun _ h0 => booked_of_init h0) fun _ _ _ _ hb hstep => hb.step hstep

/-! ### The calls of `epoll_ctl` -/

/-- In a booked state `epoll_ctl` takes whatever call an action leads to. -/
theorem Booked.takes (h : Booked s) {fd : Fd} {op : EpollOp}
    (hctl : s.ctl a = some (fd, op)) : s.poller.Takes fd op := by
  cases a with
  | create id fd => simp [ctl] at hctl
  | retire id => simp [ctl] at hctl
  | interest id call =>
      obtain ⟨c, hc, heq⟩ := Option.map_eq_some_iff.mp hctl
      rw [Prod.mk.injEq] at heq
      rw [← heq.1, ← heq.2]
      exact EpollPoller.takes_updateOp (h.agrees id c hc)
  | remove id =>
      obtain ⟨c, hc, hop⟩ := Option.bind_eq_some_iff.mp hctl
      obtain ⟨o, ho, heq⟩ := Option.map_eq_some_iff.mp hop
      rw [Prod.mk.injEq] at heq
      rw [← heq.1, ← heq.2]
      exact EpollPoller.takes_removeOp (h.agrees id c hc) ho

/-- An action whose call is taken does not end in `LOG_FATAL`. -/
theorem exec_of_takes (h : ∀ fd op, s.ctl a = some (fd, op) → s.poller.Takes fd op) :
    ∃ s', s.exec a = .ok s' := by
  cases a with
  | create id fd => exact ⟨_, rfl⟩
  | retire id => exact ⟨_, rfl⟩
  | interest id call =>
      cases hc : s.channels id with
      | none => exact ⟨s, by simp only [exec, hc]⟩
      | some c =>
          have htakes := h c.fd _ (by rw [ctl, hc]; rfl)
          simp only [exec, hc, InterestCall.run_eq, Channel.setEvents,
            EpollPoller.updateChannel_eq]
          have hcall : ∀ q : EpollPoller, q.interest = s.poller.interest → ∃ q',
              q.update (EpollPoller.updateOp { c with events := call.events c.events })
                { c with events := call.events c.events } = .ok q' := by
            intro q hq
            refine EpollPoller.update_of_takes ?_
            exact EpollPoller.Takes.congr htakes (by rw [hq])
          obtain ⟨p, hp⟩ := hcall
            { s.poller with
              channels := if c.index = .kNew then
                Function.update s.poller.channels c.fd (some c.id) else s.poller.channels } rfl
          exact ⟨_, by rw [hp]; rfl⟩
  | remove id =>
      cases hc : s.channels id with
      | none => exact ⟨s, by simp only [exec, hc]⟩
      | some c =>
          simp only [exec, hc, Channel.remove, EpollPoller.removeChannel_eq]
          cases hop : EpollPoller.removeOp c with
          | none => exact ⟨_, rfl⟩
          | some op =>
              have htakes := h c.fd op (by rw [ctl, hc, Option.bind_some, hop]; rfl)
              have hcall : ∃ q, ({ s.poller with
                  channels := Function.update s.poller.channels c.fd none } :
                    EpollPoller).update op c = .ok q :=
                EpollPoller.update_of_takes (htakes.congr rfl)
              obtain ⟨p, hp⟩ := hcall
              exact ⟨_, by simp only [hp]; rfl⟩

/-- In every reachable state each channel in use agrees with the map and the kernel, the
map knows it exactly when its index is not `kNew`, and no action makes a call that
`epoll_ctl` refuses, so none aborts. -/
theorem bookkeeping (h : lts.Reachable s) :
    (∀ id c, s.channels id = some c → c.id = id ∧ Agrees s.poller c ∧
      (s.poller.hasChannel c = true ↔ c.index ≠ .kNew)) ∧
    ∀ a, s.Enabled a → (∀ fd op, s.ctl a = some (fd, op) → s.poller.Takes fd op) ∧
      ∃ s', s.exec a = .ok s' := by
  have hb := booked_of_reachable h
  refine ⟨?_, ?_⟩
  · intro id c hc
    have hagrees := hb.agrees id c hc
    exact ⟨hb.id id c hc, hagrees, EpollPoller.hasChannel_iff hagrees⟩
  · intro a _
    have htakes : ∀ fd op, s.ctl a = some (fd, op) → s.poller.Takes fd op :=
      fun _ _ hctl => hb.takes hctl
    exact ⟨htakes, exec_of_takes htakes⟩

/-- Descriptor 7 is watched for one channel, then taken over by another one, which has
been disabled and would be watched again. -/
theorem bookkeeping_reused : ∃ s c, lts.Reachable s ∧ s.channels 1 = some c ∧ c.fd = 7 ∧
    Agrees s.poller c ∧ s.poller.channels 7 = some 1 ∧ s.poller.interest 7 = none ∧
    s.ctl (.interest 1 .enableReading) = some (7, .add) ∧ s.poller.Takes 7 .add := by
  have h0 : lts.Reachable ⟨.empty, fun _ => none⟩ := Lts.Reachable.of_init ⟨rfl, rfl⟩
  have h1 := h0.step (a := Action.create 0 7) ⟨⟨rfl, by simp⟩, rfl⟩
  have h2 := h1.step (a := Action.interest 0 .enableReading) ⟨rfl, rfl⟩
  have h3 := h2.step (a := Action.remove 0) ⟨rfl, rfl⟩
  have h4 := h3.step (a := Action.retire 0) ⟨⟨_, rfl, rfl⟩, rfl⟩
  have h5 := h4.step (a := Action.create 1 7) ⟨⟨rfl, by simp [put]⟩, rfl⟩
  have h6 := h5.step (a := Action.interest 1 .enableWriting) ⟨rfl, rfl⟩
  have h7 := h6.step (a := Action.interest 1 .disableAll) ⟨rfl, rfl⟩
  have hk := bookkeeping h7
  exact ⟨_, _, h7, rfl, rfl, (hk.1 1 _ rfl).2.1, rfl, rfl, rfl,
    (hk.2 (.interest 1 .enableReading) rfl).1 7 .add rfl⟩

/-! ### What is watched -/

/-- The kernel watches exactly the agreeing channels whose index is `kAdded`. -/
theorem watched_iff {p : EpollPoller} (h : Agrees p c) :
    (p.interest c.fd).isSome = true ↔ c.index = .kAdded := by
  cases hi : c.index <;> simp only [Agrees, hi] at h <;> simp [h.2]

/-- The channel a change of interest is called on has been added before, or the call
leaves some interest. -/
def Watches (s : PollerSystem) : Action → Prop
  | .interest id call => ∀ c, s.channels id = some c → c.index = .kAdded ∨ ¬ call.Clears c.events
  | _ => True

/-- A channel the poller knows is added exactly when it has some interest. -/
def Interested (s : PollerSystem) : Prop :=
  ∀ id c, s.channels id = some c → c.index ≠ .kNew → (c.index = .kAdded ↔ c.events ≠ 0)

/-- The index a change of interest leaves tells whether there is interest, but for one
case: the channel was not added, and the call leaves none. -/
theorem withEvents_added_iff {events : Events} :
    ((c.withEvents events).index = .kAdded ↔ events ≠ 0) ↔ (c.index = .kAdded ∨ events ≠ 0) := by
  rw [Channel.withEvents_index]
  by_cases hi : c.index = .kAdded <;> by_cases h0 : events = 0 <;> simp [hi, h0]

theorem Interested.step (h : Interested s) (hb : Booked s) (hw : s.Watches a)
    (hstep : lts.step s a s') : Interested s' := by
  obtain ⟨hen, hexec⟩ := hstep
  intro i d hd hnew
  cases a with
  | create id fd =>
      simp only [exec, Except.ok.injEq] at hexec
      rw [← hexec] at hd
      rcases of_update hd with ⟨-, rfl⟩ | ⟨-, hold⟩
      · exact absurd rfl hnew
      · exact h i d hold hnew
  | retire id =>
      simp only [exec, Except.ok.injEq] at hexec
      rw [← hexec] at hd
      by_cases hi : i = id
      · simp [hi] at hd
      · exact h i d (by simpa [hi] using hd) hnew
  | interest id call =>
      obtain ⟨c, hc⟩ := Option.isSome_iff_exists.mp hen
      obtain ⟨p, hok, -⟩ := hb.exec_interest hc call
      rw [hok, Except.ok.injEq] at hexec
      rw [← hexec] at hd
      rcases of_update hd with ⟨-, rfl⟩ | ⟨-, hold⟩
      · refine withEvents_added_iff.mpr ?_
        rw [ne_eq, ← InterestCall.clears_iff]
        exact hw c hc
      · exact h i d hold hnew
  | remove id =>
      obtain ⟨c, hc⟩ := Option.isSome_iff_exists.mp hen
      obtain ⟨p, hok, -⟩ := hb.exec_remove hc
      rw [hok, Except.ok.injEq] at hexec
      rw [← hexec] at hd
      rcases of_update hd with ⟨-, rfl⟩ | ⟨-, hold⟩
      · exact absurd rfl hnew
      · exact h i d hold hnew

theorem interested_of_reachable {s : PollerSystem} (h : (lts.restrict Watches).Reachable s) :
    Interested s := by
  refine h.induct ?_ ?_
  · intro s₀ h0 id c hc
    simp [h0.2] at hc
  · intro m a m' hm hI hstep
    exact hI.step (booked_of_reachable hm.of_restrict) hstep.1 hstep.2

/-- In every reachable state, a change of interest leaves the descriptor watched exactly
when there is interest if and only if the channel was added before the call or the call
leaves some interest; and where every call of the run was such, every channel the poller
knows is watched exactly when there is interest. -/
theorem watched_iff_interested {s : PollerSystem} (h : lts.Reachable s) :
    (∀ id c call, s.channels id = some c →
      ∃ s' c', s.exec (.interest id call) = .ok s' ∧ s'.channels id = some c' ∧
        (((s'.poller.interest c'.fd).isSome = true ↔ c'.events ≠ 0) ↔
          (c.index = .kAdded ∨ ¬ call.Clears c.events))) ∧
    ((lts.restrict Watches).Reachable s → ∀ id c, s.channels id = some c →
      c.index ≠ .kNew → ((s.poller.interest c.fd).isSome = true ↔ c.events ≠ 0)) := by
  have hbooked := booked_of_reachable h
  refine ⟨?_, ?_⟩
  · intro id c call hc
    obtain ⟨p, hok, hb⟩ := hbooked.exec_interest hc call
    have hget : (s.put id (p, c.withEvents (call.events c.events))).channels id =
        some (c.withEvents (call.events c.events)) := by
      simp [PollerSystem.put]
    refine ⟨_, _, hok, hget, ?_⟩
    rw [watched_iff (hb.agrees id _ hget), InterestCall.clears_iff]
    exact withEvents_added_iff
  · intro hw id c hc hnew
    rw [watched_iff (hbooked.agrees id c hc)]
    exact interested_of_reachable hw id c hc hnew

/-- A listening `Acceptor`'s channel, disabled once: no call of the run meets the one bad
case, and the descriptor is not watched. -/
theorem watched_iff_interested_listening : ∃ s c, (lts.restrict Watches).Reachable s ∧
    s.channels 0 = some c ∧ c.index = .kDeleted ∧
    ((s.poller.interest 7).isSome = true ↔ c.events ≠ 0) := by
  have h0 : (lts.restrict Watches).Reachable ⟨.empty, fun _ => none⟩ :=
    Lts.Reachable.of_init ⟨rfl, rfl⟩
  have h1 := h0.step (a := Action.create 0 7) ⟨trivial, ⟨rfl, by simp⟩, rfl⟩
  have h2 := h1.step (a := Action.interest 0 .enableReading)
    ⟨fun _ _ => .inr id, rfl, rfl⟩
  have h3 := h2.step (a := Action.interest 0 .disableAll)
    ⟨fun c hc => .inl (by obtain rfl := Option.some.inj hc; rfl), rfl, rfl⟩
  exact ⟨_, _, h3, rfl, rfl,
    (watched_iff_interested h3.of_restrict).2 h3 0 _ rfl (by decide)⟩

/-- A channel that was never enabled, as an `Acceptor`'s is when it is destroyed without
`listen`: `disableAll` has its descriptor watched with no interest. -/
theorem watched_without_interest : ∃ s s' c', lts.Reachable s ∧
    s.channels 0 = some (Channel.new 0 7) ∧ s.exec (.interest 0 .disableAll) = .ok s' ∧
    s'.channels 0 = some c' ∧ ¬ ((s'.poller.interest c'.fd).isSome = true ↔ c'.events ≠ 0) := by
  have h0 : lts.Reachable ⟨.empty, fun _ => none⟩ := Lts.Reachable.of_init ⟨rfl, rfl⟩
  have h1 := h0.step (a := Action.create 0 7) ⟨⟨rfl, by simp⟩, rfl⟩
  exact ⟨_, _, _, h1, rfl, rfl, rfl, by decide⟩

end PollerSystem

end Muduo
