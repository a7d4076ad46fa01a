/-
What an update or a removal of one channel does to the poller.

`Agrees` ties the three records of a channel together: its own index, the poller's map
and the kernel's set.  Every update keeps it, so no `epoll_ctl` of an agreeing channel
fails, and what the kernel watches can be read off the index.
-/
import Muduo.Channel

namespace Muduo

namespace Channel

/-- The channel after an update to the mask `events`. -/
def withEvents (c : Channel) (events : Events) : Channel :=
  { c with
    events := events
    index := if c.index = .kAdded ∧ events = 0 then .kDeleted else .kAdded }

variable {c c' : Channel} {p p' : EpollPoller} {events : Events}

@[simp] theorem withEvents_events : (c.withEvents events).events = events := rfl

theorem withEvents_index : (c.withEvents events).index =
    if c.index = .kAdded ∧ events = 0 then .kDeleted else .kAdded := rfl

theorem withEvents_index_of_ne (h : events ≠ 0) : (c.withEvents events).index = .kAdded := by
  rw [withEvents_index, if_neg (fun hc => h hc.2)]

/-- The index, the map and the interest set say the same about the channel. -/
def Agrees (p : EpollPoller) (c : Channel) : Prop :=
  match c.index with
  | .kNew => p.channels c.fd = none ∧ p.interest c.fd = none
  | .kAdded => p.channels c.fd = some c.id ∧ p.interest c.fd = some (c.id, c.events)
  | .kDeleted => p.channels c.fd = some c.id ∧ p.interest c.fd = none

theorem Agrees.congr (h : Agrees p c) (hc : p'.channels c.fd = p.channels c.fd)
    (hi : p'.interest c.fd = p.interest c.fd) : Agrees p' c := by
  unfold Agrees at *
  rw [hc, hi]
  exact h

/-- An update that did not abort, with the channel it leaves. -/
theorem setEvents_eq_ok (h : c.setEvents events p = .ok (p', c')) :
    c' = c.withEvents events := by
  cases hi : c.index with
  | kNew | kDeleted =>
      simp only [setEvents, EpollPoller.updateChannel, hi] at h
      obtain ⟨q, -, hq⟩ := Except.bind_eq_ok.mp h
      rw [Except.pure_eq_ok, Prod.mk.injEq] at hq
      simp [← hq.2, withEvents, hi]
  | kAdded =>
      simp only [setEvents, EpollPoller.updateChannel, hi, isNoneEvent] at h
      split at h
      · rename_i hnone
        obtain ⟨q, -, hq⟩ := Except.bind_eq_ok.mp h
        rw [Except.pure_eq_ok, Prod.mk.injEq] at hq
        have h0 : events = 0 := by simpa [kNoneEvent] using hnone
        simp [← hq.2, withEvents, hi, h0]
      · rename_i hnone
        obtain ⟨q, -, hq⟩ := Except.bind_eq_ok.mp h
        rw [Except.pure_eq_ok, Prod.mk.injEq] at hq
        have h0 : events ≠ 0 := by simpa [kNoneEvent] using hnone
        rw [← hq.2, withEvents, if_neg (fun hc => h0 hc.2)]

/-- An update of an agreeing channel does not abort, and the channel agrees after it. -/
theorem Agrees.setEvents (h : Agrees p c) (events : Events) :
    ∃ p', c.setEvents events p = .ok (p', c.withEvents events) ∧
      Agrees p' (c.withEvents events) := by
  have key : ∃ p' c', c.setEvents events p = .ok (p', c') ∧ Agrees p' c' := by
    cases hi : c.index with
    | kNew =>
        simp only [Agrees, hi] at h
        simp only [Channel.setEvents, EpollPoller.updateChannel, hi, EpollPoller.update, h.2]
        exact ⟨_, _, rfl, by simp [Agrees]⟩
    | kDeleted =>
        simp only [Agrees, hi] at h
        simp only [Channel.setEvents, EpollPoller.updateChannel, hi, EpollPoller.update, h.2]
        exact ⟨_, _, rfl, by simp [Agrees, h.1]⟩
    | kAdded =>
        simp only [Agrees, hi] at h
        simp only [Channel.setEvents, EpollPoller.updateChannel, hi, EpollPoller.update, h.2]
        split
        · exact ⟨_, _, rfl, by simp [Agrees, h.1]⟩
        · exact ⟨_, _, rfl, by simp [Agrees, h.1]⟩
  obtain ⟨p', c', hset, hagree⟩ := key
  obtain rfl := setEvents_eq_ok hset
  exact ⟨p', hset, hagree⟩

/-- `epoll_ctl` on one descriptor concerns no other. -/
theorem update_frame {op : EpollOp} (h : p.update op c = .ok p') {fd : Fd} (hfd : fd ≠ c.fd) :
    p'.channels fd = p.channels fd ∧ p'.interest fd = p.interest fd := by
  cases op <;> simp only [EpollPoller.update] at h
  · split at h
    · simp at h
    · simp only [Except.ok.injEq] at h
      simp [← h, hfd]
  · split at h
    · simp only [Except.ok.injEq] at h
      simp [← h, hfd]
    · simp at h
  · simp only [Except.ok.injEq] at h
    simp [← h, hfd]

/-- An update of a channel concerns no other descriptor. -/
theorem setEvents_frame (h : c.setEvents events p = .ok (p', c')) {fd : Fd}
    (hfd : fd ≠ c.fd) : p'.channels fd = p.channels fd ∧ p'.interest fd = p.interest fd := by
  cases hi : c.index with
  | kNew =>
      simp only [setEvents, EpollPoller.updateChannel, hi] at h
      obtain ⟨q, hu, hq⟩ := Except.bind_eq_ok.mp h
      rw [Except.pure_eq_ok, Prod.mk.injEq] at hq
      obtain ⟨hc, hint⟩ := update_frame hu hfd
      rw [← hq.1, hc, hint]
      simp [hfd]
  | kDeleted =>
      simp only [setEvents, EpollPoller.updateChannel, hi] at h
      obtain ⟨q, hu, hq⟩ := Except.bind_eq_ok.mp h
      rw [Except.pure_eq_ok, Prod.mk.injEq] at hq
      rw [← hq.1]
      exact update_frame hu hfd
  | kAdded =>
      simp only [setEvents, EpollPoller.updateChannel, hi] at h
      split at h <;>
      · obtain ⟨q, hu, hq⟩ := Except.bind_eq_ok.mp h
        rw [Except.pure_eq_ok, Prod.mk.injEq] at hq
        rw [← hq.1]
        exact update_frame hu hfd

/-- Removal takes an agreeing channel out of the map and of the interest set. -/
theorem Agrees.remove (h : Agrees p c) :
    ∃ p', c.remove p = .ok (p', { c with index := .kNew }) ∧
      p'.channels c.fd = none ∧ p'.interest c.fd = none := by
  cases hi : c.index <;> simp only [Agrees, hi] at h <;>
    simp only [Channel.remove, EpollPoller.removeChannel, hi, EpollPoller.update, reduceCtorEq,
      if_true, if_false] <;>
    exact ⟨_, rfl, by simp, by simp [h]⟩

theorem remove_eq_ok (h : c.remove p = .ok (p', c')) :
    c' = { c with index := .kNew } := by
  simp only [remove, EpollPoller.removeChannel] at h
  split at h
  · obtain ⟨q, -, hq⟩ := Except.bind_eq_ok.mp h
    rw [Except.pure_eq_ok, Prod.mk.injEq] at hq
    exact hq.2.symm
  · rw [Except.pure_eq_ok, Prod.mk.injEq] at h
    exact h.2.symm

/-- A removal concerns no other descriptor. -/
theorem remove_frame (h : c.remove p = .ok (p', c')) {fd : Fd} (hfd : fd ≠ c.fd) :
    p'.channels fd = p.channels fd ∧ p'.interest fd = p.interest fd := by
  simp only [remove, EpollPoller.removeChannel] at h
  split at h
  · obtain ⟨q, hu, hq⟩ := Except.bind_eq_ok.mp h
    rw [Except.pure_eq_ok, Prod.mk.injEq] at hq
    obtain ⟨hc, hint⟩ := update_frame hu hfd
    rw [← hq.1, hc, hint]
    simp [hfd]
  · rw [Except.pure_eq_ok, Prod.mk.injEq] at h
    rw [← h.1]
    simp [hfd]

/-! ### The two interests -/

theorem kWriteEvent_ne_zero : kWriteEvent ≠ 0 := by decide
theorem kReadEvent_ne_zero : kReadEvent ≠ 0 := by decide

@[simp] theorem isWriting_or_write : Events.has (events ||| kWriteEvent) kWriteEvent = true :=
  has_or_self kWriteEvent_ne_zero

@[simp] theorem isWriting_andNot_write :
    Events.has (events &&& ~~~kWriteEvent) kWriteEvent = false :=
  has_andNot_self events kWriteEvent

@[simp] theorem isReading_or_write :
    Events.has (events ||| kWriteEvent) kReadEvent = Events.has events kReadEvent :=
  has_or_disjoint (by decide)

@[simp] theorem isReading_andNot_write :
    Events.has (events &&& ~~~kWriteEvent) kReadEvent = Events.has events kReadEvent :=
  has_andNot_disjoint (by decide)

theorem ne_zero_of_has {mask : Events} (h : Events.has events mask = true) : events ≠ 0 := by
  rintro rfl
  simp at h

end Channel

end Muduo
