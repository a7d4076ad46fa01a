/-
What `epoll_wait` reports is what the loop handles.

`fillActiveChannels` leaves the mask it was given in the channel itself, so a report is lost if
the pointer of its entry is stale, if two entries are to one channel, or if the channel is
gone or is another one by its turn.  The poller's bookkeeping says that a descriptor of the
interest set is that of a channel in use, whose pointer it has; different descriptors are then
different channels, and nothing between a poll and the turn of a channel changes its descriptor
or its mask.
-/
import Mathlib.Order.Interval.Set.Nat
import Mathlib.Data.Set.Card
import Muduo.PollLoop
import Muduo.Proofs.Poller

namespace Muduo

namespace PollerSystem

variable {s s' : PollerSystem} {a : Action} {id : ChannelId} {c : Channel}

/-- A descriptor of the interest set is that of a channel in use, and has its pointer. -/
theorem Booked.owner (h : Booked s) {fd : Fd} {e : ChannelId × Events}
    (he : s.poller.interest fd = some e) :
    ∃ c, s.channels e.1 = some c ∧ c.fd = fd ∧ c.index = .kAdded ∧ c.events = e.2 := by
  obtain ⟨i, c, hc, hfd⟩ : ∃ i c, s.channels i = some c ∧ c.fd = fd := by
    by_contra hnone
    have hrest := (h.rest fd fun i c hc hfd => hnone ⟨i, c, hc, hfd⟩).2
    rw [he] at hrest
    simp at hrest
  have hagrees := h.agrees i c hc
  have hid := h.id i c hc
  rw [← hfd] at he
  cases hi : c.index with
  | kAdded =>
      simp only [Channel.Agrees, hi] at hagrees
      obtain rfl : (c.id, c.events) = e := Option.some.inj (hagrees.2.symm.trans he)
      exact ⟨c, by rw [hid]; exact hc, hfd, hi, rfl⟩
  | kNew | kDeleted =>
      simp only [Channel.Agrees, hi] at hagrees
      rw [hagrees.2] at he
      simp at he

/-- A call leaves a channel in use with its descriptor and its `m_revents`, unless it is the end
of that channel. -/
theorem Booked.kept (h : Booked s) (hstep : lts.step s a s') (hc : s.channels id = some c)
    (ha : a ≠ .retire id) :
    ∃ c', s'.channels id = some c' ∧ c'.fd = c.fd ∧ c'.revents = c.revents := by
  obtain ⟨hen, hexec⟩ := hstep
  -- a channel put in the place of one that only differs in its interest and its index
  have hput : ∀ {i : ChannelId} {p : EpollPoller} {d d' : Channel}, s.channels i = some d →
      d'.fd = d.fd → d'.revents = d.revents →
      ∃ c', (s.put i (p, d')).channels id = some c' ∧ c'.fd = c.fd ∧ c'.revents = c.revents := by
    intro i p d d' hd hfd hrevents
    by_cases hi : id = i
    · subst hi
      obtain rfl : c = d := Option.some.inj (hc.symm.trans hd)
      exact ⟨d', by simp [PollerSystem.put], hfd, hrevents⟩
    · exact ⟨c, by simpa [PollerSystem.put, hi] using hc, rfl, rfl⟩
  cases a with
  | create i fd =>
      simp only [exec, Except.ok.injEq] at hexec
      have hne : id ≠ i := by
        rintro rfl
        rw [hen.1] at hc
        simp at hc
      exact ⟨c, by rw [← hexec]; simpa [hne] using hc, rfl, rfl⟩
  | interest i call =>
      obtain ⟨d, hd⟩ := Option.isSome_iff_exists.mp hen
      obtain ⟨p, hok, -⟩ := h.exec_interest hd call
      rw [hok, Except.ok.injEq] at hexec
      rw [← hexec]
      exact hput hd rfl rfl
  | remove i =>
      obtain ⟨d, hd⟩ := Option.isSome_iff_exists.mp hen
      obtain ⟨p, hok, -⟩ := h.exec_remove hd
      rw [hok, Except.ok.injEq] at hexec
      rw [← hexec]
      exact hput hd rfl rfl
  | retire i =>
      simp only [exec, Except.ok.injEq] at hexec
      have hne : id ≠ i := by
        rintro rfl
        exact ha rfl
      exact ⟨c, by rw [← hexec]; simpa [hne] using hc, rfl, rfl⟩

/-- The channels in use are those of the descriptors below `n`, and all of them are enabled. -/
structure Watching (n : Nat) (s : PollerSystem) : Prop where
  used : ∀ id < n, ∃ c, s.channels id = some c ∧ c.fd = id ∧ c.index = .kAdded
  free : ∀ id, n ≤ id → s.channels id = none

namespace Watching

variable {n : Nat}

theorem interest (h : Watching n s) (hb : Booked s) {fd : Fd} (hfd : fd < n) :
    (s.poller.interest fd).isSome = true := by
  obtain ⟨c, hc, hcfd, hindex⟩ := h.used fd hfd
  have hagrees := hb.agrees fd c hc
  simp only [Channel.Agrees, hindex, hcfd] at hagrees
  rw [hagrees.2]
  rfl

/-- One channel more is constructed, and enabled. -/
theorem next (h : Watching n s) (hb : Booked s) : ∃ m s', lts.step s (.create n n) m ∧
    (∀ id, n + 1 ≤ id → m.channels id = none) ∧
      lts.step m (.interest n .enableReading) s' ∧ Watching (n + 1) s' := by
  have hfresh : ∀ i c, s.channels i = some c → c.fd ≠ n := by
    intro i c hc hfd
    have hi : i < n := by
      by_contra hle
      rw [h.free i (Nat.le_of_not_lt hle)] at hc
      simp at hc
    obtain ⟨d, hd, hdfd, -⟩ := h.used i hi
    obtain rfl : c = d := Option.some.inj (hc.symm.trans hd)
    exact Nat.lt_irrefl n (by rwa [← hdfd, hfd] at hi)
  have hen : s.Enabled (.create n n) := ⟨h.free n le_rfl, hfresh⟩
  have hself : Function.update s.channels n (some (Channel.new n n)) n =
      some (Channel.new n n) := Function.update_self ..
  obtain ⟨p, hp, -⟩ := (hb.create hen).exec_interest hself .enableReading
  refine ⟨_, _, ⟨hen, rfl⟩, ?_, ⟨Option.isSome_of_eq_some hself, hp⟩, ?_, ?_⟩
  · intro id hid
    have hn : id ≠ n := by omega
    simpa [hn] using h.free id (by omega)
  · intro id hid
    by_cases hn : id = n
    · subst hn
      exact ⟨_, Function.update_self .., rfl,
        Channel.withEvents_index_of_ne (Channel.or_ne_zero (by decide))⟩
    · obtain ⟨c, hc, hrest⟩ := h.used id (by omega)
      exact ⟨c, by simpa [PollerSystem.put, hn] using hc, hrest⟩
  · intro id hid
    have hn : id ≠ n := by omega
    simpa [PollerSystem.put, hn] using h.free id (by omega)

end Watching

end PollerSystem

/-- The value of an `int` made of a count is not above the count. -/
theorem toInt_le (n : Nat) : toInt n ≤ n := by
  unfold toInt
  grind

namespace PollLoop

variable {s s' : PollLoop} {a : Action} {id : ChannelId} {c : Channel} {evs : List EpollEvent}
  {reports : List (Fd × Events)}

/-! ### Filling `m_activeChannels` -/

/-- The channels with the masks of some entries put into them. -/
def marked (channels : ChannelId → Option Channel) (evs : List EpollEvent) :
    ChannelId → Option Channel :=
  evs.foldl (fun channels ev =>
    match channels ev.ptr with
    | some c => Function.update channels ev.ptr (some { c with revents := ev.events })
    | none => channels) channels

theorem marked_append {channels : ChannelId → Option Channel} (ev : EpollEvent) :
    marked channels (evs ++ [ev]) = match marked channels evs ev.ptr with
      | some c =>
          Function.update (marked channels evs) ev.ptr (some { c with revents := ev.events })
      | none => marked channels evs := by
  simp [marked]

/-- A channel without an entry is as it was. -/
theorem marked_of_notMem {channels : ChannelId → Option Channel}
    (h : id ∉ evs.map EpollEvent.ptr) : marked channels evs id = channels id := by
  induction evs using List.reverseRecOn with
  | nil => rfl
  | append_singleton evs ev ih =>
      simp only [List.map_append, List.map_cons, List.map_nil, List.mem_append,
        List.mem_singleton, not_or] at h
      rw [marked_append]
      split
      · rw [Function.update_of_ne h.2]
        exact ih h.1
      · exact ih h.1

/-- The channels in use stay in use. -/
theorem marked_isSome {channels : ChannelId → Option Channel} :
    (marked channels evs id).isSome = (channels id).isSome := by
  induction evs using List.reverseRecOn with
  | nil => rfl
  | append_singleton evs ev ih =>
      rw [marked_append]
      split
      · rename_i c hc
        by_cases hi : id = ev.ptr
        · subst hi
          rw [← ih, hc, Function.update_self]
          rfl
        · rw [Function.update_of_ne hi]
          exact ih
      · exact ih

/-- A channel with one entry has the mask of that entry, and nothing else of it has changed. -/
theorem marked_of_mem {channels : ChannelId → Option Channel} {ev : EpollEvent}
    (hnodup : (evs.map EpollEvent.ptr).Nodup) (hev : ev ∈ evs)
    (hc : channels ev.ptr = some c) :
    marked channels evs ev.ptr = some { c with revents := ev.events } := by
  induction evs using List.reverseRecOn with
  | nil => simp at hev
  | append_singleton evs e ih =>
      rw [List.map_append, List.nodup_append] at hnodup
      obtain ⟨hnodup, -, hdisjoint⟩ := hnodup
      rw [marked_append]
      rcases List.mem_append.mp hev with hev | hev
      · have hne : ev.ptr ≠ e.ptr :=
          hdisjoint ev.ptr (List.mem_map_of_mem hev) e.ptr (by simp)
        split
        · rw [Function.update_of_ne hne]
          exact ih hnodup hev
        · exact ih hnodup hev
      · obtain rfl := List.mem_singleton.mp hev
        have hnot : ev.ptr ∉ evs.map EpollEvent.ptr := fun hmem =>
          hdisjoint ev.ptr hmem ev.ptr (by simp) rfl
        rw [marked_of_notMem hnot, hc]
        simp

/-- `fillActiveChannels` on entries whose pointers are good. -/
theorem fillActiveChannels_eq {n : Nat} (hn : n ≤ s.events.length)
    (hgood : ∀ ev ∈ s.events.take n, (s.system.channels ev.ptr).isSome = true) :
    s.fillActiveChannels n = .ok { s with
      system := { s.system with channels := marked s.system.channels (s.events.take n) }
      activeChannels := s.activeChannels ++ (s.events.take n).map EpollEvent.ptr } := by
  unfold fillActiveChannels
  induction n with
  | zero => simp [marked, pure, Except.pure]
  | succ n ih =>
      have hlt : n < s.events.length := hn
      have htake : s.events.take (n + 1) = s.events.take n ++ [s.events[n]] :=
        (List.take_append_getElem hlt).symm
      have hlast := hgood s.events[n] (by
        rw [htake]
        exact List.mem_append_right _ (List.mem_singleton.mpr rfl))
      have hbefore := ih (by omega) fun ev hev => hgood ev (by
        rw [htake]
        exact List.mem_append_left _ hev)
      rw [List.range_succ, List.foldlM_append, hbefore]
      obtain ⟨c, hc⟩ : ∃ c, marked s.system.channels (s.events.take n) s.events[n].ptr = some c :=
        Option.isSome_iff_exists.mp (marked_isSome.trans hlast)
      rw [htake, marked_append, hc, List.map_append, ← List.append_assoc]
      simp [fillOne, hlt, hc, pure, Except.pure, bind, Except.bind]

/-! ### One poll -/

/-- The entries for some reports. -/
def entries (s : PollLoop) (reports : List (Fd × Events)) : List EpollEvent :=
  reports.filterMap fun r => (s.system.poller.interest r.1).map fun e => ⟨r.2, e.1⟩

/-- The descriptor and the `m_revents` of a channel. -/
def seen (channels : ChannelId → Option Channel) (id : ChannelId) : Fd × Events :=
  match channels id with
  | some c => (c.fd, c.revents)
  | none => (0, 0)

/-- The descriptor of the channel an entry is to, and the mask of the entry. -/
def aimed (channels : ChannelId → Option Channel) (ev : EpollEvent) : Fd × Events :=
  ((seen channels ev.ptr).1, ev.events)

/-- For each report on a descriptor of the interest set there is an entry, and it is to the
channel of that descriptor. -/
theorem entries_aimed (hb : PollerSystem.Booked s.system)
    (hall : ∀ r ∈ reports, (s.system.poller.interest r.1).isSome = true) :
    (s.entries reports).map (aimed s.system.channels) = reports ∧
      ∀ ev ∈ s.entries reports, ∃ c, s.system.channels ev.ptr = some c ∧ c.index = .kAdded := by
  induction reports with
  | nil => exact ⟨rfl, by simp [entries]⟩
  | cons r reports ih =>
      obtain ⟨hmap, hgood⟩ := ih fun r hr => hall r (List.mem_cons_of_mem _ hr)
      obtain ⟨e, he⟩ := Option.isSome_iff_exists.mp (hall r List.mem_cons_self)
      obtain ⟨c, hc, hfd, hindex, -⟩ := hb.owner he
      have hcons : s.entries (r :: reports) = ⟨r.2, e.1⟩ :: s.entries reports := by
        simp [entries, he]
      rw [hcons]
      constructor
      · rw [List.map_cons, hmap]
        simp [aimed, seen, hc, hfd]
      · intro ev hev
        rcases List.mem_cons.mp hev with rfl | hev
        · exact ⟨c, hc, hindex⟩
        · exact hgood ev hev

/-- Different descriptors are different channels. -/
theorem nodup_entries (hb : PollerSystem.Booked s.system)
    (hall : ∀ r ∈ reports, (s.system.poller.interest r.1).isSome = true)
    (hnodup : (reports.map Prod.fst).Nodup) :
    ((s.entries reports).map EpollEvent.ptr).Nodup := by
  have hfds : ((s.entries reports).map EpollEvent.ptr).map
      (fun id => (seen s.system.channels id).1) = reports.map Prod.fst := by
    have haimed := congrArg (List.map Prod.fst) (entries_aimed hb hall).1
    rw [List.map_map] at haimed ⊢
    exact haimed
  rw [← hfds] at hnodup
  exact hnodup.of_map _

/-- After the masks have been put in, each channel with an entry shows what was reported. -/
theorem seen_marked (hnodup : (evs.map EpollEvent.ptr).Nodup)
    (hgood : ∀ ev ∈ evs, ∃ c, s.system.channels ev.ptr = some c ∧ c.index = .kAdded) :
    (evs.map EpollEvent.ptr).map (seen (marked s.system.channels evs)) =
      evs.map (aimed s.system.channels) := by
  rw [List.map_map]
  apply List.map_congr_left
  intro ev hev
  obtain ⟨c, hc, -⟩ := hgood ev hev
  simp only [Function.comp_apply, aimed, seen, marked_of_mem hnodup hev hc, hc]

/-- What a poll that reports something does. -/
theorem poll_eq (hb : PollerSystem.Booked s.system) (hr : s.Reports (.events reports)) :
    s.poll (.events reports) = .ok { s with
      system := { s.system with channels := marked s.system.channels (s.entries reports) }
      events := (({ s with events := s.written reports } : PollLoop).grow reports.length).events
      activeChannels := (s.entries reports).map EpollEvent.ptr
      reported := s.reported ++ reports } := by
  obtain ⟨-, hcount, hnodup, hall⟩ := hr
  obtain ⟨haimed, hgood⟩ := entries_aimed hb hall
  have hlength : (s.entries reports).length = reports.length := by
    rw [← congrArg List.length haimed, List.length_map]
  have htake : (s.written reports).take reports.length = s.entries reports := by
    show (s.entries reports ++ _).take reports.length = _
    rw [← hlength, List.take_left]
  have hfill := fillActiveChannels_eq (n := reports.length)
    (s := { s with activeChannels := [], events := s.written reports })
    (by
      show reports.length ≤ (s.entries reports ++ _).length
      rw [List.length_append, hlength]
      exact Nat.le_add_right _ _)
    (by
      intro ev hev
      rw [htake] at hev
      obtain ⟨c, hc, -⟩ := hgood ev hev
      rw [hc]
      rfl)
  simp only [poll, hfill, htake, bind, Except.bind, pure, Except.pure, List.nil_append, grow]
  split <;> rfl

/-! ### Whole runs -/

/-- Only the mask of a channel is written. -/
theorem marked_same {channels : ChannelId → Option Channel} {d : Channel}
    (h : marked channels evs id = some d) :
    ∃ c, channels id = some c ∧ d = { c with revents := d.revents } := by
  induction evs using List.reverseRecOn generalizing d with
  | nil => exact ⟨d, h, rfl⟩
  | append_singleton evs ev ih =>
      rw [marked_append] at h
      split at h
      · rename_i c hc
        by_cases hi : id = ev.ptr
        · subst hi
          rw [Function.update_self, Option.some.injEq] at h
          obtain ⟨e, he, hsame⟩ := ih hc
          exact ⟨e, he, by rw [← h, hsame]⟩
        · rw [Function.update_of_ne hi] at h
          exact ih h
      · exact ih h

theorem booked_marked (hb : PollerSystem.Booked s.system) :
    PollerSystem.Booked { s.system with channels := marked s.system.channels evs } := by
  refine ⟨?_, ?_, ?_, ?_⟩
  · intro i d hd
    obtain ⟨c, hc, hsame⟩ := marked_same hd
    rw [hsame]
    exact hb.id i c hc
  · intro i d hd
    obtain ⟨c, hc, hsame⟩ := marked_same hd
    rw [hsame]
    exact hb.agrees i c hc
  · intro i j d e hd he heq
    obtain ⟨c, hc, hsame⟩ := marked_same hd
    obtain ⟨c', hc', hsame'⟩ := marked_same he
    rw [hsame, hsame'] at heq
    exact hb.distinct i j c c' hc hc' heq
  · intro fd hfresh
    refine hb.rest fd ?_
    intro i c hc hfd
    obtain ⟨d, hd⟩ : ∃ d, marked s.system.channels evs i = some d :=
      Option.isSome_iff_exists.mp (marked_isSome.trans (Option.isSome_iff_exists.mpr ⟨c, hc⟩))
    obtain ⟨c', hc', hsame⟩ := marked_same hd
    obtain rfl : c = c' := Option.some.inj (hc.symm.trans hc')
    refine hfresh i d hd ?_
    rw [hsame]
    exact hfd

/-- The channels still to be handled are in use, and show what is left of the reports. -/
structure Kept (s : PollLoop) : Prop where
  booked : PollerSystem.Booked s.system
  inUse : ∀ id ∈ s.activeChannels, (s.system.channels id).isSome = true
  exact : s.handled ++ s.activeChannels.map (seen s.system.channels) = s.reported

namespace Kept

theorem poll (h : Kept s) {r : PollResult} (hactive : s.activeChannels = [])
    (hr : s.Reports r) : ∃ s', s.poll r = .ok s' ∧ Kept s' := by
  have hexact := h.exact
  rw [hactive, List.map_nil, List.append_nil] at hexact
  cases r with
  | events reports =>
      obtain ⟨-, -, hnodup, hall⟩ := id hr
      obtain ⟨haimed, hgood⟩ := entries_aimed h.booked hall
      refine ⟨_, poll_eq h.booked hr, booked_marked h.booked, ?_, ?_⟩
      · intro id hid
        obtain ⟨ev, hev, rfl⟩ := List.mem_map.mp hid
        obtain ⟨c, hc, -⟩ := hgood ev hev
        refine marked_isSome.trans ?_
        rw [hc]
        rfl
      · show s.handled ++ ((s.entries reports).map EpollEvent.ptr).map
          (seen (marked s.system.channels (s.entries reports))) = s.reported ++ reports
        rw [seen_marked (nodup_entries h.booked hall hnodup) hgood, haimed, hexact]
  | timeout | failed =>
      refine ⟨_, rfl, h.booked, by simp, ?_⟩
      show s.handled ++ [] = s.reported
      rw [List.append_nil]
      exact hexact

theorem handleEvent (h : Kept s) (hactive : s.activeChannels ≠ []) :
    ∃ s', s.handleEvent = .ok s' ∧ Kept s' := by
  obtain ⟨id, rest, hcons⟩ := List.exists_cons_of_ne_nil hactive
  obtain ⟨c, hc⟩ := Option.isSome_iff_exists.mp (h.inUse id (by rw [hcons]; simp))
  have hstep : s.handleEvent = .ok { s with
      activeChannels := rest
      handled := s.handled ++ [(c.fd, c.revents)] } := by
    simp only [PollLoop.handleEvent, hcons, hc]
  refine ⟨_, hstep, h.booked, ?_, ?_⟩
  · intro i hi
    exact h.inUse i (by rw [hcons]; exact List.mem_cons_of_mem _ hi)
  · have hexact := h.exact
    rw [hcons, List.map_cons] at hexact
    have hseen : seen s.system.channels id = (c.fd, c.revents) := by
      simp only [seen, hc]
    rw [hseen] at hexact
    show (s.handled ++ [(c.fd, c.revents)]) ++ rest.map (seen s.system.channels) = s.reported
    rw [List.append_assoc]
    exact hexact

theorem channel (h : Kept s) {a : PollerSystem.Action} {system : PollerSystem}
    (hstep : PollerSystem.lts.step s.system a system)
    (hactive : ∀ id ∈ s.activeChannels, a ≠ .retire id) :
    Kept { s with system := system } := by
  have hkept : ∀ id ∈ s.activeChannels, ∃ c', system.channels id = some c' ∧
      seen system.channels id = seen s.system.channels id := by
    intro id hid
    obtain ⟨c, hc⟩ := Option.isSome_iff_exists.mp (h.inUse id hid)
    obtain ⟨c', hc', hfd, hrevents⟩ := h.booked.kept hstep hc (hactive id hid)
    exact ⟨c', hc', by simp only [seen, hc, hc', hfd, hrevents]⟩
  refine ⟨h.booked.step hstep, ?_, ?_⟩
  · intro id hid
    obtain ⟨c', hc', -⟩ := hkept id hid
    show (system.channels id).isSome = true
    rw [hc']
    rfl
  · show s.handled ++ s.activeChannels.map (seen system.channels) = s.reported
    rw [← h.exact]
    congr 1
    apply List.map_congr_left
    intro id hid
    obtain ⟨-, -, hsame⟩ := hkept id hid
    exact hsame

/-- No enabled action ends in a fault, and each keeps what is kept. -/
theorem exec (h : Kept s) (hen : s.Enabled a) : ∃ s', s.exec a = .ok s' ∧ Kept s' := by
  cases a with
  | poll r => exact h.poll hen.1 hen.2
  | handleEvent => exact h.handleEvent hen
  | channel a =>
      have htakes : ∀ fd op, s.system.ctl a = some (fd, op) → s.system.poller.Takes fd op :=
        fun _ _ hctl => h.booked.takes hctl
      obtain ⟨system, hsystem⟩ := PollerSystem.exec_of_takes htakes
      refine ⟨{ s with system := system }, ?_, h.channel ⟨hen.1, hsystem⟩ hen.2⟩
      simp only [PollLoop.exec, hsystem, Except.map]

end Kept

theorem kept_of_reachable (h : lts.Reachable s) : Kept s := by
  refine h.induct ?_ ?_
  · rintro s₀ rfl
    exact ⟨PollerSystem.booked_of_init ⟨rfl, rfl⟩, by simp [new], rfl⟩
  · rintro m a m' - hm ⟨hen, hexec⟩
    obtain ⟨m'', hok, hkept⟩ := hm.exec hen
    rw [hok, Except.ok.injEq] at hexec
    rw [← hexec]
    exact hkept

/-- Whatever the callbacks and the functors do to the channels of a loop, its `handleEvent` calls
are the reports of `epoll_wait`, in their order, each on the channel of the descriptor that was
reported and with the mask that was reported; those still to come are what
`m_activeChannels` is left with.  No poll and no call follows a pointer to a channel that is
gone, or makes a call that `epoll_ctl` refuses. -/
theorem handled_exactly (h : lts.Reachable s) :
    s.handled ++ s.activeChannels.map (seen s.system.channels) = s.reported ∧
      ∀ a, s.Enabled a → ∃ s', s.exec a = .ok s' := by
  have hkept := kept_of_reachable h
  refine ⟨hkept.exact, ?_⟩
  intro a hen
  obtain ⟨s', hok, -⟩ := hkept.exec hen
  exact ⟨s', hok⟩

/-- Two channels are reported, and the callback of the first to be handled disables the other:
its turn comes all the same. -/
theorem handled_exactly_disabled : ∃ s : PollLoop, s.activeChannels = [] ∧
    s.reported = [(8, EPOLLIN), (7, EPOLLIN)] ∧ s.handled = s.reported := by
  have h0 : lts.Reachable new := Lts.Reachable.of_init rfl
  have h1 := h0.step (a := Action.channel (.create 0 7))
    ⟨⟨⟨rfl, by simp [new]⟩, by rintro _ _ ⟨⟩⟩, rfl⟩
  have h2 := h1.step (a := Action.channel (.interest 0 .enableReading))
    ⟨⟨rfl, by rintro _ _ ⟨⟩⟩, rfl⟩
  have h3 := h2.step (a := Action.channel (.create 1 8))
    ⟨⟨⟨rfl, by
      intro i c hc
      by_cases hi : i = 0
      · subst hi
        obtain rfl := Option.some.inj hc
        decide
      · simp [new, PollerSystem.put, hi] at hc⟩, by rintro _ _ ⟨⟩⟩, rfl⟩
  have h4 := h3.step (a := Action.channel (.interest 1 .enableReading))
    ⟨⟨rfl, by rintro _ _ ⟨⟩⟩, rfl⟩
  have h5 := h4.step (a := Action.poll (.events [(8, EPOLLIN), (7, EPOLLIN)]))
    ⟨⟨rfl, by simp, by decide, by decide, by
      intro r hr
      rcases List.mem_pair.mp hr with rfl | rfl <;> rfl⟩, rfl⟩
  have h6 := h5.step (a := Action.handleEvent) ⟨List.cons_ne_nil _ _, rfl⟩
  have h7 := h6.step (a := Action.channel (.interest 0 .disableAll))
    ⟨⟨rfl, by rintro _ _ ⟨⟩⟩, rfl⟩
  have h8 := h7.step (a := Action.handleEvent) ⟨List.cons_ne_nil _ _, rfl⟩
  refine ⟨_, ?_, ?_, (List.append_nil _).symm.trans (handled_exactly h8).1⟩
  · rfl
  · rfl

/-! ### The size of `m_events` -/

def inUse (s : PollLoop) : Set ChannelId :=
  {id | (s.system.channels id).isSome = true}

/-- How many channels are in use. -/
noncomputable def count (s : PollLoop) : Nat :=
  s.inUse.ncard

/-- A call on a channel takes no other into use. -/
theorem inUse_step {a : PollerSystem.Action} {system : PollerSystem}
    (hb : PollerSystem.Booked s.system) (hstep : PollerSystem.lts.step s.system a system) :
    ∃ i, ({ s with system := system } : PollLoop).inUse ⊆ insert i s.inUse := by
  obtain ⟨hen, hexec⟩ := hstep
  have hupdate : ∀ (i : ChannelId) (c : Option Channel),
      {id | (Function.update s.system.channels i c id).isSome = true} ⊆ insert i s.inUse := by
    intro i c id hid
    by_cases hi : id = i
    · exact Set.mem_insert_iff.mpr (Or.inl hi)
    · refine Set.mem_insert_iff.mpr (Or.inr ?_)
      rw [Set.mem_ofPred_eq, Function.update_of_ne hi] at hid
      exact hid
  cases a with
  | create i fd | retire i =>
      simp only [PollerSystem.exec, Except.ok.injEq] at hexec
      rw [← hexec]
      exact ⟨i, hupdate i _⟩
  | interest i call =>
      obtain ⟨c, hc⟩ := Option.isSome_iff_exists.mp hen
      obtain ⟨p, hok, -⟩ := hb.exec_interest hc call
      rw [hok, Except.ok.injEq] at hexec
      rw [← hexec]
      exact ⟨i, hupdate i _⟩
  | remove i =>
      obtain ⟨c, hc⟩ := Option.isSome_iff_exists.mp hen
      obtain ⟨p, hok, -⟩ := hb.exec_remove hc
      rw [hok, Except.ok.injEq] at hexec
      rw [← hexec]
      exact ⟨i, hupdate i _⟩

/-- There are at most as many reports as channels in use. -/
theorem length_le_count (hb : PollerSystem.Booked s.system) (hfinite : s.inUse.Finite)
    (hr : s.Reports (.events reports)) : reports.length ≤ s.count := by
  obtain ⟨-, -, hnodup, hall⟩ := hr
  obtain ⟨haimed, hgood⟩ := entries_aimed hb hall
  have hptrs := nodup_entries hb hall hnodup
  have hlength : ((s.entries reports).map EpollEvent.ptr).length = reports.length := by
    rw [List.length_map, ← congrArg List.length haimed, List.length_map]
  have hsub : ∀ id ∈ (s.entries reports).map EpollEvent.ptr, id ∈ s.inUse := by
    intro id hid
    obtain ⟨ev, hev, rfl⟩ := List.mem_map.mp hid
    obtain ⟨c, hc, -⟩ := hgood ev hev
    show (s.system.channels ev.ptr).isSome = true
    rw [hc]
    rfl
  calc reports.length
      = ((s.entries reports).map EpollEvent.ptr).toFinset.card := by
        rw [List.toFinset_card_of_nodup hptrs, hlength]
    _ = (((s.entries reports).map EpollEvent.ptr).toFinset : Set ChannelId).ncard :=
        (Set.ncard_coe_finset _).symm
    _ ≤ s.count := by
        refine Set.ncard_le_ncard ?_ hfinite
        intro id hid
        exact hsub id (List.mem_toFinset.mp hid)

/-- The array after a poll. -/
theorem length_poll (hb : PollerSystem.Booked s.system) (hr : s.Reports (.events reports)) :
    (({ s with events := s.written reports } : PollLoop).grow reports.length).events.length =
      if reports.length = s.events.length then 2 * s.events.length else s.events.length := by
  obtain ⟨-, hcount, -, hall⟩ := hr
  have hle : reports.length ≤ s.events.length := by
    have hcast := toInt_le s.events.length
    unfold maxevents at hcount
    omega
  have hlength : (s.written reports).length = s.events.length := by
    have hentries := congrArg List.length (entries_aimed hb hall).1
    rw [List.length_map] at hentries
    show (s.entries reports ++ s.events.drop reports.length).length = _
    rw [List.length_append, List.length_drop, hentries]
    omega
  unfold grow
  by_cases hfull : reports.length = s.events.length
  · rw [if_pos (hfull.trans hlength.symm), if_pos hfull]
    show (s.written reports ++ List.replicate (s.written reports).length EpollEvent.zero).length = _
    rw [List.length_append, List.length_replicate, hlength]
    omega
  · rw [if_neg (fun h => hfull (h.trans hlength)), if_neg hfull]
    exact hlength

/-- A step takes at most one channel into use, and only a poll that fills the array changes its
size. -/
theorem step_sizes (hk : Kept s) (hstep : lts.step s a s') :
    (∃ reports, s.Reports (.events reports) ∧ s'.inUse = s.inUse ∧ s'.events.length =
        if reports.length = s.events.length then 2 * s.events.length else s.events.length) ∨
      s'.events.length = s.events.length ∧ ∃ i, s'.inUse ⊆ insert i s.inUse := by
  obtain ⟨hen, hexec⟩ := hstep
  cases a with
  | poll r =>
      cases r with
      | events reports =>
          rw [exec, poll_eq hk.booked hen.2, Except.ok.injEq] at hexec
          rw [← hexec]
          refine Or.inl ⟨reports, hen.2, ?_, length_poll hk.booked hen.2⟩
          ext id
          show (marked s.system.channels (s.entries reports) id).isSome = true ↔ _
          rw [marked_isSome]
          rfl
      | timeout | failed =>
          simp only [exec, poll, Except.ok.injEq] at hexec
          rw [← hexec]
          exact Or.inr ⟨rfl, 0, Set.subset_insert _ _⟩
  | handleEvent =>
      obtain ⟨id, rest, hcons⟩ := List.exists_cons_of_ne_nil hen
      simp only [exec, handleEvent, hcons] at hexec
      split at hexec
      · rw [Except.ok.injEq] at hexec
        rw [← hexec]
        exact Or.inr ⟨rfl, 0, Set.subset_insert _ _⟩
      · simp at hexec
  | channel a =>
      simp only [exec] at hexec
      cases hok : s.system.exec a with
      | error e => simp [hok, Except.map] at hexec
      | ok system =>
          simp only [hok, Except.map, Except.ok.injEq] at hexec
          rw [← hexec]
          exact Or.inr ⟨rfl, inUse_step hk.booked ⟨hen.1, hok⟩⟩

theorem finite_of_reachable (h : lts.Reachable s) : s.inUse.Finite := by
  refine h.induct (P := fun s => s.inUse.Finite) ?_ ?_
  · rintro s₀ rfl
    simp [inUse, new]
  · intro m a m' hm hfinite hstep
    rcases step_sizes (kept_of_reachable hm) hstep with ⟨-, -, hsame, -⟩ | ⟨-, i, hsub⟩
    · rw [hsame]
      exact hfinite
    · exact (hfinite.insert i).subset hsub

/-- The array never shrinks. -/
theorem length_of_reachable (h : lts.Reachable s) : kInitEventListSize ≤ s.events.length := by
  refine h.induct (P := fun s => kInitEventListSize ≤ s.events.length) ?_ ?_
  · rintro s₀ rfl
    simp [new]
  · intro m a m' hm hle hstep
    rcases step_sizes (kept_of_reachable hm) hstep with ⟨reports, -, -, hlength⟩ | ⟨hlength, -⟩
    · rw [hlength]
      split <;> omega
    · rw [hlength]
      exact hle

/-- With at most `m` channels in use at a time `m_events` never has more than 16 entries or twice
`m`, whichever is more.  So with less than 2^30 of them `epoll_wait` is given the size of the
array as it is, and above 0 as it must be. -/
theorem events_bounded {p : PollLoop × Nat} (h : (lts.peak count).Reachable p) :
    p.1.events.length ≤ max kInitEventListSize (2 * p.2) ∧
      (p.2 < 2 ^ 30 → p.1.maxevents = p.1.events.length ∧ 0 < p.1.maxevents) := by
  have hbound : p.1.events.length ≤ max kInitEventListSize (2 * p.2) := by
    refine h.bound_of_peak (g := fun s => s.events.length)
      (B := fun m => max kInitEventListSize (2 * m)) ?_ ?_ ?_
    · intro m n hmn
      omega
    · rintro s₀ rfl
      simp [new]
    · intro s a s' hr hstep
      have hk := kept_of_reachable hr
      rcases step_sizes hk hstep with ⟨reports, hreports, hsame, hlength⟩ | ⟨hlength, -⟩
      · have hcount : s'.count = s.count := congrArg Set.ncard hsame
        have hle := length_le_count hk.booked (finite_of_reachable hr) hreports
        by_cases hfull : reports.length = s.events.length
        · rw [if_pos hfull] at hlength
          right
          omega
        · rw [if_neg hfull] at hlength
          exact Or.inl (Nat.le_of_eq hlength)
      · exact Or.inl (Nat.le_of_eq hlength)
  refine ⟨hbound, ?_⟩
  intro hfew
  have hlow := length_of_reachable h.of_peak
  have hsize : p.1.events.length < 2 ^ 31 := by
    unfold kInitEventListSize at hbound
    omega
  have hcast : p.1.maxevents = p.1.events.length := toInt_eq (by omega) (by omega)
  refine ⟨hcast, ?_⟩
  unfold kInitEventListSize at hlow
  omega

theorem count_le {n : Nat} (h : ∀ id, n ≤ id → s.system.channels id = none) : s.count ≤ n := by
  have hsub : s.inUse ⊆ Set.Iio n := by
    intro id hid
    by_contra hle
    have hsome : (s.system.channels id).isSome = true := hid
    rw [h id (Nat.le_of_not_lt hle)] at hsome
    simp at hsome
  calc s.count
      ≤ (Set.Iio n).ncard := Set.ncard_le_ncard hsub (Set.finite_Iio n)
    _ = n := Set.ncard_Iio_nat n

/-- A run that takes `n` channels into use, and polls nothing. -/
theorem exists_watching (n : Nat) : ∃ p : PollLoop × Nat, (lts.peak count).Reachable p ∧
    p.2 ≤ n ∧ p.1.events.length = kInitEventListSize ∧ p.1.activeChannels = [] ∧
      PollerSystem.Watching n p.1.system := by
  induction n with
  | zero =>
      refine ⟨(new, count new), Lts.Reachable.of_init ⟨rfl, rfl⟩, ?_, ?_, rfl, ?_⟩
      · exact count_le fun _ _ => rfl
      · simp [new]
      · exact ⟨by simp, fun _ _ => rfl⟩
  | succ n ih =>
      obtain ⟨p, hp, hle, hlength, hactive, hwatching⟩ := ih
      obtain ⟨m, s', hcreate, hfree, henable, hnext⟩ :=
        hwatching.next (kept_of_reachable hp.of_peak).booked
      have hlift : ∀ {t t' : PollerSystem} {a}, PollerSystem.lts.step t a t' →
          lts.step { p.1 with system := t } (.channel a) { p.1 with system := t' } := by
        intro t t' a ht
        refine ⟨⟨ht.1, by simp [hactive]⟩, ?_⟩
        simp only [exec, ht.2, Except.map]
      refine ⟨_, (hp.peak_step (hlift hcreate)).peak_step (hlift henable), ?_, hlength, hactive,
        hnext⟩
      have hcm := count_le (s := { p.1 with system := m }) hfree
      have hcs := count_le (s := { p.1 with system := s' }) hnext.free
      exact Nat.max_le.mpr ⟨Nat.max_le.mpr ⟨by omega, hcm⟩, hcs⟩

/-- A poll that fills the array doubles it. -/
theorem poll_full (hk : Kept s) (hactive : s.activeChannels = [])
    (hr : s.Reports (.events reports)) (hfull : reports.length = s.events.length) :
    ∃ s', lts.step s (.poll (.events reports)) s' ∧ s'.count = s.count ∧
      s'.activeChannels.length = reports.length ∧ s'.events.length = 2 * s.events.length := by
  obtain ⟨haimed, -⟩ := entries_aimed hk.booked hr.2.2.2
  have hlength := congrArg List.length haimed
  rw [List.length_map] at hlength
  refine ⟨_, ⟨⟨hactive, hr⟩, poll_eq hk.booked hr⟩, congrArg Set.ncard ?_, ?_, ?_⟩
  · ext id
    exact iff_of_eq (congrArg (· = true) marked_isSome)
  · exact (List.length_map _).trans hlength
  · exact (length_poll hk.booked hr).trans (if_pos hfull)

/-- Sixteen channels are in use, and a poll reports them all. -/
theorem events_bounded_sixteen : ∃ p : PollLoop × Nat, (lts.peak count).Reachable p ∧
    p.1.activeChannels.length = 16 ∧ p.1.events.length = 32 ∧ p.1.maxevents = 32 := by
  obtain ⟨p, hp, hle, hlength, hactive, hwatching⟩ := exists_watching 16
  have hk := kept_of_reachable hp.of_peak
  have hr : p.1.Reports (.events ((List.range 16).map fun fd => (fd, EPOLLIN))) := by
    refine ⟨by decide, ?_, by decide, ?_⟩
    · rw [maxevents, hlength]
      decide
    · intro r hr
      obtain ⟨fd, hfd, rfl⟩ := List.mem_map.mp hr
      exact hwatching.interest hk.booked (List.mem_range.mp hfd)
  obtain ⟨s', hstep, hcount, hactive', hlength'⟩ := poll_full hk hactive hr hlength.symm
  have hreach := hp.peak_step hstep
  have hfew : max p.2 s'.count ≤ 16 :=
    Nat.max_le.mpr ⟨hle, hcount.le.trans (count_le hwatching.free)⟩
  have hlength' : s'.events.length = 32 := hlength'.trans (congrArg (2 * ·) hlength)
  refine ⟨_, hreach, hactive', hlength', ?_⟩
  rw [((events_bounded hreach).2 (Nat.lt_of_le_of_lt hfew (by decide))).1, hlength']
  rfl

end PollLoop

end Muduo
