/-
The output goes out.

The kernel watches a descriptor for writing as long as there is unsent output, and says so
when the socket has room.  How much room that is each time is up to the peer, and the events
may be many.  What they come to depends on the sum only: the bytes that fit are written and the
others stay; the event that takes the last byte turns the write interest off, queues
`writeCompleteCallback_`, and closes the output of a connection that is to be shut down; those
after it do nothing.
-/
import Muduo.Proofs.Notify
import Muduo.Proofs.Runs
import Muduo.Proofs.ServerConns

namespace Muduo

namespace Ctx

variable {x y z : Ctx} {room n m : Nat}

/-- What `::write` returns when the socket has room for `room` bytes. -/
def taking (x : Ctx) (room : Nat) : WriteResult where
  ret := (min room x.conn.outputBuffer.readableBytes : Nat)
  errno := .EWOULDBLOCK

/-- The calls of `handleWrite` of the next write events, each with the room it finds. -/
def handleWrites (x : Ctx) : List Nat → Except Fault Ctx
  | [] => .ok x
  | room :: rooms => do
      let x ← x.handleWrite (x.taking room)
      handleWrites x rooms

/-- The room of all the events together. -/
def allRoom : List Nat → Nat
  | [] => 0
  | room :: rooms => room + allRoom rooms

/-- There is unsent output, and all of it fits. -/
def Fits (x : Ctx) (n : Nat) : Prop :=
  x.conn.outputBuffer.content ≠ [] ∧ x.conn.outputBuffer.content.length ≤ n

instance (x : Ctx) (n : Nat) : Decidable (x.Fits n) := inferInstanceAs (Decidable (_ ∧ _))

/-- Room for `n` bytes has been used. -/
structure Drained (x y : Ctx) (n : Nat) : Prop where
  pipe : y.pipe = x.pipe.drain n
  state : y.conn.state = x.conn.state
  id : y.conn.channel.id = x.conn.channel.id
  callback : y.conn.writeCompleteCallback = x.conn.writeCompleteCallback
  pending : y.pending = x.pending ++ (if x.Fits n ∧ x.conn.writeCompleteCallback then
    [.writeComplete x.conn.channel.id] else [])
  log : ∃ es, (∀ e ∈ es, e.isWrite = true) ∧ y.log = x.log ++ es ++
    (if x.Fits n ∧ x.conn.state = .kDisconnecting then [.shutdownWrite .kDisconnecting []]
    else [])

/-- What `handleWrite` needs, and keeps. -/
structure Sendable (x : Ctx) : Prop where
  agrees : x.Agrees
  wf : x.conn.outputBuffer.WF
  writing : x.WritingIffUnsent
  sane : SaneWrites x.log

/-! ### One event -/

/-- `handleWrite` sends, and there is nothing left. -/
def Empties (x : Ctx) (w : WriteResult) : Prop :=
  0 < toSize w.ret ∧ (x.conn.outputBuffer.retrieve (toSize w.ret)).readableBytes = 0

instance (x : Ctx) (w : WriteResult) : Decidable (x.Empties w) :=
  inferInstanceAs (Decidable (_ ∧ _))

/-- The log of `handleWrite`, whatever the write result. -/
theorem handleWrite_ends {w : WriteResult} (hwriting : x.conn.channel.isWriting = true)
    (h : x.handleWrite w = .ok y) :
    y.log = x.log ++ [x.writeEntry w] ++ (if x.Empties w ∧ x.conn.state = .kDisconnecting then
      [.shutdownWrite .kDisconnecting (x.conn.outputBuffer.retrieve (toSize w.ret)).content]
    else []) := by
  have hn : (x.conn.outputBuffer.writeFd w).1 = toSize w.ret := by simp [Buffer.writeFd]
  simp only [handleWrite, hwriting, if_true, hn, record_conn, setOutput_output] at h
  unfold Empties
  by_cases hpos : 0 < toSize w.ret
  · rw [if_pos hpos] at h
    by_cases hempty : (x.conn.outputBuffer.retrieve (toSize w.ret)).readableBytes = 0
    · rw [if_pos hempty] at h
      have hlog := (writeFinished_spec h).2.2
      rw [hlog]
      simp only [hpos, hempty, true_and]
      rfl
    · rw [if_neg hempty, Except.ok.injEq] at h
      rw [← h, if_neg (fun hboth => hempty hboth.1.2), List.append_nil]
      rfl
  · rw [if_neg hpos, Except.ok.injEq] at h
    rw [← h, if_neg (fun hboth => hpos hboth.1.1), List.append_nil]
    rfl

theorem taking_le (x : Ctx) (room : Nat) :
    (x.taking room).ret ≤ x.conn.outputBuffer.readableBytes := by
  show ((min room x.conn.outputBuffer.readableBytes : Nat) : Int) ≤ _
  omega

theorem taking_toNat (x : Ctx) (room : Nat) :
    (x.taking room).ret.toNat = min room x.conn.outputBuffer.readableBytes :=
  Int.toNat_natCast _

theorem toSize_taking (hwf : x.conn.outputBuffer.WF) (room : Nat) :
    toSize (x.taking room).ret = min room x.conn.outputBuffer.readableBytes := by
  have hlt := Buffer.readableBytes_lt hwf
  have hnonneg : 0 ≤ (x.taking room).ret := Int.natCast_nonneg _
  rw [toSize_eq hnonneg (taking_le x room) (by omega), taking_toNat]

/-- The write of an event empties the buffer when what is unsent fits. -/
theorem empties_iff (hwf : x.conn.outputBuffer.WF)
    (hunsent : x.conn.outputBuffer.content ≠ []) (room : Nat) :
    x.Empties (x.taking room) ↔ x.Fits room := by
  have hlen := Buffer.length_content hwf
  have hpos := List.length_pos_iff.mpr hunsent
  unfold Empties Fits
  rw [toSize_taking hwf, ← Buffer.content_eq_nil_iff (hwf.retrieve _),
    Buffer.content_retrieve hwf, List.drop_eq_nil_iff]
  constructor
  · rintro ⟨-, hle⟩
    exact ⟨hunsent, by omega⟩
  · rintro ⟨-, hle⟩
    exact ⟨by omega, by omega⟩

/-- The kernel's answer keeps the log sane. -/
theorem Sendable.saneWrites (h : x.Sendable) (hwriting : x.conn.channel.isWriting = true)
    (hy : x.handleWrite (x.taking room) = .ok y) : SaneWrites y.log := by
  rw [handleWrite_ends hwriting hy, saneWrites_append, saneWrites_append]
  refine ⟨⟨h.sane, ?_⟩, ?_⟩
  · intro e he
    rw [List.mem_singleton.mp he]
    exact ⟨Int.natCast_nonneg _, taking_le x room⟩
  · intro e he
    split at he
    · rw [List.mem_singleton.mp he]
      trivial
    · simp at he

/-- A write event uses the room there is. -/
theorem Sendable.handleWrite (h : x.Sendable) (hwriting : x.conn.channel.isWriting = true)
    (hy : x.handleWrite (x.taking room) = .ok y) : y.Sendable ∧ Drained x y room := by
  have hsane := h.saneWrites hwriting hy
  have hstep := handleWrite_outputStep hy
  obtain ⟨ending, hdrain⟩ := handleWrite_sane h.wf hwriting hy hsane
  have hunsent : x.conn.outputBuffer.content ≠ [] := h.writing.mp hwriting
  have hfits := empties_iff h.wf hunsent room
  have hpipe : y.pipe = x.pipe.drain room := by
    rw [hdrain.pipe, taking_toNat, ← Buffer.length_content h.wf]
    exact Pipe.drain_min ..
  refine ⟨⟨hstep.agrees h.agrees, hdrain.wf, hdrain.writingIffUnsent hwriting h.writing, hsane⟩,
    hpipe, hstep.state, hstep.id, (Confined.handleWrite hy).writeCompleteCallback, ?_, ?_⟩
  · rw [handleWrite_pending hwriting hy]
    change (if x.Empties (x.taking room) then _ else _) = _
    simp only [hfits]
    by_cases hall : x.Fits room
    · rw [if_pos hall]
      unfold queueWriteComplete
      split
      · rw [if_pos ⟨hall, ‹_›⟩, queueInLoop_pending]
      · rw [if_neg (fun hboth => absurd hboth.2 ‹_›), List.append_nil]
    · rw [if_neg hall, if_neg (fun hboth => hall hboth.1), List.append_nil]
  · refine ⟨[x.writeEntry (x.taking room)], ?_, ?_⟩
    · intro e he
      rw [List.mem_singleton.mp he]
      rfl
    · rw [handleWrite_ends hwriting hy]
      simp only [hfits]
      by_cases hall : x.Fits room
      · have hnone : (x.conn.outputBuffer.retrieve (toSize (x.taking room).ret)).content = [] :=
          (Buffer.content_eq_nil_iff (h.wf.retrieve _)).mpr (hfits.mpr hall).2
        rw [hnone]
      · simp [hall]

/-! ### Any number of events -/

theorem handleWrites_idle (h : x.conn.channel.isWriting = false) (rooms : List Nat) :
    x.handleWrites rooms = .ok x := by
  induction rooms with
  | nil => rfl
  | cons room rooms ih =>
      unfold handleWrites
      rw [handleWrite_not_writing h]
      exact ih

theorem Drained.refl (x : Ctx) : Drained x x 0 where
  pipe := by simp [Pipe.drain]
  state := rfl
  id := rfl
  callback := rfl
  pending := by simp [Fits]
  log := ⟨[], by simp, by simp [Fits]⟩

/-- Room is of no use when nothing is unsent. -/
theorem Drained.idle (h : x.conn.outputBuffer.content = []) (n : Nat) : Drained x x n where
  pipe := by
    unfold Pipe.drain Ctx.pipe
    simp [h]
  state := rfl
  id := rfl
  callback := rfl
  pending := by simp [Fits, h]
  log := ⟨[], by simp, by simp [Fits, h]⟩

/-- More room makes no difference when nothing is left. -/
theorem Drained.more (h : Drained x y n) (hnone : y.conn.outputBuffer.content = []) (m : Nat) :
    Drained x y (n + m) := by
  have hheld : y.conn.outputBuffer.content = x.conn.outputBuffer.content.drop n :=
    congrArg Pipe.held h.pipe
  have hle : x.conn.outputBuffer.content.length ≤ n := by
    rw [← List.drop_eq_nil_iff, ← hheld, hnone]
  have hfits : x.Fits (n + m) ↔ x.Fits n := by
    unfold Fits
    exact and_congr_right fun _ => ⟨fun _ => hle, fun _ => by omega⟩
  refine ⟨?_, h.state, h.id, h.callback, ?_, ?_⟩
  · rw [← Pipe.drain_drain, ← h.pipe]
    exact (Drained.idle hnone m).pipe
  · simp only [hfits]
    exact h.pending
  · simp only [hfits]
    exact h.log

/-- Room for `m` bytes after room for `n`, which was not enough. -/
theorem Drained.trans (h : Drained x y n) (h' : Drained y z m)
    (hmore : y.conn.outputBuffer.content ≠ []) : Drained x z (n + m) := by
  have hheld : y.conn.outputBuffer.content = x.conn.outputBuffer.content.drop n :=
    congrArg Pipe.held h.pipe
  have hlt : n < x.conn.outputBuffer.content.length := by
    rw [hheld, ne_eq, List.drop_eq_nil_iff] at hmore
    omega
  have hnot : ¬ x.Fits n := fun hf => absurd hf.2 (by omega)
  have hfits : y.Fits m ↔ x.Fits (n + m) := by
    unfold Fits
    rw [hheld, List.length_drop, ← hheld]
    have hne : x.conn.outputBuffer.content ≠ [] := List.length_pos_iff.mp (by omega)
    exact ⟨fun hf => ⟨hne, by omega⟩, fun hf => ⟨hmore, by omega⟩⟩
  obtain ⟨es, hes, hlog⟩ := h.log
  obtain ⟨es', hes', hlog'⟩ := h'.log
  have hpending := h.pending
  rw [if_neg (fun hboth => hnot hboth.1), List.append_nil] at hpending hlog
  refine ⟨?_, h'.state.trans h.state, h'.id.trans h.id, h'.callback.trans h.callback, ?_, ?_⟩
  · rw [h'.pipe, h.pipe, Pipe.drain_drain]
  · rw [h'.pending, hpending, h.callback, h.id]
    simp only [hfits]
  · refine ⟨es ++ es', ?_, ?_⟩
    · intro e he
      exact (List.mem_append.mp he).elim (hes e) (hes' e)
    · rw [hlog', hlog, h.state]
      simp only [hfits, List.append_assoc]

/-- What any number of write events come to depends on the sum of the room they find. -/
theorem Sendable.handleWrites (h : x.Sendable) (rooms : List Nat) :
    ∃ y, x.handleWrites rooms = .ok y ∧ y.Sendable ∧ Drained x y (allRoom rooms) := by
  induction rooms generalizing x with
  | nil => exact ⟨x, rfl, h, .refl x⟩
  | cons room rooms ih =>
      rw [allRoom]
      cases hwriting : x.conn.channel.isWriting with
      | false =>
          have hnone : x.conn.outputBuffer.content = [] := by
            by_contra hne
            rw [h.writing.mpr hne] at hwriting
            simp at hwriting
          exact ⟨x, handleWrites_idle hwriting _, h, .idle hnone _⟩
      | true =>
          obtain ⟨y, hy⟩ := handleWrite_runs h.agrees (x.taking room)
          obtain ⟨hsend, hdrained⟩ := h.handleWrite hwriting hy
          have hrest : x.handleWrites (room :: rooms) = y.handleWrites rooms := by
            rw [Ctx.handleWrites, hy]
            rfl
          rw [hrest]
          by_cases hnone : y.conn.outputBuffer.content = []
          · -- that was the last byte, and the other events find no write interest
            have hoff : y.conn.channel.isWriting = false := by
              rw [← Bool.not_eq_true]
              exact fun hon => hsend.writing.mp hon hnone
            exact ⟨y, handleWrites_idle hoff _, hsend, hdrained.more hnone _⟩
          · obtain ⟨z, hz, hsend', hdrained'⟩ := ih hsend
            exact ⟨z, hz, hsend', hdrained.trans hdrained' hnone⟩

end Ctx

namespace TcpServer

variable {s : TcpServer} {c : ConnId} {x : Accepted}

/-- Whatever the sizes of the pieces in which the socket of a connection that is up takes its
output, the write events that take them come to the same: the first bytes are written, as many
as there was room for; when that is all of them, the write interest is off, everything sent on
the connection has been written, the user is told once and only then, and the output of a
connection that is to be shut down is closed once and behind the last byte. -/
theorem delivered (h : (lts.restrict Ordinary).Reachable s) (hc : s.conns c = some x)
    (halive : s.Alive c) (hup : IsUp x) (hsane : SaneWrites x.log) (rooms : List Nat) :
    ∃ y, (s.ctx x).handleWrites rooms = .ok y ∧ Ctx.Drained (s.ctx x) y (Ctx.allRoom rooms) ∧
      (x.conn.outputBuffer.content.length ≤ Ctx.allRoom rooms →
        y.conn.outputBuffer.content = [] ∧ y.conn.channel.isWriting = false ∧
          written y.log = (ranCalls x.log).flatMap SendCall.bytes) := by
  have hstand := standing_of_reachable h
  have hrun := hstand.lives.run c x hc halive
  obtain ⟨hstarted, -, hopen⟩ := served_of_isUp hrun hup
  have hloop := (hstarted.orderly hrun).disciplined.run
  have hnot : .kDisconnected ∉ stores x.log := fun hmem => hopen (hloop.onLoop.closed hmem)
  obtain ⟨hflow, hdrains, hkept⟩ := hloop.graceful.sane hsane
  have hsend : (s.ctx x).Sendable :=
    ⟨run_agrees hrun, hflow.wf, (hdrains hnot).2.1, hsane⟩
  obtain ⟨y, hy, hsend', hdrained⟩ := hsend.handleWrites rooms
  refine ⟨y, hy, hdrained, ?_⟩
  intro hle
  have hheld : y.conn.outputBuffer.content = x.conn.outputBuffer.content.drop (Ctx.allRoom rooms) :=
    congrArg Pipe.held hdrained.pipe
  have hnone : y.conn.outputBuffer.content = [] := by
    rw [hheld, List.drop_eq_nil_iff]
    exact hle
  refine ⟨hnone, ?_, ?_⟩
  · rw [← Bool.not_eq_true]
    exact fun hon => hsend'.writing.mp hon hnone
  · have hout : written y.log =
        written x.log ++ x.conn.outputBuffer.content.take (Ctx.allRoom rooms) :=
      congrArg Pipe.out hdrained.pipe
    rw [hout, List.take_of_length_le hle]
    exact hflow.conserved.trans (taken_eq_messages hkept.ran)

/-- Connection 1 has two bytes left; the socket takes them one by one. -/
theorem delivered_sending : ∃ (s : TcpServer) (x : Accepted), s.conns 1 = some x ∧
    ∃ y, (s.ctx x).handleWrites [1, 0, 1, 5] = .ok y ∧ written y.log = [10, 11, 12] := by
  obtain ⟨s, hr, halive, x, hx, hlength, hsane, hup, hran⟩ := exists_of_run
    Ordinary (connecting ++ sending)
    (fun s => s.Alive 1 ∧ ∃ x ∈ s.conns 1, x.conn.outputBuffer.content.length = 2 ∧
      SaneWrites x.log ∧ x.conn.state = .kConnected ∧
        (ranCalls x.log).flatMap SendCall.bytes = [10, 11, 12]) (by decide +kernel)
  obtain ⟨y, hy, -, hall⟩ := delivered hr hx halive (.inl hup) hsane [1, 0, 1, 5]
  exact ⟨s, x, hx, y, hy, (hall (by rw [hlength]; decide)).2.2.trans hran⟩

end TcpServer

end Muduo
