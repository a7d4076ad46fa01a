/-
Where a server puts its connections.

`getNextLoop` goes round the I/O loops, and a connection stays on the loop it was given, so
the number of a connection says which loop that is.  Nothing else of a run matters: not who
else was accepted, closed or destroyed in between.
-/
import Mathlib.Data.Int.CardIntervalMod
import Muduo.Proofs.Counted
import Muduo.ServerTrace

namespace Muduo

namespace TcpServer

variable {s s' : TcpServer} {a : Action} {l l' c k : Nat} {x : Accepted}

/-- The loop of the k-th connection, counted from 0, of a server with `size` loops. -/
def slot (size k : Nat) : Nat := if size = 1 then 0 else k % (size - 1) + 1

theorem slot_succ {size : Nat} (hsize : 1 < size) (k : Nat) :
    (if (slot size k + 1) % size = 0 then 1 else (slot size k + 1) % size) =
      slot size (k + 1) := by
  obtain ⟨n, rfl⟩ : ∃ n, size = n + 1 := ⟨size - 1, by omega⟩
  have hpos : 0 < n := by omega
  have hlt : k % n < n := Nat.mod_lt _ hpos
  have hsucc : (k + 1) % n = (k % n + 1) % n := (Nat.mod_add_mod k n 1).symm
  simp only [slot, if_neg (show n + 1 ≠ 1 by omega), Nat.add_sub_cancel]
  rw [hsucc]
  by_cases hlast : k % n + 1 = n
  · -- past the last loop `next_` is 0, which stands for 1
    rw [hlast, Nat.mod_self, Nat.mod_self, if_pos rfl]
  · have hnext : (k % n + 1 + 1) % (n + 1) = k % n + 1 + 1 := Nat.mod_eq_of_lt (by omega)
    have hstay : (k % n + 1) % n = k % n + 1 := Nat.mod_eq_of_lt (by omega)
    rw [hnext, hstay, if_neg (by omega)]

/-- Every connection so far is on the loop of its number, and so will the next one be. -/
structure Dealt (s : TcpServer) : Prop where
  pos : 1 ≤ s.nextConnId
  first : s.conns 0 = none
  next : s.getNextLoop.1 = slot s.size (s.nextConnId - 1)
  all : ∀ c, 1 ≤ c → c < s.nextConnId → ∃ x, s.conns c = some x ∧ x.loop = slot s.size (c - 1)

/-- What an action can do to `next_`, `nextConnId_` and the number of loops. -/
theorem Step.dealing (hstep : Step s a s') : s'.size = s.size ∧
    ((s'.nextConnId = s.nextConnId ∧ s'.next = s.next) ∨
      (s'.nextConnId = s.nextConnId + 1 ∧ s'.next = s.getNextLoop.2 ∧
        ∃ x, s'.conns s.nextConnId = some x ∧ x.loop = s.getNextLoop.1)) := by
  cases hstep with
  | @acceptHere sockfd en base =>
      exact ⟨rfl, .inr ⟨rfl, rfl, s.newAccepted sockfd, by simp, rfl⟩⟩
  | @accept sockfd en other =>
      exact ⟨rfl, .inr ⟨rfl, rfl, s.newAccepted sockfd, by simp, rfl⟩⟩
  | _ => exact ⟨rfl, .inl ⟨rfl, rfl⟩⟩

theorem getNextLoop_next (hsize : s.size ≠ 1) : s.getNextLoop.1 =
    (if s.next = 0 then 1 else s.next) ∧
      s.getNextLoop.2 = (s.getNextLoop.1 + 1) % s.size := by
  simp [getNextLoop, hsize]

theorem Dealt.step (h : Dealt s) (hwired : Wired s) (hstep : Step s a s') : Dealt s' := by
  obtain ⟨hsize, hdeal⟩ := hstep.dealing
  have hfirst : s'.conns 0 = none := by
    rcases hstep.unknown h.first with hnone | ⟨hzero, -⟩
    · exact hnone
    · have hpos : 1 ≤ s.nextConnId := h.pos
      rw [← hzero] at hpos
      exact absurd hpos (by simp)
  have hold : ∀ c, 1 ≤ c → c < s.nextConnId →
      ∃ x, s'.conns c = some x ∧ x.loop = slot s'.size (c - 1) := by
    intro c hc hlt
    obtain ⟨x, hx, hloop⟩ := h.all c hc hlt
    obtain ⟨x', hx', hsame, -⟩ := hstep.move hwired hx
    exact ⟨x', hx', by rw [hsame, hloop, hsize]⟩
  rcases hdeal with ⟨hid, hnext⟩ | ⟨hid, hnext, x, hx, hloop⟩
  · refine ⟨by rw [hid]; exact h.pos, hfirst, ?_, by rw [hid]; exact hold⟩
    have hsame : s'.getNextLoop = s.getNextLoop := by simp [getNextLoop, hsize, hnext]
    rw [hsame, hid, hsize]
    exact h.next
  · have hpos := h.pos
    refine ⟨by omega, hfirst, ?_, ?_⟩
    · rw [hid, Nat.add_sub_cancel, hsize]
      by_cases hone : s.size = 1
      · simp [getNextLoop, hsize, hone, slot]
      · have hlarge : 1 < s.size := by
          have hmin := hwired.size
          omega
        obtain ⟨-, hround⟩ := getNextLoop_next hone
        rw [(getNextLoop_next (s := s') (by rw [hsize]; exact hone)).1, hnext, hround, h.next,
          slot_succ hlarge, Nat.sub_add_cancel hpos]
    · intro c hc hlt
      by_cases hnew : c = s.nextConnId
      · rw [hnew, hsize]
        exact ⟨x, hx, hloop.trans h.next⟩
      · rw [hid] at hlt
        exact hold c hc (Nat.lt_of_le_of_ne (Nat.le_of_lt_succ hlt) hnew)

theorem dealt_of_reachable (h : lts.Reachable s) : Dealt s := by
  refine h.induct ?_ ?_
  · intro s₀ h0
    refine ⟨by rw [h0.nextConnId], h0.conns 0, ?_, ?_⟩
    · rw [h0.nextConnId]
      by_cases hone : s₀.size = 1
      · simp [getNextLoop, hone, slot]
      · simp [getNextLoop, hone, slot, h0.next]
    · intro c hc hlt
      rw [h0.nextConnId] at hlt
      exact absurd hlt (Nat.not_lt.mpr hc)
  · intro m a m' hr hdealt hstep
    have hwired := wired_of_reachable hr
    exact hdealt.step hwired (step_cases hwired hstep)

/-! ### What each loop gets -/

/-- How many connections the loop has been given. -/
def load (s : TcpServer) (l : Nat) : Nat :=
  (List.range s.nextConnId).countP fun c => (s.conns c).any fun x => x.loop == l

theorem Dealt.load (h : Dealt s) : s.load l =
    (List.range (s.nextConnId - 1)).countP fun i => slot s.size i == l := by
  have hpos := h.pos
  have hrange : List.range s.nextConnId = 0 :: (List.range (s.nextConnId - 1)).map Nat.succ := by
    rw [← List.range_succ_eq_map]
    congr 1
    omega
  unfold TcpServer.load
  rw [hrange, List.countP_cons_of_neg (by simp [h.first]), List.countP_map]
  apply List.countP_congr
  intro i hi
  have hlt : i < s.nextConnId - 1 := List.mem_range.mp hi
  obtain ⟨x, hx, hloop⟩ := h.all (i + 1) (Nat.succ_le_succ (Nat.zero_le i)) (by omega)
  rw [Nat.add_sub_cancel] at hloop
  simp [hx, hloop]

/-- An I/O loop gets the connections with one remainder. -/
theorem Dealt.load_io (h : Dealt s) (hpos : 0 < l) (hlt : l < s.size) :
    s.load l = (s.nextConnId - 1) / (s.size - 1) +
      if l - 1 < (s.nextConnId - 1) % (s.size - 1) then 1 else 0 := by
  have hn : 0 < s.size - 1 := by omega
  have hcount := Nat.count_modEq_card (s.nextConnId - 1) hn (l - 1)
  rw [Nat.mod_eq_of_lt (show l - 1 < s.size - 1 by omega)] at hcount
  rw [h.load, ← hcount, Nat.count]
  apply List.countP_congr
  intro i _
  simp only [slot, if_neg (show s.size ≠ 1 by omega), beq_iff_eq, decide_eq_true_eq, Nat.ModEq,
    Nat.mod_eq_of_lt (show l - 1 < s.size - 1 by omega)]
  omega

/-- In every run of a server connection `c` is on the loop its number says: on the base loop when
there is no other, else on one of the others in turn.  So the base loop of a server with I/O loops
never gets a connection, and no I/O loop has been given two more than another. -/
theorem placed_in_turn (h : lts.Reachable s) :
    (∀ c x, s.conns c = some x → x.loop = slot s.size (c - 1)) ∧
    (1 < s.size → s.load 0 = 0 ∧ ∀ l l', 0 < l → l < s.size → 0 < l' → l' < s.size →
      s.load l ≤ s.load l' + 1) := by
  have hdealt := dealt_of_reachable h
  have hwired := wired_of_reachable h
  refine ⟨?_, fun hsize => ⟨?_, ?_⟩⟩
  · intro c x hc
    have hlt := (hwired.known c x hc).2.1
    have hpos : 1 ≤ c := by
      rcases Nat.eq_zero_or_pos c with rfl | hpos
      · rw [hdealt.first] at hc
        simp at hc
      · exact hpos
    obtain ⟨z, hz, hloop⟩ := hdealt.all c hpos hlt
    obtain rfl : x = z := Option.some.inj (hc.symm.trans hz)
    exact hloop
  · rw [hdealt.load, List.countP_eq_zero]
    intro i _
    simp [slot, if_neg (show s.size ≠ 1 by omega)]
  · intro l l' hl hlt hl' hlt'
    rw [hdealt.load_io hl hlt, hdealt.load_io hl' hlt']
    split <;> split <;> omega

/-- A server with two I/O loops. -/
def startTwo : TcpServer := { start with size := 3 }

/-- Three connections, on the two I/O loops in turn. -/
theorem placed_in_turn_three : ∃ (s : TcpServer) (x y z : Accepted), s.conns 1 = some x ∧
    s.conns 2 = some y ∧ s.conns 3 = some z ∧ x.loop = 1 ∧ y.loop = 2 ∧ z.loop = 1 ∧
      s.load 0 = 0 ∧ s.load 1 ≤ s.load 2 + 1 := by
  have hinit : lts.init startTwo := { start_init with
    size := by decide
    threadId := fun l _ l' _ h => Nat.add_left_cancel h }
  have hrun : (Lts.run stepped startTwo (([7, 8, 9] : List Fd).flatMap fun fd =>
      [.poll 0 [] true, .accept fd, .swap 0, .batchEnd 0])).any (fun s =>
        decide (s.size = 3 ∧ (s.conns 1).isSome = true ∧ (s.conns 2).isSome = true ∧
          (s.conns 3).isSome = true)) = true := by decide +kernel
  obtain ⟨s, hs, hp⟩ := (Option.any_eq_true _ _).mp hrun
  have hpath := Lts.Path.of_run (T := lts) (I := fun _ => True)
    (fun _ _ _ _ hnext => ⟨stepped_sound hnext, trivial⟩) trivial hs
  obtain ⟨hsize, hx, hy, hz⟩ := of_decide_eq_true hp
  obtain ⟨x, hx⟩ := Option.isSome_iff_exists.mp hx
  obtain ⟨y, hy⟩ := Option.isSome_iff_exists.mp hy
  obtain ⟨z, hz⟩ := Option.isSome_iff_exists.mp hz
  obtain ⟨hplaced, hloads⟩ := placed_in_turn ⟨_, _, hinit, hpath⟩
  obtain ⟨hbase, hfair⟩ := hloads (by omega)
  have hloop : ∀ c x, s.conns c = some x → x.loop = slot 3 (c - 1) :=
    fun c x hc => hsize ▸ hplaced c x hc
  exact ⟨s, x, y, z, hx, hy, hz, hloop 1 x hx, hloop 2 y hy, hloop 3 z hz, hbase,
    hfair 1 2 (by decide) (by omega) (by decide) (by omega)⟩

end TcpServer

end Muduo
