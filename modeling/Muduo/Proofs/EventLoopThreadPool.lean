/-
`getNextLoop` goes round the workers.

The base loop has slot 0, and a `next_` of 0 stands for 1.  Read so, `next_` is one more
than the number of calls so far modulo the number of workers; that is the invariant, and
the two ways of coming round, past the last worker and through 0, are the two cases of
its step.  What each worker gets is then a count of the numbers with one remainder.
-/
import Mathlib.Data.Int.CardIntervalMod
import Muduo.EventLoopThreadPool
import Muduo.TcpServer
import Muduo.Lib.Result

namespace Muduo

namespace EventLoopThreadPool

variable {Loop : Type} {base : Loop} {name : String} {cb : Bool} {startLoop : Nat → Loop}
  {p p' : EventLoopThreadPool Loop} {n k : Nat}

/-! ### The conversions of `next_` -/

theorem toSize_natCast {i : Nat} (hi : i < 2 ^ 64) : toSize (i : Int) = i :=
  toSize_eq (Int.natCast_nonneg i) (Int.le_refl _) hi

/-- The new `next_` is the remainder, even where the `int` overflows on the way: that takes
2^31 loops, and they divide 2^64. -/
theorem next_mod {i : Nat} (hi : i ≤ n) (hn : n < 2 ^ 31) :
    toInt ((toSize (toInt ((i : Int) + 1)) : Int) % ((n + 1 : Nat) : Int)) =
      ((i + 1) % (n + 1) : Nat) := by
  have hmod : (i + 1) % (n + 1) < n + 1 := Nat.mod_lt _ (Nat.succ_pos n)
  by_cases hlast : i + 1 < 2 ^ 31
  · rw [toInt_eq (n := (i : Int) + 1) (by omega) (by omega)]
    have hcast : ((i : Int) + 1) = ((i + 1 : Nat) : Int) := by omega
    rw [hcast, toSize_natCast (by omega)]
    exact toInt_eq (by omega) (by omega)
  · obtain rfl : i = 2 ^ 31 - 1 := by omega
    obtain rfl : n = 2 ^ 31 - 1 := by omega
    rfl

/-! ### A pool that has been started -/

/-- A pool with its number of threads set, and started. -/
def running (base : Loop) (name : String) (n : Nat) (cb : Bool) (startLoop : Nat → Loop) :
    EventLoopThreadPool Loop :=
  (((new base name).setThreadNum n).start cb startLoop).1

/-- The base loop, then the workers in the order they were created. -/
def loopsOf (base : Loop) (n : Nat) (startLoop : Nat → Loop) : List Loop :=
  base :: (List.range n).map startLoop

theorem loops_running : (running base name n cb startLoop).loops = loopsOf base n startLoop := by
  simp [running, new, setThreadNum, start, loopsOf]

theorem loopsOf_worker {i : Nat} (hi : i < n) :
    (loopsOf base n startLoop)[i + 1]? = some (startLoop i) := by
  simp [loopsOf, hi]

/-- The next call is for worker `k % n`. -/
structure Cycling (base : Loop) (startLoop : Nat → Loop) (n k : Nat)
    (p : EventLoopThreadPool Loop) : Prop where
  loops : p.loops = loopsOf base n startLoop
  next : (if p.next = 0 then 1 else p.next) = ((k % n + 1 : Nat) : Int)

theorem cycling_running :
    Cycling base startLoop n 0 (running base name n cb startLoop) where
  loops := loops_running
  next := by simp [running, new, setThreadNum, start]

theorem Cycling.step (h : Cycling base startLoop n k p) (hpos : 0 < n) (hn : n < 2 ^ 31) :
    ∃ p', p.getNextLoop = .ok (some (startLoop (k % n)), p') ∧
      Cycling base startLoop n (k + 1) p' := by
  have hlt : k % n < n := Nat.mod_lt _ hpos
  have hlength : p.loops.length = n + 1 := by simp [h.loops, loopsOf]
  have hone : p.loops.length ≠ 1 := by omega
  have hne : p.loops ≠ [] := by simp [h.loops, loopsOf]
  have hindex : toSize ((k % n + 1 : Nat) : Int) = k % n + 1 := toSize_natCast (by omega)
  have hget : p.loops[k % n + 1]? = some (startLoop (k % n)) := by
    rw [h.loops]
    exact loopsOf_worker hlt
  refine ⟨{ p with next := ((k % n + 1 + 1) % (n + 1) : Nat) }, ?_, h.loops, ?_⟩
  · unfold getNextLoop
    rw [if_neg hone, if_pos hne]
    simp only [h.next, hindex, hget, hlength, next_mod (Nat.succ_le_of_lt hlt) hn]
  · show (if (((k % n + 1 + 1) % (n + 1) : Nat) : Int) = 0 then 1 else _) = _
    have hsplit : n * (k / n) + k % n = k := Nat.div_add_mod k n
    by_cases hlast : k % n + 1 = n
    · -- past the last worker: `next_` is 0, which stands for the first
      have hzero : (k % n + 1 + 1) % (n + 1) = 0 := by
        rw [hlast]
        exact Nat.mod_self _
      have hwrap : (k + 1) % n = 0 := by
        have hmultiple : k + 1 = n * (k / n + 1) := by rw [Nat.mul_add]; omega
        rw [hmultiple]
        exact Nat.mul_mod_right n _
      rw [hzero, hwrap]
      rfl
    · have hnext : (k % n + 1 + 1) % (n + 1) = k % n + 2 := Nat.mod_eq_of_lt (by omega)
      have hsucc : (k + 1) % n = k % n + 1 := by
        have hsum : k + 1 = k % n + 1 + n * (k / n) := by omega
        rw [hsum, Nat.add_mul_mod_self_left]
        exact Nat.mod_eq_of_lt (by omega)
      rw [hnext, hsucc, if_neg (by omega)]

theorem nextLoops_cycling (hpos : 0 < n) (hn : n < 2 ^ 31) (k : Nat) :
    ∃ p, (running base name n cb startLoop).nextLoops k =
        .ok ((List.range k).map (fun i => some (startLoop (i % n))), p) ∧
      Cycling base startLoop n k p := by
  induction k with
  | zero => exact ⟨_, rfl, cycling_running⟩
  | succ k ih =>
    obtain ⟨p, hcalls, hcycling⟩ := ih
    obtain ⟨p', hcall, hcycling'⟩ := hcycling.step hpos hn
    refine ⟨p', ?_, hcycling'⟩
    unfold nextLoops
    rw [hcalls]
    show (p.getNextLoop >>= _) = _
    rw [hcall, List.range_succ, List.map_append]
    rfl

/-- With no worker threads, nothing changes and the loop is the base loop. -/
theorem nextLoops_base (k : Nat) :
    (running base name 0 cb startLoop).nextLoops k =
      .ok (List.replicate k (some base), running base name 0 cb startLoop) := by
  induction k with
  | zero => rfl
  | succ k ih =>
    unfold nextLoops
    rw [ih, List.replicate_succ']
    rfl

/-! ### What each worker gets -/

theorem startLoop_inj (hdistinct : (loopsOf base n startLoop).Nodup) {i j : Nat} (hi : i < n)
    (hj : j < n) (heq : startLoop i = startLoop j) : i = j :=
  List.inj_on_of_nodup_map (List.nodup_cons.mp hdistinct).2 (List.mem_range.mpr hi)
    (List.mem_range.mpr hj) heq

theorem startLoop_ne_base (hdistinct : (loopsOf base n startLoop).Nodup) {i : Nat} (hi : i < n) :
    startLoop i ≠ base := by
  intro heq
  apply (List.nodup_cons.mp hdistinct).1
  rw [← heq]
  exact List.mem_map_of_mem (List.mem_range.mpr hi)

section

variable [DecidableEq Loop]

/-- The calls that return worker `j` are those whose number has remainder `j`. -/
theorem count_startLoop (hdistinct : (loopsOf base n startLoop).Nodup) {j : Nat} (hj : j < n)
    (k : Nat) :
    ((List.range k).map (fun i => some (startLoop (i % n)))).count (some (startLoop j)) =
      k / n + if j < k % n then 1 else 0 := by
  have hpos : 0 < n := by omega
  have hsame : ∀ i, (some (startLoop (i % n)) == some (startLoop j)) = decide (i ≡ j [MOD n]) := by
    intro i
    have hiff : some (startLoop (i % n)) = some (startLoop j) ↔ i % n = j % n := by
      rw [Nat.mod_eq_of_lt hj, Option.some_inj]
      exact ⟨startLoop_inj hdistinct (Nat.mod_lt i hpos) hj, fun h => by rw [h]⟩
    rw [Bool.eq_iff_iff, beq_iff_eq, decide_eq_true_iff]
    exact hiff
  have hcount := Nat.count_modEq_card k hpos j
  rw [Nat.mod_eq_of_lt hj] at hcount
  rw [← hcount, Nat.count, List.count, List.countP_map]
  apply List.countP_congr
  intro i _
  simp only [Function.comp_apply, hsame]

/--
After `start` with `n` threads, call `k` returns worker `k % n`, and with none the base
loop.  Where the loops are distinct objects, the base loop is then never returned, and no
worker is ahead of another by more than one.
-/
theorem round_robin (base : Loop) (name : String) (cb : Bool) (startLoop : Nat → Loop)
    (hn : n < 2 ^ 31) (k : Nat) :
    ∃ loops p, (running base name n cb startLoop).nextLoops k = .ok (loops, p) ∧
      (n = 0 → loops = List.replicate k (some base)) ∧
      (0 < n → loops = (List.range k).map (fun i => some (startLoop (i % n))) ∧
        ((loopsOf base n startLoop).Nodup → some base ∉ loops ∧
          ∀ i < n, ∀ j < n,
            loops.count (some (startLoop i)) ≤ loops.count (some (startLoop j)) + 1)) := by
  rcases Nat.eq_zero_or_pos n with rfl | hpos
  · refine ⟨_, _, nextLoops_base k, fun _ => rfl, ?_⟩
    intro h
    omega
  obtain ⟨p, hcalls, -⟩ := nextLoops_cycling hpos hn k
  refine ⟨_, p, hcalls, by omega, fun _ => ⟨rfl, fun hdistinct => ⟨?_, ?_⟩⟩⟩
  · intro hmem
    obtain ⟨i, -, hi⟩ := List.mem_map.mp hmem
    exact startLoop_ne_base hdistinct (Nat.mod_lt i hpos) (Option.some.inj hi)
  · intro i hi j hj
    rw [count_startLoop hdistinct hi, count_startLoop hdistinct hj]
    split <;> omega

/-- Two workers and five calls. -/
theorem round_robin_two :
    ∃ loops p, (running 0 "server" 2 false Nat.succ).nextLoops 5 = .ok (loops, p) ∧
      loops = [some 1, some 2, some 1, some 2, some 1] ∧ some 0 ∉ loops := by
  obtain ⟨loops, p, hcalls, -, hworkers⟩ :=
    round_robin (n := 2) 0 "server" false Nat.succ (by decide) 5
  obtain ⟨heq, hdistinct⟩ := hworkers (by decide)
  exact ⟨loops, p, hcalls, heq, (hdistinct (by decide)).1⟩

end

/-! ### The pool of a server -/

/-- The server's loops are numbered by their slots. -/
theorem getNextLoop_server {s : TcpServer} {p : EventLoopThreadPool LoopId}
    (hbase : p.baseLoop = 0) (hloops : p.loops = List.range s.size) (hnext : p.next = s.next)
    (hpos : 0 < s.size) (hsize : s.size ≤ 2 ^ 31) (hlt : s.next < s.size) :
    p.getNextLoop = .ok (some s.getNextLoop.1, { p with next := s.getNextLoop.2 }) := by
  have hlength : p.loops.length = s.size := by rw [hloops, List.length_range]
  unfold getNextLoop TcpServer.getNextLoop
  by_cases hone : s.size = 1
  · have hsame : { p with next := (s.next : Int) } = p := by rw [← hnext]
    rw [if_pos (hlength.trans hone), if_pos hone, hsame, hbase]
  have hne : p.loops ≠ [] := List.ne_nil_of_length_pos (by omega)
  rw [if_neg (by omega), if_neg hone, if_pos hne]
  obtain ⟨i, hi, hfirst, hslot⟩ : ∃ i : Nat, i < s.size ∧
      (if p.next = 0 then 1 else p.next) = (i : Int) ∧ (if s.next = 0 then 1 else s.next) = i := by
    rw [hnext]
    by_cases hzero : s.next = 0
    · exact ⟨1, by omega, by rw [hzero]; rfl, if_pos hzero⟩
    · exact ⟨s.next, hlt, if_neg (by omega), if_neg hzero⟩
  obtain ⟨n, hn⟩ : ∃ n, s.size = n + 1 := ⟨s.size - 1, by omega⟩
  have hget : p.loops[i]? = some i := by rw [hloops, List.getElem?_range hi]
  simp only [hfirst, hslot, toSize_natCast (show i < 2 ^ 64 by omega), hget, hlength, hn,
    next_mod (n := n) (i := i) (by omega) (by omega)]

end EventLoopThreadPool

end Muduo
