/-
Whose entry `newConnection` and `removeConnectionInLoop` touch.

A connection's name is its number modulo 2^32, written out, so two connections share a
name exactly when their numbers differ by a multiple of 2^32.  In every reachable state an
entry is under the name of its connection; what the two functions find or erase under a
name is then a matter of those differences.  In a run that keeps the open connections
apart, each stays under its name until it is removed.
-/
import Mathlib
import Muduo.Registry

namespace Muduo

namespace Registry

variable {r r' : Registry} {a : Action} {as : List Action} {c d : Nat}

/-! ### Names -/

theorem toInt_eq_iff {m n : Int} : toInt m = toInt n ↔ m % 2 ^ 32 = n % 2 ^ 32 := by
  constructor
  · intro h
    have hmod : m.bmod (2 ^ 32) % (2 ^ 32 : Nat) = n.bmod (2 ^ 32) % (2 ^ 32 : Nat) := by
      unfold toInt at h
      rw [h]
    rw [Int.bmod_emod, Int.bmod_emod] at hmod
    exact hmod
  · intro h
    have hmod : m % (2 ^ 32 : Nat) = n % (2 ^ 32 : Nat) := h
    unfold toInt
    rw [← Int.emod_bmod m, hmod, Int.emod_bmod]

theorem toInt_succ {n : Int} : toInt (toInt n + 1) = toInt (n + 1) :=
  Int.bmod_add_bmod

theorem connName_inj {ipPort : String} {m n : Int} :
    connName ipPort m = connName ipPort n ↔ m = n := by
  unfold connName
  rw [String.append_right_inj]
  exact Int.repr_inj

theorem nameOf_inj : r.nameOf c = r.nameOf d ↔ c ≡ d [MOD 2 ^ 32] := by
  unfold nameOf
  rw [connName_inj, toInt_eq_iff]
  unfold Nat.ModEq
  omega

/-! ### What the two functions do to the entries -/

theorem newConnection_entry {name : String} :
    r.newConnection.connections name =
      if name = connName r.ipPort r.nextConnId then some r.names.length
      else r.connections name :=
  Function.update_apply _ _ _ _

theorem newConnection_length : r.newConnection.names.length = r.names.length + 1 :=
  List.length_append

theorem removeConnectionInLoop_entry {connName name : String} (h : r.names[c]? = some connName) :
    (r.removeConnectionInLoop c).connections name =
      if name = connName then none else r.connections name := by
  unfold removeConnectionInLoop
  rw [h]
  exact Function.update_apply _ _ _ _

theorem removeConnectionInLoop_rest :
    (r.removeConnectionInLoop c).ipPort = r.ipPort ∧
      (r.removeConnectionInLoop c).nextConnId = r.nextConnId ∧
      (r.removeConnectionInLoop c).names = r.names := by
  unfold removeConnectionInLoop
  cases r.names[c]? with
  | some connName => exact ⟨rfl, rfl, rfl⟩
  | none => exact ⟨rfl, rfl, rfl⟩

theorem removeConnectionInLoop_nameOf : (r.removeConnectionInLoop c).nameOf d = r.nameOf d := by
  unfold nameOf
  rw [removeConnectionInLoop_rest.1]

/-! ### The numbering -/

/-- The numbers are those of the order in which the connections were accepted, and an entry is
under the name of its connection. -/
structure Numbered (r : Registry) : Prop where
  nextConnId : r.nextConnId = toInt (1 + r.names.length)
  names : ∀ c < r.names.length, r.names[c]? = some (r.nameOf c)
  entries : ∀ name d, r.connections name = some d → d < r.names.length ∧ name = r.nameOf d

theorem Numbered.connName (h : Numbered r) :
    connName r.ipPort r.nextConnId = r.nameOf r.names.length := by
  rw [h.nextConnId]
  rfl

theorem numbered_new (ipPort : String) : Numbered (new ipPort) where
  nextConnId := by
    show 1 = toInt 1
    exact (toInt_eq (by decide) (by decide)).symm
  names c hc := absurd hc (Nat.not_lt_zero c)
  entries name d hd := by cases hd

theorem Numbered.newConnection (h : Numbered r) : Numbered r.newConnection where
  nextConnId := by
    rw [newConnection_length]
    show toInt (r.nextConnId + 1) = _
    rw [h.nextConnId, toInt_succ, Int.add_assoc]
    rfl
  names c hc := by
    show (r.names ++ [_])[c]? = some (r.nameOf c)
    rw [h.connName]
    rw [newConnection_length] at hc
    rcases Nat.lt_or_ge c r.names.length with hlt | hge
    · rw [List.getElem?_append_left hlt]
      exact h.names c hlt
    · obtain rfl : c = r.names.length := by omega
      exact List.getElem?_concat_length
  entries name d hd := by
    rw [newConnection_length]
    rw [newConnection_entry, h.connName] at hd
    split at hd
    · next hname =>
      obtain rfl := Option.some.inj hd
      exact ⟨Nat.lt_succ_self _, hname⟩
    · obtain ⟨hlt, heq⟩ := h.entries name d hd
      exact ⟨Nat.lt_succ_of_lt hlt, heq⟩

theorem Numbered.removeConnectionInLoop (h : Numbered r) (hc : c < r.names.length) :
    Numbered (r.removeConnectionInLoop c) := by
  obtain ⟨-, hnext, hnames⟩ := removeConnectionInLoop_rest (r := r) (c := c)
  refine ⟨?_, ?_, ?_⟩
  · rw [hnext, hnames]
    exact h.nextConnId
  · intro d hd
    rw [hnames] at hd ⊢
    rw [removeConnectionInLoop_nameOf]
    exact h.names d hd
  · intro name d hd
    rw [removeConnectionInLoop_entry (h.names c hc)] at hd
    rw [hnames, removeConnectionInLoop_nameOf]
    split at hd
    · cases hd
    · exact h.entries name d hd

theorem Numbered.step (h : Numbered r) (hstep : lts.step r a r') : Numbered r' := by
  obtain ⟨hen, rfl⟩ := hstep
  cases a with
  | newConnection => exact h.newConnection
  | removeConnectionInLoop c => exact h.removeConnectionInLoop hen

theorem numbered_of_reachable (h : lts.Reachable r) : Numbered r := by
  refine h.induct ?_ ?_
  · rintro _ ⟨ipPort, rfl⟩
    exact numbered_new ipPort
  · intro r a r' _ hr hstep
    exact hr.step hstep

/-! ### Whose entry -/

theorem Numbered.open_iff (h : Numbered r) : r.Open d ↔ r.connections (r.nameOf d) = some d := by
  constructor
  · rintro ⟨name, hname⟩
    rw [(h.entries name d hname).2] at hname
    exact hname
  · intro hd
    exact ⟨_, hd⟩

theorem Numbered.ownEntry_iff (h : Numbered r) (hen : r.Enabled a) :
    r.OwnEntry a ↔ r.Apart a := by
  cases a with
  | newConnection =>
    unfold OwnEntry Apart
    rw [h.connName]
    constructor
    · intro hfree d hopen hsame
      rw [h.open_iff, nameOf_inj.mpr hsame, hfree] at hopen
      cases hopen
    · intro hapart
      rw [Option.eq_none_iff_forall_ne_some]
      intro d hd
      have hname := (h.entries _ d hd).2
      exact hapart d ⟨_, hd⟩ (nameOf_inj.mp hname.symm)
  | removeConnectionInLoop c =>
    unfold OwnEntry Apart
    have hentry : ∀ name, (r.removeConnectionInLoop c).connections name =
        if name = r.nameOf c then none else r.connections name :=
      fun name => removeConnectionInLoop_entry (h.names c hen)
    constructor
    · intro hkept d hopen hne hsame
      rw [h.open_iff] at hopen
      have hgone := hkept _ d hopen hne
      rw [hentry, if_pos (nameOf_inj.mpr hsame)] at hgone
      cases hgone
    · intro hapart name d hd hne
      have hname := (h.entries name d hd).2
      have hother : name ≠ r.nameOf c := by
        intro hsame
        exact hapart d ⟨name, hd⟩ hne (nameOf_inj.mp (hname.symm.trans hsame))
      rw [hentry, if_neg hother]
      exact hd

/-! ### Runs -/

theorem open_newConnection (hown : r.OwnEntry .newConnection) :
    r.newConnection.Open d ↔ d = r.names.length ∨ r.Open d := by
  constructor
  · rintro ⟨name, hname⟩
    rw [newConnection_entry] at hname
    split at hname
    · exact .inl (Option.some.inj hname).symm
    · exact .inr ⟨name, hname⟩
  · rintro (rfl | ⟨name, hname⟩)
    · exact ⟨_, newConnection_entry.trans (if_pos rfl)⟩
    · have hother : name ≠ connName r.ipPort r.nextConnId := by
        intro hsame
        rw [hsame, hown] at hname
        cases hname
      exact ⟨name, by rw [newConnection_entry, if_neg hother]; exact hname⟩

theorem Numbered.open_removeConnectionInLoop (h : Numbered r) (hc : c < r.names.length)
    (hown : r.OwnEntry (.removeConnectionInLoop c)) :
    (r.removeConnectionInLoop c).Open d ↔ r.Open d ∧ d ≠ c := by
  constructor
  · rintro ⟨name, hname⟩
    rw [removeConnectionInLoop_entry (h.names c hc)] at hname
    split at hname
    · cases hname
    · next hother =>
      refine ⟨⟨name, hname⟩, ?_⟩
      rintro rfl
      exact hother (h.entries name d hname).2
  · rintro ⟨⟨name, hname⟩, hne⟩
    exact ⟨name, hown name d hname hne⟩

/-- A run whose calls are all apart keeps every connection that has not been removed. -/
theorem open_of_apart (h : (lts.restrict Apart).Run as r) (hd : d < r.names.length)
    (hopen : .removeConnectionInLoop d ∉ as) : r.Open d := by
  refine h.induct (P := fun as r => ∀ d < r.names.length, .removeConnectionInLoop d ∉ as →
    r.Open d) ?_ ?_ d hd hopen
  · rintro _ ⟨ipPort, rfl⟩ d hd
    exact absurd hd (Nat.not_lt_zero d)
  intro as r a r' hr ih ⟨hapart, hen, hexec⟩ d hd hopen
  subst hexec
  have hnumbered := numbered_of_reachable ⟨as, hr.of_restrict⟩
  have hown := (hnumbered.ownEntry_iff hen).mpr hapart
  rw [List.mem_append, List.mem_singleton, not_or] at hopen
  cases a with
  | newConnection =>
    have hlt : d < r.names.length + 1 := newConnection_length ▸ hd
    rw [show r.exec .newConnection = r.newConnection from rfl, open_newConnection hown]
    rcases Nat.lt_succ_iff_lt_or_eq.mp hlt with hold | hnew
    · exact .inr (ih d hold hopen.1)
    · exact .inl hnew
  | removeConnectionInLoop c =>
    have hlt : d < r.names.length := removeConnectionInLoop_rest.2.2 ▸ hd
    rw [show r.exec (.removeConnectionInLoop c) = r.removeConnectionInLoop c from rfl,
      hnumbered.open_removeConnectionInLoop hen hown]
    refine ⟨ih d hlt hopen.1, ?_⟩
    rintro rfl
    exact hopen.2 rfl

/--
At the end of every run, `newConnection` inserts under a name that has no entry, and
`removeConnectionInLoop` erases nobody else's entry, if and only if no other open connection
was accepted a multiple of 2^32 connections before or after the one the call is for.  If
that is so of every call of the run, each connection that has not been removed is under its
name.
-/
theorem live_entries_kept (h : lts.Run as r) :
    (∀ a, r.Enabled a → (r.OwnEntry a ↔ r.Apart a)) ∧
      ((lts.restrict Apart).Run as r → ∀ d < r.names.length,
        .removeConnectionInLoop d ∉ as → r.connections (r.nameOf d) = some d) := by
  refine ⟨?_, ?_⟩
  · intro a hen
    exact (numbered_of_reachable ⟨as, h⟩).ownEntry_iff hen
  · intro hapart d hd hopen
    exact (numbered_of_reachable ⟨as, h⟩).open_iff.mp (open_of_apart hapart hd hopen)

/-- Up to 2^32 connections have different names. -/
theorem apart_of_length (h : lts.Reachable r) (hlength : r.names.length < 2 ^ 32) :
    r.Apart .newConnection := by
  rintro d ⟨name, hd⟩ hsame
  have hlt := ((numbered_of_reachable h).entries name d hd).1
  unfold Nat.ModEq at hsame
  omega

/-- A connection is accepted that stays, and `n` more that are closed one after the other. -/
def churn (n : Nat) : List Action :=
  .newConnection ::
    (List.range n).flatMap fun i => [.newConnection, .removeConnectionInLoop (i + 1)]

theorem churn_succ (n : Nat) :
    churn (n + 1) = churn n ++ [.newConnection] ++ [.removeConnectionInLoop (n + 1)] := by
  simp [churn, List.range_succ]

theorem churn_keeps (n : Nat) : .removeConnectionInLoop 0 ∉ churn n := by
  simp [churn]

/-- With only the first connection open, fewer than 2^32 connections after it, the next one comes
and goes. -/
theorem run_churn (ipPort : String) {n : Nat} (hn : n < 2 ^ 32) :
    ∃ r, (lts.restrict Apart).Run (churn n) r ∧ r.ipPort = ipPort ∧ r.names.length = n + 1 ∧
      ∀ d, r.Open d ↔ d = 0 := by
  induction n with
  | zero =>
      have hfree : (new ipPort).OwnEntry .newConnection := rfl
      have hapart := apart_of_length (Lts.Reachable.of_init ⟨ipPort, rfl⟩) (Nat.two_pow_pos 32)
      refine ⟨_, ⟨_, ⟨ipPort, rfl⟩, Lts.Path.single ⟨hapart, trivial, rfl⟩⟩, rfl, rfl, ?_⟩
      intro d
      refine (open_newConnection hfree).trans (or_iff_left ?_)
      rintro ⟨name, hname⟩
      cases hname
  | succ n ih =>
      obtain ⟨r, hrun, hport, hlength, hopen⟩ := ih (by omega)
      have hnumbered := numbered_of_reachable ⟨_, hrun.of_restrict⟩
      have hne : ¬ 0 ≡ n + 1 [MOD 2 ^ 32] := by
        unfold Nat.ModEq
        omega
      have hin : r.Apart .newConnection := by
        intro d hd
        rw [(hopen d).mp hd, hlength]
        exact hne
      have hnew := fun d => open_newConnection (d := d)
        ((hnumbered.ownEntry_iff (a := .newConnection) trivial).mpr hin)
      simp only [hlength, hopen] at hnew
      have hout : r.newConnection.Apart (.removeConnectionInLoop (n + 1)) := by
        intro d hd hother
        rw [((hnew d).mp hd).resolve_left hother]
        exact hne
      have hlt : n + 1 < r.newConnection.names.length := by
        rw [newConnection_length, hlength]
        omega
      have hgone := fun d => hnumbered.newConnection.open_removeConnectionInLoop (d := d) hlt
        ((hnumbered.newConnection.ownEntry_iff (a := .removeConnectionInLoop (n + 1)) hlt).mpr hout)
      obtain ⟨hport', -, hnames'⟩ :=
        removeConnectionInLoop_rest (r := r.newConnection) (c := n + 1)
      refine ⟨_, ?_, hport'.trans hport, ?_, ?_⟩
      · rw [churn_succ]
        exact (hrun.snoc ⟨hin, trivial, rfl⟩).snoc ⟨hout, hlt, rfl⟩
      · show (r.newConnection.removeConnectionInLoop (n + 1)).names.length = _
        rw [hnames', newConnection_length, hlength]
      · intro d
        refine (hgone d).trans ?_
        rw [hnew d]
        omega

/-- A second connection comes and goes, and the first stays under its name. -/
theorem live_entries_kept_two : ∃ r,
    lts.Run [.newConnection, .newConnection, .removeConnectionInLoop 1] r ∧
      r.connections "127.0.0.1:8000#1" = some 0 ∧ ¬ r.Open 1 ∧ r.OwnEntry .newConnection := by
  obtain ⟨r, hrun, hport, hlength, hopen⟩ := run_churn "127.0.0.1:8000" (n := 1) (by decide)
  obtain ⟨howns, hkept⟩ := live_entries_kept hrun.of_restrict
  have hname : r.nameOf 0 = "127.0.0.1:8000#1" := by
    rw [nameOf, hport]
    decide
  refine ⟨r, hrun.of_restrict, ?_, by simp [hopen], (howns .newConnection trivial).mpr ?_⟩
  · rw [← hname]
    exact hkept hrun 0 (by omega) (churn_keeps 1)
  · intro d hd
    rw [(hopen d).mp hd, hlength]
    decide

/-- The first connection stays open while 2^32 - 1 others come and go; the next one gets its name,
and takes its entry.  To remove the first is then to remove the last. -/
theorem first_entry_overwritten :
    ∃ as r, lts.Run as r ∧ .removeConnectionInLoop 0 ∉ as ∧ (∀ d, r.Open d ↔ d = 0) ∧
      r.connections (r.nameOf 0) = some 0 ∧ ¬ r.OwnEntry .newConnection ∧
      r.newConnection.connections (r.nameOf 0) = some (2 ^ 32) ∧
      ¬ r.newConnection.OwnEntry (.removeConnectionInLoop 0) := by
  obtain ⟨r, hrun, -, hlength, hopen⟩ := run_churn "127.0.0.1:8000" (n := 2 ^ 32 - 1) (by decide)
  have hlength : r.names.length = 2 ^ 32 := hlength
  have hnumbered := numbered_of_reachable ⟨_, hrun.of_restrict⟩
  have hfirst : r.connections (r.nameOf 0) = some 0 := hnumbered.open_iff.mp ((hopen 0).mpr rfl)
  have hsame : r.nameOf 0 = connName r.ipPort r.nextConnId := by
    rw [hnumbered.connName, hlength]
    exact nameOf_inj.mpr rfl
  have hlast : r.newConnection.connections (r.nameOf 0) = some (2 ^ 32) := by
    rw [newConnection_entry, if_pos hsame, hlength]
  refine ⟨_, r, hrun.of_restrict, churn_keeps _, hopen, hfirst, ?_, hlast, ?_⟩
  · intro hfree
    rw [hsame, hfree] at hfirst
    cases hfirst
  · intro hkept
    have hgone := hkept _ _ hlast (by decide)
    have hname : r.newConnection.names[0]? = some (r.nameOf 0) :=
      hnumbered.newConnection.names 0 (by rw [newConnection_length]; omega)
    rw [removeConnectionInLoop_entry hname, if_pos rfl] at hgone
    cases hgone

end Registry

end Muduo
