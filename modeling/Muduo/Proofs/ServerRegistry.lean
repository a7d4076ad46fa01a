/-
The entries of a server are those of a registry.

`TcpServer` keeps the numbers of the connections in `connections_`, `Registry` their names.
A server accepts fewer than 2^31 connections, so that its numbers are still names: every
step of it leaves the entries alone or is a step of the registry, and its run is followed
by one of the registry.
-/
import Muduo.Proofs.Registry
import Muduo.Proofs.Wired

namespace Muduo

namespace TcpServer

variable {s s' : TcpServer} {a : Action} {r : Registry} {c d : Nat}

/-- What an action can do to `connections_` and `nextConnId_`. -/
theorem Step.listing (hstep : Step s a s') :
    (s'.nextConnId = s.nextConnId ∧ s'.connections = s.connections) ∨
      (s.nextConnId + 1 < 2 ^ 31 ∧ s'.nextConnId = s.nextConnId + 1 ∧
        s'.connections = insert s.nextConnId s.connections) ∨
      (s'.nextConnId = s.nextConnId ∧ ∃ c, s'.connections = s.connections.erase c) := by
  cases hstep with
  | acceptHere en | accept en => exact .inr (.inl ⟨en.2.2.2.2.1, rfl, rfl⟩)
  | closeHere | removal | release => exact .inr (.inr ⟨rfl, _, rfl⟩)
  | _ => exact .inl ⟨rfl, rfl⟩

/-- The registry has an entry for each connection of the server, which is one ahead in
numbering. -/
structure Files (r : Registry) (s : TcpServer) : Prop where
  reachable : Registry.lts.Reachable r
  nextConnId : s.nextConnId = r.names.length + 1
  bound : s.nextConnId < 2 ^ 31
  listed : ∀ c, c ∈ s.connections ↔ ∃ d, c = d + 1 ∧ r.Open d

theorem Files.congr (h : Files r s) (hnext : s'.nextConnId = s.nextConnId)
    (hlisted : ∀ c, c ∈ s'.connections ↔ c ∈ s.connections) : Files r s' where
  reachable := h.reachable
  nextConnId := hnext.trans h.nextConnId
  bound := hnext ▸ h.bound
  listed c := (hlisted c).trans (h.listed c)

theorem Files.insert (h : Files r s) (hbound : s.nextConnId + 1 < 2 ^ 31)
    (hnext : s'.nextConnId = s.nextConnId + 1)
    (hlisted : s'.connections = insert s.nextConnId s.connections) :
    Files r.newConnection s' := by
  have hlength := h.nextConnId
  have hnumbered := Registry.numbered_of_reachable h.reachable
  have hown := (hnumbered.ownEntry_iff (a := .newConnection) trivial).mpr
    (Registry.apart_of_length h.reachable (by omega))
  refine ⟨h.reachable.step (a := .newConnection) ⟨trivial, rfl⟩, ?_, by omega, ?_⟩
  · rw [hnext, h.nextConnId, Registry.newConnection_length]
  · intro c
    rw [hlisted, Finset.mem_insert, h.listed, h.nextConnId]
    simp only [Registry.open_newConnection hown]
    constructor
    · rintro (rfl | ⟨d, rfl, hd⟩)
      · exact ⟨_, rfl, .inl rfl⟩
      · exact ⟨d, rfl, .inr hd⟩
    · rintro ⟨d, rfl, rfl | hd⟩
      · exact .inl rfl
      · exact .inr ⟨d, rfl, hd⟩

/-- Of fewer than 2^31 connections no two have one name. -/
theorem Files.ownEntry (h : Files r s) (hd : d < r.names.length) :
    r.OwnEntry (.removeConnectionInLoop d) := by
  have hlength := h.nextConnId
  have hbound := h.bound
  have hnumbered := Registry.numbered_of_reachable h.reachable
  apply (hnumbered.ownEntry_iff (a := .removeConnectionInLoop d) hd).mpr
  rintro e ⟨name, he⟩ hne hsame
  have hlt := (hnumbered.entries name e he).1
  unfold Nat.ModEq at hsame
  omega

theorem Files.erase (h : Files r s) (hnext : s'.nextConnId = s.nextConnId)
    (hlisted : s'.connections = s.connections.erase c) : ∃ r', Files r' s' := by
  by_cases hmem : c ∈ s.connections
  · have hnumbered := Registry.numbered_of_reachable h.reachable
    obtain ⟨d, rfl, hopen⟩ := (h.listed c).mp hmem
    have hd : d < r.names.length := by
      obtain ⟨name, hname⟩ := hopen
      exact (hnumbered.entries name d hname).1
    refine ⟨r.removeConnectionInLoop d,
      h.reachable.step (a := .removeConnectionInLoop d) ⟨hd, rfl⟩, ?_, hnext ▸ h.bound, ?_⟩
    · rw [hnext, h.nextConnId, Registry.removeConnectionInLoop_rest.2.2]
    · intro c
      rw [hlisted, Finset.mem_erase, h.listed]
      simp only [hnumbered.open_removeConnectionInLoop hd (h.ownEntry hd)]
      constructor
      · rintro ⟨hne, e, rfl, he⟩
        exact ⟨e, rfl, he, fun heq => hne (by rw [heq])⟩
      · rintro ⟨e, rfl, he, hne⟩
        exact ⟨fun heq => hne (Nat.succ.inj heq), e, rfl, he⟩
  · refine ⟨r, h.congr hnext ?_⟩
    intro c
    rw [hlisted, Finset.erase_eq_of_notMem hmem]

theorem Files.step (h : Files r s) (hstep : Step s a s') : ∃ r', Files r' s' := by
  rcases hstep.listing with ⟨hnext, hsame⟩ | ⟨hbound, hnext, hinsert⟩ | ⟨hnext, c, herase⟩
  · exact ⟨r, h.congr hnext fun c => by rw [hsame]⟩
  · exact ⟨r.newConnection, h.insert hbound hnext hinsert⟩
  · exact h.erase hnext herase

/-- Some run of a registry leads to the entries of the server. -/
theorem files_of_reachable (h : lts.Reachable s) : ∃ r, Files r s := by
  refine h.induct (P := fun s => ∃ r, Files r s) ?_ ?_
  · intro s h0
    refine ⟨Registry.new "", Lts.Reachable.of_init ⟨"", rfl⟩, h0.nextConnId, ?_, ?_⟩
    · rw [h0.nextConnId]
      decide
    · intro c
      rw [h0.connections]
      constructor
      · intro hc
        exact absurd hc (Finset.notMem_empty c)
      · rintro ⟨d, -, name, hname⟩
        cases hname
  · rintro s a s' hs ⟨r, hr⟩ hstep
    exact hr.step (step_cases (wired_of_reachable hs) hstep)

end TcpServer

end Muduo
