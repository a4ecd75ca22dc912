import ReplicatedTable.Proofs.Raft.Acknowledgement
import ReplicatedTable.Proofs.Raft.Durability

/-!
# What a write does to the replicas that it reaches

In a closed group the logs that a leader meets may lack entries, and may hold entries that were never
decided. No peer has to give up what it has applied, as that is decided and the leader holds it
(`Fits.applied_le_agreement`). And no peer has more than the leader once the leader has appended an entry of
its own term: whatever a log holds of this term is a front of the leader's log (`Sound.merge_pushed`). So a
write that succeeds leaves every peer within reach that has not halted with the leader's log, and the second
round tells it to apply all of it (`Sound.caught_up`).
-/
namespace ReplicatedTable.Raft

open Log

variable {σ : Type}

namespace Replica
variable [StateMachine σ] {f leader : Replica σ} {term : Nat}

/-- A replica that has not halted by the end has merged the leader's log into its own, and has applied what
the leader has. -/
theorem receive_of_running (hs : f.stopped = false) (ht : f.term ≤ term) (hb : f.Bounded)
    (hend : (f.receive leader term).1.halted = none)
    (hfront : f.applied ≤ agreement leader.log f.log ∨
      leader.log.length ≤ agreement leader.log f.log) :
    (f.receive leader term).1.log = merge f.log leader.log ∧
      (f.receive leader term).1.applied =
        max f.applied (min leader.applied (merge f.log leader.log).length) := by
  have hc := receive_receipt f leader term hb
  generalize (f.receive leader term).1 = r, (f.receive leader term).2 = ans at hc hend ⊢
  cases hc with
  | down hs' => rw [hs] at hs'; cases hs'
  | stale hs' ht' => omega
  | halted hs' ht' hh => rw [follow_halted] at hend; rw [hend] at hh; cases hh
  | conflict hs' ht' hh hc hl => omega
  | taken hs' ht' hh hc hr =>
    have hrun := applyUpTo_of_running (f.taking leader term) _ (hr ▸ hend)
    refine ⟨by rw [hr, applyUpTo_log, taking], ?_⟩
    rw [hr, hrun.2]
    simp only [taking, follow_applied]
    omega

/-- A replica that has not halted by the end had not before. -/
theorem running_of_receive (hb : f.Bounded) (h : (f.receive leader term).1.halted = none) :
    f.halted = none := by
  obtain ⟨x, hx, e | ⟨index, e⟩⟩ := Rewritten.receive hb leader term <;> rw [e] at h
  · exact hx.halted ▸ h
  · by_contra hne
    rw [← hx.halted] at hne
    have hlast := (Lasts.applyUpTo hx.bound index).halted (Option.isSome_iff_ne_none.mpr hne)
    exact hne (hlast.1 ▸ h)

/-- In the first round of a write a peer takes the leader's log, and in the second it hears that all of it is
applied. -/
theorem receive_twice {leader' : Replica σ} (hs : f.stopped = false) (ht : f.term ≤ term)
    (hb : f.Bounded) (hfront : f.applied ≤ agreement leader.log f.log)
    (hmerge : merge f.log leader.log = leader.log) (hlog : leader'.log = leader.log)
    (happlied : leader'.applied = leader.log.length)
    (hend : ((f.receive leader term).1.receive leader' term).1.halted = none) :
    ((f.receive leader term).1.receive leader' term).1.log = leader.log ∧
      ((f.receive leader term).1.receive leader' term).1.applied = leader.log.length := by
  have hb' := hb.receive leader term
  have hfirst := (receive_of_running hs ht hb (running_of_receive hb' hend) (Or.inl hfront)).1
  rw [hmerge] at hfirst
  have hs' := (receive_stopped f leader term).trans hs
  have ht' := receive_term_le leader ht
  generalize (f.receive leader term).1 = f' at hend hb' hfirst hs' ht' ⊢
  have hsame : f'.log = leader'.log := hfirst.trans hlog.symm
  have hall : agreement leader'.log f'.log = leader'.log.length := by
    rw [hsame, agreement_of_prefix List.prefix_rfl]
  obtain ⟨hlast, happ⟩ := receive_of_running hs' ht' hb' hend (Or.inr (Nat.le_of_eq hall.symm))
  have hkeep := merge_of_prefix (prefix_of_eq hsame)
  rw [hkeep] at hlast happ
  refine ⟨hlast.trans hlog, happ.trans ?_⟩
  have hle : f'.applied ≤ leader.log.length := hfirst ▸ hb'
  rw [happlied, hlog]
  omega

end Replica

namespace Network
open Replica Chronicle

variable {voters : Voters} {g : Chronicle} {n : Network σ} {i j : Nat} {r f : Replica σ}
  {data : List UInt8}

/-- What a replica has applied it has in common with any log that holds what is decided. -/
theorem Fits.applied_le_agreement (h : Fits g j f) {log : Log} (hlog : g.decided <+: log) :
    f.applied ≤ agreement log f.log := by
  have hle := le_agreement_of_front (h.front.trans hlog) (List.take_prefix f.applied f.log)
  rwa [List.length_take, Nat.min_eq_left h.bound] at hle

/-- Nobody has an entry behind the one that a leader has just appended. -/
theorem Sound.merge_pushed (h : n.Sound voters g) (hr : n.replicas[i]? = some r)
    (hl : r.leader = true) (hf : n.replicas[j]? = some f) (data : List UInt8) :
    merge f.log (r.pushed data).log = (r.pushed data).log := by
  obtain ⟨-, hbook, -⟩ := (h.fits i r hr).leads hl
  have htraced := (h.fits j f hf).traced
  have hpushed := ((h.fits i r hr).push hl data).traced
  rcases merge_cases (hpushed.matches (htraced.extends write_extends)).front with e | ⟨-, hpre⟩
  · exact e
  · -- the follower's log would have an entry of the leader's term that the leader has not written
    obtain ⟨rest, hrest⟩ := hpre
    have hentry : f.log[r.log.length]? = some ⟨r.term, data⟩ := by
      rw [← hrest, List.getElem?_append_left (by simp [pushed])]
      exact List.getElem?_concat_length
    have hle := (htraced _ _ hentry).2.length_le
    have hlt := (List.getElem?_eq_some_iff.mp hentry).1
    rw [← hbook, List.length_take] at hle
    omega

variable [StateMachine σ]

/-- A peer within reach hears from the leader before and after the leader applies its entry. -/
theorem replica?_both_rounds {r' : Replica σ} (hnodup : (i :: n.reachable r).Nodup)
    (hj : j ∈ n.reachable r) (hf : n.replica? j = some f) :
    (((n.spread i r data).put i r').mapAt (fun f => (f.receive r' r.term).1) (n.reachable r)).replica? j =
      some ((f.receive (r.pushed data) r.term).1.receive r' r.term).1 := by
  obtain ⟨hnot, hnodup⟩ := List.nodup_cons.mp hnodup
  have hij : i ≠ j := fun e => hnot (e ▸ hj)
  have hput : (n.put i (r.pushed data)).replica? j = some f := (replica?_put_ne _ hij).trans hf
  have hfirst : ((n.spread i r data).put i r').replica? j =
      some (f.receive (r.pushed data) r.term).1 := by
    rw [replica?_put_ne _ hij]
    exact replica?_eq_some.mpr ⟨mapAt_getElem?_of_mem hnodup hj hput,
      (receive_dropped ..).trans (replica?_eq_some.mp hf).2⟩
  exact replica?_eq_some.mpr ⟨mapAt_getElem?_of_mem hnodup hj hfirst,
    (receive_dropped ..).trans (replica?_eq_some.mp hfirst).2⟩

/-- A write that succeeds leaves the leader, which has not halted, and every peer within reach that has not
halted with one log, all of it applied. -/
theorem Sound.caught_up (h : n.Sound voters g) (hp : n.Presided g) (hw : n.Wired) {index : Nat}
    (hans : (n.submit i data).answer = .ok index) :
    ∃ r, n.replica? i = some r ∧ index = r.log.length + 1 ∧
      (∃ s, (n.submit i data).network.replica? i = some s ∧ s.halted = none) ∧
      ∀ j ∈ i :: n.reachable r, ∃ s, (n.submit i data).network.replica? j = some s ∧
        (s.halted = none → s.log = r.log ++ [⟨r.term, data⟩] ∧ s.applied = index) := by
  have hc := submit_write hw i data
  generalize (n.submit i data).network = m, (n.submit i data).answer = ans at hc hans ⊢
  subst hans
  cases hc with
  | @committed r r' hr hwr ha hcommit hacks =>
    have hat := (replica?_eq_some.mp hr).1
    have hnodup := h.grouped.nodup_electorate hw hr
    have hr' : r' = ((r.pushed data).applyUpTo (r.pushed data).log.length).1 := by rw [hcommit]
    have hlog : r'.log = (r.pushed data).log := by rw [hr', applyUpTo_log]
    have hlen : (r.pushed data).log.length = r.log.length + 1 := by simp [pushed]
    have hbound := (h.fits i r hat).bound
    have hok := applyUpTo_of_ok (r.pushed data) _ (congrArg Prod.snd hcommit)
    have happlied : r'.applied = r.log.length + 1 := by
      rw [hr', (applyUpTo_of_running _ _ hok).2, Nat.min_self, hlen]
      exact Nat.max_eq_right (Nat.le_succ_of_le hbound)
    have hleader := (replica?_mapAt_of_not_mem
      (f := fun f => (f.receive r' r.term).1) (List.nodup_cons.mp hnodup).1).trans
        (replica?_applied hw hr hcommit)
    refine ⟨r, hr, hlen, ⟨r', hleader, by rw [hr']; exact hok⟩, fun j hj => ?_⟩
    rw [hlen]
    rcases List.mem_cons.mp hj with rfl | hj
    · exact ⟨r', hleader, fun _ => ⟨hlog, happlied⟩⟩
    · obtain ⟨f, id, hf, hs, -⟩ := hw.peer hj
      have hfat := (replica?_eq_some.mp hf).1
      have hfits := h.fits j f hfat
      refine ⟨_, replica?_both_rounds hnodup hj hf, fun hrun => ?_⟩
      have hdecided : g.decided <+: (r.pushed data).log :=
        (hp.writer h hw hr hwr).trans (List.prefix_append ..)
      have hboth := receive_twice hs (hwr.newest j hj f hf) hfits.bound
        (hfits.applied_le_agreement hdecided) (h.merge_pushed hat hwr.leads hfat data) hlog
        (happlied.trans hlen.symm) hrun
      rwa [hlen] at hboth

end Network

end ReplicatedTable.Raft
