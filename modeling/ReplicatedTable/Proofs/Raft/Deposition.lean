import ReplicatedTable.Proofs.Raft.Adoption
import ReplicatedTable.Proofs.Raft.Rejection

/-!
# Leaders that were superseded

A leader that was cut off during an election takes itself for the leader until it hears of the later term.
Before a write it looks at the terms of the peers within its reach. It writes nothing if one of them is ahead,
and gives up leadership if it got that far (`Superseded.submit_concedes`).

When it adds a voter it does not look. It writes the voter down, goes on leading, and takes the refusal of the
peer that is ahead for a peer that could not be reached (`superseded_leader`). The voters of such a leader are
then no longer those of the group (`superseded_leader_adds_voter`).
-/
namespace ReplicatedTable.Raft.Network

open Replica

variable {σ : Type}

/-- A replica takes itself for the leader, though a voter within its reach is at a later term. -/
structure Superseded (n : Network σ) (i : Nat) (r : Replica σ) (j : Nat) (f : Replica σ) : Prop where
  here : n.replica? i = some r
  leads : r.leader = true
  reached : j ∈ n.reachable r
  peer : n.replica? j = some f
  behind : r.term < f.term

/-- A voter stays within reach unless its id is moved to another address. -/
theorem mem_reachable_widened {n : Network σ} {r f : Replica σ} {j : Nat} {id address : String}
    (hw : n.Wired) (hj : j ∈ n.reachable r) (hf : n.replica? j = some f)
    (hid : r.voters[id]? ≠ some f.address) : j ∈ n.reachable (r.widened id address) := by
  obtain ⟨voter, a, hv, ha, hp⟩ := mem_reachable.mp hj
  obtain ⟨rfl, -⟩ := hw.of_peer? hp hf
  refine mem_reachable.mpr ⟨voter, f.address, ?_, ha, hp⟩
  rw [widened, Std.ExtTreeMap.getElem?_insert, if_neg]
  · exact hv
  · intro heq
    rw [Std.LawfulEqCmp.eq_of_compare heq] at hid
    exact hid hv

variable [StateMachine σ] {n : Network σ} {i j : Nat} {r f : Replica σ}

namespace Superseded

/-- A write fails and changes no log. -/
theorem submit_logs (h : n.Superseded i r j f) (hw : n.Wired) (data : List UInt8) :
    (∃ e, (n.submit i data).answer = .error e) ∧ (n.submit i data).network.logs = n.logs ∧
      ∃ r', (n.submit i data).network.replica? i = some r' ∧ r'.voters = r.voters := by
  have hunwritable : ∀ {x : Replica σ}, n.replica? i = some x → ¬n.Writable x := fun {x} hx hwr => by
    rw [h.here] at hx
    cases hx
    exact absurd h.behind (Nat.not_lt_of_le (hwr.newest j h.reached f h.peer))
  have hc := submit_write hw i data
  generalize (n.submit i data).network = m, (n.submit i data).answer = ans at hc ⊢
  cases hc with
  | refused e => exact ⟨⟨e, rfl⟩, rfl, r, h.here, rfl⟩
  | @conceded x newer hx =>
    rw [h.here] at hx
    cases hx
    obtain ⟨hat, hd⟩ := replica?_eq_some.mp h.here
    exact ⟨⟨_, rfl⟩, logs_put hat (setLeader_log ..), _,
      replica?_put_self _ h.here ((setLeader_dropped ..).trans hd), setLeader_voters ..⟩
  | unacknowledged hx hwr => exact absurd hwr (hunwritable hx)
  | failed hx hwr => exact absurd hwr (hunwritable hx)
  | committed hx hwr => exact absurd hwr (hunwritable hx)

/-- A write that gets as far as the terms of the peers makes the leader step down. -/
theorem submit_concedes (h : n.Superseded i r j f) (hs : r.stopped = false) (hh : r.halted = none)
    (hq : majority r.voters ≤ (n.reachable r).length + 1) (data : List UInt8) :
    ∃ newer, r.term < newer ∧ n.submit i data =
      ⟨n.put i (r.deposed newer), .error (r.deposed newer).notLeader, []⟩ := by
  cases hnewer : n.newerTerm? r.term (n.reachable r) with
  | none => exact absurd h.behind (Nat.not_lt_of_le (le_of_newerTerm?_eq_none hnewer h.reached h.peer))
  | some newer =>
    refine ⟨newer, (newerTerm?_eq_some hnewer).1, ?_⟩
    unfold submit withReplica
    simp only [h.here, hs, hh, h.leads]
    rw [if_neg (Nat.not_lt_of_le hq), hnewer]
    dsimp only
    rw [concede, h.here]
    rfl

/-- The leader adds a voter, and the peer that is ahead takes no notice. -/
theorem addVoter_done (h : n.Superseded i r j f) (hw : n.Wired) (hb : n.Everywhere Bounded)
    (hs : r.stopped = false) {id address : String} (hv : r.voters[id]? ≠ some address) :
    (n.addVoter i id address 0).answer = .ok () ∧
      (n.addVoter i id address 0).network.replica? i = some (r.widened id address) ∧
      (n.addVoter i id address 0).network.replica? j = some f ∧
      (r.voters[id]? ≠ some f.address → (⟨.voterSync, r.id, f.id, .staleTerm f.term⟩ : Refusal) ∈
        (n.addVoter i id address 0).refusals) := by
  have hwiden : n.Widens i r id address 0 := ⟨h.here, hs, h.leads, Or.inl rfl, hv⟩
  obtain ⟨hkept, hrefused⟩ : adopt (r.widened id address) f = f ∧
      adoption (r.widened id address) f = .error (.staleTerm f.term) :=
    adopt_of_stale (hw.running h.reached h.peer) h.behind
  refine ⟨hwiden.answer, hwiden.addVoter_self hw, ?_, fun hid => ?_⟩
  · by_cases hj : j ∈ n.reachable (r.widened id address)
    · rw [hwiden.addVoter_peer hw hb hj h.peer, hkept]
    · have hij : i ≠ j := fun e =>
        hw.not_mem_reachable (replica?_eq_some.mp h.here).1 rfl (e ▸ h.reached)
      rw [hwiden.addVoter_other hw hij hj, h.peer]
  · exact hwiden.mem_addVoter_refusals hw (mem_reachable_widened hw h.reached h.peer hid) h.peer
      hrefused

end Superseded

/-- A leader that was superseded writes nothing, and steps down if a write gets as far as the terms of its
peers. Nevertheless it adds every voter that it does not have, whatever the peer says that is ahead. -/
theorem superseded_leader {ops : List (Op σ)} (h : (run {} ops).Superseded i r j f) :
    (∀ data, (∃ e, ((run {} ops).submit i data).answer = .error e) ∧
      ((run {} ops).submit i data).network.logs = (run {} ops).logs ∧
      ∃ r', ((run {} ops).submit i data).network.replica? i = some r' ∧ r'.voters = r.voters ∧
        (r.stopped = false → r.halted = none →
          majority r.voters ≤ ((run {} ops).reachable r).length + 1 →
            r'.leader = false ∧ r.term < r'.term)) ∧
    ∀ id address, r.voters[id]? ≠ some address →
      (r.stopped = true → (run {} ops).addVoter i id address 0 = (run {} ops).refuse .shutdown) ∧
      (r.stopped = false →
        ((run {} ops).addVoter i id address 0).answer = .ok () ∧
        ((run {} ops).addVoter i id address 0).network.replica? i = some (r.widened id address) ∧
        ((run {} ops).addVoter i id address 0).network.replica? j = some f ∧
        (r.voters[id]? ≠ some f.address →
          (⟨.voterSync, r.id, f.id, .staleTerm f.term⟩ : Refusal) ∈
            ((run {} ops).addVoter i id address 0).refusals)) := by
  have hw : (run {} ops).Wired := wired_run wired_empty ops
  have hb := run_bounded ops
  generalize run {} ops = n at h hw hb ⊢
  refine ⟨fun data => ?_, fun id address hv =>
    ⟨fun hs => ?_, fun hs => h.addVoter_done hw hb hs hv⟩⟩
  · obtain ⟨herror, hlogs, r', hr', hvoters⟩ := h.submit_logs hw data
    refine ⟨herror, hlogs, r', hr', hvoters, fun hs hh hq => ?_⟩
    obtain ⟨newer, hnewer, e⟩ := h.submit_concedes hs hh hq data
    have hput := replica?_put_self (r.deposed newer) h.here
      ((setLeader_dropped ..).trans (replica?_eq_some.mp h.here).2)
    rw [e] at hr'
    cases hput.symm.trans hr'
    exact ⟨setLeader_leader .., by rw [deposed, setLeader_term]; exact hnewer⟩
  · unfold addVoter withReplica
    simp only [h.here, hs, if_true]

/-- Three voters. The first leader is cut off while the second replica takes over, and comes back. -/
def healedLeader : List (Op Recorder) :=
  threeVoters ++ [.heal "a3", .isolate "a1", .campaign 1, .heal "a1"]

theorem healedLeader_superseded :
    ∃ r f, (run {} healedLeader).Superseded 0 r 1 f ∧ r.stopped = false ∧ r.halted = none ∧
      majority r.voters ≤ ((run {} healedLeader).reachable r).length + 1 ∧
      r.voters["n4"]? = none := by
  have hleader : ((run {} healedLeader).replica? 0).map (fun r => (r.leader, r.stopped, r.term)) =
      some (true, false, 1) := by decide +kernel
  have hsound : ((run {} healedLeader).replica? 0).all (fun r => r.halted.isNone) = true := by
    decide +kernel
  have hvoters : ((run {} healedLeader).replica? 0).map (fun r =>
      (majority r.voters, (run {} healedLeader).reachable r, r.voters["n4"]?)) =
      some (2, [1, 2], none) := by decide +kernel
  have hpeer : ((run {} healedLeader).replica? 1).map Replica.term = some 2 := by decide +kernel
  obtain ⟨r, hr, hleader⟩ := Option.map_eq_some_iff.mp hleader
  obtain ⟨f, hf, hpeer⟩ := Option.map_eq_some_iff.mp hpeer
  rw [hr, Option.map_some, Option.some_inj, Prod.mk.injEq, Prod.mk.injEq] at hvoters
  rw [hr, Option.all_some, Option.isNone_iff_eq_none] at hsound
  rw [Prod.mk.injEq, Prod.mk.injEq] at hleader
  obtain ⟨hl, hs, hterm⟩ := hleader
  obtain ⟨hmaj, hreach, hnew⟩ := hvoters
  refine ⟨r, f, ⟨hr, hl, ?_, hf, by omega⟩, hs, hsound, ?_, hnew⟩
  · rw [hreach]
    exact List.mem_cons_self ..
  · rw [hreach, hmaj]
    decide

/-- The leader that comes back steps down at a write, but not when it adds a voter. -/
theorem superseded_leader_healed : ∃ r f, (run {} healedLeader).Superseded 0 r 1 f ∧
    (∃ r', ((run {} healedLeader).submit 0 [1]).network.replica? 0 = some r' ∧ r'.leader = false) ∧
    ((run {} healedLeader).addVoter 0 "n4" "a4" 0).network.replica? 0 =
      some (r.widened "n4" "a4") := by
  obtain ⟨r, f, h, hs, hh, hq, hnew⟩ := healedLeader_superseded
  obtain ⟨hwrite, hadd⟩ := superseded_leader h
  obtain ⟨-, -, r', hr', -, hdown⟩ := hwrite [1]
  obtain ⟨-, hdone⟩ := hadd "n4" "a4" (by rw [hnew]; exact fun h => by cases h)
  exact ⟨r, f, h, ⟨r', hr', (hdown hs hh hq).1⟩, (hdone hs).2.1⟩

/-- It is not so that a leader that was superseded adds no voter. -/
theorem superseded_leader_adds_voter : ¬∀ (ops : List (Op Recorder)) (i j : Nat)
    (r f : Replica Recorder) (id address : String), (run {} ops).Superseded i r j f →
    r.voters[id]? = none → (∃ e, ((run {} ops).addVoter i id address 0).answer = .error e) ∧
      (((run {} ops).addVoter i id address 0).network.replica? i).map Replica.voters =
        some r.voters := by
  intro hall
  obtain ⟨r, f, h, -, -, -, hnew⟩ := healedLeader_superseded
  obtain ⟨⟨e, he⟩, -⟩ := hall healedLeader 0 1 r f "n4" "a4" h hnew
  have hok : ((run {} healedLeader).addVoter 0 "n4" "a4" 0).answer = .ok () := by decide +kernel
  rw [hok] at he
  cases he

end ReplicatedTable.Raft.Network
