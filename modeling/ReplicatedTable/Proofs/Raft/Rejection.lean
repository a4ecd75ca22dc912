import ReplicatedTable.Proofs.Raft.Acknowledgement

/-!
# What a refused write leaves behind

A leader appends an entry only if the peers within its reach, with itself, would make a majority, and if
none of them is at a later term. That does not say that these peers take the entry. `refused_write` lists
what a write that fails can have left: no trace in any log, or an entry that the leader's own machine has
failed on, or an entry that was not acknowledged, in the leader's log and in those of the peers that took
it. In the last case a peer that was counted as within reach has halted, or would have to give up an applied
entry. The entry is not taken back (`refused_write_is_appended`), and a later write may commit it.
-/
namespace ReplicatedTable.Raft.Network

open Replica

variable {σ : Type}

/-- The logs of all replicas, by number. -/
def logs (n : Network σ) : List Log := n.replicas.map Replica.log

theorem logs_put {n : Network σ} {i : Nat} {x y : Replica σ} (hx : n.replicas[i]? = some x)
    (hlog : y.log = x.log) : (n.put i y).logs = n.logs := by
  refine List.ext_getElem? fun k => ?_
  rw [logs, logs, List.getElem?_map, List.getElem?_map]
  by_cases hik : i = k
  · subst hik
    rw [put_getElem?_self y hx, hx, Option.map_some, Option.map_some, hlog]
  · rw [put_getElem?_ne n i y hik]

variable [StateMachine σ]

/-- What a write that fails leaves behind, `n` being the network before it. -/
inductive Leaves (n : Network σ) (i : Nat) (data : List UInt8) (m : Network σ) : Error → Prop where
  /-- Nothing that could be committed. -/
  | nothing (e : Error) (h : m.logs = n.logs) : Leaves n i data m e
  /-- An acknowledged entry, on which the leader's machine has failed. -/
  | failure {r r' : Replica σ} {e : Error} (hr : n.replica? i = some r) (hrun : r.halted = none)
    (hr' : m.replica? i = some r') (hlog : r'.log = r.log ++ [⟨r.term, data⟩])
    (hfail : r'.halted = some e.message) : Leaves n i data m e
  /-- An entry that was not acknowledged, as a peer within reach was unable to take it. -/
  | entry {r r' f : Replica σ} {j : Nat} (hr : n.replica? i = some r) (hr' : m.replica? i = some r')
    (hlog : r'.log = r.log ++ [⟨r.term, data⟩]) (hj : j ∈ n.reachable r) (hf : m.replica? j = some f)
    (hun : f.Unable r'.log) :
    Leaves n i data m (.consensus (.notAcknowledged r'.log.length))

/-- A write that fails leaves no trace, unless the leader's machine fails or a peer that was counted as within
reach is unable to take the entry. -/
theorem refused_write {ops : List (Op σ)} {i : Nat} {data : List UInt8} {e : Error}
    (h : ((run {} ops).submit i data).answer = .error e) :
    Leaves (run {} ops) i data ((run {} ops).submit i data).network e := by
  have hw : (run {} ops).Wired := wired_run wired_empty ops
  have hb := run_bounded ops
  generalize run {} ops = n at hw hb h ⊢
  have hc := submit_write hw i data
  generalize (n.submit i data).network = m, (n.submit i data).answer = ans at hc h ⊢
  subst h
  cases hc with
  | refused _ => exact .nothing e rfl
  | conceded hr =>
    exact .nothing _ (logs_put (replica?_eq_some.mp hr).1 (setLeader_log ..))
  | @unacknowledged r hr hwr ha hacks =>
    obtain ⟨acks, hacks, hshort⟩ := hacks
    have hquorum := hwr.quorum
    obtain ⟨j, hj, f, hf, hun⟩ := (acknowledged_spread hw hb hr hwr hacks).2 (by omega)
    exact .entry hr (replica?_spread hw hr data) rfl hj hf hun
  | @failed r r' e hr hwr ha hf hacks =>
    have hr' : r' = ((r.pushed data).applyUpTo (r.pushed data).log.length).1 := by rw [hf]
    have hhalted := applyUpTo_of_error (r.pushed data) (r.pushed data).log.length hwr.sound
      (congrArg Prod.snd hf)
    rw [← hr'] at hhalted
    exact .failure hr hwr.sound (replica?_applied hw hr hf) (by rw [hr', applyUpTo_log]; rfl) hhalted

/-- A leader that reaches nobody refuses a write, and no log changes. -/
theorem refused_write_without_quorum :
    ((run {} (threeVoters ++ [.isolate "a2"])).submit 0 [1]).answer =
      .error (.consensus (.quorumUnavailable 1 3)) ∧
    ((run {} (threeVoters ++ [.isolate "a2"])).submit 0 [1]).network.logs =
      (run {} (threeVoters ++ [.isolate "a2"])).logs := by
  have hans : ((run {} (threeVoters ++ [.isolate "a2"])).submit 0 [1]).answer =
      .error (.consensus (.quorumUnavailable 1 3)) := by decide +kernel
  have hrun : (((run {} (threeVoters ++ [.isolate "a2"])).submit 0 [1]).network.replica? 0).all
      (fun r => r.halted.isNone) = true := by decide +kernel
  refine ⟨hans, ?_⟩
  cases refused_write hans with
  | nothing _ h => exact h
  | failure hr hhalted hr' hlog hfail =>
    rw [hr', Option.all_some, hfail] at hrun
    cases hrun

/-- Three replicas. The second one halts on the first entry, and the third one is cut off. -/
def haltedPeer : List (Op Recorder) :=
  [.register "n1" "a1" {}, .register "n2" "a2" pickyRecorder, .register "n3" "a3" {}, .bootstrap 0,
    .addVoter 0 "n2" "a2" 0, .addVoter 0 "n3" "a3" 0, .submit 0 [2], .isolate "a3"]

/-- It is not so that a write that fails, other than on the leader's own machine, changes no log. An entry that
was refused is applied along with the next one. -/
theorem refused_write_is_appended :
    (¬∀ (ops : List (Op Recorder)) (i : Nat) (data : List UInt8) (e : Error),
      ((run {} ops).submit i data).answer = .error e →
      (((run {} ops).submit i data).network.replica? i).map Replica.halted =
        ((run {} ops).replica? i).map Replica.halted →
      ((run {} ops).submit i data).network.logs = (run {} ops).logs) ∧
    ((run {} (haltedPeer ++ [.submit 0 [3], .heal "a3", .submit 0 [4]])).replica? 2).map
      (fun r => r.machine.entries) = some [(1, [2]), (2, [3]), (3, [4])] := by
  refine ⟨fun h => ?_, by decide +kernel⟩
  have hsame := h haltedPeer 0 [3] (.consensus (.notAcknowledged 2)) (by decide +kernel)
    (by decide +kernel)
  exact absurd hsame (by decide +kernel)

end ReplicatedTable.Raft.Network
