import ReplicatedTable.Proofs.Raft.Matching

/-!
# Entries that every machine accepts

If machines accept whatever is submitted, in any state and at any index, then no replica ever halts
(`run_running`), and no write fails at the machine of its leader (`submit_not_fatal`). Replicas take entries
from each other's logs only, so a log never holds anything but what was submitted.
-/
namespace ReplicatedTable.Raft

variable {σ : Type} [StateMachine σ]

/-- Machines in any state take the data, at any index. -/
def Accepted (σ : Type) [StateMachine σ] (data : List UInt8) : Prop :=
  ∀ (m : σ) (index : Nat), (StateMachine.apply m index data).2 = .ok ()

namespace Replica

theorem applyEntries_accepted : ∀ {es : Log} {r : Replica σ}, (∀ e ∈ es, Accepted σ e.data) →
    (r.applyEntries es).2 = .ok ()
  | [], _, _ => rfl
  | e :: es, r, h => by
    have haccepted := h e (List.mem_cons_self ..) r.machine (r.applied + 1)
    unfold applyEntries
    split
    · exact applyEntries_accepted fun x hx => h x (List.mem_cons_of_mem _ hx)
    · rename_i hfail
      rw [hfail] at haccepted
      cases haccepted

theorem applyUpTo_accepted {r : Replica σ} (hrun : r.halted = none)
    (h : ∀ e ∈ r.log, Accepted σ e.data) (index : Nat) : (r.applyUpTo index).2 = .ok () := by
  unfold applyUpTo
  rw [hrun]
  exact applyEntries_accepted fun e he => h e (List.mem_of_mem_take (List.mem_of_mem_drop he))

/-- The replica has not halted, and its log holds data of a kind. -/
structure Running (P : List UInt8 → Prop) (r : Replica σ) : Prop where
  bound : r.Bounded
  entries : ∀ e ∈ r.log, P e.data
  running : r.halted = none

variable {P : List UInt8 → Prop}

omit [StateMachine σ] in
theorem Running.mono {Q : List UInt8 → Prop} {r : Replica σ} (h : r.Running P)
    (hPQ : ∀ data, P data → Q data) : r.Running Q :=
  ⟨h.bound, fun e he => hPQ _ (h.entries e he), h.running⟩

omit [StateMachine σ] in
theorem Running.pushed {r : Replica σ} (h : r.Running P) {data : List UInt8} (hdata : P data) :
    (r.pushed data).Running P where
  bound := h.bound.pushed data
  entries e he := by
    rcases List.mem_append.mp he with he | he
    · exact h.entries e he
    · obtain rfl := List.mem_singleton.mp he
      exact hdata
  running := h.running

/-- A replica whose log is accepted runs on, until somebody writes something else. -/
theorem running_lasting (hP : ∀ data, P data → Accepted σ data) :
    Network.Lasting (σ := σ) { sender := Running P, writing := False } := by
  intro r r' hc h
  have hentries : ∀ e ∈ r'.log, P e.data := by
    rcases hc.log_cases not_false h.bound with e | ⟨leader, hleader, e⟩ <;> rw [e]
    · exact h.entries
    · intro x hx
      exact (Log.mem_merge hx).elim (h.entries x) (hleader.entries x)
  refine ⟨(hc.lasts h.bound).bound, hentries, ?_⟩
  obtain ⟨x, hx, hr'⟩ := hc.work h.bound
  have hxrun : x.halted = none := hx.halted.trans h.running
  rcases hr' with rfl | ⟨index, rfl⟩
  · exact hxrun
  · rw [applyUpTo_log] at hentries
    exact applyUpTo_of_ok x index (applyUpTo_accepted hxrun (fun e he => hP _ (hentries e he)) index)

end Replica

namespace Network
open Replica

variable {n : Network σ} {P : List UInt8 → Prop}

/-- No replica ever halts if the machines accept whatever is submitted. -/
theorem run_running (hP : ∀ data, P data → Accepted σ data) {ops : List (Op σ)}
    (hops : ∀ i data, .submit i data ∈ ops → P data) : (run {} ops).Everywhere (Running P) :=
  run_everywhere_of_pushed (running_lasting hP) wired_empty everywhere_empty
    (fun _ _ _ _ => ⟨Nat.le_refl 0, fun _ he => absurd he List.not_mem_nil, rfl⟩)
    fun i data _ h hr => hr.pushed (hops i data h)

omit [StateMachine σ] in
theorem notLeader_ne_fatal (r : Replica σ) (index : Nat) (reason : String) :
    r.notLeader ≠ .fatalApply index reason := by
  unfold notLeader
  split <;> exact fun h => by cases h

/-- Only a leader that may write comes to the point of applying anything. -/
theorem writable_of_fatal {i : Nat} {data : List UInt8} {index : Nat} {reason : String}
    (h : (n.submit i data).answer = .error (.fatalApply index reason)) :
    ∃ r, n.replica? i = some r ∧ n.Writable r := by
  unfold submit withReplica at h
  cases hr : n.replica? i with
  | none => rw [hr] at h; cases h
  | some r =>
    refine ⟨r, rfl, ?_⟩
    rw [hr] at h
    dsimp only at h
    split at h
    · cases h
    · cases h
    · exact (notLeader_ne_fatal _ _ _ (Except.error.inj h)).elim
    · rename_i hs hh hl
      split at h
      · cases h
      · rename_i hq
        split at h
        · rename_i newer hn
          rw [concede, hr] at h
          exact (notLeader_ne_fatal _ _ _ (Except.error.inj h)).elim
        · rename_i hn
          exact ⟨hs, hh, hl, by omega, fun j hj f hf => le_of_newerTerm?_eq_none hn hj hf⟩

/-- A write of accepted data does not fail at the machine. -/
theorem submit_not_fatal (hP : ∀ data, P data → Accepted σ data) (hw : n.Wired)
    (hn : n.Everywhere (Running P)) {data : List UInt8} (hdata : P data) (i index : Nat)
    (reason : String) : (n.submit i data).answer ≠ .error (.fatalApply index reason) := by
  intro h
  obtain ⟨x, hx, hwritable⟩ := writable_of_fatal h
  have hc := submit_write hw i data
  rw [h] at hc
  generalize (n.submit i data).network = m, hans : Except.error _ = ans at hc
  cases hc with
  | refused e hno => exact hno x hx hwritable
  | conceded => exact notLeader_ne_fatal _ _ _ (Except.error.inj hans).symm
  | unacknowledged => cases hans
  | @failed r r' e hr hwr ha hf =>
    have hpushed := (hn i r (replica?_eq_some.mp hr).1).pushed hdata
    have hok := applyUpTo_accepted hpushed.running (fun e he => hP _ (hpushed.entries e he))
      (r.pushed data).log.length
    rw [hf] at hok
    cases hok
  | committed => cases hans

end Network

end ReplicatedTable.Raft
