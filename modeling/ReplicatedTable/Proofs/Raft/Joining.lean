import ReplicatedTable.Proofs.Raft.Adoption
import ReplicatedTable.Proofs.Raft.Matching

/-!
# What a replica has once it was added as a voter

A leader that adds a voter brings the replica at the voter's address up to date, if that replica is within reach
and not ahead. `added_voter` says what this is worth in every run. The replica knows the leader and its voters.
Unless it halts, or has applied an entry where the leader has one of another term, it also holds an entry of the
same term at every place of the leader's log, and has applied whatever the leader has.

Entries are compared by terms, so the replica has the leader's entries themselves only if the two logs match.
And a voter that is there already with this address is not contacted: one that could not be reached when it was
added stays behind until the next write (`added_voter_behind`).
-/
namespace ReplicatedTable.Raft.Network

open Log Replica

variable {σ : Type}

/-- A replica has caught up with a leader. -/
structure CaughtUp (leader f : Replica σ) : Prop where
  log : leader.log <+: f.log
  applied : leader.applied ≤ f.applied
  leaderAddress : f.leaderAddress = some leader.address
  voters : f.voters = leader.voters

/-- A leader reaches another replica once a voter is at its address. -/
theorem Wired.reaches {n : Network σ} (hw : n.Wired) {i j : Nat} {r : Replica σ} {address : String}
    (hr : n.replica? i = some r) (hs : r.stopped = false)
    (hpeer : n.peer? r.address address = some j) (hne : j ≠ i) (id : String) :
    j ∈ n.reachable (r.widened id address) := by
  obtain ⟨hat, hd⟩ := replica?_eq_some.mp hr
  obtain ⟨-, -, hreg, -⟩ := peer?_eq_some.mp hpeer
  refine mem_reachable.mpr ⟨id, address, Std.ExtTreeMap.getElem?_insert_self, ?_, hpeer⟩
  intro hown
  have hself := hw.listed i r hat hs hd
  rw [hown] at hreg
  exact hne (Option.some.inj (hreg.symm.trans hself))

variable [StateMachine σ] {i j : Nat} {r f : Replica σ} {id address : String}

/-- If a voter is added, and the replica at its address is another one, is within reach and not ahead, then the
replica knows the leader and its voters. Unless it halts, it keeps its log if it has applied an entry where the
leader has one of another term, and the leader has its refusal on record. Otherwise it takes over the leader's
log, and has caught up with the leader if the two logs match, as they do if no two replicas have ever come to
lead at one term. A voter that is there already is left alone. -/
theorem added_voter {ops : List (Op σ)} (hr : (run {} ops).replica? i = some r)
    (hans : ((run {} ops).addVoter i id address 0).answer = .ok ())
    (hpeer : (run {} ops).peer? r.address address = some j) (hne : j ≠ i)
    (hf : (run {} ops).replica? j = some f) (hterm : f.term ≤ r.term) :
    (r.voters[id]? = some address → ((run {} ops).addVoter i id address 0).network = run {} ops) ∧
    (r.voters[id]? ≠ some address → ∃ f' : Replica σ,
      ((run {} ops).addVoter i id address 0).network.replica? i = some (r.widened id address) ∧
      ((run {} ops).addVoter i id address 0).network.replica? j = some f' ∧
      Informed (r.widened id address) f' ∧
      (f'.halted = none → f.Contradicts r.log → f'.log = f.log ∧ f'.applied = f.applied ∧
        (⟨.voterSync, r.id, f.id, .conflict (agreement r.log f.log + 1)⟩ : Refusal) ∈
          ((run {} ops).addVoter i id address 0).refusals) ∧
      (f'.halted = none → ¬f.Contradicts r.log →
        Covers f'.log r.log ∧ r.applied ≤ f'.applied ∧
          (Matches r.log f.log → CaughtUp (r.widened id address) f'))) ∧
    (UniqueLeaders ops → Matches r.log f.log) := by
  have hw : (run {} ops).Wired := wired_run wired_empty ops
  have hb := run_bounded ops
  refine ⟨fun hv => ?_, fun hv => ?_, fun h => run_matched h i j r f (replica?_eq_some.mp hr).1
    (replica?_eq_some.mp hf).1⟩
  · rcases widens_or_idle hw hr id address 0 with hwiden | ⟨e, -⟩
    · exact absurd hv hwiden.new
    · exact e
  generalize run {} ops = n at hr hans hpeer hf hw hb ⊢
  have hwiden : n.Widens i r id address 0 :=
    (widens_or_idle hw hr id address 0).resolve_right fun h => hv (h.2 hans)
  have hreach := hw.reaches hr hwiden.running hpeer hne id
  have hs := (hw.of_peer? hpeer hf).2
  have hfat := (replica?_eq_some.mp hf).1
  have hup : Uptake (r.widened id address) f (adopt (r.widened id address) f)
      (adoption (r.widened id address) f) :=
    adopt_uptake hs hterm (hb j f hfat) (hb i r (replica?_eq_some.mp hr).1)
  have hin : Informed (r.widened id address) (adopt (r.widened id address) f) :=
    adopt_informed hs hterm
  have hrefusal : ∀ reject, adoption (r.widened id address) f = .error reject →
      (⟨.voterSync, r.id, f.id, reject⟩ : Refusal) ∈ (n.addVoter i id address 0).refusals :=
    fun _ => hwiden.mem_addVoter_refusals hw hreach hf
  refine ⟨_, hwiden.addVoter_self hw, hwiden.addVoter_peer hw hb hreach hf, hin, ?_⟩
  generalize adopt (r.widened id address) f = f', adoption (r.widened id address) f = ans
    at hup hin hrefusal ⊢
  cases hup with
  | halted _ h => exact ⟨fun hrun => by simp [hrun] at h, fun hrun => by simp [hrun] at h⟩
  | kept hc hlog happlied =>
    exact ⟨fun _ _ => ⟨hlog, happlied, hrefusal _ rfl⟩, fun _ hno => absurd hc hno⟩
  | merged hc hlog happlied =>
    refine ⟨fun _ hcon => absurd hcon hc, fun _ _ => ?_⟩
    have hle : r.applied ≤ f'.applied := happlied ▸ Nat.le_max_right ..
    have hwhole (hmatch : Matches r.log f.log) : r.log <+: f'.log := hlog ▸ hmatch.merge.2
    exact ⟨hlog ▸ covers_merge f.log r.log, hle,
      fun hmatch => ⟨hwhole hmatch, hle, hin.leaderAddress, hin.voters⟩⟩

/-- Two voters with two entries, and a third replica that has none. -/
def twoWrites : List (Op Recorder) :=
  [.register "n1" "a1" {}, .register "n2" "a2" {}, .register "n3" "a3" {}, .bootstrap 0,
    .addVoter 0 "n2" "a2" 0, .submit 0 [1], .submit 0 [2]]

/-- A replica to which the id of a voter is moved gets both entries. -/
theorem added_voter_moved : ∃ r f', (run {} twoWrites).replica? 0 = some r ∧ r.log.length = 2 ∧
    ((run {} twoWrites).addVoter 0 "n2" "a3" 0).network.replica? 2 = some f' ∧
    CaughtUp (r.widened "n2" "a3") f' := by
  have hleader : ((run {} twoWrites).replica? 0).map (fun r => (r.term, r.log.length,
      (run {} twoWrites).peer? r.address "a3", r.voters["n2"]?)) = some (1, 2, some 2, some "a2") := by
    decide +kernel
  have hpeer : ((run {} twoWrites).replica? 2).map (fun f => (f.term, f.applied)) = some (0, 0) := by
    decide +kernel
  have hans : ((run {} twoWrites).addVoter 0 "n2" "a3" 0).answer = .ok () := by decide +kernel
  have hsound : (((run {} twoWrites).addVoter 0 "n2" "a3" 0).network.replica? 2).all
      (fun f => f.halted.isNone) = true := by decide +kernel
  have hunique : ∀ c ∈ crownings {} twoWrites, c.replica = 0 := by decide +kernel
  obtain ⟨r, hr, hleader⟩ := Option.map_eq_some_iff.mp hleader
  obtain ⟨f, hf, hpeer⟩ := Option.map_eq_some_iff.mp hpeer
  rw [Prod.mk.injEq, Prod.mk.injEq, Prod.mk.injEq] at hleader
  rw [Prod.mk.injEq] at hpeer
  obtain ⟨hterm, hlen, hreach, hv⟩ := hleader
  obtain ⟨-, hnew, hmatches⟩ :=
    added_voter hr hans hreach (by decide) hf (by rw [hpeer.1]; exact Nat.zero_le _)
  obtain ⟨f', -, hf', -, -, htaken⟩ := hnew (by rw [hv]; decide)
  rw [hf', Option.all_some, Option.isNone_iff_eq_none] at hsound
  have hfree : ¬f.Contradicts r.log := by
    rintro ⟨k, x, y, hk, -⟩
    rw [hpeer.2] at hk
    exact Nat.not_lt_zero k hk
  have hmatch := hmatches fun c hc d hd _ => (hunique c hc).trans (hunique d hd).symm
  exact ⟨r, f', hr, hlen, hf', (htaken hsound hfree).2.2 hmatch⟩

/-! ## Voters that stay behind -/

/-- Whichever voter is added after a run, a replica that is within reach and not ahead catches up. -/
def Catches (ops : List (Op Recorder)) : Prop :=
  ∀ (i j : Nat) (r f : Replica Recorder) (id address : String), (run {} ops).replica? i = some r →
    ((run {} ops).addVoter i id address 0).answer = .ok () →
    (run {} ops).peer? r.address address = some j → j ≠ i → (run {} ops).replica? j = some f →
    f.term ≤ r.term → ∀ r' f' : Replica Recorder,
      ((run {} ops).addVoter i id address 0).network.replica? i = some r' →
      ((run {} ops).addVoter i id address 0).network.replica? j = some f' → f'.halted = none →
      CaughtUp r' f'

/-- The second replica is added by the first, and does not end up with its log. -/
theorem not_catches {ops : List (Op Recorder)}
    (hbefore : ((run {} ops).replica? 0).any (fun r => ((run {} ops).replica? 1).any fun f =>
      decide ((run {} ops).peer? r.address "a2" = some 1 ∧ f.term ≤ r.term)) = true)
    (hans : ((run {} ops).addVoter 0 "n2" "a2" 0).answer = .ok ())
    (hafter : (((run {} ops).addVoter 0 "n2" "a2" 0).network.replica? 0).any (fun r =>
      (((run {} ops).addVoter 0 "n2" "a2" 0).network.replica? 1).any fun f =>
        f.halted.isNone && decide (¬r.log <+: f.log)) = true) : ¬Catches ops := by
  intro h
  simp only [Option.any_eq_true, Bool.and_eq_true, decide_eq_true_eq, Option.isNone_iff_eq_none]
    at hbefore hafter
  obtain ⟨r, hr, f, hf, hpeer, hterm⟩ := hbefore
  obtain ⟨r', hr', f', hf', hrun, hbehind⟩ := hafter
  exact hbehind (h 0 1 r f "n2" "a2" hr hans hpeer (by decide) hf hterm r' f' hr' hf' hrun).log

/-- A voter that was cut off when it was added, and is back. -/
def unreachedVoter : List (Op Recorder) :=
  [.register "n1" "a1" {}, .register "n2" "a2" {}, .bootstrap 0, .submit 0 [1], .isolate "a2",
    .addVoter 0 "n2" "a2" 0, .heal "a2"]

/-- Two groups, the second of which has applied an entry of a later term. -/
def conflictingVoter : List (Op Recorder) :=
  [.register "n1" "a1" {}, .register "n2" "a2" {}, .bootstrap 0, .submit 0 [1], .campaign 0,
    .bootstrap 1, .campaign 1, .submit 1 [2]]

/-- Two groups that have written different entries at the same term. -/
def twinVoter : List (Op Recorder) :=
  [.register "n1" "a1" {}, .register "n2" "a2" {}, .bootstrap 0, .submit 0 [1], .bootstrap 1,
    .submit 1 [2]]

/-- It is not so that a voter that is added always catches up. It does not if it is added once more after it
could not be reached, if it has applied something else, or if its entries look like the leader's. -/
theorem added_voter_behind :
    ¬Catches unreachedVoter ∧ ¬Catches conflictingVoter ∧ ¬Catches twinVoter :=
  ⟨not_catches (by decide +kernel) (by decide +kernel) (by decide +kernel),
    not_catches (by decide +kernel) (by decide +kernel) (by decide +kernel),
    not_catches (by decide +kernel) (by decide +kernel) (by decide +kernel)⟩

end ReplicatedTable.Raft.Network
