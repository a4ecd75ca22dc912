import ReplicatedTable.Proofs.Raft.Adoption
import ReplicatedTable.Proofs.Raft.Resumption

/-!
# Standing for election

A candidate first looks at the logs of the peers within its reach, and tells them something only once it has
won. So a campaign that fails changes nothing. `campaign_whole` says so for every run, and what a campaign that
is won leaves: the candidate leads at a term that is new to all within its reach, a majority of its voters has
supported it, and every voter within its reach follows it at this term, also one that refused its vote or
refuses its log.
-/
namespace ReplicatedTable.Raft

open Log

variable {σ : Type}

/-! ## Following the winner -/

namespace Replica

/-- A replica runs and follows a leader at a term. -/
structure Follows (leader : String) (term : Nat) (f : Replica σ) : Prop where
  running : f.stopped = false
  apart : leader ≠ f.address
  term : f.term = term
  leaderAddress : f.leaderAddress = some leader
  yields : f.leader = false

variable [StateMachine σ] {f : Replica σ} {term : Nat}

/-- Whatever it answers, a replica that runs and is behind follows a leader once it has got its message. -/
theorem follows_of_receive (leader : Replica σ) (hs : f.stopped = false) (ht : f.term < term)
    (hne : leader.address ≠ f.address) : (f.receive leader term).1.Follows leader.address term := by
  have hyields : (f.follow term leader.address).leader = false := by
    rw [follow, if_pos (Or.inl ht), if_neg hne, setLeader_leader]
  rcases receive_eq f leader term with ⟨-, h⟩ | ⟨-, hle, l, m, a, h, e⟩
  · rw [hs] at h
    rcases h with h | h
    · cases h
    · omega
  · rw [e]
    exact ⟨(follow_stopped ..).trans hs, fun ha => hne (ha.trans (follow_address ..)), follow_term _ hle,
      follow_leaderAddress .., hyields⟩

/-- A replica that answers for two voters gets the message twice. -/
theorem Follows.receive {leader : Replica σ} (h : f.Follows leader.address term) :
    (f.receive leader term).1.Follows leader.address term where
  running := (receive_stopped ..).trans h.running
  apart ha := h.apart (ha.trans (receive_address ..))
  term := receive_term leader h.running (Nat.le_of_eq h.term)
  leaderAddress := by
    rcases receive_eq f leader term with ⟨e, -⟩ | ⟨-, -, l, m, a, h, e⟩ <;> rw [e]
    · exact h.leaderAddress
    · exact follow_leaderAddress ..
  yields := by
    refine Bool.eq_false_iff.mpr fun hl => ?_
    have hleads := leader_of_receive hl
    rw [h.yields] at hleads
    cases hleads

end Replica

namespace Network

open Replica

variable {n : Network σ} {i j : Nat} {r : Replica σ} {term : Nat}

/-! ## Votes -/

/-- A voter at another address is within reach, and its log is not newer than the candidate's. -/
def Supports (n : Network σ) (r : Replica σ) (id : String) : Prop :=
  ∃ address j f, r.voters[id]? = some address ∧ address ≠ r.address ∧
    n.peer? r.address address = some j ∧ n.replica? j = some f ∧ f.log.rank ≤ r.log.rank

/-- The ids of the voters that support a candidate. -/
def supporters (n : Network σ) (r : Replica σ) : List String :=
  (r.voters.toList.filter fun v =>
    decide (v.2 ≠ r.address) && (n.peer? r.address v.2).any (n.grants r)).map Prod.fst

theorem grants_iff : n.grants r j = true ↔ ∃ f, n.replica? j = some f ∧ f.log.rank ≤ r.log.rank := by
  unfold grants
  cases n.replica? j with
  | none => simp
  | some f => simp [upToDate_iff_rank]

theorem mem_supporters {id : String} : id ∈ n.supporters r ↔ n.Supports r id := by
  unfold supporters Supports
  simp only [List.mem_map, List.mem_filter, Bool.and_eq_true, decide_eq_true_eq, Option.any_eq_true,
    grants_iff]
  constructor
  · rintro ⟨⟨id, address⟩, ⟨hv, hne, j, hj, f, hf, hrank⟩, rfl⟩
    exact ⟨address, j, f, Std.ExtTreeMap.mem_toList_iff_getElem?_eq_some.mp hv, hne, hj, hf, hrank⟩
  · rintro ⟨address, j, f, hv, hne, hj, hf, hrank⟩
    exact ⟨(id, address), ⟨Std.ExtTreeMap.mem_toList_iff_getElem?_eq_some.mpr hv, hne, j, hj, f, hf, hrank⟩,
      rfl⟩

theorem nodup_supporters (n : Network σ) (r : Replica σ) : (n.supporters r).Nodup := by
  rw [supporters, List.Nodup, List.pairwise_map]
  refine ((Std.ExtTreeMap.distinct_keys_toList (t := r.voters)).filter _).imp ?_
  intro v v' hne e
  exact hne (by rw [e]; exact Std.ReflCmp.compare_self)

/-- A peer has as many votes as there are voters that it answers for. -/
theorem length_supporters [StateMachine σ] (n : Network σ) (r : Replica σ) :
    (n.supporters r).length = ((n.reachable r).filter (n.grants r)).length := by
  rw [← List.countP_eq_length_filter, countP_reachable, supporters, List.length_map]

/-! ## Campaigns -/

/-- What a campaign that is won at a term makes of a network. -/
structure Won (n m : Network σ) (i : Nat) (r : Replica σ) (term : Nat) : Prop where
  newer : r.term < term ∧ ∀ j ∈ n.reachable r, ∀ f, n.replica? j = some f → f.term < term
  votes : ∃ ids : List String, ids.Nodup ∧ (∀ id, id ∈ ids ↔ n.Supports r id) ∧
    r.voters.size < 2 * (ids.length + 1)
  candidate : m.replica? i = some (r.elected term) ∧ (r.elected term).leads = true
  voters : ∀ j ∈ n.reachable r, ∃ f, m.replica? j = some f ∧ f.Follows r.address term
  others : ∀ j, j ≠ i → j ∉ n.reachable r → m.replicas[j]? = n.replicas[j]?
  addresses : m.registry = n.registry ∧ m.isolated = n.isolated

/-- The term at which a candidate would lead is new to all within its reach. -/
theorem lt_nextTerm_of_reachable (hj : j ∈ n.reachable r) {f : Replica σ} (hf : n.replica? j = some f) :
    f.term < n.nextTerm r := by
  have hle := term_le_highestTerm hj hf
  unfold nextTerm
  omega

variable [StateMachine σ]

theorem campaign_cases (n : Network σ) (i : Nat) :
    (∃ e, n.campaign i = n.refuse e) ∨ ∃ term, (n.campaign i).answer = .ok term := by
  unfold campaign withReplica
  cases n.replica? i with
  | none => exact .inl ⟨_, rfl⟩
  | some r =>
    dsimp only
    split
    · exact .inl ⟨_, rfl⟩
    split
    · exact .inl ⟨_, rfl⟩
    split
    · exact .inl ⟨_, rfl⟩
    split
    · exact .inl ⟨_, rfl⟩
    · exact .inr ⟨_, rfl⟩

theorem campaign_refused {e : Error} (h : (n.campaign i).answer = .error e) :
    n.campaign i = n.refuse e := by
  rcases n.campaign_cases i with ⟨e', hrefused⟩ | ⟨term, hwon⟩
  · rw [hrefused] at h ⊢
    cases h
    rfl
  · rw [hwon] at h
    cases h

theorem won_of_electable (hw : n.Wired) (hr : n.replica? i = some r) (h : n.Electable r) :
    n.Won ((n.put i (r.elected (n.nextTerm r))).mapAt
      (fun f => (f.receive (r.elected (n.nextTerm r)) (n.nextTerm r)).1) (n.reachable r)) i r
      (n.nextTerm r) := by
  obtain ⟨hat, hd⟩ := replica?_eq_some.mp hr
  have hnot : i ∉ n.reachable r := hw.not_mem_reachable hat rfl
  have hself : (n.put i (r.elected (n.nextTerm r))).replica? i = some (r.elected (n.nextTerm r)) :=
    replica?_put_self _ hr ((setLeader_dropped ..).trans hd)
  refine ⟨⟨?_, fun j hj f => lt_nextTerm_of_reachable hj⟩, ?_, ⟨?_, ?_⟩, fun j hj => ?_,
    fun j hji hj => ?_, ?_⟩
  · unfold nextTerm
    omega
  · refine ⟨n.supporters r, nodup_supporters n r, fun id => mem_supporters, ?_⟩
    have hvotes := h.votes
    rw [majority, ← length_supporters] at hvotes
    omega
  · rw [replica?_mapAt_of_not_mem hnot, hself]
  · simp [leads, elected, h.running]
  · obtain ⟨f, -, hf, hs, -, hne⟩ := hw.peer hj
    have hij : i ≠ j := fun e => hnot (e ▸ hj)
    have hfirst := follows_of_receive (r.elected (n.nextTerm r)) hs (lt_nextTerm_of_reachable hj hf)
      (by rw [elected_address]; exact hne.symm)
    obtain ⟨f', hf', hfollows⟩ := mapAt_reached
      (P := Follows (r.elected (n.nextTerm r)).address (n.nextTerm r)) (fun x hx => hx.receive)
      (fun x => receive_dropped x _ _) hj ((replica?_put_ne _ hij).trans hf) hfirst
    rw [elected_address] at hfollows
    exact ⟨f', hf', hfollows⟩
  · rw [mapAt_getElem?_of_not_mem hj, put_getElem?_ne n i _ (Ne.symm hji)]
  · simp

/-- A campaign is won exactly if the candidate has what it needs. If it is not won it leaves everything as it
is. If it is won the candidate leads, all voters within its reach follow it, and nothing else changes. -/
theorem campaign_whole (ops : List (Op σ)) (i : Nat) :
    (∀ e, ((run {} ops).campaign i).answer = .error e →
      (run {} ops).campaign i = (run {} ops).refuse e) ∧
    (∀ term, ((run {} ops).campaign i).answer = .ok term →
      ∃ r, (run {} ops).replica? i = some r ∧
        (run {} ops).Won ((run {} ops).campaign i).network i r term) ∧
    ((∃ term, ((run {} ops).campaign i).answer = .ok term) ↔
      ∃ r, (run {} ops).replica? i = some r ∧ (run {} ops).Electable r) := by
  have hw : (run {} ops).Wired := wired_run wired_empty ops
  generalize run {} ops = n at hw ⊢
  refine ⟨fun e => campaign_refused, ?_⟩
  have hc := campaign_election hw i
  generalize (n.campaign i).network = m, (n.campaign i).answer = answer at hc ⊢
  cases hc with
  | refused e hno =>
    exact ⟨nofun, nofun, fun ⟨r, hr, h⟩ => absurd h (hno r hr)⟩
  | @won r hr h =>
    refine ⟨fun term hterm => ?_, fun _ => ⟨r, hr, h⟩, fun _ => ⟨_, rfl⟩⟩
    cases hterm
    exact ⟨r, hr, won_of_electable hw hr h⟩

/-- Five voters. Two have halted at the first entry, two have nothing, as they were cut off, and only the
leader has the second entry. -/
def unevenLogs : List (Op Recorder) :=
  let fails : Recorder := { fault := fun index _ => if index = 1 then some .shutdown else none }
  [.register "n1" "a1" {}, .register "n2" "a2" fails, .register "n3" "a3" fails, .register "n4" "a4" {},
    .register "n5" "a5" {}, .bootstrap 0, .addVoter 0 "n2" "a2" 0, .addVoter 0 "n3" "a3" 0,
    .addVoter 0 "n4" "a4" 0, .addVoter 0 "n5" "a5" 0, .isolate "a4", .isolate "a5", .submit 0 [1],
    .submit 0 [2], .heal "a4", .heal "a5"]

/-- One that has halted wins against the leader, which refuses its vote, and is followed by it and by the other
one that has halted. One that has nothing loses, and changes nothing. -/
theorem campaign_whole_uneven : ((run {} unevenLogs).campaign 2).answer = .ok 2 ∧
    (∃ r, (run {} unevenLogs).replica? 2 = some r ∧ (run {} unevenLogs).grants r 0 = false) ∧
    (∃ f, ((run {} unevenLogs).campaign 2).network.replica? 0 = some f ∧ f.Follows "a3" 2) ∧
    (∃ f, ((run {} unevenLogs).campaign 2).network.replica? 1 = some f ∧ f.halted ≠ none ∧
      f.Follows "a3" 2) ∧
    (run {} unevenLogs).campaign 3 = (run {} unevenLogs).refuse (.consensus (.electionLost 2 5)) := by
  have hans : ((run {} unevenLogs).campaign 2).answer = .ok 2 := by decide +kernel
  have hlost : ((run {} unevenLogs).campaign 3).answer = .error (.consensus (.electionLost 2 5)) := by
    decide +kernel
  have hfacts : ((run {} unevenLogs).replica? 2).map (fun r => (r.address,
      (run {} unevenLogs).reachable r, (run {} unevenLogs).grants r 0)) =
      some ("a3", [0, 1, 3, 4], false) := by decide +kernel
  have hhalted : (((run {} unevenLogs).campaign 2).network.replica? 1).all
      (fun f => f.halted.isSome) = true := by decide +kernel
  obtain ⟨-, hwon, -⟩ := campaign_whole unevenLogs 2
  obtain ⟨r, hr, hwon⟩ := hwon 2 hans
  rw [hr, Option.map_some, Option.some_inj, Prod.mk.injEq, Prod.mk.injEq] at hfacts
  obtain ⟨haddress, hreach, hgrants⟩ := hfacts
  obtain ⟨f, hf, hfollows⟩ := hwon.voters 0 (by rw [hreach]; decide)
  obtain ⟨x, hx, hxfollows⟩ := hwon.voters 1 (by rw [hreach]; decide)
  rw [hx, Option.all_some] at hhalted
  rw [haddress] at hfollows hxfollows
  exact ⟨hans, ⟨r, hr, hgrants⟩, ⟨f, hf, hfollows⟩,
    ⟨x, hx, Option.isSome_iff_ne_none.mp hhalted, hxfollows⟩,
    (campaign_whole unevenLogs 3).1 _ hlost⟩

end Network

end ReplicatedTable.Raft
