import ReplicatedTable.Proofs.Raft.Log
import ReplicatedTable.Raft.Replica

/-!
# What one replica does

The functions that change a single replica, each with what it leaves alone. `applyUpTo` touches only the
machine, the index applied and the reason of a halt; `receive_receipt` lists the five courses that a message
of a leader can take: the follower is down, or at a later term, or halted, or would have to give up an
applied entry, or it merges the leader's log and applies what the leader has applied.
-/
namespace ReplicatedTable.Raft.Replica

variable {σ : Type}

/-! ## The leader flag -/

section
variable (r : Replica σ) (b : Bool)

@[simp] theorem setLeader_leader : (r.setLeader b).leader = b := by
  unfold setLeader; split <;> simp_all

@[simp] theorem setLeader_id : (r.setLeader b).id = r.id := by unfold setLeader; split <;> rfl

@[simp] theorem setLeader_address : (r.setLeader b).address = r.address := by
  unfold setLeader; split <;> rfl

@[simp] theorem setLeader_machine : (r.setLeader b).machine = r.machine := by
  unfold setLeader; split <;> rfl

@[simp] theorem setLeader_term : (r.setLeader b).term = r.term := by unfold setLeader; split <;> rfl

@[simp] theorem setLeader_leaderAddress : (r.setLeader b).leaderAddress = r.leaderAddress := by
  unfold setLeader; split <;> rfl

@[simp] theorem setLeader_voters : (r.setLeader b).voters = r.voters := by
  unfold setLeader; split <;> rfl

@[simp] theorem setLeader_votersIndex : (r.setLeader b).votersIndex = r.votersIndex := by
  unfold setLeader; split <;> rfl

@[simp] theorem setLeader_log : (r.setLeader b).log = r.log := by unfold setLeader; split <;> rfl

@[simp] theorem setLeader_applied : (r.setLeader b).applied = r.applied := by
  unfold setLeader; split <;> rfl

@[simp] theorem setLeader_halted : (r.setLeader b).halted = r.halted := by
  unfold setLeader; split <;> rfl

@[simp] theorem setLeader_stopped : (r.setLeader b).stopped = r.stopped := by
  unfold setLeader; split <;> rfl

@[simp] theorem setLeader_dropped : (r.setLeader b).dropped = r.dropped := by
  unfold setLeader; split <;> rfl

end

/-! ## Following a leader -/

/-- The replica once it has taken note of a leader. -/
def follow (r : Replica σ) (term : Nat) (leader : String) : Replica σ :=
  if term > r.term ∨ r.leaderAddress ≠ some leader then
    if leader = r.address then { r with term := term, leaderAddress := some leader }
    else { r with term := term, leaderAddress := some leader }.setLeader false
  else r

theorem observe_eq (r : Replica σ) (term : Nat) (leader : String) :
    r.observe term leader =
      if r.stopped then .error .down
      else if term < r.term then .error (.staleTerm r.term)
      else .ok (r.follow term leader) := by
  unfold observe follow
  split
  · rfl
  · split
    · rfl
    · split <;> rfl

section
variable (r : Replica σ) (term : Nat) (leader : String)

/-- Following changes the term, the leader that is known, and the leader flag. -/
theorem follow_eq : ∃ t a l ns,
    r.follow term leader = { r with term := t, leaderAddress := a, leader := l, notices := ns } := by
  unfold follow setLeader
  split
  · split
    · exact ⟨_, _, _, _, rfl⟩
    · split <;> exact ⟨_, _, _, _, rfl⟩
  · exact ⟨_, _, _, _, rfl⟩

@[simp] theorem follow_id : (r.follow term leader).id = r.id := by
  obtain ⟨_, _, _, _, e⟩ := follow_eq r term leader; rw [e]

@[simp] theorem follow_address : (r.follow term leader).address = r.address := by
  obtain ⟨_, _, _, _, e⟩ := follow_eq r term leader; rw [e]

@[simp] theorem follow_machine : (r.follow term leader).machine = r.machine := by
  obtain ⟨_, _, _, _, e⟩ := follow_eq r term leader; rw [e]

@[simp] theorem follow_voters : (r.follow term leader).voters = r.voters := by
  obtain ⟨_, _, _, _, e⟩ := follow_eq r term leader; rw [e]

@[simp] theorem follow_log : (r.follow term leader).log = r.log := by
  obtain ⟨_, _, _, _, e⟩ := follow_eq r term leader; rw [e]

@[simp] theorem follow_applied : (r.follow term leader).applied = r.applied := by
  obtain ⟨_, _, _, _, e⟩ := follow_eq r term leader; rw [e]

@[simp] theorem follow_halted : (r.follow term leader).halted = r.halted := by
  obtain ⟨_, _, _, _, e⟩ := follow_eq r term leader; rw [e]

@[simp] theorem follow_stopped : (r.follow term leader).stopped = r.stopped := by
  obtain ⟨_, _, _, _, e⟩ := follow_eq r term leader; rw [e]

@[simp] theorem follow_dropped : (r.follow term leader).dropped = r.dropped := by
  obtain ⟨_, _, _, _, e⟩ := follow_eq r term leader; rw [e]

@[simp] theorem follow_leaderAddress : (r.follow term leader).leaderAddress = some leader := by
  unfold follow
  split
  · split <;> simp
  · simp_all

variable {r term}

theorem follow_term (h : r.term ≤ term) : (r.follow term leader).term = term := by
  unfold follow
  split
  · split <;> simp
  · simp only [gt_iff_lt, not_or, Nat.not_lt] at *
    omega

/-- A replica that goes on leading has taken note of itself, or of nothing new. -/
theorem follow_leader (h : (r.follow term leader).leader = true) :
    r.leader = true ∧ (leader = r.address ∨ r.leaderAddress = some leader) := by
  unfold follow at h
  split at h
  · split at h
    · rename_i hl; exact ⟨h, Or.inl hl⟩
    · simp at h
  · rename_i hc
    simp only [not_or, ne_eq, Decidable.not_not] at hc
    exact ⟨h, Or.inr hc.2⟩

end

/-- What a replica does with the voters of a leader. -/
theorem acceptVoters_eq (f : Replica σ) (term : Nat) (leader : String) (voters : Voters)
    (index : Nat) :
    (f.acceptVoters term leader voters index).1 = f ∧ (f.stopped = true ∨ term < f.term) ∨
      f.stopped = false ∧ f.term ≤ term ∧ f.acceptVoters term leader voters index =
        ({ f.follow term leader with voters := voters, votersIndex := index }, .ok ()) := by
  unfold acceptVoters
  rw [observe_eq]
  by_cases hs : f.stopped = true
  · exact Or.inl ⟨by simp [hs], Or.inl hs⟩
  rw [Bool.not_eq_true] at hs
  by_cases ht : term < f.term
  · exact Or.inl ⟨by simp [hs, ht], Or.inr ht⟩
  exact Or.inr ⟨hs, by omega, by simp [hs, ht]⟩

section
variable (f : Replica σ) (term : Nat) (leader : String) (voters : Voters) (index : Nat)

@[simp] theorem acceptVoters_id : (f.acceptVoters term leader voters index).1.id = f.id := by
  rcases acceptVoters_eq f term leader voters index with ⟨e, -⟩ | ⟨-, -, e⟩ <;> rw [e]
  exact follow_id ..

@[simp] theorem acceptVoters_address :
    (f.acceptVoters term leader voters index).1.address = f.address := by
  rcases acceptVoters_eq f term leader voters index with ⟨e, -⟩ | ⟨-, -, e⟩ <;> rw [e]
  exact follow_address ..

@[simp] theorem acceptVoters_stopped :
    (f.acceptVoters term leader voters index).1.stopped = f.stopped := by
  rcases acceptVoters_eq f term leader voters index with ⟨e, -⟩ | ⟨-, -, e⟩ <;> rw [e]
  exact follow_stopped ..

@[simp] theorem acceptVoters_dropped :
    (f.acceptVoters term leader voters index).1.dropped = f.dropped := by
  rcases acceptVoters_eq f term leader voters index with ⟨e, -⟩ | ⟨-, -, e⟩ <;> rw [e]
  exact follow_dropped ..

end

/-! ## Applying entries -/

variable [StateMachine σ]

section
variable (r : Replica σ)

/-- Applying goes on from where it stood, and comes to the end unless the machine fails. -/
theorem applyEntries_spec : ∀ (r : Replica σ) (es : Log), ∃ m a h,
    (r.applyEntries es).1 = { r with machine := m, applied := a, halted := h } ∧
    r.applied ≤ a ∧ a ≤ r.applied + es.length ∧
    ((r.applyEntries es).2 = .ok () ∧ h = r.halted ∧ a = r.applied + es.length ∨
      ∃ e, (r.applyEntries es).2 = .error e ∧ h = some e.message)
  | r, [] => ⟨_, _, _, rfl, Nat.le_refl _, Nat.le_refl _, Or.inl ⟨rfl, rfl, rfl⟩⟩
  | r, e :: es => by
    unfold applyEntries
    split
    · rename_i machine _
      obtain ⟨m, a, h, heq, hle, hge, hans⟩ := applyEntries_spec
        { r with machine := machine, applied := r.applied + 1 } es
      simp only [List.length_cons] at hle hge hans ⊢
      refine ⟨m, a, h, heq, by omega, by omega, ?_⟩
      rcases hans with ⟨h1, h2, h3⟩ | h1
      · exact Or.inl ⟨h1, h2, by omega⟩
      · exact Or.inr h1
    · exact ⟨_, _, _, rfl, Nat.le_refl _, by omega, Or.inr ⟨_, rfl, rfl⟩⟩

variable (index : Nat)

/-- Applying up to an index changes the machine, the index applied and the reason of a halt. -/
theorem applyUpTo_eq : ∃ m a h,
    (r.applyUpTo index).1 = { r with machine := m, applied := a, halted := h } := by
  unfold applyUpTo
  split
  · exact ⟨_, _, _, rfl⟩
  · obtain ⟨m, a, h, e, -⟩ := applyEntries_spec r ((r.log.take index).drop r.applied)
    exact ⟨m, a, h, e⟩

@[simp] theorem applyUpTo_id : (r.applyUpTo index).1.id = r.id := by
  obtain ⟨_, _, _, e⟩ := applyUpTo_eq r index; rw [e]

@[simp] theorem applyUpTo_address : (r.applyUpTo index).1.address = r.address := by
  obtain ⟨_, _, _, e⟩ := applyUpTo_eq r index; rw [e]

@[simp] theorem applyUpTo_leader : (r.applyUpTo index).1.leader = r.leader := by
  obtain ⟨_, _, _, e⟩ := applyUpTo_eq r index; rw [e]

@[simp] theorem applyUpTo_term : (r.applyUpTo index).1.term = r.term := by
  obtain ⟨_, _, _, e⟩ := applyUpTo_eq r index; rw [e]

@[simp] theorem applyUpTo_leaderAddress :
    (r.applyUpTo index).1.leaderAddress = r.leaderAddress := by
  obtain ⟨_, _, _, e⟩ := applyUpTo_eq r index; rw [e]

@[simp] theorem applyUpTo_voters : (r.applyUpTo index).1.voters = r.voters := by
  obtain ⟨_, _, _, e⟩ := applyUpTo_eq r index; rw [e]

@[simp] theorem applyUpTo_votersIndex : (r.applyUpTo index).1.votersIndex = r.votersIndex := by
  obtain ⟨_, _, _, e⟩ := applyUpTo_eq r index; rw [e]

@[simp] theorem applyUpTo_log : (r.applyUpTo index).1.log = r.log := by
  obtain ⟨_, _, _, e⟩ := applyUpTo_eq r index; rw [e]

@[simp] theorem applyUpTo_stopped : (r.applyUpTo index).1.stopped = r.stopped := by
  obtain ⟨_, _, _, e⟩ := applyUpTo_eq r index; rw [e]

@[simp] theorem applyUpTo_dropped : (r.applyUpTo index).1.dropped = r.dropped := by
  obtain ⟨_, _, _, e⟩ := applyUpTo_eq r index; rw [e]

theorem applied_le_applyUpTo : r.applied ≤ (r.applyUpTo index).1.applied := by
  unfold applyUpTo
  split
  · exact Nat.le_refl _
  · obtain ⟨m, a, h, e, hle, -⟩ := applyEntries_spec r ((r.log.take index).drop r.applied)
    rw [e]; exact hle

theorem applyUpTo_applied_le :
    (r.applyUpTo index).1.applied ≤ max r.applied (min index r.log.length) := by
  unfold applyUpTo
  split
  · exact Nat.le_max_left ..
  · obtain ⟨m, a, h, e, -, hge, -⟩ := applyEntries_spec r ((r.log.take index).drop r.applied)
    rw [e]
    simp only [List.length_drop, List.length_take] at hge ⊢
    omega

/-- A replica that is not halted afterwards has applied everything it was to apply. -/
theorem applyUpTo_of_running (h : (r.applyUpTo index).1.halted = none) :
    (r.applyUpTo index).2 = .ok () ∧
      (r.applyUpTo index).1.applied = max r.applied (min index r.log.length) := by
  unfold applyUpTo at h ⊢
  split at h
  · rename_i hr
    simp [hr] at h
  · obtain ⟨m, a, h', e, -, -, hans⟩ :=
      applyEntries_spec r ((r.log.take index).drop r.applied)
    rw [e] at h
    rcases hans with ⟨h1, -, h3⟩ | ⟨err, -, h2⟩
    · refine ⟨h1, ?_⟩
      rw [e]
      simp only [h3, List.length_drop, List.length_take]
      omega
    · simp only [h2] at h
      cases h

theorem applyUpTo_of_ok (h : (r.applyUpTo index).2 = .ok ()) :
    (r.applyUpTo index).1.halted = none := by
  unfold applyUpTo at h ⊢
  split at h
  · cases h
  · rename_i hr
    obtain ⟨m, a, h', e, -, -, hans⟩ :=
      applyEntries_spec r ((r.log.take index).drop r.applied)
    rcases hans with ⟨-, h2, -⟩ | ⟨err, h1, -⟩
    · rw [e]; exact h2.trans hr
    · rw [h1] at h; cases h

/-- A machine that fails halts the replica. -/
theorem applyUpTo_of_error (hrun : r.halted = none) {err : Error}
    (h : (r.applyUpTo index).2 = .error err) :
    (r.applyUpTo index).1.halted = some err.message := by
  unfold applyUpTo at h ⊢
  simp only [hrun] at h ⊢
  obtain ⟨m, a, h', e, -, -, hans⟩ := applyEntries_spec r ((r.log.take index).drop r.applied)
  rcases hans with ⟨h1, -⟩ | ⟨err', h1, h2⟩
  · rw [h1] at h; cases h
  · rw [h1] at h
    cases h
    rw [e]; exact h2

end

/-! ## A message of a leader -/

/-- The follower with the leader's log merged into its own, before it applies anything. -/
def taking (f leader : Replica σ) (term : Nat) : Replica σ :=
  { f.follow term leader.address with log := Log.merge f.log leader.log }

/-- The courses that a message of a leader can take. -/
inductive Receipt (f leader : Replica σ) (term : Nat) :
    Replica σ → Except Reject Nat → Prop where
  | down (hs : f.stopped = true) : Receipt f leader term f (.error .down)
  | stale (hs : f.stopped = false) (ht : term < f.term) :
    Receipt f leader term f (.error (.staleTerm f.term))
  | halted (hs : f.stopped = false) (ht : f.term ≤ term) (hh : f.halted.isSome) :
    Receipt f leader term (f.follow term leader.address) (.error .halted)
  | conflict (hs : f.stopped = false) (ht : f.term ≤ term) (hh : f.halted = none)
    (hc : Log.agreement leader.log f.log < f.applied)
    (hl : Log.agreement leader.log f.log < leader.log.length) :
    Receipt f leader term (f.follow term leader.address)
      (.error (.conflict (Log.agreement leader.log f.log + 1)))
  | taken {r : Replica σ} (hs : f.stopped = false) (ht : f.term ≤ term) (hh : f.halted = none)
    (hc : f.applied ≤ Log.agreement leader.log f.log ∨
      leader.log.length ≤ Log.agreement leader.log f.log)
    (hr : r = ((taking f leader term).applyUpTo
      (min leader.applied (Log.merge f.log leader.log).length)).1) :
    Receipt f leader term r
      (if r.halted = none then .ok (Log.merge f.log leader.log).length else .error .halted)

theorem receive_receipt (f leader : Replica σ) (term : Nat) (happ : f.applied ≤ f.log.length) :
    Receipt f leader term (f.receive leader term).1 (f.receive leader term).2 := by
  unfold receive append
  rw [observe_eq]
  by_cases hs : f.stopped = true
  · simpa [hs] using Receipt.down hs
  rw [Bool.not_eq_true] at hs
  by_cases ht : term < f.term
  · simpa [hs, ht] using Receipt.stale hs ht
  simp only [hs, Bool.false_eq_true, if_false, ht]
  rw [Nat.not_lt] at ht
  by_cases hh : f.halted.isSome
  · simpa [hh] using Receipt.halted hs ht hh
  rw [Bool.not_eq_true, Option.isSome_eq_false_iff, Option.isNone_iff_eq_none] at hh
  have hprev : ¬(Log.agreement leader.log f.log ≠ 0 ∧
      ((f.follow term leader.address).log.at? (Log.agreement leader.log f.log)).map Entry.term ≠
        some (((leader.log.at? (Log.agreement leader.log f.log)).map Entry.term).getD 0)) := by
    rintro ⟨hne, hmis⟩
    rw [follow_log] at hmis
    exact hmis (Log.at?_agreement leader.log f.log hne)
  have hsplice : Log.splice (f.follow term leader.address).log
      (f.follow term leader.address).applied (Log.agreement leader.log f.log)
      (leader.log.drop (Log.agreement leader.log f.log)) =
      if Log.agreement leader.log f.log < f.applied ∧
          Log.agreement leader.log f.log < leader.log.length then
        .error (Log.agreement leader.log f.log + 1)
      else .ok (Log.merge f.log leader.log) := by
    rw [follow_log, follow_applied]
    exact Log.splice_agreement f.log leader.log happ
  rw [if_neg (by simp [hh]), if_neg hprev, hsplice]
  by_cases hc : Log.agreement leader.log f.log < f.applied ∧
      Log.agreement leader.log f.log < leader.log.length
  · simpa [hc] using Receipt.conflict hs ht hh hc.1 hc.2
  simp only [if_neg hc]
  have htaken : Receipt f leader term _ _ := .taken hs ht hh (by omega) rfl
  have hok := applyUpTo_of_ok (taking f leader term)
    (min leader.applied (Log.merge f.log leader.log).length)
  have hrun := applyUpTo_of_running (taking f leader term)
    (min leader.applied (Log.merge f.log leader.log).length)
  unfold taking at htaken hok hrun
  generalize applyUpTo { f.follow term leader.address with log := Log.merge f.log leader.log }
    (min leader.applied (Log.merge f.log leader.log).length) = p at htaken hok hrun ⊢
  obtain ⟨r, answer⟩ := p
  cases answer with
  | ok u =>
    have hrun' : r.halted = none := hok rfl
    simpa [hrun'] using htaken
  | error err =>
    have hne : r.halted ≠ none := fun h => by cases (hrun h).1
    simpa [hne] using htaken

/-- A message is refused and changes nothing, or the follower takes note of the leader and then changes its
log and what it has applied. -/
theorem receive_eq (f leader : Replica σ) (term : Nat) :
    (f.receive leader term).1 = f ∧ (f.stopped = true ∨ term < f.term) ∨
      f.stopped = false ∧ f.term ≤ term ∧ ∃ l m a h, (f.receive leader term).1 =
        { f.follow term leader.address with log := l, machine := m, applied := a, halted := h } := by
  unfold receive append
  rw [observe_eq]
  by_cases hs : f.stopped = true
  · exact Or.inl ⟨by simp [hs], Or.inl hs⟩
  rw [Bool.not_eq_true] at hs
  by_cases ht : term < f.term
  · exact Or.inl ⟨by simp [hs, ht], Or.inr ht⟩
  refine Or.inr ⟨hs, by omega, ?_⟩
  simp only [hs, Bool.false_eq_true, if_false, ht]
  split
  · exact ⟨_, _, _, _, rfl⟩
  · split
    · exact ⟨_, _, _, _, rfl⟩
    · split
      · exact ⟨_, _, _, _, rfl⟩
      · rename_i l _
        obtain ⟨m, a, h, e⟩ := applyUpTo_eq { f.follow term leader.address with log := l }
          (min leader.applied l.length)
        split <;> rename_i hans <;> rw [hans] at e <;> exact ⟨l, m, a, h, e⟩

section
variable (f leader : Replica σ) (term : Nat)

@[simp] theorem receive_id : (f.receive leader term).1.id = f.id := by
  rcases receive_eq f leader term with ⟨e, -⟩ | ⟨-, -, _, _, _, _, e⟩ <;> rw [e]
  exact follow_id ..

@[simp] theorem receive_address : (f.receive leader term).1.address = f.address := by
  rcases receive_eq f leader term with ⟨e, -⟩ | ⟨-, -, _, _, _, _, e⟩ <;> rw [e]
  exact follow_address ..

@[simp] theorem receive_voters : (f.receive leader term).1.voters = f.voters := by
  rcases receive_eq f leader term with ⟨e, -⟩ | ⟨-, -, _, _, _, _, e⟩ <;> rw [e]
  exact follow_voters ..

@[simp] theorem receive_stopped : (f.receive leader term).1.stopped = f.stopped := by
  rcases receive_eq f leader term with ⟨e, -⟩ | ⟨-, -, _, _, _, _, e⟩ <;> rw [e]
  exact follow_stopped ..

@[simp] theorem receive_dropped : (f.receive leader term).1.dropped = f.dropped := by
  rcases receive_eq f leader term with ⟨e, -⟩ | ⟨-, -, _, _, _, _, e⟩ <;> rw [e]
  exact follow_dropped ..

theorem term_le_receive : f.term ≤ (f.receive leader term).1.term := by
  rcases receive_eq f leader term with ⟨e, -⟩ | ⟨-, ht, _, _, _, _, e⟩
  · exact Nat.le_of_eq (congrArg Replica.term e).symm
  rw [e]
  exact Nat.le_trans ht (Nat.le_of_eq (follow_term _ ht).symm)

variable {f term}

theorem receive_term_le (ht : f.term ≤ term) : (f.receive leader term).1.term ≤ term := by
  rcases receive_eq f leader term with ⟨e, -⟩ | ⟨-, -, _, _, _, _, e⟩
  · rw [e]; exact ht
  · rw [e]; exact Nat.le_of_eq (follow_term _ ht)

/-- A replica that runs and is not ahead adopts the term of the leader. -/
theorem receive_term (hs : f.stopped = false) (ht : f.term ≤ term) :
    (f.receive leader term).1.term = term := by
  rcases receive_eq f leader term with ⟨-, h⟩ | ⟨-, -, _, _, _, _, e⟩
  · rcases h with h | h
    · rw [hs] at h; cases h
    · omega
  · rw [e]; exact follow_term _ ht

end

/-- No message makes a leader. -/
theorem leader_of_receive {f leader : Replica σ} {term : Nat}
    (h : (f.receive leader term).1.leader = true) : f.leader = true := by
  rcases receive_eq f leader term with ⟨e, -⟩ | ⟨-, -, _, _, _, _, e⟩ <;> rw [e] at h
  · exact h
  · exact (follow_leader _ h).1

/-- A follower that is not ahead and has a part of the leader's log takes over the rest. If there is no
rest, it does not matter whether it is halted. -/
theorem receive_log {f leader : Replica σ} {term : Nat} (hs : f.stopped = false)
    (ht : f.term ≤ term) (hb : f.applied ≤ f.log.length) (hpre : f.log <+: leader.log)
    (hh : f.halted = none ∨ f.log = leader.log) : (f.receive leader term).1.log = leader.log := by
  have hfront := Log.agreement_of_prefix hpre
  have hc := receive_receipt f leader term hb
  generalize (f.receive leader term).1 = r, (f.receive leader term).2 = ans at hc ⊢
  cases hc with
  | down hs' => rw [hs] at hs'; cases hs'
  | stale hs' ht' => omega
  | halted hs' ht' hh' =>
    rcases hh with hh | hh
    · rw [hh] at hh'; cases hh'
    · exact (follow_log ..).trans hh
  | conflict hs' ht' hh' hc hl => omega
  | taken hs' ht' hh' hc hr => rw [hr, applyUpTo_log, taking, Log.merge_of_prefix hpre]

/-- A replica that is not ahead does not call the leader's term stale. -/
theorem receive_ne_staleTerm {f : Replica σ} {term : Nat} (ht : f.term ≤ term)
    (leader : Replica σ) (newer : Nat) :
    (f.receive leader term).2 ≠ .error (.staleTerm newer) := by
  unfold receive append
  rw [observe_eq, if_neg (Nat.not_lt.mpr ht)]
  by_cases hs : f.stopped = true
  · simp [hs]
  rw [if_neg hs]
  dsimp only
  split
  · simp
  · split
    · simp
    · split
      · simp
      · split <;> simp

end ReplicatedTable.Raft.Replica
