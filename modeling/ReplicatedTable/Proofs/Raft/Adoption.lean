import ReplicatedTable.Proofs.Raft.Acknowledgement

/-!
# What a peer takes over from a leader that has added a voter

A leader that adds a voter hands its voters and its log to every peer within reach. A peer that is ahead refuses
both. Any other one knows the leader and its voters afterwards, and `adopt_uptake` lists what became of its log:
it has halted, or it would have to give up an entry that it has applied and keeps what it has, or it has merged
the leader's log and has applied what the leader has.

A peer that answers for two voters is told twice. The second time changes nothing (`adopt_adopt`), so that a
peer ends up with what a single message makes of it (`replica?_mapAt_of_mem`). The leader goes on whoever
refuses, and keeps a record of the refusals (`mem_refusals`).
-/
namespace ReplicatedTable.Raft

open Log

variable {σ : Type}

namespace Replica

/-- The replica has applied an entry where a log has one of another term. -/
def Contradicts (log : Log) (f : Replica σ) : Prop :=
  ∃ (k : Nat) (x y : Entry), k < f.applied ∧ log[k]? = some x ∧ f.log[k]? = some y ∧ x.term ≠ y.term

theorem contradicts_iff {log : Log} {f : Replica σ} (hb : f.Bounded) :
    f.Contradicts log ↔ agreement log f.log < f.applied ∧ agreement log f.log < log.length := by
  have hb' : f.applied ≤ f.log.length := hb
  constructor
  · rintro ⟨k, x, y, hk, hx, hy, hne⟩
    have hle : agreement log f.log ≤ k := by
      refine Nat.le_of_not_lt fun hlt => hne ?_
      have hterms := agreement_terms log f.log k hlt
      rw [hx, hy] at hterms
      exact Option.some.inj hterms
    have hlen := (List.getElem?_eq_some_iff.mp hx).1
    omega
  · rintro ⟨happ, hlen⟩
    have hx := List.getElem?_eq_getElem hlen
    have hy : f.log[agreement log f.log]? = some _ := List.getElem?_eq_getElem (by omega)
    exact ⟨_, _, _, happ, hx, hy, agreement_maximal log f.log hx hy⟩

/-! ## Nothing new -/

/-- A replica that knows a leader at its term takes note of nothing. -/
theorem follow_known {r : Replica σ} {term : Nat} {leader : String} (ht : r.term = term)
    (hl : r.leaderAddress = some leader) : r.follow term leader = r := by
  unfold follow
  rw [if_neg (by simp [ht, hl])]

variable [StateMachine σ]

theorem applyUpTo_of_le {r : Replica σ} {index : Nat} (hrun : r.halted = none)
    (h : index ≤ r.applied) : (r.applyUpTo index).1 = r := by
  unfold applyUpTo
  have hnone : (r.log.take index).drop r.applied = [] := by
    rw [List.drop_eq_nil_iff, List.length_take]
    omega
  simp only [hrun, hnone, applyEntries]

variable {f leader : Replica σ} {term : Nat}

/-- A replica that knows the leader at the term and holds its log, with all that the leader has applied,
learns nothing from its message. -/
theorem receive_known (ht : f.term = term) (hl : f.leaderAddress = some leader.address)
    (hb : f.Bounded) (h : f.halted = none → f.Contradicts leader.log ∨
      Covers f.log leader.log ∧ min leader.applied f.log.length ≤ f.applied) :
    (f.receive leader term).1 = f := by
  have hknown : f.follow term leader.address = f := follow_known ht hl
  have hc := receive_receipt f leader term hb
  generalize (f.receive leader term).1 = r, (f.receive leader term).2 = ans at hc ⊢
  cases hc with
  | down hs' => rfl
  | stale hs' ht' => rfl
  | halted hs' ht' hh => exact hknown
  | conflict hs' ht' hh hc' hl' => exact hknown
  | taken hs' ht' hh hc' hr =>
    rcases h hh with hcontra | ⟨hcovers, happlied⟩
    · obtain ⟨h1, h2⟩ := (contradicts_iff hb).mp hcontra
      omega
    · have hmerge : merge f.log leader.log = f.log := if_pos (Nat.le_of_eq hcovers.symm)
      have htaking : f.taking leader term = f := by rw [taking, hknown, hmerge]
      rw [hr, htaking, hmerge]
      exact applyUpTo_of_le hh happlied

/-! ## Taking over voters and log -/

/-- A peer that has accepted the leader's voters. -/
def enlisted (leader f : Replica σ) : Replica σ :=
  { f.follow leader.term leader.address with voters := leader.voters, votersIndex := leader.votersIndex }

omit [StateMachine σ] in
theorem Bounded.enlisted (h : f.Bounded) (leader : Replica σ) : (enlisted leader f).Bounded := by
  unfold Bounded Replica.enlisted
  rw [follow_log, follow_applied]
  exact h

omit [StateMachine σ] in
theorem acceptVoters_enlisted (hs : f.stopped = false) (ht : f.term ≤ leader.term) :
    f.acceptVoters leader.term leader.address leader.voters leader.votersIndex =
      (enlisted leader f, .ok ()) := by
  rcases acceptVoters_eq f leader.term leader.address leader.voters leader.votersIndex with
    ⟨-, h⟩ | ⟨-, -, e⟩
  · rw [hs] at h
    rcases h with h | h
    · cases h
    · omega
  · exact e

end Replica

namespace Network
open Replica

variable [StateMachine σ] {f leader : Replica σ}

/-- A peer that is ahead refuses the voters and the log. -/
theorem adopt_of_stale (hs : f.stopped = false) (ht : leader.term < f.term) :
    adopt leader f = f ∧ adoption leader f = .error (.staleTerm f.term) := by
  have h : f.acceptVoters leader.term leader.address leader.voters leader.votersIndex =
      (f, .error (.staleTerm f.term)) := by
    unfold acceptVoters
    simp only [observe_eq, hs, ht, Bool.false_eq_true, if_false, if_true]
  simp only [adopt, adoption, h, and_self]

theorem adopt_of_running (hs : f.stopped = false) (ht : f.term ≤ leader.term) :
    adopt leader f = ((enlisted leader f).receive leader leader.term).1 ∧
      adoption leader f = ((enlisted leader f).receive leader leader.term).2.map fun _ => () := by
  have h := acceptVoters_enlisted hs ht
  simp only [adopt, adoption, h, and_self]

/-- What a peer knows that was told of a leader's voters. -/
structure Informed (leader f : Replica σ) : Prop where
  running : f.stopped = false
  term : f.term = leader.term
  leaderAddress : f.leaderAddress = some leader.address
  voters : f.voters = leader.voters
  votersIndex : f.votersIndex = leader.votersIndex

omit [StateMachine σ] in
theorem Informed.enlisted (hs : f.stopped = false) (ht : f.term ≤ leader.term) :
    Informed leader (enlisted leader f) :=
  ⟨(follow_stopped ..).trans hs, follow_term _ ht, follow_leaderAddress .., rfl, rfl⟩

omit [StateMachine σ] in
theorem Informed.enlisted_eq (h : Informed leader f) : Replica.enlisted leader f = f := by
  unfold Replica.enlisted
  rw [follow_known h.term h.leaderAddress, ← h.voters, ← h.votersIndex]

/-- A message of the leader takes nothing back. -/
theorem Informed.receive (h : Informed leader f) :
    Informed leader (f.receive leader leader.term).1 := by
  rcases receive_eq f leader leader.term with ⟨e, -⟩ | ⟨-, -, _, _, _, _, e⟩ <;> rw [e]
  · exact h
  · rw [follow_known h.term h.leaderAddress]
    exact ⟨h.running, h.term, h.leaderAddress, h.voters, h.votersIndex⟩

/-- A peer that is not ahead knows the leader and its voters afterwards. -/
theorem adopt_informed (hs : f.stopped = false) (ht : f.term ≤ leader.term) :
    Informed leader (adopt leader f) := by
  rw [(adopt_of_running hs ht).1]
  exact (Informed.enlisted hs ht).receive

/-- What becomes of the log of a peer that is not ahead. -/
inductive Uptake (leader f : Replica σ) : Replica σ → Except Reject Unit → Prop where
  | halted {f' : Replica σ} (answer : Except Reject Unit) (h : f'.halted.isSome) :
    Uptake leader f f' answer
  | kept {f' : Replica σ} (hc : f.Contradicts leader.log) (hlog : f'.log = f.log)
    (happlied : f'.applied = f.applied) (hrun : f'.halted = none) :
    Uptake leader f f' (.error (.conflict (agreement leader.log f.log + 1)))
  | merged {f' : Replica σ} (hc : ¬f.Contradicts leader.log) (hlog : f'.log = merge f.log leader.log)
    (happlied : f'.applied = max f.applied leader.applied) (hrun : f'.halted = none) :
    Uptake leader f f' (.ok ())

theorem adopt_uptake (hs : f.stopped = false) (ht : f.term ≤ leader.term) (hb : f.Bounded)
    (hbl : leader.Bounded) : Uptake leader f (adopt leader f) (adoption leader f) := by
  obtain ⟨he, hans⟩ := adopt_of_running hs ht
  have hlog : (enlisted leader f).log = f.log := follow_log ..
  have happ : (enlisted leader f).applied = f.applied := follow_applied ..
  have hterm := (Informed.enlisted hs ht).term
  have hcontra : (enlisted leader f).Contradicts leader.log ↔ f.Contradicts leader.log := by
    unfold Contradicts
    rw [hlog, happ]
  have hbe := hb.enlisted leader
  rw [he, hans]
  have hc := receive_receipt (enlisted leader f) leader leader.term hbe
  generalize ((enlisted leader f).receive leader leader.term).1 = r,
    ((enlisted leader f).receive leader leader.term).2 = ans at hc ⊢
  cases hc with
  | down hs' => rw [(Informed.enlisted hs ht).running] at hs'; cases hs'
  | stale hs' ht' => omega
  | halted hs' ht' hh => exact .halted _ (by rw [follow_halted]; exact hh)
  | conflict hs' ht' hh hc' hl' =>
    have hcon := hcontra.mp ((contradicts_iff hbe).mpr ⟨hc', hl'⟩)
    rw [hlog]
    refine .kept hcon ?_ ?_ ?_
    · rw [follow_log, hlog]
    · rw [follow_applied, happ]
    · rw [follow_halted, hh]
  | taken hs' ht' hh hc' hr =>
    by_cases hrun : r.halted = none
    · rw [if_pos hrun]
      have hall := (applyUpTo_of_running (taking (enlisted leader f) leader leader.term) _
        (hr ▸ hrun)).2
      rw [← hr] at hall
      refine .merged (fun h => ?_) ?_ ?_ hrun
      · have := (contradicts_iff hbe).mp (hcontra.mpr h)
        omega
      · rw [hr, applyUpTo_log, taking, hlog]
      · rw [hall]
        simp only [taking, follow_applied, hlog, happ]
        have hle : leader.applied ≤ leader.log.length := hbl
        have := (agreement_le_right leader.log (merge f.log leader.log))
        rw [covers_merge f.log leader.log] at this
        omega
    · exact .halted _ (Option.isSome_iff_ne_none.mpr hrun)

/-- Told twice, a peer that runs learns nothing the second time. -/
theorem adopt_adopt (hs : f.stopped = false) (hb : f.Bounded) (hbl : leader.Bounded) :
    adopt leader (adopt leader f) = adopt leader f := by
  by_cases ht : leader.term < f.term
  · rw [(adopt_of_stale hs ht).1, (adopt_of_stale hs ht).1]
  rw [Nat.not_lt] at ht
  have hin := adopt_informed hs ht
  have hup := adopt_uptake hs ht hb hbl
  have hb' : (adopt leader f).Bounded := by
    rw [(adopt_of_running hs ht).1]
    exact (hb.enlisted leader).receive leader leader.term
  generalize adopt leader f = f', adoption leader f = ans at hin hup hb' ⊢
  rw [(adopt_of_running hin.running (Nat.le_of_eq hin.term)).1, hin.enlisted_eq]
  refine receive_known hin.term hin.leaderAddress hb' fun hrun => ?_
  cases hup with
  | halted _ h => rw [hrun] at h; cases h
  | kept hc hlog happlied _ =>
    left
    unfold Contradicts at hc ⊢
    rw [hlog, happlied]
    exact hc
  | merged hc hlog happlied _ =>
    right
    rw [hlog]
    exact ⟨covers_merge f.log leader.log, by omega⟩

/-! ## Many peers -/

omit [StateMachine σ] in
/-- A replica that is changed at least once is as after one change, if the second changes nothing. -/
theorem replica?_mapAt_of_mem {g : Replica σ → Replica σ} (hd : ∀ r, (g r).dropped = r.dropped)
    {js : List Nat} {n : Network σ} {j : Nat} {r : Replica σ} (hj : j ∈ js) (hr : n.replica? j = some r)
    (hg : g (g r) = g r) : (n.mapAt g js).replica? j = some (g r) := by
  have hkept : ∀ x, x = g r → g x = g r := by
    rintro x rfl
    exact hg
  obtain ⟨_, hr', rfl⟩ := mapAt_reached hkept hd hj hr rfl
  exact hr'

/-- A peer that refuses is on the leader's record. -/
theorem mem_refusals {i : Nat} {reject : Reject} (h : adoption leader f = .error reject) :
    ∀ {js : List Nat} {n : Network σ} {j : Nat}, n.replica? i = some leader → i ∉ js → j ∈ js →
      n.replica? j = some f →
      (⟨.voterSync, leader.id, f.id, reject⟩ : Refusal) ∈ (n.deliverVoters i leader js).2
  | k :: js, n, j, hi, hjs, hj, hf => by
    rw [List.mem_cons, not_or] at hjs
    by_cases hkj : k = j
    · subst hkj
      rw [deliverVoters_cons_some hi hjs.1 hf, h]
      refine List.mem_cons.mpr (Or.inl ?_)
      have hleader := (put_getElem?_ne n k (adopt leader f) (Ne.symm hjs.1)).trans
        (replica?_eq_some.mp hi).1
      have hpeer := put_getElem?_self (adopt leader f) (replica?_eq_some.mp hf).1
      simp only [refusal, hleader, hpeer, Option.map_some, Option.getD_some, adopt_id]
    · have hjs' := (List.mem_cons.mp hj).resolve_left (Ne.symm hkj)
      cases hx : n.replica? k with
      | none =>
        rw [deliverVoters_cons_none hx]
        exact mem_refusals h hi hjs.2 hjs' hf
      | some x =>
        have hlater := mem_refusals h ((replica?_put_ne (adopt leader x) (Ne.symm hjs.1)).trans hi)
          hjs.2 hjs' ((replica?_put_ne (adopt leader x) hkj).trans hf)
        rw [deliverVoters_cons_some hi hjs.1 hx]
        cases adoption leader x with
        | ok _ => exact hlater
        | error _ => exact List.mem_cons_of_mem _ hlater

/-! ## Adding a voter -/

/-- What a leader needs to add a voter. -/
structure Widens (n : Network σ) (i : Nat) (r : Replica σ) (id address : String) (prev : Nat) :
    Prop where
  here : n.replica? i = some r
  running : r.stopped = false
  leads : r.leader = true
  current : prev = 0 ∨ prev = r.votersIndex
  new : r.voters[id]? ≠ some address

namespace Widens

variable {n : Network σ} {i j : Nat} {r : Replica σ} {id address : String} {prev : Nat}

/-- A leader adds a voter that it does not have, whatever its peers say to it. -/
theorem addVoter_eq (h : n.Widens i r id address prev) :
    n.addVoter i id address prev =
      ⟨((n.put i (r.widened id address)).deliverVoters i (r.widened id address)
          (n.reachable (r.widened id address))).1, .ok (),
        ((n.put i (r.widened id address)).deliverVoters i (r.widened id address)
          (n.reachable (r.widened id address))).2⟩ := by
  have hreach := reachable_put (x := r.widened id address) h.here (replica?_eq_some.mp h.here).2
    (r.widened id address)
  have hprev : ¬(prev ≠ 0 ∧ prev ≠ r.votersIndex) := fun ⟨h0, hne⟩ => h.current.elim h0 hne
  unfold addVoter withReplica
  rw [h.here]
  dsimp only
  rw [if_neg (by simp [h.running]), if_neg (by simp [h.leads]), if_neg hprev, if_neg h.new, ← hreach]
  rfl

theorem answer (h : n.Widens i r id address prev) : (n.addVoter i id address prev).answer = .ok () := by
  rw [h.addVoter_eq]

omit [StateMachine σ] in
theorem put_self (h : n.Widens i r id address prev) :
    (n.put i (r.widened id address)).replica? i = some (r.widened id address) :=
  replica?_put_self _ h.here (replica?_eq_some.mp h.here).2

omit [StateMachine σ] in
theorem not_mem_reachable (h : n.Widens i r id address prev) (hw : n.Wired) :
    i ∉ n.reachable (r.widened id address) := hw.not_mem_reachable (replica?_eq_some.mp h.here).1 rfl

theorem addVoter_network (h : n.Widens i r id address prev) (hw : n.Wired) :
    (n.addVoter i id address prev).network = (n.put i (r.widened id address)).mapAt
      (adopt (r.widened id address)) (n.reachable (r.widened id address)) := by
  rw [h.addVoter_eq]
  exact deliverVoters_network h.put_self (h.not_mem_reachable hw)

/-- The leader itself takes nothing from its peers. -/
theorem addVoter_self (h : n.Widens i r id address prev) (hw : n.Wired) :
    (n.addVoter i id address prev).network.replica? i = some (r.widened id address) := by
  rw [h.addVoter_network hw, replica?_mapAt_of_not_mem (h.not_mem_reachable hw)]
  exact h.put_self

variable {f : Replica σ}

/-- A peer within reach is told once or more often, which is the same. -/
theorem addVoter_peer (h : n.Widens i r id address prev) (hw : n.Wired) (hb : n.Everywhere Bounded)
    (hj : j ∈ n.reachable (r.widened id address)) (hf : n.replica? j = some f) :
    (n.addVoter i id address prev).network.replica? j = some (adopt (r.widened id address) f) := by
  have hij : i ≠ j := fun e => h.not_mem_reachable hw (e ▸ hj)
  rw [h.addVoter_network hw]
  exact replica?_mapAt_of_mem (adopt_dropped · _) hj ((replica?_put_ne _ hij).trans hf)
    (adopt_adopt (hw.running hj hf) (hb j f (replica?_eq_some.mp hf).1) (hb i r (replica?_eq_some.mp h.here).1))

theorem addVoter_other (h : n.Widens i r id address prev) (hw : n.Wired) (hij : i ≠ j)
    (hj : j ∉ n.reachable (r.widened id address)) :
    (n.addVoter i id address prev).network.replica? j = n.replica? j := by
  rw [h.addVoter_network hw, replica?_mapAt_of_not_mem hj]
  exact replica?_put_ne _ hij

theorem mem_addVoter_refusals (h : n.Widens i r id address prev) (hw : n.Wired)
    (hj : j ∈ n.reachable (r.widened id address)) (hf : n.replica? j = some f) {reject : Reject}
    (hreject : adoption (r.widened id address) f = .error reject) :
    (⟨.voterSync, r.id, f.id, reject⟩ : Refusal) ∈ (n.addVoter i id address prev).refusals := by
  have hnot := h.not_mem_reachable hw
  have hij : i ≠ j := fun e => hnot (e ▸ hj)
  rw [h.addVoter_eq]
  exact mem_refusals hreject h.put_self hnot hj ((replica?_put_ne _ hij).trans hf)

end Widens

/-- A leader adds a voter, or leaves everything as it is. It answers that a voter is added also if it has the
voter. -/
theorem widens_or_idle {n : Network σ} (hw : n.Wired) {i : Nat} {r : Replica σ}
    (hr : n.replica? i = some r) (id address : String) (prev : Nat) :
    n.Widens i r id address prev ∨
      (n.addVoter i id address prev).network = n ∧
        ((n.addVoter i id address prev).answer = .ok () → r.voters[id]? = some address) := by
  have hc := addVoter_admission hw i id address prev
  generalize (n.addVoter i id address prev).network = m,
    (n.addVoter i id address prev).answer = ans at hc ⊢
  cases hc with
  | refused e => exact Or.inr ⟨rfl, fun h => by cases h⟩
  | @present x hx hl hv =>
    rw [hr] at hx
    cases hx
    exact Or.inr ⟨rfl, fun _ => hv⟩
  | @done x hx hs hl hp hv =>
    rw [hr] at hx
    cases hx
    exact Or.inl ⟨hr, hs, hl, hp, hv⟩

end Network

end ReplicatedTable.Raft
