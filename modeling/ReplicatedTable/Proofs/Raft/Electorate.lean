import Mathlib.Data.List.Pairwise
import ReplicatedTable.Proofs.Raft.Evolution
import ReplicatedTable.Raft.Recorder

/-!
# Who becomes the leader

A replica becomes the leader by forming its group or by winning an election. A `Crowning` records that,
with the replicas that were within reach (its electorate) and the voters that the winner knew.

Each replica of an electorate has taken over the term afterwards, and none had reached it before
(`crowning_fresh`, `crowning_reached`). As terms never fall, two crownings of one term have no replica in
common (`crownings_apart`). That excludes two leaders of a term as long as majorities meet. They need not:
voters are handed to those within reach and are not part of the log, so that two candidates may know
voters with majorities that are apart. `two_leaders_of_one_term` is such a run, and
`leaders_of_one_term_apart` says that this is the only way.
-/
namespace ReplicatedTable.Raft.Network

open Replica

variable {σ : Type} [StateMachine σ]

/-! ## Peers that a leader reaches -/

/-- Whoever runs and is not ahead is at the leader's term once it was told of it. -/
theorem receive_reached {leader : Replica σ} {term : Nat} : ∀ {js : List Nat} {n : Network σ},
    (∀ j ∈ js, ∃ r, n.replica? j = some r ∧ r.stopped = false ∧ r.term ≤ term) →
    ∀ j ∈ js, ∃ r, (n.mapAt (fun f => (f.receive leader term).1) js).replicas[j]? = some r ∧
      r.term = term
  | k :: js, n, h, j, hj => by
    obtain ⟨x, hx, hs, ht⟩ := h k (List.mem_cons_self ..)
    let f : Replica σ → Replica σ := fun f => (f.receive leader term).1
    have hput : (n.put k (f x)).replica? k = some (f x) :=
      replica?_put_self _ hx ((receive_dropped x leader term).trans (replica?_eq_some.mp hx).2)
    have htail : ∀ i ∈ js, ∃ r, (n.put k (f x)).replica? i = some r ∧ r.stopped = false ∧
        r.term ≤ term := by
      intro i hi
      by_cases hki : k = i
      · subst hki
        exact ⟨_, hput, (receive_stopped x leader term).trans hs, receive_term_le leader ht⟩
      · rw [replica?_put_ne _ hki]
        exact h i (List.mem_cons_of_mem k hi)
    rw [mapAt_cons_some hx]
    by_cases hjs : j ∈ js
    · exact receive_reached htail j hjs
    · obtain rfl := (List.mem_cons.mp hj).resolve_right hjs
      rw [mapAt_getElem?_of_not_mem hjs]
      exact ⟨_, (replica?_eq_some.mp hput).1, receive_term leader hs ht⟩

/-! ## Crownings -/

/-- A replica has become the leader. -/
structure Crowning where
  replica : Nat
  term : Nat
  /-- Whether it formed the group, or else won an election. -/
  founding : Bool
  /-- The voters that it knew. -/
  voters : Voters
  /-- The replica and the peers within its reach. -/
  electorate : List Nat

/-- The crowning that an operation brings about. -/
def crowning? (n : Network σ) : Op σ → Option Crowning
  | .bootstrap i =>
    match (n.bootstrap i).answer, (n.bootstrap i).network.replica? i with
    | .ok (), some r => some ⟨i, r.term, true, r.voters, [i]⟩
    | _, _ => none
  | .campaign i =>
    match (n.campaign i).answer, n.replica? i with
    | .ok term, some r => some ⟨i, term, false, r.voters, i :: n.reachable r⟩
    | _, _ => none
  | _ => none

/-- All crownings of a run, in order. -/
def crownings (n : Network σ) : List (Op σ) → List Crowning
  | [] => []
  | op :: ops => (n.crowning? op).toList ++ crownings (n.step op).network ops

/-- What a crowning is. -/
inductive Crowned (n m : Network σ) (c : Crowning) : Op σ → Prop where
  | founder {i : Nat} {r : Replica σ} (hr : n.replica? i = some r) (hv : r.voters = ∅)
    (hm : m = n.put i r.founded) (hc : c = ⟨i, r.founded.term, true, r.founded.voters, [i]⟩) :
    Crowned n m c (.bootstrap i)
  | winner {i : Nat} {r : Replica σ} (hr : n.replica? i = some r) (h : n.Electable r)
    (hm : m = (n.put i (r.elected (n.nextTerm r))).mapAt
      (fun f => (f.receive (r.elected (n.nextTerm r)) (n.nextTerm r)).1) (n.reachable r))
    (hc : c = ⟨i, n.nextTerm r, false, r.voters, i :: n.reachable r⟩) :
    Crowned n m c (.campaign i)

omit [StateMachine σ] in
theorem replica?_founded {n : Network σ} {i : Nat} {r : Replica σ} (hr : n.replica? i = some r) :
    (n.put i r.founded).replica? i = some r.founded :=
  replica?_put_self _ hr ((setLeader_dropped ..).trans (replica?_eq_some.mp hr).2)

theorem crowned_of_crowning? {n : Network σ} (hw : n.Wired) {op : Op σ} {c : Crowning}
    (h : n.crowning? op = some c) : Crowned n (n.step op).network c op := by
  cases op with
  | bootstrap i =>
    have hc := bootstrap_founding n i
    have hm : (n.step (.bootstrap i)).network = (n.bootstrap i).network := rfl
    rw [hm]
    simp only [crowning?] at h
    generalize (n.bootstrap i).network = m, (n.bootstrap i).answer = ans at hc h ⊢
    cases hc with
    | refused e => cases h
    | @done r hr hv =>
      rw [replica?_founded hr] at h
      exact .founder hr hv rfl (Option.some.inj h).symm
  | campaign i =>
    have hc := campaign_election hw i
    have hm : (n.step (.campaign i)).network = (n.campaign i).network := rfl
    rw [hm]
    simp only [crowning?] at h
    generalize (n.campaign i).network = m, (n.campaign i).answer = ans at hc h ⊢
    cases hc with
    | refused e => cases h
    | won hr he =>
      rw [hr] at h
      exact .winner hr he rfl (Option.some.inj h).symm
  | _ => cases h

theorem mem_crownings {c : Crowning} : ∀ {ops : List (Op σ)} {n : Network σ},
    c ∈ n.crownings ops → ∃ before op after, ops = before ++ op :: after ∧
      (n.run before).crowning? op = some c
  | op :: ops, n, h => by
    rcases List.mem_append.mp h with h | h
    · exact ⟨[], op, ops, rfl, Option.mem_toList.mp h⟩
    · obtain ⟨before, op', after, rfl, hc⟩ := mem_crownings h
      exact ⟨op :: before, op', after, rfl, hc⟩

/-! ## Electorates of one term -/

/-- Replicas at a term or above. -/
def Reached (n : Network σ) (term : Nat) (js : List Nat) : Prop :=
  ∀ j ∈ js, ∃ r, n.replicas[j]? = some r ∧ term ≤ r.term

theorem Reached.step {n : Network σ} (hw : n.Wired) {term : Nat} {js : List Nat}
    (h : n.Reached term js) (op : Op σ) : (n.step op).network.Reached term js := by
  intro j hj
  obtain ⟨r, hr, ht⟩ := h j hj
  obtain ⟨r', hr', hb⟩ := step_later hw op hr
  exact ⟨r', hr', Nat.le_trans ht hb.term_le⟩

omit [StateMachine σ] in
/-- A candidate would lead at a term to which nobody within its reach has come. -/
theorem lt_nextTerm {n : Network σ} (hw : n.Wired) {i : Nat} {x : Replica σ}
    (hx : n.replica? i = some x) {j : Nat} (hj : j ∈ i :: n.reachable x) {r : Replica σ}
    (hr : n.replicas[j]? = some r) : r.term < n.nextTerm x := by
  have hmax : r.term ≤ max x.term (n.highestTerm (n.reachable x)) := by
    rcases List.mem_cons.mp hj with rfl | hj
    · rw [(replica?_eq_some.mp hx).1] at hr
      cases hr
      exact Nat.le_max_left ..
    · obtain ⟨y, id, hy, -⟩ := hw.peer hj
      rw [(replica?_eq_some.mp hy).1] at hr
      cases hr
      exact Nat.le_trans (term_le_highestTerm hj hy) (Nat.le_max_right ..)
  exact Nat.lt_succ_of_le hmax

theorem reached_elected {n : Network σ} (hw : n.Wired) {i : Nat} {x : Replica σ}
    (hx : n.replica? i = some x) :
    ((n.put i (x.elected (n.nextTerm x))).mapAt
      (fun f => (f.receive (x.elected (n.nextTerm x)) (n.nextTerm x)).1) (n.reachable x)).Reached
      (n.nextTerm x) (i :: n.reachable x) := by
  have hat := (replica?_eq_some.mp hx).1
  have hnot : i ∉ n.reachable x := hw.not_mem_reachable hat rfl
  intro j hj
  rcases List.mem_cons.mp hj with rfl | hj
  · rw [mapAt_getElem?_of_not_mem hnot]
    exact ⟨_, put_getElem?_self _ hat, by simp [elected]⟩
  · have hpeers : ∀ k ∈ n.reachable x, ∃ r,
        (n.put i (x.elected (n.nextTerm x))).replica? k = some r ∧ r.stopped = false ∧
          r.term ≤ n.nextTerm x := by
      intro k hk
      obtain ⟨y, id, hy, hs, -⟩ := hw.peer hk
      have hik : i ≠ k := fun e => hnot (e ▸ hk)
      exact ⟨y, (replica?_put_ne _ hik).trans hy, hs,
        Nat.le_of_lt (lt_nextTerm hw hx (List.mem_cons_of_mem i hk) (replica?_eq_some.mp hy).1)⟩
    obtain ⟨r, hr, ht⟩ := receive_reached hpeers j hj
    exact ⟨r, hr, Nat.le_of_eq ht.symm⟩

/-- Nobody in an electorate had come to the term before. -/
theorem crowning_fresh {n : Network σ} (hw : n.Wired) {op : Op σ} {c : Crowning}
    (h : n.crowning? op = some c) {j : Nat} (hj : j ∈ c.electorate) {r : Replica σ}
    (hr : n.replicas[j]? = some r) : r.term < c.term := by
  cases crowned_of_crowning? hw h with
  | @founder i x hx hv hm hc =>
    subst hc
    obtain rfl := List.mem_singleton.mp hj
    rw [(replica?_eq_some.mp hx).1] at hr
    cases hr
    simp [founded]
  | winner hx he hm hc =>
    subst hc
    exact lt_nextTerm hw hx hj hr

/-- Everybody in an electorate has come to the term. -/
theorem crowning_reached {n : Network σ} (hw : n.Wired) {op : Op σ} {c : Crowning}
    (h : n.crowning? op = some c) : (n.step op).network.Reached c.term c.electorate := by
  cases crowned_of_crowning? hw h with
  | @founder i x hx hv hm hc =>
    subst hc
    rw [hm]
    intro j hj
    obtain rfl := List.mem_singleton.mp hj
    exact ⟨_, put_getElem?_self _ (replica?_eq_some.mp hx).1, Nat.le_refl _⟩
  | winner hx he hm hc =>
    subst hc
    rw [hm]
    exact reached_elected hw hx

/-- Once replicas have come to a term, they are not in an electorate of this term again. -/
theorem Reached.apart {term : Nat} {js : List Nat} : ∀ {ops : List (Op σ)} {n : Network σ},
    n.Wired → n.Reached term js → ∀ c ∈ n.crownings ops, term = c.term → js.Disjoint c.electorate
  | op :: ops, n, hw, h, c, hc, ht => by
    rcases List.mem_append.mp hc with hc | hc
    · intro j hj hjc
      obtain ⟨r, hr, hle⟩ := h j hj
      have := crowning_fresh hw (Option.mem_toList.mp hc) hjc hr
      omega
    · exact (h.step hw op).apart (wired_step hw op) c hc ht

/-- If the crownings are of one term, their electorates have no replica in common. -/
def Apart (c d : Crowning) : Prop := c.term = d.term → c.electorate.Disjoint d.electorate

instance : Std.Symm Apart where
  symm _ _ h e _ hj hj' := h e.symm hj' hj

theorem crownings_apart : ∀ {ops : List (Op σ)} {n : Network σ}, n.Wired →
    (n.crownings ops).Pairwise Apart
  | [], _, _ => .nil
  | op :: ops, n, hw => by
    refine List.pairwise_append.mpr ⟨?_, crownings_apart (wired_step hw op), fun c hc d hd ht => ?_⟩
    · cases n.crowning? op <;> simp
    · exact (crowning_reached hw (Option.mem_toList.mp hc)).apart (wired_step hw op) d hd ht

/-! ## Terms of crownings -/

/-- Leaders know voters, and whoever knows voters is at a term. -/
structure Grounded (r : Replica σ) : Prop where
  leader : r.leader = true → r.voters ≠ ∅
  term : r.voters ≠ ∅ → 0 < r.term

theorem voters_ne_empty {voters : Voters} {id : String} (h : id ∈ voters) : voters ≠ ∅ := by
  rintro rfl
  simp at h

omit [StateMachine σ] in
theorem Grounded.follow {r : Replica σ} (h : Grounded r) {term : Nat} (ht : r.term ≤ term)
    (leader : String) : Grounded (r.follow term leader) where
  leader hl := by
    rw [follow_voters]
    exact h.leader (follow_leader _ hl).1
  term hv := by
    rw [follow_voters] at hv
    rw [follow_term _ ht]
    exact Nat.lt_of_lt_of_le (h.term hv) ht

theorem grounded_lasting : Lasting (σ := σ) { sender := Grounded } := by
  intro r r' hc h
  cases hc with
  | found hf hv =>
    exact ⟨fun _ => by simp [founded], fun _ => by simp [founded]⟩
  | elect ht hv =>
    refine ⟨fun _ => by simpa [elected] using voters_ne_empty hv, fun _ => ?_⟩
    simp only [elected, setLeader_term]
    omega
  | resign => exact ⟨fun hl => by simp at hl, by simpa using h.term⟩
  | stop => exact ⟨fun hl => by simp [ended] at hl, by simpa [ended] using h.term⟩
  | drop => exact ⟨h.leader, h.term⟩
  | widen hv hl => exact ⟨fun _ => by simp [widened], fun _ => h.term (h.leader hl)⟩
  | push data => exact ⟨h.leader, h.term⟩
  | depose ht hl =>
    refine ⟨fun hl => by simp [deposed] at hl, fun hv => ?_⟩
    have := h.term (by simpa [deposed] using hv)
    simp only [deposed, setLeader_term]
    omega
  | apply index => exact ⟨by simpa using h.leader, by simpa using h.term⟩
  | @receive leader hs hl term =>
    rcases receive_eq r leader term with ⟨e, -⟩ | ⟨-, ht, _, _, _, _, e⟩ <;> rw [e]
    · exact h
    · have hf := h.follow ht leader.address
      exact ⟨hf.leader, hf.term⟩
  | @acceptVoters leader hs hl =>
    rcases acceptVoters_eq r leader.term leader.address leader.voters leader.votersIndex with
      ⟨e, -⟩ | ⟨-, ht, e⟩ <;> rw [e]
    · exact h
    · have hne := hs.leader hl
      refine ⟨fun _ => hne, fun _ => ?_⟩
      show 0 < (r.follow leader.term leader.address).term
      rw [follow_term _ ht]
      exact hs.term hne

/-- A replica that has voters keeps having some. -/
theorem voters_last {r r' : Replica σ} (hc : Change { sender := Grounded } r r')
    (h : r.voters ≠ ∅) : r'.voters ≠ ∅ := by
  cases hc with
  | found hf hv => exact absurd hv h
  | elect ht hv => simpa [elected] using h
  | resign => simpa using h
  | stop => simpa [ended] using h
  | drop => exact h
  | widen hv hl => simp [widened]
  | push data => exact h
  | depose ht hl => simpa [deposed] using h
  | apply index => simpa using h
  | receive hs hl term => simpa using h
  | @acceptVoters leader hs hl =>
    rcases acceptVoters_eq r leader.term leader.address leader.voters leader.votersIndex with
      ⟨e, -⟩ | ⟨-, -, e⟩ <;> rw [e]
    · exact h
    · exact hs.leader hl

/-- A replica that has heard of no group. -/
structure Pristine (r : Replica σ) : Prop where
  leader : r.leader = false
  voters : r.voters = ∅
  term : r.term = 0

theorem pristine_lasting : Lasting (σ := σ) { sender := Pristine, founding := False } := by
  intro r r' hc h
  cases hc with
  | found hf hv => exact hf.elim
  | elect ht hv => exact absurd h.voters (voters_ne_empty hv)
  | resign => exact ⟨by simp, by simpa using h.voters, by simpa using h.term⟩
  | stop => exact ⟨by simp [ended], by simpa [ended] using h.voters, by simpa [ended] using h.term⟩
  | drop => exact ⟨h.leader, h.voters, h.term⟩
  | widen hv hl => rw [h.leader] at hl; cases hl
  | push data => exact ⟨h.leader, h.voters, h.term⟩
  | depose ht hl => rw [h.leader] at hl; cases hl
  | apply index => exact ⟨by simpa using h.leader, by simpa using h.voters, by simpa using h.term⟩
  | receive hs hl term => rw [hs.leader] at hl; cases hl
  | acceptVoters hs hl => rw [hs.leader] at hl; cases hl

/-- Nobody has heard of a group, or a certain replica has voters. -/
def Founded (b : Nat) (n : Network σ) : Prop :=
  n.Everywhere Pristine ∨ ∃ r, n.replicas[b]? = some r ∧ r.voters ≠ ∅

theorem Founded.step {b : Nat} {n : Network σ} (hw : n.Wired) (hg : n.Everywhere Grounded)
    (h : n.Founded b) {op : Op σ}
    (hb : ∀ c, n.crowning? op = some c → c.founding = true → c.replica = b) :
    (n.step op).network.Founded b := by
  rcases h with hn | ⟨r, hr, hv⟩
  · by_cases hop : op.Obeys { sender := Pristine, founding := False }
    · exact Or.inl (step_everywhere hw pristine_lasting hn hop fun _ _ _ _ => ⟨rfl, rfl, rfl⟩)
    · cases op with
      | bootstrap i =>
        have hc := bootstrap_founding n i
        simp only [crowning?] at hb
        show (n.bootstrap i).network.Founded b
        generalize (n.bootstrap i).network = m, (n.bootstrap i).answer = ans at hc hb ⊢
        cases hc with
        | refused e => exact Or.inl hn
        | @done r hr hv =>
          rw [replica?_founded hr] at hb
          obtain rfl : i = b := hb _ rfl rfl
          exact Or.inr ⟨_, put_getElem?_self _ (replica?_eq_some.mp hr).1, by simp [founded]⟩
      | _ => exact absurd trivial hop
  · right
    rcases step_evolves hw grounded_lasting hg (op.obeys_sender _) with h | ⟨_, _, _, -, e⟩
    · obtain ⟨r', hr', hbec⟩ := h.becomes b r hr
      exact ⟨r', hr', Becomes.induction voters_last hbec hv⟩
    · exact ⟨r, by rw [e, List.getElem?_append_left (List.getElem?_eq_some_iff.mp hr).1]; exact hr,
        hv⟩

/-- With one founder, groups are formed at the first term and elections are won at later ones. -/
theorem crownings_term {b : Nat} : ∀ {ops : List (Op σ)} {n : Network σ}, n.Wired →
    n.Everywhere Grounded → n.Founded b →
    (∀ c ∈ n.crownings ops, c.founding = true → c.replica = b) →
    ∀ c ∈ n.crownings ops, if c.founding then c.term = 1 else 1 < c.term
  | op :: ops, n, hw, hg, hf, hb, c, hc => by
    have hhead : ∀ d, n.crowning? op = some d → d.founding = true → d.replica = b :=
      fun d hd => hb d (List.mem_append_left _ (Option.mem_toList.mpr hd))
    rcases List.mem_append.mp hc with hc | hc
    · have hc := Option.mem_toList.mp hc
      cases crowned_of_crowning? hw hc with
      | @founder i r hr hv hm e =>
        subst e
        obtain rfl : i = b := hhead _ hc rfl
        obtain ⟨hat, -⟩ := replica?_eq_some.mp hr
        rcases hf with hn | ⟨x, hx, hne⟩
        · simp [founded, (hn i r hat).term]
        · rw [hat] at hx
          cases hx
          exact absurd hv hne
      | @winner i r hr he hm e =>
        subst e
        have hpos := (hg i r (replica?_eq_some.mp hr).1).term (voters_ne_empty he.voter)
        simp only [nextTerm, Bool.false_eq_true, if_false]
        omega
    · exact crownings_term (wired_step hw op)
        (step_everywhere hw grounded_lasting hg (op.obeys_sender _)
          fun _ _ _ _ => ⟨fun h => (Bool.false_ne_true h).elim, fun h => (h rfl).elim⟩)
        (hf.step hw hg hhead) (fun d hd => hb d (List.mem_append_right _ hd)) c hc

/-! ## Voters that are replicas -/

/-- The id and the address under which an operation registers a replica. -/
def Op.enrolment? : Op σ → Option (String × String)
  | .register name address _ => some (name, address)
  | _ => none

/-- The ids and addresses that a run registers. -/
def enrolments (ops : List (Op σ)) : List (String × String) := ops.filterMap Op.enrolment?

/-- No id and no address is registered twice, and voters are added as they are registered. -/
structure Enrolled (ops : List (Op σ)) : Prop where
  ids : ((enrolments ops).map Prod.fst).Nodup
  addresses : ((enrolments ops).map Prod.snd).Nodup
  voters : ∀ i id address prev, Op.addVoter i id address prev ∈ ops → (id, address) ∈ enrolments ops

/-- Ids that make up a majority of voters. -/
structure Majority (voters : Voters) (ids : List String) : Prop where
  nodup : ids.Nodup
  voter : ∀ id ∈ ids, id ∈ voters
  size : majority voters ≤ ids.length

/-- The ids and addresses of all replicas, by number. -/
def roster (n : Network σ) : List (String × String) := n.replicas.map fun r => (r.id, r.address)

section
variable {n : Network σ} {j : Nat} {r : Replica σ}

omit [StateMachine σ] in
theorem mem_roster (hr : n.replicas[j]? = some r) : (r.id, r.address) ∈ n.roster :=
  List.mem_map.mpr ⟨r, List.mem_of_getElem? hr, rfl⟩

omit [StateMachine σ] in
theorem roster_getElem? (hr : n.replicas[j]? = some r) : n.roster[j]? = some (r.id, r.address) := by
  simp [roster, hr]

end

theorem Evolves.roster {R : Rules σ} {n m : Network σ} (h : n.Evolves R m) :
    m.roster = n.roster := by
  refine List.ext_getElem? fun j => ?_
  simp only [Network.roster, List.getElem?_map]
  cases hr : n.replicas[j]? with
  | none =>
    rw [List.getElem?_eq_none_iff] at hr
    rw [List.getElem?_eq_none_iff.mpr (h.length ▸ hr)]
  | some r =>
    obtain ⟨r', hr', hb⟩ := h.becomes j r hr
    rw [hr', Option.map_some, Option.map_some, hb.name.1, hb.name.2]

theorem roster_step {n : Network σ} (hw : n.Wired) (op : Op σ) :
    (n.step op).network.roster = n.roster ∨
      (n.step op).network.roster = n.roster ++ op.enrolment?.toList := by
  rcases step_evolves hw (fun _ _ => trivial) (fun _ _ _ => trivial) (op.obeys_sender _) with
    h | ⟨id, address, machine, rfl, e⟩
  · exact Or.inl h.roster
  · right
    rw [roster, e, List.map_append]
    rfl

/-- In a run the roster grows, by what is registered. -/
theorem roster_run {n : Network σ} (hw : n.Wired) (ops : List (Op σ)) :
    ∃ new, (n.run ops).roster = n.roster ++ new ∧ new.Sublist (enrolments ops) := by
  induction ops generalizing n with
  | nil => exact ⟨[], (List.append_nil _).symm, .slnil⟩
  | cons op ops ih =>
    obtain ⟨new, hnew, hsub⟩ := ih (wired_step hw op)
    have hcons : enrolments (op :: ops) = op.enrolment?.toList ++ enrolments ops := by
      unfold enrolments
      cases h : op.enrolment? <;> simp [h]
    show ∃ new, ((n.step op).network.run ops).roster = _ ∧ _
    rw [hcons, hnew]
    rcases roster_step hw op with h | h <;> rw [h]
    · exact ⟨new, rfl, hsub.trans (List.sublist_append_right ..)⟩
    · exact ⟨_, List.append_assoc .., hsub.append_left _⟩

/-- The id of the replica with a number. -/
def idOf (roster : List (String × String)) (j : Nat) : String := (roster[j]?.map Prod.fst).getD ""

omit [StateMachine σ] in
/-- On a roster that has grown, replicas are found under their ids. -/
theorem idOf_replica {n : Network σ} {names new : List (String × String)}
    (hnames : names = n.roster ++ new) {j : Nat} {r : Replica σ} (hr : n.replicas[j]? = some r) :
    j < names.length ∧ idOf names j = r.id := by
  have hold := roster_getElem? hr
  have hget : names[j]? = some (r.id, r.address) := by
    rw [hnames, List.getElem?_append_left (List.getElem?_eq_some_iff.mp hold).1]
    exact hold
  exact ⟨(List.getElem?_eq_some_iff.mp hget).1, by simp [idOf, hget]⟩

theorem idOf_inj {roster : List (String × String)} (h : (roster.map Prod.fst).Nodup) {j k : Nat}
    (hj : j < roster.length) (hk : k < roster.length) (e : idOf roster j = idOf roster k) : j = k := by
  refine (List.getElem?_inj (by simpa using hj) h).mp ?_
  simp only [idOf, List.getElem?_eq_getElem hj, List.getElem?_eq_getElem hk, Option.map_some,
    Option.getD_some] at e
  simp only [List.getElem?_map, List.getElem?_eq_getElem hj, List.getElem?_eq_getElem hk,
    Option.map_some, e]

/-- A replica under the id and the address of a roster that knows only voters of the roster. -/
structure OnRoster (roster : List (String × String)) (r : Replica σ) : Prop where
  self : (r.id, r.address) ∈ roster
  voters : ∀ id address : String, r.voters[id]? = some address → (id, address) ∈ roster

theorem onRoster_lasting (roster : List (String × String)) : Lasting (σ := σ)
    { sender := OnRoster roster, voter := fun id address => (id, address) ∈ roster } := by
  intro r r' hc h
  have hinsert : ∀ {id address : String}, (id, address) ∈ roster →
      ∀ x a : String, (r.voters.insert id address)[x]? = some a → (x, a) ∈ roster := by
    intro id address hmem x a hx
    rw [Std.ExtTreeMap.getElem?_insert] at hx
    split at hx
    · rename_i he
      rw [← Std.LawfulEqCmp.eq_of_compare he, ← Option.some.inj hx]
      exact hmem
    · exact h.voters x a hx
  refine ⟨by rw [hc.name.1, hc.name.2]; exact h.self, ?_⟩
  cases hc with
  | found hf hv => simpa [founded] using hinsert h.self
  | widen hv hl => exact hinsert hv
  | @acceptVoters leader hs hl =>
    rcases acceptVoters_eq r leader.term leader.address leader.voters leader.votersIndex with
      ⟨e, -⟩ | ⟨-, -, e⟩ <;> rw [e]
    · exact h.voters
    · exact hs.voters
  | _ => simpa [elected, ended, pushed, deposed] using h.voters

theorem Enrolled.onRoster {before after : List (Op σ)} (h : Enrolled (before ++ after)) :
    (run {} before).Everywhere (OnRoster (enrolments (before ++ after))) := by
  refine run_everywhere wired_empty (onRoster_lasting (enrolments (before ++ after)))
    everywhere_empty (fun op hop => ?_) fun id address machine hreg => ?_
  · cases op with
    | addVoter i id address prev => exact h.voters i id address prev (List.mem_append_left _ hop)
    | _ => trivial
  · refine ⟨?_, fun x a hx => by simp [fresh] at hx⟩
    exact List.mem_filterMap.mpr ⟨_, List.mem_append_left _ hreg, rfl⟩

omit [StateMachine σ] in
theorem Enrolled.id_unique {ops : List (Op σ)} (h : Enrolled ops) {id id' address : String}
    (hid : (id, address) ∈ enrolments ops) (hid' : (id', address) ∈ enrolments ops) : id = id' :=
  congrArg Prod.fst (List.inj_on_of_nodup_map h.addresses hid hid' rfl)

/-- Where voters are replicas, the ids of an electorate are a majority of the winner's voters. -/
theorem Enrolled.majority {before after : List (Op σ)} {op : Op σ}
    (h : Enrolled (before ++ op :: after)) {c : Crowning}
    (hc : (run {} before).crowning? op = some c) (hf : c.founding = false) :
    (∀ j ∈ c.electorate, j < (run {} (before ++ op :: after)).roster.length) ∧
      Majority c.voters (c.electorate.map (idOf (run {} (before ++ op :: after)).roster)) := by
  have hw : (run {} before).Wired := wired_run wired_empty before
  have hon := h.onRoster
  obtain ⟨new, hroster, -⟩ := roster_run hw (op :: after)
  obtain ⟨all, hall, hsub⟩ := roster_run (wired_empty (σ := σ)) (before ++ op :: after)
  have hrun : (run {} before).run (op :: after) = run {} (before ++ op :: after) :=
    (run_append ..).symm
  rw [hrun] at hroster
  have hids : ((run {} (before ++ op :: after)).roster.map Prod.fst).Nodup := by
    rw [hall]
    exact (hsub.map _).nodup h.ids
  generalize run {} before = n at hw hon hroster hc
  generalize (run {} (before ++ op :: after)).roster = names at hroster hids ⊢
  have hname : ∀ {j : Nat} {r : Replica σ}, n.replicas[j]? = some r →
      j < names.length ∧ idOf names j = r.id := fun hr => idOf_replica hroster hr
  cases crowned_of_crowning? hw hc with
  | founder hr hv hm e => subst e; cases hf
  | @winner i r hr he hm e =>
    subst e
    obtain ⟨hat, -⟩ := replica?_eq_some.mp hr
    have hlt : ∀ j ∈ i :: n.reachable r, j < names.length := by
      intro j hj
      rcases List.mem_cons.mp hj with rfl | hj
      · exact (hname hat).1
      · obtain ⟨x, id, hx, -⟩ := hw.peer hj
        exact (hname (replica?_eq_some.mp hx).1).1
    have hnodup : (i :: n.reachable r).Nodup :=
      List.nodup_cons.mpr ⟨hw.not_mem_reachable hat rfl, hw.nodup_reachable fun id id' a hid hid' =>
        h.id_unique ((hon i r hat).voters id a hid) ((hon i r hat).voters id' a hid')⟩
    refine ⟨hlt, hnodup.map_on fun j hj k hk e => idOf_inj hids (hlt j hj) (hlt k hk) e, ?_, ?_⟩
    · intro x hx
      obtain ⟨j, hj, rfl⟩ := List.mem_map.mp hx
      rcases List.mem_cons.mp hj with rfl | hj
      · rw [(hname hat).2]
        exact he.voter
      · obtain ⟨y, id, hy, -, hv, -⟩ := hw.peer hj
        have hyat := (replica?_eq_some.mp hy).1
        rw [(hname hyat).2, ← h.id_unique ((hon i r hat).voters id _ hv) (hon j y hyat).self]
        exact Std.ExtTreeMap.mem_iff_isSome_getElem?.mpr (by rw [hv]; rfl)
    · have := List.length_filter_le (n.grants r) (n.reachable r)
      have := he.votes
      simp only [List.length_map, List.length_cons]
      omega

/-- The votes that a winner got: one of its own, and one for each of these ids, which are voters at the
addresses of other replicas of its electorate. One replica may answer for several of them. -/
structure Backed (roster : List (String × String)) (c : Crowning) (ids : List String) : Prop where
  candidate : c.replica ∈ c.electorate ∧
    ∃ id address, roster[c.replica]? = some (id, address) ∧ id ∈ c.voters
  nodup : ids.Nodup
  votes : ∀ id ∈ ids, ∃ address : String, c.voters[id]? = some address ∧
    ∃ j ∈ c.electorate, j ≠ c.replica ∧ roster[j]?.map Prod.snd = some address
  size : majority c.voters ≤ ids.length + 1

/-- Whoever wins an election is backed by a majority of its voters, each counted once. -/
theorem backed_of_winner {before after : List (Op σ)} {op : Op σ} {c : Crowning}
    (hc : (run {} before).crowning? op = some c) (hf : c.founding = false) :
    ∃ ids, Backed (run {} (before ++ op :: after)).roster c ids := by
  have hw : (run {} before).Wired := wired_run wired_empty before
  obtain ⟨new, hroster, -⟩ := roster_run hw (op :: after)
  rw [show (run {} before).run (op :: after) = run {} (before ++ op :: after) from
    (run_append ..).symm] at hroster
  generalize run {} before = n at hw hroster hc
  generalize (run {} (before ++ op :: after)).roster = names at hroster ⊢
  have hname : ∀ {j : Nat} {x : Replica σ}, n.replicas[j]? = some x → names[j]? = some (x.id, x.address) := by
    intro j x hx
    have hold := roster_getElem? hx
    rw [hroster, List.getElem?_append_left (List.getElem?_eq_some_iff.mp hold).1]
    exact hold
  cases crowned_of_crowning? hw hc with
  | founder hr hv hm e => subst e; cases hf
  | @winner i r hr he hm e =>
    subst e
    obtain ⟨hat, -⟩ := replica?_eq_some.mp hr
    obtain ⟨ids, hnodup, hlen, hids⟩ := voters_counted n r (n.grants r)
    refine ⟨ids, ⟨List.mem_cons_self .., r.id, r.address, hname hat, he.voter⟩, hnodup,
      fun id hid => ?_, ?_⟩
    · obtain ⟨address, j, hv, hne, hpeer, -⟩ := hids id hid
      have hreach : j ∈ n.reachable r := mem_reachable.mpr ⟨id, address, hv, hne, hpeer⟩
      obtain ⟨-, -, -, x, hx⟩ := peer?_eq_some.mp hpeer
      refine ⟨address, hv, j, List.mem_cons_of_mem i hreach, ?_, ?_⟩
      · rintro rfl
        exact hw.not_mem_reachable hat rfl hreach
      · rw [hname (replica?_eq_some.mp hx).1, Option.map_some, (hw.of_peer? hpeer hx).1]
    · rw [hlen, List.countP_eq_length_filter]
      exact he.votes

theorem not_founding {ops : List (Op σ)} {b : Nat}
    (hb : ∀ c ∈ crownings {} ops, c.founding = true → c.replica = b) {c d : Crowning}
    (hc : c ∈ crownings {} ops) (hd : d ∈ crownings {} ops) (hterm : c.term = d.term)
    (hne : c.replica ≠ d.replica) : c.founding = false := by
  have hterms := crownings_term wired_empty everywhere_empty (Or.inl everywhere_empty) hb
  have hct := hterms c hc
  have hdt := hterms d hd
  cases hcf : c.founding with
  | false => rfl
  | true =>
    cases hdf : d.founding with
    | true => exact absurd ((hb c hc hcf).trans (hb d hd hdf).symm) hne
    | false =>
      simp only [hcf, hdf, if_true, Bool.false_eq_true, if_false] at hct hdt
      omega

/-- With one founder, two replicas lead at one term only if both were elected, each with the votes of a
majority of the voters that it knew, and by electorates without a common replica. Where voters are replicas,
the voters that they knew have majorities without a common voter. -/
theorem leaders_of_one_term_apart {ops : List (Op σ)} {b : Nat}
    (hb : ∀ c ∈ crownings {} ops, c.founding = true → c.replica = b) {c d : Crowning}
    (hc : c ∈ crownings {} ops) (hd : d ∈ crownings {} ops) (hterm : c.term = d.term)
    (hne : c.replica ≠ d.replica) :
    c.founding = false ∧ d.founding = false ∧
      (∃ ids, Backed (run {} ops).roster c ids) ∧ (∃ ids, Backed (run {} ops).roster d ids) ∧
      c.electorate.Disjoint d.electorate ∧
      (Enrolled ops → ∃ ids ids', Majority c.voters ids ∧ Majority d.voters ids' ∧
        ids.Disjoint ids') := by
  have hcf := not_founding hb hc hd hterm hne
  have hdf := not_founding hb hd hc hterm.symm hne.symm
  have hpair : c.electorate.Disjoint d.electorate :=
    (crownings_apart wired_empty).forall hc hd (fun e => hne (e ▸ rfl)) hterm
  obtain ⟨before, op, after, hops, hcrown⟩ := mem_crownings hc
  obtain ⟨before', op', after', hops', hcrown'⟩ := mem_crownings hd
  refine ⟨hcf, hdf, hops ▸ backed_of_winner hcrown hcf, hops' ▸ backed_of_winner hcrown' hdf, hpair,
    fun h => ?_⟩
  obtain ⟨hlt, hmaj⟩ := (hops ▸ h : Enrolled (before ++ op :: after)).majority hcrown hcf
  obtain ⟨hlt', hmaj'⟩ := (hops' ▸ h : Enrolled (before' ++ op' :: after')).majority hcrown' hdf
  rw [← hops] at hlt hmaj
  rw [← hops'] at hlt' hmaj'
  refine ⟨_, _, hmaj, hmaj', fun id hid hid' => ?_⟩
  obtain ⟨j, hj, rfl⟩ := List.mem_map.mp hid
  obtain ⟨k, hk, e⟩ := List.mem_map.mp hid'
  obtain ⟨all, hall, hsub⟩ := roster_run (wired_empty (σ := σ)) ops
  have hids : ((run {} ops).roster.map Prod.fst).Nodup := by
    rw [hall]
    exact (hsub.map _).nodup h.ids
  exact hpair hj (idOf_inj hids (hlt' k hk) (hlt j hj) e ▸ hk)

/-- Five replicas. The second misses all voters but itself, and then wins with the founder, while the third
wins with the other two. -/
def splitVote : List (Op Recorder) :=
  [.register "n1" "n1:9000" {}, .register "n2" "n2:9000" {}, .register "n3" "n3:9000" {},
    .register "n4" "n4:9000" {}, .register "n5" "n5:9000" {}, .bootstrap 0,
    .addVoter 0 "n2" "n2:9000" 0, .isolate "n2:9000", .addVoter 0 "n3" "n3:9000" 0,
    .addVoter 0 "n4" "n4:9000" 0, .addVoter 0 "n5" "n5:9000" 0, .heal "n2:9000",
    .isolate "n3:9000", .isolate "n4:9000", .isolate "n5:9000", .campaign 1,
    .heal "n3:9000", .heal "n4:9000", .heal "n5:9000", .isolate "n1:9000", .isolate "n2:9000",
    .campaign 2]

theorem crownings_splitVote : (crownings {} splitVote).map (fun c => (c.replica, c.term, c.founding)) =
    [(0, 1, true), (1, 2, false), (2, 2, false)] := by decide +kernel

theorem splitVote_founder {c : Crowning} (hc : c ∈ crownings {} splitVote)
    (hf : c.founding = true) : c.replica = 0 := by
  have hmem := List.mem_map_of_mem (f := fun c => (c.replica, c.term, c.founding)) hc
  rw [crownings_splitVote, hf] at hmem
  simp only [List.mem_cons, Prod.mk.injEq, List.not_mem_nil] at hmem
  simp_all

theorem splitVote_winner {i : Nat} (hi : i = 1 ∨ i = 2) :
    ∃ c ∈ crownings {} splitVote, c.replica = i ∧ c.term = 2 := by
  have hmem : (i, 2, false) ∈ (crownings {} splitVote).map fun c => (c.replica, c.term, c.founding) := by
    rw [crownings_splitVote]
    rcases hi with rfl | rfl <;> decide
  obtain ⟨c, hc, e⟩ := List.mem_map.mp hmem
  simp only [Prod.mk.injEq] at e
  exact ⟨c, hc, e.1, e.2.1⟩

theorem splitVote_enrolled : Enrolled splitVote where
  ids := by decide
  addresses := by decide
  voters i id address prev h := by
    simp only [splitVote, List.mem_cons, reduceCtorEq, Op.addVoter.injEq, List.not_mem_nil, or_false,
      false_or] at h
    rcases h with ⟨-, rfl, rfl, -⟩ | ⟨-, rfl, rfl, -⟩ | ⟨-, rfl, rfl, -⟩ | ⟨-, rfl, rfl, -⟩ <;> decide

/-- It is not so that one founder means one leader of a term. The two leaders of this run each go on to acknowledge
a write of their own at the first index. -/
theorem two_leaders_of_one_term : (¬∀ (ops : List (Op Recorder)) (b : Nat),
    ((enrolments ops).map Prod.snd).Nodup →
    (∀ c ∈ crownings {} ops, c.founding = true → c.replica = b) →
    ∀ c ∈ crownings {} ops, ∀ d ∈ crownings {} ops, c.term = d.term → c.replica = d.replica) ∧
    ((run {} splitVote).submit 2 [1]).answer = .ok 1 ∧
    ((run {} (splitVote ++ [.submit 2 [1], .heal "n1:9000", .heal "n2:9000"])).submit 1 [2]).answer = .ok 1 := by
  refine ⟨fun h => ?_, by decide +kernel, by decide +kernel⟩
  obtain ⟨c, hc, hci, hct⟩ := splitVote_winner (Or.inl rfl)
  obtain ⟨d, hd, hdi, hdt⟩ := splitVote_winner (Or.inr rfl)
  have := h splitVote 0 (by decide) (fun c => splitVote_founder) c hc d hd (hct.trans hdt.symm)
  omega

theorem leaders_of_one_term_apart_splitVote : ∃ c ∈ crownings {} splitVote,
    ∃ d ∈ crownings {} splitVote, c.term = 2 ∧ d.term = 2 ∧ c.replica = 1 ∧ d.replica = 2 ∧
      (∃ ids, Backed (run {} splitVote).roster c ids) ∧ (∃ ids, Backed (run {} splitVote).roster d ids) ∧
      c.electorate.Disjoint d.electorate ∧
      ∃ ids ids', Majority c.voters ids ∧ Majority d.voters ids' ∧ ids.Disjoint ids' := by
  obtain ⟨c, hc, hci, hct⟩ := splitVote_winner (Or.inl rfl)
  obtain ⟨d, hd, hdi, hdt⟩ := splitVote_winner (Or.inr rfl)
  obtain ⟨-, -, hbacked, hbacked', hapart, hmaj⟩ := leaders_of_one_term_apart (b := 0)
    (fun c => splitVote_founder) hc hd (hct.trans hdt.symm) (by omega)
  exact ⟨c, hc, d, hd, hct, hdt, hci, hdi, hbacked, hbacked', hapart, hmaj splitVote_enrolled⟩

end ReplicatedTable.Raft.Network
