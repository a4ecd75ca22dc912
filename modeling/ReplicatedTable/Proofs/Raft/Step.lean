import ReplicatedTable.Proofs.Raft.Delivery
import ReplicatedTable.Raft.Operation

/-!
# What one operation does

Every operation on a network either leaves it alone or takes one of a few courses. `Founding`, `Election`,
`Admission` and `Write` list the courses of `bootstrap`, `campaign`, `addVoter` and `submit` with what they
require, the network that they leave and their answer; the remaining operations change one replica or the
list of addresses that are cut off. That a network stays wired (`wired_run`) is read off them.
-/
namespace ReplicatedTable.Raft

variable {σ : Type}

namespace Replica

/-- A replica that has just been registered. -/
def fresh (id address : String) (machine : σ) : Replica σ :=
  { id := id, address := address, machine := machine }

/-- The first leader of a group. -/
def founded (r : Replica σ) : Replica σ :=
  { r with
    voters := r.voters.insert r.id r.address, term := r.term + 1
    leaderAddress := some r.address }.setLeader true

/-- The winner of an election. -/
def elected (r : Replica σ) (term : Nat) : Replica σ :=
  { r with term := term, leaderAddress := some r.address }.setLeader true

/-- A leader that has written down a voter. -/
def widened (r : Replica σ) (id address : String) : Replica σ :=
  { r with voters := r.voters.insert id address, votersIndex := r.log.length }

/-- A leader that has appended an entry. -/
def pushed (r : Replica σ) (data : List UInt8) : Replica σ :=
  { r with log := r.log ++ [⟨r.term, data⟩] }

/-- A leader that has heard of a later term. -/
def deposed (r : Replica σ) (term : Nat) : Replica σ := { r with term := term }.setLeader false

/-- A replica that was shut down. -/
def ended (r : Replica σ) : Replica σ := { r with stopped := true }.setLeader false

section
variable (r : Replica σ) (term : Nat)

@[simp] theorem elected_id : (r.elected term).id = r.id := setLeader_id ..

@[simp] theorem elected_address : (r.elected term).address = r.address := setLeader_address ..

@[simp] theorem elected_leader : (r.elected term).leader = true := setLeader_leader ..

@[simp] theorem elected_term : (r.elected term).term = term := setLeader_term ..

@[simp] theorem elected_leaderAddress : (r.elected term).leaderAddress = some r.address :=
  setLeader_leaderAddress ..

@[simp] theorem elected_voters : (r.elected term).voters = r.voters := setLeader_voters ..

@[simp] theorem elected_log : (r.elected term).log = r.log := setLeader_log ..

@[simp] theorem elected_applied : (r.elected term).applied = r.applied := setLeader_applied ..

end

end Replica

namespace Network
open Replica

/-! ## Terms of peers -/

theorem term_le_highestTerm {n : Network σ} {js : List Nat} {j : Nat} {r : Replica σ}
    (hj : j ∈ js) (hr : n.replica? j = some r) : r.term ≤ n.highestTerm js := by
  have hmono : ∀ (ks : List Nat) (t : Nat),
      t ≤ ks.foldl (fun t k => max t (((n.replica? k).map Replica.term).getD 0)) t := by
    intro ks
    induction ks with
    | nil => exact fun t => Nat.le_refl t
    | cons k ks ih => exact fun t => Nat.le_trans (Nat.le_max_left ..) (ih _)
  have hmem : ∀ (ks : List Nat) (t : Nat), j ∈ ks →
      r.term ≤ ks.foldl (fun t k => max t (((n.replica? k).map Replica.term).getD 0)) t := by
    intro ks
    induction ks with
    | nil => exact fun t h => absurd h List.not_mem_nil
    | cons k ks ih =>
      intro t h
      rcases List.mem_cons.mp h with rfl | h
      · refine Nat.le_trans ?_ (hmono ks _)
        simp only [hr, Option.map_some, Option.getD_some]
        exact Nat.le_max_right ..
      · exact ih _ h
  exact hmem js 0 hj

theorem newerTerm?_eq_some {n : Network σ} {term newer : Nat} {js : List Nat}
    (h : n.newerTerm? term js = some newer) :
    term < newer ∧ ∃ j ∈ js, ∃ r, n.replica? j = some r ∧ r.term = newer := by
  have hlt : term < newer := by simpa using List.find?_some h
  obtain ⟨j, hj, e⟩ := List.mem_map.mp (List.mem_of_find?_eq_some h)
  refine ⟨hlt, j, hj, ?_⟩
  cases hr : n.replica? j with
  | none =>
    -- a peer that is gone counts as one at term zero
    simp only [hr, Option.map_none, Option.getD_none] at e
    omega
  | some r => exact ⟨r, rfl, by simpa [hr] using e⟩

theorem le_of_newerTerm?_eq_none {n : Network σ} {term : Nat} {js : List Nat}
    (h : n.newerTerm? term js = none) {j : Nat} (hj : j ∈ js) {r : Replica σ}
    (hr : n.replica? j = some r) : r.term ≤ term := by
  unfold newerTerm? at h
  rw [List.find?_eq_none] at h
  have := h r.term (List.mem_map.mpr ⟨j, hj, by simp [hr]⟩)
  simpa using this

/-- Changing a replica does not change whom another one reaches. -/
theorem reachable_put {n : Network σ} {i : Nat} {x y : Replica σ} (hy : n.replica? i = some y)
    (hd : x.dropped = false) (r : Replica σ) : (n.put i x).reachable r = n.reachable r := by
  have hres : ∀ a, (n.put i x).resolve? a = n.resolve? a := by
    intro a
    unfold resolve?
    rw [registry_put]
    cases n.registry[a]? with
    | none => rfl
    | some j =>
      by_cases hij : i = j
      · subst hij
        simp only [Option.filter_some, replica?_put_self x hy hd, hy, Option.isSome_some]
      · simp only [Option.filter_some, replica?_put_ne x hij]
  unfold reachable peer?
  simp only [isolated_put, hres]

/-! ## Courses of operations -/

/-- The courses of `bootstrap`. -/
inductive Founding (n : Network σ) (i : Nat) : Network σ → Except Error Unit → Prop where
  | refused (e : Error) : Founding n i n (.error e)
  | done {r : Replica σ} (hr : n.replica? i = some r) (hv : r.voters = ∅) :
    Founding n i (n.put i r.founded) (.ok ())

theorem bootstrap_founding (n : Network σ) (i : Nat) :
    Founding n i (n.bootstrap i).network (n.bootstrap i).answer := by
  unfold bootstrap withReplica
  cases hr : n.replica? i with
  | none => exact .refused _
  | some r =>
    dsimp only
    split
    · rename_i hv
      exact .done hr (Std.ExtTreeMap.isEmpty_iff.mp hv)
    · exact .refused _

/-- The term at which a candidate would lead. -/
def nextTerm (n : Network σ) (r : Replica σ) : Nat :=
  max r.term (n.highestTerm (n.reachable r)) + 1

/-- What a candidate needs. -/
structure Electable (n : Network σ) (r : Replica σ) : Prop where
  running : r.stopped = false
  voter : r.id ∈ r.voters
  votes : majority r.voters ≤ ((n.reachable r).filter (n.grants r)).length + 1

theorem getElem?_concat_cases {rs : List (Replica σ)} {x r : Replica σ} {j : Nat}
    (h : (rs ++ [x])[j]? = some r) : rs[j]? = some r ∨ j = rs.length ∧ r = x := by
  rw [List.getElem?_append] at h
  split at h
  · exact Or.inl h
  · rw [List.getElem?_singleton] at h
    split at h
    · exact Or.inr ⟨by omega, (Option.some.inj h).symm⟩
    · cases h

theorem register_cases (n : Network σ) (id address : String) (machine : σ) :
    (n.register id address machine).1 = n ∨ n.resolve? address = none ∧
      (n.register id address machine).1 =
        { n with
          replicas := n.replicas ++ [fresh id address machine]
          registry := n.registry.insert address n.replicas.length } := by
  unfold register
  split
  · exact Or.inl rfl
  · rename_i h
    exact Or.inr ⟨by simpa using h, rfl⟩

theorem drop_cases (n : Network σ) (i : Nat) :
    n.drop i = n ∨ ∃ r, n.replica? i = some r ∧ n.drop i = n.put i { r with dropped := true } := by
  unfold drop
  cases hr : n.replica? i with
  | none => exact Or.inl rfl
  | some r => exact Or.inr ⟨r, rfl, rfl⟩

theorem stepDown_cases (n : Network σ) (i : Nat) : (n.stepDown i).network = n ∨
    ∃ r, n.replica? i = some r ∧ (n.stepDown i).network = n.put i (r.setLeader false) := by
  unfold stepDown withReplica
  cases hr : n.replica? i with
  | none => exact Or.inl rfl
  | some r => exact Or.inr ⟨r, rfl, rfl⟩

theorem shutdown_cases (n : Network σ) (i : Nat) : (n.shutdown i).network = n ∨
    ∃ r, n.replica? i = some r ∧ r.stopped = false ∧ (n.shutdown i).network =
      { n.put i r.ended with registry := n.registry.erase r.address } := by
  unfold shutdown withReplica
  cases hr : n.replica? i with
  | none => exact Or.inl rfl
  | some r =>
    dsimp only
    split
    · exact Or.inl rfl
    · rename_i hs
      exact Or.inr ⟨r, rfl, by simpa using hs, rfl⟩

variable [StateMachine σ]

/-- The courses of `campaign`. -/
inductive Election (n : Network σ) (i : Nat) : Network σ → Except Error Nat → Prop where
  | refused (e : Error) (h : ∀ r, n.replica? i = some r → ¬n.Electable r) : Election n i n (.error e)
  | won {r : Replica σ} (hr : n.replica? i = some r) (h : n.Electable r) :
    Election n i
      ((n.put i (r.elected (n.nextTerm r))).mapAt
        (fun f => (f.receive (r.elected (n.nextTerm r)) (n.nextTerm r)).1) (n.reachable r))
      (.ok (n.nextTerm r))

theorem campaign_election {n : Network σ} (hw : n.Wired) (i : Nat) :
    Election n i (n.campaign i).network (n.campaign i).answer := by
  unfold campaign withReplica
  cases hr : n.replica? i with
  | none => exact .refused _ fun r h => by rw [hr] at h; cases h
  | some r =>
    have hrefused : ∀ e, ¬n.Electable r → Election n i n (.error e) := fun e hno =>
      .refused e fun x hx => by
        rw [hr] at hx
        cases hx
        exact hno
    have hlen := List.length_filter_le (n.grants r) (n.reachable r)
    dsimp only
    by_cases hs : r.stopped = true
    · rw [if_pos hs]
      exact hrefused _ fun h => by rw [h.running] at hs; cases hs
    rw [if_neg hs]
    by_cases hid : r.id ∉ r.voters
    · rw [if_pos hid]
      exact hrefused _ fun h => hid h.voter
    rw [if_neg hid]
    split
    · exact hrefused _ fun h => by have := h.votes; omega
    · split
      · exact hrefused _ fun h => by have := h.votes; omega
      · rename_i hvotes
        have hat := (replica?_eq_some.mp hr).1
        have hself : (n.put i (r.elected (n.nextTerm r))).replica? i =
            some (r.elected (n.nextTerm r)) :=
          replica?_put_self _ hr (by simpa [elected] using (replica?_eq_some.mp hr).2)
        have hnot : i ∉ n.reachable r := hw.not_mem_reachable hat rfl
        have hdel := deliver_network .newLeader (n.nextTerm r) hself hnot
        have hwon : Election n i _ (.ok (n.nextTerm r)) := .won hr
          ⟨by simpa using hs, by simpa using hid, by omega⟩
        rw [← hdel] at hwon
        exact hwon

/-- The courses of `addVoter`. -/
inductive Admission (n : Network σ) (i : Nat) (id address : String) (prev : Nat) :
    Network σ → Except Error Unit → Prop where
  | refused (e : Error) : Admission n i id address prev n (.error e)
  | present {r : Replica σ} (hr : n.replica? i = some r) (hl : r.leader = true)
    (hv : r.voters[id]? = some address) : Admission n i id address prev n (.ok ())
  | done {r : Replica σ} (hr : n.replica? i = some r) (hs : r.stopped = false)
    (hl : r.leader = true) (hp : prev = 0 ∨ prev = r.votersIndex)
    (hv : r.voters[id]? ≠ some address) :
    Admission n i id address prev
      ((n.put i (r.widened id address)).mapAt (adopt (r.widened id address))
        (n.reachable (r.widened id address))) (.ok ())

theorem addVoter_admission {n : Network σ} (hw : n.Wired) (i : Nat) (id address : String)
    (prev : Nat) : Admission n i id address prev (n.addVoter i id address prev).network
      (n.addVoter i id address prev).answer := by
  unfold addVoter withReplica
  cases hr : n.replica? i with
  | none => exact .refused _
  | some r =>
    dsimp only
    by_cases hs : r.stopped = true
    · rw [if_pos hs]; exact .refused _
    rw [if_neg hs]
    by_cases hl : r.leader = true
    · rw [if_neg (by simp [hl])]
      split
      · exact .refused _
      · rename_i hp
        split
        · rename_i hv
          exact .present hr hl hv
        · rename_i hv
          have hd := (replica?_eq_some.mp hr).2
          have hat := (replica?_eq_some.mp hr).1
          have hself : (n.put i (r.widened id address)).replica? i =
              some (r.widened id address) := replica?_put_self _ hr hd
          have hreach := reachable_put (x := r.widened id address) hr hd (r.widened id address)
          have hnot : i ∉ n.reachable (r.widened id address) := hw.not_mem_reachable hat rfl
          have hdel := deliverVoters_network hself hnot
          have hdone : Admission n i id address prev _ (.ok ()) :=
            .done hr (by simpa using hs) hl (by omega) hv
          rw [← hdel, ← hreach] at hdone
          exact hdone
    · rw [if_pos (by simpa using hl)]; exact .refused _

/-- What a leader needs to append an entry. -/
structure Writable (n : Network σ) (r : Replica σ) : Prop where
  running : r.stopped = false
  sound : r.halted = none
  leads : r.leader = true
  quorum : majority r.voters ≤ (n.reachable r).length + 1
  newest : ∀ j ∈ n.reachable r, ∀ f, n.replica? j = some f → f.term ≤ r.term

/-- The network once a leader has appended an entry and turned to its peers with it. -/
def spread (n : Network σ) (i : Nat) (r : Replica σ) (data : List UInt8) : Network σ :=
  (n.put i (r.pushed data)).mapAt (fun f => (f.receive (r.pushed data) r.term).1) (n.reachable r)

/-- The peers that take an entry. -/
def takers (n : Network σ) (i : Nat) (r : Replica σ) (data : List UInt8) : List Nat :=
  (n.reachable r).filter ((n.put i (r.pushed data)).acknowledges (r.pushed data) r.term)

/-- How many peers acknowledge an entry, one that answers for two voters twice. -/
def acknowledged (n : Network σ) (i : Nat) (r : Replica σ) (data : List UInt8) : Except Nat Nat :=
  ((n.put i (r.pushed data)).replicate i r.term (n.reachable r)).2.2

/-- The courses of `submit`. The takers are counted if no peer occurs twice. -/
inductive Write (n : Network σ) (i : Nat) (data : List UInt8) :
    Network σ → Except Error Nat → Prop where
  | refused (e : Error) (h : ∀ r, n.replica? i = some r → ¬n.Writable r) : Write n i data n (.error e)
  | conceded {r : Replica σ} {newer : Nat} (hr : n.replica? i = some r) (hl : r.leader = true)
    (hn : r.term < newer)
    (hp : ∃ j ∈ n.reachable r, ∃ f, n.replica? j = some f ∧ f.term = newer) :
    Write n i data (n.put i (r.deposed newer)) (.error (r.deposed newer).notLeader)
  | unacknowledged {r : Replica σ} (hr : n.replica? i = some r) (h : n.Writable r)
    (ha : (n.reachable r).Nodup → (n.takers i r data).length + 1 < majority r.voters)
    (hacks : ∃ acks, n.acknowledged i r data = .ok acks ∧ acks + 1 < majority r.voters) :
    Write n i data (n.spread i r data)
      (.error (.consensus (.notAcknowledged (r.pushed data).log.length)))
  | failed {r r' : Replica σ} {e : Error} (hr : n.replica? i = some r) (h : n.Writable r)
    (ha : (n.reachable r).Nodup → majority r.voters ≤ (n.takers i r data).length + 1)
    (hf : (r.pushed data).applyUpTo (r.pushed data).log.length = (r', .error e))
    (hacks : ∃ acks, n.acknowledged i r data = .ok acks ∧ majority r.voters ≤ acks + 1) :
    Write n i data ((n.spread i r data).put i r') (.error e)
  | committed {r r' : Replica σ} (hr : n.replica? i = some r) (h : n.Writable r)
    (ha : (n.reachable r).Nodup → majority r.voters ≤ (n.takers i r data).length + 1)
    (hc : (r.pushed data).applyUpTo (r.pushed data).log.length = (r', .ok ()))
    (hacks : ∃ acks, n.acknowledged i r data = .ok acks ∧ majority r.voters ≤ acks + 1) :
    Write n i data
      (((n.spread i r data).put i r').mapAt (fun f => (f.receive r' r.term).1) (n.reachable r))
      (.ok (r.pushed data).log.length)

theorem spread_self {n : Network σ} (hw : n.Wired) {i : Nat} {r : Replica σ}
    (hr : n.replica? i = some r) (data : List UInt8) :
    (n.spread i r data).replicas[i]? = some (r.pushed data) := by
  rw [Network.spread, mapAt_getElem?_of_not_mem (hw.not_mem_reachable (replica?_eq_some.mp hr).1 rfl)]
  exact put_getElem?_self _ (replica?_eq_some.mp hr).1

theorem replica?_spread {n : Network σ} (hw : n.Wired) {i : Nat} {r : Replica σ}
    (hr : n.replica? i = some r) (data : List UInt8) :
    (n.spread i r data).replica? i = some (r.pushed data) :=
  replica?_eq_some.mpr ⟨spread_self hw hr data, (replica?_eq_some.mp hr).2⟩

theorem replica?_applied {n : Network σ} (hw : n.Wired) {i : Nat} {r r' : Replica σ}
    (hr : n.replica? i = some r) {data : List UInt8} {ans : Except Error Unit}
    (h : (r.pushed data).applyUpTo (r.pushed data).log.length = (r', ans)) :
    ((n.spread i r data).put i r').replica? i = some r' := by
  have hr' : r' = ((r.pushed data).applyUpTo (r.pushed data).log.length).1 := by rw [h]
  refine replica?_put_self r' (replica?_spread hw hr data) ?_
  rw [hr', applyUpTo_dropped]
  exact (replica?_eq_some.mp hr).2

theorem submit_write {n : Network σ} (hw : n.Wired) (i : Nat) (data : List UInt8) :
    Write n i data (n.submit i data).network (n.submit i data).answer := by
  unfold submit withReplica
  cases hr : n.replica? i with
  | none => exact .refused _ fun r h => by rw [hr] at h; cases h
  | some r =>
    have hrefused : ∀ e, ¬n.Writable r → Write n i data n (.error e) := fun e hno =>
      .refused e fun x hx => by
        rw [hr] at hx
        cases hx
        exact hno
    dsimp only
    split
    · rename_i hs
      exact hrefused _ fun h => by rw [h.running] at hs; cases hs
    · rename_i hh
      exact hrefused _ fun h => by rw [h.sound] at hh; cases hh
    · rename_i hl
      exact hrefused _ fun h => by rw [h.leads] at hl; cases hl
    · rename_i hs hh hl
      split
      · exact hrefused _ fun h => by have := h.quorum; omega
      · rename_i hq
        have hat := (replica?_eq_some.mp hr).1
        have hd := (replica?_eq_some.mp hr).2
        split
        · rename_i newer hn
          unfold concede
          rw [hr]
          exact .conceded hr hl (newerTerm?_eq_some hn).1 (newerTerm?_eq_some hn).2
        · rename_i hn
          have hwr : n.Writable r := ⟨hs, hh, hl, by omega,
            fun j hj f hf => le_of_newerTerm?_eq_none hn hj hf⟩
          have hself : (n.put i (r.pushed data)).replica? i = some (r.pushed data) :=
            replica?_put_self _ hr hd
          have hnot : i ∉ n.reachable r := hw.not_mem_reachable hat rfl
          have hterms : ∀ j ∈ n.reachable r, ∀ f,
              (n.put i (r.pushed data)).replica? j = some f → f.term ≤ r.term := by
            intro j hj f hf
            have hij : i ≠ j := fun h => hnot (h ▸ hj)
            rw [replica?_put_ne _ hij] at hf
            exact hwr.newest j hj f hf
          obtain ⟨refusals, acks, e, hacks⟩ := replicate_eq hself hnot hterms
          have hacks' : (n.reachable r).Nodup → acks = (n.takers i r data).length := hacks
          have hcount : n.acknowledged i r data = .ok acks := by rw [acknowledged, e]
          rw [show (n.put i { r with log := r.log ++ [⟨r.term, data⟩] }).replicate i r.term
            (n.reachable r) = (n.spread i r data, refusals, .ok acks) from e]
          dsimp only
          split
          · rename_i ha
            exact .unacknowledged hr hwr (fun hnd => by rw [← hacks' hnd]; exact ha)
              ⟨acks, hcount, ha⟩
          · rename_i ha
            have hmaj : (n.reachable r).Nodup →
                majority r.voters ≤ (n.takers i r data).length + 1 :=
              fun hnd => by rw [← hacks' hnd]; omega
            have hlead : (n.spread i r data).replica? i = some (r.pushed data) := by
              rw [spread, replica?_mapAt_of_not_mem hnot, hself]
            unfold commit
            rw [hlead]
            cases hap : (r.pushed data).applyUpTo (r.pushed data).log.length with
            | mk r' answer =>
              have hd' : r'.dropped = false := by
                have := applyUpTo_dropped (r.pushed data) (r.pushed data).log.length
                rw [hap] at this
                exact this.trans hd
              cases answer with
              | error e =>
                have hfailed := Write.failed hr hwr hmaj hap ⟨acks, hcount, by omega⟩
                simp only [pushed] at hap hfailed ⊢
                simpa only [hap] using hfailed
              | ok u =>
                have hcommitted := Write.committed hr hwr hmaj hap ⟨acks, hcount, by omega⟩
                have hself' := replica?_put_self r' hlead hd'
                rw [← deliver_network .commit r.term hself' hnot] at hcommitted
                simp only [pushed] at hap hcommitted ⊢
                simpa only [hap] using hcommitted

/-! ## The registry in every run -/

omit [StateMachine σ] in
theorem Wired.register {n : Network σ} (hw : n.Wired) (id address : String) (machine : σ) :
    (n.register id address machine).1.Wired := by
  rcases register_cases n id address machine with e | ⟨hfree, e⟩ <;> rw [e]
  · exact hw
  refine ⟨fun a j h => ?_, fun j r h hs hd => ?_⟩
  · dsimp only at h ⊢
    rw [Std.ExtTreeMap.getElem?_insert] at h
    split at h
    · rename_i ha
      cases h
      exact ⟨_, List.getElem?_concat_length, Std.LawfulEqCmp.eq_of_compare ha, rfl⟩
    · obtain ⟨r, hr, ha, hs⟩ := hw.leads a j h
      exact ⟨r, (List.getElem?_append_left (List.getElem?_eq_some_iff.mp hr).1).trans hr, ha, hs⟩
  · dsimp only at h ⊢
    rw [Std.ExtTreeMap.getElem?_insert]
    rcases getElem?_concat_cases h with h | ⟨rfl, rfl⟩
    · have hreg := hw.listed j r h hs hd
      rw [if_neg, hreg]
      intro ha
      rw [Std.LawfulEqCmp.eq_of_compare ha, resolve?, hreg] at hfree
      simp [replica?_eq_some.mpr ⟨h, hd⟩] at hfree
    · exact if_pos Std.ReflCmp.compare_self

omit [StateMachine σ] in
theorem Wired.shutdown {n : Network σ} (hw : n.Wired) (i : Nat) : (n.shutdown i).network.Wired := by
  rcases shutdown_cases n i with e | ⟨r, hr, hrun, e⟩ <;> rw [e]
  · exact hw
  obtain ⟨hat, hd⟩ := replica?_eq_some.mp hr
  have hreg := hw.listed i r hat hrun hd
  refine ⟨fun a j h => ?_, fun j x h hs hdx => ?_⟩
  · rw [Std.ExtTreeMap.getElem?_erase] at h
    split at h
    · cases h
    · rename_i ha
      obtain ⟨x, hx, rfl, hs⟩ := hw.leads a j h
      have hij : i ≠ j := by
        rintro rfl
        rw [hat] at hx
        cases hx
        exact ha Std.ReflCmp.compare_self
      exact ⟨x, (put_getElem?_ne n i _ hij).trans hx, rfl, hs⟩
  · rcases put_getElem?_cases _ h with ⟨-, rfl⟩ | ⟨hji, hx⟩
    · simp [ended] at hs
    · have hxreg := hw.listed j x hx hs hdx
      rw [Std.ExtTreeMap.getElem?_erase, if_neg]
      · exact hxreg
      · intro ha
        rw [← Std.LawfulEqCmp.eq_of_compare ha, hreg] at hxreg
        exact hji (Option.some.inj hxreg).symm

theorem Wired.receive {n : Network σ} (hw : n.Wired) (leader : Replica σ) (term : Nat)
    (js : List Nat) : (n.mapAt (fun f => (f.receive leader term).1) js).Wired :=
  hw.mapAt (fun f => receive_address f leader term) (fun f => receive_stopped f leader term)
    (fun f => receive_dropped f leader term)

theorem Wired.adopt {n : Network σ} (hw : n.Wired) (leader : Replica σ) (js : List Nat) :
    (n.mapAt (Network.adopt leader) js).Wired :=
  hw.mapAt (fun f => adopt_address f leader) (fun f => adopt_stopped f leader)
    (fun f => adopt_dropped f leader)

omit [StateMachine σ] in
theorem Wired.drop {n : Network σ} (hw : n.Wired) (i : Nat) : (n.drop i).Wired := by
  rcases drop_cases n i with e | ⟨r, hr, e⟩ <;> rw [e]
  · exact hw
  · exact hw.put (replica?_eq_some.mp hr).1 rfl rfl (by simp)

omit [StateMachine σ] in
theorem Wired.bootstrap {n : Network σ} (hw : n.Wired) (i : Nat) :
    (n.bootstrap i).network.Wired := by
  have hc := bootstrap_founding n i
  generalize (n.bootstrap i).network = m, (n.bootstrap i).answer = ans at hc ⊢
  cases hc with
  | refused e => exact hw
  | done hr hv =>
    exact hw.put (replica?_eq_some.mp hr).1 (by simp [founded]) (by simp [founded])
      (by simp [founded])

theorem Wired.campaign {n : Network σ} (hw : n.Wired) (i : Nat) :
    (n.campaign i).network.Wired := by
  have hc := campaign_election hw i
  generalize (n.campaign i).network = m, (n.campaign i).answer = ans at hc ⊢
  cases hc with
  | refused e => exact hw
  | won hr h =>
    exact (hw.put (replica?_eq_some.mp hr).1 (by simp [elected]) (by simp [elected])
      (by simp [elected])).receive ..

omit [StateMachine σ] in
theorem Wired.stepDown {n : Network σ} (hw : n.Wired) (i : Nat) : (n.stepDown i).network.Wired := by
  rcases stepDown_cases n i with e | ⟨r, hr, e⟩ <;> rw [e]
  · exact hw
  · exact hw.put (replica?_eq_some.mp hr).1 (by simp) (by simp) (by simp)

theorem Wired.addVoter {n : Network σ} (hw : n.Wired) (i : Nat) (id address : String) (prev : Nat) :
    (n.addVoter i id address prev).network.Wired := by
  have hc := addVoter_admission hw i id address prev
  generalize (n.addVoter i id address prev).network = m,
    (n.addVoter i id address prev).answer = ans at hc ⊢
  cases hc with
  | refused e => exact hw
  | present hr hl hv => exact hw
  | @done r hr hs hl hp hv =>
    have hput : (n.put i (r.widened id address)).Wired :=
      hw.put (replica?_eq_some.mp hr).1 rfl rfl (fun h => h)
    exact hput.adopt ..

section
variable {n : Network σ} {i : Nat} {r : Replica σ}

theorem Wired.spread (hw : n.Wired) (hr : n.replica? i = some r) (data : List UInt8) :
    (n.spread i r data).Wired := by
  have hput : (n.put i (r.pushed data)).Wired :=
    hw.put (replica?_eq_some.mp hr).1 rfl rfl (fun h => h)
  exact hput.receive ..

/-- The leader has applied its entry. -/
theorem Wired.applied (hw : n.Wired) (hr : n.replica? i = some r) {data : List UInt8}
    {r' : Replica σ} {ans : Except Error Unit}
    (h : (r.pushed data).applyUpTo (r.pushed data).log.length = (r', ans)) :
    ((n.spread i r data).put i r').Wired := by
  have hr' : r' = ((r.pushed data).applyUpTo (r.pushed data).log.length).1 := by rw [h]
  exact (hw.spread hr data).put (spread_self hw hr data) (by simp [hr']) (by simp [hr'])
    (by simp [hr'])

theorem Wired.submit (hw : n.Wired) (i : Nat) (data : List UInt8) :
    (n.submit i data).network.Wired := by
  have hc := submit_write hw i data
  generalize (n.submit i data).network = m, (n.submit i data).answer = ans at hc ⊢
  cases hc with
  | refused e => exact hw
  | conceded hr hl hn hp =>
    exact hw.put (replica?_eq_some.mp hr).1 (by simp [deposed]) (by simp [deposed])
      (by simp [deposed])
  | unacknowledged hr h ha => exact hw.spread hr data
  | failed hr h ha hf => exact hw.applied hr hf
  | committed hr h ha hc => exact (hw.applied hr hc).receive ..

end

theorem wired_step {n : Network σ} (hw : n.Wired) (op : Op σ) : (n.step op).network.Wired := by
  cases op with
  | register id address machine => exact hw.register id address machine
  | drop i => exact hw.drop i
  | isolate address => exact ⟨hw.leads, hw.listed⟩
  | heal address => exact ⟨hw.leads, hw.listed⟩
  | bootstrap i => exact hw.bootstrap i
  | campaign i => exact hw.campaign i
  | stepDown i => exact hw.stepDown i
  | shutdown i => exact hw.shutdown i
  | addVoter i id address prev => exact hw.addVoter i id address prev
  | submit i data => exact hw.submit i data

/-- The registry keeps its promise in every run. -/
theorem wired_run {n : Network σ} (hw : n.Wired) (ops : List (Op σ)) : (n.run ops).Wired := by
  induction ops generalizing n with
  | nil => exact hw
  | cons op ops ih => exact ih (wired_step hw op)

end Network

end ReplicatedTable.Raft
