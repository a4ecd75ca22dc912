import ReplicatedTable.Proofs.Raft.Consensus
import ReplicatedTable.Proofs.Raft.Journal

/-!
# How a group is formed

Replicas are registered under ids and addresses of their own, one of them forms a group, and it adds the
others as voters; entries may be written in between. As long as nobody is cut off, goes away or halts, all
members are at the first term with the same voters and the same log, and whoever is not a member yet has
heard of nothing (`Forming`). `forming_step` shows that every operation of the set-up keeps this.

Once everybody is a member, the group is closed and fits a chronicle with a single leader (`Forming.sound`).
-/
namespace ReplicatedTable.Raft.Network

open Replica Log

variable {σ : Type}

/-- What may happen while a group is formed. -/
def Forms (founder : Nat) (n : Network σ) : Op σ → Prop
  | .register name address _ => name ∉ n.roster.map Prod.fst ∧ address ∉ n.roster.map Prod.snd
  | .bootstrap i => i = founder
  | .addVoter _ name address _ => (name, address) ∈ n.roster
  | .submit .. => True
  | _ => False

instance (founder : Nat) (n : Network σ) : (op : Op σ) → Decidable (n.Forms founder op)
  | .register name address _ =>
    inferInstanceAs (Decidable (name ∉ n.roster.map Prod.fst ∧ address ∉ n.roster.map Prod.snd))
  | .bootstrap i => inferInstanceAs (Decidable (i = founder))
  | .addVoter _ name address _ => inferInstanceAs (Decidable ((name, address) ∈ n.roster))
  | .submit .. => .isTrue trivial
  | .drop _ | .isolate _ | .heal _ | .campaign _ | .stepDown _ | .shutdown _ => .isFalse id

/-- Where a replica stands while its group is formed. -/
structure Seated (founder : Nat) (voters : Voters) (log : Log) (j : Nat) (r : Replica σ) : Prop where
  running : r.stopped = false
  held : r.dropped = false
  bound : r.applied ≤ r.log.length
  leads : r.leader = true → j = founder ∧ r.leaderAddress = some r.address
  member : r.id ∈ voters → r.voters = voters ∧ r.term = 1 ∧ r.log = log
  outsider : r.id ∉ voters → Pristine r ∧ r.log = []

/-- All replicas stand like that. -/
def Seats (founder : Nat) (voters : Voters) (log : Log) (n : Network σ) : Prop :=
  ∀ (j : Nat) (r : Replica σ), n.replicas[j]? = some r → Seated founder voters log j r

/-- A group that is being formed, with its voters and its log so far. -/
structure Forming (founder : Nat) (voters : Voters) (log : Log) (n : Network σ) : Prop where
  wired : n.Wired
  joined : n.isolated = ∅
  ids : (n.roster.map Prod.fst).Nodup
  addresses : (n.roster.map Prod.snd).Nodup
  known : ∀ id a : String, voters[id]? = some a → (id, a) ∈ n.roster
  begun : voters ≠ ∅ → ∃ id a, n.roster[founder]? = some (id, a) ∧ id ∈ voters
  seated : n.Seats founder voters log
  terms : ∀ e ∈ log, e.term = 1
  empty : voters = ∅ → log = []

variable {founder : Nat} {voters : Voters} {log : Log} {n : Network σ} {i j : Nat} {r : Replica σ}

/-! ## Replicas in a group that is being formed -/

theorem Seated.term_le (h : Seated founder voters log j r) : r.term ≤ 1 := by
  by_cases hm : r.id ∈ voters
  · exact Nat.le_of_eq (h.member hm).2.1
  · rw [(h.outsider hm).1.term]
    exact Nat.zero_le 1

theorem Seated.log_front (h : Seated founder voters log j r) : r.log <+: log := by
  by_cases hm : r.id ∈ voters
  · exact prefix_of_eq (h.member hm).2.2
  · rw [(h.outsider hm).2]
    exact List.nil_prefix

/-- Leaders are members. -/
theorem Seated.member_of_leader (h : Seated founder voters log j r) (hl : r.leader = true) :
    r.id ∈ voters := by
  by_contra hm
  rw [(h.outsider hm).1.leader] at hl
  cases hl

/-- Followers do not lead. -/
theorem Seated.follower (h : Seated founder voters log j r) (hj : j ≠ founder) : r.leader = false := by
  cases hl : r.leader with
  | false => rfl
  | true => exact absurd (h.leads hl).1 hj

theorem Seats.put (h : n.Seats founder voters log) {y : Replica σ}
    (hy : Seated founder voters log i y) : (n.put i y).Seats founder voters log := by
  intro j x hx
  rcases put_getElem?_cases y hx with ⟨rfl, rfl⟩ | ⟨-, hx⟩
  · exact hy
  · exact h j x hx

theorem Forming.same_id (h : n.Forming founder voters log) {s : Replica σ}
    (hr : n.replicas[i]? = some r) (hs : n.replicas[j]? = some s) (e : r.id = s.id) : i = j := by
  have hlt : i < (n.roster.map Prod.fst).length := by
    simpa [roster] using (List.getElem?_eq_some_iff.mp hr).1
  refine (List.getElem?_inj hlt h.ids).mp ?_
  rw [List.getElem?_map, List.getElem?_map, roster_getElem? hr, roster_getElem? hs, Option.map_some,
    Option.map_some, e]

theorem Forming.same_address (h : n.Forming founder voters log) {s : Replica σ}
    (hr : n.replicas[i]? = some r) (hs : n.replicas[j]? = some s) (e : r.address = s.address) :
    i = j := by
  have hlt : i < (n.roster.map Prod.snd).length := by
    simpa [roster] using (List.getElem?_eq_some_iff.mp hr).1
  refine (List.getElem?_inj hlt h.addresses).mp ?_
  rw [List.getElem?_map, List.getElem?_map, roster_getElem? hr, roster_getElem? hs, Option.map_some,
    Option.map_some, e]

theorem Forming.id_unique (h : n.Forming founder voters log) {id id' a : String}
    (hid : (id, a) ∈ n.roster) (hid' : (id', a) ∈ n.roster) : id = id' :=
  congrArg Prod.fst (List.inj_on_of_nodup_map h.addresses hid hid' rfl)

theorem Forming.address_unique (h : n.Forming founder voters log) {id a a' : String}
    (ha : (id, a) ∈ n.roster) (ha' : (id, a') ∈ n.roster) : a = a' :=
  congrArg Prod.snd (List.inj_on_of_nodup_map h.ids ha ha' rfl)

/-- Voters on the roster are known under their addresses. -/
theorem Forming.voter (h : n.Forming founder voters log) {voters' : Voters}
    (hknown : ∀ id a : String, voters'[id]? = some a → (id, a) ∈ n.roster)
    (hr : n.replicas[j]? = some r) (hm : r.id ∈ voters') : voters'[r.id]? = some r.address := by
  obtain ⟨a, ha⟩ := Option.isSome_iff_exists.mp (Std.ExtTreeMap.mem_iff_isSome_getElem?.mp hm)
  rw [ha, h.address_unique (hknown _ a ha) (mem_roster hr)]

theorem Forming.insert_known (h : n.Forming founder voters log) {id a : String}
    (hnew : (id, a) ∈ n.roster) (x b : String) (hx : (voters.insert id a)[x]? = some b) : (x, b) ∈ n.roster := by
  rw [Std.ExtTreeMap.getElem?_insert] at hx
  split at hx
  · rename_i he
    rw [← Std.LawfulEqCmp.eq_of_compare he, ← Option.some.inj hx]
    exact hnew
  · exact h.known x b hx

/-- A replica reaches the others whose ids are among its voters. -/
theorem Forming.mem_reachable_iff (h : n.Forming founder voters log) {y : Replica σ}
    (hknown : ∀ id a : String, y.voters[id]? = some a → (id, a) ∈ n.roster)
    (hr : n.replicas[i]? = some r) (ha : y.address = r.address) {x : Replica σ}
    (hx : n.replicas[j]? = some x) : j ∈ n.reachable y ↔ j ≠ i ∧ x.id ∈ y.voters := by
  constructor
  · intro hj
    obtain ⟨z, id, hz, -, hv, hne⟩ := h.wired.peer hj
    rw [(replica?_eq_some.mp hz).1] at hx
    cases hx
    refine ⟨?_, ?_⟩
    · rintro rfl
      rw [(replica?_eq_some.mp hz).1] at hr
      cases hr
      exact hne ha.symm
    · rw [← h.id_unique (hknown id _ hv) (mem_roster (replica?_eq_some.mp hz).1)]
      exact Std.ExtTreeMap.mem_iff_isSome_getElem?.mpr (by rw [hv]; rfl)
  · rintro ⟨hji, hm⟩
    have hseat := h.seated j x hx
    have hne : x.address ≠ y.address := fun e => hji (h.same_address hx hr (e.trans ha))
    refine mem_reachable.mpr ⟨x.id, x.address, h.voter hknown hx hm, hne, ?_⟩
    refine peer?_eq_some.mpr ⟨by simp [h.joined], by simp [h.joined], ?_, x, ?_⟩
    · exact h.wired.listed j x hx hseat.running hseat.held
    · exact replica?_eq_some.mpr ⟨hx, hseat.held⟩

/-! ## Rounds of messages -/

/-- Peers occur once, and are held by somebody. -/
theorem Forming.peers (h : n.Forming founder voters log) {y : Replica σ}
    (hknown : ∀ id a : String, y.voters[id]? = some a → (id, a) ∈ n.roster)
    (hr : n.replicas[i]? = some r) (ha : y.address = r.address) :
    (i :: n.reachable y).Nodup ∧ ∀ j ∈ n.reachable y, ∃ x, n.replica? j = some x := by
  refine ⟨List.nodup_cons.mpr ⟨h.wired.not_mem_reachable hr ha, ?_⟩, fun j hj => ?_⟩
  · exact h.wired.nodup_reachable fun id id' a hid hid' =>
      h.id_unique (hknown id a hid) (hknown id' a hid')
  · obtain ⟨x, id, hx, -⟩ := h.wired.peer hj
    exact ⟨x, hx⟩

/-- A leader with voters of the roster turns to all of them. -/
theorem Forming.round (h : n.Forming founder voters log) (hr : n.replicas[i]? = some r)
    {y : Replica σ} (ha : y.address = r.address)
    (hknown : ∀ id a : String, y.voters[id]? = some a → (id, a) ∈ n.roster)
    (hgrow : ∀ id, id ∈ voters → id ∈ y.voters) (hy : Seated founder y.voters y.log i y)
    {f : Replica σ → Replica σ}
    (hf : ∀ (j : Nat) (x : Replica σ), j ≠ i → n.replicas[j]? = some x → x.id ∈ y.voters →
      Seated founder y.voters y.log j (f x)) :
    ((n.put i y).mapAt f (n.reachable y)).Seats founder y.voters y.log := by
  intro j x' hx'
  obtain ⟨hnodup, hpeers⟩ := h.peers hknown hr ha
  rcases put_mapAt_cases hnodup hpeers hx' with ⟨rfl, rfl⟩ | ⟨hji, x, hx, ⟨hj, rfl⟩ | ⟨hj, rfl⟩⟩
  · exact hy
  · exact hf j x hji hx ((h.mem_reachable_iff hknown hr ha hx).mp hj).2
  · have hno : x'.id ∉ y.voters := fun hm =>
      hj ((h.mem_reachable_iff hknown hr ha hx).mpr ⟨hji, hm⟩)
    have hseat := h.seated j x' hx
    exact ⟨hseat.running, hseat.held, hseat.bound, hseat.leads, fun hm => absurd hm hno,
      fun _ => hseat.outsider fun hm => hno (hgrow _ hm)⟩

variable [StateMachine σ]

/-- A follower that has a part of the leader's log becomes a member, or goes on as one. -/
theorem seated_receive {f leader : Replica σ} (hs : f.stopped = false) (hd : f.dropped = false)
    (hl : f.leader = false) (hv : f.voters = voters) (hm : f.id ∈ voters) (ht : f.term ≤ 1)
    (hb : f.applied ≤ f.log.length) (hpre : f.log <+: leader.log)
    (hh : f.halted = none ∨ f.log = leader.log) :
    Seated founder voters leader.log j (f.receive leader 1).1 where
  running := (receive_stopped ..).trans hs
  held := (receive_dropped ..).trans hd
  bound := by
    obtain ⟨x, hx, e | ⟨index, e⟩⟩ := Rewritten.receive hb leader 1 <;> rw [e]
    · exact hx.bound
    · exact (Lasts.applyUpTo hx.bound index).bound
  leads h := by
    rw [leader_of_receive h] at hl
    cases hl
  member _ := ⟨(receive_voters ..).trans hv, receive_term leader hs ht, receive_log hs ht hb hpre hh⟩
  outsider hno := absurd hm (by simpa using hno)

/-- A leader whose log all members have turns to them once more. -/
theorem Seats.receive (h : n.Seats founder voters log) {leader : Replica σ} (hlog : leader.log = log)
    {js : List Nat} (hjs : ∀ j ∈ js, j ≠ founder ∧
      ∀ x : Replica σ, n.replicas[j]? = some x → x.id ∈ voters) :
    (n.mapAt (fun f => (f.receive leader 1).1) js).Seats founder voters log := by
  refine (mapAt_induction (P := fun m => m.Seats founder voters log ∧ ∀ j ∈ js, ∀ x : Replica σ,
    m.replicas[j]? = some x → x.id ∈ voters) ?_ ⟨h, fun j hj => (hjs j hj).2⟩).1
  rintro m j f hj ⟨hm, hids⟩ hf
  have hat := (replica?_eq_some.mp hf).1
  have hseat := hm j f hat
  have hid := hids j hj f hat
  obtain ⟨hvoters, -, hflog⟩ := hseat.member hid
  have hl := hseat.follower (hjs j hj).1
  have hsame : f.log = leader.log := hflog.trans hlog.symm
  refine ⟨hm.put ?_, fun k hk x hx => ?_⟩
  · rw [← hlog]
    exact seated_receive hseat.running hseat.held hl hvoters hid hseat.term_le hseat.bound
      (hsame ▸ List.prefix_rfl) (Or.inr hsame)
  · rcases put_getElem?_cases _ hx with ⟨-, rfl⟩ | ⟨-, hx⟩
    · rw [receive_id]
      exact hid
    · exact hids k hk x hx

/-! ## Steps of the set-up -/

/-- What is left to show of an operation that registers nobody. -/
theorem Forming.next (h : n.Forming founder voters log) (op : Op σ) (hop : op.enrolment? = none)
    (voters' : Voters) (log' : Log) (hjoined : (n.step op).network.isolated = n.isolated)
    (hknown : ∀ id a : String, voters'[id]? = some a → (id, a) ∈ n.roster)
    (hbegun : voters' ≠ ∅ → ∃ id a, n.roster[founder]? = some (id, a) ∧ id ∈ voters')
    (hseats : (n.step op).network.Seats founder voters' log') (hterms : ∀ e ∈ log', e.term = 1)
    (hempty : voters' = ∅ → log' = []) : (n.step op).network.Forming founder voters' log' := by
  have hroster : (n.step op).network.roster = n.roster := by
    rcases roster_step h.wired op with e | e <;> rw [e]
    rw [hop]
    exact List.append_nil _
  exact ⟨wired_step h.wired op, hjoined.trans h.joined, hroster ▸ h.ids, hroster ▸ h.addresses,
    hroster ▸ hknown, hroster ▸ hbegun, hseats, hterms, hempty⟩

theorem Forming.register (h : n.Forming founder voters log) {name address : String} {machine : σ}
    (hop : n.Forms founder (.register name address machine)) :
    (n.step (.register name address machine)).network.Forming founder voters log := by
  obtain ⟨hname, haddress⟩ := hop
  have hw := wired_step h.wired (.register name address machine)
  have hstep : (n.step (.register name address machine)).network =
      (n.register name address machine).1 := rfl
  rw [hstep] at hw ⊢
  rcases register_cases n name address machine with e | ⟨-, e⟩ <;> rw [e] at hw ⊢
  · exact h
  have hroster : roster { n with
      replicas := n.replicas ++ [fresh name address machine]
      registry := n.registry.insert address n.replicas.length } = n.roster ++ [(name, address)] := by
    simp [roster, fresh]
  refine ⟨hw, h.joined, ?_, ?_, ?_, ?_, ?_, h.terms, h.empty⟩
  · rw [hroster, List.map_append]
    exact h.ids.append (List.nodup_singleton name) (List.disjoint_singleton.mpr hname)
  · rw [hroster, List.map_append]
    exact h.addresses.append (List.nodup_singleton address) (List.disjoint_singleton.mpr haddress)
  · rw [hroster]
    exact fun id a hv => List.mem_append_left _ (h.known id a hv)
  · rw [hroster]
    intro hne
    obtain ⟨id, a, hat, hm⟩ := h.begun hne
    exact ⟨id, a, (List.getElem?_append_left (List.getElem?_eq_some_iff.mp hat).1).trans hat, hm⟩
  · intro j r hr
    rcases getElem?_concat_cases hr with hr | ⟨-, rfl⟩
    · exact h.seated j r hr
    · -- the new replica's id is not among the voters, who are on the roster
      refine ⟨rfl, rfl, Nat.le_refl _, fun hl => (Bool.false_ne_true hl).elim, fun hm => ?_,
        fun _ => ⟨⟨rfl, rfl, rfl⟩, rfl⟩⟩
      obtain ⟨a, ha⟩ := Option.isSome_iff_exists.mp (Std.ExtTreeMap.mem_iff_isSome_getElem?.mp hm)
      exact absurd (List.mem_map_of_mem (h.known _ a ha)) hname

theorem Forming.bootstrap (h : n.Forming founder voters log) :
    ∃ voters', (n.step (.bootstrap founder)).network.Forming founder voters' log ∧
      ∀ id, id ∈ voters → id ∈ voters' := by
  have hc := bootstrap_founding n founder
  have hstep : (n.step (.bootstrap founder)).network = (n.bootstrap founder).network := rfl
  have hnext := fun voters' => h.next (.bootstrap founder) rfl voters' log
  rw [hstep] at hnext ⊢
  generalize (n.bootstrap founder).network = m, (n.bootstrap founder).answer = ans at hc hnext ⊢
  cases hc with
  | refused e => exact ⟨voters, h, fun _ hid => hid⟩
  | @done r hr hv =>
    have hat := (replica?_eq_some.mp hr).1
    have hseat := h.seated founder r hat
    -- a founder with voters would know them
    have hno : voters = ∅ := by
      by_contra hne
      obtain ⟨id, a, hid, hm⟩ := h.begun hne
      rw [roster_getElem? hat] at hid
      cases hid
      exact hne ((hseat.member hm).1.symm.trans hv)
    subst hno
    have hlog := h.empty rfl
    subst hlog
    obtain ⟨hpristine, hrlog⟩ := hseat.outsider (by simp)
    have hvoters : r.founded.voters = (∅ : Voters).insert r.id r.address := by simp [founded, hv]
    refine ⟨_, hnext ((∅ : Voters).insert r.id r.address) rfl (h.insert_known (mem_roster hat))
      (fun _ => ⟨r.id, r.address, roster_getElem? hat, by simp⟩) (fun j x hx => ?_) h.terms
      fun _ => rfl, fun id hid => by simp at hid⟩
    rcases put_getElem?_cases _ hx with ⟨rfl, rfl⟩ | ⟨hji, hx⟩
    · have hid : r.founded.id = r.id := setLeader_id ..
      refine ⟨(setLeader_stopped ..).trans hseat.running, (setLeader_dropped ..).trans hseat.held, ?_,
        fun _ => ⟨rfl, by simp [founded]⟩, fun _ => ⟨hvoters, ?_, (setLeader_log ..).trans hrlog⟩,
        fun hout => by simp [hid] at hout⟩
      · simpa [founded] using hseat.bound
      · simp [founded, hpristine.term]
    · have hx' := h.seated j x hx
      have hout : x.id ∉ (∅ : Voters).insert r.id r.address := by
        intro hm
        rw [Std.ExtTreeMap.mem_insert] at hm
        rcases hm with he | hm
        · exact hji (h.same_id hx hat (Std.LawfulEqCmp.eq_of_compare he).symm)
        · simp at hm
      exact ⟨hx'.running, hx'.held, hx'.bound, hx'.leads, fun hm => absurd hm hout,
        fun _ => hx'.outsider (by simp)⟩

theorem adopt_of_le {f leader : Replica σ} (hs : f.stopped = false) (ht : f.term ≤ leader.term) :
    adopt leader f = ({ f.follow leader.term leader.address with
      voters := leader.voters, votersIndex := leader.votersIndex }.receive leader leader.term).1 := by
  unfold adopt
  rcases acceptVoters_eq f leader.term leader.address leader.voters leader.votersIndex with
    ⟨-, hs' | ht'⟩ | ⟨-, -, e⟩
  · rw [hs] at hs'; cases hs'
  · omega
  · rw [e]

/-- A peer that takes the voters and the log of a leader of the first term becomes a member. -/
theorem seated_adopt {x leader : Replica σ} (hx : Seated founder voters log j x)
    (hl : x.leader = false) (hh : x.halted = none) (hterm : leader.term = 1)
    (hlog : leader.log = log) (hm : x.id ∈ leader.voters) :
    Seated founder leader.voters leader.log j (adopt leader x) := by
  have hle := hx.term_le
  rw [adopt_of_le hx.running (by omega), hterm]
  refine seated_receive ((follow_stopped ..).trans hx.running) ((follow_dropped ..).trans hx.held)
    ?_ rfl (by simpa using hm) (Nat.le_of_eq (follow_term _ hle)) ?_ ?_
    (Or.inl ((follow_halted ..).trans hh))
  · refine Bool.eq_false_iff.mpr fun hf => ?_
    rw [(follow_leader _ hf).1] at hl
    cases hl
  · simpa using hx.bound
  · simpa [hlog] using hx.log_front

/-- Nobody's machine has failed. -/
def Unhalted (n : Network σ) : Prop := n.Everywhere fun r => r.halted = none

omit [StateMachine σ] in
theorem unhalted_iff {n : Network σ} : n.Unhalted ↔ ∀ r ∈ n.replicas, r.halted = none := by
  refine ⟨fun h r hr => ?_, fun h j r hr => h r (List.mem_of_getElem? hr)⟩
  obtain ⟨j, hj⟩ := List.mem_iff_getElem?.mp hr
  exact h j r hj

instance (n : Network σ) : Decidable n.Unhalted := decidable_of_iff' _ unhalted_iff

/-- Whoever has not halted by the end of a run has never halted. -/
theorem unhalted_of_run (hw : n.Wired) (hb : n.Everywhere Bounded) (ops : List (Op σ))
    (h : (n.run ops).Unhalted) : n.Unhalted := by
  intro j r hr
  obtain ⟨r', hr', hlater⟩ := run_later hw ops hr
  cases hh : r.halted with
  | none => rfl
  | some reason =>
    have hlast := ((hlater.lasts (hb j r hr)).halted (by simp [hh])).1
    rw [h j r' hr', hh] at hlast
    cases hlast

theorem Forming.addVoter (h : n.Forming founder voters log) (hun : n.Unhalted) (i : Nat)
    {name address : String} (hop : (name, address) ∈ n.roster) (prev : Nat) : ∃ voters',
      (n.step (.addVoter i name address prev)).network.Forming founder voters' log ∧
        ∀ id, id ∈ voters → id ∈ voters' := by
  have hc := addVoter_admission h.wired i name address prev
  have hstep : (n.step (.addVoter i name address prev)).network =
      (n.addVoter i name address prev).network := rfl
  have hnext := fun voters' => h.next (.addVoter i name address prev) rfl voters' log
  rw [hstep] at hnext ⊢
  generalize (n.addVoter i name address prev).network = m,
    (n.addVoter i name address prev).answer = ans at hc hnext ⊢
  cases hc with
  | refused e => exact ⟨voters, h, fun _ hid => hid⟩
  | present hr hl hv => exact ⟨voters, h, fun _ hid => hid⟩
  | @done r hr hs hl hp hv =>
    have hat := (replica?_eq_some.mp hr).1
    have hseat := h.seated i r hat
    have hm := hseat.member_of_leader hl
    obtain ⟨hvoters, hterm, hlog⟩ := hseat.member hm
    obtain rfl := (hseat.leads hl).1
    have hwide : (r.widened name address).voters = voters.insert name address := by
      rw [← hvoters, widened]
    have hgrow : ∀ id, id ∈ voters → id ∈ voters.insert name address := fun id hid =>
      Std.ExtTreeMap.mem_insert.mpr (Or.inr hid)
    refine ⟨_, hnext (voters.insert name address) (by simp) (h.insert_known hop) (fun _ => ?_) ?_
      h.terms (fun he => ?_), hgrow⟩
    · obtain ⟨id, a, hid, hidm⟩ := h.begun (voters_ne_empty hm)
      exact ⟨id, a, hid, hgrow id hidm⟩
    · rw [← hwide, ← hlog]
      refine h.round (y := r.widened name address) hat rfl ?_ ?_ ?_ fun j x hji hx hxm => ?_
      · rw [hwide]
        exact h.insert_known hop
      · rw [hwide]
        exact hgrow
      · refine ⟨hseat.running, hseat.held, hseat.bound, hseat.leads, fun _ => ⟨rfl, hterm, rfl⟩,
          fun hout => absurd ?_ hout⟩
        rw [hwide]
        exact hgrow _ hm
      · have hx' := h.seated j x hx
        exact seated_adopt hx' (hx'.follower hji) (hun j x hx) hterm hlog hxm
    · simp at he

/-- An entry reaches all members. -/
theorem Forming.spread (h : n.Forming founder voters log) (hun : n.Unhalted) (hr : n.replica? i = some r)
    (hl : r.leader = true) (data : List UInt8) :
    (n.spread i r data).Seats founder voters (log ++ [⟨r.term, data⟩]) := by
  have hat := (replica?_eq_some.mp hr).1
  have hseat := h.seated i r hat
  have hm := hseat.member_of_leader hl
  obtain ⟨hvoters, hterm, hlog⟩ := hseat.member hm
  obtain rfl := (hseat.leads hl).1
  have hpushed : (r.pushed data).log = log ++ [⟨r.term, data⟩] := by rw [← hlog, pushed]
  have hlonger : log <+: (r.pushed data).log := hpushed ▸ List.prefix_append ..
  rw [← hpushed, ← hvoters]
  refine h.round (y := r.pushed data) hat rfl (hvoters ▸ h.known) (hvoters ▸ fun _ hid => hid) ?_
    fun j x hji hx hxm => ?_
  · refine ⟨hseat.running, hseat.held, ?_, hseat.leads, fun _ => ⟨rfl, hterm, rfl⟩,
      fun hout => absurd (hvoters ▸ hm) hout⟩
    exact Nat.le_trans hseat.bound (hlog ▸ hlonger.length_le)
  · have hx' := h.seated j x hx
    have hxv : x.voters = r.voters := (hx'.member (hvoters ▸ hxm)).1.trans hvoters.symm
    rw [hterm]
    exact seated_receive hx'.running hx'.held (hx'.follower hji) hxv hxm hx'.term_le hx'.bound
      (hx'.log_front.trans hlonger) (Or.inl (hun j x hx))

theorem Seated.applyUpTo (h : Seated founder voters log j r) (index : Nat) :
    Seated founder voters log j (r.applyUpTo index).1 where
  running := by simpa using h.running
  held := by simpa using h.held
  bound := (Lasts.applyUpTo h.bound index).bound
  leads := by simpa using h.leads
  member := by simpa using h.member
  outsider hout := by
    obtain ⟨hp, hlog⟩ := h.outsider (by simpa using hout)
    exact ⟨⟨by simpa using hp.leader, by simpa using hp.voters, by simpa using hp.term⟩,
      by simpa using hlog⟩

/-- The leader applies the entry, and all members take note of it. -/
theorem Forming.commit (h : n.Forming founder voters log) (hun : n.Unhalted) (hr : n.replica? i = some r)
    (hl : r.leader = true) (data : List UInt8) (index : Nat) :
    ((n.spread i r data).put i ((r.pushed data).applyUpTo index).1).Seats founder voters
        (log ++ [⟨r.term, data⟩]) ∧
      (((n.spread i r data).put i ((r.pushed data).applyUpTo index).1).mapAt
        (fun f => (f.receive ((r.pushed data).applyUpTo index).1 r.term).1) (n.reachable r)).Seats
        founder voters (log ++ [⟨r.term, data⟩]) := by
  have hat := (replica?_eq_some.mp hr).1
  have hseat := h.seated i r hat
  obtain ⟨hvoters, hterm, hlog⟩ := hseat.member (hseat.member_of_leader hl)
  obtain rfl := (hseat.leads hl).1
  have hspread := h.spread hun hr hl data
  have hput := hspread.put ((hspread i _ (spread_self h.wired hr data)).applyUpTo index)
  refine ⟨hput, ?_⟩
  rw [hterm] at hput ⊢
  refine hput.receive (by rw [applyUpTo_log, pushed, hlog, hterm]) fun j hj => ?_
  have hknown : ∀ id a : String, r.voters[id]? = some a → (id, a) ∈ n.roster := hvoters ▸ h.known
  obtain ⟨hnodup, hpeers⟩ := h.peers hknown hat rfl
  have hji : j ≠ i := fun e => (List.nodup_cons.mp hnodup).1 (e ▸ hj)
  refine ⟨hji, fun x hx => ?_⟩
  rcases put_getElem?_cases _ hx with ⟨e, -⟩ | ⟨-, hx⟩
  · exact absurd e hji
  rcases put_mapAt_cases hnodup hpeers hx with ⟨e, -⟩ | ⟨-, y, hy, ⟨-, rfl⟩ | ⟨hno, -⟩⟩
  · exact absurd e hji
  · rw [receive_id, ← hvoters]
    exact ((h.mem_reachable_iff hknown hat rfl hy).mp hj).2
  · exact absurd hj hno

theorem Forming.submit (h : n.Forming founder voters log) (hun : n.Unhalted) (i : Nat)
    (data : List UInt8) : ∃ log', (n.step (.submit i data)).network.Forming founder voters log' ∧
      log <+: log' ∧ ∀ index, (n.submit i data).answer = .ok index →
        ∃ r, n.replicas[i]? = some r ∧ r.log = log ∧ log' = log ++ [⟨r.term, data⟩] ∧
          index = log.length + 1 := by
  have hc := submit_write h.wired i data
  have hstep : (n.step (.submit i data)).network = (n.submit i data).network := rfl
  have hnext := fun log' => h.next (.submit i data) rfl voters log'
  rw [hstep] at hnext ⊢
  generalize (n.submit i data).network = m, (n.submit i data).answer = ans at hc hnext ⊢
  have hgrown : ∀ {r : Replica σ}, n.replica? i = some r → r.leader = true →
      m.isolated = n.isolated → m.Seats founder voters (log ++ [⟨r.term, data⟩]) →
      m.Forming founder voters (log ++ [⟨r.term, data⟩]) := by
    intro r hr hl hjoined hseats
    have hseat := h.seated i r (replica?_eq_some.mp hr).1
    have hm := hseat.member_of_leader hl
    refine hnext _ hjoined h.known h.begun hseats (fun e he => ?_)
      fun he => absurd he (voters_ne_empty hm)
    rcases List.mem_append.mp he with he | he
    · exact h.terms e he
    · rw [List.mem_singleton.mp he]
      exact (hseat.member hm).2.1
  cases hc with
  | refused e => exact ⟨log, h, List.prefix_rfl, fun index hans => by cases hans⟩
  | @conceded r newer hr hl hn hp =>
    -- no peer is at a later term
    obtain ⟨j, -, f, hf, hterm⟩ := hp
    have hseat := h.seated i r (replica?_eq_some.mp hr).1
    have hone := (hseat.member (hseat.member_of_leader hl)).2.1
    have hle := (h.seated j f (replica?_eq_some.mp hf).1).term_le
    omega
  | unacknowledged hr hwr ha =>
    refine ⟨_, hgrown hr hwr.leads (by simp [Network.spread]) (h.spread hun hr hwr.leads data),
      List.prefix_append .., fun index hans => by cases hans⟩
  | @failed r r' e hr hwr ha hf =>
    have hcommit := (h.commit hun hr hwr.leads data (r.pushed data).log.length).1
    rw [hf] at hcommit
    exact ⟨_, hgrown hr hwr.leads (by simp [Network.spread]) hcommit, List.prefix_append ..,
      fun index hans => by cases hans⟩
  | @committed r r' hr hwr ha hc =>
    have hcommit := (h.commit hun hr hwr.leads data (r.pushed data).log.length).2
    rw [hc] at hcommit
    have hat := (replica?_eq_some.mp hr).1
    have hseat := h.seated i r hat
    have hlog := (hseat.member (hseat.member_of_leader hwr.leads)).2.2
    refine ⟨_, hgrown hr hwr.leads (by simp [Network.spread]) hcommit, List.prefix_append ..,
      fun index hans => ⟨r, hat, hlog, rfl, ?_⟩⟩
    cases hans
    simp [pushed, hlog]

/-- The voters and the log grow with every operation of the set-up. -/
theorem forming_step (h : n.Forming founder voters log) (hun : n.Unhalted) {op : Op σ}
    (hop : n.Forms founder op) : ∃ voters' log', (n.step op).network.Forming founder voters' log' ∧
      log <+: log' ∧ ∀ id, id ∈ voters → id ∈ voters' := by
  cases op with
  | register name address machine =>
    exact ⟨voters, log, h.register hop, List.prefix_rfl, fun _ hid => hid⟩
  | bootstrap i =>
    obtain rfl : i = founder := hop
    obtain ⟨voters', h', hgrow⟩ := h.bootstrap
    exact ⟨voters', log, h', List.prefix_rfl, hgrow⟩
  | addVoter i name address prev =>
    obtain ⟨voters', h', hgrow⟩ := h.addVoter hun i hop prev
    exact ⟨voters', log, h', List.prefix_rfl, hgrow⟩
  | submit i data =>
    obtain ⟨log', h', hpre, -⟩ := h.submit hun i data
    exact ⟨voters, log', h', hpre, fun _ hid => hid⟩
  | _ => exact hop.elim

omit [StateMachine σ] in
theorem forming_empty : ({} : Network σ).Forming founder ∅ [] where
  wired := wired_empty
  joined := rfl
  ids := .nil
  addresses := .nil
  known _ _ h := by simp at h
  begun h := absurd rfl h
  seated _ _ h := by simp at h
  terms _ h := absurd h List.not_mem_nil
  empty _ := rfl

/-! ## When everybody is a member -/

omit [StateMachine σ] in
/-- Whom the founder has for voters are the members. -/
theorem Forming.members (h : n.Forming founder voters log) {f : Replica σ}
    (hf : n.replicas[founder]? = some f) (hall : ∀ r ∈ n.replicas, r.id ∈ f.voters) (j : Nat)
    (r : Replica σ) (hr : n.replicas[j]? = some r) : r.id ∈ voters := by
  have hself := hall f (List.mem_of_getElem? hf)
  have hseat := h.seated founder f hf
  by_cases hm : f.id ∈ voters
  · rw [← (hseat.member hm).1]
    exact hall r (List.mem_of_getElem? hr)
  · rw [(hseat.outsider hm).1.voters] at hself
    simp at hself

omit [StateMachine σ] in
theorem Forming.grouped (h : n.Forming founder voters log)
    (hall : ∀ (j : Nat) (r : Replica σ), n.replicas[j]? = some r → r.id ∈ voters) :
    n.Grouped voters where
  knows j r hr := ⟨((h.seated j r hr).member (hall j r hr)).1, h.voter h.known hr (hall j r hr)⟩
  size := by
    -- the voters' ids and the replicas' ids are the same, each once
    have hkeys : (voters.toList.map Prod.fst).Nodup := by
      rw [List.Nodup, List.pairwise_map]
      refine (Std.ExtTreeMap.distinct_keys_toList (t := voters)).imp ?_
      rintro ⟨id, a⟩ ⟨id', a'⟩ hne rfl
      exact hne Std.ReflCmp.compare_self
    have hperm : (voters.toList.map Prod.fst).Perm (n.roster.map Prod.fst) := by
      refine (List.perm_ext_iff_of_nodup hkeys h.ids).mpr fun id => ?_
      simp only [List.mem_map, Prod.exists, exists_and_right, exists_eq_right]
      constructor
      · rintro ⟨a, ha⟩
        exact ⟨a, h.known id a (Std.ExtTreeMap.mem_toList_iff_getElem?_eq_some.mp ha)⟩
      · rintro ⟨a, ha⟩
        obtain ⟨r, hr, e⟩ := List.mem_map.mp ha
        cases e
        obtain ⟨j, hj⟩ := List.mem_iff_getElem?.mp hr
        exact ⟨_, Std.ExtTreeMap.mem_toList_iff_getElem?_eq_some.mpr (h.voter h.known hj (hall j r hj))⟩
    have hlen := hperm.length_eq
    rw [List.length_map, List.length_map, Std.ExtTreeMap.length_toList, roster, List.length_map] at hlen
    exact hlen
  distinct id id' a hid hid' := h.id_unique (h.known id a hid) (h.known id' a hid')

omit [StateMachine σ] in
/-- A group whose replicas are all members fits the chronicle of its founder. -/
theorem Forming.sound (h : n.Forming founder voters log) (hne : n.replicas ≠ [])
    (hall : ∀ (j : Nat) (r : Replica σ), n.replicas[j]? = some r → r.id ∈ voters) :
    n.Sound voters (Chronicle.first founder log) ∧ n.Presided (Chronicle.first founder log) := by
  have hquorum : Quorum n.replicas.length (List.range n.replicas.length) := by
    have hpos := List.length_pos_iff.mpr hne
    refine ⟨List.nodup_range, fun j hj => List.mem_range.mp hj, ?_⟩
    rw [List.length_range]
    omega
  have hmember : ∀ j ∈ List.range n.replicas.length, ∃ r, n.replicas[j]? = some r ∧
      r.voters = voters ∧ r.term = 1 ∧ r.log = log := by
    intro j hj
    have hat := List.getElem?_eq_getElem (List.mem_range.mp hj)
    exact ⟨_, hat, (h.seated j _ hat).member (hall j _ hat)⟩
  refine ⟨⟨h.grouped hall, Chronicle.first_coherent h.terms, fun j r hr => ?_, _, hquorum,
    fun j hj => ?_⟩, fun t ht => ⟨_, hquorum, fun j hj => ?_⟩⟩
  · have hseat := h.seated j r hr
    obtain ⟨hvoters, hterm, hlog⟩ := hseat.member (hall j r hr)
    refine ⟨fun hl => ?_, by rw [hlog]; exact Chronicle.first_traced h.terms, hseat.bound, ?_⟩
    · obtain ⟨rfl, haddress⟩ := hseat.leads hl
      exact ⟨by simp [Chronicle.first, hterm], hlog, haddress⟩
    · rw [hlog]
      exact List.take_prefix ..
  · obtain ⟨r, hr, -, -, hlog⟩ := hmember j hj
    exact ⟨r, hr, hlog ▸ List.prefix_rfl⟩
  · obtain ⟨r, hr, -, hterm, -⟩ := hmember j hj
    exact ⟨r, hr, Nat.le_of_eq ((Chronicle.first_elected.mp ht).trans hterm.symm)⟩

end ReplicatedTable.Raft.Network
