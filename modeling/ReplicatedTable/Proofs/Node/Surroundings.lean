import ReplicatedTable.Proofs.Gossip.Registration
import ReplicatedTable.Proofs.Node.Moves
import ReplicatedTable.Proofs.Raft.Step

/-!
# What a move does to the networks

A member has a place in the gossip network as long as nobody else is registered under its name or at its address
(`Vacant`), and a replica has its address until it is shut down (`Tenancy`). A move is an event of the run of its
site or none (`Deployment.event?`), and asks at most one thing of the gossip network and one of the replicas
(`Deployment.Advance`).
-/

/-! ## Places in the gossip network -/

namespace ReplicatedTable.Gossip
open Std

namespace Network

variable {n n' : Network} {m : Member}

/-- Nobody is registered under the name of a member, or at its address. -/
def Vacant (n : Network) (m : Member) : Prop :=
  ∀ (x : String) (s : Slot), n.slots[x]? = some s → x ≠ m.name ∧ s.member.address ≠ m.address

theorem Vacant.not_mem (h : n.Vacant m) : m.name ∉ n.slots := fun hmem =>
  (h m.name _ (ExtTreeMap.getElem?_eq_some_getElem hmem)).1 rfl

theorem Vacant.register (h : n.Vacant m) : ∃ n' mailbox, n.register m = .ok (n', mailbox) := by
  unfold Network.register
  rw [if_neg h.not_mem, if_neg]
  · exact ⟨_, _, rfl⟩
  · intro hany
    obtain ⟨⟨x, s⟩, hmem, hs⟩ := List.any_eq_true.mp hany
    exact (h x s (ExtTreeMap.mem_toList_iff_getElem?_eq_some.mp hmem)).2 (beq_iff_eq.mp hs)

theorem Keeps.mergeAll (n : Network) (links : List (String × String)) : Keeps n (n.mergeAll links) := by
  induction links generalizing n with
  | nil => exact .of_slots rfl rfl rfl
  | cons link links ih =>
    rw [mergeAll_cons]
    exact (Keeps.merge n link.1 link.2).trans (ih _)

/-- Who leaves is not registered any more. -/
theorem not_mem_leave (n : Network) (name : String) : name ∉ (n.leave name).slots := by
  intro hmem
  obtain ⟨t, ht⟩ : ∃ t, (n.leave name).slots[name]? = some t :=
    ⟨_, ExtTreeMap.getElem?_eq_some_getElem hmem⟩
  unfold leave at ht
  cases hs : n.slots[name]? with
  | none =>
    rw [depart_of_none hs, hs] at ht
    cases ht
  | some s =>
    rw [depart_eq hs] at ht
    obtain ⟨s, hs, -⟩ := (Keeps.round _ _ (nodup_observers n name s)).slot ht
    rw [without, getElem?_erase, if_pos rfl] at hs
    cases hs

end Network

end ReplicatedTable.Gossip

/-! ## Addresses of replicas -/

namespace ReplicatedTable.Raft.Network
open Std

variable {σ : Type} {n n' : Network σ} {k : Nat} {address : String}

/-- Whose an address is: there is a replica with it, and no other one answers there. -/
structure Tenancy (n : Network σ) (k : Nat) (address : String) : Prop where
  wired : n.Wired
  there : ∃ r, n.replica? k = some r ∧ r.address = address
  alone : ∀ j, n.registry[address]? = some j → j = k

/-- Nobody takes an address that is free. -/
def Frees (n n' : Network σ) (address : String) : Prop :=
  n.registry[address]? = none → n'.registry[address]? = none

theorem there_put {i : Nat} {r x : Replica σ} (hr : n.replica? i = some r) (hx : x.address = r.address)
    (hd : x.dropped = r.dropped) (h : ∃ r, n.replica? k = some r ∧ r.address = address) :
    ∃ r, (n.put i x).replica? k = some r ∧ r.address = address := by
  obtain ⟨y, hy, hya⟩ := h
  by_cases hik : i = k
  · subst hik
    obtain rfl := Option.some.inj (hy.symm.trans hr)
    exact ⟨x, replica?_put_self x hr (hd.trans (replica?_eq_some.mp hr).2), hx.trans hya⟩
  · exact ⟨y, (replica?_put_ne x hik).trans hy, hya⟩

theorem tenancy_register (hw : n.Wired) {id : String} {machine : σ}
    (h : n.register id address machine = (n', .ok k)) : n'.Tenancy k address := by
  have hwired := hw.register id address machine
  rw [h] at hwired
  unfold register at h
  split at h
  · cases h
  · cases h
    refine ⟨hwired, ⟨_, replica?_eq_some.mpr ⟨List.getElem?_concat_length, rfl⟩, rfl⟩, fun j hj => ?_⟩
    simp only [ExtTreeMap.getElem?_insert_self, Option.some.injEq] at hj
    exact hj.symm

theorem Tenancy.bootstrap (h : n.Tenancy k address) (i : Nat) : (n.bootstrap i).network.Tenancy k address := by
  have hwired := h.wired.bootstrap i
  have hfounding := bootstrap_founding n i
  generalize (n.bootstrap i).network = m, (n.bootstrap i).answer = answer at hfounding hwired ⊢
  cases hfounding with
  | refused e => exact h
  | done hr hv =>
    exact ⟨hwired, there_put hr (by simp [Replica.founded]) (by simp [Replica.founded]) h.there, h.alone⟩

theorem Tenancy.shutdown (h : n.Tenancy k address) (i : Nat) :
    (n.shutdown i).network.Tenancy k address ∧ n.Frees (n.shutdown i).network address := by
  have hwired := h.wired.shutdown i
  rcases shutdown_cases n i with e | ⟨r, hr, -, e⟩ <;> rw [e] at hwired ⊢
  · exact ⟨h, fun hnone => hnone⟩
  · have hback : ∀ j, (n.registry.erase r.address)[address]? = some j → n.registry[address]? = some j := by
      intro j hj
      rw [ExtTreeMap.getElem?_erase] at hj
      split at hj
      · cases hj
      · exact hj
    refine ⟨⟨hwired, there_put hr (by simp [Replica.ended]) (by simp [Replica.ended]) h.there,
      fun j hj => h.alone j (hback j hj)⟩, fun hnone => Option.eq_none_iff_forall_ne_some.mpr fun j hj => ?_⟩
    exact Option.eq_none_iff_forall_ne_some.mp hnone j (hback j hj)

/-- A replica that is shut down leaves its address. -/
theorem Tenancy.ends (h : n.Tenancy k address) :
    (n.shutdown k).answer = .ok () ∧ (n.shutdown k).network.registry[address]? = none := by
  obtain ⟨r, hr, rfl⟩ := h.there
  unfold Network.shutdown withReplica
  rw [hr]
  dsimp only
  split
  · rename_i hstopped
    refine ⟨rfl, Option.eq_none_iff_forall_ne_some.mpr fun j hj => ?_⟩
    -- whoever answers at an address runs
    obtain ⟨x, hx, -, hrunning⟩ := h.wired.leads _ j hj
    obtain rfl := h.alone j hj
    obtain rfl := Option.some.inj (hx.symm.trans (replica?_eq_some.mp hr).1)
    rw [hrunning] at hstopped
    cases hstopped
  · exact ⟨rfl, by simp⟩

theorem Tenancy.addVoter [StateMachine σ] (h : n.Tenancy k address) (i : Nat) (id a : String) (prev : Nat) :
    (n.addVoter i id a prev).network.Tenancy k address ∧ n.Frees (n.addVoter i id a prev).network address := by
  have hwired := h.wired.addVoter i id a prev
  have hadmission := addVoter_admission h.wired i id a prev
  generalize (n.addVoter i id a prev).network = m, (n.addVoter i id a prev).answer = answer
    at hadmission hwired ⊢
  cases hadmission with
  | refused e => exact ⟨h, fun hnone => hnone⟩
  | present hr hl hv => exact ⟨h, fun hnone => hnone⟩
  | done hr hs hl hp hv =>
    refine ⟨⟨hwired, ?_, by simpa using h.alone⟩, by simp [Frees]⟩
    exact mapAt_induction (P := fun m => ∃ r, m.replica? k = some r ∧ r.address = address)
      (fun m j x _ hm hx => there_put hx (adopt_address ..) (adopt_dropped ..) hm)
      (there_put hr rfl rfl h.there)

end ReplicatedTable.Raft.Network

/-! ## Requests of a site -/

namespace ReplicatedTable.Node

/-- What a site may ask of the gossip network. -/
inductive Site.Gossips (p : Site) (n : Gossip.Network) : Gossip.Network → Gossip.Engine → Prop where
  | apart : Gossips p n n p.gossip
  | start : Gossips p n (p.gossip.start n).1 (p.gossip.start n).2.1
  | join (addresses : List String) : Gossips p n (p.gossip.join n addresses).1 p.gossip
  | stop : Gossips p n (p.gossip.requestStop n).1 (p.gossip.requestStop n).2

/-- What a site may ask of the replicas. -/
inductive Site.Consents (p : Site) (n : Replicas) : Replicas → Prop where
  | apart : Consents p n n
  | addVoter (id address : String) (prev : Nat) :
    Consents p n (n.addVoter p.replica id address prev).network
  | shutdown : Consents p n (n.shutdown p.replica).network

theorem Site.Consents.tenancy {p : Site} {n n' : Replicas} {k : Nat} {address : String} (h : p.Consents n n')
    (ht : n.Tenancy k address) : n'.Tenancy k address ∧ n.Frees n' address := by
  cases h with
  | apart => exact ⟨ht, fun hnone => hnone⟩
  | addVoter id a prev => exact ht.addVoter p.replica id a prev
  | shutdown => exact ht.shutdown p.replica

namespace Site.Gossips
open Gossip (Slot)
open Gossip.Network

variable {p : Site} {n n' : Gossip.Network} {g : Gossip.Engine}

theorem member (h : p.Gossips n n' g) : g.member = p.gossip.member := by
  cases h with
  | apart | join => rfl
  | start => rcases p.gossip.start_cases n with ⟨e, h⟩ | ⟨_, mailbox, -, -, -, h⟩ <;> rw [h]
  | stop => rw [requestStop_engine]

/-- What was started stays so, and so does what was told to stop. -/
theorem lasts (h : p.Gossips n n' g) : (p.gossip.started = true → g.started = true) ∧
    (p.gossip.stopped = true → g.stopped = true) := by
  cases h with
  | apart | join => exact ⟨id, id⟩
  | start =>
    rcases p.gossip.start_cases n with ⟨e, h⟩ | ⟨_, mailbox, -, -, -, h⟩ <;> rw [h]
    · exact ⟨id, id⟩
    · exact ⟨fun _ => rfl, id⟩
  | stop =>
    rw [requestStop_engine]
    exact ⟨id, fun _ => rfl⟩

/-- Whoever is registered was before, or is the member of an engine that has just started. -/
theorem slot (h : p.Gossips n n' g) {x : String} {t : Slot} (ht : n'.slots[x]? = some t) :
    (∃ s, n.slots[x]? = some s ∧ t.member.address = s.member.address) ∨
      (p.gossip.stopped = false ∧ g.started = true ∧ g.stopped = false) ∧
        p.gossip.member.name = x ∧ p.gossip.member.address = t.member.address := by
  have hkeeps : Keeps n n' → ∃ s, n.slots[x]? = some s ∧ t.member.address = s.member.address := by
    intro hkeeps
    obtain ⟨s, hs, -, haddress, -⟩ := hkeeps.slot ht
    exact ⟨s, hs, haddress⟩
  cases h with
  | apart => exact .inl ⟨t, ht, rfl⟩
  | start =>
    rcases p.gossip.start_cases n with ⟨e, h⟩ | ⟨n', mailbox, hrunning, -, hregister, h⟩ <;> rw [h] at ht ⊢
    · exact .inl ⟨t, ht, rfl⟩
    · obtain ⟨-, -, -, rfl⟩ := register_ok hregister
      rw [Gossip.getElem?_insert] at ht
      split at ht
      · rename_i hx
        cases ht
        exact .inr ⟨⟨hrunning, rfl, hrunning⟩, hx, rfl⟩
      · exact .inl ⟨t, ht, rfl⟩
  | join addresses =>
    refine .inl (hkeeps ?_)
    rw [Gossip.Engine.join_network]
    exact .mergeAll n _
  | stop =>
    refine .inl (hkeeps ?_)
    unfold Gossip.Engine.requestStop
    split
    · exact .of_slots rfl rfl rfl
    · dsimp only
      split
      · exact .depart n _ _ _
      · exact .of_slots rfl rfl rfl

/-- Who tells its engine to stop is not registered any more. -/
theorem gone (h : p.Gossips n n' g) (hbefore : p.gossip.stopped = true → p.gossip.member.name ∉ n.slots)
    (hnew : p.gossip.started = false → p.gossip.member.name ∉ n.slots) (hg : g.stopped = true) :
    p.gossip.member.name ∉ n'.slots := by
  have hkept : p.gossip.member.name ∉ n.slots → p.gossip.member.name ∉ n'.slots := by
    intro hnone hmem
    rcases h.slot (Std.ExtTreeMap.getElem?_eq_some_getElem hmem) with ⟨s, hs, -⟩ | ⟨⟨-, -, hrunning⟩, -⟩
    · exact hnone (Gossip.mem_of_getElem? hs)
    · rw [hg] at hrunning
      cases hrunning
  cases hstopped : p.gossip.stopped with
  | true => exact hkept (hbefore hstopped)
  | false =>
    cases hstarted : p.gossip.started with
    | false => exact hkept (hnew hstarted)
    | true =>
      cases h with
      | apart | join =>
        rw [hstopped] at hg
        cases hg
      | start =>
        rcases p.gossip.start_cases n with ⟨e, h⟩ | ⟨_, mailbox, -, -, -, h⟩ <;> rw [h] at hg <;>
          exact absurd hg (Bool.eq_false_iff.mp hstopped)
      | stop =>
        unfold Gossip.Engine.requestStop
        rw [if_neg (Bool.eq_false_iff.mp hstopped), if_pos hstarted]
        exact not_mem_leave n _

end Site.Gossips

namespace Deployment

/-- The event of its run that a move of a site is. -/
def event? (d : Deployment) (i : Nat) (p : Site) : Move → Option Event
  | .prepare => some (.prepared (d.prepare p).2)
  | .begin w => some (.began w)
  | .startGossip => some (.gossipStarted (p.gossip.start d.network).2.2)
  | .joinGossip => some (.gossipJoined (p.gossip.join d.network p.config.joinAddresses).2)
  | .noticeGossipGone => some .gossipGone
  | .bind => some (.httpBound p.bind)
  | .closeHttp => some (.httpClosed (.ok ()))
  | .interrupt => some .interrupted
  | .release w => some (.released w)
  | .leaveGossip => some (.gossipStopped (.ok ()))
  | .stopConsensus => some (.consensusStopped (d.withReplica i Raft.Network.shutdown).2)
  | .signal w => some (.signalled w)
  | .finish w => some (.ended w)
  | .collect => some .collected
  | .notice | .lookForSignal | .takeEvent | .handEvent | .bridge | .interruptFromOutside
  | .stopGossipFromOutside => none

/-- What a move makes of a site and of the networks. -/
structure Advance (d d' : Deployment) (i : Nat) (m : Move) (p p' : Site) : Prop where
  site : d.site? i = some p
  sites : d'.sites = d.sites.set i p'
  config : p'.config = p.config
  bind : p'.bind = p.bind
  replica : p'.replica = p.replica
  run : (d.event? i p m).elim (p'.run = p.run) fun e => p.run.step? e = some p'.run
  gossips : p.Gossips d.network d'.network p'.gossip
  asked : ∀ e, d.event? i p m = some e → e.stops? = some .stopGossip → p'.gossip.stopped = true
  started : p'.gossip.started = true →
    p.gossip.started = true ∨ d.event? i p m = some (.gossipStarted (.ok ()))
  consents : p.Consents d.replicas d'.replicas
  stops : m = .stopConsensus → d'.replicas = (d.replicas.shutdown p.replica).network

variable {d d' : Deployment} {i : Nat} {p q : Site} {m : Move} {e : Event}

/-- A move that is an event of the run and nothing else but for the tracker. -/
theorem Advance.of_record {tracker : Tracker} (hp : d.site? i = some p) (hrecord : p.record? e = some q)
    (he : d.event? i p m = some e) (hasked : e.stops? ≠ some .stopGossip) (hstop : m ≠ .stopConsensus) :
    d.Advance (d.put i { q with tracker }) i m p { q with tracker } := by
  obtain ⟨run, hrun, rfl⟩ := Option.map_eq_some_iff.mp hrecord
  refine ⟨hp, rfl, rfl, rfl, rfl, by rw [he]; exact hrun, .apart, fun x hx => ?_,
    .inl, .apart, (absurd · hstop)⟩
  cases he.symm.trans hx
  exact (absurd · hasked)

/-- A move by which the node asks its gossip engine to stop. -/
theorem Advance.of_beginTeardown {d₀ : Deployment} (hp : d.site? i = some p) (hrecord : p.record? e = some q)
    (he : d.event? i p m = some e) (hstop : m ≠ .stopConsensus)
    (hsites : d₀.sites = d.sites) (hnetwork : d₀.network = d.network) (hreplicas : d₀.replicas = d.replicas) :
    ∃ p', d.Advance (d₀.beginTeardown i q) i m p p' := by
  obtain ⟨run, hrun, rfl⟩ := Option.map_eq_some_iff.mp hrecord
  have hi : i < d₀.sites.length := hsites ▸ (List.getElem?_eq_some_iff.mp hp).1
  refine ⟨{ p with
    run, gossip := { p.gossip with stopped := true }
    teardownWaits := !p.gossip.stopped && p.gossip.mailbox.isSome }, hp, ?_, rfl, rfl, rfl, ?_, ?_,
    fun _ _ _ => rfl, .inl, ?_, (absurd · hstop)⟩
  · rw [← hsites]
    exact sites_beginTeardown d₀ hi _
  · rw [he]
    exact hrun
  · show p.Gossips d.network (p.gossip.requestStop d₀.network).1 _
    rw [hnetwork, ← requestStop_engine p.gossip d.network]
    exact .stop
  · show p.Consents d.replicas d₀.replicas
    rw [hreplicas]
    exact .apart

/-- A move aside of the run: it may ask for a voter, and asks nothing of the gossip network. -/
theorem Advance.of_aside (hp : d.site? i = some p) (he : d.event? i p m = none) {replicas : Replicas}
    (hconsents : p.Consents d.replicas replicas) {dispatch : Gossip.Dispatch} {pending : List Gossip.Member}
    {tracker : Tracker} {store : Membership.Store} {interrupted : Bool} :
    d.Advance ({ d with replicas }.put i { p with dispatch, pending, tracker, store, interrupted }) i m p
      { p with dispatch, pending, tracker, store, interrupted } := by
  refine ⟨hp, rfl, rfl, rfl, rfl, by rw [he]; rfl, .apart, fun e hevent => ?_, .inl, hconsents, fun hm => ?_⟩
  · rw [he] at hevent
    cases hevent
  · subst hm
    cases he

theorem withReplica_of_site {α : Type} (hp : d.site? i = some p)
    (f : Replicas → Nat → Raft.Outcome Table.Machine α) : d.withReplica i f =
      ({ d with replicas := (f d.replicas p.replica).network }, (f d.replicas p.replica).answer) := by
  simp only [withReplica, hp]

/-- The bridge changes nothing but the store of its site and the voters. -/
theorem take_of_site (hp : d.site? i = some p) (timeout : Nat) (store : Membership.Store) (m : Gossip.Member)
    (kind : Gossip.EventKind) : ∃ replicas,
      (Membership.Bridge.take (host i) timeout (d, store) m kind).1 = { d with replicas } ∧
      p.Consents d.replicas replicas := by
  cases kind with
  | join =>
    simp only [Membership.Bridge.take, Membership.Bridge.join]
    split
    · exact ⟨_, rfl, .apart⟩
    · split
      · rename_i r _ _
        refine ⟨_, ?_, .addVoter r.id r.consensusAddress 0⟩
        show (d.withReplica i fun n k => n.addVoter k r.id r.consensusAddress 0).1 = _
        rw [withReplica_of_site hp]
      · exact ⟨_, rfl, .apart⟩
  | leave | failed | reap | update => exact ⟨_, rfl, .apart⟩

theorem bridge?_advance (hp : d.site? i = some p) (h : d.bridge? i p = some d') :
    ∃ p', d.Advance d' i .bridge p p' := by
  unfold bridge? at h
  split at h
  · rename_i kind ms m rest hphase hpending
    obtain ⟨replicas, htake, hconsents⟩ := take_of_site hp p.config.reconfigTimeout p.store m kind
    generalize Membership.Bridge.take (host i) p.config.reconfigTimeout (d, p.store) m kind = s at h htake
    obtain ⟨d₁, store⟩ := s
    cases h
    cases htake
    exact ⟨_, .of_aside hp rfl hconsents⟩
  · cases h
    exact ⟨_, .of_aside hp rfl .apart⟩
  · cases h

/-- What a move is to the run of its site, and to the networks. -/
theorem step?_advance (h : d.step? i m = some d') : ∃ p p', d.Advance d' i m p p' := by
  have hstep := h
  obtain ⟨p, hp, h⟩ := Option.bind_eq_some_iff.mp h
  refine ⟨p, ?_⟩
  have hrecord : ∀ {m : Move} {e : Event} (tracker : Site → Tracker),
      ((p.record? e).bind fun q => some (d.put i { q with tracker := tracker q })) = some d' →
      d.event? i p m = some e → e.stops? ≠ some .stopGossip → m ≠ .stopConsensus →
      ∃ p', d.Advance d' i m p p' := by
    intro m e tracker h he hasked hstop
    obtain ⟨q, hq, h⟩ := Option.bind_eq_some_iff.mp h
    cases h
    exact ⟨_, .of_record hp hq he hasked hstop⟩
  cases m with
  | prepare =>
    obtain ⟨q, hq, h⟩ := Option.bind_eq_some_iff.mp h
    split at h
    · rename_i hanswer
      cases h
      obtain ⟨run, hrun, rfl⟩ := Option.map_eq_some_iff.mp hq
      refine ⟨_, hp, rfl, rfl, rfl, rfl, hrun, .apart, fun e he hstops => ?_, .inl, .apart,
        fun hm => (by cases hm)⟩
      cases he
      change (Event.prepared (d.prepare p).2).stops? = _ at hstops
      rw [show (d.prepare p).2 = .ok () from hanswer] at hstops
      cases hstops
    · cases h
      exact Advance.of_beginTeardown hp hq rfl (by simp) rfl rfl rfl
  | begin w =>
    cases w with
    | teardown =>
      obtain ⟨q, hq, h⟩ := Option.bind_eq_some_iff.mp h
      cases h
      exact Advance.of_beginTeardown hp hq rfl (by simp) rfl rfl rfl
    | leadership | gossip | http | interrupt => exact hrecord (·.tracker) h rfl (by simp [Event.stops?]) (by simp)
  | notice =>
    dsimp only at h
    split at h
    · obtain ⟨r, -, h⟩ := Option.bind_eq_some_iff.mp h
      obtain ⟨tracker, -, h⟩ := Option.bind_eq_some_iff.mp h
      cases h
      exact ⟨_, .of_aside hp rfl .apart⟩
    · cases h
  | startGossip =>
    obtain ⟨q, hq, h⟩ := Option.bind_eq_some_iff.mp h
    obtain ⟨run, hrun, rfl⟩ := Option.map_eq_some_iff.mp hq
    cases h
    refine ⟨_, hp, rfl, rfl, rfl, rfl, hrun, .start, fun _ he hs => (by cases he; cases hs),
      fun hstarted => ?_, .apart, fun hm => (by cases hm)⟩
    rcases p.gossip.start_cases d.network with ⟨e, h⟩ | ⟨_, mailbox, -, -, -, h⟩
    · change (p.gossip.start d.network).2.1.started = true at hstarted
      rw [h] at hstarted
      exact .inl hstarted
    · exact .inr (by rw [event?, h])
  | joinGossip =>
    obtain ⟨q, hq, h⟩ := Option.bind_eq_some_iff.mp h
    obtain ⟨run, hrun, rfl⟩ := Option.map_eq_some_iff.mp hq
    cases h
    exact ⟨_, hp, rfl, rfl, rfl, rfl, hrun, .join p.config.joinAddresses,
      fun _ he hs => (by cases he; cases hs), .inl, .apart, fun hm => (by cases hm)⟩
  | noticeGossipGone | closeHttp | interrupt =>
    dsimp only at h
    split at h
    · exact hrecord (·.tracker) h rfl (by simp [Event.stops?]) (by simp)
    · cases h
  | bind | signal | finish | collect => exact hrecord (·.tracker) h rfl (by simp [Event.stops?]) (by simp)
  | release w =>
    cases w with
    | leadership => exact hrecord (·.tracker.stop) h rfl (by simp [Event.stops?]) (by simp)
    | gossip | http | interrupt | teardown => exact hrecord (·.tracker) h rfl (by simp [Event.stops?]) (by simp)
  | leaveGossip =>
    dsimp only at h
    split at h
    · cases h
    · exact hrecord (·.tracker) h rfl (by simp [Event.stops?]) (by simp)
  | stopConsensus =>
    obtain ⟨q, hq, h⟩ := Option.bind_eq_some_iff.mp h
    obtain ⟨run, hrun, rfl⟩ := Option.map_eq_some_iff.mp hq
    cases h
    have hreplica := withReplica_of_site hp Raft.Network.shutdown
    refine ⟨{ p with run }, hp, ?_, rfl, rfl, rfl, hrun, ?_, fun _ he hs => (by cases he; cases hs),
      .inl, ?_, fun _ => ?_⟩
    · show (d.withReplica i Raft.Network.shutdown).1.sites.set i _ = _
      rw [sites_withReplica]
    · show p.Gossips d.network (d.withReplica i Raft.Network.shutdown).1.network p.gossip
      rw [hreplica]
      exact .apart
    · show p.Consents d.replicas (d.withReplica i Raft.Network.shutdown).1.replicas
      rw [hreplica]
      exact .shutdown
    · show (d.withReplica i Raft.Network.shutdown).1.replicas = _
      rw [hreplica]
  | lookForSignal | takeEvent | handEvent =>
    obtain ⟨q, k, isOpen, dispatch, hq, -, -, rfl⟩ := step?_dispatch (by simp) hstep
    obtain rfl := Option.some.inj (hp.symm.trans hq)
    exact ⟨_, .of_aside hp rfl .apart⟩
  | bridge => exact bridge?_advance hp h
  | interruptFromOutside =>
    cases h
    exact ⟨_, .of_aside hp rfl .apart⟩
  | stopGossipFromOutside =>
    cases h
    refine ⟨{ p with gossip := (p.gossip.requestStop d.network).2 }, hp, rfl, rfl, rfl, rfl, rfl, .stop,
      fun _ he => (by cases he), fun hstarted => .inl ?_, .apart, fun hm => (by cases hm)⟩
    change (p.gossip.requestStop d.network).2.started = true at hstarted
    rwa [requestStop_engine] at hstarted

end Deployment

end ReplicatedTable.Node
