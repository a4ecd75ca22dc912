import ReplicatedTable.Proofs.Gossip.Hearsay
import ReplicatedTable.Proofs.Gossip.Reception
import ReplicatedTable.Proofs.Membership.Bridge
import ReplicatedTable.Proofs.Node.Surroundings
import ReplicatedTable.Proofs.Raft.Electorate
import ReplicatedTable.Proofs.Raft.Joining
import ReplicatedTable.Proofs.Text.Parts

/-!
# The address that a node advertises

A node registers its replica at an address and puts the same text into the tag of its gossip member. Others read
the tag without blanks at its ends, and ask for a voter at the address that they have read. All that goes round
about nodes comes from their settings (`Truthful`), so whatever happens, whoever has a record of a node has the
trimmed address in it. If there are no blanks at its ends this is where the replica is: a seed is not moved when
it hears of itself, and other nodes are reached when they are admitted (`advertised`). With blanks a seed gives
itself up for a voter at an address where nobody is (`seed_moves_away`).
-/
namespace ReplicatedTable.Node

open Config Text
open Gossip (Member Liveness)

/-! ## What a site asks for, and gets to know -/

namespace Site

variable {p p' : Site} {n n' : Gossip.Network} {g : Gossip.Engine} {P : Member → Prop}

/-- A site brings no member into the network but its own. -/
theorem Gossips.every (h : p.Gossips n n' g) (hn : n.Every P) (hmember : P p.gossip.member)
    (hP : ∀ m status, P m → P { m with status := status }) : n'.Every P := by
  cases h with
  | apart => exact hn
  | start =>
    rcases p.gossip.start_cases n with ⟨e, h⟩ | ⟨n', mailbox, -, -, hregister, h⟩ <;> rw [h]
    · exact hn
    · exact hn.register hmember hregister
  | join addresses =>
    rw [Gossip.Engine.join_network]
    exact hn.mergeAll _
  | stop =>
    unfold Gossip.Engine.requestStop
    split
    · exact hn
    · dsimp only
      split
      · exact hn.depart hP _ _ _
      · exact hn

/-- What a site asks of the replicas are operations on them. -/
theorem Consents.run {n n' : Replicas} (h : p.Consents n n') : ∃ ops, n' = n.run ops := by
  cases h with
  | apart => exact ⟨[], rfl⟩
  | addVoter id address prev => exact ⟨[.addVoter p.replica id address prev], rfl⟩
  | shutdown => exact ⟨[.shutdown p.replica], rfl⟩

/-- The members that the event is about which the dispatch task holds. -/
def held (p : Site) : List Member := p.dispatch.phase.held.flatMap fun e => e.reports.map Prod.snd

/-- What a site gets to know by a move: what it holds was sent, and what the bridge has in its hands was held. It
records what events say of members. -/
structure Learns (p : Site) (n : Gossip.Network) (p' : Site) : Prop where
  held : ∀ m ∈ p'.held, m ∈ p.held ∨ ∃ k, ∃ e ∈ n.sent k, ∃ r ∈ e.reports, r.2 = m
  pending : ∀ m ∈ p'.pending, m ∈ p.pending ∨ m ∈ p.held
  store : p'.store = p.store ∨ ∃ m ∈ p.pending, ∃ kind, p'.store = p.store.note (kind, m)

theorem Learns.nothing (hdispatch : p'.dispatch = p.dispatch) (hpending : p'.pending = p.pending)
    (hstore : p'.store = p.store) : p.Learns n p' :=
  ⟨fun _ hm => .inl (by rwa [Site.held, hdispatch] at hm), fun _ hm => .inl (hpending ▸ hm), .inl hstore⟩

/-- The dispatch task takes an event that was sent, and what it hands out is what it has held. -/
theorem learns_dispatch {k : Nat} {isOpen : Bool} {dispatch : Gossip.Dispatch}
    (hturn : p.dispatch.Turn (n.sent k) isOpen p.gossip.stopped p.gossip.handler dispatch) :
    p.Learns n { p with dispatch, pending := dispatch.phase.members } := by
  refine ⟨fun m hm => ?_, fun m hm => ?_, .inl rfl⟩
  · cases hturn with
    | takes hphase he =>
      rw [Site.held, Gossip.Phase.held, List.flatMap_singleton, List.mem_map] at hm
      obtain ⟨r, hr, rfl⟩ := hm
      exact .inr ⟨k, _, List.mem_of_getElem? he, r, hr, rfl⟩
    | looks | stops | returns | ends | hands | drops => cases hm
  · cases hturn with
    | @hands e hphase hh =>
      refine .inr ?_
      rw [Site.held, hphase, Gossip.Phase.held, List.flatMap_singleton]
      cases e with
      | members kind ms => exact List.mem_map.mpr ⟨(kind, m), List.mem_map.mpr ⟨m, hm, rfl⟩, rfl⟩
      | user => cases hm
    | looks | stops | takes | returns | ends | drops => cases hm

end Site

namespace Deployment

variable {d d' : Deployment} {i : Nat} {p : Site} {m : Move}

theorem bridge?_learns (h : d.bridge? i p = some d') :
    ∃ p', d'.sites = d.sites.set i p' ∧ p.Learns d.network p' := by
  unfold bridge? at h
  split at h
  · rename_i kind ms m rest hphase hpending
    have hstore := Membership.Bridge.take_store (host i) p.config.reconfigTimeout (d, p.store) m kind
    have hsites := sites_take d i p.config.reconfigTimeout p.store m kind
    generalize Membership.Bridge.take (host i) p.config.reconfigTimeout (d, p.store) m kind = s
      at h hstore hsites
    cases h
    refine ⟨_, by rw [sites_put, hsites], fun x hx => .inl ?_, fun x hx => .inl ?_, .inr ⟨m, ?_, kind, hstore⟩⟩
    · exact hx
    · rw [hpending]
      exact List.mem_cons_of_mem _ hx
    · rw [hpending]
      exact List.mem_cons_self
  · rename_i e hphase hpending
    cases h
    refine ⟨_, rfl, fun m hm => ?_, fun _ hx => absurd hx List.not_mem_nil, .inl rfl⟩
    rw [Site.held, Gossip.Dispatch.finish, hphase] at hm
    cases hm
  · cases h

theorem step?_learns (h : d.step? i m = some d') (hp : d.site? i = some p) :
    ∃ p', d'.sites = d.sites.set i p' ∧ p.Learns d.network p' := by
  by_cases hdispatch : m = .lookForSignal ∨ m = .takeEvent ∨ m = .handEvent
  · obtain ⟨q, k, isOpen, dispatch, hq, -, hturn, rfl⟩ := step?_dispatch hdispatch h
    obtain rfl := Option.some.inj (hp.symm.trans hq)
    exact ⟨_, rfl, Site.learns_dispatch hturn⟩
  by_cases hbridge : m = .bridge
  · subst hbridge
    obtain ⟨q, hq, hmove⟩ := Option.bind_eq_some_iff.mp h
    obtain rfl := Option.some.inj (hp.symm.trans hq)
    exact bridge?_learns hmove
  -- no other move touches what the dispatch task and the bridge have in their hands, or the store
  obtain ⟨q, p', hq, hsites, hturn⟩ := step?_turn h
  obtain rfl := Option.some.inj (hp.symm.trans hq)
  refine ⟨p', hsites, ?_⟩
  cases hturn with
  | dispatch hm => exact absurd hm hdispatch
  | bridge => exact absurd rfl hbridge
  | event | notice | startGossip | stopGossip | leaveGossip | interruptFromOutside
  | stopGossipFromOutside => exact .nothing rfl rfl rfl

/-! ## Whatever happens -/

/-- What may happen to a deployment: a node is launched, a task makes a move, somebody does something with the
replicas, or a member crashes or is given up. -/
inductive Happening where
  | launch (c : NodeConfig) (bind : Except IoFault Unit)
  | move (i : Nat) (m : Move)
  | replicas (op : Raft.Network.Op Table.Machine)
  | fail (name : String)
  | reap (name : String)

/-- Moves that are not possible do nothing. -/
def happen (d : Deployment) : Happening → Deployment
  | .launch c bind => (d.launch c bind).1
  | .move i m => (d.step? i m).getD d
  | .replicas op => { d with replicas := (d.replicas.step op).network }
  | .fail name => { d with network := (d.network.fail name).1 }
  | .reap name => { d with network := (d.network.reap name).1 }

def elapse (d : Deployment) (hs : List Happening) : Deployment := hs.foldl happen d

/-! ## What is said of nodes -/

/-- The settings of all nodes, each with the number of its replica. -/
def seats (d : Deployment) : List (NodeConfig × Nat) := d.sites.map fun p => (p.config, p.replica)

/-- What gossip says of a node. -/
def described (c : NodeConfig) (status : Liveness) : Member := { memberOf c with status }

/-- What is recorded of a node. -/
def recordOf (c : NodeConfig) (status : Membership.Presence) : Membership.Record :=
  ⟨c.nodeId, c.gossipAddress, trim c.consensusAddress, status⟩

/-- It is one of these nodes of which gossip says this. -/
def OfNode (seats : List (NodeConfig × Nat)) (m : Member) : Prop :=
  ∃ s ∈ seats, ∃ status, m = described s.1 status

/-- It is one of these nodes that is recorded like this under its name. -/
def Noted (seats : List (NodeConfig × Nat)) (x : String) (r : Membership.Record) : Prop :=
  ∃ s ∈ seats, s.1.nodeId = x ∧ ∃ status, r = recordOf s.1 status

variable {c : NodeConfig} {bind : Except IoFault Unit} {status : Liveness} {l l' : List (NodeConfig × Nat)}
  {x : String} {r : Membership.Record}

theorem tag_described : (described c status).tags[Membership.addressTag]? = some c.consensusAddress := by
  simp [described, memberOf, Membership.addressTag]

theorem record_of_described (h : Membership.described? (described c status) = some r) :
    r = recordOf c (.ofLiveness status) := by
  obtain ⟨address, haddress, rfl⟩ := Option.map_eq_some_iff.mp h
  obtain ⟨-, tag, htag, -, rfl⟩ := Membership.reachedAt?_eq_some_iff.mp haddress
  rw [tag_described] at htag
  cases htag
  rfl

theorem OfNode.mono {m : Member} (h : OfNode l m) (hl : l ⊆ l') : OfNode l' m :=
  let ⟨s, hs, hm⟩ := h
  ⟨s, hl hs, hm⟩

theorem OfNode.withStatus {m : Member} (h : OfNode l m) (status : Liveness) :
    OfNode l { m with status := status } := by
  obtain ⟨s, hs, _, rfl⟩ := h
  exact ⟨s, hs, status, rfl⟩

theorem Noted.mono (h : Noted l x r) (hl : l ⊆ l') : Noted l' x r :=
  let ⟨s, hs, hr⟩ := h
  ⟨s, hl hs, hr⟩

/-- A store in which nodes are recorded takes note of what gossip says of one. -/
theorem noted_note {s : Membership.Store} {m : Member} {kind : Gossip.EventKind}
    (hs : ∀ x r, s.lookup x = some r → Noted l x r) (hm : OfNode l m)
    (hr : (s.note (kind, m)).lookup x = some r) : Noted l x r := by
  rw [Membership.Store.lookup_note] at hr
  rcases Option.or_eq_some_iff.mp hr with hr | ⟨-, hr⟩
  · obtain ⟨seat, hseat, status, rfl⟩ := hm
    cases kind with
    | join | update =>
      simp only [Membership.sighting?, Option.ite_none_right_eq_some] at hr
      exact ⟨seat, hseat, hr.1, _, record_of_described hr.2⟩
    | leave | failed | reap => cases hr
  · obtain ⟨old, hold, rfl⟩ := Option.map_eq_some_iff.mp hr
    obtain ⟨seat, hseat, hx, _, rfl⟩ := hs x old hold
    exact ⟨seat, hseat, hx, _, rfl⟩

/-- A site says of itself what it was told, and has no more than that of others. -/
structure Sincere (l : List (NodeConfig × Nat)) (p : Site) : Prop where
  seat : (p.config, p.replica) ∈ l
  member : p.gossip.member = memberOf p.config
  held : ∀ m ∈ p.held, OfNode l m
  pending : ∀ m ∈ p.pending, OfNode l m
  store : ∀ x r, p.store.lookup x = some r → Noted l x r

theorem Sincere.mono {p : Site} (h : Sincere l p) (hl : l ⊆ l') : Sincere l' p :=
  ⟨hl h.seat, h.member, fun m hm => (h.held m hm).mono hl, fun m hm => (h.pending m hm).mono hl,
    fun x r hr => (h.store x r hr).mono hl⟩

/-- All that goes round about nodes comes from their settings. -/
structure Truthful (d : Deployment) : Prop where
  reached : ∃ ops, d.replicas = Raft.Network.run {} ops
  /-- Replicas are named like their nodes, and at the addresses that these were told. -/
  seated : ∀ s ∈ d.seats, d.replicas.roster[s.2]? = some (s.1.nodeId, s.1.consensusAddress)
  /-- No two nodes have one replica. -/
  apart : (d.seats.map Prod.snd).Nodup
  network : d.network.Every (OfNode d.seats)
  sites : ∀ p ∈ d.sites, Sincere d.seats p

open Raft.Network (wired_empty wired_run roster_run run_append)

theorem truthful_empty : Truthful {} where
  reached := ⟨[], rfl⟩
  seated _ hs := absurd hs List.not_mem_nil
  apart := .nil
  network := Gossip.Network.every_empty
  sites _ hp := absurd hp List.not_mem_nil

theorem Truthful.wired (h : Truthful d) : d.replicas.Wired := by
  obtain ⟨ops, h⟩ := h.reached
  exact h ▸ wired_run wired_empty ops

theorem Truthful.bounded (h : Truthful d) : d.replicas.Everywhere Raft.Replica.Bounded := by
  obtain ⟨ops, h⟩ := h.reached
  exact h ▸ Raft.Network.run_bounded ops

/-- Replicas keep their names and addresses. -/
theorem Truthful.seated_run (h : Truthful d) (ops : List (Raft.Network.Op Table.Machine)) {s : NodeConfig × Nat}
    (hs : s ∈ d.seats) : (d.replicas.run ops).roster[s.2]? = some (s.1.nodeId, s.1.consensusAddress) := by
  obtain ⟨new, hnew, -⟩ := roster_run h.wired ops
  rw [hnew, List.getElem?_append_left (List.getElem?_eq_some_iff.mp (h.seated s hs)).1]
  exact h.seated s hs

/-- The replicas go on, and so does the network, while the sites stay as they are. -/
theorem Truthful.elsewhere (h : Truthful d) (ops : List (Raft.Network.Op Table.Machine)) {n : Gossip.Network}
    (hn : n.Every (OfNode d.seats)) : Truthful { d with replicas := d.replicas.run ops, network := n } where
  reached :=
    let ⟨before, e⟩ := h.reached
    ⟨before ++ ops, by rw [run_append, ← e]⟩
  seated _ hs := h.seated_run ops hs
  apart := h.apart
  network := hn
  sites := h.sites

theorem seats_of_set {p p' : Site} (hp : d.site? i = some p) (hsites : d'.sites = d.sites.set i p')
    (hconfig : p'.config = p.config) (hreplica : p'.replica = p.replica) : d'.seats = d.seats := by
  obtain ⟨hi, hp⟩ := List.getElem?_eq_some_iff.mp hp
  have hseat : (p'.config, p'.replica) = (d.sites[i].config, d.sites[i].replica) := by
    rw [hp, hconfig, hreplica]
  rw [seats, hsites, List.map_set, hseat, ← List.map_set, List.set_getElem_self]
  rfl

theorem Truthful.step (h : Truthful d) (hstep : d.step? i m = some d') :
    Truthful d' ∧ d'.seats = d.seats := by
  obtain ⟨p, p', hadvance⟩ := step?_advance hstep
  obtain ⟨q, hsites, hlearns⟩ := step?_learns hstep hadvance.site
  have hi : i < d.sites.length := (List.getElem?_eq_some_iff.mp hadvance.site).1
  -- there is one site that the move leaves behind
  obtain rfl : p' = q := by
    have hsame : (d.sites.set i p')[i]? = (d.sites.set i q)[i]? := by rw [← hadvance.sites, hsites]
    rw [List.getElem?_set_self hi, List.getElem?_set_self hi] at hsame
    exact Option.some.inj hsame
  have hseats := seats_of_set hadvance.site hsites hadvance.config hadvance.replica
  have hp := h.sites p (List.mem_of_getElem? hadvance.site)
  obtain ⟨ops, hops⟩ := hadvance.consents.run
  refine ⟨⟨?_, fun s hs => ?_, hseats ▸ h.apart, ?_, fun q hq => ?_⟩, hseats⟩
  · obtain ⟨before, e⟩ := h.reached
    exact ⟨before ++ ops, by rw [run_append, ← e, hops]⟩
  · rw [hops]
    exact h.seated_run ops (hseats ▸ hs)
  · rw [hseats]
    refine hadvance.gossips.every h.network ?_ fun m status hm => hm.withStatus status
    rw [hp.member]
    exact ⟨_, hp.seat, .alive, rfl⟩
  · rw [hseats]
    rw [hsites] at hq
    rcases List.mem_or_eq_of_mem_set hq with hq | rfl
    · exact h.sites q hq
    refine ⟨?_, ?_, fun m hm => ?_, fun m hm => (hlearns.pending m hm).elim (hp.pending m) (hp.held m),
      fun x r hr => ?_⟩
    · rw [hadvance.config, hadvance.replica]
      exact hp.seat
    · rw [hadvance.gossips.member, hp.member, hadvance.config]
    · rcases hlearns.held m hm with hm | ⟨k, e, he, r, hr, rfl⟩
      · exact hp.held m hm
      · exact h.network.sent he r hr
    · rcases hlearns.store with hstore | ⟨m, hm, kind, hstore⟩ <;> rw [hstore] at hr
      · exact hp.store x r hr
      · exact noted_note hp.store (hp.pending m hm) hr

/-! ## Launching -/

/-- The site of a node as it is launched. -/
def siteOf (c : NodeConfig) (bind : Except IoFault Unit) (replica : Nat) : Site where
  config := c
  replica := replica
  bind := bind
  run := { seed := c.seed, joinAddresses := c.joinAddresses }
  gossip := { member := memberOf c, handler := true }

/-- The replica of a node as it is launched. -/
def replicaOf (c : NodeConfig) : Raft.Replica Table.Machine :=
  let r := Raft.Replica.fresh c.nodeId c.consensusAddress {}
  if c.seed then r.founded else r

@[simp] theorem replicaOf_id : (replicaOf c).id = c.nodeId := by
  unfold replicaOf
  dsimp only
  split <;> simp [Raft.Replica.fresh, Raft.Replica.founded]

@[simp] theorem replicaOf_address : (replicaOf c).address = c.consensusAddress := by
  unfold replicaOf
  dsimp only
  split <;> simp [Raft.Replica.fresh, Raft.Replica.founded]

@[simp] theorem replicaOf_dropped : (replicaOf c).dropped = false := by
  unfold replicaOf
  dsimp only
  split <;> simp [Raft.Replica.fresh, Raft.Replica.founded]

/-- A seed begins as the leader of a group in which it is the only voter. -/
theorem replicaOf_seed (hseed : c.seed = true) : (replicaOf c).leader = true ∧
    (replicaOf c).voters = (∅ : Raft.Voters).insert c.nodeId c.consensusAddress := by
  unfold replicaOf
  simp [hseed, Raft.Replica.fresh, Raft.Replica.founded]

/-- The replicas with the one of a new node. -/
def enrol (n : Replicas) (c : NodeConfig) : Replicas :=
  { n with
    replicas := n.replicas ++ [replicaOf c]
    registry := n.registry.insert c.consensusAddress n.replicas.length }

theorem roster_enrol (n : Replicas) : (enrol n c).roster = n.roster ++ [(c.nodeId, c.consensusAddress)] := by
  simp [enrol, Raft.Network.roster]

theorem replica?_enrol (n : Replicas) : (enrol n c).replica? n.replicas.length = some (replicaOf c) :=
  Raft.Network.replica?_eq_some.mpr ⟨List.getElem?_concat_length, replicaOf_dropped⟩

theorem resolve?_enrol (n : Replicas) :
    (enrol n c).resolve? c.consensusAddress = some n.replicas.length := by
  rw [Raft.Network.resolve?, show (enrol n c).registry[c.consensusAddress]? = some n.replicas.length from
    Std.ExtTreeMap.getElem?_insert_self, Option.filter_some, replica?_enrol]
  rfl

/-- The replica is registered, and that of a seed forms its group. -/
theorem enrol_eq {n : Replicas} (hfree : n.resolve? c.consensusAddress = none) :
    ∃ n', n.register c.nodeId c.consensusAddress ({} : Table.Machine) = (n', .ok n.replicas.length) ∧
      (if c.seed then (n'.bootstrap n.replicas.length).network else n') = enrol n c := by
  let r : Raft.Replica Table.Machine := Raft.Replica.fresh c.nodeId c.consensusAddress {}
  let n' : Replicas := { n with
    replicas := n.replicas ++ [r]
    registry := n.registry.insert c.consensusAddress n.replicas.length }
  refine ⟨n', by simp [Raft.Network.register, hfree, n', r, Raft.Replica.fresh], ?_⟩
  have hr : n'.replica? n.replicas.length = some r :=
    Raft.Network.replica?_eq_some.mpr ⟨List.getElem?_concat_length, rfl⟩
  split
  · rename_i hseed
    have hbootstrap : (n'.bootstrap n.replicas.length).network = n'.put n.replicas.length r.founded := by
      rw [Raft.Network.bootstrap, Raft.Network.withReplica, hr]
      rfl
    rw [hbootstrap, enrol, replicaOf, if_pos hseed, Raft.Network.put]
    simp [n', r]
  · rename_i hseed
    rw [enrol, replicaOf, if_neg hseed]

/-- The address is in use, or there is one more node, at a site of its own. -/
theorem launch_cases (d : Deployment) (c : NodeConfig) (bind : Except IoFault Unit) :
    ((d.launch c bind).1 = d ∧ ∃ e, (d.launch c bind).2 = .error e) ∨
    (∃ ops, enrol d.replicas c = d.replicas.run ops) ∧
      d.launch c bind = ({ d with
        replicas := enrol d.replicas c
        sites := d.sites ++ [siteOf c bind d.replicas.replicas.length] }, .ok d.sites.length) := by
  unfold launch
  cases hfree : d.replicas.resolve? c.consensusAddress with
  | some j => exact .inl (by simp [Raft.Network.register, hfree])
  | none =>
    obtain ⟨n', hregister, henrol⟩ := enrol_eq hfree
    refine .inr ⟨?_, by rw [hregister, ← henrol]; rfl⟩
    have hrun : n' = d.replicas.run [.register c.nodeId c.consensusAddress {}] :=
      (congrArg Prod.fst hregister).symm
    by_cases hseed : c.seed = true
    · rw [← henrol, if_pos hseed, hrun]
      exact ⟨[_, .bootstrap d.replicas.replicas.length], rfl⟩
    · rw [← henrol, if_neg hseed]
      exact ⟨_, hrun⟩

theorem Truthful.launch (h : Truthful d) (c : NodeConfig) (bind : Except IoFault Unit) :
    Truthful (d.launch c bind).1 ∧ ∃ more, (d.launch c bind).1.seats = d.seats ++ more := by
  rcases launch_cases d c bind with ⟨e, -⟩ | ⟨⟨ops, hops⟩, e⟩ <;> rw [e]
  · exact ⟨h, [], (List.append_nil _).symm⟩
  have hseats : ({ d with
      replicas := enrol d.replicas c
      sites := d.sites ++ [siteOf c bind d.replicas.replicas.length] } : Deployment).seats =
      d.seats ++ [(c, d.replicas.replicas.length)] := by
    simp [seats, siteOf]
  have hlength : d.replicas.roster.length = d.replicas.replicas.length := List.length_map _
  have hbelow : ∀ s ∈ d.seats, s.2 < d.replicas.replicas.length := fun s hs =>
    hlength ▸ (List.getElem?_eq_some_iff.mp (h.seated s hs)).1
  refine ⟨⟨?_, fun s hs => ?_, ?_, ?_, fun p hp => ?_⟩, _, hseats⟩
  · obtain ⟨before, e⟩ := h.reached
    exact ⟨before ++ ops, by rw [run_append, ← e]; exact hops⟩
  · dsimp only
    rw [roster_enrol]
    rw [hseats] at hs
    rcases List.mem_append.mp hs with hs | hs
    · rw [List.getElem?_append_left (hlength ▸ hbelow s hs)]
      exact h.seated s hs
    · rw [List.mem_singleton.mp hs, ← hlength]
      exact List.getElem?_concat_length
  · rw [hseats, List.map_append]
    refine List.nodup_append.mpr ⟨h.apart, List.nodup_singleton _, fun k hk l hl => ?_⟩
    obtain ⟨s, hs, rfl⟩ := List.mem_map.mp hk
    rw [List.map_singleton, List.mem_singleton] at hl
    exact hl ▸ Nat.ne_of_lt (hbelow s hs)
  · exact hseats ▸ h.network.mono fun m hm => hm.mono (List.subset_append_left ..)
  · rw [hseats]
    rcases List.mem_append.mp hp with hp | hp
    · exact (h.sites p hp).mono (List.subset_append_left ..)
    · rw [List.mem_singleton.mp hp]
      refine ⟨List.mem_append_right _ (List.mem_singleton_self _), rfl, nofun, nofun, fun x r hr => ?_⟩
      cases Std.ExtTreeMap.getElem?_empty.symm.trans hr

theorem Truthful.happen (h : Truthful d) (e : Happening) :
    Truthful (d.happen e) ∧ ∃ more, (d.happen e).seats = d.seats ++ more := by
  have hstatus : ∀ m status, OfNode d.seats m → OfNode d.seats { m with status := status } :=
    fun _ status hm => hm.withStatus status
  cases e with
  | launch c bind => exact h.launch c bind
  | move i m =>
    rw [Deployment.happen]
    cases hstep : d.step? i m with
    | none => exact ⟨h, [], (List.append_nil _).symm⟩
    | some d' =>
      obtain ⟨h', hseats⟩ := h.step hstep
      exact ⟨h', [], hseats.trans (List.append_nil _).symm⟩
  | replicas op => exact ⟨h.elsewhere [op] h.network, [], (List.append_nil _).symm⟩
  | fail name => exact ⟨h.elsewhere [] (h.network.fail hstatus name), [], (List.append_nil _).symm⟩
  | reap name => exact ⟨h.elsewhere [] (h.network.reap name), [], (List.append_nil _).symm⟩

theorem Truthful.elapse (h : Truthful d) (es : List Happening) :
    Truthful (d.elapse es) ∧ ∃ more, (d.elapse es).seats = d.seats ++ more := by
  induction es generalizing d with
  | nil => exact ⟨h, [], (List.append_nil _).symm⟩
  | cons e es ih =>
    obtain ⟨h', new, hnew⟩ := h.happen e
    obtain ⟨h'', more, hmore⟩ := ih h'
    exact ⟨h'', new ++ more, hmore.trans (by rw [hnew, List.append_assoc])⟩

/-! ## What comes of a Join -/

theorem named_of_validate (hvalid : c.validate = .ok ()) :
    blank c.nodeId = false ∧ blank c.consensusAddress = false := by
  unfold NodeConfig.validate at hvalid
  cases hid : blank c.nodeId <;> cases haddress : blank c.consensusAddress <;>
    simp [hid, haddress] at hvalid ⊢

/-- A node that can run has a record. -/
theorem ofMember_described (hvalid : c.validate = .ok ()) (status : Liveness) :
    Membership.Record.ofMember (described c status) = .ok (recordOf c (.ofLiveness status)) := by
  obtain ⟨hid, haddress⟩ := named_of_validate hvalid
  have hname : blank (described c status).name = false := hid
  have htrim : trim c.consensusAddress ≠ "" := fun h => by
    rw [(trim_eq_empty_iff _).mp h] at haddress
    cases haddress
  rw [Membership.Record.ofMember, hname, tag_described, Option.map_some]
  simp only [Bool.false_eq_true, if_false, htrim]
  rfl

/-- What the replicas come to when a site hears of a node that has joined: a leader asks for a voter. -/
def greet (n : Replicas) (q : Site) (c : NodeConfig) : Replicas :=
  if q.tracker.leader then (n.addVoter q.replica c.nodeId (trim c.consensusAddress) 0).network else n

variable {j : Nat} {q : Site} {ms rest : List Member}

/-- The bridge takes a Join of a node: it is recorded, and by a leader admitted. -/
theorem step?_join (hvalid : c.validate = .ok ()) (hq : d.site? j = some q)
    (hphase : q.dispatch.phase = .handling (.members .join ms))
    (hpending : q.pending = described c status :: rest) :
    d.step? j .bridge = some ({ d with replicas := greet d.replicas q c }.put j { q with
      store := q.store.insert (recordOf c (.ofLiveness status)), pending := rest }) := by
  have hadd : q.store.add (described c status) =
      .ok (q.store.insert (recordOf c (.ofLiveness status)), recordOf c (.ofLiveness status)) := by
    rw [Membership.Store.add, ofMember_described hvalid]
    rfl
  have hleads : (host j).leads d = q.tracker.leader := by
    show ((d.site? j).map (·.tracker.leader)).getD false = _
    rw [hq]
    rfl
  have htake : Membership.Bridge.take (host j) q.config.reconfigTimeout (d, q.store) (described c status) .join =
      ({ d with replicas := greet d.replicas q c }, q.store.insert (recordOf c (.ofLiveness status))) := by
    rw [Membership.Bridge.take, Membership.Bridge.join, hadd, greet]
    dsimp only
    rw [hleads]
    split
    · refine congrArg (·, _) ?_
      show (d.withReplica j fun n k => n.addVoter k c.nodeId (trim c.consensusAddress) 0).1 = _
      rw [withReplica_of_site hq]
    · rfl
  show (d.site? j).bind (fun q => d.bridge? j q) = _
  rw [hq, Option.bind_some, bridge?, hphase, hpending]
  dsimp only
  rw [htake]

open Raft.Network (peer?_eq_some mem_reachable replica?_eq_some roster_getElem? widens_or_idle adopt Informed)

/-- What it is worth for the replica of a node, with a number, that a site hears of the node. -/
structure Greeted (n : Replicas) (q : Site) (c : NodeConfig) (k : Nat) : Prop where
  /-- Without blanks, a voter that is there at its address stays, be it the node itself or another one. -/
  stays : trim c.consensusAddress = c.consensusAddress → ∀ l, n.replica? q.replica = some l →
    l.voters[c.nodeId]? = some c.consensusAddress → greet n q c = n
  /-- Without blanks, a leader that admits another node reaches it if neither is cut off, and makes itself and its
  voters known there unless that one is ahead. -/
  reaches : trim c.consensusAddress = c.consensusAddress → q.replica ≠ k → q.tracker.leader = true →
    ∀ l f, n.replica? q.replica = some l → l.leader = true → l.stopped = false →
      l.voters[c.nodeId]? ≠ some c.consensusAddress → n.replica? k = some f → f.stopped = false →
      l.address ∉ n.isolated → c.consensusAddress ∉ n.isolated →
      k ∈ n.reachable (l.widened c.nodeId c.consensusAddress) ∧
      (greet n q c).replica? k = some (adopt (l.widened c.nodeId c.consensusAddress) f) ∧
      (f.term ≤ l.term → Informed (l.widened c.nodeId c.consensusAddress)
        (adopt (l.widened c.nodeId c.consensusAddress) f))
  /-- With blanks, a leader moves a voter away from its address, be it the leader itself. -/
  moves : trim c.consensusAddress ≠ c.consensusAddress → q.tracker.leader = true →
    ∀ l, n.replica? q.replica = some l → l.leader = true → l.stopped = false →
      l.voters[c.nodeId]? = some c.consensusAddress →
      (greet n q c).replica? q.replica = some (l.widened c.nodeId (trim c.consensusAddress))
  /-- With blanks, another node is not reached, unless some other voter is at its address. -/
  misses : trim c.consensusAddress ≠ c.consensusAddress → q.replica ≠ k →
    (∀ l, n.replica? q.replica = some l → ∀ id : String, l.voters[id]? ≠ some c.consensusAddress) →
    (greet n q c).replica? k = n.replica? k

theorem Truthful.greeted (h : Truthful d) {k : Nat} (hseat : (c, k) ∈ d.seats) (q : Site) :
    Greeted d.replicas q c k := by
  have hw := h.wired
  have hb := h.bounded
  have hroster := h.seated _ hseat
  have haddress : ∀ f, d.replicas.replicas[k]? = some f → f.address = c.consensusAddress := fun f hf => by
    have hname := (roster_getElem? hf).symm.trans hroster
    exact congrArg Prod.snd (Option.some.inj hname)
  generalize d.replicas = n at hw hb hroster haddress ⊢
  constructor
  · intro htrim l hl hv
    rw [greet]
    split
    · rw [htrim]
      rcases widens_or_idle hw hl c.nodeId c.consensusAddress 0 with hwiden | ⟨e, -⟩
      · exact absurd hv hwiden.new
      · exact e
    · rfl
  · intro htrim hne hleads l f hl hleader hrunning hnew hf hfrunning hcut hcut'
    obtain ⟨hat, hd⟩ := replica?_eq_some.mp hf
    have hreg := hw.listed k f hat hfrunning hd
    rw [haddress f hat] at hreg
    have hpeer : n.peer? l.address c.consensusAddress = some k := peer?_eq_some.mpr ⟨hcut, hcut', hreg, f, hf⟩
    have hreach := hw.reaches hl hrunning hpeer (Ne.symm hne) c.nodeId
    have hwiden : n.Widens q.replica l c.nodeId c.consensusAddress 0 := ⟨hl, hrunning, hleader, .inl rfl, hnew⟩
    refine ⟨hreach, ?_, fun hterm => Raft.Network.adopt_informed hfrunning
      (show f.term ≤ (l.widened c.nodeId c.consensusAddress).term from hterm)⟩
    rw [greet, if_pos hleads, htrim]
    exact hwiden.addVoter_peer hw hb hreach hf
  · intro htrim hleads l hl hleader hrunning hv
    have hnew : l.voters[c.nodeId]? ≠ some (trim c.consensusAddress) := fun h => by
      rw [hv] at h
      exact htrim (Option.some.inj h).symm
    rw [greet, if_pos hleads]
    exact Raft.Network.Widens.addVoter_self ⟨hl, hrunning, hleader, .inl rfl, hnew⟩ hw
  · intro htrim hne hnone
    rw [greet]
    split
    · cases hl : n.replica? q.replica with
      | none => simp [Raft.Network.addVoter, Raft.Network.withReplica, hl, Raft.Network.refuse]
      | some l =>
        rcases widens_or_idle hw hl c.nodeId (trim c.consensusAddress) 0 with hwiden | ⟨e, -⟩
        · refine hwiden.addVoter_other hw hne fun hmem => ?_
          -- the only replica at an address is the one that was registered there
          obtain ⟨id, a, ha, -, hpeer⟩ := mem_reachable.mp hmem
          obtain ⟨-, -, hreg, -⟩ := peer?_eq_some.mp hpeer
          obtain ⟨f, hf, rfl, -⟩ := hw.leads _ _ hreg
          rw [haddress f hf] at ha
          rw [Raft.Replica.widened, Gossip.getElem?_insert] at ha
          split at ha
          · exact htrim (Option.some.inj ha)
          · exact hnone l hl id ha
        · rw [e]
    · rfl

/-! ## What a node advertises -/

/-- Where a node is that was launched at a site, and what is known of it. -/
structure Advertised (d : Deployment) (i : Nat) (c : NodeConfig) (k : Nat) : Prop where
  site : ∃ p, d.site? i = some p ∧ p.config = c ∧ p.replica = k
  /-- Nobody else has its replica. -/
  alone : ∀ j q, d.site? j = some q → q.replica = k → j = i
  /-- Its replica has its name and its address, and answers there while it runs. -/
  replica : ∃ r, d.replicas.replicas[k]? = some r ∧ r.id = c.nodeId ∧ r.address = c.consensusAddress ∧
    (r.stopped = false → r.dropped = false → d.replicas.resolve? c.consensusAddress = some k)
  /-- What anybody says or has recorded of any node comes from the settings of one. -/
  sincere : ∀ q ∈ d.sites, Sincere d.seats q
  /-- Whoever has recorded the node has its trimmed address, if no other node takes its name for another one. -/
  recorded : (∀ s ∈ d.seats, s.1.nodeId = c.nodeId → s.1.consensusAddress = c.consensusAddress) →
    ∀ q ∈ d.sites, ∀ r, q.store.lookup c.nodeId = some r → r.consensusAddress = trim c.consensusAddress
  /-- Whoever takes a Join of the node records it, and a leader asks for a voter at the address recorded. -/
  joins : ∀ j q status ms rest, d.site? j = some q → q.dispatch.phase = .handling (.members .join ms) →
    q.pending = described c status :: rest →
    d.step? j .bridge = some ({ d with replicas := greet d.replicas q c }.put j { q with
      store := q.store.insert (recordOf c (.ofLiveness status)), pending := rest }) ∧
    Greeted d.replicas q c k

theorem Truthful.known (h : Truthful d) {k : Nat} (hvalid : c.validate = .ok ())
    (hi : d.seats[i]? = some (c, k)) : Advertised d i c k := by
  have hseat := List.mem_of_getElem? hi
  have hroster := h.seated _ hseat
  refine ⟨?_, fun j q hq hk => ?_, ?_, h.sites, fun hname q hq r hr => ?_,
    fun j q status ms rest hq hphase hpending => ⟨step?_join hvalid hq hphase hpending, h.greeted hseat q⟩⟩
  · rw [seats, List.getElem?_map] at hi
    obtain ⟨p, hp, e⟩ := Option.map_eq_some_iff.mp hi
    exact ⟨p, hp, congrArg Prod.fst e, congrArg Prod.snd e⟩
  · have hj : d.seats[j]? = some (q.config, q.replica) := by
      rw [seats, List.getElem?_map, show d.sites[j]? = some q from hq]
      rfl
    have hnumbers : (d.seats.map Prod.snd)[j]? = (d.seats.map Prod.snd)[i]? := by
      rw [List.getElem?_map, List.getElem?_map, hj, hi, Option.map_some, Option.map_some, hk]
    have hlt : j < (d.seats.map Prod.snd).length := by
      rw [List.length_map]
      exact (List.getElem?_eq_some_iff.mp hj).1
    exact (List.getElem?_inj hlt h.apart).mp hnumbers
  · rw [Raft.Network.roster, List.getElem?_map] at hroster
    obtain ⟨r, hr, e⟩ := Option.map_eq_some_iff.mp hroster
    obtain ⟨hid, haddress⟩ := Prod.mk.inj e
    refine ⟨r, hr, hid, haddress, fun hs hd => ?_⟩
    have hreg := h.wired.listed k r hr hs hd
    rw [haddress] at hreg
    rw [Raft.Network.resolve?, hreg, Option.filter_some, replica?_eq_some.mpr ⟨hr, hd⟩]
    rfl
  · obtain ⟨s, hs, hx, status, rfl⟩ := (h.sites q hq).store _ r hr
    exact congrArg trim (hname s hs hx)

/-- A node that can run has a record, and its replica is at the address that it was told; that of a seed leads a
group in which it is the only voter. Whatever happens later, the replica is there until it is shut down, and
whoever has recorded the node has this address without blanks at its ends. So if it has none, a seed that takes
its own Join changes nothing, and any other node is reached by the leader that takes its Join. With blanks the
seed is moved away, and the other node is not reached. -/
theorem advertised {before : List Happening} (hvalid : c.validate = .ok ())
    (hlaunch : (elapse {} before).launch c bind = (d, .ok i)) :
    Membership.Record.ofMember (memberOf c) = .ok (recordOf c .alive) ∧
    ∃ k r, d.replicas.resolve? c.consensusAddress = some k ∧ d.replicas.replica? k = some r ∧
      (c.seed = true → r.leader = true ∧ r.voters = (∅ : Raft.Voters).insert c.nodeId c.consensusAddress) ∧
      ∀ after, Advertised (d.elapse after) i c k := by
  obtain ⟨hbefore, -⟩ := truthful_empty.elapse before
  generalize elapse {} before = d₀ at hlaunch hbefore
  obtain ⟨h, -⟩ := hbefore.launch c bind
  refine ⟨ofMember_described hvalid .alive, d₀.replicas.replicas.length, replicaOf c, ?_⟩
  rcases launch_cases d₀ c bind with ⟨-, e, he⟩ | ⟨-, e⟩
  · rw [hlaunch] at he
    cases he
  rw [e] at hlaunch h
  cases hlaunch
  refine ⟨resolve?_enrol _, replica?_enrol _, replicaOf_seed, fun after => ?_⟩
  obtain ⟨hafter, more, hmore⟩ := h.elapse after
  refine hafter.known hvalid ?_
  have hi : (({ d₀ with
      replicas := enrol d₀.replicas c
      sites := d₀.sites ++ [siteOf c bind d₀.replicas.replicas.length] } : Deployment).seats)[d₀.sites.length]? =
      some (c, d₀.replicas.replicas.length) := by
    simp [seats, siteOf]
  rw [hmore, List.getElem?_append_left (List.getElem?_eq_some_iff.mp hi).1]
  exact hi

/-- The settings of a seed. -/
def seedAt (address : String) : NodeConfig where
  nodeId := "a"
  seed := true
  gossipAddress := "a:7946"
  consensusAddress := address

/-- The settings of a node that joins the seed. -/
def guestAt (address : String) : NodeConfig where
  nodeId := "b"
  joinAddresses := ["a:7946"]
  gossipAddress := "b:7946"
  consensusAddress := address

/-- The seed has the Join of itself in its hands. -/
def hearsItself : List Happening :=
  [.move 0 .prepare, .move 0 (.begin .leadership), .move 0 .notice, .move 0 (.begin .gossip),
    .move 0 .startGossip, .move 0 .lookForSignal, .move 0 .takeEvent, .move 0 .handEvent]

/-- Later on it has the Join of the other node. -/
def hearsGuest : List Happening := hearsItself ++
  [.move 0 .bridge, .move 0 .bridge, .move 1 .prepare, .move 1 (.begin .gossip), .move 1 .startGossip,
    .move 1 .joinGossip, .move 0 .lookForSignal, .move 0 .takeEvent, .move 0 .handEvent]

/-- Both nodes, at an address without blanks each. -/
def couple : Deployment :=
  ((elapse {} [.launch (seedAt "a:9000") (.ok ())]).launch (guestAt "b:9000") (.ok ())).1

/-- The guest is admitted by the seed, and knows it from then on. -/
theorem advertised_guest : ∃ d l f, (couple.elapse hearsGuest).step? 0 .bridge = some d ∧
    (couple.elapse hearsGuest).replicas.replica? 0 = some l ∧ l.address = "a:9000" ∧
    d.replicas.replica? 1 = some f ∧ Informed (l.widened "b" "b:9000") f := by
  have hlaunch : (elapse {} [.launch (seedAt "a:9000") (.ok ())]).launch (guestAt "b:9000") (.ok ()) =
      (couple, .ok 1) := Prod.ext rfl (by decide +kernel)
  obtain ⟨-, k, -, hk, -, -, hadvertised⟩ := advertised (by decide +kernel) hlaunch
  have hone : couple.replicas.resolve? (guestAt "b:9000").consensusAddress = some 1 := by decide +kernel
  obtain rfl := Option.some.inj (hk.symm.trans hone)
  have hsite : ((couple.elapse hearsGuest).site? 0).any (fun q => decide (
      q.dispatch.phase = .handling (.members .join [described (guestAt "b:9000") .alive]) ∧
      q.pending = [described (guestAt "b:9000") .alive] ∧ q.replica = 0 ∧ q.tracker.leader = true)) = true := by
    decide +kernel
  have hleader : ((couple.elapse hearsGuest).replicas.replica? 0).any (fun l => decide (
      l.leader = true ∧ l.stopped = false ∧ l.address = "a:9000" ∧ l.voters["b"]? ≠ some "b:9000" ∧
        l.term = 1)) = true := by
    decide +kernel
  have hguest : ((couple.elapse hearsGuest).replicas.replica? 1).any (fun f => decide (
      f.stopped = false ∧ f.term = 0)) = true := by
    decide +kernel
  have hwhole : (couple.elapse hearsGuest).replicas.isolated = ∅ := by decide +kernel
  obtain ⟨q, hq, hsite⟩ := (Option.any_eq_true _ _).mp hsite
  obtain ⟨hphase, hpending, hreplica, hleads⟩ := of_decide_eq_true hsite
  obtain ⟨l, hl, hleader⟩ := (Option.any_eq_true _ _).mp hleader
  obtain ⟨hleader, hrunning, haddress, hnew, hterm⟩ := of_decide_eq_true hleader
  obtain ⟨f, hf, hguest⟩ := (Option.any_eq_true _ _).mp hguest
  obtain ⟨hfrunning, hfterm⟩ := of_decide_eq_true hguest
  obtain ⟨hstep, hgreeted⟩ := (hadvertised hearsGuest).joins 0 q .alive _ [] hq hphase hpending
  have hcut : ∀ address, address ∉ (couple.elapse hearsGuest).replicas.isolated := by simp [hwhole]
  obtain ⟨-, hadopted, hinformed⟩ := hgreeted.reaches (by decide +kernel) (by simp [hreplica]) hleads l f
    (hreplica ▸ hl) hleader hrunning hnew hf hfrunning (hcut _) (hcut _)
  exact ⟨_, l, _, hstep, hl, haddress, hadopted, hinformed (by omega)⟩

/-- With blanks at the ends of its address a seed can run as well. But as it takes the Join of itself, it records
another address than the one where its replica is, and moves itself there, where nobody answers. -/
theorem seed_moves_away : (seedAt " a:9000 ").validate = .ok () ∧
    ∃ d d' p, elapse {} (.launch (seedAt " a:9000 ") (.ok ()) :: hearsItself) = d ∧
      d.step? 0 .bridge = some d' ∧ d'.site? 0 = some p ∧
      (p.store.lookup "a").map (·.consensusAddress) = some "a:9000" ∧
      d'.replicas.resolve? " a:9000 " = some 0 ∧ d'.replicas.resolve? "a:9000" = none ∧
      (d.replicas.replica? 0).map (·.voters["a"]?) = some (some " a:9000 ") ∧
      (d'.replicas.replica? 0).map (·.voters["a"]?) = some (some "a:9000") := by
  have hrun : (((elapse {} (.launch (seedAt " a:9000 ") (.ok ()) :: hearsItself)).step? 0 .bridge).any fun d' =>
      (d'.site? 0).any fun p => decide (
        (p.store.lookup "a").map (·.consensusAddress) = some "a:9000" ∧
        d'.replicas.resolve? " a:9000 " = some 0 ∧ d'.replicas.resolve? "a:9000" = none ∧
        (d'.replicas.replica? 0).map (·.voters["a"]?) = some (some "a:9000"))) = true := by
    decide +kernel
  obtain ⟨d', hd', hrun⟩ := (Option.any_eq_true _ _).mp hrun
  obtain ⟨p, hp, hrun⟩ := (Option.any_eq_true _ _).mp hrun
  obtain ⟨hrecorded, hhere, hnobody, hmoved⟩ := of_decide_eq_true hrun
  exact ⟨by decide +kernel, _, d', p, rfl, hd', hp, hrecorded, hhere, hnobody, by decide +kernel, hmoved⟩

end Deployment

end ReplicatedTable.Node
