import ReplicatedTable.Node.Move
import ReplicatedTable.Proofs.Gossip.Reception
import ReplicatedTable.Proofs.Node.Teardown

/-!
# What a move does to its site

A move leaves all sites but its own alone, and to that it does one of a few things (`Site.Turn`): the run goes
on by an event, the gossip engine is started or told to stop, the dispatch task or the bridge takes a step, or
something comes from outside (`step?_turn`). Of the events of a run only some ask for an engine to be stopped
(`Event.stops?`), and that for the gossip engine comes once (`Run.Reached.stopGossip_once`).
-/
namespace ReplicatedTable.Node

/-! ## Calls of a run -/

/-- The engine that the node asks to stop because of an event. -/
def Event.stops? : Event → Option Call
  | .prepared (.error _) | .began .teardown => some .stopGossip
  | .gossipStopped _ => some .stopConsensus
  | _ => none

theorem Event.ofStopping_of_stops (e : Event) {c : Call} (h : e.stops? = some c) :
    (Moment.asked c).ofStopping = true := by
  unfold stops? at h
  split at h <;> cases h <;> rfl

theorem Serving.mem_calls_of_stops {seed : Bool} {joinAddresses : List String} {s s' : Serving} {e : Event}
    {calls : List Call} {c : Call} (h : s.step? seed joinAddresses e = some (s', calls))
    (he : e.stops? = some c) : c ∈ calls := by
  unfold Event.stops? at he
  split at he
  · cases h
  · obtain ⟨g, -, hs⟩ := Option.map_eq_some_iff.mp h
    cases he
    cases hs
    exact List.mem_singleton_self _
  · simp only [Serving.step?] at h
    split at h <;> cases h
    cases he
    exact List.mem_singleton_self _
  · cases he

theorem Serving.Turn.stops_of_mem {s s' : Serving} {e : Event} {calls : List Call} {c : Call}
    (h : s.Turn e s' calls) (hmem : c ∈ calls) (hc : (Moment.asked c).ofStopping = true) :
    e.stops? = some c := by
  cases h with
  | acts gossip http owing hg hnone hends htold he hcalls | works gossip http hnone hends he hcalls =>
    rw [hcalls c hmem] at hc
    cases hc
  | begin hg =>
    rw [List.mem_singleton.mp hmem]
    rfl
  | gossipStopped answer ht =>
    rw [List.mem_singleton.mp hmem]
    rfl
  | retires | consensusStopped => cases hmem

namespace Run

variable {r r' : Run} {e : Event} {es : List Event} {ms : List Moment} {c : Call}

/-- The run has come from its beginning by events. -/
def Reached (r : Run) : Prop :=
  ∃ es, ({ seed := r.seed, joinAddresses := r.joinAddresses } : Run).run? es = some r

theorem reached_start (seed : Bool) (joinAddresses : List String) :
    ({ seed, joinAddresses } : Run).Reached := ⟨[], rfl⟩

theorem Reached.step (h : r.Reached) (hstep : r.step? e = some r') : r'.Reached := by
  obtain ⟨es, hes⟩ := h
  obtain ⟨stage, calls, rfl, -⟩ := step?_turn hstep
  exact ⟨es ++ [e], by rw [run?_concat, show (r.goTo stage calls).seed = r.seed from rfl,
    show (r.goTo stage calls).joinAddresses = r.joinAddresses from rfl, hes]; exact hstep⟩

theorem calls_step (h : r.step? e = some r') : r'.calls = r.calls ++ r.asked r' := by
  obtain ⟨stage, calls, rfl, -⟩ := step?_turn h
  rw [asked_goTo]
  rfl

/-- The calls of a run are what was asked at some moment. -/
theorem mem_calls_iff (h : r.run? es = some r') :
    c ∈ r'.calls ↔ c ∈ r.calls ∨ .asked c ∈ r.moments es := by
  induction es generalizing r with
  | nil =>
    cases h
    simp [moments]
  | cons e es ih =>
    obtain ⟨x, hx, hrest⟩ := Option.bind_eq_some_iff.mp h
    rw [ih hrest, calls_step hx]
    simp [moments, hx, or_assoc]

theorem Reached.accounts (h : r.Reached) :
    ∃ es ms, Accounts r.stage es ms ∧ ∀ c, c ∈ r.calls ↔ .asked c ∈ ms := by
  obtain ⟨es, hes⟩ := h
  refine ⟨es, _, run_accounts hes, fun c => ?_⟩
  simpa using mem_calls_iff (c := c) hes

theorem mem_asked_of_stops (h : r.step? e = some r') (he : e.stops? = some c) : c ∈ r.asked r' := by
  unfold step? at h
  split at h
  · cases he
  · cases h
    cases he
    simp
  · cases h
    cases he
    simp
  · cases he
  · obtain ⟨⟨s', calls⟩, hs, rfl⟩ := Option.map_eq_some_iff.mp h
    rw [asked_goTo]
    exact Serving.mem_calls_of_stops hs he
  · cases h

theorem stops_of_mem_asked (h : r.step? e = some r') (hmem : c ∈ r.asked r')
    (hc : (Moment.asked c).ofStopping = true) : e.stops? = some c := by
  obtain ⟨stage, calls, rfl, hturn⟩ := step?_turn h
  rw [asked_goTo] at hmem
  cases hturn with
  | started hr => cases hmem
  | failed why hr =>
    rw [List.mem_singleton.mp hmem]
    rfl
  | gossipStopped gossip hr =>
    rw [List.mem_singleton.mp hmem]
    rfl
  | consensusStopped consensus hr => cases hmem
  | serving hr hs => exact hs.stops_of_mem hmem hc

/-- Of the calls that stop an engine, an event adds its own. -/
theorem mem_calls_step (h : r.step? e = some r') (hc : (Moment.asked c).ofStopping = true) :
    c ∈ r'.calls ↔ c ∈ r.calls ∨ e.stops? = some c := by
  rw [calls_step h, List.mem_append]
  exact or_congr_right ⟨fun hmem => stops_of_mem_asked h hmem hc, mem_asked_of_stops h⟩

/-- What was seen of the stopping of the engines before one of them is asked to stop. -/
theorem Accounts.before_stops (h : Accounts r.stage es ms) (hstep : r.step? e = some r')
    (he : e.stops? = some c) :
    c = .stopGossip ∧ ms.filter Moment.ofStopping = [] ∨
      c = .stopConsensus ∧ ms.filter Moment.ofStopping = [.asked .stopGossip] := by
  obtain ⟨stage, calls, rfl, hturn⟩ := step?_turn hstep
  have hmem := mem_asked_of_stops hstep he
  have hc := e.ofStopping_of_stops he
  rw [asked_goTo] at hmem
  have hstops : ∀ {t : Teardown} {seen : List Moment}, t.Shows seen →
      (t = .idle → seen = []) ∧ (t = .stoppingGossip → seen = [.asked .stopGossip]) := by
    intro t seen hshows
    cases hshows <;> simp
  cases hturn with
  | started hr => cases hmem
  | failed why hr =>
    rw [hr] at h
    cases h
    cases he
    exact .inl ⟨rfl, rfl⟩
  | gossipStopped gossip hr =>
    rw [hr] at h
    cases he
    cases h with
    | abandoning _ _ hshows => exact .inr ⟨rfl, (hstops hshows).2 rfl⟩
  | consensusStopped consensus hr => cases hmem
  | serving hr hs =>
    rw [hr] at h
    cases h with
    | serving hfits =>
      cases hs with
      | acts gossip http owing hg hnone hends htold hother hcalls | works gossip http hnone hends hother hcalls =>
        rw [hcalls c hmem] at hc
        cases hc
      | begin hg =>
        cases he
        exact .inl ⟨rfl, (hstops hfits.shows).1 (hfits.idle_of_begin hg)⟩
      | gossipStopped answer ht =>
        cases he
        exact .inr ⟨rfl, (hstops hfits.shows).2 ht⟩
      | retires | consensusStopped => cases hmem

/-- The gossip engine is asked to stop once. -/
theorem Reached.stopGossip_once (h : r.Reached) (hstep : r.step? e = some r')
    (he : e.stops? = some .stopGossip) : .stopGossip ∉ r.calls := by
  obtain ⟨es, ms, haccounts, hcalls⟩ := h.accounts
  intro hmem
  have hseen : .asked .stopGossip ∈ ms.filter Moment.ofStopping :=
    List.mem_filter.mpr ⟨(hcalls _).mp hmem, rfl⟩
  obtain ⟨-, hnone⟩ | ⟨hc, -⟩ := haccounts.before_stops hstep he
  · rw [hnone] at hseen
    cases hseen
  · cases hc

/-- When the consensus engine is asked to stop, the gossip engine was before. -/
theorem Reached.stopGossip_before (h : r.Reached) (hstep : r.step? e = some r')
    (he : e.stops? = some .stopConsensus) : .stopGossip ∈ r.calls := by
  obtain ⟨es, ms, haccounts, hcalls⟩ := h.accounts
  obtain ⟨hc, -⟩ | ⟨-, hone⟩ := haccounts.before_stops hstep he
  · cases hc
  · have hseen : .asked .stopGossip ∈ ms.filter Moment.ofStopping := hone ▸ List.mem_singleton_self _
    exact (hcalls _).mpr (List.mem_filter.mp hseen).1

end Run

/-! ## Moves of a site -/

/-- What a move may do to the site that makes it. -/
inductive Site.Turn (p : Site) : Move → Site → Prop where
  /-- The run goes on by an event because of which no engine is asked to stop. -/
  | event {m : Move} {e : Event} {run : Run} (tracker : Tracker) (h : p.run.step? e = some run)
    (he : e.stops? = none) : Turn p m { p with run, tracker }
  | notice (tracker : Tracker) : Turn p .notice { p with tracker }
  | startGossip {run : Run} (n : Gossip.Network)
    (h : p.run.step? (.gossipStarted (p.gossip.start n).2.2) = some run) :
    Turn p .startGossip { p with run, gossip := (p.gossip.start n).2.1 }
  /-- The node asks its gossip engine to stop. -/
  | stopGossip {m : Move} {e : Event} {run : Run} (h : p.run.step? e = some run)
    (he : e.stops? = some .stopGossip) :
    Turn p m { p with
      run, gossip := { p.gossip with stopped := true }
      teardownWaits := !p.gossip.stopped && p.gossip.mailbox.isSome }
  | leaveGossip {run : Run} (h : p.run.step? (.gossipStopped (.ok ())) = some run)
    (hwaits : p.teardownWaits = true → p.dispatch.phase = .ended) : Turn p .leaveGossip { p with run }
  | dispatch {m : Move} {k : Nat} {sent : List Gossip.Event} {isOpen : Bool} {dispatch : Gossip.Dispatch}
    (hm : m = .lookForSignal ∨ m = .takeEvent ∨ m = .handEvent) (hk : p.gossip.mailbox = some k)
    (h : p.dispatch.Turn sent isOpen p.gossip.stopped p.gossip.handler dispatch) :
    Turn p m { p with dispatch, pending := dispatch.phase.members }
  | bridge {e : Gossip.Event} {dispatch : Gossip.Dispatch} (store : Membership.Store)
    (pending : List Gossip.Member) (hphase : p.dispatch.phase = .handling e)
    (h : dispatch = p.dispatch ∨ dispatch = p.dispatch.finish) :
    Turn p .bridge { p with dispatch, store, pending }
  | interruptFromOutside : Turn p .interruptFromOutside { p with interrupted := true }
  | stopGossipFromOutside :
    Turn p .stopGossipFromOutside { p with gossip := { p.gossip with stopped := true } }

theorem requestStop_engine (e : Gossip.Engine) (n : Gossip.Network) :
    (e.requestStop n).2 = { e with stopped := true } := by
  unfold Gossip.Engine.requestStop
  split
  · rename_i hstopped
    cases e
    cases hstopped
    rfl
  · rfl

namespace Deployment

variable {d d' : Deployment} {i : Nat} {p : Site} {m : Move}

theorem sites_put (d : Deployment) (i : Nat) (p : Site) : (d.put i p).sites = d.sites.set i p := rfl

theorem sites_withReplica {α : Type} (d : Deployment) (i : Nat)
    (f : Replicas → Nat → Raft.Outcome Table.Machine α) : (d.withReplica i f).1.sites = d.sites := by
  unfold withReplica
  split <;> rfl

/-- What the bridge does with a member is no matter for the sites. -/
theorem sites_take (d : Deployment) (i timeout : Nat) (store : Membership.Store) (m : Gossip.Member)
    (kind : Gossip.EventKind) :
    (Membership.Bridge.take (host i) timeout (d, store) m kind).1.sites = d.sites := by
  cases kind with
  | join =>
    simp only [Membership.Bridge.take, Membership.Bridge.join]
    split
    · rfl
    · split
      · rename_i r _ _
        exact sites_withReplica d i fun n k => n.addVoter k r.id r.consensusAddress 0
      · rfl
  | leave | failed | reap | update => rfl

theorem sites_beginTeardown (d : Deployment) (hi : i < d.sites.length) (p : Site) :
    (d.beginTeardown i p).sites = d.sites.set i { p with
      gossip := { p.gossip with stopped := true }
      teardownWaits := !p.gossip.stopped && p.gossip.mailbox.isSome } := by
  simp only [beginTeardown, stopGossip, put, requestStop_engine]
  rw [List.modify_eq_set_getElem?, List.getElem?_set_self hi]
  exact List.set_set ..

/-- A step of the dispatch task. -/
theorem step?_dispatch (hm : m = .lookForSignal ∨ m = .takeEvent ∨ m = .handEvent) (h : d.step? i m = some d') :
    ∃ p k isOpen dispatch, d.site? i = some p ∧ p.gossip.mailbox = some k ∧
      p.dispatch.Turn (d.network.sent k) isOpen p.gossip.stopped p.gossip.handler dispatch ∧
      d' = d.put i { p with dispatch, pending := dispatch.phase.members } := by
  obtain ⟨p, hp, h⟩ := Option.bind_eq_some_iff.mp h
  refine ⟨p, ?_⟩
  rcases hm with rfl | rfl | rfl <;> obtain ⟨k, hk, h⟩ := Option.bind_eq_some_iff.mp h <;>
    obtain ⟨dispatch, hdispatch, rfl⟩ := Option.map_eq_some_iff.mp h
  · exact ⟨k, true, dispatch, hp, hk, Gossip.Dispatch.look?_turn hdispatch, rfl⟩
  · exact ⟨k, _, dispatch, hp, hk, Gossip.Dispatch.take?_turn hdispatch, rfl⟩
  · exact ⟨k, true, dispatch, hp, hk, Gossip.Dispatch.hand?_turn hdispatch, rfl⟩

theorem bridge?_turn (h : d.bridge? i p = some d') :
    ∃ p', d'.sites = d.sites.set i p' ∧ p.Turn .bridge p' := by
  unfold bridge? at h
  split at h
  · rename_i kind ms m rest hphase hpending
    have hsites := sites_take d i p.config.reconfigTimeout p.store m kind
    generalize Membership.Bridge.take (host i) p.config.reconfigTimeout (d, p.store) m kind = s at h hsites
    cases h
    exact ⟨_, by rw [sites_put, hsites], .bridge s.2 rest hphase (.inl rfl)⟩
  · rename_i hphase hpending
    cases h
    exact ⟨_, rfl, .bridge p.store [] hphase (.inr rfl)⟩
  · cases h

/-- A move changes its own site only, and does one of a few things to it. -/
theorem step?_turn (h : d.step? i m = some d') :
    ∃ p p', d.site? i = some p ∧ d'.sites = d.sites.set i p' ∧ p.Turn m p' := by
  have hstep := h
  obtain ⟨p, hp, h⟩ := Option.bind_eq_some_iff.mp h
  refine ⟨p, ?_⟩
  have hi : i < d.sites.length := (List.getElem?_eq_some_iff.mp hp).1
  -- a move that is an event of the run, and nothing else to the sites
  have hevent : ∀ {m : Move} {e : Event} (next : Site → Deployment) (tracker : Site → Tracker),
      ((p.record? e).bind fun q => some (next q)) = some d' →
      (∀ q, (next q).sites = d.sites.set i { q with tracker := tracker q }) → e.stops? = none →
      ∃ p', d.site? i = some p ∧ d'.sites = d.sites.set i p' ∧ p.Turn m p' := by
    intro m e next tracker h hnext he
    obtain ⟨q, hrecord, h⟩ := Option.bind_eq_some_iff.mp h
    cases h
    obtain ⟨run, hrun, rfl⟩ := Option.map_eq_some_iff.mp hrecord
    exact ⟨_, hp, hnext _, .event _ hrun he⟩
  cases m with
  | prepare =>
    obtain ⟨q, hrecord, h⟩ := Option.bind_eq_some_iff.mp h
    obtain ⟨run, hrun, rfl⟩ := Option.map_eq_some_iff.mp hrecord
    split at h
    · rename_i hanswer
      cases h
      rw [hanswer] at hrun
      exact ⟨_, hp, rfl, .event p.tracker hrun rfl⟩
    · rename_i why hanswer
      cases h
      rw [hanswer] at hrun
      exact ⟨_, hp, sites_beginTeardown _ hi _, .stopGossip hrun rfl⟩
  | begin w =>
    cases w with
    | teardown =>
      obtain ⟨q, hrecord, h⟩ := Option.bind_eq_some_iff.mp h
      cases h
      obtain ⟨run, hrun, rfl⟩ := Option.map_eq_some_iff.mp hrecord
      exact ⟨_, hp, sites_beginTeardown d hi _, .stopGossip hrun rfl⟩
    | leadership | gossip | http | interrupt => exact hevent (d.put i) (·.tracker) h (fun _ => rfl) rfl
  | notice =>
    dsimp only at h
    split at h
    · obtain ⟨r, -, h⟩ := Option.bind_eq_some_iff.mp h
      obtain ⟨tracker, -, h⟩ := Option.bind_eq_some_iff.mp h
      cases h
      exact ⟨_, hp, rfl, .notice tracker⟩
    · cases h
  | startGossip =>
    obtain ⟨q, hrecord, h⟩ := Option.bind_eq_some_iff.mp h
    obtain ⟨run, hrun, rfl⟩ := Option.map_eq_some_iff.mp hrecord
    cases h
    exact ⟨_, hp, rfl, .startGossip d.network hrun⟩
  | joinGossip => exact hevent _ (·.tracker) h (fun _ => rfl) rfl
  | noticeGossipGone | closeHttp | interrupt =>
    dsimp only at h
    split at h
    · exact hevent (d.put i) (·.tracker) h (fun _ => rfl) rfl
    · cases h
  | bind | signal | finish | collect => exact hevent (d.put i) (·.tracker) h (fun _ => rfl) rfl
  | release w =>
    cases w with
    | leadership => exact hevent _ (·.tracker.stop) h (fun _ => rfl) rfl
    | gossip | http | interrupt | teardown => exact hevent (d.put i) (·.tracker) h (fun _ => rfl) rfl
  | leaveGossip =>
    dsimp only at h
    split at h
    · cases h
    · rename_i hwaits
      obtain ⟨q, hrecord, h⟩ := Option.bind_eq_some_iff.mp h
      obtain ⟨run, hrun, rfl⟩ := Option.map_eq_some_iff.mp hrecord
      cases h
      exact ⟨_, hp, rfl, .leaveGossip hrun fun hw => not_not.mp fun hphase => hwaits ⟨hw, hphase⟩⟩
  | stopConsensus =>
    refine hevent _ (·.tracker) h (fun q => ?_) rfl
    show (d.withReplica i _).1.sites.set i q = _
    rw [sites_withReplica]
  | lookForSignal | takeEvent | handEvent =>
    obtain ⟨q, k, isOpen, dispatch, hq, hk, hturn, rfl⟩ := step?_dispatch (by simp) hstep
    obtain rfl := Option.some.inj (hp.symm.trans hq)
    exact ⟨_, hp, rfl, .dispatch (by simp) hk hturn⟩
  | bridge =>
    obtain ⟨p', hsites, hturn⟩ := bridge?_turn h
    exact ⟨p', hp, hsites, hturn⟩
  | interruptFromOutside =>
    cases h
    exact ⟨_, hp, rfl, .interruptFromOutside⟩
  | stopGossipFromOutside =>
    cases h
    refine ⟨_, hp, ?_, .stopGossipFromOutside⟩
    rw [← requestStop_engine p.gossip d.network]
    rfl

end Deployment

end ReplicatedTable.Node
