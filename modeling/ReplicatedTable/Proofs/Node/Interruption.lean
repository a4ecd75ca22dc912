import ReplicatedTable.Proofs.Node.Answer
import ReplicatedTable.Proofs.Node.Quiescence
import ReplicatedTable.Proofs.Node.Surroundings

/-!
# Stopping a node

The tasks of a node may be overtaken by its teardown at any point: its gossip engine may be told to stop before
the gossip task has started it, between the start and the joining, or later. What the site keeps of this in all
orders (`Settled`) is that no task is told an error but the one of a late start, and that what was stopped leaves
nothing in the networks. So a node that finds what it needs stops well, unless gossip is started late
(`stopped_cleanly`); and then it does not (`stopped_late`).
-/
namespace ReplicatedTable.Node

/-- Gossip is started after its engine was told to stop. -/
def Deployment.StartsLate (d : Deployment) (i : Nat) (moves : List (Nat × Move)) : Prop :=
  ∃ before after x p, moves = before ++ (i, .startGossip) :: after ∧ d.run? before = some x ∧
    x.site? i = some p ∧ p.gossip.stopped = true

/-- The events of a run that has gone as it should: it was told no error but that of a late start, and the
address of its replica is free once it knows that the replica has stopped. -/
structure Courses (late : Prop) (d : Deployment) (p : Site) (es : List Event) : Prop where
  run : ({ seed := p.run.seed, joinAddresses := p.run.joinAddresses } : Run).run? es = some p.run
  started : p.gossip.started = true → .gossipStarted (.ok ()) ∈ es
  faults : ∀ e ∈ es, ∀ error, e.fault? = some error → error = .gossip .alreadyStopped ∧ late
  ended : ∀ answer, .consensusStopped answer ∈ es → d.replicas.registry[p.config.consensusAddress]? = none

/-- What a site keeps whose node finds what it needs. -/
structure Settled (c : Config.NodeConfig) (late : Prop) (d : Deployment) (i : Nat) (p : Site) : Prop where
  config : p.config = c
  member : p.gossip.member = Deployment.memberOf c
  bind : p.bind = .ok ()
  /-- Nobody else takes part in gossip under its name or address. -/
  alone : ∀ j q, j ≠ i → d.site? j = some q → q.gossip.member.name = p.gossip.member.name ∨
    q.gossip.member.address = p.gossip.member.address → q.gossip.stopped = true
  vacant : p.gossip.started = false → d.network.Vacant p.gossip.member
  asked : .stopGossip ∈ p.run.calls → p.gossip.stopped = true
  gone : p.gossip.stopped = true → p.gossip.member.name ∉ d.network.slots
  tenancy : d.replicas.Tenancy p.replica p.config.consensusAddress
  course : ∃ es, Courses late d p es

namespace Settled

variable {c : Config.NodeConfig} {late : Prop} {d d' : Deployment} {i j : Nat} {p p' q q' : Site} {m : Move}

theorem mono {late' : Prop} (h : Settled c late d i p) (hlate : late → late') :
    Settled c late' d i p where
  __ := h
  course := by
    obtain ⟨es, hes⟩ := h.course
    exact ⟨es, { hes with faults := fun e he error hfault => (hes.faults e he error hfault).imp_right hlate }⟩

/-- A site is left alone by the moves of others. -/
theorem other (h : Settled c late d i p) (ha : d.Advance d' j m q q') (hji : j ≠ i) : Settled c late d' i p := by
  have hq := h.alone j q hji ha.site
  have hapart : q.gossip.stopped = false → ¬(q.gossip.member.name = p.gossip.member.name ∨
      q.gossip.member.address = p.gossip.member.address) :=
    fun hrunning hsame => absurd (hq hsame) (Bool.eq_false_iff.mp hrunning)
  obtain ⟨htenancy, hfrees⟩ := ha.consents.tenancy h.tenancy
  obtain ⟨es, hes⟩ := h.course
  refine ⟨h.config, h.member, h.bind, fun k x hki hx hsame => ?_, fun hnew x t ht => ?_, h.asked,
    fun hstop hmem => ?_, htenancy, es, { hes with ended := fun answer hknown => hfrees (hes.ended answer hknown) }⟩
  · rw [Deployment.site?, ha.sites, List.getElem?_set] at hx
    split at hx
    · split at hx <;> cases hx
      rw [ha.gossips.member] at hsame
      exact ha.gossips.lasts.2 (hq hsame)
    · exact h.alone k x hki hx hsame
  · rcases ha.gossips.slot ht with ⟨s, hs, haddress⟩ | ⟨⟨hrunning, -⟩, rfl, haddress⟩
    · exact haddress ▸ h.vacant hnew x s hs
    · exact haddress ▸ not_or.mp (hapart hrunning)
  · rcases ha.gossips.slot (Std.ExtTreeMap.getElem?_eq_some_getElem hmem) with
      ⟨s, hs, -⟩ | ⟨⟨hrunning, -⟩, hname, -⟩
    · exact h.gone hstop (Gossip.mem_of_getElem? hs)
    · exact hapart hrunning (.inl hname)

/-- The event of a move tells no error, but for one. -/
theorem fault?_of_event (h : Settled c late d i p) (hp : d.site? i = some p)
    (hprepare : m = .prepare → (d.prepare p).2 = .ok ())
    (hlate : m = .startGossip → p.gossip.stopped = true → late) {run : Run} {e : Event}
    (he : d.event? i p m = some e) (hrun : p.run.step? e = some run) {error : Error}
    (hfault : e.fault? = some error) : error = .gossip .alreadyStopped ∧ late := by
  cases m with
  | prepare =>
    cases he
    rw [hprepare rfl] at hfault
    cases hfault
  | startGossip =>
    cases he
    obtain ⟨es, hes⟩ := h.course
    cases hstopped : p.gossip.stopped with
    | true =>
      simp only [Gossip.Engine.start, hstopped, if_pos] at hfault
      cases hfault
      exact ⟨rfl, hlate rfl hstopped⟩
    | false =>
      cases hs : p.gossip.started with
      | true =>
        rw [Run.gossipStarted_once hes.run (hes.started hs)] at hrun
        cases hrun
      | false =>
        obtain ⟨n, mailbox, hregister⟩ := (h.vacant hs).register
        simp only [Gossip.Engine.start, hstopped, hs, hregister] at hfault
        cases hfault
  | bind =>
    cases he
    rw [h.bind] at hfault
    cases hfault
  | stopConsensus =>
    cases he
    rw [Deployment.withReplica_of_site hp, h.tenancy.ends.1] at hfault
    cases hfault
  | _ => cases he <;> cases hfault

/-- The run goes on by the event of a move. -/
theorem course_own (h : Settled c late d i p) (ha : d.Advance d' i m p p')
    (hprepare : m = .prepare → (d.prepare p).2 = .ok ())
    (hlate : m = .startGossip → p.gossip.stopped = true → late) : ∃ es, Courses late d' p' es := by
  obtain ⟨es, hes⟩ := h.course
  have hended : ∀ answer, .consensusStopped answer ∈ es →
      d'.replicas.registry[p'.config.consensusAddress]? = none := fun answer hknown => by
    rw [ha.config]
    exact (ha.consents.tenancy h.tenancy).2 (hes.ended answer hknown)
  have hrun := ha.run
  cases he : d.event? i p m with
  | none =>
    rw [he] at hrun
    change p'.run = p.run at hrun
    refine ⟨es, ⟨hrun ▸ hes.run, fun hnew => hes.started ?_, hes.faults, hended⟩⟩
    exact (ha.started hnew).resolve_right (by simp [he])
  | some e =>
    rw [he] at hrun
    change p.run.step? e = some p'.run at hrun
    obtain ⟨stage, calls, hgo, -⟩ := Run.step?_turn hrun
    refine ⟨es ++ [e], ⟨?_, fun hnew => ?_, fun x hx error hfault => ?_, fun answer hknown => ?_⟩⟩
    · rw [show p'.run.seed = p.run.seed by rw [hgo]; rfl,
        show p'.run.joinAddresses = p.run.joinAddresses by rw [hgo]; rfl, Run.run?_concat, hes.run]
      exact hrun
    · rw [List.mem_append, List.mem_singleton]
      exact (ha.started hnew).imp hes.started fun hanswer => Option.some.inj (hanswer.symm.trans he)
    · rcases List.mem_append.mp hx with hx | hx
      · exact hes.faults x hx error hfault
      · rw [List.mem_singleton] at hx
        subst hx
        exact h.fault?_of_event ha.site hprepare hlate he hrun hfault
    · rcases List.mem_append.mp hknown with hknown | hknown
      · exact hended answer hknown
      · rw [List.mem_singleton] at hknown
        subst hknown
        have hm : m = .stopConsensus := by
          cases m <;> cases he
          rfl
        rw [ha.stops hm, ha.config]
        exact h.tenancy.ends.2

/-- The moves of a site leave nothing behind. -/
theorem own (h : Settled c late d i p) (ha : d.Advance d' i m p p')
    (hprepare : m = .prepare → (d.prepare p).2 = .ok ())
    (hlate : m = .startGossip → p.gossip.stopped = true → late) : Settled c late d' i p' := by
  have htenancy := (ha.consents.tenancy h.tenancy).1
  rw [← ha.replica, ← ha.config] at htenancy
  have hbefore : p'.gossip.started = false → p.gossip.started = false := fun hnew =>
    Bool.eq_false_iff.mpr fun hs => absurd (ha.gossips.lasts.1 hs) (Bool.eq_false_iff.mp hnew)
  refine ⟨ha.config.trans h.config, ha.gossips.member.trans h.member, ha.bind.trans h.bind,
    fun k x hki hx hsame => ?_, fun hnew x t ht => ?_, fun hcalls => ?_, fun hstop => ?_, htenancy,
    h.course_own ha hprepare hlate⟩
  · rw [Deployment.site?, ha.sites, List.getElem?_set_ne (Ne.symm hki)] at hx
    rw [ha.gossips.member] at hsame
    exact h.alone k x hki hx hsame
  · rw [ha.gossips.member]
    rcases ha.gossips.slot ht with ⟨s, hs, haddress⟩ | ⟨⟨-, hs, -⟩, -⟩
    · exact haddress ▸ h.vacant (hbefore hnew) x s hs
    · rw [hnew] at hs
      cases hs
  · have hrun := ha.run
    cases he : d.event? i p m with
    | none =>
      rw [he] at hrun
      change p'.run = p.run at hrun
      rw [hrun] at hcalls
      exact ha.gossips.lasts.2 (h.asked hcalls)
    | some e =>
      rw [he] at hrun
      rcases (Run.mem_calls_step hrun rfl).mp hcalls with hcalls | hasked
      · exact ha.gossips.lasts.2 (h.asked hcalls)
      · exact ha.asked e he hasked
  · rw [ha.gossips.member]
    exact ha.gossips.gone h.gone (fun hs => (h.vacant hs).not_mem) hstop

end Settled

namespace Deployment

variable {d d' : Deployment} {i : Nat} {p : Site} {c : Config.NodeConfig}

/-- The name and the address of a node are free in the gossip network, and those who may have them do not
take part in gossip any more. -/
structure HasRoom (d : Deployment) (c : Config.NodeConfig) : Prop where
  vacant : d.network.Vacant (memberOf c)
  alone : ∀ q ∈ d.sites, q.gossip.member.name = c.nodeId ∨ q.gossip.member.address = c.gossipAddress →
    q.gossip.stopped = true

theorem settled_launch {late : Prop} (hwired : d.replicas.Wired) (hroom : d.HasRoom c)
    (h : d.launch c (.ok ()) = (d', .ok i)) (hp : d'.site? i = some p) : Settled c late d' i p := by
  unfold launch at h
  split at h
  · cases h
  · rename_i replicas replica hregister
    cases h
    simp only [site?, List.getElem?_concat_length, Option.some.injEq] at hp
    subst hp
    refine ⟨rfl, rfl, rfl, fun j q hji hq hsame => ?_, fun _ => hroom.vacant, by simp, by simp, ?_,
      [], ⟨rfl, by simp, by simp, by simp⟩⟩
    · have hlt := (List.getElem?_eq_some_iff.mp hq).1
      rw [List.length_append, List.length_singleton] at hlt
      have hj : j < d.sites.length := by omega
      rw [site?, List.getElem?_append_left hj] at hq
      exact hroom.alone q (List.mem_of_getElem? hq) hsame
    · have htenancy := Raft.Network.tenancy_register hwired hregister
      show Raft.Network.Tenancy (if c.seed then _ else _) _ _
      split
      · exact htenancy.bootstrap replica
      · exact htenancy

/-- The directories of a node can be made when it makes them. -/
def FindsDirectories (d : Deployment) (i : Nat) (moves : List (Nat × Move)) : Prop :=
  ∀ before after x p, moves = before ++ (i, .prepare) :: after → d.run? before = some x → x.site? i = some p →
    (x.prepare p).2 = .ok ()

theorem settled_run {moves : List (Nat × Move)} (hd : ∀ p late, d.site? i = some p → Settled c late d i p)
    (hdirectories : d.FindsDirectories i moves) (h : d.run? moves = some d') (hp : d'.site? i = some p) :
    Settled c (d.StartsLate i moves) d' i p := by
  induction moves using List.reverseRecOn generalizing d' p with
  | nil =>
    cases h
    exact hd p _ hp
  | append_singleton moves move ih =>
    obtain ⟨j, m⟩ := move
    rw [run?_concat] at h
    obtain ⟨x, hx, hstep⟩ := Option.bind_eq_some_iff.mp h
    have hfinds : d.FindsDirectories i moves := fun before after y q hmoves hy hq =>
      hdirectories before (after ++ [(j, m)]) y q (by rw [hmoves, List.append_assoc, List.cons_append]) hy hq
    have hlater : d.StartsLate i moves → d.StartsLate i (moves ++ [(j, m)]) := by
      rintro ⟨before, after, y, q, hmoves, hlate⟩
      exact ⟨before, after ++ [(j, m)], y, q, by rw [hmoves, List.append_assoc, List.cons_append], hlate⟩
    obtain ⟨q, q', ha⟩ := step?_advance hstep
    have hp' := hp
    rw [site?, ha.sites, List.getElem?_set] at hp'
    split at hp'
    · rename_i hji
      subst hji
      split at hp' <;> cases hp'
      refine ((ih hfinds hx ha.site).mono hlater).own ha (fun hm => ?_) fun hm hstopped => ?_
      · subst hm
        exact hdirectories moves [] x q rfl hx ha.site
      · subst hm
        exact ⟨moves, [], x, q, rfl, hx, ha.site, hstopped⟩
    · rename_i hji
      exact ((ih hfinds hx hp').mono hlater).other ha hji

/-- Whenever and however a node is stopped whose directories, name and addresses can be used: its run answers
well, unless its gossip task comes so late that its engine was told to stop before. Either way the node is
not registered for gossip any more, and the address of its replica is free. -/
theorem stopped_cleanly {d₀ : Deployment} {moves : List (Nat × Move)} {answer : Except Error Unit}
    (hwired : d₀.replicas.Wired) (hroom : d₀.HasRoom c) (hlaunch : d₀.launch c (.ok ()) = (d, .ok i))
    (hdirectories : d.FindsDirectories i moves) (h : d.run? moves = some d') (hp : d'.site? i = some p)
    (hanswer : p.run.answer? = some answer) :
    (answer = .ok () ∨ answer = .error (.gossip .alreadyStopped) ∧ d.StartsLate i moves) ∧
      c.nodeId ∉ d'.network.slots ∧ d'.replicas.resolve? c.consensusAddress = none := by
  have hsettled := settled_run (fun _ _ hp => settled_launch hwired hroom hlaunch hp) hdirectories h hp
  obtain ⟨es, hes⟩ := hsettled.course
  obtain ⟨hasked, consensus, hknown⟩ := Run.stopped_of_answer hes.run hanswer
  refine ⟨(Run.fault?_of_answer hes.run hanswer).imp_right ?_, ?_, ?_⟩
  · rintro ⟨e, he, error, hfault, rfl⟩
    obtain ⟨rfl, hlate⟩ := hes.faults e he error hfault
    exact ⟨rfl, hlate⟩
  · have hgone := hsettled.gone (hsettled.asked hasked)
    rwa [hsettled.member] at hgone
  · rw [Raft.Network.resolve?, ← hsettled.config, hes.ended consensus hknown]
    rfl

/-- The settings of a node that begins alone. -/
def lonely : Config.NodeConfig where
  nodeId := "a"
  seed := true
  gossipAddress := "a:7946"
  consensusAddress := "a:9000"

/-- A node by itself. -/
def alone : Deployment := (({} : Deployment).launch lonely (.ok ())).1

/-- The node is interrupted, and its teardown comes before the gossip task. -/
def overtaken : List (Nat × Move) :=
  [(0, .prepare), (0, .begin .interrupt), (0, .interruptFromOutside), (0, .interrupt), (0, .signal .interrupt),
    (0, .finish .interrupt), (0, .begin .teardown), (0, .leaveGossip), (0, .stopConsensus), (0, .finish .teardown),
    (0, .begin .gossip), (0, .startGossip), (0, .signal .gossip), (0, .finish .gossip), (0, .begin .leadership),
    (0, .release .leadership), (0, .finish .leadership), (0, .begin .http), (0, .bind), (0, .closeHttp),
    (0, .finish .http), (0, .collect), (0, .collect), (0, .collect), (0, .collect), (0, .collect)]

theorem findsDirectories_overtaken : alone.FindsDirectories 0 overtaken := by
  intro before after x p hmoves hx hp
  cases before with
  | nil =>
    cases hx
    have hprepare : (alone.site? 0).all (fun p => (alone.prepare p).2 == .ok ()) = true := by decide +kernel
    rw [hp] at hprepare
    exact eq_of_beq hprepare
  | cons move before =>
    have hagain : (0, Move.prepare) ∈ overtaken.tail := by
      rw [hmoves, List.cons_append, List.tail_cons]
      exact List.mem_append_right _ (List.mem_cons_self ..)
    exact absurd hagain (by decide)

/-- The gossip task takes the stopped engine for a failure, and so does the node. Still it leaves nothing
behind. -/
theorem stopped_late : ∃ d p, alone.run? overtaken = some d ∧ d.site? 0 = some p ∧
    p.run.answer? = some (.error (.gossip .alreadyStopped)) ∧
    "a" ∉ d.network.slots ∧ d.replicas.resolve? "a:9000" = none := by
  have hnumber : (({} : Deployment).launch lonely (.ok ())).2 = .ok 0 := by decide +kernel
  have hlaunch : ({} : Deployment).launch lonely (.ok ()) = (alone, .ok 0) := Prod.ext rfl hnumber
  have hroom : ({} : Deployment).HasRoom lonely := ⟨fun x s hs => (by simp at hs), fun q hq => (by cases hq)⟩
  have hrun : ((alone.run? overtaken).any fun d => (d.site? 0).any fun p =>
      p.run.answer? == some (.error (.gossip .alreadyStopped))) = true := by
    decide +kernel
  obtain ⟨d, hd, hrun⟩ := (Option.any_eq_true _ _).mp hrun
  obtain ⟨p, hp, hrun⟩ := (Option.any_eq_true _ _).mp hrun
  have hanswer := eq_of_beq hrun
  obtain ⟨-, hgone, hfree⟩ :=
    stopped_cleanly Raft.Network.wired_empty hroom hlaunch findsDirectories_overtaken hd hp hanswer
  exact ⟨d, p, hd, hp, hanswer, hgone, hfree⟩

end Deployment

end ReplicatedTable.Node
