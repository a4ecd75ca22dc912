import ReplicatedTable.Proofs.Node.Moves

/-!
# The bridge at rest

A node stops gossip first so that no event reaches a consensus engine that has stopped. The teardown waits for
the dispatch task if it is the first to tell the gossip engine to stop, and else it does not wait. So once the
consensus engine is asked to stop the bridge has no event in its hands and gets none any more, if nobody else
has stopped the gossip engine while one was on its way to the bridge or there (`bridge_rests`). Without that
condition the bridge may go on with its event (`bridge_outlives_consensus`).
-/
namespace ReplicatedTable.Node

namespace Site

variable {p p' : Site} {m : Move}

/-- Neither the bridge nor the dispatch task has an event in its hands, and the dispatch task looks for the signal
before it takes one. -/
def Rests (p : Site) : Prop := p.dispatch.phase = .idle ∨ p.dispatch.phase = .ended

/-- What a site keeps of the stopping of its engines. -/
structure Orderly (p : Site) : Prop where
  reached : p.run.Reached
  /-- Events are read from a mailbox. -/
  idle : p.gossip.mailbox = none → p.dispatch.phase = .idle
  stopped : .stopGossip ∈ p.run.calls → p.gossip.stopped = true
  waits : p.gossip.stopped = true → p.Rests ∨ (.stopGossip ∈ p.run.calls ∧ p.teardownWaits = true)
  rests : .stopConsensus ∈ p.run.calls → p.gossip.stopped = true ∧ p.Rests

/-- An engine that has stopped is not started any more, and nothing takes its mailbox away. -/
theorem start_keeps (g : Gossip.Engine) (n : Gossip.Network) :
    (g.start n).2.1.stopped = g.stopped ∧ ((g.start n).2.1.mailbox = none → g.mailbox = none) := by
  unfold Gossip.Engine.start
  split
  · exact ⟨rfl, id⟩
  · split
    · exact ⟨rfl, id⟩
    · split
      · exact ⟨rfl, id⟩
      · exact ⟨rfl, nofun⟩

/-- An event of the run because of which no engine is asked to stop. -/
theorem Orderly.event (h : p.Orderly) {e : Event} {run : Run} (hrun : p.run.step? e = some run)
    (he : e.stops? = none) (tracker : Tracker) {gossip : Gossip.Engine}
    (hstopped : gossip.stopped = p.gossip.stopped)
    (hmailbox : gossip.mailbox = none → p.gossip.mailbox = none) :
    { p with run, tracker, gossip }.Orderly := by
  have hcalls : ∀ {c : Call}, (Moment.asked c).ofStopping = true → (c ∈ run.calls ↔ c ∈ p.run.calls) := by
    intro c hc
    rw [Run.mem_calls_step hrun hc, he]
    simp
  refine ⟨h.reached.step hrun, fun hnone => h.idle (hmailbox hnone), fun hc => ?_, fun hs => ?_, fun hc => ?_⟩
  · exact hstopped.trans (h.stopped ((hcalls rfl).mp hc))
  · exact (h.waits (hstopped.symm.trans hs)).imp_right fun hw => ⟨(hcalls rfl).mpr hw.1, hw.2⟩
  · exact (h.rests ((hcalls rfl).mp hc)).imp_left hstopped.trans

/-- The node tells its gossip engine to stop. If somebody else did before, the bridge is at rest. -/
theorem Orderly.stopGossip (h : p.Orderly) {e : Event} {run : Run} (hrun : p.run.step? e = some run)
    (he : e.stops? = some .stopGossip) : { p with
      run, gossip := { p.gossip with stopped := true }
      teardownWaits := !p.gossip.stopped && p.gossip.mailbox.isSome }.Orderly := by
  have honce := h.reached.stopGossip_once hrun he
  have hasked : .stopGossip ∈ run.calls := (Run.mem_calls_step hrun rfl).mpr (.inr he)
  refine ⟨h.reached.step hrun, h.idle, fun _ => rfl, fun _ => ?_, fun hc => ?_⟩
  · cases hs : p.gossip.stopped with
    | true => exact .inl ((h.waits hs).resolve_right fun hw => honce hw.1)
    | false =>
      cases hmailbox : p.gossip.mailbox with
      | none => exact .inl (.inl (h.idle hmailbox))
      | some mailbox => exact .inr ⟨hasked, rfl⟩
  · rcases (Run.mem_calls_step hrun rfl).mp hc with hc | hc
    · exact (h.rests hc).imp_left fun _ => rfl
    · rw [he] at hc
      cases hc

/-- The gossip engine has stopped as far as the teardown can tell, which then is so. -/
theorem Orderly.leaveGossip (h : p.Orderly) {run : Run} {answer : Except Error Unit}
    (hrun : p.run.step? (.gossipStopped answer) = some run)
    (hwaits : p.teardownWaits = true → p.dispatch.phase = .ended) : { p with run }.Orderly := by
  have hstopped := h.stopped (h.reached.stopGossip_before hrun rfl)
  have hrests : p.Rests := (h.waits hstopped).elim id fun hw => .inr (hwaits hw.2)
  exact ⟨h.reached.step hrun, h.idle, fun _ => hstopped, fun _ => .inl hrests, fun _ => ⟨hstopped, hrests⟩⟩

/-- A dispatch task at rest stays so once its engine was told to stop. -/
theorem Orderly.dispatch (h : p.Orderly) {k : Nat} {dispatch : Gossip.Dispatch} {sent : List Gossip.Event}
    {isOpen : Bool} (hk : p.gossip.mailbox = some k)
    (hturn : p.dispatch.Turn sent isOpen p.gossip.stopped p.gossip.handler dispatch) :
    { p with dispatch, pending := dispatch.phase.members }.Orderly := by
  have hrests : p.gossip.stopped = true → p.Rests →
      { p with dispatch, pending := dispatch.phase.members }.Rests := by
    intro hs hrests
    cases hturn with
    | looks hphase hrunning =>
      rw [hs] at hrunning
      cases hrunning
    | stops => exact .inr rfl
    | takes hphase | returns hphase | ends hphase | hands hphase | drops hphase =>
      rcases hrests with e | e <;> rw [hphase] at e <;> cases e
  refine ⟨h.reached, fun hnone => ?_, h.stopped, fun hs => (h.waits hs).imp_left (hrests hs), fun hc => ?_⟩
  · cases hk.symm.trans hnone
  · obtain ⟨hs, hbefore⟩ := h.rests hc
    exact ⟨hs, hrests hs hbefore⟩

/-- The bridge goes on with an event, so the consensus engine was not asked to stop. -/
theorem Orderly.bridge (h : p.Orderly) {e : Gossip.Event} (hphase : p.dispatch.phase = .handling e)
    (dispatch : Gossip.Dispatch) (store : Membership.Store) (pending : List Gossip.Member) :
    { p with dispatch, store, pending }.Orderly := by
  have hbusy : ¬p.Rests := by simp [Rests, hphase]
  refine ⟨h.reached, fun hnone => ?_, h.stopped, fun hs => .inr ((h.waits hs).resolve_left hbusy),
    fun hc => absurd (h.rests hc).2 hbusy⟩
  have hidle := h.idle hnone
  rw [hphase] at hidle
  cases hidle

/-- A move keeps this, unless somebody else stops the gossip engine while the bridge has an event. -/
theorem Orderly.turn (h : p.Orderly) (hturn : p.Turn m p')
    (hm : m = .stopGossipFromOutside → p.Rests ∨ .stopGossip ∈ p.run.calls) : p'.Orderly := by
  cases hturn with
  | event tracker hrun he => exact h.event hrun he tracker rfl id
  | notice tracker => exact ⟨h.reached, h.idle, h.stopped, h.waits, h.rests⟩
  | startGossip n hrun =>
    obtain ⟨hstopped, hmailbox⟩ := start_keeps p.gossip n
    exact h.event hrun rfl p.tracker hstopped hmailbox
  | stopGossip hrun he => exact h.stopGossip hrun he
  | leaveGossip hrun hwaits => exact h.leaveGossip hrun hwaits
  | dispatch _ hk hturn => exact h.dispatch hk hturn
  | bridge store pending hphase _ => exact h.bridge hphase _ store pending
  | interruptFromOutside => exact ⟨h.reached, h.idle, h.stopped, h.waits, h.rests⟩
  | stopGossipFromOutside =>
    refine ⟨h.reached, h.idle, fun _ => rfl, fun _ => ?_, fun hc => (h.rests hc).imp_left fun _ => rfl⟩
    exact (hm rfl).elim .inl fun hasked => h.waits (h.stopped hasked)

end Site

namespace Deployment

variable {d d' : Deployment} {i : Nat} {p : Site}

/-- A site as it is launched. -/
theorem orderly_launch {c : Config.NodeConfig} {bind : Except IoFault Unit}
    (h : d.launch c bind = (d', .ok i)) (hp : d'.site? i = some p) : p.Orderly := by
  unfold launch at h
  split at h
  · cases h
  · cases h
    simp only [site?, List.getElem?_concat_length, Option.some.injEq] at hp
    subst hp
    refine ⟨Run.reached_start _ _, fun _ => rfl, nofun, nofun, nofun⟩

/-- Nobody else stops the gossip engine of a site while its bridge or its dispatch task has an event in its hands or
is about to take one, unless the node has asked for it before. -/
def LeftAlone (d : Deployment) (i : Nat) (moves : List (Nat × Move)) : Prop :=
  ∀ before after x p, moves = before ++ (i, .stopGossipFromOutside) :: after → d.run? before = some x →
    x.site? i = some p → p.Rests ∨ .stopGossip ∈ p.run.calls

theorem run?_concat (d : Deployment) (moves : List (Nat × Move)) (j : Nat) (m : Move) :
    d.run? (moves ++ [(j, m)]) = (d.run? moves).bind fun x => x.step? j m := by
  simp [run?, List.foldlM_append, Option.bind_eq_bind]

theorem orderly_run {moves : List (Nat × Move)} (h : d.run? moves = some d')
    (hd : ∀ p, d.site? i = some p → p.Orderly) (hleft : d.LeftAlone i moves)
    (hp : d'.site? i = some p) : p.Orderly := by
  induction moves using List.reverseRecOn generalizing d' p with
  | nil =>
    cases h
    exact hd p hp
  | append_singleton moves move ih =>
    obtain ⟨j, m⟩ := move
    rw [run?_concat] at h
    obtain ⟨x, hx, hstep⟩ := Option.bind_eq_some_iff.mp h
    have hbefore : d.LeftAlone i moves := fun before after y q hmoves hy hq =>
      hleft before (after ++ [(j, m)]) y q (by rw [hmoves, List.append_assoc, List.cons_append]) hy hq
    obtain ⟨q, q', hq, hsites, hturn⟩ := step?_turn hstep
    rw [site?, hsites, List.getElem?_set] at hp
    split at hp
    · rename_i hji
      subst hji
      split at hp <;> cases hp
      refine (ih hx hbefore hq).turn hturn fun hm => ?_
      subst hm
      exact hleft moves [] x q rfl hx hq
    · exact ih hx hbefore hp

/-- Once the consensus engine of a node is asked to stop, the bridge of the node has no event in its hands
and does nothing any more, in whatever order the tasks go on, if nobody else has stopped the gossip engine
while an event was on its way to the bridge or there. -/
theorem bridge_rests {d₀ : Deployment} {c : Config.NodeConfig} {bind : Except IoFault Unit}
    {moves : List (Nat × Move)} (hlaunch : d₀.launch c bind = (d, .ok i)) (h : d.run? moves = some d')
    (hleft : d.LeftAlone i moves) (hp : d'.site? i = some p) (hasked : .stopConsensus ∈ p.run.calls) :
    p.Rests ∧ d'.step? i .bridge = none := by
  have hrests := ((orderly_run h (fun q hq => orderly_launch hlaunch hq) hleft hp).rests hasked).2
  refine ⟨hrests, ?_⟩
  show (d'.site? i).bind (fun q => d'.bridge? i q) = none
  rw [hp]
  show d'.bridge? i p = none
  rcases hrests with hphase | hphase <;> simp [bridge?, hphase]

/-- Two nodes, the first of which begins alone. -/
def pair : Deployment :=
  let first : Config.NodeConfig := {
    nodeId := "a", seed := true, gossipAddress := "a:7946", consensusAddress := "a:9000" }
  let second : Config.NodeConfig := {
    nodeId := "b", joinAddresses := ["a:7946"], gossipAddress := "b:7946", consensusAddress := "b:9000" }
  ((({} : Deployment).launch first (.ok ())).1.launch second (.ok ())).1

/-- The second node joins the first, whose gossip engine is stopped by somebody else while the bridge has the
event. The node sees this and stops as well. -/
def takenOver : List (Nat × Move) :=
  [(0, .prepare), (0, .begin .leadership), (0, .notice), (0, .begin .gossip), (0, .startGossip),
    (1, .prepare), (1, .begin .gossip), (1, .startGossip), (1, .joinGossip), (0, .lookForSignal), (0, .takeEvent),
    (0, .handEvent), (0, .bridge), (0, .bridge), (0, .lookForSignal), (0, .takeEvent), (0, .handEvent),
    (0, .stopGossipFromOutside), (0, .noticeGossipGone), (0, .signal .gossip), (0, .begin .teardown),
    (0, .leaveGossip)]

/-- The teardown does not wait for the event, and a leader goes on to ask for a voter when its consensus engine
has stopped. -/
theorem bridge_outlives_consensus : ∃ d p, pair.run? takenOver = some d ∧ d.site? 0 = some p ∧
    .stopConsensus ∈ p.run.calls ∧ p.tracker.leader = true ∧ ¬p.Rests ∧ p.pending.map (·.name) = ["b"] ∧
    (d.run? [(0, .stopConsensus), (0, .bridge)]).isSome = true := by
  have hrun : ((pair.run? takenOver).any fun d => (d.site? 0).any fun p =>
      decide (.stopConsensus ∈ p.run.calls ∧ p.tracker.leader = true ∧ p.dispatch.phase ≠ .idle ∧
        p.dispatch.phase ≠ .ended ∧ p.pending.map (·.name) = ["b"] ∧
        (d.run? [(0, .stopConsensus), (0, .bridge)]).isSome = true)) = true := by
    decide +kernel
  obtain ⟨d, hd, hrun⟩ := (Option.any_eq_true _ _).mp hrun
  obtain ⟨p, hp, hrun⟩ := (Option.any_eq_true _ _).mp hrun
  obtain ⟨hasked, hleads, hidle, hended, hpending, hgoes⟩ := of_decide_eq_true hrun
  exact ⟨d, p, hd, hp, hasked, hleads, not_or.mpr ⟨hidle, hended⟩, hpending, hgoes⟩

end Deployment

end ReplicatedTable.Node
