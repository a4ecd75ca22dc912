import ReplicatedTable.Proofs.Node.Moves

/-!
# What a run answers

A run answers with an error only if one of its events told it so (`fault?_of_answer`), and when it answers it has
asked its gossip engine to stop and heard of its consensus engine (`stopped_of_answer`). The gossip engine is
started once (`gossipStarted_once`): the gossip task waits for its answer only before it has one, and does not
begin again.
-/
namespace ReplicatedTable.Node

/-! ## Errors that a run is told -/

/-- The error that an event tells. What joining has led to is none. -/
def Event.fault? : Event → Option Error
  | .prepared (.error e) | .gossipStarted (.error e) => some e
  | .gossipStopped (.error e) | .consensusStopped (.error e) => some e
  | .httpBound (.error fault) | .httpClosed (.error fault) => some (.io fault)
  | _ => none

/-- The work of a task comes to an error that was told, be it the one that gossip has answered before. -/
theorem Event.fault?_of_result {e : Event} {known : Except Error Unit} {p : Worker × Ending} {error : Error}
    (h : e.result? known = some p) (hp : p.2.error? = some error) :
    known = .error error ∨ e.fault? = some error := by
  unfold result? at h
  split at h <;> cases h
  case h_1 | h_3 =>
    cases hp
    exact .inr rfl
  case h_2 | h_5 | h_6 => cases hp
  case h_4 answer =>
    cases answer <;> cases hp
    exact .inr rfl
  case h_7 consensus =>
    cases known with
    | error e =>
      cases hp
      exact .inl rfl
    | ok =>
      cases consensus <;> cases hp
      exact .inr rfl

theorem Event.fault?_of_gossipAnswer {e : Event} {known : Except Error Unit} {error : Error}
    (h : e.gossipAnswer known = .error error) : known = .error error ∨ e.fault? = some error := by
  cases e with
  | gossipStopped answer =>
    cases h
    exact .inr rfl
  | _ => exact .inl h

theorem fault?_of_results {es : List Event} {known : Except Error Unit} {p : Worker × Ending} {error : Error}
    (h : p ∈ results known es) (hp : p.2.error? = some error) :
    known = .error error ∨ ∃ e ∈ es, e.fault? = some error := by
  induction es generalizing known with
  | nil => cases h
  | cons e es ih =>
    rw [results, List.mem_append, Option.mem_toList] at h
    rcases h with h | h
    · exact (e.fault?_of_result h hp).imp_right fun he => ⟨e, List.mem_cons_self .., he⟩
    · rcases ih h with hknown | ⟨x, hx, hfault⟩
      · exact (e.fault?_of_gossipAnswer hknown).imp_right fun he => ⟨e, List.mem_cons_self .., he⟩
      · exact .inr ⟨x, List.mem_cons_of_mem e hx, hfault⟩

/-- A task ends with an error only if it was told. -/
theorem fault?_of_endings {es : List Event} {p : Worker × Ending} {error : Error} (h : p ∈ endings es)
    (hp : p.2.error? = some error) : ∃ e ∈ es, e.fault? = some error := by
  obtain ⟨before, after, hresults, -⟩ := List.lookup_eq_some_iff.mp (lookup_of_mem_endings h)
  have hmem : p ∈ results (.ok ()) es := by
    rw [hresults]
    exact List.mem_append_right _ (List.mem_cons_self ..)
  exact (fault?_of_results hmem hp).resolve_left nofun

namespace Run

variable {r : Run} {es : List Event} {answer : Except Error Unit} {seed : Bool} {joinAddresses : List String}

/-- A run answers with an error only if it was told so. -/
theorem fault?_of_answer (h : ({ seed, joinAddresses } : Run).run? es = some r)
    (hanswer : r.answer? = some answer) :
    answer = .ok () ∨ ∃ e ∈ es, ∃ error, e.fault? = some error ∧ answer = .error error := by
  obtain ⟨gossip, consensus, -, ⟨why, es, rfl, rfl⟩ | ⟨es, rfl, -, -, rfl⟩⟩ := concluded_of_answer h hanswer
  · exact .inr ⟨_, List.mem_cons_self .., why, rfl, rfl⟩
  · unfold Ending.outcome
    cases hfirst : ((endings es).map Prod.snd).findSome? Ending.error? with
    | none => exact .inl rfl
    | some error =>
      obtain ⟨x, hx, herror⟩ := List.exists_of_findSome?_eq_some hfirst
      obtain ⟨p, hp, rfl⟩ := List.mem_map.mp hx
      obtain ⟨e, he, hfault⟩ := fault?_of_endings hp herror
      exact .inr ⟨e, List.mem_cons_of_mem _ he, error, hfault, rfl⟩

theorem mem_of_moments (h : .told e ∈ r.moments es) : e ∈ es := by
  induction es generalizing r with
  | nil => cases h
  | cons x es ih =>
    unfold moments at h
    split at h
    · cases h
    · rw [List.cons_append, List.mem_cons, List.mem_append] at h
      rcases h with h | h | h
      · cases h
        exact List.mem_cons_self ..
      · obtain ⟨c, -, hc⟩ := List.mem_map.mp h
        cases hc
      · exact List.mem_cons_of_mem x (ih h)

/-- A run that has returned has asked its gossip engine to stop, and knows of its consensus engine. -/
theorem stopped_of_answer (h : ({ seed, joinAddresses } : Run).run? es = some r)
    (hanswer : r.answer? = some answer) :
    .stopGossip ∈ r.calls ∧ ∃ consensus, .consensusStopped consensus ∈ es := by
  obtain ⟨gossip, consensus, hstops, -⟩ := concluded_of_answer h hanswer
  have hseen : ∀ m ∈ stops gossip consensus, m ∈ ({ seed, joinAddresses } : Run).moments es := by
    intro m hm
    rw [← hstops] at hm
    exact (List.mem_filter.mp hm).1
  exact ⟨(mem_calls_iff h).mpr (.inr (hseen _ (by simp [stops]))), consensus,
    mem_of_moments (hseen _ (by simp [stops]))⟩

end Run

/-! ## The start of gossip -/

namespace Serving

variable {s s' : Serving} {e : Event} {calls : List Call} {seed : Bool} {joinAddresses : List String}

/-- The gossip task has not got an answer from its engine. -/
def Waiting (s : Serving) : Prop := s.gossip = .idle ∨ s.gossip = .starting

/-- The gossip task does nothing before it begins. -/
def Unbegun (s : Serving) : Prop := s.group.progress? Worker.gossip.number = some .ready → s.gossip = .idle

theorem unbegun_start : ({} : Serving).Unbegun := fun _ => rfl

/-- An action of the group, while the gossip task does nothing. -/
theorem Unbegun.act (h : s.Unbegun) {a : Group.Action} {s₀ : Serving} {calls₀ : List Call}
    (hact : s₀.act? a calls₀ = some (s', calls)) (hgroup : s₀.group = s.group) (hgossip : s₀.gossip = s.gossip) :
    s'.Unbegun ∧ (s'.Waiting → s.Waiting) := by
  obtain ⟨g, hg, hs⟩ := Option.map_eq_some_iff.mp hact
  cases hs
  refine ⟨fun hready => hgossip.trans (h ?_), fun hw => by rwa [Waiting, hgossip] at hw⟩
  rw [← hgroup]
  exact Group.ready_of_step hg hready

/-- The work of a task is over, which has begun then. -/
theorem Unbegun.retire (h : s.Unbegun) {w : Worker} {x : Ending} {stops : Bool} {s₀ : Serving}
    (hretire : s₀.retire? w x stops = some (s', calls)) (hgroup : s₀.group = s.group)
    (hgossip : s₀.gossip = s.gossip) : s'.Unbegun ∧ (s'.Waiting → s.Waiting) := by
  obtain ⟨⟨hrunning, -⟩, hretire⟩ := Option.ite_none_right_eq_some.mp hretire
  cases hretire
  cases w with
  | gossip =>
    refine ⟨fun hready => ?_, fun hw => by simp [Waiting, quit] at hw⟩
    change s₀.group.progress? Worker.gossip.number = some .ready at hready
    rw [running, hready] at hrunning
    cases hrunning
  | leadership | http | interrupt | teardown =>
    have hback : s₀.Unbegun ∧ (s₀.Waiting → s.Waiting) :=
      ⟨fun hready => hgossip.trans (h (hgroup ▸ hready)), fun hw => by rwa [Waiting, hgossip] at hw⟩
    exact hback

/-- The gossip task goes on with its work, so that it does not wait. -/
theorem Unbegun.goes (h : s.Unbegun) (hs : s.gossip ≠ .idle) {gossip : GossipWork} (hnew : gossip ≠ .idle)
    (hnew' : gossip ≠ .starting) : { s with gossip }.Unbegun ∧ ¬{ s with gossip }.Waiting :=
  ⟨fun hready => absurd (h hready) hs, fun hw => hw.elim hnew hnew'⟩

/-- The gossip task gets one answer. -/
theorem Unbegun.step (h : s.Unbegun) (hstep : s.step? seed joinAddresses e = some (s', calls)) :
    s'.Unbegun ∧ (s'.Waiting → s.Waiting ∧ e ≠ .gossipStarted (.ok ())) := by
  have hother : ∀ {x : Serving}, e ≠ .gossipStarted (.ok ()) → x.Unbegun ∧ (x.Waiting → s.Waiting) →
      x.Unbegun ∧ (x.Waiting → s.Waiting ∧ e ≠ .gossipStarted (.ok ())) :=
    fun he hx => ⟨hx.1, fun hw => ⟨hx.2 hw, he⟩⟩
  cases e with
  | prepared => cases hstep
  | began w =>
    cases w with
    | gossip =>
      obtain ⟨g, hg, hs⟩ := Option.map_eq_some_iff.mp hstep
      cases hs
      obtain ⟨hmay, rfl⟩ := Group.of_begin hg
      have hready := Group.ready_of_mayBegin hmay
      refine ⟨fun hnew => ?_, fun _ => ⟨.inl (h hready), by simp⟩⟩
      rw [show Group.progress? _ _ = some .running from Group.progress?_setProgress_self hready] at hnew
      cases hnew
    | leadership | http | interrupt | teardown => exact hother (by simp) (h.act hstep rfl rfl)
  | gossipStarted answer =>
    simp only [step?] at hstep
    split at hstep
    · rename_i hstarting
      cases answer with
      | error e => exact hother (by simp) (h.retire hstep rfl rfl)
      | ok =>
        have hs : s.gossip ≠ .idle := by simp [hstarting]
        dsimp only at hstep
        split at hstep <;> cases hstep
        · exact (h.goes hs (by simp) (by simp)).imp_right fun hnot hw => absurd hw hnot
        · exact (h.goes hs (by simp) (by simp)).imp_right fun hnot hw => absurd hw hnot
    · cases hstep
  | gossipJoined answer =>
    simp only [step?] at hstep
    split at hstep
    · rename_i hjoining
      cases hstep
      exact (h.goes (by simp [hjoining]) (by simp) (by simp)).imp_right fun hnot hw => absurd hw hnot
    · cases hstep
  | gossipGone =>
    simp only [step?] at hstep
    split at hstep
    · exact hother (by simp) (h.retire hstep rfl rfl)
    · cases hstep
  | httpBound answer =>
    simp only [step?] at hstep
    split at hstep
    · cases answer with
      | error fault => exact hother (by simp) (h.retire hstep rfl rfl)
      | ok =>
        cases hstep
        exact hother (by simp) ⟨h, id⟩
    · cases hstep
  | httpClosed answer =>
    simp only [step?] at hstep
    split at hstep
    · exact hother (by simp) (h.retire hstep rfl rfl)
    · cases hstep
  | interrupted => exact hother (by simp) (h.retire hstep rfl rfl)
  | released w =>
    simp only [step?] at hstep
    split at hstep
    · exact hother (by simp) (h.retire hstep rfl rfl)
    · cases hstep
  | gossipStopped answer =>
    simp only [step?] at hstep
    split at hstep
    · cases hstep
      exact hother (by simp) ⟨h, id⟩
    · cases hstep
  | consensusStopped answer =>
    simp only [step?] at hstep
    split at hstep
    · exact hother (by simp) (h.retire hstep rfl rfl)
    · cases hstep
  | signalled w =>
    obtain ⟨-, hstep⟩ := Option.ite_none_right_eq_some.mp hstep
    exact hother (by simp) (h.act hstep rfl rfl)
  | ended w =>
    obtain ⟨-, hstep⟩ := Option.ite_none_left_eq_some.mp hstep
    obtain ⟨x, -, hstep⟩ := Option.bind_eq_some_iff.mp hstep
    exact hother (by simp) (h.act hstep rfl rfl)
  | collected => exact hother (by simp) (h.act hstep rfl rfl)

end Serving

namespace Run

variable {r : Run} {es : List Event} {seed : Bool} {joinAddresses : List String}

/-- What the tasks of a run keep of the start of gossip. -/
theorem unbegun_run (h : ({ seed, joinAddresses } : Run).run? es = some r) :
    ∀ s, r.stage = .serving s → s.Unbegun ∧ (s.Waiting → .gossipStarted (.ok ()) ∉ es) := by
  induction es using List.reverseRecOn generalizing r with
  | nil =>
    cases h
    intro s hs
    cases hs
  | append_singleton es e ih =>
    rw [run?_concat] at h
    obtain ⟨x, hx, hstep⟩ := Option.bind_eq_some_iff.mp h
    intro s hs
    unfold step? at hstep
    split at hstep
    · rename_i hpreparing
      cases hstep
      cases hs
      refine ⟨Serving.unbegun_start, fun _ hmem => ?_⟩
      have haccounts := run_accounts hx
      rw [hpreparing] at haccounts
      cases haccounts
      simp at hmem
    · cases hstep
      cases hs
    · cases hstep
      cases hs
    · cases hstep
      cases hs
    · rename_i t ht
      obtain ⟨⟨s', calls⟩, hturn, rfl⟩ := Option.map_eq_some_iff.mp hstep
      have hs' : s' = s := by
        change stageOf s' = .serving s at hs
        unfold stageOf at hs
        cases hresult : s'.group.result? with
        | none =>
          rw [hresult] at hs
          cases hs
          rfl
        | some answer =>
          rw [hresult] at hs
          cases hs
      subst hs'
      obtain ⟨hunbegun, hnone⟩ := ih hx t ht
      obtain ⟨hunbegun', hback⟩ := hunbegun.step hturn
      refine ⟨hunbegun', fun hwaiting hmem => ?_⟩
      obtain ⟨hbefore, hne⟩ := hback hwaiting
      rcases List.mem_append.mp hmem with hmem | hmem
      · exact hnone hbefore hmem
      · exact hne (List.mem_singleton.mp hmem).symm
    · cases hstep

/-- Gossip is started once. -/
theorem gossipStarted_once (h : ({ seed, joinAddresses } : Run).run? es = some r)
    (hmem : .gossipStarted (.ok ()) ∈ es) (answer : Except Error Unit) :
    r.step? (.gossipStarted answer) = none := by
  cases hr : r.stage with
  | preparing | abandoning | returned => simp [step?, hr]
  | serving s =>
    simp only [step?, hr, Serving.step?]
    rw [if_neg fun hstarting => (unbegun_run h s hr).2 (.inr hstarting) hmem]
    rfl

end Run

end ReplicatedTable.Node
