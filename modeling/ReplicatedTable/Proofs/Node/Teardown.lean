import Mathlib.Data.List.Induction
import Mathlib.Data.List.Perm.Basic
import ReplicatedTable.Node.Run
import ReplicatedTable.Proofs.Supervision.Group

/-!
# How a node stops its engines

What is seen of a run is a list of `Moment`s: what its node is told, and what it asks of its engines in turn.
In every run that has come to its end the engines were stopped once each, gossip first, and the consensus
engine only after the answer of the gossip engine (`stops`); neither was asked to stop before the start had
failed or the signal was given. The run answers with the error of a failed start, and otherwise with what the
endings of its five tasks amount to in the order in which they came (`engines_stopped_in_order`).

A step of the tasks is either one of the teardown or one that leaves the teardown alone (`Serving.Turn`); the
invariant of a run (`Run.Accounts`) is carried over the steps by these cases.
-/
namespace ReplicatedTable.Node

/-! ## What is seen of a run -/

inductive Moment where
  | told (e : Event)
  | asked (c : Call)
  deriving DecidableEq

/-- Whether a call or an event is about stopping an engine. -/
def Moment.ofStopping : Moment → Bool
  | .told (.gossipStopped _) | .told (.consensusStopped _) => true
  | .asked .stopGossip | .asked .stopConsensus => true
  | _ => false

/-- What the node asks for in the step between two states. -/
def Run.asked (r r' : Run) : List Call := r'.calls.drop r.calls.length

/-- The events of a run, each with what the node asks for because of it. -/
def Run.moments (r : Run) : List Event → List Moment
  | [] => []
  | e :: es =>
    match r.step? e with
    | none => []
    | some r' => .told e :: (r.asked r').map .asked ++ r'.moments es

/-- Both engines are stopped, one after the other. -/
def stops (gossip consensus : Except Error Unit) : List Moment :=
  [.asked .stopGossip, .told (.gossipStopped gossip), .asked .stopConsensus,
    .told (.consensusStopped consensus)]

/-- The answer of the gossip engine to being stopped, as far as it is known. -/
def Event.gossipAnswer (known : Except Error Unit) : Event → Except Error Unit
  | .gossipStopped answer => answer
  | _ => known

/-- The task whose work is over by an event, and what it has come to: a task returns the error that it was told,
and the teardown that of the gossip engine if there is one, else that of the consensus engine. -/
def Event.result? (gossip : Except Error Unit) : Event → Option (Worker × Ending)
  | .gossipStarted (.error e) => some (.gossip, .failed e)
  | .gossipGone => some (.gossip, .done)
  | .httpBound (.error fault) => some (.http, .failed (.io fault))
  | .httpClosed answer => some (.http, endingOf (answer.mapError .io))
  | .interrupted => some (.interrupt, .done)
  | .released w => some (w, .done)
  | .consensusStopped consensus => some (.teardown, endingOf (firstError gossip consensus))
  | _ => none

/-- What the tasks come to, in the order in which their work is over. -/
def results (gossip : Except Error Unit) : List Event → List (Worker × Ending)
  | [] => []
  | e :: es => (e.result? gossip).toList ++ results (e.gossipAnswer gossip) es

/-- The task that ends by an event. -/
def Event.ended? : Event → Option Worker
  | .ended w => some w
  | _ => none

/-- The endings of tasks, in the order in which they come: each task ends with what it has come to. -/
def endings (es : List Event) : List (Worker × Ending) :=
  (es.filterMap Event.ended?).filterMap fun w => ((results (.ok ()) es).lookup w).map (w, ·)

theorem results_concat (gossip : Except Error Unit) (es : List Event) (e : Event) :
    results gossip (es ++ [e]) =
      results gossip es ++ (e.result? (es.foldl Event.gossipAnswer gossip)).toList := by
  induction es generalizing gossip with
  | nil => simp [results]
  | cons x es ih => simp [results, ih, List.append_assoc]

theorem Event.mem_ended? {es : List Event} {w : Worker} :
    w ∈ es.filterMap Event.ended? ↔ .ended w ∈ es := by
  rw [List.mem_filterMap]
  constructor
  · rintro ⟨e, he, h⟩
    cases e with
    | ended v =>
      cases h
      exact he
    | _ => cases h
  · exact fun h => ⟨_, h, rfl⟩

/-- By no event a task both comes to something and ends. -/
theorem Event.ended?_of_result {e : Event} {known : Except Error Unit} {p : Worker × Ending}
    (h : e.result? known = some p) : e.ended? = none := by
  cases e with
  | ended => cases h
  | _ => rfl

/-- One more event: the endings so far stay as they are, if the tasks that have ended had come to something. -/
theorem endings_concat {es : List Event} (e : Event)
    (htold : ∀ w, .ended w ∈ es → ((results (.ok ()) es).lookup w).isSome) :
    endings (es ++ [e]) = endings es ++
      (e.ended?.bind fun w => ((results (.ok ()) es).lookup w).map (w, ·)).toList := by
  unfold endings
  rw [List.filterMap_append, List.filterMap_append, results_concat]
  congr 1
  · refine List.filterMap_congr fun w hw => ?_
    obtain ⟨x, hx⟩ := Option.isSome_iff_exists.mp (htold w (Event.mem_ended?.mp hw))
    rw [List.lookup_append, hx, Option.some_or]
  · cases hw : e.ended? with
    | none => simp [hw]
    | some w =>
      have hnone : ∀ known, e.result? known = none := fun known => by
        cases hr : e.result? known with
        | none => rfl
        | some p =>
          rw [Event.ended?_of_result hr] at hw
          cases hw
      rw [hnone]
      cases hx : (results (.ok ()) es).lookup w <;> simp [hw, hx]

/-- A task ends with what it has come to. -/
theorem lookup_of_mem_endings {es : List Event} {w : Worker} {x : Ending} (h : (w, x) ∈ endings es) :
    (results (.ok ()) es).lookup w = some x := by
  obtain ⟨v, -, hv⟩ := List.mem_filterMap.mp h
  obtain ⟨y, hy, e⟩ := Option.map_eq_some_iff.mp hv
  cases e
  exact hy

theorem Worker.number_injective {v w : Worker} (h : v.number = w.number) : v = w := by
  cases v <;> cases w <;> first | rfl | cases h

/-! ## The teardown -/

/-- What is seen of a teardown that has come to some point. -/
inductive Teardown.Shows : Teardown → List Moment → Prop where
  | idle : Shows .idle []
  | stoppingGossip : Shows .stoppingGossip [.asked .stopGossip]
  | stoppingConsensus (gossip : Except Error Unit) : Shows (.stoppingConsensus gossip)
    [.asked .stopGossip, .told (.gossipStopped gossip), .asked .stopConsensus]
  | finished (gossip consensus : Except Error Unit) :
    Shows (.finished (firstError gossip consensus)) (stops gossip consensus)

namespace Teardown.Shows

variable {ms : List Moment}

theorem begin (h : Shows .idle (ms.filter Moment.ofStopping)) : Shows .stoppingGossip
    ((ms ++ [Moment.told (.began .teardown), .asked .stopGossip]).filter Moment.ofStopping) := by
  generalize hms : ms.filter Moment.ofStopping = seen at h
  cases h
  simpa [List.filter_cons, hms, Moment.ofStopping] using stoppingGossip

theorem gossipStopped (h : Shows .stoppingGossip (ms.filter Moment.ofStopping))
    (gossip : Except Error Unit) : Shows (.stoppingConsensus gossip)
      ((ms ++ [Moment.told (.gossipStopped gossip), .asked .stopConsensus]).filter Moment.ofStopping) := by
  generalize hms : ms.filter Moment.ofStopping = seen at h
  cases h
  simpa [List.filter_cons, hms, Moment.ofStopping] using stoppingConsensus gossip

theorem consensusStopped {gossip : Except Error Unit}
    (h : Shows (.stoppingConsensus gossip) (ms.filter Moment.ofStopping)) (consensus : Except Error Unit) :
    (ms ++ [Moment.told (.consensusStopped consensus)]).filter Moment.ofStopping = stops gossip consensus := by
  generalize hms : ms.filter Moment.ofStopping = seen at h
  cases h
  simp [List.filter_cons, hms, Moment.ofStopping, stops]

end Teardown.Shows

/-- What the task of a teardown has come to. -/
def Teardown.ending? : Teardown → Option Ending
  | .finished answer => some (endingOf answer)
  | _ => none

/-! ## Steps of the tasks -/

namespace Serving

/-- Calls that stop no engine. -/
def Harmless (calls : List Call) : Prop := ∀ c ∈ calls, (Moment.asked c).ofStopping = false

theorem harmless_nil : Harmless [] := fun _ hc => absurd hc List.not_mem_nil

/-- What a step of the tasks may be. -/
inductive Turn (s : Serving) : Event → Serving → List Call → Prop where
  /-- An action of the group, but for the beginning of the teardown. A task that ends has come to something. -/
  | acts {e : Event} {a : Group.Action} {g : Group} {calls : List Call} (gossip : GossipWork) (http : HttpWork)
    (owing : List Worker) (hg : s.group.step? a = some g) (hnone : ∀ known, e.result? known = none)
    (hends : a.ending? = e.ended?.bind fun w => (s.outcome? w).map (w.number, ·))
    (htold : ∀ w, e = .ended w → (s.outcome? w).isSome)
    (he : (Moment.told e).ofStopping = false) (hcalls : Harmless calls) :
    Turn s e { s with group := g, gossip, http, owing } calls
  /-- A task goes on with its work. -/
  | works {e : Event} {calls : List Call} (gossip : GossipWork) (http : HttpWork)
    (hnone : ∀ known, e.result? known = none) (hends : e.ended? = none)
    (he : (Moment.told e).ofStopping = false) (hcalls : Harmless calls) :
    Turn s e { s with gossip, http } calls
  /-- The work of a task is over, but for the teardown. -/
  | retires {e : Event} {w : Worker} {x : Ending} (gossip : GossipWork) (http : HttpWork) (owing : List Worker)
    (hw : w ≠ .teardown) (hresult : ∀ known, e.result? known = some (w, x))
    (he : (Moment.told e).ofStopping = false) :
    Turn s e { s with gossip, http, owing, outcomes := s.outcomes ++ [(w, x)] } []
  | begin {g : Group} (hg : s.group.step? (.begin Worker.teardown.number) = some g) :
    Turn s (.began .teardown) { s with group := g, teardown := .stoppingGossip } [.stopGossip]
  | gossipStopped (answer : Except Error Unit) (ht : s.teardown = .stoppingGossip) :
    Turn s (.gossipStopped answer) { s with teardown := .stoppingConsensus answer } [.stopConsensus]
  | consensusStopped {gossip : Except Error Unit} (answer : Except Error Unit) (owing : List Worker)
    (ht : s.teardown = .stoppingConsensus gossip) :
    Turn s (.consensusStopped answer)
      { s with
        teardown := .finished (firstError gossip answer), owing
        outcomes := s.outcomes ++ [(.teardown, endingOf (firstError gossip answer))] } []

variable {s s' : Serving} {e : Event} {calls : List Call}

/-- An action of the group by which no task ends. -/
theorem Turn.of_act {a : Group.Action} {calls₀ : List Call} (gossip : GossipWork) (http : HttpWork)
    (owing : List Worker) (h : act? { s with gossip, http, owing } a calls₀ = some (s', calls))
    (hnone : ∀ known, e.result? known = none) (hends : e.ended? = none) (ha : a.ending? = none)
    (he : (Moment.told e).ofStopping = false) (hcalls : Harmless calls₀) : Turn s e s' calls := by
  obtain ⟨g, hg, hs⟩ := Option.map_eq_some_iff.mp h
  cases hs
  refine .acts gossip http owing hg hnone (by rw [ha, hends]; rfl) (fun w hw => ?_) he hcalls
  subst hw
  cases hends

theorem Turn.of_retire {w : Worker} {x : Ending} {stops : Bool} (h : s.retire? w x stops = some (s', calls))
    (hw : w ≠ .teardown) (hresult : ∀ known, e.result? known = some (w, x))
    (he : (Moment.told e).ofStopping = false) : Turn s e s' calls := by
  obtain ⟨-, h⟩ := Option.ite_none_right_eq_some.mp h
  have hquit : s.quit w = { s with gossip := (s.quit w).gossip, http := (s.quit w).http } := by
    cases w <;> rfl
  rw [hquit] at h
  cases h
  exact .retires _ _ _ hw hresult he

theorem Turn.of_end {w : Worker} (h : s.end? w = some (s', calls)) : Turn s (.ended w) s' calls := by
  obtain ⟨-, h⟩ := Option.ite_none_left_eq_some.mp h
  obtain ⟨x, hx, h⟩ := Option.bind_eq_some_iff.mp h
  obtain ⟨g, hg, hs⟩ := Option.map_eq_some_iff.mp h
  cases hs
  refine .acts s.gossip s.http s.owing hg (fun _ => rfl) ?_ (fun v hv => ?_) rfl harmless_nil
  · simp [Event.ended?, Group.Action.ending?, hx]
  · cases hv
    rw [hx]
    rfl

theorem Turn.of_began {w : Worker} (h : s.begin? w = some (s', calls)) : Turn s (.began w) s' calls := by
  cases w with
  | teardown =>
    obtain ⟨g, hg, hs⟩ := Option.map_eq_some_iff.mp h
    cases hs
    exact .begin hg
  | gossip =>
    refine .of_act .starting s.http s.owing h (fun _ => rfl) rfl rfl rfl fun c hc => ?_
    obtain rfl := List.mem_singleton.mp hc
    rfl
  | http => exact .of_act s.gossip .binding s.owing h (fun _ => rfl) rfl rfl rfl harmless_nil
  | leadership | interrupt => exact .of_act s.gossip s.http s.owing h (fun _ => rfl) rfl rfl rfl harmless_nil

/-- A step in which only the work of the gossip task or of the server goes on. -/
theorem Turn.of_work {calls₀ : List Call} (gossip : GossipWork) (http : HttpWork)
    (h : some ({ s with gossip, http }, calls₀) = some (s', calls)) (hnone : ∀ known, e.result? known = none)
    (hends : e.ended? = none) (he : (Moment.told e).ofStopping = false) (hcalls : Harmless calls₀) :
    Turn s e s' calls := by
  cases h
  exact .works gossip http hnone hends he hcalls

theorem Turn.of_consensusStopped {gossip answer : Except Error Unit} (ht : s.teardown = .stoppingConsensus gossip)
    (h : { s with teardown := .finished (firstError gossip answer) }.retire? .teardown
      (endingOf (firstError gossip answer)) false = some (s', calls)) :
    Turn s (.consensusStopped answer) s' calls := by
  obtain ⟨-, h⟩ := Option.ite_none_right_eq_some.mp h
  cases h
  exact .consensusStopped answer _ ht

/-- A step of the tasks is one of the teardown, or leaves the teardown alone. -/
theorem step?_turn {seed : Bool} {joinAddresses : List String}
    (h : s.step? seed joinAddresses e = some (s', calls)) : Turn s e s' calls := by
  cases e with
  | prepared => cases h
  | began w => exact .of_began h
  | gossipStarted answer =>
    simp only [step?] at h
    split at h
    · cases answer with
      | error e => exact .of_retire h (by decide) (fun _ => rfl) rfl
      | ok =>
        dsimp only at h
        split at h
        · exact .of_work .watching s.http h (fun _ => rfl) rfl rfl harmless_nil
        · refine .of_work .joining s.http h (fun _ => rfl) rfl rfl fun c hc => ?_
          obtain rfl := List.mem_singleton.mp hc
          rfl
    · cases h
  | gossipJoined answer =>
    simp only [step?] at h
    split at h
    · exact .of_work .watching s.http h (fun _ => rfl) rfl rfl harmless_nil
    · cases h
  | gossipGone =>
    simp only [step?] at h
    split at h
    · exact .of_retire h (by decide) (fun _ => rfl) rfl
    · cases h
  | httpBound answer =>
    simp only [step?] at h
    split at h
    · cases answer with
      | error fault => exact .of_retire h (by decide) (fun _ => rfl) rfl
      | ok => exact .of_work s.gossip .serving h (fun _ => rfl) rfl rfl harmless_nil
    · cases h
  | httpClosed answer =>
    simp only [step?] at h
    split at h
    · exact .of_retire h (by decide) (fun _ => rfl) rfl
    · cases h
  | interrupted => exact .of_retire h (by decide) (fun _ => rfl) rfl
  | released w =>
    simp only [step?] at h
    split at h
    · rename_i hw
      refine .of_retire h (fun e => ?_) (fun _ => rfl) rfl
      rw [e] at hw
      cases hw.2
    · cases h
  | gossipStopped answer =>
    simp only [step?] at h
    split at h
    · rename_i ht
      cases h
      exact .gossipStopped answer ht
    · cases h
  | consensusStopped answer =>
    simp only [step?] at h
    split at h
    · rename_i gossip ht
      exact .of_consensusStopped ht h
    · cases h
  | signalled w =>
    obtain ⟨-, h⟩ := Option.ite_none_right_eq_some.mp h
    exact .of_act s.gossip s.http _ h (fun _ => rfl) rfl rfl rfl harmless_nil
  | ended w => exact .of_end h
  | collected => exact .of_act s.gossip s.http s.owing h (fun _ => rfl) rfl rfl rfl harmless_nil

/-! ## What the tasks keep of the events -/

theorem gossipAnswer_of_other (h : (Moment.told e).ofStopping = false) (known : Except Error Unit) :
    e.gossipAnswer known = known := by
  cases e <;> first | rfl | cases h

theorem quiet_moments (he : (Moment.told e).ofStopping = false) (hcalls : Harmless calls) (ms : List Moment) :
    (ms ++ Moment.told e :: calls.map Moment.asked).filter Moment.ofStopping =
      ms.filter Moment.ofStopping := by
  have hquiet : (Moment.told e :: calls.map Moment.asked).filter Moment.ofStopping = [] := by
    rw [List.filter_eq_nil_iff]
    intro m hm
    rcases List.mem_cons.mp hm with rfl | hm
    · simp [he]
    · obtain ⟨c, hc, rfl⟩ := List.mem_map.mp hm
      simp [hcalls c hc]
  rw [List.filter_append, hquiet, List.append_nil]

/-- What the tasks keep of the events since the start and of all moments. -/
structure Fits (s : Serving) (es : List Event) (ms : List Moment) : Prop where
  results : s.outcomes = results (.ok ()) es
  told : ∀ w, .ended w ∈ es → (s.outcome? w).isSome
  recounts : s.group.Recounts ((endings es).map fun p => (p.1.number, p.2))
  kinds : s.group.tasks.map ReplicatedTable.Task.onCancel = Worker.all.map Worker.onCancel
  ready : s.group.progress? Worker.teardown.number = some .ready → s.teardown = .idle
  signalled : s.teardown = .idle ∨ s.cancelled = true
  known : ∀ gossip, s.teardown = .stoppingConsensus gossip →
    es.foldl Event.gossipAnswer (.ok ()) = gossip
  outcome : s.outcome? .teardown = s.teardown.ending?
  shows : s.teardown.Shows (ms.filter Moment.ofStopping)

theorem fits_start {ms : List Moment} (hms : ms.filter Moment.ofStopping = []) :
    ({} : Serving).Fits [] ms where
  results := rfl
  told _ h := absurd h List.not_mem_nil
  recounts := Group.recounts_ofKinds _
  kinds := rfl
  ready _ := rfl
  signalled := Or.inl rfl
  known _ h := by cases h
  outcome := rfl
  shows := hms ▸ .idle

variable {es : List Event} {ms : List Moment}

/-- The teardown begins after the signal. -/
theorem Fits.cancelled_of_begin (h : s.Fits es ms) {g : Group}
    (hg : s.group.step? (.begin Worker.teardown.number) = some g) : s.cancelled = true :=
  Group.cancelled_of_begin (by rw [h.kinds]; rfl) hg

/-- The teardown begins once. -/
theorem Fits.idle_of_begin (h : s.Fits es ms) {g : Group}
    (hg : s.group.step? (.begin Worker.teardown.number) = some g) : s.teardown = .idle :=
  h.ready (Group.ready_of_mayBegin (Group.of_begin hg).1)

/-- The endings of a group after one more event. -/
theorem Fits.recounts_concat (h : s.Fits es ms) (e : Event) {g : Group}
    (hg : g.Recounts ((endings es).map (fun p => (p.1.number, p.2)) ++
      (e.ended?.bind fun w => (s.outcome? w).map (w.number, ·)).toList)) :
    g.Recounts ((endings (es ++ [e])).map fun p => (p.1.number, p.2)) := by
  have htold : ∀ w, .ended w ∈ es → ((Node.results (.ok ()) es).lookup w).isSome := fun w hw => by
    rw [← h.results]
    exact h.told w hw
  rw [endings_concat e htold, List.map_append, ← h.results]
  refine cast (congrArg _ (congrArg _ ?_)) hg
  cases e.ended? with
  | none => rfl
  | some w =>
    show ((s.outcomes.lookup w).map (w.number, ·)).toList = _
    cases hw : s.outcomes.lookup w <;> simp [hw]

/-- Tasks that have ended had come to something, also after one more event. -/
theorem Fits.told_concat (h : s.Fits es ms) (hlast : ∀ w, e = .ended w → (s.outcome? w).isSome) {w : Worker}
    (hw : .ended w ∈ es ++ [e]) : (s.outcome? w).isSome := by
  rcases List.mem_append.mp hw with hw | hw
  · exact h.told w hw
  · exact hlast w (List.mem_singleton.mp hw).symm

theorem lookup_append_isSome {w : Worker} (h : (s.outcome? w).isSome) (more : List (Worker × Ending)) :
    ((s.outcomes ++ more).lookup w).isSome := by
  rw [List.lookup_append, Option.isSome_or, Bool.or_eq_true]
  exact .inl h

/-- A step of the tasks keeps what they keep. -/
theorem Fits.turn (h : s.Fits es ms) (hturn : Turn s e s' calls) :
    s'.Fits (es ++ [e]) (ms ++ .told e :: calls.map .asked) := by
  have hknown : (es ++ [e]).foldl Event.gossipAnswer (.ok ()) =
      e.gossipAnswer (es.foldl Event.gossipAnswer (.ok ())) := by
    rw [List.foldl_append, List.foldl_cons, List.foldl_nil]
  have hresults := results_concat (.ok ()) es e
  rw [← h.results] at hresults
  -- what an event leaves alone by which nothing comes to an end
  have hstill : (∀ known, e.result? known = none) → s.outcomes = Node.results (.ok ()) (es ++ [e]) := fun hnone => by
    rw [hresults, hnone]
    exact (List.append_nil _).symm
  have hnoEnd : e.ended? = none → ∀ w, e = .ended w → (s.outcome? w).isSome := fun hends w hw => by
    rw [hw] at hends
    cases hends
  have hsame : e.ended? = none → s.group.Recounts ((endings (es ++ [e])).map fun p => (p.1.number, p.2)) :=
    fun hends => h.recounts_concat e (by simpa [hends] using h.recounts)
  -- and one that is not about stopping an engine
  have hquiet : (Moment.told e).ofStopping = false → ∀ gossip, s.teardown = .stoppingConsensus gossip →
      (es ++ [e]).foldl Event.gossipAnswer (.ok ()) = gossip := fun he gossip ht => by
    rw [hknown, gossipAnswer_of_other he, h.known gossip ht]
  cases hturn with
  | acts gossip http owing hg hnone hends htold he hcalls =>
    refine ⟨hstill hnone, fun w hw => h.told_concat htold hw, h.recounts_concat e (hends ▸ h.recounts.step hg),
      (Group.kinds_step hg).trans h.kinds, fun hready => h.ready (Group.ready_of_step hg hready),
      h.signalled.imp_right (Group.cancelled_step hg), hquiet he, h.outcome, ?_⟩
    rw [quiet_moments he hcalls]
    exact h.shows
  | works gossip http hnone hends he hcalls =>
    refine ⟨hstill hnone, fun w hw => h.told_concat (hnoEnd hends) hw, hsame hends, h.kinds, h.ready, h.signalled,
      hquiet he, h.outcome, ?_⟩
    rw [quiet_moments he hcalls]
    exact h.shows
  | @retires _ w x gossip http owing hw hresult he =>
    have hends := Event.ended?_of_result (hresult (.ok ()))
    refine ⟨?_, fun v hv => lookup_append_isSome (h.told_concat (hnoEnd hends) hv) _, hsame hends, h.kinds,
      h.ready, h.signalled, hquiet he, ?_, ?_⟩
    · rw [hresults, hresult]
      rfl
    · have hapart : [(w, x)].lookup Worker.teardown = none :=
        List.lookup_eq_none_iff.mpr (by simpa using hw.symm)
      show (s.outcomes ++ [(w, x)]).lookup Worker.teardown = _
      rw [List.lookup_append, hapart, Option.or_none]
      exact h.outcome
    · rw [quiet_moments he harmless_nil]
      exact h.shows
  | @begin g hg =>
    have hidle := h.idle_of_begin hg
    have hcancelled := Group.cancelled_step hg (h.cancelled_of_begin hg)
    refine ⟨hstill fun _ => rfl, fun w hw => h.told_concat (hnoEnd rfl) hw, h.recounts_concat _ (h.recounts.step hg),
      (Group.kinds_step hg).trans h.kinds, fun hready => ?_, Or.inr hcancelled, nofun, ?_, ?_⟩
    · obtain ⟨hmay, rfl⟩ := Group.of_begin hg
      rw [Group.progress?_setProgress_self (Group.ready_of_mayBegin hmay)] at hready
      cases hready
    · have houtcome := h.outcome
      rw [hidle] at houtcome
      exact houtcome
    · have hshows := h.shows
      rw [hidle] at hshows
      exact hshows.begin
  | gossipStopped answer ht =>
    have hne : s.teardown ≠ .idle := by simp [ht]
    refine ⟨hstill fun _ => rfl, fun w hw => h.told_concat (hnoEnd rfl) hw, hsame rfl, h.kinds,
      fun hready => absurd (h.ready hready) hne, Or.inr (h.signalled.resolve_left hne), fun a ha => ?_, ?_, ?_⟩
    · cases ha
      exact hknown
    · have houtcome := h.outcome
      rw [ht] at houtcome
      exact houtcome
    · have hshows := h.shows
      rw [ht] at hshows
      exact hshows.gossipStopped answer
  | @consensusStopped gossip answer owing ht =>
    have hne : s.teardown ≠ .idle := by simp [ht]
    refine ⟨?_, fun w hw => lookup_append_isSome (h.told_concat (hnoEnd rfl) hw) _, hsame rfl, h.kinds,
      fun hready => absurd (h.ready hready) hne, Or.inr (h.signalled.resolve_left hne), nofun, ?_, ?_⟩
    · rw [hresults, h.known gossip ht]
      rfl
    · have houtcome := h.outcome
      rw [ht] at houtcome
      show (s.outcomes ++ [_]).lookup Worker.teardown = _
      rw [List.lookup_append, show s.outcomes.lookup Worker.teardown = none from houtcome]
      rfl
    · have hshows := h.shows
      rw [ht] at hshows
      show Teardown.Shows _ ((ms ++ [Moment.told (.consensusStopped answer)]).filter Moment.ofStopping)
      rw [hshows.consensusStopped answer]
      exact .finished gossip answer

/-- A node whose group is complete has stopped its engines and ended each task once. -/
theorem Fits.result (h : s.Fits es ms) {answer : Except Error Unit}
    (hanswer : s.group.result? = some answer) : ∃ gossip consensus,
      ms.filter Moment.ofStopping = stops gossip consensus ∧
      (.teardown, endingOf (firstError gossip consensus)) ∈ endings es ∧
      ((endings es).map Prod.fst).Perm Worker.all ∧
      answer = Ending.outcome ((endings es).map Prod.snd) := by
  obtain ⟨houtcome, hall⟩ := h.recounts.result hanswer
  rw [List.map_map] at houtcome hall
  have hcount : s.group.tasks.length = Worker.all.length := by
    simpa using congrArg List.length h.kinds
  have hperm : ((endings es).map Prod.fst).Perm Worker.all := by
    have hnumbers : (((endings es).map Prod.fst).map Worker.number).Perm (Worker.all.map Worker.number) := by
      rw [List.map_map]
      rw [hcount] at hall
      exact hall
    exact (List.map_perm_map_iff fun _ _ => Worker.number_injective).mp hnumbers
  -- the teardown is among the tasks that have ended, so it has come to its end
  obtain ⟨⟨w, x⟩, hmem, rfl⟩ := List.mem_map.mp (hperm.mem_iff.mpr (by decide : Worker.teardown ∈ Worker.all))
  have hended := lookup_of_mem_endings hmem
  rw [← h.results, show s.outcomes.lookup .teardown = _ from h.outcome] at hended
  have hshows := h.shows
  generalize hms : ms.filter Moment.ofStopping = seen at hshows
  cases ht : s.teardown with
  | finished a =>
    rw [ht] at hended hshows
    cases hended
    cases hshows with
    | finished gossip consensus => exact ⟨gossip, consensus, rfl, hmem, hperm, houtcome⟩
  | _ => rw [ht] at hended; cases hended

end Serving

/-! ## Runs -/

namespace Run

variable {r r' : Run} {e : Event} {es : List Event} {ms : List Moment} {answer : Except Error Unit}

/-- How a run that has returned has gone. -/
def Concluded (answer : Except Error Unit) (events : List Event) (ms : List Moment) : Prop :=
  ∃ gossip consensus, ms.filter Moment.ofStopping = stops gossip consensus ∧
    ((∃ why es, events = .prepared (.error why) :: es ∧ answer = .error why) ∨
      ∃ es, events = .prepared (.ok ()) :: es ∧
        (.teardown, endingOf (firstError gossip consensus)) ∈ endings es ∧
        ((endings es).map Prod.fst).Perm Worker.all ∧
        answer = Ending.outcome ((endings es).map Prod.snd))

/-- What a run keeps of its events and moments. -/
inductive Accounts : Stage → List Event → List Moment → Prop where
  | preparing : Accounts .preparing [] []
  | abandoning {t : Teardown} {ms : List Moment} (why : Error) (es : List Event)
    (h : t.Shows (ms.filter Moment.ofStopping)) :
    Accounts (.abandoning why t) (.prepared (.error why) :: es) ms
  | serving {s : Serving} {es : List Event} {ms : List Moment} (h : s.Fits es ms) :
    Accounts (.serving s) (.prepared (.ok ()) :: es) ms
  | returned {answer : Except Error Unit} {events : List Event} {ms : List Moment}
    (h : Concluded answer events ms) : Accounts (.returned answer) events ms

/-- What a step of a run may be. -/
inductive Turn (r : Run) : Event → Stage → List Call → Prop where
  | started (hr : r.stage = .preparing) : Turn r (.prepared (.ok ())) (.serving {}) []
  | failed (why : Error) (hr : r.stage = .preparing) :
    Turn r (.prepared (.error why)) (.abandoning why .stoppingGossip) [.stopGossip]
  | gossipStopped {why : Error} (gossip : Except Error Unit) (hr : r.stage = .abandoning why .stoppingGossip) :
    Turn r (.gossipStopped gossip) (.abandoning why (.stoppingConsensus gossip)) [.stopConsensus]
  | consensusStopped {why : Error} {gossip : Except Error Unit} (consensus : Except Error Unit)
    (hr : r.stage = .abandoning why (.stoppingConsensus gossip)) :
    Turn r (.consensusStopped consensus) (.returned (.error why)) []
  | serving {s s' : Serving} {e : Event} {calls : List Call} (hr : r.stage = .serving s)
    (h : s.Turn e s' calls) : Turn r e (stageOf s') calls

theorem step?_turn (h : r.step? e = some r') :
    ∃ stage calls, r' = r.goTo stage calls ∧ Turn r e stage calls := by
  unfold step? at h
  split at h
  · rename_i hr
    cases h
    exact ⟨_, _, rfl, .started hr⟩
  · rename_i why hr
    cases h
    exact ⟨_, _, rfl, .failed why hr⟩
  · rename_i why gossip hr
    cases h
    exact ⟨_, _, rfl, .gossipStopped gossip hr⟩
  · rename_i why gossip consensus hr
    cases h
    exact ⟨_, _, rfl, .consensusStopped consensus hr⟩
  · rename_i s hr
    obtain ⟨⟨s', calls⟩, hs, rfl⟩ := Option.map_eq_some_iff.mp h
    exact ⟨_, _, rfl, .serving hr (Serving.step?_turn hs)⟩
  · cases h

@[simp] theorem asked_goTo (r : Run) (stage : Stage) (calls : List Call) :
    r.asked (r.goTo stage calls) = calls := by
  simp [asked, goTo]

theorem run?_concat (r : Run) (es : List Event) (e : Event) :
    r.run? (es ++ [e]) = (r.run? es).bind fun x => x.step? e := by
  simp [run?, List.foldlM_append, Option.bind_eq_bind]

theorem moments_concat (hrun : r.run? es = some r') (e : Event) {x : Run} (hx : r'.step? e = some x) :
    r.moments (es ++ [e]) = r.moments es ++ .told e :: (r'.asked x).map .asked := by
  induction es generalizing r with
  | nil =>
    cases hrun
    simp [moments, hx]
  | cons y es ih =>
    obtain ⟨z, hz, hrest⟩ := Option.bind_eq_some_iff.mp hrun
    simp [moments, hz, ih hrest, List.append_assoc]

theorem Accounts.turn (h : Accounts r.stage es ms) {stage : Stage} {calls : List Call}
    (hturn : Turn r e stage calls) :
    Accounts stage (es ++ [e]) (ms ++ .told e :: calls.map .asked) := by
  cases hturn with
  | started hr =>
    rw [hr] at h
    cases h
    exact .serving (Serving.fits_start rfl)
  | failed why hr =>
    rw [hr] at h
    cases h
    exact .abandoning why [] .stoppingGossip
  | @gossipStopped why gossip hr =>
    rw [hr] at h
    cases h with
    | abandoning _ es hshows =>
      exact .abandoning why _ (hshows.gossipStopped gossip)
  | @consensusStopped why gossip consensus hr =>
    rw [hr] at h
    cases h with
    | abandoning _ es hshows =>
      exact .returned ⟨gossip, consensus, hshows.consensusStopped consensus, Or.inl ⟨why, _, rfl, rfl⟩⟩
  | @serving s s' _ _ hr hs =>
    rw [hr] at h
    cases h with
    | serving hfits =>
      have hfits' := hfits.turn hs
      unfold stageOf
      cases hanswer : s'.group.result? with
      | none => exact .serving hfits'
      | some answer =>
        obtain ⟨gossip, consensus, hstops, hteardown, hall, houtcome⟩ := hfits'.result hanswer
        exact .returned ⟨gossip, consensus, hstops, Or.inr ⟨_, rfl, hteardown, hall, houtcome⟩⟩

/-- A run from its beginning keeps account of its events. -/
theorem run_accounts {seed : Bool} {joinAddresses : List String}
    (h : ({ seed, joinAddresses } : Run).run? es = some r) :
    Accounts r.stage es (({ seed, joinAddresses } : Run).moments es) := by
  induction es using List.reverseRecOn generalizing r with
  | nil =>
    cases h
    exact .preparing
  | append_singleton es e ih =>
    rw [run?_concat] at h
    obtain ⟨x, hx, hstep⟩ := Option.bind_eq_some_iff.mp h
    obtain ⟨stage, calls, rfl, hturn⟩ := step?_turn hstep
    rw [moments_concat hx e hstep, asked_goTo]
    exact (ih hx).turn hturn

/-- A run that answers has come to its conclusion. -/
theorem concluded_of_answer {seed : Bool} {joinAddresses : List String}
    (h : ({ seed, joinAddresses } : Run).run? es = some r) (hanswer : r.answer? = some answer) :
    Concluded answer es (({ seed, joinAddresses } : Run).moments es) := by
  have haccounts := run_accounts h
  unfold answer? at hanswer
  split at hanswer
  · rename_i hr
    cases hanswer
    rw [hr] at haccounts
    cases haccounts with
    | returned hconcluded => exact hconcluded
  · cases hanswer

end Run

end ReplicatedTable.Node
