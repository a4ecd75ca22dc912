import ReplicatedTable.Gossip.Dispatch
import ReplicatedTable.Proofs.Gossip.Succession

/-!
# What a handler is given

An engine on a network on which anything goes on, with its dispatch task, a handler that may be registered
late and may take its time, and a call to shut it down. All of it happens in any order (`Move`, `run`), so the
signal may be given between any two steps of the task. A step keeps that the events taken are a front of those
sent, and that of these only such are dropped for which there was no handler when they were taken (`Kept.step`).
A task that has looked for the signal before it is given takes one more event (`taken_after_signal`), and no task
takes more than that (`takings_run`). `handed_in_order` puts this together for all runs, and `shutdown_returns`
says that the call does return, once a handler has.
-/
namespace ReplicatedTable.Gossip

open Std

/-! ## The network -/

namespace Network

variable {n n' : Network} {k : Nat}

/-- What is done to a network, by whomever. -/
inductive Act where
  | register (m : Member)
  | merge (name target : String)
  | leave (name : String)
  | fail (name : String)
  | reap (name : String)
  | update (name : String) (tags : Tags)

/-- A registration that is refused changes nothing. -/
def act (n : Network) : Act → Network
  | .register m => match n.register m with
    | .ok (n', _) => n'
    | .error _ => n
  | .merge name target => (n.merge name target).1
  | .leave name => n.leave name
  | .fail name => (n.fail name).1
  | .reap name => (n.reap name).1
  | .update name tags => (n.update name tags).1

theorem act_cases (n : Network) (a : Act) : n.act a = n ∨ Move n (n.act a) := by
  cases a with
  | register m =>
    cases hr : n.register m with
    | ok p => exact .inr (by simpa only [act, hr] using Move.register hr)
    | error e => exact .inl (by simp only [act, hr])
  | merge name target => exact .inr (.merge name target)
  | leave name => exact .inr (.leave name)
  | fail name => exact .inr (.fail name)
  | reap name => exact .inr (.reap name)
  | update name tags => exact .inr (.update name tags)

theorem sends_depart (n : Network) (name : String) (kind : EventKind) (status : Liveness) :
    Sends (fun _ => True) n (n.depart name kind status).1 := by
  cases hs : n.slots[name]? with
  | none => rw [depart_of_none hs]; exact .refl _ n
  | some s =>
    rw [depart_eq hs]
    exact .of_round rfl (fun _ _ _ => trivial) _

/-- What was sent is not taken back. -/
theorem sends_move (hm : Move n n') : Sends (fun _ => True) n n' := by
  cases hm with
  | register hr =>
    obtain ⟨-, -, -, rfl⟩ := register_ok hr
    exact ⟨_, rfl, fun _ _ => trivial⟩
  | merge name target =>
    rcases merge_cases n name target with h | ⟨s, t, -, -, h⟩ <;> rw [h]
    · exact .refl _ n
    · exact .of_round rfl (fun _ _ _ => trivial) _
  | leave name => exact sends_depart n name .leave .left
  | fail name =>
    have hdepart := sends_depart n name .failed .failed
    cases hs : n.slots[name]? with
    | none => rw [fail_of_none hs]; exact .refl _ n
    | some s => rw [fail_eq hs]; exact hdepart
  | reap name =>
    cases hf : n.failed[name]? with
    | none => rw [reap_of_none hf]; exact .refl _ n
    | some p =>
      rw [reap_eq hf]
      exact .of_round rfl (fun _ _ _ => trivial) p.2
  | update name tags =>
    cases hs : n.slots[name]? with
    | none => rw [update_of_none hs]; exact .refl _ n
    | some s =>
      rw [update_eq hs]
      exact .of_round rfl (fun _ _ _ => trivial) _

theorem sent_move (hm : Move n n') (k : Nat) : n.sent k <+: n'.sent k := by
  obtain ⟨es, hes, -⟩ := (sends_move hm).sent k
  exact ⟨es, hes.symm⟩

theorem isOpen_iff : n.isOpen k = true ↔
    ∃ (x : String) (s : Slot), n.slots[x]? = some s ∧ s.mailbox = k := by
  rw [isOpen, List.any_eq_true]
  refine ⟨fun ⟨⟨x, s⟩, hmem, hs⟩ => ?_, fun ⟨x, s, hx, hs⟩ => ?_⟩
  · exact ⟨x, s, ExtTreeMap.mem_toList_iff_getElem?_eq_some.mp hmem, beq_iff_eq.mp hs⟩
  · exact ⟨⟨x, s⟩, ExtTreeMap.mem_toList_iff_getElem?_eq_some.mpr hx, beq_iff_eq.mpr hs⟩

/-- A mailbox that was given out and is closed gets nothing any more. -/
theorem closed_move (h : n.Tidy) (hm : Move n n') (hk : k < n.mailboxes) (hc : n.isOpen k = false) :
    n'.isOpen k = false ∧ n'.sent k = n.sent k := by
  have hquiet : ∀ (x : String) (s : Slot), n.slots[x]? = some s → s.mailbox ≠ k := fun x s hs e => by
    rw [isOpen_iff.mpr ⟨x, s, hs, e⟩] at hc
    cases hc
  rcases hm.register_or_keeps h with ⟨m, mailbox, hr⟩ | hkeeps
  · obtain ⟨-, -, -, rfl⟩ := register_ok hr
    refine ⟨Bool.eq_false_iff.mpr fun ho => ?_, ?_⟩
    · obtain ⟨x, s, hs, hsk⟩ := isOpen_iff.mp ho
      rw [getElem?_insert] at hs
      split at hs
      · cases hs
        exact absurd hsk (Nat.ne_of_gt hk)
      · exact hquiet x s hs hsk
    · have hne : n.mailboxes ≠ k := Nat.ne_of_gt hk
      exact (sent_append n n.mailboxes [.members .join [m]] k).trans (by rw [if_neg hne, List.append_nil])
  · refine ⟨Bool.eq_false_iff.mpr fun ho => ?_, hkeeps.quiet hquiet⟩
    obtain ⟨x, s, hs, hsk⟩ := isOpen_iff.mp ho
    obtain ⟨u, hu, -, -, e⟩ := hkeeps.slot hs
    exact hquiet x u hu (e ▸ hsk)

theorem mailboxes_move (h : n.Tidy) (hm : Move n n') : n.mailboxes ≤ n'.mailboxes := by
  rcases hm.register_or_keeps h with ⟨m, mailbox, hr⟩ | hkeeps
  · obtain ⟨-, -, -, rfl⟩ := register_ok hr
    exact Nat.le_succ _
  · exact Nat.le_of_eq hkeeps.mailboxes.symm

end Network

/-! ## The dispatch task -/

/-- The event that was taken and has not found a handler yet. -/
def Phase.held : Phase → List Event
  | .holding e => [e]
  | _ => []

/-- The event in the hands of the handler. -/
def Phase.current : Phase → List Event
  | .handling e => [e]
  | _ => []

namespace Dispatch

variable {d d' : Dispatch} {events : List Event} {isOpen stopped handler : Bool}

/-- What a step of the task may be. -/
inductive Turn (d : Dispatch) (events : List Event) (isOpen stopped handler : Bool) : Dispatch → Prop where
  | looks (hphase : d.phase = .idle) (hs : stopped = false) :
    Turn d events isOpen stopped handler { d with phase := .looked }
  | stops (hphase : d.phase = .idle) (hs : stopped = true) :
    Turn d events isOpen stopped handler { d with phase := .ended }
  | takes {e : Event} (hphase : d.phase = .looked) (he : events[d.taken]? = some e) :
    Turn d events isOpen stopped handler { d with phase := .holding e, taken := d.taken + 1 }
  | returns (hphase : d.phase = .looked) : Turn d events isOpen stopped handler { d with phase := .idle }
  | ends (hphase : d.phase = .looked) (he : events[d.taken]? = none) (ho : isOpen = false) :
    Turn d events isOpen stopped handler { d with phase := .ended }
  | hands {e : Event} (hphase : d.phase = .holding e) (hh : handler = true) :
    Turn d events isOpen stopped handler { d with phase := .handling e, handed := d.handed ++ [e] }
  | drops {e : Event} (hphase : d.phase = .holding e) (hh : handler = false) :
    Turn d events isOpen stopped handler { d with phase := .idle }

/-- A task that was told to stop comes to its end once the handler has returned. -/
theorem closes (d : Dispatch) (events : List Event) (isOpen handler : Bool) :
    let d₁ := (d.take? events isOpen).getD d
    let d₂ := (d₁.hand? handler).getD d₁
    ((d₂.finish.look? true).getD d₂.finish).phase = .ended := by
  obtain ⟨phase, taken, handed⟩ := d
  cases phase with
  | looked =>
    cases hnext : events[taken]? <;> cases isOpen <;> cases handler <;>
      simp [take?, hand?, finish, look?, hnext]
  | holding e => cases handler <;> simp [take?, hand?, finish, look?]
  | idle | handling e | ended => simp [take?, hand?, finish, look?]

/-- A task that has ended takes no step. -/
theorem Turn.running (h : d.Turn events isOpen stopped handler d') : d.phase ≠ .ended := by
  cases h with
  | looks hphase | stops hphase | takes hphase | returns hphase | ends hphase | hands hphase | drops hphase =>
    rw [hphase]
    nofun

theorem look?_turn (h : d.look? stopped = some d') : d.Turn events isOpen stopped handler d' := by
  unfold look? at h
  split at h
  · rename_i hphase
    cases h
    cases stopped with
    | true => exact .stops hphase rfl
    | false => exact .looks hphase rfl
  · cases h

theorem take?_turn (h : d.take? events isOpen = some d') : d.Turn events isOpen stopped handler d' := by
  unfold take? at h
  split at h
  · rename_i hphase
    split at h
    · rename_i e he
      cases h
      exact .takes hphase he
    · rename_i he
      cases h
      cases isOpen with
      | true => exact .returns hphase
      | false => exact .ends hphase he rfl
  · cases h

theorem hand?_turn (h : d.hand? handler = some d') : d.Turn events isOpen stopped handler d' := by
  unfold hand? at h
  split at h
  · rename_i e hphase
    split at h
    · rename_i hh
      cases h
      exact .hands hphase hh
    · rename_i hh
      cases h
      exact .drops hphase (Bool.eq_false_iff.mpr hh)
  · cases h

end Dispatch

/-! ## Runs -/

/-- How far the call to shut down is: nobody has made it, it has left the network, it waits for the dispatch
task, or it has returned. -/
inductive Call where
  | ahead
  | left
  | waiting
  | returned
  deriving DecidableEq

structure Reception where
  network : Network := {}
  engine : Engine
  dispatch : Dispatch := {}
  call : Call := .ahead
  /-- The events taken, in order, each with whether a handler was registered then. -/
  takings : List (Event × Bool) := []
  /-- The events for which the task has looked for a handler, in order, each with whether it found one. -/
  outcomes : List (Event × Bool) := []
  /-- The events with which the handler is done. -/
  finished : List Event := []

namespace Reception

inductive Move where
  /-- Somebody does something to the network. -/
  | network (a : Network.Act)
  | start
  /-- A handler is registered. -/
  | listen
  /-- The dispatch task looks for the signal. -/
  | look
  /-- The dispatch task looks for an event. -/
  | take
  /-- The dispatch task looks for a handler. -/
  | hand
  /-- The handler returns. -/
  | finish
  /-- The call to shut down is made, and leaves the network. -/
  | leave
  /-- The call gives the signal. -/
  | signal
  /-- The call has waited for the dispatch task. -/
  | comeBack

/-- The events sent to the mailbox of the engine, once it has one. -/
def sent (r : Reception) : List Event := (r.engine.mailbox.map r.network.sent).getD []

/-- The dispatch task has taken a step. An event that it holds from then on was taken by it, and for one that it
held before it has looked for a handler. -/
def follow (r : Reception) (dispatch : Dispatch) : Reception :=
  { r with
    dispatch
    takings := r.takings ++ dispatch.phase.held.map (·, r.engine.handler)
    outcomes := r.outcomes ++ r.dispatch.phase.held.map (·, r.engine.handler) }

/-- One move, if it is possible. -/
def step? (r : Reception) : Move → Option Reception
  | .network a => some { r with network := r.network.act a }
  | .start =>
    let (network, engine, _) := r.engine.start r.network
    some { r with network, engine }
  | .listen => some { r with engine := { r.engine with handler := true } }
  | .look => if r.engine.mailbox.isSome then (r.dispatch.look? r.engine.stopped).map r.follow else none
  | .take => r.engine.mailbox.bind fun mailbox =>
    (r.dispatch.take? (r.network.sent mailbox) (r.network.isOpen mailbox)).map r.follow
  | .hand => (r.dispatch.hand? r.engine.handler).map r.follow
  | .finish =>
    match r.dispatch.phase with
    | .handling e => some { r with dispatch := r.dispatch.finish, finished := r.finished ++ [e] }
    | _ => none
  | .leave =>
    if r.call = .ahead ∧ r.engine.running then
      some { r with network := r.network.leave r.engine.member.name, call := .left }
    else none
  | .signal =>
    if r.call = .left then some { r with engine := { r.engine with stopped := true }, call := .waiting }
    else none
  | .comeBack =>
    if r.call = .waiting ∧ r.dispatch.phase = .ended then some { r with call := .returned } else none

/-- The moves one after the other, less those that are not possible. -/
def run (r : Reception) (moves : List Move) : Reception := moves.foldl (fun r m => (r.step? m).getD r) r

/-- A new engine of a member, on a network where nobody has registered. -/
def new (m : Member) : Reception := { engine := { member := m } }

/-- The two parts of the call are what an engine does that is told to stop. -/
theorem leave_signal {r : Reception} (hc : r.call = .ahead) (hr : r.engine.running = true) :
    (r.step? .leave).bind (·.step? .signal) =
      some { r with
        network := (r.engine.requestStop r.network).1
        engine := (r.engine.requestStop r.network).2
        call := .waiting } := by
  obtain ⟨hstarted, hstopped⟩ : r.engine.started = true ∧ r.engine.stopped = false := by
    simpa [Engine.running] using hr
  simp [step?, hc, hr, Engine.requestStop, hstarted, hstopped]

variable {r r' : Reception} {m : Member} {n : Network}

theorem follow_turn {move : Move} (hmove : move = .look ∨ move = .take ∨ move = .hand)
    (hstep : r.step? move = some r') : ∃ isOpen d, r' = r.follow d ∧
      r.dispatch.Turn r.sent isOpen r.engine.stopped r.engine.handler d ∧
      (isOpen = false → ∃ k, r.engine.mailbox = some k ∧ r.network.isOpen k = false) := by
  rcases hmove with rfl | rfl | rfl
  · obtain ⟨-, hstep⟩ := Option.ite_none_right_eq_some.mp hstep
    obtain ⟨d, hd, rfl⟩ := Option.map_eq_some_iff.mp hstep
    exact ⟨true, d, rfl, Dispatch.look?_turn hd, nofun⟩
  · obtain ⟨k, hk, hstep⟩ := Option.bind_eq_some_iff.mp hstep
    obtain ⟨d, hd, rfl⟩ := Option.map_eq_some_iff.mp hstep
    have hsent : r.network.sent k = r.sent := by rw [sent, hk]; rfl
    rw [hsent] at hd
    exact ⟨_, d, rfl, Dispatch.take?_turn hd, fun ho => ⟨k, hk, ho⟩⟩
  · obtain ⟨d, hd, rfl⟩ := Option.map_eq_some_iff.mp hstep
    exact ⟨true, d, rfl, Dispatch.hand?_turn hd, nofun⟩

theorem finish_eq (hstep : r.step? .finish = some r') : ∃ e, r.dispatch.phase = .handling e ∧
    r' = { r with dispatch := { r.dispatch with phase := .idle }, finished := r.finished ++ [e] } := by
  unfold step? at hstep
  dsimp only at hstep
  split at hstep
  · rename_i e hphase
    cases hstep
    exact ⟨e, hphase, by rw [Dispatch.finish, hphase]⟩
  · cases hstep

/-- What every run keeps. -/
structure Kept (r : Reception) : Prop where
  tidy : r.network.Tidy
  mailbox : ∀ k, r.engine.mailbox = some k → r.engine.started = true ∧ k < r.network.mailboxes
  started : r.engine.started = true → r.engine.mailbox ≠ none
  made : r.call ≠ .ahead → r.engine.started = true
  taken : r.takings.map Prod.fst = r.sent.take r.dispatch.taken
  count : r.takings.length = r.dispatch.taken
  through : r.takings.map Prod.fst = r.outcomes.map Prod.fst ++ r.dispatch.phase.held
  /-- A handler stays registered. -/
  heard : ∀ t ∈ r.takings, t.2 = true → r.engine.handler = true
  dropped : ∀ (i : Nat) (e : Event), r.outcomes[i]? = some (e, false) → r.takings[i]? = some (e, false)
  handed : r.dispatch.handed = (r.outcomes.filter Prod.snd).map Prod.fst
  current : r.dispatch.handed = r.finished ++ r.dispatch.phase.current
  signal : r.call = .waiting ∨ r.call = .returned → r.engine.stopped = true
  returned : r.call = .returned → r.dispatch.phase = .ended
  /-- A task that ended on its own had nothing left to take, and will have nothing. -/
  ended : r.dispatch.phase = .ended → r.engine.stopped = true ∨
    r.dispatch.taken = r.sent.length ∧ ∃ k, r.engine.mailbox = some k ∧ r.network.isOpen k = false

theorem kept_new (m : Member) : (new m).Kept where
  tidy := Network.tidy_empty
  mailbox _ := nofun
  started := nofun
  made h := absurd rfl h
  taken := rfl
  count := rfl
  through := rfl
  heard _ ht := absurd ht List.not_mem_nil
  dropped _ _ h := by cases h
  handed := rfl
  current := rfl
  signal := nofun
  returned := nofun
  ended := nofun

theorem Kept.taken_le (h : r.Kept) : r.dispatch.taken ≤ r.sent.length := by
  have hlen := congrArg List.length h.taken
  rw [List.length_map, h.count, List.length_take] at hlen
  omega

/-- More events do not change what was taken. -/
theorem Kept.taken_of_prefix (h : r.Kept) {es : List Event} (hes : r.sent <+: es) :
    r.takings.map Prod.fst = es.take r.dispatch.taken := by
  obtain ⟨more, rfl⟩ := hes
  rw [List.take_append_of_le_length h.taken_le, h.taken]

/-- Whatever happens to the network, the mailbox keeps what is in it. -/
theorem Kept.move (h : r.Kept) (hm : Network.Move r.network n) : { r with network := n }.Kept where
  __ := h
  tidy := h.tidy.move hm
  mailbox k hk := (h.mailbox k hk).imp_right fun hlt => Nat.lt_of_lt_of_le hlt (Network.mailboxes_move h.tidy hm)
  taken := by
    refine h.taken_of_prefix ?_
    unfold sent
    cases r.engine.mailbox with
    | none => exact List.prefix_rfl
    | some k => exact Network.sent_move hm k
  ended he := (h.ended he).imp_right fun ⟨hall, k, hk, hclosed⟩ => by
    obtain ⟨hstill, hsame⟩ := Network.closed_move h.tidy hm (h.mailbox k hk).2 hclosed
    refine ⟨?_, k, hk, hstill⟩
    simp only [sent, hk, Option.map_some, Option.getD_some] at hall ⊢
    rw [hall, hsame]

theorem Kept.start (h : r.Kept) :
    { r with network := (r.engine.start r.network).1, engine := (r.engine.start r.network).2.1 }.Kept := by
  rcases r.engine.start_cases r.network with ⟨e, heq⟩ | ⟨n', k, -, hfresh, hregister, heq⟩ <;> rw [heq]
  · exact h
  obtain ⟨-, -, hk, hn⟩ := Network.register_ok hregister
  have hnone : r.engine.mailbox = none := by
    cases hm : r.engine.mailbox with
    | none => rfl
    | some j => exact absurd (h.mailbox j hm).1 (Bool.eq_false_iff.mp hfresh)
  have hempty : r.sent = [] := by rw [sent, hnone]; rfl
  exact { h with
    tidy := h.tidy.register hregister
    mailbox := fun j hj => by
      cases hj
      refine ⟨rfl, ?_⟩
      subst hn
      exact hk ▸ Nat.lt_succ_self _
    started := fun _ => nofun
    made := fun _ => rfl
    taken := h.taken_of_prefix (hempty ▸ List.nil_prefix)
    ended := fun he => (h.ended he).imp_right fun ⟨_, j, hj, _⟩ => by
      rw [hnone] at hj
      cases hj }

/-- The task is not at its end, so the call has not returned. -/
theorem Kept.not_returned (h : r.Kept) (hphase : r.dispatch.phase ≠ .ended) {P : Prop} :
    r.call = .returned → P :=
  fun hc => absurd (h.returned hc) hphase

/-- The task goes from one phase to the next, with nothing in its hands before and after. -/
theorem Kept.passes (h : r.Kept) {phase : Phase} (hphase : r.dispatch.phase = .idle ∨ r.dispatch.phase = .looked)
    (hnew : phase = .idle ∨ phase = .looked ∨ phase = .ended ∧ (r.engine.stopped = true ∨
      r.dispatch.taken = r.sent.length ∧ ∃ k, r.engine.mailbox = some k ∧ r.network.isOpen k = false)) :
    (r.follow { r.dispatch with phase }).Kept := by
  have hheld : r.dispatch.phase.held = [] := by rcases hphase with e | e <;> rw [e] <;> rfl
  have hcurrent : r.dispatch.phase.current = [] := by rcases hphase with e | e <;> rw [e] <;> rfl
  have hheld' : phase.held = [] := by rcases hnew with rfl | rfl | ⟨rfl, -⟩ <;> rfl
  have hcurrent' : phase.current = [] := by rcases hnew with rfl | rfl | ⟨rfl, -⟩ <;> rfl
  have hfollow : r.follow { r.dispatch with phase } = { r with dispatch := { r.dispatch with phase } } := by
    simp [follow, hheld, hheld']
  rw [hfollow]
  exact { h with
    through := by rw [h.through, hheld, hheld']
    current := by rw [h.current, hcurrent, hcurrent']
    returned := h.not_returned (by rcases hphase with e | e <;> rw [e] <;> nofun)
    ended := fun he => by
      rcases hnew with rfl | rfl | ⟨-, hwhy⟩
      · cases he
      · cases he
      · exact hwhy }

/-- The task takes the next event. -/
theorem Kept.takes (h : r.Kept) (hphase : r.dispatch.phase = .looked) {e : Event}
    (he : r.sent[r.dispatch.taken]? = some e) :
    (r.follow { r.dispatch with phase := .holding e, taken := r.dispatch.taken + 1 }).Kept := by
  have hthrough := h.through
  rw [hphase] at hthrough
  have hcurrent := h.current
  rw [hphase] at hcurrent
  have hfollow : r.follow { r.dispatch with phase := .holding e, taken := r.dispatch.taken + 1 } = { r with
      dispatch := { r.dispatch with phase := .holding e, taken := r.dispatch.taken + 1 }
      takings := r.takings ++ [(e, r.engine.handler)] } := by
    simp [follow, hphase, Phase.held]
  rw [hfollow]
  exact { h with
    taken := by
      show (r.takings ++ [(e, r.engine.handler)]).map Prod.fst = r.sent.take (r.dispatch.taken + 1)
      rw [List.take_add_one, he, List.map_append, h.taken]
      rfl
    count := by simp [h.count]
    through := by
      rw [List.map_append, hthrough]
      simp [Phase.held]
    heard := fun t ht hs => by
      rcases List.mem_append.mp ht with ht | ht
      · exact h.heard t ht hs
      · rw [List.mem_singleton.mp ht] at hs
        exact hs
    dropped := fun i x hx => by
      have hold := h.dropped i x hx
      exact (List.getElem?_append_left (List.getElem?_eq_some_iff.mp hold).1).trans hold
    current := hcurrent
    returned := h.not_returned (by rw [hphase]; nofun)
    ended := nofun }

/-- The event that the task holds was the last one taken, and there was no handler then if there is none now. -/
theorem Kept.last_taken (h : r.Kept) {e : Event} (hphase : r.dispatch.phase = .holding e)
    (hh : r.engine.handler = false) : r.takings[r.outcomes.length]? = some (e, false) := by
  have hlast := congrArg (·[r.outcomes.length]?) h.through
  rw [hphase] at hlast
  simp only [List.getElem?_map, Phase.held] at hlast
  rw [← List.length_map (f := Prod.fst), List.getElem?_concat_length, List.length_map] at hlast
  obtain ⟨⟨x, b⟩, ht, rfl⟩ := Option.map_eq_some_iff.mp hlast
  cases b with
  | false => exact ht
  | true =>
    rw [h.heard _ (List.mem_of_getElem? ht) rfl] at hh
    cases hh

/-- The task looks for a handler for the event that it holds, and drops the event if there is none. -/
theorem Kept.settles (h : r.Kept) {e : Event} (hphase : r.dispatch.phase = .holding e) {d : Dispatch}
    (htaken : d.taken = r.dispatch.taken)
    (hd : r.engine.handler = true ∧ d.phase = .handling e ∧ d.handed = r.dispatch.handed ++ [e] ∨
      r.engine.handler = false ∧ d.phase = .idle ∧ d.handed = r.dispatch.handed) : (r.follow d).Kept := by
  have hthrough := h.through
  rw [hphase] at hthrough
  have hcurrent := h.current
  rw [hphase, show (Phase.holding e).current = [] from rfl, List.append_nil] at hcurrent
  have hheld : d.phase.held = [] := by rcases hd with ⟨-, hp, -⟩ | ⟨-, hp, -⟩ <;> rw [hp] <;> rfl
  have hrunning : d.phase ≠ .ended := by rcases hd with ⟨-, hp, -⟩ | ⟨-, hp, -⟩ <;> rw [hp] <;> nofun
  have hfollow : r.follow d =
      { r with dispatch := d, outcomes := r.outcomes ++ [(e, r.engine.handler)] } := by
    rw [Reception.follow, hheld, hphase, List.map_nil, List.append_nil]
    rfl
  rw [hfollow]
  exact { h with
    taken := htaken ▸ h.taken
    count := h.count.trans htaken.symm
    through := by
      rw [hthrough, hheld]
      simp [Phase.held]
    dropped := fun i x hx => by
      by_cases hi : i < r.outcomes.length
      · rw [List.getElem?_append_left hi] at hx
        exact h.dropped i x hx
      · have hlt := (List.getElem?_eq_some_iff.mp hx).1
        rw [List.length_append, List.length_singleton] at hlt
        obtain rfl : i = r.outcomes.length := by omega
        obtain ⟨rfl, hh⟩ := Prod.mk.inj (Option.some.inj (List.getElem?_concat_length.symm.trans hx))
        exact h.last_taken hphase hh
    handed := by rcases hd with ⟨hh, -, hhanded⟩ | ⟨hh, -, hhanded⟩ <;> rw [hhanded, h.handed, hh] <;> simp
    current := by
      rcases hd with ⟨-, hp, hhanded⟩ | ⟨-, hp, hhanded⟩ <;> rw [hhanded, hp, hcurrent]
      · rfl
      · exact (List.append_nil _).symm
    returned := h.not_returned (by rw [hphase]; nofun)
    ended := fun he => absurd he hrunning }

theorem Kept.follow (h : r.Kept) {isOpen : Bool} {d : Dispatch}
    (hturn : r.dispatch.Turn r.sent isOpen r.engine.stopped r.engine.handler d)
    (hclosed : isOpen = false → ∃ k, r.engine.mailbox = some k ∧ r.network.isOpen k = false) :
    (r.follow d).Kept := by
  cases hturn with
  | looks hphase hs => exact h.passes (.inl hphase) (.inr (.inl rfl))
  | stops hphase hs => exact h.passes (.inl hphase) (.inr (.inr ⟨rfl, .inl hs⟩))
  | takes hphase he => exact h.takes hphase he
  | returns hphase => exact h.passes (.inr hphase) (.inl rfl)
  | ends hphase he ho =>
    have hall : r.dispatch.taken = r.sent.length := Nat.le_antisymm h.taken_le (List.getElem?_eq_none_iff.mp he)
    exact h.passes (.inr hphase) (.inr (.inr ⟨rfl, .inr ⟨hall, hclosed ho⟩⟩))
  | hands hphase hh => exact h.settles hphase rfl (.inl ⟨hh, rfl, rfl⟩)
  | drops hphase hh => exact h.settles hphase rfl (.inr ⟨hh, rfl, rfl⟩)

theorem Kept.step {move : Move} (h : r.Kept) (hstep : r.step? move = some r') : r'.Kept := by
  cases move with
  | network a =>
    cases hstep
    rcases r.network.act_cases a with e | hm
    · rw [e]; exact h
    · exact h.move hm
  | start =>
    cases hstep
    exact h.start
  | listen =>
    cases hstep
    exact { h with heard := fun _ _ _ => rfl }
  | look | take | hand =>
    obtain ⟨isOpen, d, rfl, hturn, hclosed⟩ := follow_turn (by simp) hstep
    exact h.follow hturn hclosed
  | finish =>
    obtain ⟨e, hphase, rfl⟩ := finish_eq hstep
    have hthrough := h.through
    have hcurrent := h.current
    rw [hphase] at hthrough hcurrent
    exact { h with
      through := hthrough
      current := hcurrent.trans (List.append_nil _).symm
      returned := h.not_returned (by rw [hphase]; nofun)
      ended := nofun }
  | leave =>
    obtain ⟨⟨hc, hr⟩, hstep⟩ := Option.ite_none_right_eq_some.mp hstep
    cases hstep
    have hstarted : r.engine.started = true := (Bool.and_eq_true_iff.mp hr).1
    exact { h.move (.leave r.engine.member.name) with
      made := fun _ => hstarted
      signal := nofun
      returned := nofun }
  | signal =>
    obtain ⟨hc, hstep⟩ := Option.ite_none_right_eq_some.mp hstep
    cases hstep
    have hstarted := h.made (by rw [hc]; nofun)
    exact { h with
      made := fun _ => hstarted
      signal := fun _ => rfl
      returned := nofun
      ended := fun _ => .inl rfl }
  | comeBack =>
    obtain ⟨⟨hc, hended⟩, hstep⟩ := Option.ite_none_right_eq_some.mp hstep
    cases hstep
    have hstarted := h.made (by rw [hc]; nofun)
    exact { h with
      made := fun _ => hstarted
      signal := fun _ => h.signal (.inl hc)
      returned := fun _ => hended }

/-- A step takes at most one event, the next one, and only if the task has looked for the signal before. -/
theorem takings_step {move : Move} (hstep : r.step? move = some r') :
    r'.takings = r.takings ∧ (r'.dispatch.phase = .looked → r.dispatch.phase = .looked ∨
        r.engine.stopped = false) ∨
      r.dispatch.phase = .looked ∧ ∃ e, r.sent[r.dispatch.taken]? = some e ∧
        r'.takings = r.takings ++ [(e, r.engine.handler)] ∧ r'.dispatch.phase = .holding e := by
  cases move with
  | network | start | listen =>
    cases hstep
    exact .inl ⟨rfl, .inl⟩
  | look | take | hand =>
    obtain ⟨isOpen, d, rfl, hturn, -⟩ := follow_turn (by simp) hstep
    cases hturn with
    | takes hphase he => exact .inr ⟨hphase, _, he, by simp [Reception.follow, Phase.held]⟩
    | looks hphase hs => exact .inl ⟨by simp [Reception.follow, Phase.held], fun _ => .inr hs⟩
    | stops | returns | ends | hands | drops => exact .inl ⟨by simp [Reception.follow, Phase.held], nofun⟩
  | finish =>
    obtain ⟨e, -, rfl⟩ := finish_eq hstep
    exact .inl ⟨rfl, nofun⟩
  | leave | signal | comeBack =>
    obtain ⟨-, hstep⟩ := Option.ite_none_right_eq_some.mp hstep
    cases hstep
    exact .inl ⟨rfl, .inl⟩

theorem stopped_step {move : Move} (hs : r.engine.stopped = true) (hstep : r.step? move = some r') :
    r'.engine.stopped = true := by
  cases move with
  | start =>
    cases hstep
    show (r.engine.start r.network).2.1.stopped = true
    rcases r.engine.start_cases r.network with ⟨e, heq⟩ | ⟨n', k, hrunning, -⟩
    · rw [heq]
      exact hs
    · rw [hs] at hrunning
      cases hrunning
  | network | listen =>
    cases hstep
    exact hs
  | look | take | hand =>
    obtain ⟨_, d, rfl, -, -⟩ := follow_turn (by simp) hstep
    exact hs
  | finish =>
    obtain ⟨e, -, rfl⟩ := finish_eq hstep
    exact hs
  | leave | comeBack =>
    obtain ⟨-, hstep⟩ := Option.ite_none_right_eq_some.mp hstep
    cases hstep
    exact hs
  | signal =>
    obtain ⟨-, hstep⟩ := Option.ite_none_right_eq_some.mp hstep
    cases hstep
    rfl

/-- A task that has ended does nothing. -/
theorem ended_step {move : Move} (he : r.dispatch.phase = .ended) (hstep : r.step? move = some r') :
    r'.dispatch = r.dispatch := by
  cases move with
  | network | start | listen =>
    cases hstep
    rfl
  | look | take | hand =>
    obtain ⟨_, d, rfl, hturn, -⟩ := follow_turn (by simp) hstep
    exact absurd he hturn.running
  | finish =>
    obtain ⟨e, hphase, -⟩ := finish_eq hstep
    rw [he] at hphase
    cases hphase
  | leave | signal | comeBack =>
    obtain ⟨-, hstep⟩ := Option.ite_none_right_eq_some.mp hstep
    cases hstep
    rfl

/-- What every move keeps holds in all runs. -/
theorem run_induction {P : Reception → Prop}
    (hP : ∀ {r r' : Reception} {move : Move}, P r → r.step? move = some r' → P r') (h : P r)
    (moves : List Move) : P (r.run moves) := by
  induction moves generalizing r with
  | nil => exact h
  | cons move moves ih =>
    show P (((r.step? move).getD r).run moves)
    cases hstep : r.step? move with
    | none => exact ih h
    | some r' => exact ih (hP h hstep)

theorem kept_run (m : Member) (moves : List Move) : ((new m).run moves).Kept :=
  run_induction Kept.step (kept_new m) moves

/-- After the signal at most one event is taken, and only if the task had looked for the signal before that. -/
theorem takings_run (hs : r.engine.stopped = true) (moves : List Move) :
    (r.run moves).takings = r.takings ∨
      r.dispatch.phase = .looked ∧ ∃ t, (r.run moves).takings = r.takings ++ [t] := by
  let P (x : Reception) : Prop := x.engine.stopped = true ∧
    (x.takings = r.takings ∧ (x.dispatch.phase = .looked → r.dispatch.phase = .looked) ∨
      x.dispatch.phase ≠ .looked ∧ r.dispatch.phase = .looked ∧ ∃ t, x.takings = r.takings ++ [t])
  have hstep : ∀ {x x' : Reception} {move : Move}, P x → x.step? move = some x' → P x' := by
    intro x x' move ⟨hx, htakings⟩ hstep
    refine ⟨stopped_step hx hstep, ?_⟩
    rcases takings_step hstep with ⟨hsame, hlooked⟩ | ⟨hlooked, e, -, htaken, hholding⟩
    · have hback : x'.dispatch.phase = .looked → x.dispatch.phase = .looked := fun h =>
        (hlooked h).resolve_right (by simp [hx])
      rw [hsame]
      exact htakings.imp (fun h => ⟨h.1, fun hx' => h.2 (hback hx')⟩) fun h => ⟨fun hx' => h.1 (hback hx'), h.2⟩
    · rcases htakings with ⟨hsame, hfirst⟩ | ⟨hnot, -⟩
      · exact .inr ⟨by rw [hholding]; nofun, hfirst hlooked, _, by rw [htaken, hsame]⟩
      · exact absurd hlooked hnot
  have hend : P (r.run moves) := run_induction (P := P) hstep ⟨hs, .inl ⟨rfl, id⟩⟩ moves
  exact hend.2.imp And.left And.right

theorem dispatch_run (he : r.dispatch.phase = .ended) (moves : List Move) :
    (r.run moves).dispatch = r.dispatch :=
  run_induction (P := fun x => x.dispatch = r.dispatch)
    (fun {x} _ _ hx hstep => (ended_step (r := x) (hx ▸ he) hstep).trans hx) rfl moves

/-- In whatever order things happen, the events taken are a front of those sent, and those handed out are the
ones for which the task has found a handler, so that none comes twice or out of order. If one was dropped there
was no handler when it was taken. The handler has one of them at a time. The task ends only if it was told to, or
has taken everything and nothing more can come. After the signal it takes at most one event more, and that only
if it had looked for the signal before. When the call to shut down has returned the handler has nothing in its
hands, and gets nothing any more. -/
theorem handed_in_order (m : Member) (moves later : List Move) :
    let r := (new m).run moves
    r.takings.map Prod.fst = r.sent.take r.dispatch.taken ∧
    r.takings.map Prod.fst = r.outcomes.map Prod.fst ++ r.dispatch.phase.held ∧
    r.dispatch.handed = (r.outcomes.filter Prod.snd).map Prod.fst ∧
    r.dispatch.handed.Sublist r.sent ∧
    (∀ (i : Nat) (e : Event), r.outcomes[i]? = some (e, false) → r.takings[i]? = some (e, false)) ∧
    r.dispatch.handed = r.finished ++ r.dispatch.phase.current ∧
    (∀ move r', r.step? move = some r' → r'.takings = r.takings ∨
      r.dispatch.phase = .looked ∧ ∃ e, r.sent[r.dispatch.taken]? = some e ∧
        r'.takings = r.takings ++ [(e, r.engine.handler)] ∧ r'.dispatch.phase = .holding e) ∧
    (r.dispatch.phase = .ended → r.engine.stopped = true ∨ r.takings.map Prod.fst = r.sent) ∧
    (r.engine.stopped = true → (r.run later).takings = r.takings ∨
      r.dispatch.phase = .looked ∧ ∃ t, (r.run later).takings = r.takings ++ [t]) ∧
    (r.call = .returned → r.dispatch.phase = .ended ∧ (r.run later).dispatch = r.dispatch) := by
  intro r
  have h : r.Kept := kept_run m moves
  have hsub : r.dispatch.handed.Sublist r.sent := by
    have houtcomes : (r.outcomes.map Prod.fst).Sublist (r.takings.map Prod.fst) :=
      h.through ▸ List.sublist_append_left ..
    rw [h.handed]
    refine ((List.filter_sublist.map Prod.fst).trans houtcomes).trans ?_
    rw [h.taken]
    exact List.take_sublist ..
  refine ⟨h.taken, h.through, h.handed, hsub, h.dropped, h.current, fun _ _ hstep => ?_, fun hended => ?_,
    fun hs => takings_run hs later, fun hc => ⟨h.returned hc, dispatch_run (h.returned hc) later⟩⟩
  · exact (takings_step hstep).imp_left And.left
  · refine (h.ended hended).imp_right fun ⟨hall, _⟩ => ?_
    rw [h.taken, hall, List.take_length]

/-- A member joins before there is a handler, and the news of it is dropped. The task has looked for the signal and
found none, when the engine is told to stop. -/
def signalledLate : List Move :=
  [.start, .network (.register ⟨"b", "b:7946", ∅, .alive⟩), .network (.merge "b" "a:7946"), .look, .take, .hand,
    .listen, .look, .leave, .signal]

/-- The task takes the next event after the signal, and the handler gets it while the call waits. -/
theorem taken_after_signal : let r := (new ⟨"a", "a:7946", ∅, .alive⟩).run signalledLate
    r.engine.stopped = true ∧ r.call = .waiting ∧ r.dispatch.phase = .looked ∧
      r.takings.map Prod.snd = [false] ∧ (r.run [.take, .hand]).takings.map Prod.snd = [false, true] ∧
      (r.run [.take, .hand]).dispatch.handed.length = 1 ∧ (r.run [.take, .hand]).call = .waiting := by
  decide +kernel

/-- The moves by which the task comes to its end if it was told to stop: it goes through with what it is about. -/
def closing : List Move := [.take, .hand, .finish, .look]

/-- What a move of the dispatch task or of its handler makes of the task. Nothing else changes but the records. -/
structure Closes (r r' : Reception) (dispatch : Dispatch) : Prop where
  engine : r'.engine = r.engine
  call : r'.call = r.call
  dispatch : r'.dispatch = dispatch

theorem closes_follow (r : Reception) (d : Option Dispatch) :
    r.Closes ((d.map r.follow).getD r) (d.getD r.dispatch) := by
  cases d <;> exact ⟨rfl, rfl, rfl⟩

theorem closes_finish (r : Reception) : r.Closes ((r.step? .finish).getD r) r.dispatch.finish := by
  cases hphase : r.dispatch.phase <;> constructor <;> simp [step?, hphase, Dispatch.finish]

theorem run_closing {k : Nat} (hk : r.engine.mailbox = some k) (hs : r.engine.stopped = true) :
    (r.run closing).dispatch.phase = .ended ∧ (r.run closing).call = r.call := by
  -- the states after the first three moves
  have htake : r.Closes ((r.step? .take).getD r)
      ((r.dispatch.take? (r.network.sent k) (r.network.isOpen k)).getD r.dispatch) := by
    rw [step?, hk, Option.bind_some]
    exact closes_follow ..
  generalize hx : (r.step? .take).getD r = x at htake
  have hhand : x.Closes ((x.step? .hand).getD x)
      ((x.dispatch.hand? x.engine.handler).getD x.dispatch) := closes_follow ..
  generalize hy : (x.step? .hand).getD x = y at hhand
  have hfinish := closes_finish y
  generalize hz : (y.step? .finish).getD y = z at hfinish
  have hengine : z.engine = r.engine := by rw [hfinish.engine, hhand.engine, htake.engine]
  have hlook : z.Closes ((z.step? .look).getD z) ((z.dispatch.look? true).getD z.dispatch) := by
    rw [step?, hengine, hk, Option.isSome_some, if_pos rfl, hs]
    exact closes_follow ..
  have hrun : r.run closing = (z.step? .look).getD z := by rw [← hz, ← hy, ← hx]; rfl
  refine ⟨?_, ?_⟩
  · rw [hrun, hlook.dispatch, hfinish.dispatch, hhand.dispatch, htake.dispatch]
    exact Dispatch.closes ..
  · rw [hrun, hlook.call, hfinish.call, hhand.call, htake.call]

/-- A call that waits returns as soon as the handler has. -/
theorem shutdown_returns (m : Member) {moves : List Move} (hc : ((new m).run moves).call = .waiting) :
    (((new m).run moves).run (closing ++ [.comeBack])).call = .returned := by
  have h := kept_run m moves
  generalize (new m).run moves = r at h hc ⊢
  obtain ⟨k, hk⟩ := Option.ne_none_iff_exists'.mp (h.started (h.made (by rw [hc]; nofun)))
  obtain ⟨hended, hcall⟩ := run_closing hk (h.signal (.inl hc))
  rw [run, List.foldl_append]
  change ((r.run closing).run [.comeBack]).call = .returned
  generalize r.run closing = x at hended hcall
  show ((x.step? .comeBack).getD x).call = .returned
  rw [step?, if_pos ⟨hcall.trans hc, hended⟩]
  rfl

example : let r := (new ⟨"a", "a:7946", ∅, .alive⟩).run (signalledLate ++ [.take, .hand, .comeBack])
    r.finished = [] ∧ r.call = .waiting ∧ (r.run (closing ++ [.comeBack])).call = .returned := by
  decide +kernel

end Reception

end ReplicatedTable.Gossip
