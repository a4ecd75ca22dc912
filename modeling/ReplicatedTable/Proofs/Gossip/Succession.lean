import Mathlib.Data.List.Induction
import ReplicatedTable.Proofs.Gossip.Joins

/-!
# Engines without a registration

An engine is linked with its registration by the name of its member only. If the member crashes, the engine
does not notice it, and if another engine registers under the name later, its mailbox is a later one (`Dated`).
As long as nobody does, nothing that is asked of the old engine touches the network. After that the old engine
speaks for the newer one: it takes it off the network (`Departed`), gives it other tags (`Retagged`) or joins
in its name (`Introduced`); other registrations are left alone also then.
-/
namespace ReplicatedTable.Gossip

open Std Relation

namespace Network

variable {n n' n'' : Network} {x y name : String} {s : Slot} {P P' : Event → Prop}

/-! ## What is sent -/

/-- Everything that is sent between two states has a property. -/
def Sends (P : Event → Prop) (n n' : Network) : Prop :=
  ∃ es, n'.log = n.log ++ es ∧ ∀ p ∈ es, P p.2

theorem Sends.refl (P : Event → Prop) (n : Network) : Sends P n n :=
  ⟨[], (List.append_nil _).symm, fun _ h => absurd h List.not_mem_nil⟩

theorem Sends.trans (h : Sends P n n') (h' : Sends P n' n'') : Sends P n n'' := by
  obtain ⟨es, hes, hP⟩ := h
  obtain ⟨es', hes', hP'⟩ := h'
  refine ⟨es ++ es', by rw [hes', hes, List.append_assoc], fun p hp => ?_⟩
  exact (List.mem_append.mp hp).elim (hP p) (hP' p)

theorem Sends.mono (h : Sends P n n') (hP : ∀ e, P e → P' e) : Sends P' n n' := by
  obtain ⟨es, hes, hall⟩ := h
  exact ⟨es, hes, fun p hp => hP _ (hall p hp)⟩

theorem Sends.of_log (h : n'.log = n.log) : Sends P n n' :=
  ⟨[], h.trans (List.append_nil _).symm, fun _ hp => absurd hp List.not_mem_nil⟩

theorem Sends.round {f : Slot → NameSet × List Event} (h : ∀ s, ∀ e ∈ (f s).2, P e) (n : Network)
    (xs : List String) : Sends P n (n.round f xs) := by
  induction xs generalizing n with
  | nil => exact .refl P n
  | cons x xs ih =>
    refine Sends.trans ?_ (ih (n.visit f x))
    cases hx : n.slots[x]? with
    | none => rw [visit_of_none hx]; exact .refl P n
    | some s =>
      rw [visit_of_some hx]
      refine ⟨_, rfl, fun p hp => ?_⟩
      obtain ⟨e, he, rfl⟩ := List.mem_map.mp hp
      exact h s e he

/-- A round sends what its visits do, from a network with the same log. -/
theorem Sends.of_round {f : Slot → NameSet × List Event} (hlog : n'.log = n.log)
    (h : ∀ s, ∀ e ∈ (f s).2, P e) (xs : List String) : Sends P n (n'.round f xs) :=
  (Sends.of_log hlog).trans (.round h n' xs)

/-- What a mailbox gets of it. -/
theorem Sends.sent (h : Sends P n n') (k : Nat) : ∃ es, n'.sent k = n.sent k ++ es ∧ ∀ e ∈ es, P e := by
  obtain ⟨es, hes, hall⟩ := h
  refine ⟨es.filterMap fun p => if p.1 = k then some p.2 else none, ?_, fun e he => ?_⟩
  · rw [Network.sent, hes, List.filterMap_append, Network.sent]
  · obtain ⟨p, hp, hpe⟩ := List.mem_filterMap.mp he
    split at hpe
    · rw [← Option.some.inj hpe]
      exact hall p hp
    · cases hpe

/-! ## What a handle does to a registration -/

/-- A member has left: those who knew it have it no more in their views and were told so. -/
structure Departed (n n' : Network) (name : String) (s : Slot) : Prop where
  slots : ∀ y : String, n'.slots[y]? = if y = name then none else
    (n.slots[y]?).map fun u => { u with view := u.view.erase name }
  told : ∀ {y : String} {u : Slot}, n.slots[y]? = some u → n'.sent u.mailbox = n.sent u.mailbox ++
    if y ∈ s.view ∧ y ≠ name then [.members .leave [{ s.member with status := .left }]] else []

/-- A member has other tags, and those in its view were told so. -/
structure Retagged (n n' : Network) (name : String) (s : Slot) (tags : Tags) : Prop where
  slots : ∀ y : String, n'.slots[y]? =
    if y = name then some { s with member := { s.member with tags := tags } } else n.slots[y]?
  told : ∀ {y : String} {u : Slot}, n.slots[y]? = some u → n'.sent u.mailbox = n.sent u.mailbox ++
    if y ∈ s.view then [.members .update [{ s.member with tags := tags }]] else []

/-- Members may have other views, and nobody was told but of members who joined. -/
structure Introduced (n n' : Network) : Prop where
  slots : ∀ y : String, ∃ v : Slot → NameSet, n'.slots[y]? = (n.slots[y]?).map fun u => { u with view := v u }
  told : Sends (fun e => ∃ ms, e = .members .join ms) n n'

theorem departed_leave (hn : n.Tidy) (hp : n.Partition) (hs : n.slots[name]? = some s) :
    Departed n (n.leave name) name s := by
  have hround : n.leave name = (n.without name).round
      (farewell name (.members .leave [{ s.member with status := .left }])) (n.observers name s) := by
    rw [leave, depart_eq hs]
  have hnodup := nodup_observers n name s
  have hapart : (n.without name).Apart := (Keeps.without n name).apart hn.apart
  have hwithout : ∀ {y : String}, y ≠ name → (n.without name).slots[y]? = n.slots[y]? := by
    intro y hy
    rw [without, getElem?_erase, if_neg (Ne.symm hy)]
  have hsent : ∀ k, (n.without name).sent k = n.sent k := fun _ => rfl
  constructor
  · intro y
    rw [hround, slots_round _ _ hnodup]
    simp only [mem_observers hp hs]
    by_cases hy : y = name
    · subst hy
      simp [without]
    · rw [hwithout hy, if_neg hy]
      by_cases hv : y ∈ s.view
      · rw [if_pos ⟨hv, hy⟩]
        rfl
      · rw [if_neg fun h => hv h.1]
        cases hu : n.slots[y]? with
        | none => rfl
        | some u =>
          -- a view without the member stays as it is
          have hname : name ∉ u.view := fun hmem =>
            hv (hp.eq_of_mem (view?_of_slot hu) (view?_of_slot hs) hmem
              (hp.self (view?_of_slot hs)) ▸ hp.self (view?_of_slot hu))
          have herase : u.view.erase name = u.view := ExtTreeSet.ext_mem fun z => by
            rw [ExtTreeSet.mem_erase]
            exact ⟨And.right, fun hz => ⟨fun e => hname (LawfulEqCmp.eq_of_compare e ▸ hz), hz⟩⟩
          rw [Option.map_some, herase]
  · intro y u hu
    rw [hround]
    by_cases hy : y = name
    · subst hy
      cases hs.symm.trans hu
      rw [sent_round_other, hsent, if_neg fun h => h.2 rfl, List.append_nil]
      intro x t ht e
      by_cases hx : x = y
      · subst hx
        simp [without] at ht
      · rw [hwithout hx] at ht
        exact hx (hn.apart ht hu e)
    · rw [sent_round hapart hnodup ((hwithout hy).trans hu), hsent]
      simp only [mem_observers hp hs]
      rfl

theorem retagged_update (hn : n.Tidy) (hs : n.slots[name]? = some s) (tags : Tags) :
    Retagged n (n.update name tags).1 name s tags := by
  have hnodup := nodup_toList s.view
  have hapart : (n.retag name s tags).Apart := (Keeps.retag hs tags).apart hn.apart
  rw [update_eq hs]
  constructor
  · intro y
    dsimp only
    rw [slots_round _ _ hnodup]
    have hnotice : ∀ {e : Event}, (fun u : Slot => { u with view := (notice e u).1 }) = id := rfl
    rw [hnotice, Option.map_id, id, ite_self, retag, getElem?_insert]
    by_cases hy : y = name
    · rw [if_pos hy.symm, if_pos hy]
    · rw [if_neg (Ne.symm hy), if_neg hy]
  · intro y u hu
    obtain ⟨t, ht, e⟩ : ∃ t, (n.retag name s tags).slots[y]? = some t ∧ t.mailbox = u.mailbox := by
      rw [retag, getElem?_insert]
      by_cases hy : name = y
      · subst hy
        cases hs.symm.trans hu
        exact ⟨_, if_pos rfl, rfl⟩
      · exact ⟨u, (if_neg hy).trans hu, rfl⟩
    rw [← e, sent_round hapart hnodup ht]
    simp only [ExtTreeSet.mem_toList]
    rfl

theorem Introduced.refl (n : Network) : Introduced n n :=
  ⟨fun y => ⟨Slot.view, by rw [Option.map_id']⟩, .refl _ n⟩

theorem Introduced.trans (h : Introduced n n') (h' : Introduced n' n'') : Introduced n n'' := by
  refine ⟨fun y => ?_, h.told.trans h'.told⟩
  obtain ⟨v, hv⟩ := h.slots y
  obtain ⟨v', hv'⟩ := h'.slots y
  exact ⟨fun u => v' { u with view := v u }, by rw [hv', hv, Option.map_map]; rfl⟩

theorem introduced_merge (n : Network) (name target : String) :
    Introduced n (n.merge name target).1 := by
  rcases merge_cases n name target with h | ⟨s, t, -, -, h⟩ <;> rw [h]
  · exact .refl n
  · refine ⟨fun y => ?_, .round (fun u e he => ?_) n _⟩
    · rw [slots_round _ _ (nodup_toList _)]
      split
      · exact ⟨_, rfl⟩
      · exact ⟨Slot.view, by rw [Option.map_id']⟩
    · rw [welcome] at he
      dsimp only at he
      split at he
      · cases he
      · exact ⟨_, List.mem_singleton.mp he⟩

theorem introduced_mergeAll (n : Network) (links : List (String × String)) :
    Introduced n (n.mergeAll links) := by
  induction links generalizing n with
  | nil => exact .refl n
  | cons p links ih => exact (introduced_merge n p.1 p.2).trans (ih _)

end Network

/-! ## Engines and registrations -/

namespace Engine

open Network

variable {e e' : Engine} {n n' : Network}

/-- A started engine has got a mailbox, and whoever is registered under its name has this one or a later
one. -/
def Dated (e : Engine) (n : Network) : Prop := e.started = true → ∃ k, e.mailbox = some k ∧
  k < n.mailboxes ∧ ∀ t, n.slots[e.member.name]? = some t → k ≤ t.mailbox

theorem Dated.of_eq (h : e.Dated n) (hs : e'.started = e.started) (hm : e'.mailbox = e.mailbox)
    (hname : e'.member.name = e.member.name) : e'.Dated n := by
  unfold Dated
  rw [hs, hm, hname]
  exact h

theorem Dated.move (h : e.Dated n) (hn : n.Tidy) (hm : Move n n') : e.Dated n' := by
  intro hs
  obtain ⟨k, hk, hlt, hle⟩ := h hs
  refine ⟨k, hk, ?_⟩
  rcases hm.register_or_keeps hn with ⟨m, mailbox, hr⟩ | hkeeps
  · obtain ⟨-, -, -, rfl⟩ := register_ok hr
    refine ⟨Nat.lt_succ_of_lt hlt, fun t ht => ?_⟩
    rw [getElem?_insert] at ht
    split at ht
    · cases ht
      exact Nat.le_of_lt hlt
    · exact hle t ht
  · refine ⟨hkeeps.mailboxes ▸ hlt, fun t ht => ?_⟩
    obtain ⟨u, hu, -, -, e⟩ := hkeeps.slot ht
    exact e ▸ hle u hu

theorem Dated.moves (h : e.Dated n) (hn : n.Tidy) (hm : ReflTransGen Move n n') :
    e.Dated n' ∧ n'.Tidy := by
  induction hm with
  | refl => exact ⟨h, hn⟩
  | tail _ hm ih => exact ⟨ih.1.move ih.2 hm, ih.2.move hm⟩

theorem Dated.start (h : e.Dated n) : (e.start n).2.1.Dated (e.start n).1 := by
  unfold Engine.start
  split
  · exact h
  · split
    · exact h
    · split
      · exact h
      · rename_i hr
        obtain ⟨-, -, rfl, rfl⟩ := register_ok hr
        refine fun _ => ⟨_, rfl, Nat.lt_succ_self _, fun t ht => ?_⟩
        rw [getElem?_insert, if_pos rfl] at ht
        cases ht
        exact Nat.le_refl _

theorem setTags_same (hn : n.Tidy) (tags : Tags) :
    (e.setTags n tags).2.1.started = e.started ∧ (e.setTags n tags).2.1.mailbox = e.mailbox ∧
      (e.setTags n tags).2.1.member.name = e.member.name := by
  unfold Engine.setTags
  split
  · exact ⟨rfl, rfl, rfl⟩
  · split
    · rename_i hu
      refine ⟨rfl, rfl, ?_⟩
      cases hs : n.slots[e.member.name]? with
      | none => rw [update_of_none hs] at hu; cases hu
      | some s =>
        rw [update_eq hs] at hu
        cases hu
        exact hn.name hs
    · exact ⟨rfl, rfl, rfl⟩

end Engine

namespace Session

open Network

variable {s s' : Session} {op : Op} {answer : Except Error Answer} {on : String} {l : Listener}

theorem engine_turn (n : Network) (fuel : Nat) (l : Listener) :
    (Listener.turn n fuel l).engine = l.engine := by
  induction fuel generalizing l with
  | zero => rfl
  | succ fuel ih =>
    unfold Listener.turn
    split
    · rfl
    · exact ih _
    · dsimp only
      split
      · rfl
      · split
        · rfl
        · split
          · split
            · rfl
            · exact ih _
          · exact ih _

theorem engine_wait (s : Session) (on : String) :
    (s.wait.listeners[on]?).map Listener.engine = (s.listeners[on]?).map Listener.engine := by
  rw [wait, ExtTreeMap.getElem?_map, Option.map_map]
  exact congrArg (fun f => Option.map f s.listeners[on]?) (funext fun l => engine_turn ..)

/-- All engines have got their mailboxes before those who are registered under their names by now. -/
def Dated (s : Session) : Prop :=
  ∀ (on : String) (l : Listener), s.listeners[on]? = some l → l.engine.Dated s.network

/-- Engines that are added are new. -/
def Op.AddsNew : Op → Prop
  | .add _ l => l.engine.started = false
  | _ => True

theorem Dated.put (h : s.Dated) (hl : l.engine.Dated s.network) : (s.put on l).Dated := by
  intro on' l' hl'
  rw [Session.put, getElem?_insert] at hl'
  split at hl'
  · cases hl'
    exact hl
  · exact h on' l' hl'

theorem Dated.network {n : Network} (h : s.Dated) (hn : s.network.Tidy)
    (hm : ReflTransGen Move s.network n) : Dated { s with network := n } :=
  fun on l hl => ((h on l hl).moves hn hm).1

theorem Dated.shutdown (h : s.Dated) (hn : s.network.Tidy) (hl : s.listeners[on]? = some l) :
    (s.shutdown on l).Dated := by
  unfold Session.shutdown
  split
  · exact h
  · have hm := (requestStop_request l.engine s.network).moves
    have hput : (Session.put { s with network := (l.engine.requestStop s.network).1 } on
        { l with engine := (l.engine.requestStop s.network).2 }).Dated := by
      refine (h.network hn hm).put (((h on l hl).moves hn hm).1.of_eq ?_ ?_ ?_) <;>
        dsimp only <;> unfold Engine.requestStop <;> split <;> rfl
    dsimp only
    split
    · intro on' l' hl'
      obtain ⟨l'', hl'', e⟩ := Option.map_eq_some_iff.mp
        ((engine_wait _ on').symm.trans (congrArg (Option.map Listener.engine) hl'))
      exact e ▸ hput on' l'' hl''
    · exact hput

theorem Dated.step (h : s.Dated) (hn : s.network.Tidy) (hop : op.AddsNew)
    (hstep : s.step? op = some (s', answer)) : s'.Dated := by
  have hm := step_moves hstep
  cases op with
  | add name l =>
    cases hstep
    refine h.put fun hs => ?_
    rw [Op.AddsNew] at hop
    rw [hop] at hs
    cases hs
  | listen name =>
    obtain ⟨l, hl, rfl⟩ := withListener_eq hstep
    exact h.put ((h name l hl).of_eq rfl rfl rfl)
  | start name =>
    obtain ⟨l, hl, rfl⟩ := withListener_eq hstep
    exact (h.network hn hm).put (h name l hl).start
  | shutdown name =>
    obtain ⟨l, hl, rfl⟩ := withListener_eq hstep
    exact h.shutdown hn hl
  | join name addresses =>
    obtain ⟨l, hl, rfl⟩ := withListener_eq hstep
    exact h.network hn hm
  | setTags name tags =>
    obtain ⟨l, hl, rfl⟩ := withListener_eq hstep
    obtain ⟨hs, hmailbox, hname⟩ := Engine.setTags_same (e := l.engine) hn tags
    exact (h.network hn hm).put (((h name l hl).moves hn hm).1.of_eq hs hmailbox hname)
  | fail member => cases hstep; exact h.network hn hm
  | reap member => cases hstep; exact h.network hn hm

theorem dated_run (ops : List Op) (hops : ∀ op ∈ ops, op.AddsNew) : (run {} ops).Dated := by
  induction ops using List.reverseRecOn with
  | nil => exact fun on l hl => by simp [run] at hl
  | append_singleton ops op ih =>
    have h := ih fun o ho => hops o (List.mem_append_left _ ho)
    rw [run_append]
    show Dated ((((run {} ops).step? op).map (·.1)).getD (run {} ops))
    cases hstep : (run {} ops).step? op with
    | none => exact h
    | some p =>
      exact h.step (tidy_run ops) (hops op (List.mem_append_right _ (List.mem_singleton_self op)))
        hstep

/-! ## What is asked of an engine -/

/-- Something is asked of the engine that is held under a name. -/
inductive Op.Asks (on : String) : Op → Prop where
  | join (addresses : List String) : Asks on (.join on addresses)
  | setTags (tags : Tags) : Asks on (.setTags on tags)
  | shutdown : Asks on (.shutdown on)

theorem network_setTags (hl : s.listeners[on]? = some l) (tags : Tags) :
    (s.run [.setTags on tags]).network = (l.engine.setTags s.network tags).1 := by
  show ((((s.step? (.setTags on tags)).map (·.1)).getD s)).network = _
  rw [step?, withListener, hl]
  rfl

theorem network_shutdown (hl : s.listeners[on]? = some l) :
    (s.run [.shutdown on]).network = (l.engine.requestStop s.network).1 := by
  rw [← shutdown_network s on l]
  show ((((s.step? (.shutdown on)).map (·.1)).getD s)).network = _
  rw [step?, withListener, hl]
  rfl

theorem network_join (hl : s.listeners[on]? = some l) (addresses : List String) :
    (s.run [.join on addresses]).network = s.network.mergeAll (l.engine.links addresses) := by
  have h := network_joinAll s [(on, addresses)]
  rw [List.flatMap_singleton, links, hl] at h
  exact h

/-- An engine that does not run, or under whose name nobody is registered, does nothing to the network. -/
theorem network_of_idle (hn : s.network.Tidy) (hl : s.listeners[on]? = some l)
    (hidle : l.engine.running = false ∨ s.network.slots[l.engine.member.name]? = none)
    (hop : op.Asks on) : (s.run [op]).network = s.network := by
  cases hop with
  | join addresses =>
    rw [network_join hl]
    refine mergeAll_of_alone hn fun a b ⟨target, hmem, hc⟩ => ?_
    rw [Engine.links] at hmem
    split at hmem
    · rename_i hrun
      obtain ⟨_, -, e⟩ := List.mem_map.mp hmem
      cases e
      rcases hidle with h | h
      · rw [h] at hrun
        cases hrun
      · have hreg := hc.1
        rw [member?, h] at hreg
        cases hreg
    · cases hmem
  | setTags tags =>
    rw [network_setTags hl, Engine.setTags]
    rcases hidle with h | h
    · rw [h]
      rfl
    · rw [update_of_none h]
      split <;> rfl
  | shutdown =>
    rw [network_shutdown hl, Engine.requestStop]
    split
    · rfl
    · rename_i hstopped
      dsimp only
      split
      · rename_i hstarted
        rcases hidle with h | h
        · rw [Engine.running, hstarted, Bool.eq_false_iff.mpr hstopped] at h
          cases h
        · rw [leave, depart_of_none h]
      · rfl

/-- What comes of an engine that is asked for anything. If it does not run, or its name is not registered,
the network stays as it is. If it runs and somebody else is registered under its name, who came later, then
this one is taken off the network, gets the tags or joins, and those who know it hear of it; all other
registrations are kept. -/
theorem late_handle (ops : List Op) (hops : ∀ op ∈ ops, op.AddsNew) {on : String} {l : Listener}
    (hl : (run {} ops).listeners[on]? = some l) :
    (l.engine.running = false ∨ (run {} ops).network.slots[l.engine.member.name]? = none →
      ∀ op : Op, op.Asks on → ((run {} ops).run [op]).network = (run {} ops).network) ∧
    ∀ t, l.engine.running = true → (run {} ops).network.slots[l.engine.member.name]? = some t →
      l.engine.mailbox ≠ some t.mailbox →
      (∃ k, l.engine.mailbox = some k ∧ k < t.mailbox) ∧
      Departed (run {} ops).network ((run {} ops).run [.shutdown on]).network l.engine.member.name t ∧
      (∀ tags, Retagged (run {} ops).network ((run {} ops).run [.setTags on tags]).network
        l.engine.member.name t tags) ∧
      ∀ addresses, Introduced (run {} ops).network ((run {} ops).run [.join on addresses]).network ∧
        ∀ x y, ((run {} ops).run [.join on addresses]).network.Knows x y ↔
          (run {} ops).network.Knows x y ∨
            (run {} ops).Gathers on addresses x ∧ (run {} ops).Gathers on addresses y := by
  obtain ⟨hn, hp⟩ := ordered_run ops
  have hdated := dated_run ops hops on l hl
  generalize run {} ops = s at hl hn hp hdated ⊢
  refine ⟨fun hidle op => network_of_idle hn hl hidle, fun t hrun ht hother => ?_⟩
  obtain ⟨hstarted, hstopped⟩ : l.engine.started = true ∧ l.engine.stopped = false := by
    simpa [Engine.running] using hrun
  refine ⟨?_, ?_, fun tags => ?_, fun addresses => ⟨?_, fun x y => ?_⟩⟩
  · obtain ⟨k, hk, -, hle⟩ := hdated hstarted
    refine ⟨k, hk, Nat.lt_of_le_of_ne (hle t ht) fun e => hother ?_⟩
    rw [hk, e]
  · have hleave : (l.engine.requestStop s.network).1 = s.network.leave l.engine.member.name := by
      simp [Engine.requestStop, hstarted, hstopped]
    rw [network_shutdown hl, hleave]
    exact departed_leave hn hp ht
  · have hupdate : (l.engine.setTags s.network tags).1 =
        (s.network.update l.engine.member.name tags).1 := by
      rw [Engine.setTags, hrun, update_eq ht]
      rfl
    rw [network_setTags hl, hupdate]
    exact retagged_update hn ht tags
  · rw [network_join hl]
    exact introduced_mergeAll _ _
  · exact knows_join hp hn on addresses

/-- A member crashes and is started again as another engine, which joins an old acquaintance. The engine that
crashed is still held. -/
def restart : List Op :=
  let engine (name : String) : Listener :=
    { engine := { member := { name := name, address := name ++ ":7946" } } }
  [.add "b" (engine "b"), .start "b", .add "c" (engine "c"), .start "c", .add "old" (engine "a"), .start "old",
    .fail "a", .add "new" (engine "a"), .start "new", .join "new" ["b:7946"]]

theorem late_handle_of_restart : ∃ t, (run {} restart).network.slots["a"]? = some t ∧ 2 < t.mailbox ∧
    Departed (run {} restart).network ((run {} restart).run [.shutdown "old"]).network "a" t := by
  have hold : ((run {} restart).listeners["old"]?).any (fun l => decide (l.engine.running = true ∧
      l.engine.member.name = "a" ∧ l.engine.mailbox = some 2)) = true := by decide +kernel
  have hnew : ((run {} restart).network.slots["a"]?).any (fun t => decide (t.mailbox = 3)) = true := by
    decide +kernel
  obtain ⟨l, hl, hold⟩ := (Option.any_eq_true _ _).mp hold
  obtain ⟨hrun, hname, hmailbox⟩ := of_decide_eq_true hold
  obtain ⟨t, ht, hnew⟩ := (Option.any_eq_true _ _).mp hnew
  have hnew := of_decide_eq_true hnew
  obtain ⟨⟨k, hk, hlt⟩, hgone, -⟩ := (late_handle restart (by simp [restart, Op.AddsNew]) hl).2 t hrun
    (hname ▸ ht) (by rw [hmailbox, hnew]; decide)
  rw [hmailbox, Option.some.injEq] at hk
  exact ⟨t, ht, hk ▸ hlt, hname ▸ hgone⟩

/-- What is asked of the engine that crashed befalls the one that was started after it: it is taken off the
network, gets tags or joins somebody, and the others are told so. -/
theorem late_handle_acts_on_successor :
    (run {} restart).network.names = ["a", "b", "c"] ∧
    ((run {} restart).run [.shutdown "old"]).network.names = ["b", "c"] ∧
    ((run {} restart).run [.shutdown "old"]).network.sent 0 = (run {} restart).network.sent 0 ++
      [.members .leave [{ name := "a", address := "a:7946", status := .left }]] ∧
    ((run {} restart).run [.setTags "old" ((∅ : Tags).insert "role" "old")]).network.sent 0 =
      (run {} restart).network.sent 0 ++ [.members .update
        [{ name := "a", address := "a:7946", tags := (∅ : Tags).insert "role" "old" }]] ∧
    ((((run {} restart).run [.setTags "old" ((∅ : Tags).insert "role" "old")]).network.member? "a").map
      Member.tags) = some ((∅ : Tags).insert "role" "old") ∧
    (((run {} restart).network.view? "a").map (·.toList)) = some ["a", "b"] ∧
    ((((run {} restart).run [.join "old" ["c:7946"]]).network.view? "a").map (·.toList)) =
      some ["a", "b", "c"] := by
  decide +kernel

end Session

end ReplicatedTable.Gossip
