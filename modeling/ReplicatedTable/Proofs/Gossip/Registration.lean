import Mathlib.Logic.Relation
import ReplicatedTable.Proofs.Gossip.Round

/-!
# Registrations on the gossip network

Names, addresses and mailboxes of registered members are kept apart (`Tidy`). Whatever happens to the engines
of a session, its network goes through single operations (`Move`, `step_moves`), so what they keep holds in all
runs (`run_induction`). All of them but a registration keep those who stay registered as they are and send
nothing to anybody else (`Keeps`).
-/
namespace ReplicatedTable.Gossip

open Std Relation

namespace Network

variable {n n' : Network} {x y z name target : String} {s t : Slot} {v w : NameSet}

/-! ## Registrations -/

/-- What registration keeps apart: members are registered under their names, and share neither addresses nor
mailboxes. Nothing is sent to a mailbox before there is one, and nobody is told twice that a member is
reaped. -/
structure Tidy (n : Network) : Prop where
  name : ∀ {x : String} {s : Slot}, n.slots[x]? = some s → s.member.name = x
  address : ∀ {x y : String} {s t : Slot}, n.slots[x]? = some s → n.slots[y]? = some t →
    s.member.address = t.member.address → x = y
  apart : n.Apart
  opened : ∀ {x : String} {s : Slot}, n.slots[x]? = some s → s.mailbox < n.mailboxes
  unopened : ∀ {k : Nat}, n.mailboxes ≤ k → n.sent k = []
  observers : ∀ {x : String} {m : Member} {told : List String},
    n.failed[x]? = some (m, told) → told.Nodup

theorem tidy_empty : Tidy {} where
  name h := by simp at h
  address h := by simp at h
  apart h := by simp at h
  opened h := by simp at h
  unopened _ := rfl
  observers h := by simp at h

/-- Registrations are kept, if perhaps not all of them, and nothing is sent but to registered members. -/
structure Keeps (n n' : Network) : Prop where
  slot : ∀ {x : String} {t : Slot}, n'.slots[x]? = some t → ∃ s, n.slots[x]? = some s ∧
    t.member.name = s.member.name ∧ t.member.address = s.member.address ∧ t.mailbox = s.mailbox
  mailboxes : n'.mailboxes = n.mailboxes
  quiet : ∀ {k : Nat}, (∀ (x : String) (s : Slot), n.slots[x]? = some s → s.mailbox ≠ k) →
    n'.sent k = n.sent k

theorem Keeps.of_slots (h : n'.slots = n.slots) (hm : n'.mailboxes = n.mailboxes)
    (hl : n'.log = n.log) : Keeps n n' :=
  ⟨fun ht => ⟨_, h ▸ ht, rfl, rfl, rfl⟩, hm, fun _ => by rw [sent, hl, sent]⟩

theorem Keeps.trans {n'' : Network} (h : Keeps n n') (h' : Keeps n' n'') : Keeps n n'' where
  slot ht := by
    obtain ⟨s', hs', h1, h2, h3⟩ := h'.slot ht
    obtain ⟨s, hs, h4, h5, h6⟩ := h.slot hs'
    exact ⟨s, hs, h1.trans h4, h2.trans h5, h3.trans h6⟩
  mailboxes := h'.mailboxes.trans h.mailboxes
  quiet hk := by
    rw [h'.quiet fun x t ht => ?_, h.quiet hk]
    obtain ⟨s, hs, -, -, e⟩ := h.slot ht
    exact e ▸ hk x s hs

theorem Keeps.round (f : Slot → NameSet × List Event) (n : Network) {xs : List String}
    (hxs : xs.Nodup) : Keeps n (n.round f xs) where
  slot ht := by
    rw [slots_round f n hxs] at ht
    split at ht
    · obtain ⟨s, hs, rfl⟩ := Option.map_eq_some_iff.mp ht
      exact ⟨s, hs, rfl, rfl, rfl⟩
    · exact ⟨_, ht, rfl, rfl, rfl⟩
  mailboxes := (mailboxes_round f n xs).1
  quiet hk := sent_round_other hk xs

theorem Keeps.apart (h : Keeps n n') (hn : n.Apart) : n'.Apart := fun ht ht' e => by
  obtain ⟨s, hs, -, -, es⟩ := h.slot ht
  obtain ⟨s', hs', -, -, es'⟩ := h.slot ht'
  exact hn hs hs' (by rw [← es, e, es'])

theorem Tidy.keeps (h : n.Tidy) (hk : Keeps n n') (hf : ∀ {x : String} {m : Member}
    {told : List String}, n'.failed[x]? = some (m, told) → told.Nodup) : n'.Tidy where
  name ht := by
    obtain ⟨s, hs, e, -⟩ := hk.slot ht
    rw [e, h.name hs]
  address ht ht' e := by
    obtain ⟨s, hs, -, es, -⟩ := hk.slot ht
    obtain ⟨s', hs', -, es', -⟩ := hk.slot ht'
    exact h.address hs hs' (by rw [← es, e, es'])
  apart := hk.apart h.apart
  opened ht := by
    obtain ⟨s, hs, -, -, e⟩ := hk.slot ht
    rw [e, hk.mailboxes]
    exact h.opened hs
  unopened hle := by
    rw [hk.mailboxes] at hle
    rw [hk.quiet fun x s hs e => ?_, h.unopened hle]
    have := h.opened hs
    omega
  observers := hf

theorem Tidy.register {m : Member} {mailbox : Nat} (h : n.Tidy)
    (hr : n.register m = .ok (n', mailbox)) : n'.Tidy := by
  obtain ⟨hname, haddress, -, rfl⟩ := register_ok hr
  have hnone : n.slots[m.name]? = none := ExtTreeMap.getElem?_eq_none hname
  have hcases : ∀ {x : String} {s : Slot}, (n.slots.insert m.name
      ⟨m, (∅ : NameSet).insert m.name, n.mailboxes⟩)[x]? = some s →
      (x = m.name ∧ s = ⟨m, (∅ : NameSet).insert m.name, n.mailboxes⟩) ∨ n.slots[x]? = some s := by
    intro x s hs
    rw [getElem?_insert] at hs
    split at hs
    · rename_i e
      exact Or.inl ⟨e.symm, (Option.some.inj hs).symm⟩
    · exact Or.inr hs
  constructor
  case name =>
    intro x s hs
    rcases hcases hs with ⟨rfl, rfl⟩ | hs
    · rfl
    · exact h.name hs
  case address =>
    intro x y s t hs ht e
    rcases hcases hs with ⟨rfl, rfl⟩ | hs <;> rcases hcases ht with ⟨rfl, rfl⟩ | ht
    · rfl
    · exact absurd e.symm (haddress y t ht)
    · exact absurd e (haddress x s hs)
    · exact h.address hs ht e
  case apart =>
    intro x y s t hs ht e
    rcases hcases hs with ⟨rfl, rfl⟩ | hs <;> rcases hcases ht with ⟨rfl, rfl⟩ | ht
    · rfl
    · exact absurd e.symm (Nat.ne_of_lt (h.opened ht))
    · exact absurd e (Nat.ne_of_lt (h.opened hs))
    · exact h.apart hs ht e
  case opened =>
    intro x s hs
    rcases hcases hs with ⟨rfl, rfl⟩ | hs
    · exact Nat.lt_succ_self _
    · exact Nat.lt_succ_of_lt (h.opened hs)
  case unopened =>
    intro k hk
    have hk : n.mailboxes + 1 ≤ k := hk
    show sent { n with log := n.log ++ [Event.members .join [m]].map (Prod.mk n.mailboxes) } k = []
    rw [sent_append, h.unopened (by omega), if_neg (by omega), List.append_nil]
  case observers => exact h.observers

theorem nodup_observers (n : Network) (name : String) (s : Slot) : (n.observers name s).Nodup :=
  ((nodup_toList s.view).filter _).filter _

theorem Keeps.merge (n : Network) (name target : String) : Keeps n (n.merge name target).1 := by
  rcases merge_cases n name target with h | ⟨s, t, -, -, h⟩ <;> rw [h]
  · exact .of_slots rfl rfl rfl
  · exact .round _ n (nodup_toList _)

theorem Keeps.without (n : Network) (name : String) : Keeps n (n.without name) := by
  refine ⟨fun {x t} ht => ?_, rfl, fun _ => rfl⟩
  rw [Network.without, getElem?_erase] at ht
  split at ht
  · cases ht
  · exact ⟨t, ht, rfl, rfl, rfl⟩

theorem Keeps.retag (hs : n.slots[name]? = some s) (tags : Tags) :
    Keeps n (n.retag name s tags) := by
  refine ⟨fun {x t} ht => ?_, rfl, fun _ => rfl⟩
  rw [Network.retag, getElem?_insert] at ht
  split at ht
  · rename_i e
    cases ht
    exact ⟨s, e ▸ hs, rfl, rfl, rfl⟩
  · exact ⟨t, ht, rfl, rfl, rfl⟩

theorem Keeps.depart (n : Network) (name : String) (kind : EventKind) (status : Liveness) :
    Keeps n (n.depart name kind status).1 := by
  cases hs : n.slots[name]? with
  | none => rw [depart_of_none hs]; exact .of_slots rfl rfl rfl
  | some s =>
    rw [depart_eq hs]
    exact (Keeps.without n name).trans (.round _ _ (nodup_observers n name s))

theorem Keeps.update (n : Network) (name : String) (tags : Tags) :
    Keeps n (n.update name tags).1 := by
  cases hs : n.slots[name]? with
  | none => rw [update_of_none hs]; exact .of_slots rfl rfl rfl
  | some s =>
    rw [update_eq hs]
    exact (Keeps.retag hs tags).trans (.round _ _ (nodup_toList _))

theorem Keeps.reap (h : n.Tidy) (name : String) : Keeps n (n.reap name).1 := by
  cases hf : n.failed[name]? with
  | none => rw [reap_of_none hf]; exact .of_slots rfl rfl rfl
  | some p =>
    obtain ⟨m, told⟩ := p
    rw [reap_eq hf]
    have herase : Keeps n { n with failed := n.failed.erase name } := .of_slots rfl rfl rfl
    exact herase.trans (.round _ _ (h.observers hf))

/-! ## Moves of a network -/

/-- One operation on a network. -/
inductive Move (n : Network) : Network → Prop where
  | register {m : Member} {n' : Network} {mailbox : Nat} (h : n.register m = .ok (n', mailbox)) : Move n n'
  | merge (name target : String) : Move n (n.merge name target).1
  | leave (name : String) : Move n (n.leave name)
  | fail (name : String) : Move n (n.fail name).1
  | reap (name : String) : Move n (n.reap name).1
  | update (name : String) (tags : Tags) : Move n (n.update name tags).1

theorem failed_round_of {f : Slot → NameSet × List Event} {xs : List String} :
    (n.round f xs).failed = n.failed := (mailboxes_round f n xs).2

theorem failed_merge (n : Network) (name target : String) :
    (n.merge name target).1.failed = n.failed := by
  rcases merge_cases n name target with h | ⟨s, t, -, -, h⟩ <;> rw [h]
  exact failed_round_of

theorem failed_depart (n : Network) (name : String) (kind : EventKind) (status : Liveness) :
    (n.depart name kind status).1.failed = n.failed := by
  cases hs : n.slots[name]? with
  | none => rw [depart_of_none hs]
  | some s => rw [depart_eq hs]; exact failed_round_of

theorem failed_update (n : Network) (name : String) (tags : Tags) :
    (n.update name tags).1.failed = n.failed := by
  cases hs : n.slots[name]? with
  | none => rw [update_of_none hs]
  | some s => rw [update_eq hs]; exact failed_round_of

theorem fail_eq (hs : n.slots[name]? = some s) : (n.fail name).1 =
    { (n.depart name .failed .failed).1 with
      failed := n.failed.insert name ({ s.member with status := .failed }, n.observers name s) } := by
  have hfailed := failed_depart n name .failed .failed
  rw [fail]
  rw [depart_eq hs] at hfailed ⊢
  dsimp only at hfailed ⊢
  rw [hfailed]

theorem fail_of_none (h : n.slots[name]? = none) : n.fail name = (n, false) := by
  rw [fail, depart_of_none h]

theorem Move.register_or_keeps (hm : Move n n') (h : n.Tidy) :
    (∃ m mailbox, n.register m = .ok (n', mailbox)) ∨ Keeps n n' := by
  cases hm with
  | register hr => exact Or.inl ⟨_, _, hr⟩
  | merge name target => exact Or.inr (.merge n name target)
  | leave name => exact Or.inr (.depart n name .leave .left)
  | fail name =>
    cases hs : n.slots[name]? with
    | none => rw [fail_of_none hs]; exact Or.inr (.of_slots rfl rfl rfl)
    | some s =>
      rw [fail_eq hs]
      exact Or.inr ((Keeps.depart n name .failed .failed).trans (.of_slots rfl rfl rfl))
  | reap name => exact Or.inr (.reap h name)
  | update name tags => exact Or.inr (.update n name tags)

/-- Those who saw a member fail are noted down once. -/
theorem nodup_failed (h : n.Tidy) (hm : Move n n') {m : Member} {told : List String}
    (hf : n'.failed[x]? = some (m, told)) : told.Nodup := by
  cases hm with
  | register hr =>
    obtain ⟨-, -, -, rfl⟩ := register_ok hr
    exact h.observers hf
  | merge name target => exact h.observers (failed_merge n name target ▸ hf)
  | leave name => exact h.observers (failed_depart n name .leave .left ▸ hf)
  | fail name =>
    cases hs : n.slots[name]? with
    | none =>
      rw [fail_of_none hs] at hf
      exact h.observers hf
    | some s =>
      rw [fail_eq hs, getElem?_insert] at hf
      split at hf
      · cases hf
        exact nodup_observers n name s
      · exact h.observers hf
  | reap name =>
    cases hfailed : n.failed[name]? with
    | none =>
      rw [reap_of_none hfailed] at hf
      exact h.observers hf
    | some p =>
      rw [reap_eq hfailed, failed_round_of, getElem?_erase] at hf
      split at hf
      · cases hf
      · exact h.observers hf
  | update name tags => exact h.observers (failed_update n name tags ▸ hf)

theorem Tidy.move (h : n.Tidy) (hm : Move n n') : n'.Tidy := by
  rcases hm.register_or_keeps h with ⟨m, mailbox, hr⟩ | hkeeps
  · exact h.register hr
  · exact h.keeps hkeeps (nodup_failed h hm)

/-! ## Requests -/

/-- Joins one after the other, each of a name with the member at an address. -/
def mergeAll (n : Network) (links : List (String × String)) : Network :=
  links.foldl (fun n p => (n.merge p.1 p.2).1) n

theorem mergeAll_cons (n : Network) (p : String × String) (links : List (String × String)) :
    n.mergeAll (p :: links) = (n.merge p.1 p.2).1.mergeAll links := rfl

theorem mergeAll_append (n : Network) (links more : List (String × String)) :
    n.mergeAll (links ++ more) = (n.mergeAll links).mergeAll more := List.foldl_append ..

theorem mergeAll_moves (n : Network) (links : List (String × String)) :
    ReflTransGen Move n (n.mergeAll links) := by
  induction links generalizing n with
  | nil => exact .refl
  | cons p links ih => exact (ReflTransGen.single (.merge p.1 p.2)).trans (ih _)

/-- What a request to an engine makes of the network. Crashes are none, nor is reaping. -/
inductive Request (n : Network) : Network → Prop where
  | register {m : Member} {n' : Network} {mailbox : Nat} (h : n.register m = .ok (n', mailbox)) :
    Request n n'
  | join (links : List (String × String)) : Request n (n.mergeAll links)
  | leave (name : String) : Request n (n.leave name)
  | update (name : String) (tags : Tags) : Request n (n.update name tags).1

theorem Request.idle (n : Network) : Request n n := .join []

theorem Request.moves (h : Request n n') : ReflTransGen Move n n' := by
  cases h with
  | register hr => exact .single (.register hr)
  | join links => exact mergeAll_moves n links
  | leave name => exact .single (.leave name)
  | update name tags => exact .single (.update name tags)

end Network

/-- What an engine joins if it is asked to join the members at some addresses. -/
def Engine.links (e : Engine) (addresses : List String) : List (String × String) :=
  if e.running then (addresses.filter (· ≠ e.member.address)).map (Prod.mk e.member.name) else []

/-- Whatever is counted on the way. -/
theorem Network.foldl_merge {name : String} {f : Network × Nat → String → Network × Nat}
    (hf : ∀ p address, (f p address).1 = (p.1.merge name address).1) (addresses : List String)
    (p : Network × Nat) :
    (addresses.foldl f p).1 = p.1.mergeAll (addresses.map (Prod.mk name)) := by
  induction addresses generalizing p with
  | nil => rfl
  | cons a addresses ih =>
    rw [List.foldl_cons, ih, hf]
    rfl

theorem Engine.join_network (e : Engine) (n : Network) (addresses : List String) :
    (e.join n addresses).1 = n.mergeAll (e.links addresses) := by
  unfold join links
  cases e.running with
  | false => rfl
  | true =>
    rw [if_pos rfl]
    simp only [Bool.not_true, Bool.false_eq_true, if_false]
    split <;> exact Network.foldl_merge (fun _ _ => rfl) _ (n, 0)

/-- An engine is refused, or it registers its member and has started. -/
theorem Engine.start_cases (g : Engine) (n : Network) : (∃ e, g.start n = (n, g, .error e)) ∨
    ∃ n' mailbox, g.stopped = false ∧ g.started = false ∧ n.register g.member = .ok (n', mailbox) ∧
      g.start n = (n', { g with started := true, mailbox := some mailbox }, .ok ()) := by
  unfold start
  split
  · exact .inl ⟨_, rfl⟩
  · rename_i hstopped
    split
    · exact .inl ⟨_, rfl⟩
    · rename_i hstarted
      split
      · exact .inl ⟨_, rfl⟩
      · rename_i n' mailbox hregister
        exact .inr ⟨n', mailbox, Bool.eq_false_iff.mpr hstopped, Bool.eq_false_iff.mpr hstarted, hregister,
          rfl⟩

/-! ## Runs of a session -/

namespace Session

open Network

variable {s s' : Session} {op : Op} {answer : Except Error Answer}

theorem withListener_eq {name : String} {f : Listener → Session × Except Error Answer}
    (h : s.withListener name f = some (s', answer)) : ∃ l, s.listeners[name]? = some l ∧
      s' = (f l).1 := by
  obtain ⟨l, hl, e⟩ := Option.map_eq_some_iff.mp h
  exact ⟨l, hl, (congrArg Prod.fst e).symm⟩

theorem start_request (e : Engine) (n : Network) : Request n (e.start n).1 := by
  unfold Engine.start
  split
  · exact .idle n
  · split
    · exact .idle n
    · split
      · exact .idle n
      · rename_i hr
        exact .register hr

theorem setTags_request (e : Engine) (n : Network) (tags : Tags) :
    Request n (e.setTags n tags).1 := by
  unfold Engine.setTags
  split
  · exact .idle n
  · have hr : Request n (n.update e.member.name tags).1 := .update _ _
    split <;> rename_i h <;> rw [h] at hr <;> exact hr

theorem shutdown_network (s : Session) (name : String) (l : Listener) :
    (s.shutdown name l).network = (l.engine.requestStop s.network).1 := by
  unfold shutdown
  split
  · rename_i h
    rw [Engine.requestStop, if_pos h]
  · dsimp only
    split <;> rfl

theorem requestStop_request (e : Engine) (n : Network) : Request n (e.requestStop n).1 := by
  unfold Engine.requestStop
  split
  · exact .idle n
  · dsimp only
    split
    · exact .leave _
    · exact .idle n

/-- An operation lets a member crash, reaps one or asks something of an engine. -/
theorem step_network (h : s.step? op = some (s', answer)) :
    (∃ member, op = .fail member ∧ s'.network = (s.network.fail member).1) ∨
    (∃ member, op = .reap member ∧ s'.network = (s.network.reap member).1) ∨
    Request s.network s'.network := by
  cases op with
  | fail member => cases h; exact Or.inl ⟨member, rfl, rfl⟩
  | reap member => cases h; exact Or.inr (Or.inl ⟨member, rfl, rfl⟩)
  | add name l => cases h; exact Or.inr (Or.inr (.idle _))
  | listen name =>
    obtain ⟨l, -, rfl⟩ := withListener_eq h
    exact Or.inr (Or.inr (.idle _))
  | start name =>
    obtain ⟨l, -, rfl⟩ := withListener_eq h
    exact Or.inr (Or.inr (start_request l.engine s.network))
  | shutdown name =>
    obtain ⟨l, -, rfl⟩ := withListener_eq h
    rw [shutdown_network]
    exact Or.inr (Or.inr (requestStop_request l.engine s.network))
  | join name addresses =>
    obtain ⟨l, -, rfl⟩ := withListener_eq h
    have hjoin : (l.engine.join s.network addresses).1 =
        s.network.mergeAll (l.engine.links addresses) := Engine.join_network ..
    refine Or.inr (Or.inr ?_)
    show Request s.network (l.engine.join s.network addresses).1
    rw [hjoin]
    exact .join _
  | setTags name tags =>
    obtain ⟨l, -, rfl⟩ := withListener_eq h
    exact Or.inr (Or.inr (setTags_request l.engine s.network tags))

theorem step_moves (h : s.step? op = some (s', answer)) :
    ReflTransGen Move s.network s'.network := by
  obtain ⟨member, -, e⟩ | ⟨member, -, e⟩ | hr := step_network h
  · rw [e]
    exact .single (.fail member)
  · rw [e]
    exact .single (.reap member)
  · exact hr.moves

theorem run_append (s : Session) (ops later : List Op) :
    s.run (ops ++ later) = (s.run ops).run later := List.foldl_append ..

/-- A run of a session is a run of its network. -/
theorem run_moves (s : Session) (ops : List Op) :
    ReflTransGen Move s.network (s.run ops).network := by
  induction ops generalizing s with
  | nil => exact .refl
  | cons op ops ih =>
    show ReflTransGen Move s.network ((((s.step? op).map (·.1)).getD s).run ops).network
    refine ReflTransGen.trans ?_ (ih _)
    cases hstep : s.step? op with
    | none => exact .refl
    | some p => exact step_moves hstep

/-- What holds at first and is kept by every operation on the network holds in every run. -/
theorem run_induction {P : Network → Prop} (hfirst : P {})
    (hmove : ∀ {n n' : Network}, P n → Move n n' → P n') (ops : List Op) :
    P (run {} ops).network := by
  have h := run_moves {} ops
  generalize (run {} ops).network = n at h
  induction h with
  | refl => exact hfirst
  | tail _ hm ih => exact hmove ih hm

theorem tidy_run (ops : List Op) : (run {} ops).network.Tidy :=
  run_induction tidy_empty Tidy.move ops

end Session

end ReplicatedTable.Gossip
