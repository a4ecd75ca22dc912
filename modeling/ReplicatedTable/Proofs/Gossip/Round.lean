import Mathlib.Data.List.Nodup
import ReplicatedTable.Gossip.Operation

/-!
# What operations do to members

Every operation on the network of gossip ends with a round: some registered members get another view and are
told events, one after the other (`round`). If mailboxes are not shared a round does to each member what a
visit alone would do (`slots_round`, `sent_round`), and nothing else is sent (`sent_round_other`). Joining,
departing, new tags and reaping are read as rounds here (`merge_cases`, `depart_eq`, `update_eq`, `reap_eq`),
so that later proofs need not look into loops.
-/
namespace ReplicatedTable.Gossip

open Std

section
variable {β : Type} {m : ExtTreeMap String β} {k : String} {v : β}

theorem getElem?_insert (m : ExtTreeMap String β) (k a : String) (v : β) :
    (m.insert k v)[a]? = if k = a then some v else m[a]? := by
  simp [ExtTreeMap.getElem?_insert]

theorem getElem?_erase (m : ExtTreeMap String β) (k a : String) :
    (m.erase k)[a]? = if k = a then none else m[a]? := by
  simp [ExtTreeMap.getElem?_erase]

theorem insert_of_getElem? (h : m[k]? = some v) : m.insert k v = m := by
  refine ExtTreeMap.ext_getElem? fun a => ?_
  rw [getElem?_insert]
  split
  · rename_i hk
    rw [← hk, h]
  · rfl

theorem mem_of_getElem? (h : m[k]? = some v) : k ∈ m := by
  rw [ExtTreeMap.mem_iff_isSome_getElem?, h]
  rfl

theorem nodup_toList (s : NameSet) : s.toList.Nodup :=
  ExtTreeSet.distinct_toList.imp fun h e => h (by simp [e])

end

namespace Network

variable {n : Network} {x y name : String} {s t : Slot} {f : Slot → NameSet × List Event}

/-! ## Rounds -/

/-- A member gets another view and is told events. -/
def visit (f : Slot → NameSet × List Event) (n : Network) (x : String) : Network :=
  match n.slots[x]? with
  | none => n
  | some s => { n with
      slots := n.slots.insert x { s with view := (f s).1 }
      log := n.log ++ (f s).2.map (Prod.mk s.mailbox) }

def round (f : Slot → NameSet × List Event) (n : Network) (xs : List String) : Network :=
  xs.foldl (visit f) n

/-- No two members share a mailbox. -/
def Apart (n : Network) : Prop := ∀ {x y : String} {s t : Slot}, n.slots[x]? = some s →
  n.slots[y]? = some t → s.mailbox = t.mailbox → x = y

theorem visit_of_none (h : n.slots[x]? = none) : n.visit f x = n := by
  simp only [visit, h]

theorem visit_of_some (h : n.slots[x]? = some s) : n.visit f x = { n with
    slots := n.slots.insert x { s with view := (f s).1 }
    log := n.log ++ (f s).2.map (Prod.mk s.mailbox) } := by
  simp only [visit, h]

theorem slots_visit (f : Slot → NameSet × List Event) (n : Network) (x y : String) :
    (n.visit f x).slots[y]? =
      if x = y then (n.slots[y]?).map fun s => { s with view := (f s).1 } else n.slots[y]? := by
  cases hx : n.slots[x]? with
  | none =>
    rw [visit_of_none hx]
    split
    · rename_i h
      rw [← h, hx, Option.map_none]
    · rfl
  | some s =>
    rw [visit_of_some hx, getElem?_insert]
    split
    · rename_i h
      rw [← h, hx, Option.map_some]
    · rfl

/-- What is written to the log for one mailbox. -/
theorem sent_append (n : Network) (k : Nat) (es : List Event) (mailbox : Nat) :
    sent { n with log := n.log ++ es.map (Prod.mk k) } mailbox =
      n.sent mailbox ++ if k = mailbox then es else [] := by
  simp only [sent, List.filterMap_append, List.filterMap_map]
  congr 1
  split <;> rename_i h <;> simp [h]

theorem sent_visit (h : n.slots[x]? = some s) (mailbox : Nat) : (n.visit f x).sent mailbox =
    n.sent mailbox ++ if s.mailbox = mailbox then (f s).2 else [] := by
  rw [visit_of_some h]
  exact sent_append n s.mailbox (f s).2 mailbox

theorem Apart.visit (h : n.Apart) : (n.visit f x).Apart := by
  intro y z s t hs ht e
  rw [slots_visit] at hs ht
  have back : ∀ {y : String} {s : Slot}, (if x = y then
      (n.slots[y]?).map fun s => { s with view := (f s).1 } else n.slots[y]?) = some s →
      ∃ s', n.slots[y]? = some s' ∧ s'.mailbox = s.mailbox := by
    intro y s hs
    split at hs
    · obtain ⟨s', hs', rfl⟩ := Option.map_eq_some_iff.mp hs
      exact ⟨s', hs', rfl⟩
    · exact ⟨s, hs, rfl⟩
  obtain ⟨s', hs', es⟩ := back hs
  obtain ⟨t', ht', et⟩ := back ht
  exact h hs' ht' (by rw [es, et, e])

/-- A round does to a member what a visit does. -/
theorem slots_round (f : Slot → NameSet × List Event) (n : Network) {xs : List String}
    (hxs : xs.Nodup) (y : String) : (n.round f xs).slots[y]? =
      if y ∈ xs then (n.slots[y]?).map fun s => { s with view := (f s).1 } else n.slots[y]? := by
  induction xs generalizing n with
  | nil => rfl
  | cons x xs ih =>
    obtain ⟨hx, hxs⟩ := List.nodup_cons.mp hxs
    show ((n.visit f x).round f xs).slots[y]? = _
    rw [ih _ hxs, slots_visit]
    by_cases h : x = y
    · subst h
      simp [hx]
    · simp [h, Ne.symm h]

/-- The description of a registered member. -/
def member? (n : Network) (x : String) : Option Member := (n.slots[x]?).map Slot.member

theorem member?_round (f : Slot → NameSet × List Event) (n : Network) {xs : List String}
    (hxs : xs.Nodup) (x : String) : (n.round f xs).member? x = n.member? x := by
  rw [member?, slots_round f n hxs]
  split
  · rw [Option.map_map]
    rfl
  · rfl

theorem sent_round (hn : n.Apart) {xs : List String} (hxs : xs.Nodup) (hs : n.slots[y]? = some s) :
    (n.round f xs).sent s.mailbox = n.sent s.mailbox ++ if y ∈ xs then (f s).2 else [] := by
  induction xs generalizing n s with
  | nil => simp [round]
  | cons x xs ih =>
    obtain ⟨hx, hxs⟩ := List.nodup_cons.mp hxs
    show ((n.visit f x).round f xs).sent s.mailbox = _
    by_cases h : x = y
    · subst h
      have hself : (n.visit f x).slots[x]? = some { s with view := (f s).1 } := by
        rw [slots_visit, if_pos rfl, hs, Option.map_some]
      rw [ih hn.visit hxs hself, sent_visit hs]
      simp [hx]
    · have hsame : (n.visit f x).slots[y]? = some s := by rw [slots_visit, if_neg h, hs]
      have hvisit : (n.visit f x).sent s.mailbox = n.sent s.mailbox := by
        cases hx' : n.slots[x]? with
        | none => rw [visit_of_none hx']
        | some t =>
          rw [sent_visit hx', if_neg fun e => h (hn hx' hs e), List.append_nil]
      rw [ih hn.visit hxs hsame, hvisit]
      simp [Ne.symm h]

/-- Nobody else is told anything. -/
theorem sent_round_other {k : Nat} (hk : ∀ (x : String) (s : Slot), n.slots[x]? = some s → s.mailbox ≠ k)
    (xs : List String) : (n.round f xs).sent k = n.sent k := by
  induction xs generalizing n with
  | nil => rfl
  | cons x xs ih =>
    show ((n.visit f x).round f xs).sent k = _
    rw [ih fun y s hs => ?_]
    · cases hx : n.slots[x]? with
      | none => rw [visit_of_none hx]
      | some t => rw [sent_visit hx, if_neg (hk x t hx), List.append_nil]
    · rw [slots_visit] at hs
      split at hs
      · obtain ⟨s', hs', rfl⟩ := Option.map_eq_some_iff.mp hs
        exact hk y s' hs'
      · exact hk y s hs

theorem mailboxes_round (f : Slot → NameSet × List Event) (n : Network) (xs : List String) :
    (n.round f xs).mailboxes = n.mailboxes ∧ (n.round f xs).failed = n.failed := by
  induction xs generalizing n with
  | nil => exact ⟨rfl, rfl⟩
  | cons x xs ih =>
    show ((n.visit f x).round f xs).mailboxes = _ ∧ ((n.visit f x).round f xs).failed = _
    rw [(ih _).1, (ih _).2]
    unfold visit
    split <;> exact ⟨rfl, rfl⟩

/-! ## Operations as rounds -/

/-- The members among those that are known whom a member has not in its view. -/
def strangers (known : List (String × Member)) (s : Slot) : List Member :=
  (known.filter fun p => p.1 ∉ s.view).map (·.2)

/-- A member gets a view and hears of those who are new to it. -/
def welcome (union : NameSet) (known : List (String × Member)) (s : Slot) : NameSet × List Event :=
  (union, if (strangers known s).isEmpty then [] else [.members .join (strangers known s)])

/-- A member is told an event and strikes a name from its view. -/
def farewell (name : String) (e : Event) (s : Slot) : NameSet × List Event := (s.view.erase name, [e])

/-- A member is told an event. -/
def notice (e : Event) (s : Slot) : NameSet × List Event := (s.view, [e])

/-- The registered members with names in a set, by name. -/
def described (n : Network) (names : NameSet) : List (String × Member) :=
  names.toList.filterMap fun m => (n.slots[m]?).map fun s => (m, s.member)

/-- Those who hear of the departure of a member. -/
def observers (n : Network) (name : String) (s : Slot) : List String :=
  (s.view.toList.filter (· ≠ name)).filter (· ∈ n.slots.erase name)

/-- The network after the registration of a name is removed. -/
def without (n : Network) (name : String) : Network := { n with slots := n.slots.erase name }

/-- The network after a member has got other tags. -/
def retag (n : Network) (name : String) (s : Slot) (tags : Tags) : Network :=
  { n with slots := n.slots.insert name { s with member := { s.member with tags := tags } } }

theorem introduce_eq (n : Network) (union : NameSet) (known : List (String × Member)) (x : String) :
    n.introduce union known x = n.visit (welcome union known) x := by
  unfold introduce
  cases hx : n.slots[x]? with
  | none => rw [visit_of_none hx]
  | some s =>
    rw [visit_of_some hx, welcome, strangers]
    dsimp only
    split
    · simp
    · rfl

theorem forget_eq (n : Network) (name : String) (e : Event) (x : String) :
    n.forget name e x = n.visit (farewell name e) x := by
  unfold forget
  cases hx : n.slots[x]? with
  | none => rw [visit_of_none hx]
  | some s => rw [visit_of_some hx]; rfl

theorem tell_eq (n : Network) (names : List String) (e : Event) :
    n.tell names e = n.round (notice e) names := by
  have hvisit : (fun (n : Network) (x : String) =>
      (n.slots[x]?).elim n fun s => n.deliver s.mailbox e) = visit (notice e) := by
    funext n x
    cases hx : n.slots[x]? with
    | none => rw [visit_of_none hx]; rfl
    | some s => rw [visit_of_some hx, notice, insert_of_getElem? hx]; rfl
  rw [tell, hvisit]
  rfl

theorem merge_eq {target : String} (ht : n.at? target = some t) (hs : n.slots[name]? = some s) :
    n.merge name target = (n.round (welcome (s.view ∪ t.view) (n.described (s.view ∪ t.view)))
      (s.view ∪ t.view).toList, true) := by
  simp only [merge, ht, hs, introduce_eq]
  rfl

theorem merge_cases (n : Network) (name target : String) : n.merge name target = (n, false) ∨
    ∃ s t, n.slots[name]? = some s ∧ n.at? target = some t ∧ n.merge name target =
      (n.round (welcome (s.view ∪ t.view) (n.described (s.view ∪ t.view))) (s.view ∪ t.view).toList,
        true) := by
  cases ht : n.at? target with
  | none => exact Or.inl (by simp only [merge, ht])
  | some t =>
    cases hs : n.slots[name]? with
    | none => exact Or.inl (by simp only [merge, ht, hs])
    | some s => exact Or.inr ⟨s, t, rfl, rfl, merge_eq ht hs⟩

theorem depart_eq (hs : n.slots[name]? = some s) (kind : EventKind) (status : Liveness) :
    n.depart name kind status =
      (round (farewell name (.members kind [{ s.member with status := status }]))
        (n.without name) (n.observers name s),
        some ({ s.member with status := status }, n.observers name s)) := by
  simp only [depart, hs, forget_eq]
  rfl

theorem depart_of_none (h : n.slots[name]? = none) (kind : EventKind) (status : Liveness) :
    n.depart name kind status = (n, none) := by
  simp only [depart, h]

theorem update_eq (hs : n.slots[name]? = some s) (tags : Tags) : n.update name tags =
    (round (notice (.members .update [{ s.member with tags := tags }])) (n.retag name s tags)
      s.view.toList, some { s.member with tags := tags }) := by
  simp only [update, hs, tell_eq, retag]

theorem update_of_none (h : n.slots[name]? = none) (tags : Tags) :
    n.update name tags = (n, none) := by
  simp only [update, h]

theorem reap_eq {m : Member} {told : List String} (h : n.failed[name]? = some (m, told)) :
    n.reap name = (round (notice (.members .reap [m])) { n with failed := n.failed.erase name } told,
      true) := by
  simp only [reap, h, tell_eq]

theorem reap_of_none (h : n.failed[name]? = none) : n.reap name = (n, false) := by
  simp only [reap, h]

theorem register_ok {m : Member} {n' : Network} {mailbox : Nat}
    (h : n.register m = .ok (n', mailbox)) : m.name ∉ n.slots ∧
      (∀ (y : String) (t : Slot), n.slots[y]? = some t → t.member.address ≠ m.address) ∧
      mailbox = n.mailboxes ∧
      n' = { n with
        slots := n.slots.insert m.name ⟨m, (∅ : NameSet).insert m.name, n.mailboxes⟩
        mailboxes := n.mailboxes + 1
        log := n.log ++ [(n.mailboxes, .members .join [m])] } := by
  unfold register at h
  split at h
  · cases h
  · rename_i hname
    split at h
    · cases h
    · rename_i haddress
      cases h
      refine ⟨hname, fun y t ht e => haddress ?_, rfl, rfl⟩
      exact List.any_eq_true.mpr
        ⟨(y, t), ExtTreeMap.mem_toList_iff_getElem?_eq_some.mpr ht, beq_iff_eq.mpr e⟩

end Network

end ReplicatedTable.Gossip
