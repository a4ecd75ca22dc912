import ReplicatedTable.Proofs.Gossip.Recollection

/-!
# What gossip tells of members

A network passes on the descriptions that members have registered with, and when a member is gone it changes
the status in them. So what does not depend on the status, and holds of all members that register, holds of
everything that anybody is told (`Every`), as long as nobody takes other tags.
-/
namespace ReplicatedTable.Gossip

open Std

/-- An event tells only of members with a property. -/
def Event.Tells (P : Member → Prop) (e : Event) : Prop := ∀ r ∈ e.reports, P r.2

namespace Network

variable {P Q : Member → Prop} {n n' : Network} {x name : String}

/-- All members that are registered, have crashed or were told of have a property. -/
structure Every (P : Member → Prop) (n : Network) : Prop where
  slots : ∀ (x : String) (s : Slot), n.slots[x]? = some s → P s.member
  failed : ∀ (x : String) (m : Member) (told : List String), n.failed[x]? = some (m, told) → P m
  log : ∀ p ∈ n.log, p.2.Tells P

theorem every_empty : Every P {} where
  slots _ _ h := by simp at h
  failed _ _ _ h := by simp at h
  log _ h := absurd h List.not_mem_nil

theorem Every.mono (h : n.Every P) (hPQ : ∀ m, P m → Q m) : n.Every Q where
  slots x s hs := hPQ _ (h.slots x s hs)
  failed x m told hf := hPQ _ (h.failed x m told hf)
  log p hp r hr := hPQ _ (h.log p hp r hr)

theorem tells_members {kind : EventKind} {ms : List Member} (h : ∀ m ∈ ms, P m) :
    Event.Tells P (.members kind ms) := by
  intro r hr
  obtain ⟨m, hm, rfl⟩ := List.mem_map.mp hr
  exact h m hm

theorem Every.sent (h : n.Every P) {k : Nat} {e : Event} (he : e ∈ n.sent k) : e.Tells P := by
  obtain ⟨p, hp, hpe⟩ := List.mem_filterMap.mp he
  split at hpe
  · rw [← Option.some.inj hpe]
    exact h.log p hp
  · cases hpe

theorem Every.round (h : n.Every P) {f : Slot → NameSet × List Event} (hf : ∀ s, ∀ e ∈ (f s).2, e.Tells P)
    (xs : List String) : (n.round f xs).Every P := by
  induction xs generalizing n with
  | nil => exact h
  | cons x xs ih =>
    refine ih (n := n.visit f x) ?_
    cases hx : n.slots[x]? with
    | none => rw [visit_of_none hx]; exact h
    | some s =>
      rw [visit_of_some hx]
      refine ⟨fun y t ht => ?_, h.failed, fun p hp => ?_⟩
      · rw [getElem?_insert] at ht
        split at ht
        · cases ht
          exact h.slots x s hx
        · exact h.slots y t ht
      · rcases List.mem_append.mp hp with hp | hp
        · exact h.log p hp
        · obtain ⟨e, he, rfl⟩ := List.mem_map.mp hp
          exact hf s e he

theorem Every.register (h : n.Every P) {m : Member} {mailbox : Nat} (hm : P m)
    (hr : n.register m = .ok (n', mailbox)) : n'.Every P := by
  obtain ⟨-, -, -, rfl⟩ := register_ok hr
  refine ⟨fun y t ht => ?_, h.failed, fun p hp => ?_⟩
  · rw [getElem?_insert] at ht
    split at ht
    · cases ht
      exact hm
    · exact h.slots y t ht
  · rcases List.mem_append.mp hp with hp | hp
    · exact h.log p hp
    · rw [List.mem_singleton.mp hp]
      exact tells_members fun x hx => List.mem_singleton.mp hx ▸ hm

theorem Every.merge (h : n.Every P) (name target : String) : (n.merge name target).1.Every P := by
  rcases merge_cases n name target with e | ⟨s, t, -, -, e⟩ <;> rw [e]
  · exact h
  refine h.round (fun u e he => ?_) _
  unfold welcome at he
  split at he
  · exact absurd he List.not_mem_nil
  · rw [List.mem_singleton.mp he]
    refine tells_members fun m hm => ?_
    obtain ⟨p, hp, rfl⟩ := List.mem_map.mp hm
    obtain ⟨y, -, hy⟩ := List.mem_filterMap.mp (List.mem_filter.mp hp).1
    obtain ⟨v, hv, rfl⟩ := Option.map_eq_some_iff.mp hy
    exact h.slots y v hv

theorem Every.mergeAll (h : n.Every P) (links : List (String × String)) : (n.mergeAll links).Every P := by
  induction links generalizing n with
  | nil => exact h
  | cons link links ih =>
    rw [mergeAll_cons]
    exact ih (h.merge link.1 link.2)

section
variable (hP : ∀ m status, P m → P { m with status := status })
include hP

theorem Every.depart (h : n.Every P) (name : String) (kind : EventKind) (status : Liveness) :
    (n.depart name kind status).1.Every P := by
  cases hs : n.slots[name]? with
  | none => rw [depart_of_none hs]; exact h
  | some s =>
    rw [depart_eq hs]
    have hwithout : (n.without name).Every P := by
      refine ⟨fun y t ht => ?_, h.failed, h.log⟩
      rw [without, getElem?_erase] at ht
      split at ht
      · cases ht
      · exact h.slots y t ht
    refine hwithout.round (fun u e he => ?_) _
    rw [List.mem_singleton.mp he]
    exact tells_members fun m hm => List.mem_singleton.mp hm ▸ hP _ status (h.slots name s hs)

theorem Every.fail (h : n.Every P) (name : String) : (n.fail name).1.Every P := by
  cases hs : n.slots[name]? with
  | none => rw [fail_of_none hs]; exact h
  | some s =>
    rw [fail_eq hs]
    have hdepart := h.depart hP name .failed .failed
    refine ⟨hdepart.slots, fun y m told hf => ?_, hdepart.log⟩
    rw [getElem?_insert] at hf
    split at hf
    · cases hf
      exact hP _ .failed (h.slots name s hs)
    · exact h.failed y m told hf

end

theorem Every.reap (h : n.Every P) (name : String) : (n.reap name).1.Every P := by
  cases hf : n.failed[name]? with
  | none => rw [reap_of_none hf]; exact h
  | some p =>
    obtain ⟨m, told⟩ := p
    rw [reap_eq hf]
    have herase : Every P { n with failed := n.failed.erase name } := by
      refine ⟨h.slots, fun y x told' hx => ?_, h.log⟩
      rw [getElem?_erase] at hx
      split at hx
      · cases hx
      · exact h.failed y x told' hx
    refine herase.round (fun u e he => ?_) told
    rw [List.mem_singleton.mp he]
    exact tells_members fun x hx => List.mem_singleton.mp hx ▸ h.failed name m told hf

end Network

end ReplicatedTable.Gossip
