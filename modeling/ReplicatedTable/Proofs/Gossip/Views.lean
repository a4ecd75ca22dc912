import ReplicatedTable.Proofs.Gossip.Registration

/-!
# Views

Every member is in its own view, and all members in a view have that view (`Partition`): the views are the
classes of an equivalence relation on registered names. For each operation it is said what it makes of views
(`view?_merge`, `view?_depart` and so on), and from this that it keeps them such a partition.
-/
namespace ReplicatedTable.Gossip

open Std Relation

namespace Network

variable {n n' : Network} {x y z name target : String} {s t : Slot} {v w : NameSet}

/-- The view of a registered member. -/
def view? (n : Network) (x : String) : Option NameSet := (n.slots[x]?).map Slot.view

/-- Everybody is in its own view, and has the view of everybody in it. -/
structure Partition (n : Network) : Prop where
  self : ∀ {x : String} {v : NameSet}, n.view? x = some v → x ∈ v
  shared : ∀ {x y : String} {v : NameSet}, n.view? x = some v → y ∈ v → n.view? y = some v

theorem view?_eq_some : n.view? x = some v ↔ ∃ s, n.slots[x]? = some s ∧ s.view = v :=
  Option.map_eq_some_iff

theorem view?_of_slot (h : n.slots[x]? = some s) : n.view? x = some s.view := by
  rw [view?, h, Option.map_some]

/-- Only registered names are in a view. -/
theorem Partition.known (h : n.Partition) (hs : n.slots[x]? = some s) (hy : y ∈ s.view) :
    ∃ t, n.slots[y]? = some t ∧ t.view = s.view :=
  view?_eq_some.mp (h.shared (view?_of_slot hs) hy)

theorem Partition.view_eq (h : n.Partition) (hs : n.slots[x]? = some s) (ht : n.slots[y]? = some t)
    (hy : y ∈ s.view) : t.view = s.view := by
  obtain ⟨u, hu, e⟩ := h.known hs hy
  rw [ht] at hu
  cases hu
  exact e

/-- Two views with a name in common are one. -/
theorem Partition.eq_of_mem (h : n.Partition) (hv : n.view? x = some v) (hw : n.view? y = some w)
    (hzv : z ∈ v) (hzw : z ∈ w) : v = w :=
  Option.some.inj ((h.shared hv hzv).symm.trans (h.shared hw hzw))

theorem partition_empty : Partition {} where
  self h := by simp [view?] at h
  shared h := by simp [view?] at h

theorem Partition.of_view? (h : n.Partition) (hv : ∀ x, n'.view? x = n.view? x) : n'.Partition where
  self hx := h.self (hv _ ▸ hx)
  shared hx hy := (hv _).trans (h.shared (hv _ ▸ hx) hy)

/-! ## What operations do to views -/

theorem view?_round (f : Slot → NameSet × List Event) (n : Network) {xs : List String}
    (hxs : xs.Nodup) (x : String) : (n.round f xs).view? x =
      if x ∈ xs then (n.slots[x]?).map fun s => (f s).1 else n.view? x := by
  rw [view?, slots_round f n hxs]
  split
  · rw [Option.map_map]
    rfl
  · rfl

theorem at?_eq_some (h : n.Tidy) : n.at? target = some t ↔
    ∃ y : String, n.slots[y]? = some t ∧ t.member.address = target := by
  rw [at?, Option.map_eq_some_iff]
  constructor
  · rintro ⟨⟨y, t'⟩, hfind, rfl⟩
    exact ⟨y, ExtTreeMap.mem_toList_iff_getElem?_eq_some.mp (List.mem_of_find?_eq_some hfind),
      beq_iff_eq.mp (List.find?_some hfind :)⟩
  · rintro ⟨y, ht, rfl⟩
    have hsome : (n.slots.toList.find? fun p => p.2.member.address == t.member.address).isSome :=
      List.find?_isSome.mpr
        ⟨(y, t), ExtTreeMap.mem_toList_iff_getElem?_eq_some.mpr ht, beq_self_eq_true _⟩
    obtain ⟨⟨z, t'⟩, hfind⟩ := Option.isSome_iff_exists.mp hsome
    have hz := ExtTreeMap.mem_toList_iff_getElem?_eq_some.mp (List.mem_of_find?_eq_some hfind)
    have haddress : t'.member.address = t.member.address := beq_iff_eq.mp (List.find?_some hfind :)
    obtain rfl := h.address hz ht haddress
    rw [hz] at ht
    cases ht
    exact ⟨_, hfind, rfl⟩

theorem view?_register {m : Member} {mailbox : Nat} (hr : n.register m = .ok (n', mailbox))
    (x : String) : n'.view? x =
      if x = m.name then some ((∅ : NameSet).insert m.name) else n.view? x := by
  obtain ⟨-, -, -, rfl⟩ := register_ok hr
  rw [view?, getElem?_insert]
  by_cases h : x = m.name
  · simp [h]
  · rw [if_neg (Ne.symm h), if_neg h, view?]

theorem view?_merge (h : n.Partition) (ht : n.at? target = some t) (hy : n.slots[y]? = some t)
    (hs : n.slots[name]? = some s) (x : String) : (n.merge name target).1.view? x =
      if x ∈ s.view ∪ t.view then some (s.view ∪ t.view) else n.view? x := by
  rw [merge_eq ht hs, view?_round _ n (nodup_toList _)]
  simp only [ExtTreeSet.mem_toList]
  split
  · rename_i hx
    obtain ⟨u, hu⟩ : ∃ u, n.slots[x]? = some u := by
      rcases ExtTreeSet.mem_union_iff.mp hx with hx | hx
      · obtain ⟨u, hu, -⟩ := h.known hs hx
        exact ⟨u, hu⟩
      · obtain ⟨u, hu, -⟩ := h.known hy hx
        exact ⟨u, hu⟩
    rw [hu, Option.map_some, welcome]
  · rfl

theorem view?_without (n : Network) (name x : String) :
    (n.without name).view? x = if x = name then none else n.view? x := by
  rw [view?, without, getElem?_erase]
  by_cases h : x = name
  · simp [h]
  · rw [if_neg (Ne.symm h), if_neg h, view?]

theorem mem_observers (h : n.Partition) (hs : n.slots[name]? = some s) :
    x ∈ n.observers name s ↔ x ∈ s.view ∧ x ≠ name := by
  simp only [observers, List.mem_filter, ExtTreeSet.mem_toList, decide_eq_true_eq]
  constructor
  · rintro ⟨⟨hx, hne⟩, -⟩
    exact ⟨hx, hne⟩
  · rintro ⟨hx, hne⟩
    obtain ⟨u, hu, -⟩ := h.known hs hx
    refine ⟨⟨hx, hne⟩, mem_of_getElem? (v := u) ?_⟩
    rw [getElem?_erase, if_neg (Ne.symm hne), hu]

theorem view?_depart (h : n.Partition) (hs : n.slots[name]? = some s) (kind : EventKind)
    (status : Liveness) (x : String) : (n.depart name kind status).1.view? x =
      if x = name then none else if x ∈ s.view then some (s.view.erase name) else n.view? x := by
  rw [depart_eq hs, view?_round _ _ (nodup_observers n name s), view?_without]
  simp only [mem_observers h hs]
  by_cases hx : x = name
  · simp [hx]
  · by_cases hv : x ∈ s.view
    · obtain ⟨u, hu, e⟩ := h.known hs hv
      have hkeep : (n.without name).slots[x]? = some u := by
        rw [without, getElem?_erase, if_neg (Ne.symm hx), hu]
      simp only [hx, hv, ne_eq, not_false_eq_true, and_self, if_true, if_false, hkeep, farewell, e,
        Option.map_some]
    · simp [hx, hv]

theorem view?_notice (n : Network) (e : Event) {xs : List String} (hxs : xs.Nodup) (x : String) :
    (n.round (notice e) xs).view? x = n.view? x := by
  rw [view?_round _ n hxs]
  split <;> rfl

theorem view?_update (n : Network) (name : String) (tags : Tags) (x : String) :
    (n.update name tags).1.view? x = n.view? x := by
  cases hs : n.slots[name]? with
  | none => rw [update_of_none hs]
  | some s =>
    rw [update_eq hs]
    show ((n.retag name s tags).round _ _).view? x = _
    rw [view?_notice _ _ (nodup_toList _), view?, retag, getElem?_insert]
    split
    · rename_i e
      rw [← e, view?, hs]
      rfl
    · rfl

theorem view?_reap (h : n.Tidy) (name x : String) : (n.reap name).1.view? x = n.view? x := by
  cases hf : n.failed[name]? with
  | none => rw [reap_of_none hf]
  | some p =>
    obtain ⟨m, told⟩ := p
    rw [reap_eq hf]
    exact view?_notice _ _ (h.observers hf) x

/-! ## Views stay a partition -/

theorem Partition.register {m : Member} {mailbox : Nat} (h : n.Partition)
    (hr : n.register m = .ok (n', mailbox)) : n'.Partition := by
  obtain ⟨hname, -⟩ := register_ok hr
  constructor
  · intro x v hv
    rw [view?_register hr] at hv
    split at hv
    · rename_i e
      rw [← Option.some.inj hv, e]
      exact ExtTreeSet.mem_insert_self
    · exact h.self hv
  · intro x y v hv hy
    rw [view?_register hr] at hv ⊢
    split at hv
    · have hy : m.name = y := by
        rw [← Option.some.inj hv] at hy
        simpa using hy
      rw [if_pos hy.symm, hv]
    · have hyv := h.shared hv hy
      rw [if_neg, hyv]
      rintro rfl
      obtain ⟨s, hs, -⟩ := view?_eq_some.mp hyv
      exact hname (mem_of_getElem? hs)

theorem Partition.merge (h : n.Partition) (hn : n.Tidy) (name target : String) :
    (n.merge name target).1.Partition := by
  rcases merge_cases n name target with e | ⟨s, t, hs, ht, -⟩
  · rw [e]
    exact h
  · obtain ⟨y, hy, -⟩ := (at?_eq_some hn).mp ht
    have hview := view?_merge h ht hy hs
    -- a view with a name of the union in it is one of the two
    have hunion : ∀ {x z : String} {v : NameSet}, n.view? x = some v → z ∈ v →
        z ∈ s.view ∪ t.view → x ∈ s.view ∪ t.view := by
      intro x z v hv hz hu
      rcases ExtTreeSet.mem_union_iff.mp hu with hu | hu
      · rw [h.eq_of_mem hv (view?_of_slot hs) hz hu] at hv
        exact ExtTreeSet.mem_union_of_left (h.self hv)
      · rw [h.eq_of_mem hv (view?_of_slot hy) hz hu] at hv
        exact ExtTreeSet.mem_union_of_right (h.self hv)
    constructor
    · intro x v hv
      rw [hview] at hv
      split at hv
      · rename_i hx
        exact Option.some.inj hv ▸ hx
      · exact h.self hv
    · intro x z v hv hz
      rw [hview] at hv ⊢
      split at hv
      · rw [← Option.some.inj hv] at hz ⊢
        rw [if_pos hz]
      · rename_i hx
        rw [if_neg fun hu => hx (hunion hv hz hu), h.shared hv hz]

theorem Partition.depart (h : n.Partition) (name : String) (kind : EventKind) (status : Liveness) :
    (n.depart name kind status).1.Partition := by
  cases hs : n.slots[name]? with
  | none => rw [depart_of_none hs]; exact h
  | some s =>
    have hview := view?_depart h hs kind status
    have hown := view?_of_slot hs
    constructor
    · intro x v hv
      rw [hview] at hv
      split at hv
      · cases hv
      · rename_i hx
        split at hv
        · rename_i hxs
          rw [← Option.some.inj hv, ExtTreeSet.mem_erase]
          exact ⟨by simpa using Ne.symm hx, hxs⟩
        · exact h.self hv
    · intro x z v hv hz
      rw [hview] at hv ⊢
      split at hv
      · cases hv
      · split at hv
        · rw [← Option.some.inj hv, ExtTreeSet.mem_erase] at hz
          have hne : z ≠ name := fun e => hz.1 (by simp [e])
          rw [if_neg hne, if_pos hz.2, hv]
        · rename_i hxs
          have hzs : z ∉ s.view := fun hzs =>
            hxs (h.eq_of_mem hv hown hz hzs ▸ h.self hv)
          have hne : z ≠ name := fun e => hzs (e ▸ h.self hown)
          rw [if_neg hne, if_neg hzs, h.shared hv hz]

theorem Partition.move (h : n.Partition) (hn : n.Tidy) (hm : Move n n') : n'.Partition := by
  cases hm with
  | register hr => exact h.register hr
  | merge name target => exact h.merge hn name target
  | leave name => exact h.depart name .leave .left
  | fail name =>
    have hd := h.depart name .failed .failed
    cases hs : n.slots[name]? with
    | none => rw [fail_of_none hs]; exact h
    | some s => rw [fail_eq hs]; exact hd.of_view? fun _ => rfl
  | reap name => exact h.of_view? (view?_reap hn name)
  | update name tags => exact h.of_view? (view?_update n name tags)

theorem ordered_run (ops : List Session.Op) : (Session.run {} ops).network.Tidy ∧
    (Session.run {} ops).network.Partition :=
  Session.run_induction (P := fun n => n.Tidy ∧ n.Partition) ⟨tidy_empty, partition_empty⟩
    (fun h hm => ⟨h.1.move hm, h.2.move h.1 hm⟩) ops

end Network

end ReplicatedTable.Gossip
