import ReplicatedTable.Proofs.Gossip.Joins

/-!
# What members make of events

Somebody who takes note of the events sent to a mailbox recollects members and their descriptions
(`Recollection`). Every round tells each member just what its view and the descriptions in it have changed by,
so that what it recollects is at any time what the network knows of its view (`Recalled`), and nothing that it
is told is at odds with what it recollects by then (`FitAll`).
-/
namespace ReplicatedTable.Gossip

open Std

/-! ## Recollections -/

/-- The descriptions of members that somebody knows from events. -/
abbrev Recollection := ExtTreeMap String Member

/-- What an event says of single members. -/
def Event.reports : Event → List (EventKind × Member)
  | .members kind ms => ms.map (Prod.mk kind)
  | .user _ _ => []

namespace Recollection

/-- Takes what is said of one member. -/
def take (known : Recollection) : EventKind × Member → Recollection
  | (.join, m) | (.update, m) => known.insert m.name m
  | (.leave, m) | (.failed, m) => known.erase m.name
  | (.reap, _) => known

/-- Whoever joins is new, and whoever changes, leaves or fails is known. -/
def Fits (known : Recollection) : EventKind × Member → Prop
  | (.join, m) => m.name ∉ known
  | (.update, m) | (.leave, m) | (.failed, m) => m.name ∈ known
  | (.reap, _) => True

/-- One report after the other fits what is known by then. -/
def FitAll : Recollection → List (EventKind × Member) → Prop
  | _, [] => True
  | known, r :: rs => known.Fits r ∧ FitAll (known.take r) rs

def takeAll (known : Recollection) (rs : List (EventKind × Member)) : Recollection :=
  rs.foldl take known

/-- What is known from some events. -/
def ofEvents (es : List Event) : Recollection := takeAll ∅ (es.flatMap Event.reports)

theorem fitAll_append {known : Recollection} {rs more : List (EventKind × Member)} :
    known.FitAll (rs ++ more) ↔ known.FitAll rs ∧ (known.takeAll rs).FitAll more := by
  induction rs generalizing known with
  | nil => simp [FitAll, takeAll]
  | cons r rs ih =>
    rw [List.cons_append, FitAll, FitAll, ih, and_assoc]
    rfl

theorem ofEvents_append (es more : List Event) :
    ofEvents (es ++ more) = (ofEvents es).takeAll (more.flatMap Event.reports) := by
  rw [ofEvents, List.flatMap_append, takeAll, List.foldl_append]
  rfl

/-- Those who join are known as they are described. -/
theorem takeAll_join {describe : String → Option Member} {ms : List Member}
    (hms : ∀ m ∈ ms, describe m.name = some m) (known : Recollection) (y : String) :
    (known.takeAll (ms.map (Prod.mk .join)))[y]? =
      if y ∈ ms.map Member.name then describe y else known[y]? := by
  induction ms generalizing known with
  | nil => rfl
  | cons m ms ih =>
    show (takeAll (known.insert m.name m) (ms.map (Prod.mk .join)))[y]? = _
    rw [ih (fun x hx => hms x (List.mem_cons_of_mem _ hx)), getElem?_insert, List.map_cons]
    by_cases hy : m.name = y
    · subst hy
      simp [hms m (List.mem_cons_self ..)]
    · simp [hy, Ne.symm hy]

theorem fitAll_join {ms : List Member} (hnodup : (ms.map Member.name).Nodup) {known : Recollection}
    (hnew : ∀ m ∈ ms, m.name ∉ known) : known.FitAll (ms.map (Prod.mk .join)) := by
  induction ms generalizing known with
  | nil => trivial
  | cons m ms ih =>
    obtain ⟨hm, hnodup⟩ := List.nodup_cons.mp hnodup
    refine ⟨hnew m (List.mem_cons_self ..), ih hnodup fun x hx hmem => ?_⟩
    have hmem : x.name ∈ known.insert m.name m := hmem
    rw [ExtTreeMap.mem_insert] at hmem
    rcases hmem with e | hmem
    · exact hm (List.mem_map.mpr ⟨x, hx, (LawfulEqCmp.eq_of_compare e).symm⟩)
    · exact hnew x (List.mem_cons_of_mem _ hx) hmem

end Recollection

namespace Network

open Recollection

variable {n n' : Network} {x y z name target : String} {s t : Slot}

/-- Every member knows from its events the descriptions of those in its view, and whatever was sent to
anybody fits what was sent before. -/
structure Recalled (n : Network) : Prop where
  known : ∀ {x : String} {s : Slot}, n.slots[x]? = some s → ∀ y : String,
    (ofEvents (n.sent s.mailbox))[y]? = if y ∈ s.view then n.member? y else none
  fits : ∀ k, FitAll ∅ ((n.sent k).flatMap Event.reports)

theorem recalled_empty : Recalled {} where
  known h := by simp at h
  fits _ := trivial

/-- A round keeps members informed if it tells each of them what has changed. -/
theorem Recalled.round {m : Network} {f : Slot → NameSet × List Event} {xs : List String}
    (h : n.Recalled) (hlog : m.log = n.log) (hm : m.Apart) (hxs : xs.Nodup)
    (hold : ∀ {x : String} {u : Slot}, m.slots[x]? = some u → x ∉ xs →
      ∀ y : String, (ofEvents (n.sent u.mailbox))[y]? = if y ∈ u.view then m.member? y else none)
    (hnew : ∀ {x : String} {u : Slot}, m.slots[x]? = some u → x ∈ xs →
      FitAll (ofEvents (n.sent u.mailbox)) ((f u).2.flatMap Event.reports) ∧
      ∀ y : String, (takeAll (ofEvents (n.sent u.mailbox)) ((f u).2.flatMap Event.reports))[y]? =
        if y ∈ (f u).1 then m.member? y else none) : (m.round f xs).Recalled := by
  have hsent : ∀ k, m.sent k = n.sent k := fun k => by rw [sent, hlog, sent]
  constructor
  · intro x t ht y
    rw [slots_round f m hxs] at ht
    rw [member?_round f m hxs]
    split at ht
    · rename_i hx
      obtain ⟨u, hu, rfl⟩ := Option.map_eq_some_iff.mp ht
      dsimp only
      rw [sent_round hm hxs hu, if_pos hx, hsent, ofEvents_append]
      exact (hnew hu hx).2 y
    · rename_i hx
      rw [sent_round hm hxs ht, if_neg hx, List.append_nil, hsent]
      exact hold ht hx y
  · intro k
    by_cases hk : ∃ (x : String) (u : Slot), m.slots[x]? = some u ∧ u.mailbox = k
    · obtain ⟨x, u, hu, rfl⟩ := hk
      rw [sent_round hm hxs hu, hsent]
      split
      · rename_i hx
        rw [List.flatMap_append, fitAll_append]
        exact ⟨h.fits _, (hnew hu hx).1⟩
      · rw [List.append_nil]
        exact h.fits _
    · rw [sent_round_other fun x u hu e => hk ⟨x, u, hu, e⟩, hsent]
      exact h.fits k

theorem Recalled.mem (h : n.Recalled) (hp : n.Partition) (hs : n.slots[x]? = some s) :
    y ∈ ofEvents (n.sent s.mailbox) ↔ y ∈ s.view := by
  rw [ExtTreeMap.mem_iff_isSome_getElem?, h.known hs]
  split
  · rename_i hy
    obtain ⟨t, ht, -⟩ := hp.known hs hy
    simp [member?, ht, hy]
  · rename_i hy
    simp [hy]

theorem Recalled.of_log (h : n.Recalled) (hslots : n'.slots = n.slots) (hlog : n'.log = n.log) :
    n'.Recalled := by
  have hsent : ∀ k, n'.sent k = n.sent k := fun k => by rw [sent, hlog, sent]
  refine ⟨fun {x s} hs y => ?_, fun k => hsent k ▸ h.fits k⟩
  rw [hsent, member?, hslots]
  exact h.known (hslots ▸ hs) y

theorem Recalled.register {m : Member} {mailbox : Nat} (h : n.Recalled) (hn : n.Tidy)
    (hp : n.Partition) (hr : n.register m = .ok (n', mailbox)) : n'.Recalled := by
  obtain ⟨hname, -, -, rfl⟩ := register_ok hr
  have hempty : n.sent n.mailboxes = [] := hn.unopened (Nat.le_refl _)
  have hsent : ∀ k, sent { n with
      slots := n.slots.insert m.name ⟨m, (∅ : NameSet).insert m.name, n.mailboxes⟩
      mailboxes := n.mailboxes + 1
      log := n.log ++ [(n.mailboxes, .members .join [m])] } k =
      n.sent k ++ if n.mailboxes = k then [.members .join [m]] else [] := fun k =>
    sent_append n n.mailboxes [.members .join [m]] k
  constructor
  · intro x s hs y
    rw [hsent]
    simp only [member?, getElem?_insert] at hs ⊢
    split at hs
    · cases hs
      have hknown : ofEvents [.members .join [m]] = (∅ : Recollection).insert m.name m := rfl
      rw [hempty, if_pos rfl, List.nil_append, hknown, getElem?_insert]
      by_cases hy : m.name = y <;> simp [hy]
    · have hopened := hn.opened hs
      rw [if_neg (by omega), List.append_nil, h.known hs]
      by_cases hy : y ∈ s.view
      · obtain ⟨t, ht, -⟩ := hp.known hs hy
        have hne : m.name ≠ y := fun e => hname (mem_of_getElem? (e ▸ ht))
        rw [if_pos hy, if_pos hy, if_neg hne, member?]
      · rw [if_neg hy, if_neg hy]
  · intro k
    rw [hsent]
    split
    · rename_i hk
      rw [← hk, hempty]
      exact ⟨ExtTreeMap.not_mem_empty, trivial⟩
    · rw [List.append_nil]
      exact h.fits k

/-- Those of a united view who are new to a member. -/
theorem mem_strangers (hn : n.Tidy) {union : NameSet} {m : Member} :
    m ∈ strangers (n.described union) s ↔
      m.name ∈ union ∧ m.name ∉ s.view ∧ n.member? m.name = some m := by
  simp only [strangers, described, List.mem_map, List.mem_filter, List.mem_filterMap,
    ExtTreeSet.mem_toList, Option.map_eq_some_iff, decide_eq_true_eq, member?]
  constructor
  · rintro ⟨_, ⟨⟨z, hz, u, hu, rfl⟩, hnew⟩, rfl⟩
    dsimp only at hnew ⊢
    rw [hn.name hu]
    exact ⟨hz, hnew, u, hu, rfl⟩
  · rintro ⟨hz, hnew, u, hu, rfl⟩
    exact ⟨(u.member.name, u.member), ⟨⟨_, hz, u, hu, rfl⟩, hnew⟩, rfl⟩

theorem nodup_strangers (hn : n.Tidy) (union : NameSet) (s : Slot) :
    ((strangers (n.described union) s).map Member.name).Nodup := by
  have hfst : ∀ p ∈ (n.described union).filter (fun p => p.1 ∉ s.view), p.2.name = p.1 := by
    intro p hp
    obtain ⟨z, -, hz⟩ := List.mem_filterMap.mp (List.mem_filter.mp hp).1
    obtain ⟨u, hu, rfl⟩ := Option.map_eq_some_iff.mp hz
    exact hn.name hu
  have hnames : (strangers (n.described union) s).map Member.name =
      ((n.described union).filter (fun p => p.1 ∉ s.view)).map Prod.fst := by
    rw [strangers, List.map_map]
    exact List.map_congr_left hfst
  have hsub : ((n.described union).map Prod.fst).Sublist union.toList := by
    rw [described, List.map_filterMap]
    have hkeep : (fun x : String => ((n.slots[x]?).map fun u => (x, u.member)).map Prod.fst) =
        Option.guard fun x => (n.slots[x]?).isSome := by
      funext x
      cases hx : n.slots[x]? <;> simp [Option.guard, hx]
    rw [hkeep, List.filterMap_eq_filter]
    exact List.filter_sublist
  rw [hnames]
  exact ((List.filter_sublist.map Prod.fst).trans hsub).nodup (nodup_toList union)

theorem reports_welcome (union : NameSet) (known : List (String × Member)) (s : Slot) :
    (welcome union known s).2.flatMap Event.reports =
      (strangers known s).map (Prod.mk EventKind.join) := by
  rw [welcome]
  dsimp only
  split
  · rename_i h
    rw [List.isEmpty_iff.mp h]
    rfl
  · exact List.append_nil _

theorem mem_names_strangers (hn : n.Tidy) {union : NameSet} :
    y ∈ (strangers (n.described union) s).map Member.name ↔
      y ∈ union ∧ y ∉ s.view ∧ (n.member? y).isSome := by
  rw [List.mem_map]
  constructor
  · rintro ⟨m, hm, rfl⟩
    obtain ⟨hunion, hnew, hm⟩ := (mem_strangers hn).mp hm
    exact ⟨hunion, hnew, by rw [hm, Option.isSome_some]⟩
  · rintro ⟨hunion, hnew, hy⟩
    obtain ⟨m, hm⟩ := Option.isSome_iff_exists.mp hy
    obtain ⟨u, hu, rfl⟩ := Option.map_eq_some_iff.mp hm
    obtain rfl := hn.name hu
    exact ⟨u.member, (mem_strangers hn).mpr ⟨hunion, hnew, hm⟩, rfl⟩

theorem Partition.registered (h : n.Partition) (hs : n.slots[x]? = some s) (hy : y ∈ s.view) :
    (n.member? y).isSome := by
  obtain ⟨t, ht, -⟩ := h.known hs hy
  rw [member?, ht, Option.map_some, Option.isSome_some]

theorem Recalled.merge (h : n.Recalled) (hn : n.Tidy) (hp : n.Partition) (name target : String) :
    (n.merge name target).1.Recalled := by
  rcases merge_cases n name target with e | ⟨s, t, hs, ht, e⟩ <;> rw [e]
  · exact h
  · obtain ⟨b, hb, -⟩ := (at?_eq_some hn).mp ht
    refine h.round rfl hn.apart (nodup_toList _) (fun hu _ => h.known hu) fun {x u} hu hx => ?_
    rw [ExtTreeSet.mem_toList, ExtTreeSet.mem_union_iff] at hx
    -- those whom the member knew are in the united view, and all in there are registered
    have hview : ∀ y, y ∈ u.view → y ∈ s.view ∪ t.view := by
      intro y hy
      rcases hx with hx | hx
      · exact ExtTreeSet.mem_union_of_left (hp.view_eq hs hu hx ▸ hy)
      · exact ExtTreeSet.mem_union_of_right (hp.view_eq hb hu hx ▸ hy)
    have hregistered : ∀ y, y ∈ s.view ∪ t.view → (n.member? y).isSome := fun y hy =>
      (ExtTreeSet.mem_union_iff.mp hy).elim (hp.registered hs) (hp.registered hb)
    rw [reports_welcome]
    refine ⟨fitAll_join (nodup_strangers hn _ u) fun m hm => ?_, fun y => ?_⟩
    · rw [h.mem hp hu]
      exact ((mem_strangers hn).mp hm).2.1
    · rw [takeAll_join fun m hm => ((mem_strangers hn).mp hm).2.2, h.known hu]
      simp only [mem_names_strangers hn, welcome]
      by_cases hy : y ∈ s.view ∪ t.view
      · by_cases hyu : y ∈ u.view <;> simp [hy, hyu, hregistered y hy]
      · simp [hy, mt (hview y) hy]

theorem slots_without {u : Slot} : (n.without name).slots[x]? = some u ↔
    name ≠ x ∧ n.slots[x]? = some u := by
  rw [without, getElem?_erase]
  split <;> rename_i h <;> simp [h]

theorem member?_without (n : Network) (name y : String) :
    (n.without name).member? y = if name = y then none else n.member? y := by
  rw [member?, without, getElem?_erase]
  split <;> rfl

theorem Recalled.depart (h : n.Recalled) (hn : n.Tidy) (hp : n.Partition) (name : String)
    {kind : EventKind} (hk : kind = .leave ∨ kind = .failed) (status : Liveness) :
    (n.depart name kind status).1.Recalled := by
  cases hs : n.slots[name]? with
  | none => rw [depart_of_none hs]; exact h
  | some s =>
    have hown := hp.self (view?_of_slot hs)
    rw [depart_eq hs]
    refine h.round rfl ((Keeps.without n name).apart hn.apart) (nodup_observers n name s) ?_ ?_
    · intro x u hu hx y
      obtain ⟨hne, hu⟩ := slots_without.mp hu
      have hxs : x ∉ s.view := fun hxs => hx ((mem_observers hp hs).mpr ⟨hxs, Ne.symm hne⟩)
      rw [h.known hu, member?_without]
      by_cases hy : name = y
      · subst hy
        have : name ∉ u.view := fun hu' =>
          hxs (hp.eq_of_mem (view?_of_slot hu) (view?_of_slot hs) hu' hown ▸
            hp.self (view?_of_slot hu))
        rw [if_neg this, if_neg this]
      · rw [if_neg hy]
    · intro x u hu hx
      obtain ⟨hne, hu⟩ := slots_without.mp hu
      obtain ⟨hxs, -⟩ := (mem_observers hp hs).mp hx
      have hview := hp.view_eq hs hu hxs
      have hknown : s.member.name ∈ ofEvents (n.sent u.mailbox) := by
        rw [h.mem hp hu, hview, hn.name hs]
        exact hown
      have htake : ∀ y : String, ((ofEvents (n.sent u.mailbox)).erase s.member.name)[y]? =
          if y ∈ u.view.erase name then (n.without name).member? y else none := by
        intro y
        rw [getElem?_erase, member?_without, h.known hu, hn.name hs]
        by_cases hy : name = y
        · rw [if_pos hy, if_pos hy, ite_self]
        · simp [hy]
      rcases hk with rfl | rfl <;> exact ⟨⟨hknown, trivial⟩, htake⟩

theorem member?_retag (n : Network) (name : String) (s : Slot) (tags : Tags) (y : String) :
    (n.retag name s tags).member? y =
      if name = y then some { s.member with tags := tags } else n.member? y := by
  rw [member?, retag, getElem?_insert]
  split <;> rfl

/-- New tags leave views and mailboxes as they are. -/
theorem slots_retag (hs : n.slots[name]? = some s) {tags : Tags} {u : Slot}
    (hu : (n.retag name s tags).slots[x]? = some u) :
    ∃ u', n.slots[x]? = some u' ∧ u'.view = u.view ∧ u'.mailbox = u.mailbox := by
  rw [retag, getElem?_insert] at hu
  split at hu
  · rename_i e
    cases hu
    exact ⟨s, e ▸ hs, rfl, rfl⟩
  · exact ⟨u, hu, rfl, rfl⟩

theorem Recalled.update (h : n.Recalled) (hn : n.Tidy) (hp : n.Partition) (name : String)
    (tags : Tags) : (n.update name tags).1.Recalled := by
  cases hs : n.slots[name]? with
  | none => rw [update_of_none hs]; exact h
  | some s =>
    have hkeeps : Keeps n (n.retag name s tags) := .retag hs tags
    rw [update_eq hs]
    refine h.round rfl (hkeeps.apart hn.apart) (nodup_toList _) ?_ ?_ <;>
      intro x u hu hx <;> rw [ExtTreeSet.mem_toList] at hx <;>
      obtain ⟨u', hu', eview, emailbox⟩ := slots_retag hs hu
    case refine_1 =>
      intro y
      have hname : name ∉ u'.view := fun hmem =>
        hx (hp.view_eq hu' hs hmem ▸ hp.self (view?_of_slot hu'))
      rw [← emailbox, h.known hu', ← eview, member?_retag]
      by_cases hy : name = y
      · subst hy
        rw [if_neg hname, if_neg hname]
      · rw [if_neg hy]
    case refine_2 =>
      have hname : name ∈ u'.view := hp.view_eq hs hu' hx ▸ hp.self (view?_of_slot hs)
      rw [← emailbox]
      refine ⟨⟨?_, trivial⟩, fun y => ?_⟩
      · show s.member.name ∈ ofEvents (n.sent u'.mailbox)
        rw [h.mem hp hu', hn.name hs]
        exact hname
      · show ((ofEvents (n.sent u'.mailbox)).insert s.member.name { s.member with tags := tags })[y]? =
          if y ∈ u.view then _ else none
        rw [getElem?_insert, hn.name hs, h.known hu', ← eview, member?_retag]
        by_cases hy : name = y
        · subst hy
          simp [hname]
        · rw [if_neg hy, if_neg hy]

theorem Recalled.reap (h : n.Recalled) (hn : n.Tidy) (name : String) : (n.reap name).1.Recalled := by
  cases hf : n.failed[name]? with
  | none => rw [reap_of_none hf]; exact h
  | some p =>
    obtain ⟨m, told⟩ := p
    rw [reap_eq hf]
    refine h.round rfl hn.apart (hn.observers hf) (fun hu _ => h.known hu) fun hu _ =>
      ⟨⟨trivial, trivial⟩, h.known hu⟩

theorem Recalled.move (h : n.Recalled) (hn : n.Tidy) (hp : n.Partition) (hm : Move n n') :
    n'.Recalled := by
  cases hm with
  | register hr => exact h.register hn hp hr
  | merge name target => exact h.merge hn hp name target
  | leave name => exact h.depart hn hp name (Or.inl rfl) .left
  | fail name =>
    have hd := h.depart hn hp name (Or.inr rfl) .failed
    cases hs : n.slots[name]? with
    | none => rw [fail_of_none hs]; exact h
    | some s => rw [fail_eq hs]; exact hd.of_log rfl rfl
  | reap name => exact h.reap hn name
  | update name tags => exact h.update hn hp name tags

theorem recalled_run (ops : List Session.Op) : (Session.run {} ops).network.Recalled := by
  refine (Session.run_induction (P := fun n => (n.Tidy ∧ n.Partition) ∧ n.Recalled)
    ⟨⟨tidy_empty, partition_empty⟩, recalled_empty⟩ (fun ⟨⟨hn, hp⟩, h⟩ hm => ?_) ops).2
  exact ⟨⟨hn.move hm, hp.move hn hm⟩, h.move hn hp hm⟩

end Network

namespace Session

open Network Recollection

/-- What a member was told since it was registered amounts to the descriptions of those in its view, all of
whom are registered, and nothing of it came twice or too late: nobody joins who is known by then, and nobody
changes, leaves or fails who is not. -/
theorem events_rebuild_view (ops : List Op) :
    (∀ (x : String) (s : Slot), (run {} ops).network.slots[x]? = some s →
      (∀ y, y ∈ s.view → ((run {} ops).network.member? y).isSome) ∧
      ∀ y : String, (ofEvents ((run {} ops).network.sent s.mailbox))[y]? =
        if y ∈ s.view then (run {} ops).network.member? y else none) ∧
    ∀ mailbox, FitAll ∅ (((run {} ops).network.sent mailbox).flatMap Event.reports) := by
  have h := recalled_run ops
  exact ⟨fun x s hs => ⟨fun y => (ordered_run ops).2.registered hs, h.known hs⟩, h.fits⟩

/-- Two members come together; one of them changes its tags, crashes, comes back as another engine and
joins again. -/
def comeback : List Op :=
  [.add "a" { engine := { member := { name := "a", address := "a:7946" } } }, .start "a",
    .add "b" { engine := { member := { name := "b", address := "b:7946" } } }, .start "b",
    .join "b" ["a:7946"], .setTags "b" ((∅ : Tags).insert "role" "reader"), .fail "b", .reap "b",
    .add "b" { engine := { member := { name := "b", address := "b:7946" } } }, .start "b",
    .join "b" ["a:7946"]]

theorem events_rebuild_view_of_comeback :
    ((run {} comeback).network.sent 0).flatMap (fun e => e.reports.map fun r => (r.1, r.2.name)) =
      [(.join, "a"), (.join, "b"), (.update, "b"), (.failed, "b"), (.reap, "b"), (.join, "b")] ∧
    (run {} comeback).network.names = ["a", "b"] ∧
    (ofEvents ((run {} comeback).network.sent 0))["b"]? = (run {} comeback).network.member? "b" ∧
    FitAll ∅ (((run {} comeback).network.sent 0).flatMap Event.reports) := by
  obtain ⟨hview, hfits⟩ := events_rebuild_view comeback
  have ha : ((run {} comeback).network.slots["a"]?).any
      (fun s => decide (s.mailbox = 0 ∧ "b" ∈ s.view)) = true := by decide +kernel
  obtain ⟨s, hs, ha⟩ := (Option.any_eq_true _ _).mp ha
  obtain ⟨hmailbox, hb⟩ := of_decide_eq_true ha
  have hknown := (hview "a" s hs).2 "b"
  rw [hmailbox, if_pos hb] at hknown
  exact ⟨by decide +kernel, by decide +kernel, hknown, hfits 0⟩

end Session

end ReplicatedTable.Gossip
