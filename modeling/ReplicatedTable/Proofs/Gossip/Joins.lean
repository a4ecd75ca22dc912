import ReplicatedTable.Proofs.Gossip.Views

/-!
# Joins

A join unites the class of the joiner with the class of the member it contacts (`knows_merge`). After many
joins two members know each other if a chain of old acquaintances and contacts connects them
(`knows_mergeAll`), which does not depend on the order of the joins (`view?_mergeAll_congr`). In a session an
engine contacts nobody unless it runs and its name is registered (`knows_join`).
-/
namespace ReplicatedTable.Gossip

open Std Relation

namespace Network

variable {n n' : Network} {x y z a b name target : String} {s t : Slot} {v w : NameSet}
  {links more : List (String × String)}

/-! ## Who knows whom -/

/-- A member has a name in its view. -/
def Knows (n : Network) (x y : String) : Prop := ∃ v, n.view? x = some v ∧ y ∈ v

/-- A registered name reaches the member that is registered at an address. -/
def Contact (n : Network) (a target b : String) : Prop :=
  (n.member? a).isSome ∧ (n.member? b).map Member.address = some target

/-- One of some joins contacts a member. -/
def Linked (n : Network) (links : List (String × String)) (a b : String) : Prop :=
  ∃ target, (a, target) ∈ links ∧ n.Contact a target b

theorem member?_isSome : (n.member? x).isSome ↔ ∃ v, n.view? x = some v := by
  rw [member?, Option.isSome_map, Option.isSome_iff_exists]
  simp only [view?_eq_some]
  constructor
  · rintro ⟨s, hs⟩
    exact ⟨s.view, s, hs, rfl⟩
  · rintro ⟨_, s, hs, -⟩
    exact ⟨s, hs⟩

theorem Partition.knows_self (h : n.Partition) : n.Knows x x ↔ (n.member? x).isSome := by
  rw [member?_isSome]
  exact ⟨fun ⟨v, hv, _⟩ => ⟨v, hv⟩, fun ⟨v, hv⟩ => ⟨v, hv, h.self hv⟩⟩

theorem Partition.knows_symm (h : n.Partition) (hxy : n.Knows x y) : n.Knows y x := by
  obtain ⟨v, hv, hy⟩ := hxy
  exact ⟨v, h.shared hv hy, h.self hv⟩

theorem Partition.knows_trans (h : n.Partition) (hxy : n.Knows x y) (hyz : n.Knows y z) :
    n.Knows x z := by
  obtain ⟨v, hv, hy⟩ := hxy
  obtain ⟨w, hw, hz⟩ := hyz
  obtain rfl := Option.some.inj ((h.shared hv hy).symm.trans hw)
  exact ⟨v, hv, hz⟩

/-- Who knows whom determines the views. -/
theorem view?_ext (h : n.Partition) (h' : n'.Partition) (hxy : ∀ y, n.Knows x y ↔ n'.Knows x y) :
    n.view? x = n'.view? x := by
  have hmem : ∀ {n : Network} {v : NameSet}, n.view? x = some v → ∀ y, n.Knows x y ↔ y ∈ v :=
    fun hv y => ⟨fun ⟨w, hw, hy⟩ => Option.some.inj (hv.symm.trans hw) ▸ hy, fun hy => ⟨_, hv, hy⟩⟩
  cases hv : n.view? x with
  | none =>
    cases hw : n'.view? x with
    | none => rfl
    | some w =>
      obtain ⟨v, hv', -⟩ := (hxy x).mpr ⟨w, hw, h'.self hw⟩
      rw [hv] at hv'
      cases hv'
  | some v =>
    obtain ⟨w, hw, -⟩ := (hxy x).mp ⟨v, hv, h.self hv⟩
    rw [hw, Option.some.injEq]
    exact ExtTreeSet.ext_mem fun y => by rw [← hmem hv y, hxy y, hmem hw y]

/-! ## One join -/

theorem member?_merge (n : Network) (name target x : String) :
    (n.merge name target).1.member? x = n.member? x := by
  rcases merge_cases n name target with h | ⟨s, t, -, -, h⟩ <;> rw [h]
  exact member?_round _ n (nodup_toList _) x

theorem contact_merge (n : Network) (name target a address b : String) :
    (n.merge name target).1.Contact a address b ↔ n.Contact a address b := by
  simp only [Contact, member?_merge]

theorem contact_iff (hn : n.Tidy) : n.Contact a target b ↔
    ∃ s t, n.slots[a]? = some s ∧ n.slots[b]? = some t ∧ n.at? target = some t := by
  simp only [Contact, member?, Option.isSome_map, Option.isSome_iff_exists, Option.map_map,
    Option.map_eq_some_iff, at?_eq_some hn]
  constructor
  · rintro ⟨⟨s, hs⟩, t, ht, e⟩
    exact ⟨s, t, hs, ht, b, ht, e⟩
  · rintro ⟨s, t, hs, ht, c, hc, e⟩
    exact ⟨⟨s, hs⟩, t, ht, e⟩

theorem merge_of_alone (hn : n.Tidy) (h : ∀ b, ¬n.Contact a target b) :
    (n.merge a target).1 = n := by
  rcases merge_cases n a target with e | ⟨s, t, hs, ht, -⟩
  · rw [e]
  · obtain ⟨b, hb, -⟩ := (at?_eq_some hn).mp ht
    exact absurd ((contact_iff hn).mpr ⟨s, t, hs, hb, ht⟩) (h b)

theorem knows_of_slot (hs : n.slots[x]? = some s) : n.Knows x y ↔ y ∈ s.view := by
  refine ⟨fun ⟨v, hv, hy⟩ => ?_, fun hy => ⟨s.view, view?_of_slot hs, hy⟩⟩
  rw [view?_of_slot hs] at hv
  exact Option.some.inj hv ▸ hy

/-- A join unites two classes and leaves the others alone. -/
theorem knows_merge (h : n.Partition) (hn : n.Tidy) (hc : n.Contact a target b) :
    (n.merge a target).1.Knows x y ↔
      n.Knows x y ∨ (n.Knows a x ∨ n.Knows b x) ∧ (n.Knows a y ∨ n.Knows b y) := by
  obtain ⟨s, t, hs, ht, hat⟩ := (contact_iff hn).mp hc
  have hview := view?_merge h hat ht hs
  have hunion : ∀ z, z ∈ s.view ∪ t.view ↔ n.Knows a z ∨ n.Knows b z := fun z => by
    rw [ExtTreeSet.mem_union_iff, knows_of_slot hs, knows_of_slot ht]
  rw [← hunion, ← hunion]
  by_cases hx : x ∈ s.view ∪ t.view
  · have hnew : (n.merge a target).1.Knows x y ↔ y ∈ s.view ∪ t.view := by
      simp only [Knows, hview, if_pos hx, Option.some.injEq, exists_eq_left']
    rw [hnew]
    refine ⟨fun hy => Or.inr ⟨hx, hy⟩, fun hy => ?_⟩
    rcases hy with hy | hy
    · rw [hunion] at hx ⊢
      exact hx.imp (h.knows_trans · hy) (h.knows_trans · hy)
    · exact hy.2
  · have hold : (n.merge a target).1.Knows x y ↔ n.Knows x y := by
      simp only [Knows, hview, if_neg hx]
    rw [hold]
    exact ⟨Or.inl, fun hy => hy.elim id fun hy => absurd hy.1 hx⟩

theorem knows_merge_le (h : n.Partition) (hn : n.Tidy) (name target : String)
    (hxy : n.Knows x y) : (n.merge name target).1.Knows x y := by
  by_cases hc : ∃ b, n.Contact name target b
  · obtain ⟨b, hc⟩ := hc
    exact (knows_merge h hn hc).mpr (Or.inl hxy)
  · rwa [merge_of_alone hn (not_exists.mp hc)]

/-! ## Many joins -/

section
variable (h : n.Partition) (hn : n.Tidy)
include h hn

theorem ordered_mergeAll (links : List (String × String)) :
    (n.mergeAll links).Partition ∧ (n.mergeAll links).Tidy := by
  induction links generalizing n with
  | nil => exact ⟨h, hn⟩
  | cons p links ih => exact ih (h.merge hn p.1 p.2) (hn.move (.merge p.1 p.2))

theorem knows_mergeAll_le (links : List (String × String)) (hxy : n.Knows x y) :
    (n.mergeAll links).Knows x y := by
  induction links generalizing n with
  | nil => exact hxy
  | cons p links ih =>
    exact ih (h.merge hn p.1 p.2) (hn.move (.merge p.1 p.2)) (knows_merge_le h hn p.1 p.2 hxy)

theorem knows_of_linked (hl : n.Linked links a b) : (n.mergeAll links).Knows a b := by
  obtain ⟨target, hmem, hc⟩ := hl
  induction links generalizing n with
  | nil => cases hmem
  | cons p links ih =>
    have h' := h.merge hn p.1 p.2
    have hn' := hn.move (.merge p.1 p.2)
    rcases List.mem_cons.mp hmem with rfl | hmem
    · refine knows_mergeAll_le h' hn' links ((knows_merge h hn hc).mpr (Or.inr ?_))
      obtain ⟨s, t, hs, ht, -⟩ := (contact_iff hn).mp hc
      exact ⟨Or.inl ((knows_of_slot hs).mpr (h.self (view?_of_slot hs))),
        Or.inr ((knows_of_slot ht).mpr (h.self (view?_of_slot ht)))⟩
    · exact ih h' hn' hmem ((contact_merge ..).mpr hc)

/-- Joins make nobody known but those who are related anyway, if contacts are. -/
theorem mergeAll_knows_le {R : String → String → Prop} (hR : Equivalence R)
    (hold : ∀ {x y}, n.Knows x y → R x y) (hlink : ∀ {a b}, n.Linked links a b → R a b)
    (hxy : (n.mergeAll links).Knows x y) : R x y := by
  induction links generalizing n with
  | nil => exact hold hxy
  | cons p links ih =>
    refine ih (h.merge hn p.1 p.2) (hn.move (.merge p.1 p.2)) (fun {x y} hxy => ?_)
      (fun {a b} hl => ?_) hxy
    · by_cases hc : ∃ b, n.Contact p.1 p.2 b
      · obtain ⟨b, hc⟩ := hc
        have hab : R p.1 b := hlink ⟨p.2, List.mem_cons_self .., hc⟩
        have hclass : ∀ {z}, n.Knows p.1 z ∨ n.Knows b z → R p.1 z := fun hz =>
          hz.elim hold fun hz => hR.trans hab (hold hz)
        rcases (knows_merge h hn hc).mp hxy with hxy | ⟨hx, hy⟩
        · exact hold hxy
        · exact hR.trans (hR.symm (hclass hx)) (hclass hy)
      · rw [merge_of_alone hn (not_exists.mp hc)] at hxy
        exact hold hxy
    · obtain ⟨target, hmem, hc⟩ := hl
      exact hlink ⟨target, List.mem_cons_of_mem _ hmem, (contact_merge ..).mp hc⟩

end

theorem mergeAll_of_alone (hn : n.Tidy) (hl : ∀ a b, ¬n.Linked links a b) :
    n.mergeAll links = n := by
  induction links with
  | nil => rfl
  | cons p links ih =>
    rw [mergeAll_cons, merge_of_alone hn fun b hc => hl p.1 b ⟨p.2, List.mem_cons_self .., hc⟩]
    exact ih fun a b ⟨target, hmem, hc⟩ => hl a b ⟨target, List.mem_cons_of_mem _ hmem, hc⟩

theorem member?_mergeAll (n : Network) (links : List (String × String)) (x : String) :
    (n.mergeAll links).member? x = n.member? x := by
  induction links generalizing n with
  | nil => rfl
  | cons p links ih => exact (ih _).trans (member?_merge n p.1 p.2 x)

/-- After joins a member knows whom a chain of old acquaintances and contacts connects it with. -/
theorem knows_mergeAll (h : n.Partition) (hn : n.Tidy) : (n.mergeAll links).Knows x y ↔
    (n.member? x).isSome ∧ EqvGen (fun a b => n.Knows a b ∨ n.Linked links a b) x y := by
  obtain ⟨h', -⟩ := ordered_mergeAll h hn links
  constructor
  · intro hxy
    refine ⟨?_, mergeAll_knows_le h hn (EqvGen.is_equivalence _) (fun hk => .rel _ _ (Or.inl hk))
      (fun hl => .rel _ _ (Or.inr hl)) hxy⟩
    rw [← member?_mergeAll n links x, ← h'.knows_self]
    exact h'.knows_trans hxy (h'.knows_symm hxy)
  · rintro ⟨hx, hxy⟩
    have hclosed : x = y ∨ (n.mergeAll links).Knows x y := by
      clear hx
      induction hxy with
      | rel a b hab =>
        exact Or.inr (hab.elim (knows_mergeAll_le h hn links) (knows_of_linked h hn))
      | refl a => exact Or.inl rfl
      | symm a b _ ih => exact ih.imp Eq.symm h'.knows_symm
      | trans a b c _ _ ih ih' =>
        rcases ih with rfl | hab
        · exact ih'
        · rcases ih' with rfl | hbc
          · exact Or.inr hab
          · exact Or.inr (h'.knows_trans hab hbc)
    rcases hclosed with rfl | hxy
    · rwa [h'.knows_self, member?_mergeAll]
    · exact hxy

/-- The order of joins does not matter, nor does it matter how often they are repeated. -/
theorem view?_mergeAll_congr (h : n.Partition) (hn : n.Tidy) (hsame : ∀ p, p ∈ links ↔ p ∈ more)
    (x : String) : (n.mergeAll links).view? x = (n.mergeAll more).view? x := by
  refine view?_ext (ordered_mergeAll h hn links).1 (ordered_mergeAll h hn more).1 fun y => ?_
  have hlinked : n.Linked links = n.Linked more := by
    funext a b
    simp only [Linked, hsame]
  rw [knows_mergeAll h hn, knows_mergeAll h hn, hlinked]

/-- A name that a joiner knows, or one of those whom it contacts. -/
def Gathered (n : Network) (a : String) (targets : List String) (z : String) : Prop :=
  n.Knows a z ∨ ∃ target ∈ targets, ∃ b, n.Contact a target b ∧ n.Knows b z

theorem Gathered.of_knows (h : n.Partition) {targets : List String} (hy : n.Gathered a targets y)
    (hxy : n.Knows x y) : n.Gathered a targets x := by
  have hyx := h.knows_symm hxy
  rcases hy with hy | ⟨target, hmem, b, hc, hy⟩
  · exact Or.inl (h.knows_trans hy hyx)
  · exact Or.inr ⟨target, hmem, b, hc, h.knows_trans hy hyx⟩

/-- Joins of one member unite its class with those of whom it contacts and leave the others alone. -/
theorem knows_mergeAll_of_one (h : n.Partition) (hn : n.Tidy) (ha : (n.member? a).isSome)
    (targets : List String) : (n.mergeAll (targets.map (Prod.mk a))).Knows x y ↔
      n.Knows x y ∨ n.Gathered a targets x ∧ n.Gathered a targets y := by
  obtain ⟨h', -⟩ := ordered_mergeAll h hn (targets.map (Prod.mk a))
  have hle : ∀ {x y}, n.Knows x y → (n.mergeAll (targets.map (Prod.mk a))).Knows x y :=
    knows_mergeAll_le h hn _
  constructor
  · intro hxy
    have hclosed : x = y ∨ n.Knows x y ∨ n.Gathered a targets x ∧ n.Gathered a targets y := by
      refine mergeAll_knows_le (R := fun x y => x = y ∨ n.Knows x y ∨
        n.Gathered a targets x ∧ n.Gathered a targets y) h hn ⟨fun _ => Or.inl rfl, ?_, ?_⟩
        (fun hk => Or.inr (Or.inl hk)) ?_ hxy
      · intro x y hxy
        exact hxy.imp Eq.symm (Or.imp h.knows_symm And.symm)
      · intro x y z hxy hyz
        rcases hxy with rfl | hxy | ⟨hx, hy⟩
        · exact hyz
        · rcases hyz with rfl | hyz | ⟨hy, hz⟩
          · exact Or.inr (Or.inl hxy)
          · exact Or.inr (Or.inl (h.knows_trans hxy hyz))
          · exact Or.inr (Or.inr ⟨hy.of_knows h hxy, hz⟩)
        · rcases hyz with rfl | hyz | ⟨-, hz⟩
          · exact Or.inr (Or.inr ⟨hx, hy⟩)
          · exact Or.inr (Or.inr ⟨hx, hy.of_knows h (h.knows_symm hyz)⟩)
          · exact Or.inr (Or.inr ⟨hx, hz⟩)
      · rintro c b ⟨target, hmem, hc⟩
        obtain ⟨_, hmem, e⟩ := List.mem_map.mp hmem
        cases e
        have hb : (n.member? b).isSome := by
          rw [← Option.isSome_map (f := Member.address), hc.2]
          rfl
        exact Or.inr (Or.inr ⟨Or.inl (h.knows_self.mpr ha),
          Or.inr ⟨_, hmem, b, hc, h.knows_self.mpr hb⟩⟩)
    rcases hclosed with rfl | hxy'
    · rw [h'.knows_self, member?_mergeAll] at hxy
      exact Or.inl (h.knows_self.mpr hxy)
    · exact hxy'
  · have hclass : ∀ {z}, n.Gathered a targets z →
        (n.mergeAll (targets.map (Prod.mk a))).Knows a z := by
      rintro z (hz | ⟨target, hmem, b, hc, hz⟩)
      · exact hle hz
      · exact h'.knows_trans
          (knows_of_linked h hn ⟨target, List.mem_map.mpr ⟨target, hmem, rfl⟩, hc⟩) (hle hz)
    rintro (hxy | ⟨hx, hy⟩)
    · exact hle hxy
    · exact h'.knows_trans (h'.knows_symm (hclass hx)) (hclass hy)

end Network

namespace Session

open Network

/-! ## Joins in a session -/

/-- What is joined if the engine under a name is asked to join the members at some addresses. -/
def links (s : Session) (on : String) (addresses : List String) : List (String × String) :=
  ((s.listeners[on]?).map fun l => l.engine.links addresses).getD []

/-- Some engines join, one after the other. -/
def joinAll (s : Session) (joins : List (String × List String)) : Session :=
  s.run (joins.map fun p => .join p.1 p.2)

/-- The pairs of a joiner and an address. -/
def pairs (joins : List (String × List String)) : List (String × String) :=
  joins.flatMap fun p => p.2.map (Prod.mk p.1)

theorem joinAll_cons (s : Session) (p : String × List String) (joins : List (String × List String)) :
    (s.joinAll (p :: joins)).network = ({ s with
      network := s.network.mergeAll (s.links p.1 p.2) }.joinAll joins).network := by
  show ((((s.step? (.join p.1 p.2)).map (·.1)).getD s).joinAll joins).network = _
  congr 2
  rw [step?, withListener, links]
  cases s.listeners[p.1]? with
  | none => rfl
  | some l =>
    rw [Option.map_some, Option.map_some, Option.map_some, Option.getD_some, Option.getD_some,
      ← Engine.join_network]

theorem network_joinAll (s : Session) (joins : List (String × List String)) :
    (s.joinAll joins).network = s.network.mergeAll (joins.flatMap fun p => s.links p.1 p.2) := by
  induction joins generalizing s with
  | nil => rfl
  | cons p joins ih =>
    rw [joinAll_cons, ih, List.flatMap_cons, mergeAll_append]
    rfl

theorem mem_links {s : Session} {on : String} {addresses : List String} {q : String × String} :
    q ∈ s.links on addresses ↔ ∃ l, s.listeners[on]? = some l ∧ l.engine.running = true ∧
      ∃ a ∈ addresses, a ≠ l.engine.member.address ∧ (l.engine.member.name, a) = q := by
  unfold links
  cases s.listeners[on]? with
  | none => simp
  | some l =>
    simp only [Option.map_some, Option.getD_some, Engine.links, Option.some.injEq, exists_eq_left']
    split <;> rename_i hrun <;> simp [hrun, and_assoc]

/-- What is joined depends on the pairs only. -/
theorem mem_joined {s : Session} {joins : List (String × List String)} {q : String × String} :
    q ∈ joins.flatMap (fun p => s.links p.1 p.2) ↔ ∃ p ∈ pairs joins, q ∈ s.links p.1 [p.2] := by
  simp only [pairs, List.mem_flatMap, List.mem_map, mem_links, List.mem_singleton, exists_eq_left]
  constructor
  · rintro ⟨p, hp, l, hl, hrun, a, ha, hq⟩
    exact ⟨(p.1, a), ⟨p, hp, a, ha, rfl⟩, l, hl, hrun, hq⟩
  · rintro ⟨_, ⟨p, hp, a, ha, rfl⟩, l, hl, hrun, hq⟩
    exact ⟨p, hp, l, hl, hrun, a, ha, hq⟩

/-- A name that a joiner knows, or one of those whom it contacts, if the joiner runs and is registered. -/
def Gathers (s : Session) (on : String) (addresses : List String) (z : String) : Prop :=
  ∃ l, s.listeners[on]? = some l ∧ l.engine.running = true ∧
    (s.network.member? l.engine.member.name).isSome ∧
    s.network.Gathered l.engine.member.name (addresses.filter (· ≠ l.engine.member.address)) z

theorem Gathers.of_knows {s : Session} (h : s.network.Partition) {on : String}
    {addresses : List String} {x y : String} (hy : s.Gathers on addresses y)
    (hxy : s.network.Knows x y) : s.Gathers on addresses x := by
  obtain ⟨l, hl, hrun, hreg, hy⟩ := hy
  exact ⟨l, hl, hrun, hreg, hy.of_knows h hxy⟩

theorem knows_join {s : Session} (h : s.network.Partition) (hn : s.network.Tidy) (on : String)
    (addresses : List String) {x y : String} : (s.joinAll [(on, addresses)]).network.Knows x y ↔
      s.network.Knows x y ∨ s.Gathers on addresses x ∧ s.Gathers on addresses y := by
  rw [network_joinAll, List.flatMap_singleton]
  by_cases hl : ∃ l, s.listeners[on]? = some l ∧ l.engine.running = true ∧
      (s.network.member? l.engine.member.name).isSome
  · obtain ⟨l, hl, hrun, hreg⟩ := hl
    have hlinks : s.links on addresses =
        (addresses.filter (· ≠ l.engine.member.address)).map (Prod.mk l.engine.member.name) := by
      rw [links, hl, Option.map_some, Option.getD_some, Engine.links, if_pos hrun]
    have hgathers : ∀ z, s.Gathers on addresses z ↔ s.network.Gathered l.engine.member.name
        (addresses.filter (· ≠ l.engine.member.address)) z := fun z =>
      ⟨fun ⟨l', hl', _, _, hz⟩ => Option.some.inj (hl'.symm.trans hl) ▸ hz,
        fun hz => ⟨l, hl, hrun, hreg, hz⟩⟩
    rw [hlinks, hgathers, hgathers]
    exact knows_mergeAll_of_one h hn hreg _
  · have halone : ∀ a b, ¬s.network.Linked (s.links on addresses) a b := by
      rintro a b ⟨target, hmem, hc⟩
      obtain ⟨l, hl', hrun, _, -, -, e⟩ := mem_links.mp hmem
      cases e
      exact hl ⟨l, hl', hrun, hc.1⟩
    rw [mergeAll_of_alone hn halone]
    exact ⟨Or.inl, fun hxy => hxy.elim id fun ⟨⟨l, hl', hrun, hreg, _⟩, _⟩ =>
      absurd ⟨l, hl', hrun, hreg⟩ hl⟩

end Session

/-- Registered members share neither names nor addresses, everybody has itself and registered members in its
view, and two views are the same or have no name in common. -/
structure Network.Partitioned (n : Network) : Prop where
  names : ∀ {x y : String} {s t : Slot}, n.slots[x]? = some s → n.slots[y]? = some t →
    s.member.name = t.member.name → x = y
  addresses : ∀ {x y : String} {s t : Slot}, n.slots[x]? = some s → n.slots[y]? = some t →
    s.member.address = t.member.address → x = y
  self : ∀ {x : String} {s : Slot}, n.slots[x]? = some s → s.member.name = x ∧ x ∈ s.view
  registered : ∀ {x y : String} {s : Slot}, n.slots[x]? = some s → y ∈ s.view → y ∈ n.slots
  alike : ∀ {x y : String} {s t : Slot}, n.slots[x]? = some s → n.slots[y]? = some t →
    s.view = t.view ∨ ∀ z, z ∈ s.view → z ∉ t.view

theorem Network.Partition.partitioned {n : Network} (h : n.Partition) (hn : n.Tidy) :
    n.Partitioned where
  names hs ht e := by rw [← hn.name hs, e, hn.name ht]
  addresses := hn.address
  self hs := ⟨hn.name hs, h.self (view?_of_slot hs)⟩
  registered hs hy := by
    obtain ⟨t, ht, -⟩ := h.known hs hy
    exact mem_of_getElem? ht
  alike hs ht := or_iff_not_imp_right.mpr fun hmeet => by
    simp only [not_forall, not_not] at hmeet
    obtain ⟨z, hzs, hzt⟩ := hmeet
    exact h.eq_of_mem (view?_of_slot hs) (view?_of_slot ht) hzs hzt

namespace Session

open Network

/-- The members of a network are kept apart by name and address, and their views are a partition of them.
Joining unites the views of the joiner and of those whom it contacts and changes no other view. What several
joins make of the views depends on who joins at which address, and not on the order. -/
theorem views_partition (ops : List Op) : (run {} ops).network.Partitioned ∧
    (∀ (on : String) (addresses : List String) (x : String),
      ((run {} ops).Gathers on addresses x →
        ∃ v, ((run {} ops).joinAll [(on, addresses)]).network.view? x = some v ∧
          ∀ y, y ∈ v ↔ (run {} ops).Gathers on addresses y) ∧
      (¬(run {} ops).Gathers on addresses x →
        ((run {} ops).joinAll [(on, addresses)]).network.view? x = (run {} ops).network.view? x)) ∧
    ∀ joins joins' : List (String × List String), (∀ p, p ∈ pairs joins ↔ p ∈ pairs joins') →
      ∀ x, ((run {} ops).joinAll joins).network.view? x =
        ((run {} ops).joinAll joins').network.view? x := by
  obtain ⟨hn, h⟩ := ordered_run ops
  generalize run {} ops = s at h hn ⊢
  refine ⟨h.partitioned hn, fun on addresses x => ?_, fun joins joins' hsame x => ?_⟩
  · have hknows := fun x y => knows_join h hn on addresses (x := x) (y := y)
    have h' : (s.joinAll [(on, addresses)]).network.Partition :=
      network_joinAll s _ ▸ (ordered_mergeAll h hn _).1
    constructor
    · intro hx
      obtain ⟨v, hv, -⟩ := (hknows x x).mpr (Or.inr ⟨hx, hx⟩)
      refine ⟨v, hv, fun y => ⟨fun hy => ?_, fun hy => ?_⟩⟩
      · rcases (hknows x y).mp ⟨v, hv, hy⟩ with hxy | ⟨-, hy⟩
        · exact hx.of_knows h (h.knows_symm hxy)
        · exact hy
      · obtain ⟨w, hw, hyw⟩ := (hknows x y).mpr (Or.inr ⟨hx, hy⟩)
        exact Option.some.inj (hw.symm.trans hv) ▸ hyw
    · intro hx
      refine view?_ext h' h fun y => (hknows x y).trans ⟨fun hxy => ?_, Or.inl⟩
      exact hxy.elim id fun hxy => absurd hxy.1 hx
  · rw [network_joinAll, network_joinAll]
    refine view?_mergeAll_congr h hn (fun q => ?_) x
    rw [mem_joined, mem_joined]
    simp only [hsame]

/-- Four members that do not know each other. -/
def newcomers : List Op := ["a", "b", "c", "d"].flatMap fun name =>
  [.add name { engine := { member := { name := name, address := name ++ ":7946" } } }, .start name]

/-- Two joins that make one class of three members, and one that reaches nobody, in two orders. -/
theorem views_partition_reordered :
    ((run {} newcomers).joinAll [("b", ["a:7946"]), ("d", ["x:7946"]), ("c", ["b:7946"])]).network.view?
      "a" = ((run {} newcomers).joinAll
        [("c", ["b:7946"]), ("b", ["a:7946"]), ("d", ["x:7946"])]).network.view? "a" ∧
    (((run {} newcomers).joinAll [("b", ["a:7946"]), ("d", ["x:7946"]), ("c", ["b:7946"])]).network.view?
      "a").map (·.toList) = some ["a", "b", "c"] ∧
    (((run {} newcomers).joinAll [("b", ["a:7946"]), ("d", ["x:7946"]), ("c", ["b:7946"])]).network.view?
      "d").map (·.toList) = some ["d"] :=
  ⟨(views_partition newcomers).2.2 _ _ (by simp [pairs, or_comm, or_left_comm]) "a", by decide +kernel,
    by decide +kernel⟩

end Session

end ReplicatedTable.Gossip
