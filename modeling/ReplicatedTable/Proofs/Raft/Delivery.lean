import Mathlib.Data.List.Nodup
import ReplicatedTable.Proofs.Raft.Replica
import ReplicatedTable.Raft.Network

/-!
# Messages to many replicas

`mapAt` changes the replicas with given numbers one after another. The three ways in which a leader turns to
its peers (`deliver`, `deliverVoters`, `replicate`) are `mapAt` of what a single peer does, as long as the
leader is not among the peers. `Wired` is what the registry promises in every run: an address leads to a
replica at this address that runs, and every replica that runs and is held by somebody is found at its
address.
-/
namespace ReplicatedTable.Raft.Network

open Replica

variable {σ : Type}

/-! ## Single replicas -/

theorem replica?_eq_some {n : Network σ} {i : Nat} {r : Replica σ} :
    n.replica? i = some r ↔ n.replicas[i]? = some r ∧ r.dropped = false := by
  unfold replica?
  cases n.replicas[i]? with
  | none => simp
  | some x =>
    simp only [Option.filter_some, Bool.not_eq_true', Option.some.injEq]
    constructor
    · intro h
      split at h
      · simp_all
      · cases h
    · rintro ⟨rfl, h⟩
      simp [h]

section
variable (n : Network σ) (i : Nat) (r : Replica σ)

@[simp] theorem registry_put : (n.put i r).registry = n.registry := rfl

@[simp] theorem isolated_put : (n.put i r).isolated = n.isolated := rfl

@[simp] theorem put_put (r' : Replica σ) : (n.put i r).put i r' = n.put i r' := by simp [put]

@[simp] theorem length_put : (n.put i r).replicas.length = n.replicas.length := by simp [put]

theorem put_getElem?_ne {j : Nat} (h : i ≠ j) : (n.put i r).replicas[j]? = n.replicas[j]? := by
  simp [put, List.getElem?_set_ne h]

variable {n i}

theorem put_getElem?_self {x : Replica σ} (h : n.replicas[i]? = some x) :
    (n.put i r).replicas[i]? = some r := by
  have hlt := (List.getElem?_eq_some_iff.mp h).1
  simp [put, List.getElem?_set_self hlt]

/-- A replica after a put is the new one, or stands where it stood. -/
theorem put_getElem?_cases {j : Nat} {x : Replica σ} (h : (n.put i r).replicas[j]? = some x) :
    j = i ∧ x = r ∨ j ≠ i ∧ n.replicas[j]? = some x := by
  by_cases hij : i = j
  · subst hij
    simp only [put, List.getElem?_set, if_true] at h
    split at h
    · exact Or.inl ⟨rfl, (Option.some.inj h).symm⟩
    · cases h
  · rw [put_getElem?_ne n i r hij] at h
    exact Or.inr ⟨Ne.symm hij, h⟩

theorem replica?_put_ne {j : Nat} (h : i ≠ j) : (n.put i r).replica? j = n.replica? j := by
  unfold replica?; rw [put_getElem?_ne n i r h]

theorem replica?_put_self {x : Replica σ} (h : n.replica? i = some x) (hd : r.dropped = false) :
    (n.put i r).replica? i = some r :=
  replica?_eq_some.mpr ⟨put_getElem?_self r (replica?_eq_some.mp h).1, hd⟩

end

/-! ## Whom a replica reaches -/

theorem peer?_eq_some {n : Network σ} {source target : String} {j : Nat} :
    n.peer? source target = some j ↔ source ∉ n.isolated ∧ target ∉ n.isolated ∧
      n.registry[target]? = some j ∧ ∃ r, n.replica? j = some r := by
  unfold peer? resolve?
  by_cases h : source ∈ n.isolated ∨ target ∈ n.isolated
  · simp only [h, if_true]
    rcases h with h | h <;> simp [h]
  · rw [if_neg h]
    rw [not_or] at h
    simp only [h.1, h.2, not_false_eq_true, true_and, Option.filter_eq_some_iff,
      Option.isSome_iff_exists]

theorem mem_reachable {n : Network σ} {r : Replica σ} {j : Nat} :
    j ∈ n.reachable r ↔ ∃ id a : String, r.voters[id]? = some a ∧ a ≠ r.address ∧
      n.peer? r.address a = some j := by
  unfold reachable
  simp only [List.mem_filterMap, List.mem_filter, List.mem_map, Prod.exists, decide_eq_true_eq]
  constructor
  · rintro ⟨a, ⟨⟨id, b, hm, rfl⟩, ha⟩, hp⟩
    exact ⟨id, b, Std.ExtTreeMap.mem_toList_iff_getElem?_eq_some.mp hm, ha, hp⟩
  · rintro ⟨id, a, hm, ha, hp⟩
    exact ⟨a, ⟨⟨id, a, Std.ExtTreeMap.mem_toList_iff_getElem?_eq_some.mpr hm, rfl⟩, ha⟩, hp⟩

/-- The peers within reach are counted as often as there are voters at their addresses. -/
theorem countP_reachable (n : Network σ) (r : Replica σ) (p : Nat → Bool) : (n.reachable r).countP p =
    (r.voters.toList.filter fun v => decide (v.2 ≠ r.address) && (n.peer? r.address v.2).any p).length := by
  rw [reachable, List.countP_filterMap, List.countP_filter, List.countP_map,
    List.countP_eq_length_filter]
  congr 2
  funext v
  cases h : n.peer? r.address v.2 <;> simp [h, Bool.and_comm]

/-- For every time that a peer is counted there is a voter. -/
theorem voters_counted (n : Network σ) (r : Replica σ) (p : Nat → Bool) : ∃ ids : List String, ids.Nodup ∧
    ids.length = (n.reachable r).countP p ∧ ∀ id ∈ ids, ∃ address j, r.voters[id]? = some address ∧
      address ≠ r.address ∧ n.peer? r.address address = some j ∧ p j = true := by
  rw [countP_reachable]
  refine ⟨_, ?_, List.length_map Prod.fst, fun id hid => ?_⟩
  · rw [List.Nodup, List.pairwise_map]
    refine ((Std.ExtTreeMap.distinct_keys_toList (t := r.voters)).filter _).imp ?_
    intro v v' hne e
    exact hne (by rw [e]; exact Std.ReflCmp.compare_self)
  · obtain ⟨⟨id, address⟩, hv, rfl⟩ := List.mem_map.mp hid
    obtain ⟨hv, hp⟩ := List.mem_filter.mp hv
    rw [Bool.and_eq_true, decide_eq_true_eq, Option.any_eq_true] at hp
    obtain ⟨hne, j, hj, hp⟩ := hp
    exact ⟨address, j, Std.ExtTreeMap.mem_toList_iff_getElem?_eq_some.mp hv, hne, hj, hp⟩

/-- What the registry promises. -/
structure Wired (n : Network σ) : Prop where
  leads : ∀ a j, n.registry[a]? = some j →
    ∃ r : Replica σ, n.replicas[j]? = some r ∧ r.address = a ∧ r.stopped = false
  listed : ∀ j (r : Replica σ), n.replicas[j]? = some r → r.stopped = false → r.dropped = false →
    n.registry[r.address]? = some j

theorem wired_empty : ({} : Network σ).Wired :=
  ⟨fun a j h => by simp at h, fun j r h => by simp at h⟩

/-- Who answers at an address is there and runs. -/
theorem Wired.of_peer? {n : Network σ} (hw : n.Wired) {source a : String} {j : Nat} {r : Replica σ}
    (hp : n.peer? source a = some j) (hr : n.replica? j = some r) :
    r.address = a ∧ r.stopped = false := by
  obtain ⟨-, -, hreg, -⟩ := peer?_eq_some.mp hp
  obtain ⟨x, hx, ha, hs⟩ := hw.leads a j hreg
  have hrx : r = x := Option.some.inj ((replica?_eq_some.mp hr).1.symm.trans hx)
  exact hrx ▸ ⟨ha, hs⟩

/-- A peer that is reached runs, and is found at an address of a voter that is not the replica's own. -/
theorem Wired.peer {n : Network σ} (hw : n.Wired) {r : Replica σ} {j : Nat}
    (h : j ∈ n.reachable r) : ∃ (x : Replica σ) (id : String), n.replica? j = some x ∧
      x.stopped = false ∧ r.voters[id]? = some x.address ∧ x.address ≠ r.address := by
  obtain ⟨id, a, hv, ha, hp⟩ := mem_reachable.mp h
  obtain ⟨-, -, -, x, hx⟩ := peer?_eq_some.mp hp
  obtain ⟨rfl, hs⟩ := hw.of_peer? hp hx
  exact ⟨x, id, hx, hs, hv, ha⟩

theorem Wired.running {n : Network σ} (hw : n.Wired) {r f : Replica σ} {j : Nat}
    (hj : j ∈ n.reachable r) (hf : n.replica? j = some f) : f.stopped = false := by
  obtain ⟨_, _, -, -, hp⟩ := mem_reachable.mp hj
  exact (hw.of_peer? hp hf).2

theorem Wired.not_mem_reachable {n : Network σ} (hw : n.Wired) {i : Nat} {r r' : Replica σ}
    (h : n.replicas[i]? = some r) (ha : r'.address = r.address) : i ∉ n.reachable r' := by
  intro hmem
  obtain ⟨x, id, hx, -, -, hne⟩ := hw.peer hmem
  have hxr : x = r := Option.some.inj ((replica?_eq_some.mp hx).1.symm.trans h)
  exact hne (by rw [hxr, ha])

/-- Voters at different addresses are different replicas. -/
theorem Wired.nodup_reachable {n : Network σ} (hw : n.Wired) {r : Replica σ}
    (hinj : ∀ id id' a : String, r.voters[id]? = some a → r.voters[id']? = some a → id = id') :
    (n.reachable r).Nodup := by
  unfold reachable
  have haddresses : (r.voters.toList.map (·.2)).Nodup := by
    rw [List.Nodup, List.pairwise_map]
    refine (Std.ExtTreeMap.distinct_keys_toList (t := r.voters)).imp_of_mem ?_
    rintro ⟨id, a⟩ ⟨id', a'⟩ h h' hne rfl
    rw [Std.ExtTreeMap.mem_toList_iff_getElem?_eq_some] at h h'
    exact hne (by rw [hinj id id' _ h h']; exact Std.ReflCmp.compare_self)
  refine (haddresses.filter _).filterMap fun a a' j hj hj' => ?_
  obtain ⟨-, -, hreg, -⟩ := peer?_eq_some.mp hj
  obtain ⟨-, -, hreg', -⟩ := peer?_eq_some.mp hj'
  obtain ⟨x, hx, ha, -⟩ := hw.leads a j hreg
  obtain ⟨x', hx', ha', -⟩ := hw.leads a' j hreg'
  rw [hx] at hx'
  cases hx'
  exact ha.symm.trans ha'

/-- The registry does not look at anything but addresses and at who runs. -/
theorem Wired.put {n : Network σ} (hw : n.Wired) {i : Nat} {x r : Replica σ}
    (hx : n.replicas[i]? = some x) (ha : r.address = x.address) (hs : r.stopped = x.stopped)
    (hd : r.dropped = false → x.dropped = false) : (n.put i r).Wired where
  leads a j h := by
    obtain ⟨y, hy, rfl, hst⟩ := hw.leads a j h
    by_cases hij : i = j
    · subst hij
      have hyx : y = x := Option.some.inj (hy.symm.trans hx)
      subst hyx
      exact ⟨r, put_getElem?_self r hx, ha, hs.trans hst⟩
    · exact ⟨y, by rw [put_getElem?_ne n i r hij]; exact hy, rfl, hst⟩
  listed j y h hst hdr := by
    rcases put_getElem?_cases r h with ⟨rfl, rfl⟩ | ⟨-, hy⟩
    · rw [ha]; exact hw.listed j x hx (hs ▸ hst) (hd hdr)
    · exact hw.listed j y hy hst hdr

/-! ## Changing replicas one after another -/

/-- Changes the replicas with these numbers, in order; those that are gone stay as they are. -/
def mapAt (n : Network σ) (f : Replica σ → Replica σ) : List Nat → Network σ
  | [] => n
  | j :: js =>
    match n.replica? j with
    | none => mapAt n f js
    | some r => mapAt (n.put j (f r)) f js

theorem mapAt_cons_none {n : Network σ} {f : Replica σ → Replica σ} {j : Nat} {js : List Nat}
    (h : n.replica? j = none) : n.mapAt f (j :: js) = n.mapAt f js := by
  simp only [mapAt, h]

theorem mapAt_cons_some {n : Network σ} {f : Replica σ → Replica σ} {j : Nat} {js : List Nat}
    {r : Replica σ} (h : n.replica? j = some r) :
    n.mapAt f (j :: js) = (n.put j (f r)).mapAt f js := by
  simp only [mapAt, h]

/-- What every single change keeps, all of them keep. -/
theorem mapAt_induction {P : Network σ → Prop} {f : Replica σ → Replica σ} :
    ∀ {js : List Nat} {n : Network σ},
      (∀ m j r, j ∈ js → P m → m.replica? j = some r → P (m.put j (f r))) →
      P n → P (n.mapAt f js)
  | [], _, _, h => h
  | j :: js, n, hstep, h => by
    have hstep' : ∀ m k r, k ∈ js → P m → m.replica? k = some r → P (m.put k (f r)) :=
      fun m k r hk => hstep m k r (List.mem_cons_of_mem j hk)
    cases hr : n.replica? j with
    | none => rw [mapAt_cons_none hr]; exact mapAt_induction hstep' h
    | some r =>
      rw [mapAt_cons_some hr]
      exact mapAt_induction hstep' (hstep n j r (List.mem_cons_self ..) h hr)

section
variable (n : Network σ) (f : Replica σ → Replica σ) (js : List Nat)

@[simp] theorem registry_mapAt : (n.mapAt f js).registry = n.registry :=
  mapAt_induction (P := fun m => m.registry = n.registry) (fun _ _ _ _ h _ => h) rfl

@[simp] theorem isolated_mapAt : (n.mapAt f js).isolated = n.isolated :=
  mapAt_induction (P := fun m => m.isolated = n.isolated) (fun _ _ _ _ h _ => h) rfl

variable {n f js}

/-- A replica that is not among those with the numbers stays as it is. -/
theorem mapAt_getElem?_of_not_mem {i : Nat} (h : i ∉ js) :
    (n.mapAt f js).replicas[i]? = n.replicas[i]? := by
  refine mapAt_induction (P := fun m => m.replicas[i]? = n.replicas[i]?) ?_ rfl
  intro m j r hj hm _
  rw [put_getElem?_ne m j (f r) (by rintro rfl; exact h hj), hm]

theorem replica?_mapAt_of_not_mem {i : Nat} (h : i ∉ js) :
    (n.mapAt f js).replica? i = n.replica? i := by
  unfold replica?; rw [mapAt_getElem?_of_not_mem h]

end

/-- Numbers without repetition: every replica among them is changed once. -/
theorem mapAt_getElem?_of_mem {f : Replica σ → Replica σ} : ∀ {js : List Nat} {n : Network σ}
    {i : Nat} {r : Replica σ}, js.Nodup → i ∈ js → n.replica? i = some r →
      (n.mapAt f js).replicas[i]? = some (f r)
  | j :: js, n, i, r, hnd, hi, hr => by
    rw [List.nodup_cons] at hnd
    rcases List.mem_cons.mp hi with rfl | hi'
    · rw [mapAt_cons_some hr, mapAt_getElem?_of_not_mem hnd.1]
      exact put_getElem?_self _ (replica?_eq_some.mp hr).1
    · have hij : j ≠ i := fun e => hnd.1 (e ▸ hi')
      cases hx : n.replica? j with
      | none => rw [mapAt_cons_none hx]; exact mapAt_getElem?_of_mem hnd.2 hi' hr
      | some x =>
        rw [mapAt_cons_some hx]
        exact mapAt_getElem?_of_mem hnd.2 hi' (by rw [replica?_put_ne (f x) hij]; exact hr)

/-- After one replica was put and others were changed once, each is the new one, or was changed, or
stands where it stood. -/
theorem put_mapAt_cases {n : Network σ} {i : Nat} {y : Replica σ} {f : Replica σ → Replica σ}
    {js : List Nat} (hnd : (i :: js).Nodup) (hjs : ∀ j ∈ js, ∃ x, n.replica? j = some x) {j : Nat}
    {x' : Replica σ} (h : ((n.put i y).mapAt f js).replicas[j]? = some x') :
    j = i ∧ x' = y ∨
      j ≠ i ∧ ∃ x, n.replicas[j]? = some x ∧ (j ∈ js ∧ x' = f x ∨ j ∉ js ∧ x' = x) := by
  obtain ⟨hi, hnd⟩ := List.nodup_cons.mp hnd
  by_cases hj : j ∈ js
  · have hij : i ≠ j := fun e => hi (e ▸ hj)
    obtain ⟨x, hx⟩ := hjs j hj
    rw [mapAt_getElem?_of_mem hnd hj ((replica?_put_ne y hij).trans hx)] at h
    exact Or.inr ⟨hij.symm, x, (replica?_eq_some.mp hx).1, Or.inl ⟨hj, (Option.some.inj h).symm⟩⟩
  · rw [mapAt_getElem?_of_not_mem hj] at h
    rcases put_getElem?_cases y h with h | ⟨hji, hx⟩
    · exact Or.inl h
    · exact Or.inr ⟨hji, x', hx, Or.inr ⟨hj, rfl⟩⟩

theorem Wired.mapAt {n : Network σ} (hw : n.Wired) {f : Replica σ → Replica σ} {js : List Nat}
    (ha : ∀ r, (f r).address = r.address) (hs : ∀ r, (f r).stopped = r.stopped)
    (hd : ∀ r, (f r).dropped = r.dropped) : (n.mapAt f js).Wired :=
  mapAt_induction (P := Wired)
    (fun _ _ r _ h hr => h.put (replica?_eq_some.mp hr).1 (ha r) (hs r) ((hd r).symm.trans ·)) hw

/-! ## The three ways of a leader -/

variable [StateMachine σ]

theorem sync_eq {n : Network σ} {i j term : Nat} {leader : Replica σ}
    (hi : n.replica? i = some leader) :
    n.sync i term j = match n.replica? j with
      | none => (n, .error .down)
      | some r => (n.put j (r.receive leader term).1, (r.receive leader term).2) := by
  unfold sync
  rw [hi]
  cases n.replica? j <;> rfl

theorem deliver_network {i : Nat} {leader : Replica σ} (activity : Activity) (term : Nat) :
    ∀ {js : List Nat} {n : Network σ}, n.replica? i = some leader → i ∉ js →
      (n.deliver activity i term js).1 = n.mapAt (fun r => (r.receive leader term).1) js
  | [], _, _, _ => rfl
  | j :: js, n, hi, hjs => by
    rw [List.mem_cons, not_or] at hjs
    unfold deliver
    rw [sync_eq hi]
    cases hr : n.replica? j with
    | none => rw [mapAt_cons_none hr]; exact deliver_network activity term hi hjs.2
    | some r =>
      rw [mapAt_cons_some hr]
      have hi' : (n.put j (r.receive leader term).1).replica? i = some leader := by
        rw [replica?_put_ne _ (Ne.symm hjs.1)]; exact hi
      have ih := deliver_network activity term hi' hjs.2
      dsimp only
      cases (r.receive leader term).2 <;> exact ih

/-- What a peer does with the voters and the log of a leader. -/
def adopt (leader r : Replica σ) : Replica σ :=
  match r.acceptVoters leader.term leader.address leader.voters leader.votersIndex with
  | (r, .ok ()) => (r.receive leader leader.term).1
  | (r, .error _) => r

/-- Whether a peer takes the voters and the log of a leader. -/
def adoption (leader r : Replica σ) : Except Reject Unit :=
  match r.acceptVoters leader.term leader.address leader.voters leader.votersIndex with
  | (r, .ok ()) => (r.receive leader leader.term).2.map fun _ => ()
  | (_, .error reject) => .error reject

section
variable (f leader : Replica σ)

/-- A peer takes the voters and then the log, or refuses the voters. -/
theorem adopt_eq : ∃ x : Replica σ,
    x = (f.acceptVoters leader.term leader.address leader.voters leader.votersIndex).1 ∧
      (adopt leader f = x ∨ adopt leader f = (x.receive leader leader.term).1) := by
  refine ⟨_, rfl, ?_⟩
  unfold adopt
  split <;> rename_i h <;> rw [h]
  · exact Or.inr rfl
  · exact Or.inl rfl

@[simp] theorem adopt_id : (adopt leader f).id = f.id := by
  obtain ⟨x, rfl, e | e⟩ := adopt_eq f leader <;> simp [e]

@[simp] theorem adopt_address : (adopt leader f).address = f.address := by
  obtain ⟨x, rfl, e | e⟩ := adopt_eq f leader <;> simp [e]

@[simp] theorem adopt_stopped : (adopt leader f).stopped = f.stopped := by
  obtain ⟨x, rfl, e | e⟩ := adopt_eq f leader <;> simp [e]

@[simp] theorem adopt_dropped : (adopt leader f).dropped = f.dropped := by
  obtain ⟨x, rfl, e | e⟩ := adopt_eq f leader <;> simp [e]

end

section
variable {n : Network σ} {i j : Nat} {leader r : Replica σ} {js : List Nat}

theorem deliverVoters_cons_none (hr : n.replica? j = none) :
    n.deliverVoters i leader (j :: js) = n.deliverVoters i leader js := by
  rw [deliverVoters]
  simp only [hr]

theorem deliverVoters_cons_some (hi : n.replica? i = some leader) (hij : i ≠ j)
    (hr : n.replica? j = some r) :
    n.deliverVoters i leader (j :: js) =
      (((n.put j (adopt leader r)).deliverVoters i leader js).1,
        match adoption leader r with
        | .ok () => ((n.put j (adopt leader r)).deliverVoters i leader js).2
        | .error reject => (n.put j (adopt leader r)).refusal .voterSync i j reject ::
            ((n.put j (adopt leader r)).deliverVoters i leader js).2) := by
  have hd := (acceptVoters_dropped r leader.term leader.address leader.voters
    leader.votersIndex).trans (replica?_eq_some.mp hr).2
  have hi' : ∀ x : Replica σ, (n.put j x).replica? i = some leader := fun x => by
    rw [replica?_put_ne x (Ne.symm hij)]; exact hi
  rw [deliverVoters]
  simp only [hr, adopt, adoption]
  generalize r.acceptVoters leader.term leader.address leader.voters leader.votersIndex = p at hd ⊢
  obtain ⟨x, answer⟩ := p
  cases answer with
  | error reject => rfl
  | ok u =>
    dsimp only
    rw [sync_eq (hi' x), replica?_put_self x hr hd]
    simp only [put_put]
    cases (x.receive leader leader.term).2 <;> rfl

end

theorem deliverVoters_network {i : Nat} {leader : Replica σ} :
    ∀ {js : List Nat} {n : Network σ}, n.replica? i = some leader → i ∉ js →
      (n.deliverVoters i leader js).1 = n.mapAt (adopt leader) js
  | [], _, _, _ => rfl
  | j :: js, n, hi, hjs => by
    rw [List.mem_cons, not_or] at hjs
    cases hr : n.replica? j with
    | none =>
      rw [mapAt_cons_none hr, deliverVoters_cons_none hr]
      exact deliverVoters_network hi hjs.2
    | some r =>
      rw [mapAt_cons_some hr, deliverVoters_cons_some hi hjs.1 hr]
      exact deliverVoters_network ((replica?_put_ne _ (Ne.symm hjs.1)).trans hi) hjs.2

/-- Whether a peer takes the leader's entries. -/
def acknowledges (n : Network σ) (leader : Replica σ) (term j : Nat) : Bool :=
  match n.replica? j with
  | none => false
  | some r => (r.receive leader term).2.isOk

/-- The first round of a write among peers that are not ahead: it goes to its end and counts those who
take the entry. -/
theorem replicate_eq {i term : Nat} {leader : Replica σ} : ∀ {js : List Nat} {n : Network σ},
    n.replica? i = some leader → i ∉ js →
    (∀ j ∈ js, ∀ r, n.replica? j = some r → r.term ≤ term) →
    ∃ refusals acks, n.replicate i term js =
        (n.mapAt (fun r => (r.receive leader term).1) js, refusals, .ok acks) ∧
      (js.Nodup → acks = (js.filter (n.acknowledges leader term)).length)
  | [], _, _, _, _ => ⟨[], 0, rfl, fun _ => rfl⟩
  | j :: js, n, hi, hjs, ht => by
    rw [List.mem_cons, not_or] at hjs
    have htail : ∀ k ∈ js, ∀ r, n.replica? k = some r → r.term ≤ term :=
      fun k hk => ht k (List.mem_cons_of_mem j hk)
    unfold replicate
    rw [sync_eq hi]
    cases hr : n.replica? j with
    | none =>
      obtain ⟨refusals, acks, e, hacks⟩ := replicate_eq hi hjs.2 htail
      refine ⟨n.refusal .replication i j .down :: refusals, acks, ?_, fun hnd => ?_⟩
      · simp only [mapAt_cons_none hr, e]
      · rw [List.filter_cons_of_neg (by simp [acknowledges, hr])]
        exact hacks (List.nodup_cons.mp hnd).2
    | some r =>
      have hrt := ht j (List.mem_cons_self ..) r hr
      let m := n.put j (r.receive leader term).1
      have hi' : m.replica? i = some leader := by
        rw [replica?_put_ne _ (Ne.symm hjs.1)]; exact hi
      have ht' : ∀ k ∈ js, ∀ x, m.replica? k = some x → x.term ≤ term := by
        intro k hk x hx
        rcases put_getElem?_cases _ (replica?_eq_some.mp hx).1 with ⟨rfl, rfl⟩ | ⟨-, hx'⟩
        · exact receive_term_le leader hrt
        · exact htail k hk x (replica?_eq_some.mpr ⟨hx', (replica?_eq_some.mp hx).2⟩)
      obtain ⟨refusals, acks, e, hacks⟩ := replicate_eq hi' hjs.2 ht'
      have hsame : ∀ hnd : (j :: js).Nodup, js.filter (m.acknowledges leader term) =
          js.filter (n.acknowledges leader term) := by
        intro hnd
        refine List.filter_congr fun k hk => ?_
        have hjk : j ≠ k := fun h => (List.nodup_cons.mp hnd).1 (h ▸ hk)
        simp only [acknowledges, m, replica?_put_ne _ hjk]
      have hstale := receive_ne_staleTerm hrt leader
      rw [mapAt_cons_some hr]
      cases hans : (r.receive leader term).2 with
      | ok len =>
        refine ⟨refusals, acks + 1, by simp only [m] at e; simp only [hans, e]; rfl, fun hnd => ?_⟩
        rw [List.filter_cons_of_pos (by simp [acknowledges, hr, hans, Except.isOk, Except.toBool]),
          List.length_cons, ← hsame hnd, hacks (List.nodup_cons.mp hnd).2]
      | error reject =>
        refine ⟨m.refusal .replication i j reject :: refusals, acks, ?_, fun hnd => ?_⟩
        · cases reject with
          | staleTerm newer => exact absurd hans (hstale newer)
          | _ => simp only [m] at e; simp only [hans, e]; rfl
        · rw [List.filter_cons_of_neg
            (by simp [acknowledges, hr, hans, Except.isOk, Except.toBool]), ← hsame hnd]
          exact hacks (List.nodup_cons.mp hnd).2

end ReplicatedTable.Raft.Network
