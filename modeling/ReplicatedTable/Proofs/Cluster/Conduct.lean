import ReplicatedTable.Cluster.Operation
import ReplicatedTable.Proofs.Raft.Evolution

/-!
# What a cluster asks of its replicas

Whatever is done to a cluster comes down to operations on the network behind its nodes: those that it causes
(`Op.Causes`, `step_causes`). So a run of a cluster is a run of its network (`run_causes`), and what holds in
all runs of a network can be carried over.
-/
namespace ReplicatedTable

open Raft Raft.Network

namespace Cluster

/-- What an operation on a cluster may ask of its replicas. -/
inductive Op.Causes : Op → Raft.Network.Op Table.Machine → Prop where
  | register (name address : String) : Causes (.addReplica name address) (.register name address {})
  | replace (name address : String) (i : Nat) : Causes (.addReplica name address) (.drop i)
  | drop (name : String) (s : Script) (i : Nat) : Causes (.addScripted name s) (.drop i)
  | bootstrap (name : String) (i : Nat) : Causes (.bootstrap name) (.bootstrap i)
  | campaign (name : String) (i : Nat) : Causes (.campaign name) (.campaign i)
  | stepDown (name : String) (i : Nat) : Causes (.stepDown name) (.stepDown i)
  | shutdown (name : String) (i : Nat) : Causes (.shutdown name) (.shutdown i)
  | submit (name : String) (bytes : List UInt8) (i : Nat) : Causes (.submit name bytes) (.submit i bytes)
  | isolate (address : String) : Causes (.isolate address) (.isolate address)
  | heal (address : String) : Causes (.heal address) (.heal address)
  | event {ms : List Gossip.Member} {m : Gossip.Member} {r : Membership.Record} (hm : m ∈ ms)
    (hr : Membership.Record.ofMember m = .ok r) (name : String) (i : Nat) :
    Causes (.event name (.members .join ms)) (.addVoter i r.id r.consensusAddress 0)
  | write (name table row column value : String) (i : Nat) :
    Causes (.write name table row column value)
      (.submit i (Table.Entry.encode ⟨table, row, column, value⟩))
  | join (name id address : String) (i : Nat) : Causes (.join name id address)
    (.addVoter i (if Text.trim id = "" then Text.trim address else Text.trim id) (Text.trim address) 0)

/-- A network goes through operations with a property. -/
def Reaches (P : Raft.Network.Op Table.Machine → Prop) (n m : Replicas) : Prop :=
  ∃ ops : List (Raft.Network.Op Table.Machine), (∀ op ∈ ops, P op) ∧ m = n.run ops

section
variable {P Q : Raft.Network.Op Table.Machine → Prop} {n m k : Replicas}

theorem Reaches.refl (n : Replicas) : Reaches P n n := ⟨[], fun _ h => absurd h List.not_mem_nil, rfl⟩

theorem Reaches.single (n : Replicas) (op : Raft.Network.Op Table.Machine) (h : P op) :
    Reaches P n (n.step op).network :=
  ⟨[op], fun _ hop => List.mem_singleton.mp hop ▸ h, rfl⟩

theorem Reaches.trans (h : Reaches P n m) (h' : Reaches P m k) : Reaches P n k := by
  obtain ⟨ops, hops, rfl⟩ := h
  obtain ⟨ops', hops', rfl⟩ := h'
  have hP : ∀ op ∈ ops ++ ops', P op := fun op hop =>
    (List.mem_append.mp hop).elim (hops op) (hops' op)
  have hrun : (n.run ops).run ops' = n.run (ops ++ ops') := (run_append ..).symm
  exact ⟨ops ++ ops', hP, hrun⟩

theorem Reaches.mono (h : Reaches P n m) (hPQ : ∀ op, P op → Q op) : Reaches Q n m := by
  obtain ⟨ops, hops, e⟩ := h
  exact ⟨ops, fun op hop => hPQ op (hops op hop), e⟩

end

variable {c c' : Cluster} {name : String} {P : Raft.Network.Op Table.Machine → Prop}

theorem replicas_putScript (c : Cluster) (name : String) (s : Script) :
    (c.putScript name s).replicas = c.replicas := by
  unfold putScript
  split <;> rfl

/-! ## Engines -/

theorem submit_reaches (c : Cluster) (name : String) {bytes : List UInt8} (timeout : Nat)
    (h : ∀ i, P (.submit i bytes)) :
    Reaches P c.replicas ((host name).submit c bytes timeout).1.replicas := by
  simp only [host]
  split
  · exact .single _ (.submit _ bytes) (h _)
  · rename_i s _ _
    have hsame := replicas_putScript c name (s.submit bytes timeout).1
    split
    · exact hsame ▸ .refl _
    · exact hsame ▸ .refl _
  · exact .refl _

theorem enlist_reaches (c : Cluster) (name : String) {id address : String} (timeout : Nat)
    (h : ∀ i, P (.addVoter i id address 0)) :
    Reaches P c.replicas ((host name).enlist timeout c id address).1.replicas := by
  simp only [Host.enlist, host]
  split
  · exact .single _ (.addVoter _ id address 0) (h _)
  · exact replicas_putScript c name _ ▸ .refl _
  · exact .refl _

theorem onReplica_reaches {α : Type} {number : α → Option Nat}
    {f : Replicas → Nat → Outcome Table.Machine α} {answer : Except Error (Option Nat)}
    (h : c.onReplica name number f = some (c', answer)) (op : Nat → Raft.Network.Op Table.Machine)
    (hP : ∀ i, P (op i)) (hf : ∀ n i, (f n i).network = (n.step (op i)).network) :
    Reaches P c.replicas c'.replicas := by
  obtain ⟨⟨i, r⟩, -, e⟩ := Option.map_eq_some_iff.mp h
  cases e
  show Reaches P c.replicas (f c.replicas i).network
  rw [hf]
  exact .single _ (op i) (hP i)

/-! ## Requests and events -/

theorem nonBlank_ok {field value x : String} (h : nonBlank field value = .ok x) : x = value := by
  unfold nonBlank at h
  split at h <;> cases h
  rfl

theorem entry_ok {table row column value : String} {e : Table.Entry}
    (h : Router.entry table row column value = .ok e) : e = ⟨table, row, column, value⟩ := by
  simp only [Router.entry, bind, Except.bind] at h
  cases ht : nonBlank "table" table with
  | error err => rw [ht] at h; cases h
  | ok t =>
    cases hr : nonBlank "row" row with
    | error err => rw [ht, hr] at h; cases h
    | ok r =>
      cases hc : nonBlank "column" column with
      | error err => rw [ht, hr, hc] at h; cases h
      | ok c =>
        rw [ht, hr, hc] at h
        cases h
        rw [nonBlank_ok ht, nonBlank_ok hr, nonBlank_ok hc]

theorem write_reaches (c : Cluster) (r : Router) {table row column value : String}
    (h : ∀ i, P (.submit i (Table.Entry.encode ⟨table, row, column, value⟩))) :
    Reaches P c.replicas (r.write (host name) c table row column value).1.replicas := by
  unfold Router.write
  split
  · exact .refl _
  · rename_i entry he
    rw [← entry_ok he] at h
    split
    · have hsubmit := submit_reaches c name r.applyTimeout h
      split <;> rename_i e <;> rw [e] at hsubmit <;> exact hsubmit
    · exact .refl _

theorem join_reaches (c : Cluster) (r : Router) {id address : String} (h : ∀ i, P (.addVoter i
      (if Text.trim id = "" then Text.trim address else Text.trim id) (Text.trim address) 0)) :
    Reaches P c.replicas (r.join (host name) c id address).1.replicas := by
  unfold Router.join
  split
  · exact .refl _
  · rename_i x hx
    obtain rfl := nonBlank_ok hx
    exact enlist_reaches c name _ h

theorem handle_reaches (c : Cluster) (store : Membership.Store) (timeout : Nat) {ms : List Gossip.Member}
    (h : ∀ m ∈ ms, ∀ r, Membership.Record.ofMember m = .ok r →
      ∀ i, P (.addVoter i r.id r.consensusAddress 0)) :
    Reaches P c.replicas
      (Membership.Bridge.handle (host name) timeout (c, store) (.members .join ms)).1.replicas := by
  induction ms generalizing c store with
  | nil => exact .refl _
  | cons m ms ih =>
    have hfirst : Reaches P c.replicas
        (Membership.Bridge.join (host name) timeout (c, store) m).1.replicas := by
      unfold Membership.Bridge.join Membership.Store.add
      cases hr : Membership.Record.ofMember m with
      | error e => exact .refl _
      | ok r =>
        simp only [Except.map]
        split
        · exact enlist_reaches c name timeout (h m (List.mem_cons_self ..) r hr)
        · exact .refl _
    have hcons : Membership.Bridge.handle (host name) timeout (c, store) (.members .join (m :: ms)) =
        Membership.Bridge.handle (host name) timeout
          (Membership.Bridge.join (host name) timeout (c, store) m) (.members .join ms) := rfl
    rw [hcons]
    generalize Membership.Bridge.join (host name) timeout (c, store) m = s at hfirst ⊢
    exact hfirst.trans (ih s.1 s.2 fun x hx => h x (List.mem_cons_of_mem _ hx))

/-- Only members who join are a matter for consensus. -/
theorem handle_kept {kind : Gossip.EventKind} (hkind : kind ≠ .join) (s : Cluster × Membership.Store)
    (timeout : Nat) (ms : List Gossip.Member) :
    (Membership.Bridge.handle (host name) timeout s (.members kind ms)).1 = s.1 := by
  have htake : ∀ (s : Cluster × Membership.Store) (m : Gossip.Member),
      (Membership.Bridge.take (host name) timeout s m kind).1 = s.1 := by
    intro s m
    cases kind with
    | join => exact absurd rfl hkind
    | _ => rfl
  induction ms generalizing s with
  | nil => rfl
  | cons m ms ih => exact (ih _).trans (htake s m)

theorem event_replicas (c : Cluster) (timeout : Nat) (e : Gossip.Event) {node : ClusterNode}
    (h : c.node? name = some node) : (c.event name timeout e).replicas =
      (Membership.Bridge.handle (host name) timeout (c, node.store) e).1.replicas := by
  simp only [event, h]
  split <;> rfl

/-! ## Steps and runs -/

/-- A step of a cluster is a run of its network through what the step causes. -/
theorem step_causes {op : Op} {answer : Except Error (Option Nat)}
    (h : c.step? op = some (c', answer)) : Reaches op.Causes c.replicas c'.replicas := by
  cases op with
  | addReplica name address =>
    cases h
    split
    · exact .refl _
    · rename_i replicas i hreg
      have hstep : Reaches (Op.addReplica name address).Causes c.replicas replicas := by
        have hnetwork : replicas = (c.replicas.step (.register name address {})).network :=
          (congrArg Prod.fst hreg).symm
        rw [hnetwork]
        exact .single _ _ (.register name address)
      simp only [put]
      cases c.replica? name with
      | none => exact hstep
      | some old => exact hstep.trans (.single _ (.drop old.1) (.replace name address old.1))
  | addScripted name s =>
    cases h
    simp only [addScripted, put]
    cases c.replica? name with
    | none => exact .refl _
    | some old => exact .single _ (.drop old.1) (.drop name s old.1)
  | bootstrap name => exact onReplica_reaches h .bootstrap (.bootstrap name) fun _ _ => rfl
  | campaign name => exact onReplica_reaches h .campaign (.campaign name) fun _ _ => rfl
  | stepDown name => exact onReplica_reaches h .stepDown (.stepDown name) fun _ _ => rfl
  | shutdown name => exact onReplica_reaches h .shutdown (.shutdown name) fun _ _ => rfl
  | submit name bytes =>
    have h' : c.onReplica name some (fun n i => n.submit i bytes) = some (c', answer) := h
    exact onReplica_reaches h' (fun i => .submit i bytes) (.submit name bytes) fun _ _ => rfl
  | isolate address => cases h; exact .single _ (.isolate address) (.isolate address)
  | heal address => cases h; exact .single _ (.heal address) (.heal address)
  | notify name leads =>
    obtain ⟨s, -, e⟩ := Option.map_eq_some_iff.mp h
    cases e
    rw [replicas_putScript]
    exact .refl _
  | event name e =>
    obtain ⟨node, hnode, e'⟩ := Option.map_eq_some_iff.mp h
    cases e'
    rw [event_replicas c _ e hnode]
    cases e with
    | user => exact .refl _
    | members kind ms =>
      by_cases hkind : kind = .join
      · subst hkind
        exact handle_reaches c node.store _ fun m hm r hr i => .event hm hr name i
      · rw [handle_kept hkind]
        exact .refl _
  | write name table row column value =>
    obtain ⟨node, -, e⟩ := Option.map_eq_some_iff.mp h
    cases e
    exact write_reaches c _ (.write name table row column value)
  | join name id address =>
    obtain ⟨node, -, e⟩ := Option.map_eq_some_iff.mp h
    have hreach : Reaches (Op.join name id address).Causes c.replicas
        ((c.router name).join (host name) c id address).1.replicas :=
      join_reaches c _ (.join name id address)
    cases hjoin : (c.router name).join (host name) c id address with
    | mk c₁ done =>
      rw [hjoin] at e hreach
      cases e
      exact hreach
  | settle => cases h; exact .refl _

/-- A run of a cluster is a run of its network. -/
theorem run_causes (c : Cluster) (ops : List Op) :
    Reaches (fun x => ∃ op ∈ ops, op.Causes x) c.replicas (c.run ops).replicas := by
  induction ops generalizing c with
  | nil => exact .refl _
  | cons op ops ih =>
    have hlater : ∀ c : Cluster,
        Reaches (fun x => ∃ o ∈ op :: ops, o.Causes x) c.replicas (c.run ops).replicas := fun c =>
      (ih c).mono fun x ⟨o, ho, hx⟩ => ⟨o, List.mem_cons_of_mem _ ho, hx⟩
    have hrun : c.run (op :: ops) = (((c.step? op).map (·.1)).getD c).run ops := rfl
    rw [hrun]
    cases hstep : c.step? op with
    | none => exact hlater c
    | some p =>
      have hfirst := (step_causes hstep).mono (Q := fun x => ∃ o ∈ op :: ops, o.Causes x)
        fun x hx => ⟨op, List.mem_cons_self .., hx⟩
      exact hfirst.trans (hlater p.1)

end Cluster

end ReplicatedTable
