import ReplicatedTable.Proofs.Cluster.Visibility
import ReplicatedTable.Proofs.Raft.Acceptance

/-!
# Client writes never halt a replica

Entries come from clients when nothing is handed to an engine past the router of its node (`Deed.Routed`).
Then whatever else is done, every log holds encodings of writes that clients asked for (`Written`), which
tables accept in any state (`Encoded.accepted`). So no replica halts and no engine ever answers with a failure
of its table (`writes_halt_nobody`).
-/
namespace ReplicatedTable

open Raft Raft.Network

/-- The data encode an entry that clients may write. -/
def Encoded (data : List UInt8) : Prop := ∃ e : Table.Entry, e.Sized ∧ data = e.encode

/-- A table takes the encoding of an entry, whatever it holds. -/
theorem Encoded.accepted {data : List UInt8} (h : Encoded data) : Accepted Table.Machine data := by
  obtain ⟨e, he, rfl⟩ := h
  intro m index
  simp only [StateMachine.apply, Table.Machine.apply_encode he]

namespace Cluster

/-- Entries go to engines through the routers of their nodes only. The lengths of texts that fit into memory
can be written down in eight bytes, which is all that is asked of the texts of a write. -/
def Deed.Routed : Deed → Prop
  | .node (.submit ..) | .engine (.submit ..) => False
  | .node (.write _ table row column value) => Table.Entry.Sized ⟨table, row, column, value⟩
  | _ => True

instance : (d : Deed) → Decidable d.Routed
  | .node (.write _ table row column value) =>
    inferInstanceAs (Decidable (Table.Entry.Sized ⟨table, row, column, value⟩))
  | .node (.submit ..) | .engine (.submit ..) => .isFalse id
  | .node (.addReplica ..) | .node (.addScripted ..) | .node (.bootstrap _) | .node (.campaign _)
  | .node (.stepDown _) | .node (.shutdown _) | .node (.isolate _) | .node (.heal _)
  | .node (.notify ..) | .node (.event ..) | .node (.join ..) | .node .settle
  | .engine (.register ..) | .engine (.drop _) | .engine (.isolate _) | .engine (.heal _)
  | .engine (.bootstrap _) | .engine (.campaign _) | .engine (.stepDown _) | .engine (.shutdown _)
  | .engine (.addVoter ..) => .isTrue trivial

/-- The data encode an entry that a client has asked a node to write. -/
def Written (deeds : List Deed) (data : List UInt8) : Prop :=
  ∃ name, ∃ e : Table.Entry, .node (.write name e.table e.row e.column e.value) ∈ deeds ∧ e.Sized ∧
    data = e.encode

theorem Written.encoded {deeds : List Deed} {data : List UInt8} (h : Written deeds data) :
    Encoded data := by
  obtain ⟨-, e, -, he, hdata⟩ := h
  exact ⟨e, he, hdata⟩

theorem Deed.Causes.written {deeds : List Deed} {d : Deed} (hd : d ∈ deeds) (hrouted : d.Routed)
    {i : Nat} {data : List UInt8} (h : d.Causes (.submit i data)) : Written deeds data := by
  cases d with
  | engine op =>
    obtain rfl : .submit i data = op := h
    exact hrouted.elim
  | node op =>
    cases (h : op.Causes _) with
    | submit name => exact hrouted.elim
    | write name table row column value => exact ⟨name, _, hd, hrouted, rfl⟩

/-- As long as clients are the only ones who write, whatever else is done to the cluster, no replica halts,
every entry of every log decodes to what a client has written, and no engine answers a write with a fatal
failure of its table. -/
theorem writes_halt_nobody {c : Cluster} (hc : c.replicas = {}) {deeds : List Deed}
    (h : ∀ d ∈ deeds, d.Routed) :
    (∀ r ∈ (c.performAll deeds).replicas.replicas, r.halted = none ∧
      ∀ x ∈ r.log, ∃ name e, .node (.write name e.table e.row e.column e.value) ∈ deeds ∧
        Table.Entry.decode x.data = .ok e) ∧
    ∀ (e : Table.Entry), e.Sized → ∀ i index reason,
      ((c.performAll deeds).replicas.submit i e.encode).answer ≠ .error (.fatalApply index reason) := by
  obtain ⟨ops, hops, hrun⟩ := performAll_reaches c deeds
  rw [hc] at hrun
  have hwritten : ∀ i data, .submit i data ∈ ops → Written deeds data := fun i data hop => by
    obtain ⟨d, hd, hcause⟩ := hops _ hop
    exact hcause.written hd (h d hd)
  have hrunning : (Network.run {} ops).Everywhere (Replica.Running (Written deeds)) :=
    run_running (fun _ hdata => hdata.encoded.accepted) hwritten
  rw [hrun]
  refine ⟨fun r hr => ?_, fun e he i index reason => ?_⟩
  · obtain ⟨j, hj⟩ := List.mem_iff_getElem?.mp hr
    refine ⟨(hrunning j r hj).running, fun x hx => ?_⟩
    obtain ⟨name, e, hdeed, he, hdata⟩ := (hrunning j r hj).entries x hx
    exact ⟨name, e, hdeed, hdata ▸ Table.Entry.decode_encode he⟩
  · exact submit_not_fatal (fun _ => Encoded.accepted) (wired_run wired_empty ops)
      (fun j r hr => (hrunning j r hr).mono fun _ => Written.encoded) ⟨e, he, rfl⟩ i index reason

/-- Three nodes; the second one takes over while the first is cut off, and the third is shut down. -/
def takenOver : List Deed :=
  [.node (.addReplica "n1" "a1"), .node (.addReplica "n2" "a2"), .node (.addReplica "n3" "a3"),
    .node (.bootstrap "n1"), .node (.join "n1" "n2" "a2"), .engine (.addVoter 0 "n3" "a3" 0),
    .node .settle, .node (.write "n1" "t" "r" "c" "x"), .node (.isolate "a1"),
    .node (.campaign "n2"), .node .settle, .node (.write "n2" "t" "r" "" "y"),
    .node (.write "n2" "t" "r" "c" "y"), .node (.heal "a1"), .node (.write "n1" "t" "r" "c" "z"),
    .node (.shutdown "n3"), .node (.write "n2" "t" "r" "d" "z")]

theorem writes_halt_nobody_takenOver :
    (∀ d ∈ takenOver, d.Routed) ∧
    (({} : Cluster).performAll takenOver).replicas.replicas.map (·.log.length) = [3, 3, 2] ∧
    ∀ r ∈ (({} : Cluster).performAll takenOver).replicas.replicas, r.halted = none := by
  have hrouted : ∀ d ∈ takenOver, d.Routed := by decide +kernel
  have hlogs : (({} : Cluster).performAll takenOver).replicas.replicas.map (·.log.length) =
      [3, 3, 2] := by decide +kernel
  exact ⟨hrouted, hlogs, fun r hr => ((writes_halt_nobody rfl hrouted).1 r hr).1⟩

end Cluster

end ReplicatedTable
