import ReplicatedTable.Proofs.Cluster.Conduct
import ReplicatedTable.Proofs.Raft.Resumption
import ReplicatedTable.Proofs.Table.Machine

/-!
# What clients read after a write

A cluster whose replicas form a closed group is left to itself: clients write through its nodes, and engines
are asked for anything but new members (`Deed`). Whatever is done, the network behind the nodes goes through
operations of a closed group (`performAll_follows`). So a write that a node acknowledges has reached all
replicas within reach that have not halted, and as tables are the outcome of the entries that are applied
(`replay_account`), reads at these nodes give back what was written (`write_visible`).
-/
namespace ReplicatedTable

open Raft Raft.Network

/-! ## What is done to a cluster -/

namespace Cluster

/-- Nobody comes to a group that is closed. -/
def Op.Works : Op → Prop
  | .addReplica .. | .bootstrap _ | .join .. | .event .. => False
  | _ => True

instance : (op : Op) → Decidable op.Works
  | .addReplica .. | .bootstrap _ | .join .. | .event .. => .isFalse id
  | .addScripted .. | .campaign _ | .stepDown _ | .shutdown _ | .submit .. | .isolate _ | .heal _
  | .notify .. | .write .. | .settle => .isTrue trivial

/-- Something is done to a node, or to an engine past its node. -/
inductive Deed where
  | node (op : Op)
  | engine (op : Raft.Network.Op Table.Machine)

def Deed.Works : Deed → Prop
  | .node op => op.Works
  | .engine op => op.Works

instance : (d : Deed) → Decidable d.Works
  | .node op => inferInstanceAs (Decidable op.Works)
  | .engine op => inferInstanceAs (Decidable op.Works)

/-- The cluster after a deed. -/
def perform (c : Cluster) : Deed → Cluster
  | .node op => ((c.step? op).map (·.1)).getD c
  | .engine op => { c with replicas := (c.replicas.step op).network }

def performAll (c : Cluster) (deeds : List Deed) : Cluster := deeds.foldl perform c

/-- The network goes through operations of a closed group. -/
def Follows (n m : Replicas) : Prop := ∃ ops : List (Raft.Network.Op Table.Machine),
  (∀ op ∈ ops, op.Works) ∧ m = n.run ops

theorem Follows.single (n : Replicas) (op : Raft.Network.Op Table.Machine) (h : op.Works) :
    Follows n (n.step op).network := Reaches.single n op h

variable {c : Cluster} {name : String}

theorem Op.Causes.works {op : Op} {x : Raft.Network.Op Table.Machine} (h : op.Causes x)
    (hop : op.Works) : x.Works := by
  cases h <;> first | exact hop.elim | trivial

/-- What a deed may ask of the replicas. -/
def Deed.Causes : Deed → Raft.Network.Op Table.Machine → Prop
  | .node op, x => op.Causes x
  | .engine op, x => x = op

theorem Deed.Causes.works {d : Deed} {x : Raft.Network.Op Table.Machine} (h : d.Causes x)
    (hd : d.Works) : x.Works := by
  cases d with
  | node op => exact Op.Causes.works h hd
  | engine op =>
    obtain rfl : x = op := h
    exact hd

theorem perform_reaches (c : Cluster) (d : Deed) :
    Reaches d.Causes c.replicas (c.perform d).replicas := by
  cases d with
  | engine op => exact .single _ op rfl
  | node op =>
    rw [perform]
    cases hstep : c.step? op with
    | none => exact .refl _
    | some p => exact step_causes hstep

/-- Whatever is done to a cluster, its network goes through what the deeds cause. -/
theorem performAll_reaches (c : Cluster) (deeds : List Deed) :
    Reaches (fun x => ∃ d ∈ deeds, d.Causes x) c.replicas (c.performAll deeds).replicas := by
  induction deeds generalizing c with
  | nil => exact .refl _
  | cons d deeds ih =>
    have hfirst := (perform_reaches c d).mono (Q := fun x => ∃ e ∈ d :: deeds, e.Causes x)
      fun x hx => ⟨d, List.mem_cons_self .., hx⟩
    exact hfirst.trans ((ih (c.perform d)).mono fun x ⟨e, he, hx⟩ => ⟨e, List.mem_cons_of_mem _ he, hx⟩)

/-- Whatever is done to a cluster that nobody joins, its network goes through operations of a closed group. -/
theorem performAll_follows (c : Cluster) {deeds : List Deed} (h : ∀ d ∈ deeds, d.Works) :
    Follows c.replicas (c.performAll deeds).replicas :=
  (performAll_reaches c deeds).mono fun _ ⟨d, hd, hx⟩ => hx.works (h d hd)

/-! ## What a node shows -/

theorem replica?_eq_some {i : Nat} {r : Replica Table.Machine} : c.replica? name = some (i, r) ↔
    ∃ node, c.node? name = some node ∧ node.engine = .replica i ∧ c.replicas.replica? i = some r := by
  simp only [replica?, bind, Option.bind_eq_some_iff]
  refine exists_congr fun node => and_congr_right fun _ => ?_
  cases node.engine with
  | scripted s => simp
  | replica k =>
    simp only [Option.map_eq_some_iff, Prod.mk.injEq, Engine.replica.injEq]
    constructor
    · rintro ⟨x, hx, rfl, rfl⟩
      exact ⟨rfl, hx⟩
    · rintro ⟨rfl, hr⟩
      exact ⟨r, hr, rfl, rfl⟩

/-- A node answers reads of a cell with a value, and has applied the entries up to an index. -/
structure Shows (c : Cluster) (name : String) (e : Table.Entry) (index : Nat) : Prop where
  cell : c.readCell name e.table e.row e.column = .ok e.value
  row : ∃ cells, c.read name e.table e.row = .ok cells ∧ cells[e.column]? = some e.value
  lastApplied : (c.table name).lastApplied = index

theorem shows_of_machine {i : Nat} {r : Replica Table.Machine} (hnode : c.replica? name = some (i, r))
    {e : Table.Entry} {tables : Table.Tables} {index : Nat}
    (h : r.machine = ⟨Table.Machine.upsert tables e, index⟩) : c.Shows name e index := by
  have htable : (host name).table c = ⟨Table.Machine.upsert tables e, index⟩ := by
    simp only [host, hnode, Option.map_some, Option.getD_some, h]
  obtain ⟨cells, hrow, hcell⟩ := Table.Machine.row?_upsert tables e index
  refine ⟨?_, ⟨cells, ?_, hcell⟩, ?_⟩
  · rw [readCell, Router.readCell, htable, Table.Machine.cell?, hrow, Option.bind_some, hcell]
  · rw [read, Router.read, htable, hrow]
  · rw [table, htable]

/-- The machine of a replica that has applied an entry last is what the entry makes of a table. -/
theorem machine_of_applied {ops : List (Raft.Network.Op Table.Machine)}
    (hnew : ∀ id address machine, .register id address machine ∈ ops → machine = {}) {j : Nat}
    {r : Replica Table.Machine} (hr : (Raft.Network.run {} ops).replicas[j]? = some r) {log : Log} {term : Nat}
    {e : Table.Entry} (hsized : e.Sized) (hlog : r.log = log ++ [⟨term, e.encode⟩])
    (happlied : r.applied = log.length + 1) :
    ∃ tables, r.machine = ⟨Table.Machine.upsert tables e, log.length + 1⟩ := by
  have hbalanced := run_balanced replay_account (fun id address machine h => by
    rw [hnew id address machine h]
    exact ⟨rfl, rfl⟩) hr
  obtain ⟨hreplay, -⟩ := hbalanced.account
  rw [happlied, hlog, List.take_of_length_le (by rw [List.length_append, List.length_singleton]),
    Log.numbered_concat, replay_concat] at hreplay
  cases hold : replay log.numbered with
  | error err => rw [hold] at hreplay; cases hreplay
  | ok m =>
    rw [hold, Except.bind, Table.Machine.apply_encode hsized] at hreplay
    exact ⟨m.tables, (Except.ok.inj hreplay).symm⟩

/-- A node shows the entry that its replica has applied last. -/
theorem shows_of_applied {ops : List (Raft.Network.Op Table.Machine)}
    (hrun : c.replicas = Raft.Network.run {} ops)
    (hnew : ∀ id address machine, .register id address machine ∈ ops → machine = {}) {j : Nat}
    {r : Replica Table.Machine} (hnode : c.replica? name = some (j, r)) {log : Log} {term : Nat}
    {e : Table.Entry} (hsized : e.Sized) (hlog : r.log = log ++ [⟨term, e.encode⟩])
    (happlied : r.applied = log.length + 1) : c.Shows name e (log.length + 1) := by
  obtain ⟨-, -, -, hr⟩ := replica?_eq_some.mp hnode
  rw [hrun] at hr
  obtain ⟨tables, hmachine⟩ := machine_of_applied hnew (Raft.Network.replica?_eq_some.mp hr).1 hsized
    hlog happlied
  exact shows_of_machine hnode hmachine

/-! ## Writes -/

/-- A write that succeeds has handed its entry to the engine, which has answered. -/
theorem write_ok {ω : Type} {r : Router} {h : Host ω} {w w' : ω} {table row column value : String}
    {index : Nat} (hw : r.write h w table row column value = (w', .ok index)) :
    h.submit w (Table.Entry.encode ⟨table, row, column, value⟩) r.applyTimeout =
      (w', .answered (.ok index)) := by
  unfold Router.write at hw
  cases he : Router.entry table row column value with
  | error e => rw [he] at hw; cases hw
  | ok e =>
    rw [he, entry_ok he] at hw
    dsimp only at hw
    split at hw
    · split at hw <;> rename_i hs <;> cases hw
      exact hs
    · cases hw

/-- A write that a node acknowledges is an entry that its replica has submitted with success. -/
theorem write_submits {i : Nat} {r : Replica Table.Machine} (hnode : c.replica? name = some (i, r))
    {table row column value : String} {c' : Cluster} {index : Nat}
    (h : c.step? (.write name table row column value) = some (c', .ok (some index))) :
    c' = { c with replicas :=
        (c.replicas.submit i (Table.Entry.encode ⟨table, row, column, value⟩)).network } ∧
      (c.replicas.submit i (Table.Entry.encode ⟨table, row, column, value⟩)).answer = .ok index := by
  obtain ⟨node, -, hstep⟩ := Option.map_eq_some_iff.mp h
  cases hw : (c.router name).write (host name) c table row column value with
  | mk w answer =>
    rw [hw] at hstep
    cases answer with
    | error e => cases hstep
    | ok k =>
      cases hstep
      have hsubmit := write_ok hw
      simp only [host, hnode] at hsubmit
      exact ⟨(congrArg Prod.fst hsubmit).symm, Submission.answered.inj (congrArg Prod.snd hsubmit)⟩

variable {founder : Nat} {setup : List (Raft.Network.Op Unit)} {deeds : List Deed}

/-- Tables are empty at first, and nobody is registered later. -/
theorem machine_of_register {work : List (Raft.Network.Op Table.Machine)}
    (hworks : ∀ op ∈ work, op.Works) {id address : String} {machine : Table.Machine}
    (h : .register id address machine ∈ setup.map (Op.map fun _ => ({} : Table.Machine)) ++ work) :
    machine = {} := by
  rcases List.mem_append.mp h with h | h
  · obtain ⟨-, rfl⟩ := Op.register_mem_map h
    rfl
  · exact (hworks _ h).elim

/-- A write that a node acknowledges can be read there, and at every node that is within its reach and whose
replica has not halted. The lengths of texts that fit into memory can be written down in eight bytes, which is
all that `hsized` asks for. -/
theorem write_visible (hformed : Formed founder (setup.map (Op.map fun _ => ({} : Table.Machine))))
    (hc : c.replicas = tabled setup) (hdeeds : ∀ d ∈ deeds, d.Works) {i : Nat}
    {r : Replica Table.Machine} (hnode : (c.performAll deeds).replica? name = some (i, r))
    {table row column value : String} (hsized : Table.Entry.Sized ⟨table, row, column, value⟩)
    {c' : Cluster} {index : Nat}
    (hwrite : (c.performAll deeds).step? (.write name table row column value) =
      some (c', .ok (some index))) :
    c'.Shows name ⟨table, row, column, value⟩ index ∧
      ∀ other j s, c'.replica? other = some (j, s) → s.halted = none →
        i ∈ c'.replicas.present → j ∈ c'.replicas.present →
          c'.Shows other ⟨table, row, column, value⟩ index := by
  obtain ⟨work, hworks, hrun⟩ := performAll_follows c hdeeds
  rw [hc, tabled, ← run_append] at hrun
  have hw : (c.performAll deeds).replicas.Wired := hrun ▸ wired_run wired_empty _
  obtain ⟨voters, g, hsound, hpresided⟩ := hformed.sound hworks
  rw [← hrun] at hsound hpresided
  obtain ⟨node, hat, hengine, hr⟩ := replica?_eq_some.mp hnode
  obtain ⟨hc', hans⟩ := write_submits hnode hwrite
  -- the run goes on with the write
  obtain ⟨work', hworks', hrun'⟩ : Follows (c.performAll deeds).replicas c'.replicas :=
    hc' ▸ .single _ (.submit i _) trivial
  rw [hrun, ← run_append, List.append_assoc] at hrun'
  have hall' : ∀ op ∈ work ++ work', op.Works := fun op h =>
    (List.mem_append.mp h).elim (hworks op) (hworks' op)
  obtain ⟨x, hx, rfl, ⟨y, hy, hyrun⟩, hall⟩ := hsound.caught_up hpresided hw hans
  rw [hr] at hx
  cases hx
  have hshows : ∀ other j s, c'.replica? other = some (j, s) → s.halted = none →
      j ∈ i :: (c.performAll deeds).replicas.reachable r →
        c'.Shows other ⟨table, row, column, value⟩ (r.log.length + 1) := by
    intro other j s hother hrunning hj
    obtain ⟨-, -, -, hs⟩ := replica?_eq_some.mp hother
    obtain ⟨s', hs', hdone⟩ := hall j hj
    rw [hc', hs'] at hs
    cases hs
    obtain ⟨hlog, happlied⟩ := hdone hrunning
    exact shows_of_applied hrun' (fun _ _ _ => machine_of_register hall') hother hsized hlog happlied
  have hself : c'.replica? name = some (i, y) :=
    replica?_eq_some.mpr ⟨node, by rw [hc']; exact hat, hengine, by rw [hc']; exact hy⟩
  refine ⟨hshows name i y hself hyrun (List.mem_cons_self ..), fun other j s hother hrunning hi hj => ?_⟩
  rw [hc', present_submit hw] at hi hj
  exact hshows other j s hother hrunning ((hsound.grouped.mem_present_iff hw hr hi).mp hj)

/-- Three replicas form a group. -/
def threeReplicas : List (Raft.Network.Op Unit) :=
  [.register "n1" "a1" (), .register "n2" "a2" (), .register "n3" "a3" (), .bootstrap 0,
    .addVoter 0 "n2" "a2" 0, .addVoter 0 "n3" "a3" 0]

def threeNodes : Cluster :=
  let c : Cluster := { replicas := tabled threeReplicas }
  ((c.put "n1" { engine := .replica 0 }).put "n2" { engine := .replica 1 }).put "n3"
    { engine := .replica 2 }

/-- The first node learns that it leads, and the third one misses a write. -/
def missedWrite : List Deed :=
  [.node .settle, .node (.isolate "a3"), .node (.write "n1" "t" "r" "c" "x"), .node (.heal "a3")]

/-- The next write can be read at the node that has missed one. -/
theorem write_visible_missedWrite : ∃ c', (threeNodes.performAll missedWrite).step?
      (.write "n1" "t" "r" "c" "y") = some (c', .ok (some 2)) ∧
    c'.Shows "n1" ⟨"t", "r", "c", "y"⟩ 2 ∧ c'.Shows "n3" ⟨"t", "r", "c", "y"⟩ 2 := by
  have hformed : Formed 0 (threeReplicas.map (Op.map fun _ => ({} : Table.Machine))) := by
    decide +kernel
  have hdeeds : ∀ d ∈ missedWrite, d.Works := by decide +kernel
  have hsized : Table.Entry.Sized ⟨"t", "r", "c", "y"⟩ := by
    constructor <;> decide +kernel
  have hnode : ((threeNodes.performAll missedWrite).replica? "n1").any (fun p => p.1 == 0) = true := by
    decide +kernel
  have hanswer : ((threeNodes.performAll missedWrite).step? (.write "n1" "t" "r" "c" "y")).any
      (fun p => p.2.toOption == some (some 2) && p.1.replicas.present == [0, 1, 2] &&
        (p.1.replica? "n3").any fun q => q.1 == 2 && q.2.halted.isNone) = true := by
    decide +kernel
  obtain ⟨⟨i, r⟩, hnode, hi⟩ := Option.any_eq_true _ _ |>.mp hnode
  obtain ⟨⟨c', answer⟩, hwrite, hfacts⟩ := Option.any_eq_true _ _ |>.mp hanswer
  simp only [Bool.and_eq_true, beq_iff_eq, Option.any_eq_true, Prod.exists, Option.isNone_iff_eq_none]
    at hi hfacts
  obtain ⟨⟨hok, hpresent⟩, j, s, hother, rfl, hrunning⟩ := hfacts
  subst hi
  cases answer with
  | error e => cases hok
  | ok index =>
    cases hok
    obtain ⟨hself, hall⟩ := write_visible hformed rfl hdeeds hnode hsized hwrite
    exact ⟨c', hwrite, hself, hall "n3" 2 s hother hrunning (by simp [hpresent]) (by simp [hpresent])⟩

end Cluster

end ReplicatedTable
