import ReplicatedTable.Proofs.Cluster.Conduct
import ReplicatedTable.Proofs.Membership.Record
import ReplicatedTable.Proofs.Raft.Electorate
import ReplicatedTable.Proofs.Text.Parts

/-!
# Whom nodes admit

A voter comes into a group under the id and the address of a replica that founds it, as a member whose joining
is told by gossip, or by a request to join. Every voter of every replica was named in one of these ways
(`run_onRoster`). If all of them name nodes of one roster, two ids at one address are two names of one node,
and one of them is its address, which a request without an id has put in place of it (`voters_of_roster`).
-/
namespace ReplicatedTable

open Raft Raft.Network Text

namespace Cluster

/-! ## Who is named -/

/-- The ids and addresses under which an operation may bring in voters. -/
def Op.named : Op → List (String × String)
  | .addReplica name address => [(name, address)]
  | .event _ (.members .join ms) => ms.filterMap fun m =>
    (Membership.Record.ofMember m).toOption.map fun r => (r.id, r.consensusAddress)
  | .join _ id address => [(if trim id = "" then trim address else trim id, trim address)]
  | _ => []

variable {c : Cluster} {ops : List Op} {op : Op} {roster : List (String × String)} {id address : String}

theorem Op.Causes.register_named {machine : Table.Machine}
    (h : op.Causes (.register id address machine)) : (id, address) ∈ op.named := by
  cases h
  exact List.mem_singleton_self _

theorem Op.Causes.addVoter_named {i prev : Nat} (h : op.Causes (.addVoter i id address prev)) :
    (id, address) ∈ op.named := by
  cases h with
  | event hm hr name i => exact List.mem_filterMap.mpr ⟨_, hm, by rw [hr]; rfl⟩
  | join name id address i => exact List.mem_singleton_self _

/-- All replicas and all their voters were named. -/
theorem run_onRoster (hc : c.replicas = {}) (ops : List Op) :
    (c.run ops).replicas.Everywhere (OnRoster (ops.flatMap Op.named)) := by
  obtain ⟨caused, hcaused, hrun⟩ := run_causes c ops
  rw [hrun, hc]
  refine run_everywhere wired_empty (onRoster_lasting _) everywhere_empty (fun x hx => ?_)
    fun id address machine hx => ?_
  · obtain ⟨op, hop, h⟩ := hcaused x hx
    cases x with
    | addVoter i id address prev => exact List.mem_flatMap.mpr ⟨op, hop, h.addVoter_named⟩
    | _ => trivial
  · obtain ⟨op, hop, h⟩ := hcaused _ hx
    exact ⟨List.mem_flatMap.mpr ⟨op, hop, h.register_named⟩, fun x a hx => by simp [Replica.fresh] at hx⟩

/-! ## Nodes of a roster -/

/-- An operation brings in nobody but nodes of a roster: replicas have their ids and addresses, members that
join have the ids as names and the addresses as tags, and a request to join has the address of a node with its
id or with a blank one. -/
def Op.Of (roster : List (String × String)) : Op → Prop
  | .addReplica name address => (name, address) ∈ roster
  | .event _ (.members .join ms) => ∀ m ∈ ms, ∀ address ∈ m.tags[Membership.addressTag]?,
    (m.name, address) ∈ roster
  | .join _ id address => ∃ node ∈ roster, trim address = trim node.2 ∧
    (trim id = "" ∨ trim id = trim node.1)
  | _ => True

instance : (op : Op) → Decidable (op.Of roster)
  | .addReplica name address => inferInstanceAs (Decidable ((name, address) ∈ roster))
  | .event _ (.members .join ms) => inferInstanceAs (Decidable (∀ m ∈ ms,
    ∀ address ∈ m.tags[Membership.addressTag]?, (m.name, address) ∈ roster))
  | .join _ id address => inferInstanceAs (Decidable (∃ node ∈ roster,
    trim address = trim node.2 ∧ (trim id = "" ∨ trim id = trim node.1)))
  | .event _ (.user ..) | .event _ (.members .leave _) | .event _ (.members .failed _)
  | .event _ (.members .reap _) | .event _ (.members .update _) | .addScripted .. | .bootstrap _
  | .campaign _ | .stepDown _ | .shutdown _ | .submit .. | .isolate _ | .heal _ | .notify .. | .write ..
  | .settle => .isTrue trivial

/-- A request to join has an address and no id. -/
def Op.Unnamed (address : String) : Op → Prop
  | .join _ id a => trim id = "" ∧ trim a = trim address
  | _ => False

instance : (op : Op) → Decidable (op.Unnamed address)
  | .join _ id a => inferInstanceAs (Decidable (trim id = "" ∧ trim a = trim address))
  | .event .. | .addReplica .. | .addScripted .. | .bootstrap _ | .campaign _ | .stepDown _
  | .shutdown _ | .submit .. | .isolate _ | .heal _ | .notify .. | .write .. | .settle => .isFalse not_false

/-- The names of a node after some operations: its id, also without blanks at its ends, and its address if a
request had no id. -/
def Alias (ops : List Op) (node : String × String) (id : String) : Prop :=
  id = node.1 ∨ id = trim node.1 ∨ id = trim node.2 ∧ ∃ op ∈ ops, op.Unnamed node.2

theorem ofMember_ok {m : Gossip.Member} {r : Membership.Record}
    (h : Membership.Record.ofMember m = .ok r) : r.id = m.name ∧
      ∃ address, m.tags[Membership.addressTag]? = some address ∧ r.consensusAddress = trim address := by
  have hdescribed := Membership.described_of_ofMember h
  obtain ⟨address, haddress, rfl⟩ := Option.map_eq_some_iff.mp hdescribed
  obtain ⟨-, tag, htag, -, rfl⟩ := Membership.reachedAt?_eq_some_iff.mp haddress
  exact ⟨rfl, tag, htag, rfl⟩

theorem alias_of_named (hop : op ∈ ops) (h : op.Of roster) (hnamed : (id, address) ∈ op.named) :
    ∃ node ∈ roster, (address = node.2 ∨ address = trim node.2) ∧ Alias ops node id := by
  cases op with
  | addReplica name a =>
    cases List.mem_singleton.mp hnamed
    exact ⟨_, h, Or.inl rfl, Or.inl rfl⟩
  | event name e =>
    cases e with
    | user => cases hnamed
    | members kind ms =>
      cases kind with
      | join =>
        obtain ⟨m, hm, e⟩ := List.mem_filterMap.mp hnamed
        cases hr : Membership.Record.ofMember m with
        | error err => rw [hr] at e; cases e
        | ok r =>
          rw [hr] at e
          cases e
          obtain ⟨hid, a, ha, haddress⟩ := ofMember_ok hr
          exact ⟨_, h m hm a ha, Or.inr haddress, Or.inl hid⟩
      | _ => cases hnamed
  | join name x a =>
    obtain ⟨node, hnode, ha, hx⟩ := h
    cases List.mem_singleton.mp hnamed
    refine ⟨node, hnode, Or.inr ha, ?_⟩
    split
    · rename_i hblank
      exact Or.inr (Or.inr ⟨ha, _, hop, hblank, ha⟩)
    · rename_i hblank
      exact Or.inr (Or.inl (hx.resolve_left hblank))
  | _ => cases hnamed

/-- Every voter is a node of the roster under one of its names. -/
theorem voter_alias (hc : c.replicas = {}) (hops : ∀ op ∈ ops, op.Of roster) {j : Nat}
    {r : Replica Table.Machine} (hr : (c.run ops).replicas.replicas[j]? = some r)
    (hvoter : r.voters[id]? = some address) :
    ∃ node ∈ roster, (address = node.2 ∨ address = trim node.2) ∧ Alias ops node id := by
  obtain ⟨op, hop, hnamed⟩ := List.mem_flatMap.mp ((run_onRoster hc ops j r hr).voters id address hvoter)
  exact alias_of_named hop (hops op hop) hnamed

/-- Where addresses differ not only in blanks at their ends, an address belongs to one node. -/
theorem node_of_address (hdistinct : (roster.map fun node => trim node.2).Nodup)
    {node node' : String × String} (hnode : node ∈ roster) (hnode' : node' ∈ roster)
    (h : address = node.2 ∨ address = trim node.2) (h' : address = node'.2 ∨ address = trim node'.2) :
    node = node' := by
  have htrim : ∀ {a : String}, address = a ∨ address = trim a → trim address = trim a := by
    rintro a (rfl | rfl)
    · rfl
    · exact trim_trim a
  exact List.inj_on_of_nodup_map hdistinct hnode hnode' ((htrim h).symm.trans (htrim h'))

/-- Nothing is to be trimmed at ids and addresses. -/
def Plain (roster : List (String × String)) : Prop :=
  ∀ node ∈ roster, trim node.1 = node.1 ∧ trim node.2 = node.2

theorem Alias.plain {node : String × String} (h : Alias ops node id) (hplain : Plain roster)
    (hnode : node ∈ roster) : id = node.1 ∨ id = node.2 ∧ ∃ op ∈ ops, op.Unnamed node.2 := by
  obtain ⟨hid, haddress⟩ := hplain node hnode
  rw [Alias, hid, haddress] at h
  tauto

/-- Two ids that a replica has at one address are names of one node. If nothing is to be trimmed at the names
of nodes, one of the two is the id of the node and the other one is its address, which a request to join
without an id has made a voter. If there is no such request, every node is one voter at most. -/
theorem voters_of_roster (hc : c.replicas = {})
    (hdistinct : (roster.map fun node => trim node.2).Nodup) (hops : ∀ op ∈ ops, op.Of roster) {j : Nat}
    {r : Replica Table.Machine} (hr : (c.run ops).replicas.replicas[j]? = some r) :
    (∀ id id' address : String, r.voters[id]? = some address → r.voters[id']? = some address →
      ∃ node ∈ roster, (address = node.2 ∨ address = trim node.2) ∧ Alias ops node id ∧
        Alias ops node id') ∧
    (Plain roster →
      (∀ id id' address : String, r.voters[id]? = some address → r.voters[id']? = some address →
        id ≠ id' → (∃ x, (x, address) ∈ roster ∧ (id = x ∧ id' = address ∨ id = address ∧ id' = x)) ∧
          ∃ op ∈ ops, op.Unnamed address) ∧
      ((∀ op ∈ ops, ∀ node ∈ roster, ¬op.Unnamed node.2) →
        (∀ p ∈ r.voters.toList, p ∈ roster) ∧ (r.voters.toList.map Prod.snd).Nodup)) := by
  have hshared : ∀ id id' address : String, r.voters[id]? = some address →
      r.voters[id']? = some address → ∃ node ∈ roster, (address = node.2 ∨ address = trim node.2) ∧
        Alias ops node id ∧ Alias ops node id' := by
    intro id id' address hid hid'
    obtain ⟨node, hnode, haddress, halias⟩ := voter_alias hc hops hr hid
    obtain ⟨node', hnode', haddress', halias'⟩ := voter_alias hc hops hr hid'
    obtain rfl := node_of_address hdistinct hnode hnode' haddress haddress'
    exact ⟨node, hnode, haddress, halias, halias'⟩
  refine ⟨hshared, fun hplain => ⟨?_, fun hnamed => ?_⟩⟩
  · intro id id' address hid hid' hne
    obtain ⟨⟨x, a⟩, hnode, haddress, halias, halias'⟩ := hshared id id' address hid hid'
    rw [(hplain _ hnode).2, or_self] at haddress
    subst haddress
    rcases halias.plain hplain hnode with h | ⟨h, hunnamed⟩ <;>
      rcases halias'.plain hplain hnode with h' | ⟨h', hunnamed'⟩
    · exact absurd (h.trans h'.symm) hne
    · exact ⟨⟨x, hnode, Or.inl ⟨h, h'⟩⟩, hunnamed'⟩
    · exact ⟨⟨x, hnode, Or.inr ⟨h, h'⟩⟩, hunnamed⟩
    · exact absurd (h.trans h'.symm) hne
  · have hnode : ∀ p ∈ r.voters.toList, p ∈ roster := by
      rintro ⟨id, address⟩ hp
      have hvoter := Std.ExtTreeMap.mem_toList_iff_getElem?_eq_some.mp hp
      obtain ⟨node, hmem, haddress, halias⟩ := voter_alias hc hops hr hvoter
      rw [(hplain _ hmem).2, or_self] at haddress
      rcases halias.plain hplain hmem with h | ⟨-, op, hop, hunnamed⟩
      · rw [h, haddress]
        exact hmem
      · exact absurd hunnamed (hnamed op hop node hmem)
    refine ⟨hnode, List.Nodup.map_on (fun p hp q hq e => ?_) ?_⟩
    · exact List.inj_on_of_nodup_map hdistinct (hnode p hp) (hnode q hq) (congrArg trim e)
    · exact Std.ExtTreeMap.distinct_keys_toList.imp fun h e => h (by simp [e])

/-- Two nodes and a third one. -/
def threeNodesRoster : List (String × String) :=
  [("n1", "n1:9000"), ("n2", "n2:9000"), ("n3", "n3:9000")]

/-- A member that tells its consensus address. -/
def memberOf (node : String × String) : Gossip.Member :=
  { name := node.1, address := node.1 ++ ":7946",
    tags := (∅ : Gossip.Tags).insert Membership.addressTag node.2 }

/-- The first node leads a group of its own, and knows it. -/
def founded : List Op :=
  threeNodesRoster.map (fun node => .addReplica node.1 node.2) ++ [.bootstrap "n1", .settle]

/-- Two nodes are admitted in both ways, in either order. -/
def admittedInBothWays : List Op := founded ++
  [.event "n1" (.members .join [memberOf ("n2", "n2:9000")]), .join "n1" " n2" "n2:9000 ",
    .join "n1" "n3" "n3:9000", .event "n1" (.members .join [memberOf ("n3", "n3:9000")])]

theorem plain_roster : Plain threeNodesRoster := by
  unfold Plain threeNodesRoster
  decide +kernel

theorem voters_of_roster_in_both_ways : ∃ r,
    (run {} admittedInBothWays).replicas.replicas[0]? = some r ∧
      r.voters.toList.map Prod.fst = ["n1", "n2", "n3"] ∧ (r.voters.toList.map Prod.snd).Nodup := by
  have hall : ((run {} admittedInBothWays).replicas.replicas[0]?).any (fun r =>
      r.voters.toList.map Prod.fst == ["n1", "n2", "n3"]) = true := by decide +kernel
  obtain ⟨r, hr, hvoters⟩ := (Option.any_eq_true _ _).mp hall
  have hops : ∀ op ∈ admittedInBothWays, op.Of threeNodesRoster := by decide +kernel
  have hnamed : ∀ op ∈ admittedInBothWays, ∀ node ∈ threeNodesRoster, ¬op.Unnamed node.2 := by
    decide +kernel
  have hdistinct : (threeNodesRoster.map fun node => trim node.2).Nodup := by decide +kernel
  obtain ⟨-, hplain⟩ := voters_of_roster rfl hdistinct hops hr
  exact ⟨r, hr, beq_iff_eq.mp hvoters, ((hplain plain_roster).2 hnamed).2⟩

/-- The second node is admitted as a member, and then by a request without an id. -/
def admittedTwice : List Op := founded ++
  [.event "n1" (.members .join [memberOf ("n2", "n2:9000")]), .join "n1" "" "n2:9000"]

/-- It is not so that nodes with different ids and addresses are one voter each of a leader. -/
theorem two_votes_of_one_address : ¬∀ (roster : List (String × String)) (ops : List Op),
    (roster.map Prod.fst).Nodup → (roster.map Prod.snd).Nodup → (∀ op ∈ ops, op.Of roster) →
    ∀ (j : Nat) (r : Replica Table.Machine), (run {} ops).replicas.replicas[j]? = some r →
      r.leader = true → ∀ id id' address : String, r.voters[id]? = some address →
        r.voters[id']? = some address → id = id' := by
  intro h
  have hvoters : ((run {} admittedTwice).replicas.replicas[0]?).any (fun r => decide (r.leader = true ∧
      r.voters["n2"]? = some "n2:9000" ∧ r.voters["n2:9000"]? = some "n2:9000")) = true := by
    decide +kernel
  obtain ⟨r, hr, hvoters⟩ := (Option.any_eq_true _ _).mp hvoters
  obtain ⟨hleader, hid, haddress⟩ := of_decide_eq_true hvoters
  have hsame := h threeNodesRoster admittedTwice (by decide) (by decide) (by decide +kernel) 0 r hr
    hleader "n2" "n2:9000" "n2:9000" hid haddress
  exact absurd hsame (by decide)

end Cluster

end ReplicatedTable
