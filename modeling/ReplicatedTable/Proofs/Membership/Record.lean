import ReplicatedTable.Membership.Record
import ReplicatedTable.Proofs.Text.Parts

/-!
# Well-formed members

A member has a record just if neither its name nor its address tag is blank (`toOption_ofMember`).
-/
namespace ReplicatedTable.Membership

open Gossip Text

variable {m : Member} {r : Record} {address : String}

/-- Where consensus reaches a member that can have a record. -/
def reachedAt? (m : Member) : Option String :=
  if blank m.name then none else ((m.tags[addressTag]?).filter fun tag => !blank tag).map trim

def described? (m : Member) : Option Record :=
  (reachedAt? m).map fun address => ⟨m.name, m.address, address, .ofLiveness m.status⟩

theorem reachedAt?_eq_some_iff : reachedAt? m = some address ↔ blank m.name = false ∧
    ∃ tag, m.tags[addressTag]? = some tag ∧ blank tag = false ∧ trim tag = address := by
  rw [reachedAt?]
  split
  · simp_all
  · simp_all [Option.filter_eq_some_iff, and_assoc]

theorem toOption_ofMember (m : Member) : (Record.ofMember m).toOption = described? m := by
  unfold Record.ofMember described? reachedAt?
  split
  · rfl
  · cases m.tags[addressTag]? with
    | none => rfl
    | some tag =>
      have htrim := trim_eq_empty_iff tag
      cases hb : blank tag <;> simp_all [Except.toOption, Option.filter]

theorem described_of_ofMember (h : Record.ofMember m = .ok r) : described? m = some r := by
  rw [← toOption_ofMember, h]
  rfl

theorem id_of_described (hr : described? m = some r) : r.id = m.name := by
  obtain ⟨_, -, rfl⟩ := Option.map_eq_some_iff.mp hr
  rfl

end ReplicatedTable.Membership
