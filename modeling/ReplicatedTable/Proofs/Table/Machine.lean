import ReplicatedTable.Proofs.Table.Entry
import ReplicatedTable.Table.Machine

/-!
# Entries and cells

Applying an entry sets the one cell that it names (`apply_eq_ok_iff`, `row?_upsert`).
-/
namespace ReplicatedTable.Table

namespace Machine

theorem apply_eq_ok_iff {m m' : Machine} {index : Nat} {bs : List UInt8} :
    m.apply index bs = .ok m' ↔ ∃ e, Entry.decode bs = .ok e ∧ m' = ⟨upsert m.tables e, index⟩ := by
  rw [apply]
  cases Entry.decode bs with
  | error _ => simp
  | ok e => simp [eq_comm]

theorem apply_encode {e : Entry} (h : e.Sized) (m : Machine) (index : Nat) :
    m.apply index e.encode = .ok ⟨upsert m.tables e, index⟩ :=
  apply_eq_ok_iff.mpr ⟨e, Entry.decode_encode h, rfl⟩

/-- The row that an entry is about holds the entry's value in the entry's column. -/
theorem row?_upsert (tables : Tables) (e : Entry) (index : Nat) :
    ∃ cells, (⟨upsert tables e, index⟩ : Machine).row? e.table e.row = some cells ∧
      cells[e.column]? = some e.value :=
  ⟨((((tables[e.table]?).getD ∅)[e.row]?).getD ∅).insert e.column e.value, by simp [row?, upsert],
    Std.ExtTreeMap.getElem?_insert_self⟩

end Machine

end ReplicatedTable.Table
