import Mathlib.Data.List.Induction
import ReplicatedTable.Cluster.Basic
import ReplicatedTable.Proofs.Table.Machine

/-!
# What calls leave in a table

A machine is called with indices and bytes, and goes on after a call that failed. However many tables and rows
were made on the way, what it holds is what a flat record of the entries says (`Reflects`): a cell has the value
that the last entry on exactly this table, row and column gave it, and a row is there just if some entry was
about it. One entry keeps this (`Reflects.upsert`), hence all calls do (`last_write_wins`).
-/
namespace ReplicatedTable.Table

open Std

/-! ## The flat record -/

/-- The entries among the bytes that a machine was called with. -/
def entriesOf (calls : List (Nat × List UInt8)) : List Entry :=
  calls.filterMap fun c => (Entry.decode c.2).toOption

/-- The value that the last of the entries on a cell gave it. -/
def lastValue? (es : List Entry) (table row column : String) : Option String :=
  (es.reverse.find? fun e => e.table = table ∧ e.row = row ∧ e.column = column).map Entry.value

theorem lastValue?_concat (es : List Entry) (e : Entry) (table row column : String) :
    lastValue? (es ++ [e]) table row column =
      if e.table = table ∧ e.row = row ∧ e.column = column then some e.value
      else lastValue? es table row column := by
  simp only [lastValue?, List.reverse_append, List.reverse_singleton, List.singleton_append, List.find?_cons]
  split <;> simp_all

/-- An entry on a cell leaves a value there. -/
theorem isSome_lastValue? {es : List Entry} {e : Entry} (h : e ∈ es) :
    (lastValue? es e.table e.row e.column).isSome := by
  rw [lastValue?, Option.isSome_map, List.find?_isSome]
  exact ⟨e, List.mem_reverse.mpr h, by simp⟩

namespace Machine

/-! ## Calls -/

/-- The machine after some calls. -/
def called (m : Machine) (calls : List (Nat × List UInt8)) : Machine :=
  calls.foldl (fun m c => (Raft.StateMachine.apply m c.1 c.2).1) m

/-- The indices of some calls, each with the answer to its call. -/
def answers (m : Machine) : List (Nat × List UInt8) → List (Nat × Except Error Unit)
  | [] => []
  | c :: calls =>
    (c.1, (Raft.StateMachine.apply m c.1 c.2).2) :: (Raft.StateMachine.apply m c.1 c.2).1.answers calls

/-- The index of the last call that was answered with success, or zero. -/
def lastSuccess (answers : List (Nat × Except Error Unit)) : Nat :=
  ((answers.reverse.find? fun a => a.2.isOk).map Prod.fst).getD 0

variable {m : Machine} {index : Nat} {bytes : List UInt8} {calls : List (Nat × List UInt8)}

theorem called_concat (m : Machine) (calls : List (Nat × List UInt8)) (c : Nat × List UInt8) :
    m.called (calls ++ [c]) = (Raft.StateMachine.apply (m.called calls) c.1 c.2).1 := by
  simp [called]

theorem answers_concat (m : Machine) (calls : List (Nat × List UInt8)) (c : Nat × List UInt8) :
    m.answers (calls ++ [c]) =
      m.answers calls ++ [(c.1, (Raft.StateMachine.apply (m.called calls) c.1 c.2).2)] := by
  induction calls generalizing m with
  | nil => rfl
  | cons d calls ih =>
    rw [List.cons_append, answers, ih]
    rfl

theorem lastSuccess_concat (answers : List (Nat × Except Error Unit)) (a : Nat × Except Error Unit) :
    lastSuccess (answers ++ [a]) = if a.2.isOk then a.1 else lastSuccess answers := by
  simp only [lastSuccess, List.reverse_append, List.reverse_singleton, List.singleton_append, List.find?_cons]
  split <;> simp_all

theorem apply_of_entry {e : Entry} (h : Entry.decode bytes = .ok e) :
    Raft.StateMachine.apply m index bytes = (⟨upsert m.tables e, index⟩, .ok ()) := by
  simp only [Raft.StateMachine.apply, apply, h]

/-- Bytes that hold no entry are answered with a fatal error, and the machine stays as it is. -/
theorem apply_of_fault {fault : CodecFault} (h : Entry.decode bytes = .error fault) :
    Raft.StateMachine.apply m index bytes = (m, .error (.fatalApply index (Error.codec fault).message)) := by
  simp only [Raft.StateMachine.apply, apply, h]

/-! ## One entry -/

/-- An entry changes its own row only, which is made if it is missing. -/
theorem row?_upsert_cases (m : Machine) (e : Entry) (index : Nat) (table row : String) :
    (⟨upsert m.tables e, index⟩ : Machine).row? table row =
      if e.table = table ∧ e.row = row then some (((m.row? table row).getD ∅).insert e.column e.value)
      else m.row? table row := by
  by_cases ht : e.table = table
  · subst ht
    by_cases hr : e.row = row
    · subst hr
      cases h : m.tables[e.table]? <;> simp [row?, upsert, h]
    · cases h : m.tables[e.table]? <;> simp [row?, upsert, h, hr, ExtTreeMap.getElem?_insert]
  · simp [row?, upsert, ht, ExtTreeMap.getElem?_insert]

/-- What a machine holds, next to the entries that were handed over. -/
structure Reflects (m : Machine) (es : List Entry) : Prop where
  cells : ∀ table row column, m.cell? table row column = lastValue? es table row column
  rows : ∀ table row, (m.row? table row).isSome ↔ ∃ e ∈ es, e.table = table ∧ e.row = row

theorem reflects_empty : Reflects {} [] where
  cells _ _ _ := by simp [cell?, row?, lastValue?]
  rows _ _ := by simp [row?]

theorem Reflects.upsert {es : List Entry} (h : m.Reflects es) (e : Entry) (index : Nat) :
    Reflects ⟨upsert m.tables e, index⟩ (es ++ [e]) where
  cells table row column := by
    have hcell := h.cells table row column
    rw [lastValue?_concat, ← hcell, cell?, cell?, row?_upsert_cases]
    by_cases hrow : e.table = table ∧ e.row = row
    · rw [if_pos hrow, Option.bind_some, ExtTreeMap.getElem?_insert]
      by_cases hcolumn : e.column = column
      · simp [hrow, hcolumn]
      · cases hold : m.row? table row <;> simp [hcolumn]
    · rw [if_neg hrow, if_neg fun hall => hrow ⟨hall.1, hall.2.1⟩]
  rows table row := by
    rw [row?_upsert_cases]
    by_cases hrow : e.table = table ∧ e.row = row
    · rw [if_pos hrow]
      exact iff_of_true rfl ⟨e, by simp, hrow⟩
    · rw [if_neg hrow, h.rows]
      simp [hrow]

/-! ## All calls -/

theorem reflects_called (calls : List (Nat × List UInt8)) : (called {} calls).Reflects (entriesOf calls) := by
  induction calls using List.reverseRecOn with
  | nil => exact reflects_empty
  | append_singleton calls c ih =>
    rw [called_concat, entriesOf, List.filterMap_append, ← entriesOf]
    cases hd : Entry.decode c.2 with
    | ok e =>
      rw [apply_of_entry hd]
      simpa [hd, Except.toOption] using ih.upsert e c.1
    | error fault =>
      rw [apply_of_fault hd]
      simpa [hd, Except.toOption] using ih

theorem lastApplied_called (calls : List (Nat × List UInt8)) :
    (called {} calls).lastApplied = lastSuccess (answers {} calls) := by
  induction calls using List.reverseRecOn with
  | nil => rfl
  | append_singleton calls c ih =>
    rw [called_concat, answers_concat, lastSuccess_concat]
    cases hd : Entry.decode c.2 with
    | ok e =>
      rw [apply_of_entry hd]
      rfl
    | error fault =>
      rw [apply_of_fault hd]
      exact ih

/-- After any calls of a new machine, whatever their bytes: a cell has the value that the last entry on its
table, row and column gave it, and none if there was no such entry. A row is there just if an entry was about
it, is not empty then, and holds the values of its cells and nothing else. The last index is that of the last
call that was answered with success. And a further call succeeds if its bytes hold an entry; else it fails with
the index of the call, and nothing changes. -/
theorem last_write_wins (calls : List (Nat × List UInt8)) :
    (∀ table row column,
      (called {} calls).cell? table row column = lastValue? (entriesOf calls) table row column) ∧
    (∀ table row, (∃ cells, (called {} calls).row? table row = some cells) ↔
      ∃ e ∈ entriesOf calls, e.table = table ∧ e.row = row) ∧
    (∀ table row cells, (called {} calls).row? table row = some cells →
      cells ≠ ∅ ∧ ∀ column, cells[column]? = (called {} calls).cell? table row column) ∧
    (called {} calls).lastApplied = lastSuccess (answers {} calls) ∧
    ∀ index bytes,
      (∀ e, Entry.decode bytes = .ok e →
        (Raft.StateMachine.apply (called {} calls) index bytes).2 = .ok ()) ∧
      ∀ fault, Entry.decode bytes = .error fault →
        Raft.StateMachine.apply (called {} calls) index bytes =
          (called {} calls, .error (.fatalApply index (Error.codec fault).message)) := by
  have h := reflects_called calls
  refine ⟨h.cells, fun table row => ?_, fun table row cells hrow => ?_, lastApplied_called calls,
    fun index bytes => ⟨fun e he => by rw [apply_of_entry he], fun fault => apply_of_fault⟩⟩
  · rw [← h.rows, Option.isSome_iff_exists]
  · have hcells : ∀ column, cells[column]? = (called {} calls).cell? table row column := fun column => by
      rw [cell?, hrow, Option.bind_some]
    refine ⟨fun hempty => ?_, hcells⟩
    -- some entry was about the row, and left a value in its column
    obtain ⟨e, he, rfl, rfl⟩ := (h.rows table row).mp (Option.isSome_iff_exists.mpr ⟨cells, hrow⟩)
    have hvalue := isSome_lastValue? he
    rw [← h.cells, ← hcells, hempty, ExtTreeMap.getElem?_empty] at hvalue
    cases hvalue

/-- A cell is written twice, with bytes in between that hold no entry, and the name of a column looks like a
part of the name of the row. -/
theorem last_write_wins_of_rewritten_cell :
    let e : Entry := ⟨"t", "r:c", "d", "v"⟩
    let e' : Entry := ⟨"t", "r:c", "d", "w"⟩
    let m := called {} [(1, e.encode), (2, [9]), (3, e'.encode), (4, [])]
    m.cell? "t" "r:c" "d" = some "w" ∧ m.cell? "t" "r" "c:d" = none ∧ m.row? "t" "r" = none ∧
      m.lastApplied = 3 ∧
      (Raft.StateMachine.apply m 5 [9]).2 =
        .error (.fatalApply 5 "Codec error: unsupported log format version 9") := by
  intro e e' m
  have he : e.Sized := by constructor <;> decide +kernel
  have he' : e'.Sized := by constructor <;> decide +kernel
  obtain ⟨hcells, hrows, -, hlast, hcall⟩ :=
    last_write_wins [(1, e.encode), (2, [9]), (3, e'.encode), (4, [])]
  have hversion : Entry.decode [9] = .error (.unsupportedVersion 9) := rfl
  have hempty : Entry.decode [] = .error .emptyEntry := rfl
  have hentries : entriesOf [(1, e.encode), (2, [9]), (3, e'.encode), (4, [])] = [e, e'] := by
    simp [entriesOf, Entry.decode_encode he, Entry.decode_encode he', hversion, hempty, Except.toOption]
  rw [hentries] at hcells hrows
  refine ⟨(hcells _ _ _).trans (by decide), (hcells _ _ _).trans (by decide), ?_, ?_, ?_⟩
  · refine Option.eq_none_iff_forall_ne_some.mpr fun cells hc => ?_
    obtain ⟨x, hx, -, hr⟩ := (hrows "t" "r").mp ⟨cells, hc⟩
    have hall : ∀ x ∈ [e, e'], x.row ≠ "r" := by decide
    exact hall x hx hr
  · refine hlast.trans ?_
    decide +kernel
  · rw [(hcall 5 [9]).2 _ hversion]
    decide +kernel

end Machine

end ReplicatedTable.Table
