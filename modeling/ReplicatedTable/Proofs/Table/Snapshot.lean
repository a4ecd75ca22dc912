import ReplicatedTable.Proofs.Table.Machine

/-!
# Snapshots

A snapshot is read back as the machine it was taken of (`snapshot_restores`), so only equal machines have
equal snapshots. What is restored can always be written down again, and so can what comes of a log
(`Within.applyAll`); therefore a snapshot stands for the entries before it.
-/
namespace ReplicatedTable.Table.Machine

open Std Binary

variable {n : Nat} {m m' : Machine} {bs : List UInt8} {log : List (Nat × List UInt8)}

/-- The index and each text can be written down, and there are fewer than so many tables, rows in a table and
cells in a row. -/
structure Within (n : Nat) (m : Machine) : Prop where
  lastApplied : m.lastApplied < UInt64.size
  tables : Bounded n (Bounded n (Bounded n Brief)) m.tables

/-- All numbers in a machine can be written down in eight bytes. -/
abbrev Sized (m : Machine) : Prop := m.Within UInt64.size

theorem Within.mono {more : Nat} (h : m.Within n) (hle : n ≤ more) : m.Within more where
  lastApplied := h.lastApplied
  tables := h.tables.mono hle fun _ h => h.mono hle fun _ h => h.mono hle fun _ => id

theorem within_empty (h : 0 < n) {index : Nat} (hindex : index < UInt64.size) : Within n ⟨∅, index⟩ where
  lastApplied := hindex
  tables := bounded_empty h

/-! ## Applying entries -/

/-- Applies entries, each with its index. -/
def applyAll (m : Machine) (log : List (Nat × List UInt8)) : Except Error Machine :=
  log.foldlM (fun m p => m.apply p.1 p.2) m

theorem applyAll_cons (m : Machine) (p : Nat × List UInt8) (log : List (Nat × List UInt8)) :
    m.applyAll (p :: log) = m.apply p.1 p.2 >>= fun m => m.applyAll log :=
  List.foldlM_cons

theorem applyAll_append (m : Machine) (front back : List (Nat × List UInt8)) :
    m.applyAll (front ++ back) = m.applyAll front >>= fun m => m.applyAll back :=
  List.foldlM_append

/-- Entries that can be decoded can be applied. -/
theorem exists_applyAll (hlog : ∀ p ∈ log, ∃ e, Entry.decode p.2 = .ok e) (m : Machine) :
    ∃ m', m.applyAll log = .ok m' := by
  induction log generalizing m with
  | nil => exact ⟨m, rfl⟩
  | cons p log ih =>
    obtain ⟨e, he⟩ := hlog p (List.mem_cons_self ..)
    obtain ⟨m', hm'⟩ := ih (fun q hq => hlog q (List.mem_cons_of_mem _ hq)) ⟨upsert m.tables e, p.1⟩
    exact ⟨m', by rw [applyAll_cons, apply_eq_ok_iff.mpr ⟨e, he, rfl⟩]; exact hm'⟩

/-- An entry adds at most one table, one row and one cell. -/
theorem Within.apply {index : Nat} (h : m.Within n) (hn : 0 < n) (hindex : index < UInt64.size)
    (ha : m.apply index bs = .ok m') : m'.Within (n + 1) := by
  obtain ⟨e, he, rfl⟩ := apply_eq_ok_iff.mp ha
  have hsized := (Entry.decode_eq_ok_iff.mp he).1
  have hrows := h.tables.getD hn e.table
  have hrow := hrows.getD hn e.row
  have hrow' := hrow.insert (k := e.column) hsized.column (v := e.value) hsized.value
  have hrows' := hrows.replace (k := e.row) (fun _ h => h.mono n.le_succ fun _ => id) hsized.row hrow'
  exact ⟨hindex, h.tables.replace (k := e.table)
    (fun _ h => h.mono n.le_succ fun _ h => h.mono n.le_succ fun _ => id) hsized.table hrows'⟩

theorem Within.applyAll (h : m.Within n) (hn : 0 < n) (hlog : ∀ p ∈ log, p.1 < UInt64.size)
    (hm : m.applyAll log = .ok m') : m'.Within (n + log.length) := by
  induction log generalizing m n with
  | nil => cases hm; exact h
  | cons p log ih =>
    rw [applyAll_cons] at hm
    obtain ⟨next, hnext, hm⟩ := bind_eq_ok_iff.mp hm
    have hwithin := h.apply hn (hlog p (List.mem_cons_self ..)) hnext
    rw [List.length_cons, Nat.add_comm log.length, ← Nat.add_assoc]
    exact ih hwithin n.succ_pos (fun q hq => hlog q (List.mem_cons_of_mem _ hq)) hm

/-- What comes of a log can be written down unless the log has too many entries or too high indices. -/
theorem sized_of_applyAll (hlength : log.length < UInt64.size) (hlog : ∀ p ∈ log, p.1 < UInt64.size)
    (hm : applyAll {} log = .ok m) : m.Sized := by
  have hempty : Within 1 {} := within_empty Nat.one_pos (by decide)
  exact (hempty.applyAll Nat.one_pos hlog hm).mono (by omega)

/-! ## Restoring -/

theorem tables_restores : Restores (readMap (readMap (readMap readText))) (map (map (map text)))
    (Bounded UInt64.size (Bounded UInt64.size (Bounded UInt64.size Brief))) :=
  map_restores (map_restores (map_restores text_exact.toRestores))

theorem snapshot_restores : Restores readSnapshot snapshot Sized where
  read_write {m} h rest := by
    have htables := tables_restores.read_write h.tables rest
    rw [snapshot, List.append_assoc]
    exact bind_eq_ok_iff.mpr ⟨_, length_exact.read_write h.lastApplied _,
      bind_eq_ok_iff.mpr ⟨_, htables, rfl⟩⟩
  fits {m bs rest} hr := by
    obtain ⟨⟨lastApplied, bs'⟩, hnumber, hr⟩ := bind_eq_ok_iff.mp hr
    obtain ⟨⟨tables, bs''⟩, htables, hr⟩ := bind_eq_ok_iff.mp hr
    cases hr
    exact ⟨length_exact.fits hnumber, tables_restores.fits htables⟩

theorem restore_snapshot (h : m.Sized) : restore m.snapshot = .ok m := by
  have hread := snapshot_restores.read_write h []
  rw [List.append_nil] at hread
  rw [restore, hread]

/-- A machine that restores itself from bytes and stays as it is if it cannot. -/
def restored (m : Machine) (bytes : List UInt8) : Machine × Except Error Unit :=
  match restore bytes with
  | .ok m => (m, .ok ())
  | .error fault => (m, .error fault)

theorem restored_snapshot (h : m.Sized) (prior : Machine) : prior.restored m.snapshot = (m, .ok ()) := by
  rw [restored, restore_snapshot h]

/-- Bytes that hold no machine change nothing; those that hold one hold one that can be written down. -/
theorem restored_cases (prior : Machine) (bytes : List UInt8) :
    (∃ fault, prior.restored bytes = (prior, .error (.codec fault))) ∨
    ∃ m : Machine, m.Sized ∧ prior.restored bytes = (m, .ok ()) := by
  unfold restored restore
  cases hr : readSnapshot bytes with
  | error fault => exact .inl ⟨fault, rfl⟩
  | ok p => exact .inr ⟨p.1, snapshot_restores.fits hr, rfl⟩

/-- After the snapshot of what comes of the front of a log a machine goes on as a new one does after the
front itself. -/
theorem resume_restored (front back : List (Nat × List UInt8)) (prior : Machine)
    (hlength : front.length < UInt64.size) (hindices : ∀ p ∈ front, p.1 < UInt64.size)
    (hlog : ∀ p ∈ front ++ back, ∃ e, Entry.decode p.2 = .ok e) :
    ∃ m whole : Machine, applyAll {} front = .ok m ∧ applyAll {} (front ++ back) = .ok whole ∧
      (prior.restored m.snapshot).2 = .ok () ∧
      (prior.restored m.snapshot).1.applyAll back = .ok whole := by
  obtain ⟨m, hm⟩ := exists_applyAll (fun p hp => hlog p (List.mem_append_left _ hp)) {}
  obtain ⟨whole, hwhole⟩ := exists_applyAll (fun p hp => hlog p (List.mem_append_right _ hp)) m
  refine ⟨m, whole, hm, ?_, ?_⟩
  · rw [applyAll_append, hm]
    exact hwhole
  · rw [restored_snapshot (sized_of_applyAll hlength hindices hm)]
    exact ⟨rfl, hwhole⟩

theorem snapshot_eq_iff (h : m.Sized) (h' : m'.Sized) :
    m.snapshot = m'.snapshot ↔ m.tables = m'.tables ∧ m.lastApplied = m'.lastApplied := by
  constructor
  · intro hs
    have he := snapshot_restores.eq_of_prefix h h' (hs ▸ List.prefix_rfl)
    exact ⟨congrArg tables he, congrArg lastApplied he⟩
  · rintro ⟨htables, hlast⟩
    rw [snapshot, snapshot, htables, hlast]

/-- A snapshot stands for the entries before it. Snapshots are equal just if tables and indices are. And bytes
are either refused, and the machine stays as it is, or they leave a machine that its own snapshot restores.
Indices and lengths are assumed to be such as eight bytes can hold. -/
theorem snapshots_canonical :
    (∀ (front back : List (Nat × List UInt8)) (prior : Machine), front.length < UInt64.size →
      (∀ p ∈ front, p.1 < UInt64.size) → (∀ p ∈ front ++ back, ∃ e, Entry.decode p.2 = .ok e) →
      ∃ m whole : Machine, applyAll {} front = .ok m ∧ applyAll {} (front ++ back) = .ok whole ∧
        (prior.restored m.snapshot).2 = .ok () ∧
        (prior.restored m.snapshot).1.applyAll back = .ok whole) ∧
    (∀ m m' : Machine, m.Sized → m'.Sized →
      (m.snapshot = m'.snapshot ↔ m.tables = m'.tables ∧ m.lastApplied = m'.lastApplied)) ∧
    ∀ (prior : Machine) (bytes : List UInt8),
      ((prior.restored bytes).1 = prior ∧ ∃ fault, (prior.restored bytes).2 = .error (.codec fault)) ∨
      ((prior.restored bytes).2 = .ok () ∧
        (prior.restored bytes).1.restored (prior.restored bytes).1.snapshot =
          ((prior.restored bytes).1, .ok ())) := by
  refine ⟨resume_restored, fun _ _ => snapshot_eq_iff, fun prior bytes => ?_⟩
  obtain ⟨fault, h⟩ | ⟨m, hm, h⟩ := restored_cases prior bytes <;> rw [h]
  · exact .inl ⟨rfl, fault, rfl⟩
  · exact .inr ⟨rfl, restored_snapshot hm m⟩

/-- A cell is written twice and the snapshot is taken in between; an empty machine differs from one that has
only counted on. -/
theorem snapshots_canonical_of_two_writes :
    let e : Entry := ⟨"t", "r", "c", "v"⟩
    let e' : Entry := ⟨"t", "r", "c", "w"⟩
    (∃ m whole : Machine, applyAll {} [(1, e.encode)] = .ok m ∧
      applyAll {} [(1, e.encode), (2, e'.encode)] = .ok whole ∧
      (restored ⟨∅, 7⟩ m.snapshot).2 = .ok () ∧
      (restored ⟨∅, 7⟩ m.snapshot).1.applyAll [(2, e'.encode)] = .ok whole) ∧
    snapshot {} ≠ snapshot ⟨∅, 1⟩ := by
  intro e e'
  have he : e.Sized := by constructor <;> decide +kernel
  have he' : e'.Sized := by constructor <;> decide +kernel
  obtain ⟨hreplace, hequal, -⟩ := snapshots_canonical
  refine ⟨hreplace [(1, e.encode)] [(2, e'.encode)] ⟨∅, 7⟩ (by decide) ?_ ?_, fun hs => ?_⟩
  · intro p hp
    cases List.mem_singleton.mp hp
    decide
  · intro p hp
    rcases List.mem_cons.mp hp with rfl | hp
    · exact ⟨e, Entry.decode_encode he⟩
    · cases List.mem_singleton.mp hp
      exact ⟨e', Entry.decode_encode he'⟩
  · have hsized : ∀ index < UInt64.size, Sized ⟨∅, index⟩ := fun _ => within_empty (by decide)
    have hlast := ((hequal {} ⟨∅, 1⟩ (hsized 0 (by decide)) (hsized 1 (by decide))).mp hs).2
    exact absurd hlast (by decide)

/-- Tables out of order and bytes after them leave no trace. -/
example :
    (restored {} (number 8 7 ++ number 8 2 ++ text "b" ++ number 8 0 ++ text "a" ++ number 8 0 ++
      [9])).1.snapshot = number 8 7 ++ number 8 2 ++ text "a" ++ number 8 0 ++ text "b" ++ number 8 0 := by
  decide +kernel

end ReplicatedTable.Table.Machine
