import Mathlib.Data.List.Induction
import ReplicatedTable.Cluster.Scripted
import ReplicatedTable.Membership.Bridge
import ReplicatedTable.Proofs.Gossip.Recollection
import ReplicatedTable.Proofs.Membership.Record

/-!
# What gossip makes of membership

The bridge takes reports of single members one by one, and the world may have moved before each of them
(`attend`). What comes of it can be read off the reports, without the store: a leader asks for one voter for
each well-formed member that joins (`admissions`), and a name is recorded as it was last seen, with the status
that was last reported of it (`recorded`).
-/
namespace ReplicatedTable.Membership

open Std Gossip Text

variable {ω α β : Type} {x : String}

/-! ## Reports and records -/

/-- The record that a report asks for under a name. -/
def sighting? (x : String) : EventKind × Member → Option Record
  | (.join, m) | (.update, m) => if m.name = x then described? m else none
  | _ => none

/-- How the bearer of a name is gone by a report. -/
def departure? (x : String) : EventKind × Member → Option Presence
  | (.leave, m) => if m.name = x then some .left else none
  | (.failed, m) => if m.name = x then some .failed else none
  | _ => none

/-- The status that a report gives to a name. -/
def verdict? (x : String) (r : EventKind × Member) : Option Presence :=
  ((sighting? x r).map Record.status).or (departure? x r)

/-- What the last of those says that say anything. -/
def latest (f : α → Option β) (l : List α) : Option β := l.reverse.findSome? f

/-- The record of a name after some reports: as it was last seen, with the status last reported. -/
def recorded (x : String) (rs : List (EventKind × Member)) : Option Record := do
  let r ← latest (sighting? x) rs
  let status ← latest (verdict? x) rs
  return { r with status }

namespace Store

/-- What the store makes of a report. -/
def note (s : Store) : EventKind × Member → Store
  | (.join, m) | (.update, m) => Bridge.update s m
  | (.leave, m) => Bridge.depart .left s m
  | (.failed, m) => Bridge.depart .failed s m
  | (.reap, _) => s

theorem lookup_insert (s : Store) (r : Record) (x : String) :
    (s.insert r).lookup x = if r.id = x then some r else s.lookup x :=
  getElem?_insert ..

theorem add_cases (s : Store) (m : Member) :
    (described? m = none ∧ ∃ fault, s.add m = .error fault) ∨
    ∃ r, described? m = some r ∧ s.add m = .ok (s.insert r, r) := by
  rw [← toOption_ofMember, Store.add]
  cases Record.ofMember m with
  | error fault => exact .inl ⟨rfl, fault, rfl⟩
  | ok r => exact .inr ⟨r, rfl, rfl⟩

theorem lookup_update (s : Store) (m : Member) (x : String) :
    (Bridge.update s m).lookup x =
      (if m.name = x then described? m else none).or (s.lookup x) := by
  unfold Bridge.update
  obtain ⟨hm, _, hadd⟩ | ⟨r, hm, hadd⟩ := s.add_cases m <;> simp only [hadd, hm]
  · rw [ite_self, Option.none_or]
  · rw [lookup_insert, id_of_described hm]
    split <;> rfl

theorem lookup_depart (s : Store) (m : Member) (status : Presence) (x : String) :
    (Bridge.depart status s m).lookup x = (s.lookup x).map fun r =>
      { r with status := (if m.name = x then some status else none).getD r.status } := by
  unfold Bridge.depart mark
  by_cases hx : m.name = x
  · subst hx
    cases hr : s.records[m.name]? <;> simp [lookup, hr]
  · cases hr : s.records[m.name]? <;> simp [lookup, hx, getElem?_insert]

theorem lookup_note (s : Store) (r : EventKind × Member) (x : String) :
    (s.note r).lookup x = (sighting? x r).or
      ((s.lookup x).map fun old => { old with status := (departure? x r).getD old.status }) := by
  obtain ⟨kind, m⟩ := r
  cases kind with
  | join | update => simp [note, lookup_update, sighting?, departure?]
  | leave | failed => simp [note, lookup_depart, sighting?, departure?]
  | reap => simp [note, sighting?, departure?]

end Store

end ReplicatedTable.Membership

namespace ReplicatedTable.Host

end ReplicatedTable.Host

namespace ReplicatedTable.Membership.Bridge
open Std Gossip Text

/-! ## Taking reports -/

/-- A report that is taken at some time. -/
structure Occasion (ω : Type) where
  /-- What the world has come to since the report before. -/
  meanwhile : ω → ω
  report : EventKind × Member

namespace Occasion

/-- The reports of some events, while the world moves on as told. -/
def ofEvents (elsewhere : Nat → ω → ω) (es : List Event) : List (Occasion ω) :=
  (es.flatMap Event.reports).mapIdx fun k r => ⟨elsewhere k, r⟩

end Occasion

/-- The worlds that the reports are taken in. -/
def settings (h : Host ω) (timeout : Nat) : ω × Store → List (Occasion ω) → List ω
  | _, [] => []
  | s, o :: os =>
    o.meanwhile s.1 ::
      settings h timeout (take h timeout (o.meanwhile s.1, s.2) o.report.2 o.report.1) os

theorem take_store (h : Host ω) (timeout : Nat) (s : ω × Store) (m : Member) (kind : EventKind) :
    (take h timeout s m kind).2 = s.2.note (kind, m) := by
  cases kind with
  | join =>
    simp only [take, join, Store.note, update]
    cases s.2.add m with
    | error _ => rfl
    | ok p => dsimp only; split <;> rfl
  | leave | failed | reap | update => rfl

/-- An update without an address does not bring back who has failed. -/
example : recorded "b" [(.join, ⟨"b", "b:7946", (∅ : Tags).insert addressTag " b:9000 ", .leaving⟩),
    (.failed, ⟨"b", "b:7946", ∅, .failed⟩), (.update, ⟨"b", "b:7947", ∅, .alive⟩)] =
    some ⟨"b", "b:7946", "b:9000", .failed⟩ := by
  decide +kernel

end ReplicatedTable.Membership.Bridge
