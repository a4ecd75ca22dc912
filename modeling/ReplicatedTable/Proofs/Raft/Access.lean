import ReplicatedTable.Proofs.Raft.Append

/-!
# Places in a log

Fronts and rests of a log are defined wherever they are cut. Here are the functions on replicas once more with
every single place that they read or write, and without an answer where the log has no such place:
`applyWithin?` reads the entries that it applies one by one, `appendWithin?` looks for the entry before the new
ones and puts these in one at a time, and `receiveWithin?` cuts what a leader sends out of its log.

They always have an answer, and it is that of the functions which they trace (`applyWithin?_eq`,
`appendWithin?_eq`, `receiveWithin?_eq`), if a replica applies no more than its log and a message starts within
the log that it comes to. A message that brings a peer in line does so, as it starts where the two logs part.
-/
namespace ReplicatedTable.Raft

namespace Log

/-- The entries behind the first `k`, which the log must have. -/
def rest? (log : Log) (k : Nat) : Option Log := if k ≤ log.length then some (log.drop k) else none

/-- The term at an index, zero at index zero. The log must have the entry. -/
def termAt? (log : Log) : (index : Nat) → Option Nat
  | 0 => some 0
  | k + 1 => (log[k]?).map Entry.term

/-- Puts entries in as `placeAll` does. The place of each must be in the log, or right behind its end. -/
def placeWithin? (log : Log) (applied pos : Nat) : Log → Option (Log × Except Nat Unit)
  | [] => some (log, .ok ())
  | e :: es =>
    if log.length < pos then none
    else
      match place log applied pos e with
      | .ok log => placeWithin? log applied (pos + 1) es
      | .error index => some (log, .error index)

variable {log : Log} {applied pos k : Nat}

theorem rest?_eq (h : k ≤ log.length) : log.rest? k = some (log.drop k) := if_pos h

theorem termAt?_eq (h : k ≤ log.length) :
    log.termAt? k = some (((log.at? k).map Entry.term).getD 0) := by
  cases k with
  | zero => rfl
  | succ k => simp [termAt?, at?, List.getElem?_eq_getElem h]

/-- An entry that was put in has its place. -/
theorem lt_length_of_place {e : Entry} {log' : Log} (hpos : pos ≤ log.length)
    (h : place log applied pos e = .ok log') : pos < log'.length := by
  unfold place at h
  split at h
  · cases h
    rw [List.length_append, List.length_singleton]
    omega
  · rename_i old hold
    have hlt := (List.getElem?_eq_some_iff.mp hold).1
    split at h
    · cases h
      exact hlt
    · split at h
      · cases h
      · cases h
        rw [List.length_append, List.length_singleton, List.length_take]
        omega

theorem placeWithin?_eq : ∀ (es log : Log) {pos : Nat}, pos ≤ log.length →
    placeWithin? log applied pos es = some (placeAll log applied pos es)
  | [], _, _, _ => rfl
  | e :: es, log, pos, hpos => by
    unfold placeWithin? placeAll
    rw [if_neg (Nat.not_lt_of_le hpos)]
    cases hplace : place log applied pos e with
    | error index => rfl
    | ok log' => exact placeWithin?_eq es log' (lt_length_of_place hpos hplace)

end Log

namespace Replica

variable {σ : Type} [StateMachine σ]

/-! ## Applying -/

/-- Applies a number of entries, and reads each from its place in the log. -/
def applyNext? (r : Replica σ) : (count : Nat) → Option (Replica σ × Except Error Unit)
  | 0 => some (r, .ok ())
  | count + 1 =>
    (r.log[r.applied]?).bind fun e =>
      match StateMachine.apply r.machine (r.applied + 1) e.data with
      | (machine, .ok ()) =>
        applyNext? { r with machine := machine, applied := r.applied + 1 } count
      | (machine, .error err) =>
        some ({ r with machine := machine, halted := some err.message }, .error err)

/-- Applies what the log holds up to an index. -/
def applyWithin? (r : Replica σ) (index : Nat) : Option (Replica σ × Except Error Unit) :=
  match r.halted with
  | some reason => some (r, .error (.consensus (.halted reason)))
  | none => r.applyNext? (index - r.applied)

theorem applyNext?_eq : ∀ (count : Nat) {r : Replica σ}, r.applied + count ≤ r.log.length →
    r.applyNext? count = some (r.applyEntries ((r.log.drop r.applied).take count))
  | 0, _, _ => rfl
  | count + 1, r, h => by
    have hlt : r.applied < r.log.length := by omega
    rw [List.drop_eq_getElem_cons hlt, List.take_succ_cons]
    unfold applyNext? applyEntries
    rw [List.getElem?_eq_getElem hlt, Option.bind_some]
    cases StateMachine.apply r.machine (r.applied + 1) r.log[r.applied].data with
    | mk machine answer =>
      cases answer with
      | error err => rfl
      | ok u =>
        have hnext : r.applied + 1 + count ≤ r.log.length := by omega
        exact applyNext?_eq count (r := { r with machine := machine, applied := r.applied + 1 }) hnext

theorem applyWithin?_eq {r : Replica σ} {index : Nat} (h : index ≤ r.log.length) :
    r.applyWithin? index = some (r.applyUpTo index) := by
  unfold applyWithin? applyUpTo
  cases r.halted with
  | some reason => rfl
  | none =>
    dsimp only
    rw [List.drop_take]
    by_cases hle : index ≤ r.applied
    · rw [Nat.sub_eq_zero_of_le hle, List.take_zero]
      rfl
    · exact applyNext?_eq _ (by omega)

/-- One entry cannot be applied up to the second. -/
example : ({ id := "n1", address := "a1", machine := {}, log := [⟨1, []⟩] : Replica Recorder}.applyWithin?
    2).isNone := by decide

/-! ## Taking entries -/

/-- Takes entries as `append` does. The log must have the entry at `prev`. -/
def appendWithin? (r : Replica σ) (term : Nat) (leader : String) (prev prevTerm : Nat) (entries : Log)
    (commit : Nat) : Option (Replica σ × Except Reject Nat) :=
  match r.observe term leader with
  | .error reject => some (r, .error reject)
  | .ok r =>
    if r.halted.isSome then some (r, .error .halted)
    else
      (r.log.termAt? prev).bind fun found =>
        if prev ≠ 0 ∧ found ≠ prevTerm then some (r, .error (.mismatch prev))
        else
          (Log.placeWithin? r.log r.applied prev entries).bind fun
            | (log, .error index) => some ({ r with log := log }, .error (.conflict index))
            | (log, .ok ()) =>
              ({ r with log := log }.applyWithin? (min commit log.length)).bind fun
                | (r, .ok ()) => some (r, .ok log.length)
                | (r, .error _) => some (r, .error .halted)

/-- What a leader sends to bring a follower in line, cut out of the leader's log. -/
def receiveWithin? (follower leader : Replica σ) (term : Nat) : Option (Replica σ × Except Reject Nat) :=
  let prev := Log.agreement leader.log follower.log
  (leader.log.termAt? prev).bind fun prevTerm =>
    (leader.log.rest? prev).bind fun entries =>
      follower.appendWithin? term leader.address prev prevTerm entries leader.applied

theorem appendWithin?_eq {r : Replica σ} {prev : Nat} (h : prev ≤ r.log.length) (term : Nat)
    (leader : String) (prevTerm : Nat) (entries : Log) (commit : Nat) :
    r.appendWithin? term leader prev prevTerm entries commit =
      some (r.append term leader prev prevTerm entries commit) := by
  unfold appendWithin? append
  rw [observe_eq]
  by_cases hs : r.stopped = true
  · simp [hs]
  by_cases ht : term < r.term
  · simp [hs, ht]
  rw [if_neg hs, if_neg ht]
  dsimp only
  generalize hf : r.follow term leader = f
  have hf' : prev ≤ f.log.length := by rw [← hf, follow_log]; exact h
  by_cases hh : f.halted.isSome
  · simp [hh]
  rw [if_neg hh, if_neg hh, Log.termAt?_eq hf', Option.bind_some]
  have hfound : prev ≠ 0 → ((f.log.at? prev).map Entry.term) =
      some (((f.log.at? prev).map Entry.term).getD 0) := fun h0 => by
    obtain ⟨k, rfl⟩ := Nat.exists_eq_succ_of_ne_zero h0
    simp [Log.at?, List.getElem?_eq_getElem hf']
  have hsame : (prev ≠ 0 ∧ ((f.log.at? prev).map Entry.term).getD 0 ≠ prevTerm) ↔
      (prev ≠ 0 ∧ (f.log.at? prev).map Entry.term ≠ some prevTerm) :=
    and_congr_right fun h0 => by rw [hfound h0]; simp
  by_cases hm : prev ≠ 0 ∧ (f.log.at? prev).map Entry.term ≠ some prevTerm
  · rw [if_pos hm, if_pos (hsame.mpr hm)]
  rw [if_neg hm, if_neg (mt hsame.mp hm), Log.placeWithin?_eq entries f.log hf', Option.bind_some,
    Log.placeAll_eq entries hf']
  cases Log.splice f.log f.applied prev entries with
  | error index => rfl
  | ok log =>
    dsimp only
    rw [applyWithin?_eq (Nat.min_le_right ..), Option.bind_some]
    cases applyUpTo { f with log := log } (min commit log.length) with
    | mk r answer => cases answer <;> rfl

/-- Entries cannot be put behind the second entry of a log of one. -/
example : ({ id := "n1", address := "a1", machine := {}, log := [⟨1, []⟩] : Replica Recorder}.appendWithin?
    1 "a2" 2 1 [] 0).isNone := by decide

/-- A message that is to bring a follower in line starts within both logs. -/
theorem receiveWithin?_eq (follower leader : Replica σ) (term : Nat) :
    follower.receiveWithin? leader term = some (follower.receive leader term) := by
  unfold receiveWithin? receive
  have hl := Log.agreement_le_left leader.log follower.log
  dsimp only
  rw [Log.termAt?_eq hl, Option.bind_some, Log.rest?_eq hl, Option.bind_some]
  exact appendWithin?_eq (Log.agreement_le_right ..) ..

end Replica

end ReplicatedTable.Raft
