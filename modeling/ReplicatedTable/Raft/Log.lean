import ReplicatedTable.Error

/-!
# Replicated logs, and the machines behind them

A log is a list of entries; the entry at index `i` is the `i`-th, counted from one. Entries are compared by
their terms only. `splice` is what a follower does with the entries that a leader sends: those that it has
stay, a suffix that conflicts is replaced, and an entry that was applied already is never replaced.

A replica applies the committed entries of its log to a machine. A machine that fails leaves the replica halted,
in whatever state it is then.
-/
namespace ReplicatedTable.Raft

structure Entry where
  term : Nat
  data : List UInt8
  deriving DecidableEq, Repr

abbrev Log := List Entry

namespace Log

/-- The entry at an index, none at index zero. -/
def at? (log : Log) : Nat → Option Entry
  | 0 => none
  | i + 1 => log[i]?

/-- The term of the last entry, zero if there is none.
mirrors `RaftInner.log_position`, its first part -/
def lastTerm (log : Log) : Nat := (log.getLast?).elim 0 Entry.term

/-- How many entries at the front of two logs have the same terms.
mirrors the search for the matching front in `RaftInner.sync_peer` -/
def agreement : Log → Log → Nat
  | a :: as, b :: bs => if a.term = b.term then agreement as bs + 1 else 0
  | _, _ => 0

/-- Puts entries behind the first `pos` entries of a log. The result is the new log, or the index of an
entry that conflicts though it is among the first `applied`.
mirrors the loop over the entries in `RaftInner.append` -/
def splice (log : Log) (applied pos : Nat) : Log → Except Nat Log
  | [] => .ok log
  | e :: es =>
    match log[pos]? with
    | none => .ok (log ++ e :: es)
    | some old =>
      if old.term = e.term then splice log applied (pos + 1) es
      else if pos < applied then .error (pos + 1)
      else .ok (log.take pos ++ e :: es)

/-- Whether a log is at most as recent as another, by the last term and then by the length.
mirrors the comparison of logs in `MemoryRaft.campaign` -/
def upToDate (log other : Log) : Bool :=
  lastTerm log < lastTerm other || (lastTerm log == lastTerm other && log.length ≤ other.length)

end Log

class StateMachine (σ : Type) where
  /-- Applies the entry at an index. -/
  apply : σ → (index : Nat) → (data : List UInt8) → σ × Except Error Unit

end ReplicatedTable.Raft
