import ReplicatedTable.Proofs.Raft.Durability
import ReplicatedTable.Proofs.Raft.Exchange
import ReplicatedTable.Proofs.Raft.Matching

/-!
# Logs of a closed group

At every point of a run of a closed group some chronicle has all logs on record (`ClosedRun.recorded`), also
while the group is still being formed. Logs on record go together (`Recorded.concordant`): those that have
entries of one term at one place are the same up to there, terms never fall along them, and the front on which
two of them agree by the terms is the same in both.

A leader compares logs in the middle of an operation, when it has appended an entry that nobody else has, and
when some of its peers have taken it. The chronicle goes on with that entry (`Recorded.written`), and then it
has the two logs on record between which any message passes (`Recorded.message`).
-/
namespace ReplicatedTable.Raft

variable {σ : Type}

namespace Log

/-- Terms never fall along the log. -/
def Ascending (log : Log) : Prop := log.Pairwise fun x y => x.term ≤ y.term

/-- Two logs go together. -/
structure Concordant (a b : Log) : Prop where
  same : Matches a b
  front : a.take (agreement a b) = b.take (agreement a b)
  ascending : a.Ascending ∧ b.Ascending

end Log

namespace Chronicle
open Log

variable {g : Chronicle} {a b : Log}

theorem Traced.front (hb : g.Traced b) (h : a <+: b) : g.Traced a := by
  intro k e hk
  obtain ⟨rest, rfl⟩ := h
  have hlt := (List.getElem?_eq_some_iff.mp hk).1
  have hfull := hb k e ((List.getElem?_append_left hlt).trans hk)
  rwa [List.take_append_of_le_length hlt] at hfull

/-- What stands before an entry stands in the book of its term. -/
theorem Traced.ascending (hg : g.Coherent) (h : g.Traced a) : a.Ascending := by
  rw [Ascending, List.pairwise_iff_getElem]
  intro j k hj hk hjk
  obtain ⟨helected, hpre⟩ := h k _ (List.getElem?_eq_getElem hk)
  refine hg.bounded _ helected _ (hpre.subset ?_)
  exact List.mem_take_iff_getElem.mpr ⟨j, by omega, rfl⟩

theorem Traced.concordant (hg : g.Coherent) (ha : g.Traced a) (hb : g.Traced b) : Concordant a b :=
  ⟨ha.matches hb, (ha.matches hb).front, ha.ascending hg, hb.ascending hg⟩

end Chronicle

namespace Network
open Replica Chronicle Log

/-- All logs are on record, and a leader has the book of its term. -/
structure Recorded (g : Chronicle) (n : Network σ) : Prop where
  coherent : g.Coherent
  logs : n.Everywhere (Logged g.Traced)
  leaders : ∀ (i : Nat) (r : Replica σ), n.replicas[i]? = some r → r.leader = true →
    g.Elected r.term ∧ r.log = g.book r.term

variable {founder : Nat} {setup work : List (Op σ)} {voters : Voters} {g : Chronicle} {n : Network σ}

theorem Sound.recorded (h : n.Sound voters g) : n.Recorded g where
  coherent := h.coherent
  logs i r hr := ⟨(h.fits i r hr).bound, (h.fits i r hr).traced⟩
  leaders i r hr hl := by
    obtain ⟨hlead, hbook, -⟩ := (h.fits i r hr).leads hl
    exact ⟨elected_of_leader hlead, hbook⟩

/-- While a group is formed, everybody has a front of what its founder has written. -/
theorem Forming.recorded {whole : Log} (h : n.Forming founder voters whole) :
    n.Recorded (Chronicle.first founder whole) where
  coherent := first_coherent h.terms
  logs i r hr :=
    ⟨(h.seated i r hr).bound, (first_traced h.terms).front (h.seated i r hr).log_front⟩
  leaders i r hr hl := by
    have hseat := h.seated i r hr
    obtain ⟨-, hterm, hlog⟩ := hseat.member (hseat.member_of_leader hl)
    exact ⟨first_elected.mpr hterm, hlog⟩

namespace Recorded

theorem concordant (h : n.Recorded g) {i j : Nat} {r f : Replica σ} (hr : n.replicas[i]? = some r)
    (hf : n.replicas[j]? = some f) : Concordant r.log f.log :=
  (h.logs i r hr).2.concordant h.coherent (h.logs j f hf).2

/-- The chronicle goes on with what a leader appends. -/
theorem pushed (h : n.Recorded g) {i : Nat} {r : Replica σ} (hr : n.replicas[i]? = some r)
    (hl : r.leader = true) (data : List UInt8) :
    (g.write ⟨r.term, data⟩).Coherent ∧ n.Everywhere (Logged (g.write ⟨r.term, data⟩).Traced) ∧
      Logged (g.write ⟨r.term, data⟩).Traced (r.pushed data) := by
  obtain ⟨helected, hbook⟩ := h.leaders i r hr hl
  have hcoherent : (g.write ⟨r.term, data⟩).Coherent := h.coherent.write helected
  refine ⟨hcoherent, fun j f hf => ⟨(h.logs j f hf).1, (h.logs j f hf).2.extends write_extends⟩,
    (h.logs i r hr).1.pushed data, ?_⟩
  have hlog : (r.pushed data).log = (g.write ⟨r.term, data⟩).book r.term := by
    rw [show (r.pushed data).log = r.log ++ [⟨r.term, data⟩] from rfl, hbook]
    exact (write_book_self (e := ⟨r.term, data⟩)).symm
  rw [hlog]
  exact hcoherent.traced r.term helected

/-- Whatever an operation appends, some chronicle has it on record with all logs. -/
theorem written (h : n.Recorded g) (op : Op σ) : ∃ g' : Chronicle, g'.Coherent ∧
    n.Everywhere (Logged g'.Traced) ∧ ∀ i data r, op = .submit i data → n.replica? i = some r →
      r.leader = true → Logged g'.Traced (r.pushed data) := by
  by_cases hop : ∃ i data r, op = .submit i data ∧ n.replica? i = some r ∧ r.leader = true
  · obtain ⟨i, data, r, rfl, hr, hl⟩ := hop
    obtain ⟨hcoherent, hlogs, hpushed⟩ := h.pushed (replica?_eq_some.mp hr).1 hl data
    refine ⟨_, hcoherent, hlogs, fun i' data' r' e hr' _ => ?_⟩
    cases e
    rw [hr] at hr'
    cases hr'
    exact hpushed
  · exact ⟨g, h.coherent, h.logs, fun i data r e hr hl => absurd ⟨i, data, r, e, hr, hl⟩ hop⟩

variable [StateMachine σ]

theorem message (h : n.Recorded g) (hw : n.Wired) {op : Op σ} {m : Message σ} (hm : n.Sends op m) :
    Concordant m.leader.log m.peer.log := by
  obtain ⟨g', hcoherent, hlogs, hpush⟩ := h.written op
  obtain ⟨hleader, hpeer, -⟩ := hm.both hw (logged_lasting fun _ _ ha hb => (ha.merge hb).1) hlogs hpush
  exact hleader.2.concordant hcoherent hpeer.2

end Recorded

variable [StateMachine σ]

theorem ClosedRun.recorded (h : ClosedRun founder setup work) (k : Nat) :
    ∃ g, (after (setup ++ work) k).Recorded g := by
  cases h.secured_nil k with
  | forming _ hforming => exact ⟨_, hforming.recorded⟩
  | closed _ hsound => exact ⟨_, hsound.recorded⟩

/-- At any point of a run of a closed group any two logs go together, and so do the two logs between which any
message of a next operation passes. -/
theorem logs_concordant_of_closed (h : ClosedRun founder setup work) (k : Nat) :
    (∀ (i j : Nat) (r f : Replica σ), (after (setup ++ work) k).replicas[i]? = some r →
      (after (setup ++ work) k).replicas[j]? = some f → Concordant r.log f.log) ∧
    ∀ op m, (after (setup ++ work) k).Sends op m → Concordant m.leader.log m.peer.log := by
  obtain ⟨g, hg⟩ := h.recorded k
  exact ⟨fun i j r f hr hf => hg.concordant hr hf, fun op m hm => hg.message (wired_after _ k) hm⟩

/-- Three replicas form a group. The second one is going to fail. -/
def fragile : List (Op Recorder) :=
  [.register "n1" "a1" {}, .register "n2" "a2" pickyRecorder, .register "n3" "a3" {}, .bootstrap 0,
    .addVoter 0 "n2" "a2" 0, .addVoter 0 "n3" "a3" 0, .submit 0 [1]]

/-- The second replica halts on the second entry, so that neither the third entry of the first leader nor that
of the next one is acknowledged. -/
def division : List (Op Recorder) :=
  [.submit 0 [2], .isolate "a3", .submit 0 [3], .isolate "a1", .heal "a3", .campaign 2, .submit 2 [4],
    .heal "a1"]

/-- The logs of the two leaders part at the third entry, and a peer refuses what it is sent next. -/
theorem logs_concordant_of_closed_division :
    ClosedRun 0 fragile division ∧
    (∃ r f, (after (fragile ++ division) 15).replicas[0]? = some r ∧
      (after (fragile ++ division) 15).replicas[2]? = some f ∧
      r.log = [⟨1, [1]⟩, ⟨1, [2]⟩, ⟨1, [3]⟩] ∧ f.log = [⟨1, [1]⟩, ⟨1, [2]⟩, ⟨2, [4]⟩] ∧
      Concordant r.log f.log) ∧
    ∃ m, (after (fragile ++ division) 15).Sends (.submit 2 [5]) m ∧ m.answer = .error .halted ∧
      Concordant m.leader.log m.peer.log := by
  have hclosed : ClosedRun 0 fragile division := by decide +kernel
  obtain ⟨hlogs, hmessages⟩ := logs_concordant_of_closed hclosed 15
  have hr : ((after (fragile ++ division) 15).replicas[0]?).map Replica.log =
      some [⟨1, [1]⟩, ⟨1, [2]⟩, ⟨1, [3]⟩] := by decide +kernel
  have hf : ((after (fragile ++ division) 15).replicas[2]?).map Replica.log =
      some [⟨1, [1]⟩, ⟨1, [2]⟩, ⟨2, [4]⟩] := by decide +kernel
  have hrefused : Reject.halted ∈ (((after (fragile ++ division) 15).step
      (.submit 2 [5])).refusals.map Refusal.reject) := by decide +kernel
  obtain ⟨r, hr, hrlog⟩ := Option.map_eq_some_iff.mp hr
  obtain ⟨f, hf, hflog⟩ := Option.map_eq_some_iff.mp hf
  obtain ⟨m, hm, hans⟩ := (mem_refusals_iff (wired_after _ 15) _ _).mp hrefused
  exact ⟨hclosed, ⟨r, f, hr, hf, hrlog, hflog, hlogs 0 2 r f hr hf⟩, m, hm, hans,
    hmessages _ m hm⟩

end Network

end ReplicatedTable.Raft
