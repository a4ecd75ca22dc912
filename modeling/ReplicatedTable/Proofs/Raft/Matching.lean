import Mathlib.Data.List.Induction
import ReplicatedTable.Proofs.Raft.Acknowledgement

/-!
# Logs that match

Replicas compare entries by their terms and take those of one term at one place for the same. They are the
same if all logs match, which is so in every run in which no two replicas ever come to lead at one term
(`run_matched`).

The argument goes over the logs that there are after a step. Merging two logs that match gives one of the two,
so each of these logs was there before, or is empty, or is a leader's log with a new entry behind it
(`Source`). Nobody has another entry of the leader's term at the place of the new one, as the leader holds all
entries of its term.
-/
namespace ReplicatedTable.Raft

variable {σ : Type} [StateMachine σ]

namespace Replica

/-- As long as nothing is written, a log stays, or a leader's log is merged into it. -/
theorem Change.log_cases {R : Rules σ} (hR : ¬R.writing) {r r' : Replica σ} (hc : Change R r r')
    (hb : r.Bounded) : r'.log = r.log ∨ ∃ leader : Replica σ, R.sender leader ∧
      r'.log = Log.merge r.log leader.log := by
  cases hc with
  | push data hw => exact absurd hw hR
  | @receive leader hs hl term =>
    rcases receive_log_cases hb leader term with e | e
    · exact Or.inl e
    · exact Or.inr ⟨leader, hs, e⟩
  | @acceptVoters leader hs hl =>
    left
    rcases acceptVoters_eq r leader.term leader.address leader.voters leader.votersIndex with
      ⟨e, -⟩ | ⟨-, -, e⟩ <;> rw [e]
    exact follow_log ..
  | _ => exact Or.inl (by simp [founded, elected, ended, widened, deposed])

/-- The log is of a kind. -/
def Logged (S : Log → Prop) (r : Replica σ) : Prop := r.Bounded ∧ S r.log

variable {S : Log → Prop}

/-- As long as nothing is written, logs remain of a kind that merging keeps. -/
theorem logged_lasting (hS : ∀ a b, S a → S b → S (Log.merge a b)) :
    Network.Lasting (σ := σ) { sender := Logged S, writing := False } := by
  intro r r' hc h
  refine ⟨(hc.lasts h.1).bound, ?_⟩
  rcases hc.log_cases not_false h.1 with e | ⟨leader, hleader, e⟩ <;> rw [e]
  · exact h.2
  · exact hS _ _ h.2 hleader.2

end Replica

namespace Network
open Replica

variable {n : Network σ} {S : Log → Prop}

/-- A step leaves logs of a kind that merging keeps, if an empty log is of this kind and what a leader
writes. -/
theorem logged_step (hw : n.Wired) (hS : ∀ a b, S a → S b → S (Log.merge a b))
    (hn : n.Everywhere (Logged S)) (hempty : S []) (op : Op σ) (hpush : ∀ i data r,
      op = .submit i data → n.replica? i = some r → r.leader = true → S (r.pushed data).log) :
    (n.step op).network.Everywhere (Logged S) := by
  refine step_everywhere_of_pushed (logged_lasting hS) hw hn op
    (fun _ _ _ _ => ⟨Nat.le_refl 0, hempty⟩) fun i data r hop hr hl => ⟨?_, hpush i data r hop hr hl⟩
  exact (hn i r (replica?_eq_some.mp hr).1).1.pushed data

/-! ## The logs after a step -/

/-- All logs match. -/
def Matched (n : Network σ) : Prop := ∀ (i j : Nat) (r f : Replica σ), n.replicas[i]? = some r →
  n.replicas[j]? = some f → Log.Matches r.log f.log

/-- Where a log after an operation comes from. -/
inductive Source (n : Network σ) (op : Op σ) : Log → Prop where
  | held {j : Nat} {r : Replica σ} (hr : n.replicas[j]? = some r) : Source n op r.log
  | empty : Source n op []
  | pushed {i : Nat} {data : List UInt8} {r : Replica σ} (hop : op = .submit i data)
    (hr : n.replica? i = some r) (hl : r.leader = true) : Source n op (r.pushed data).log

omit [StateMachine σ] in
/-- What a leader writes goes with the logs that there are. -/
theorem Matched.pushed (h : n.Matched) (hattr : ∀ term, ∃ i, n.Attributed term i) {i j : Nat}
    {r f : Replica σ} (hr : n.replicas[i]? = some r) (hl : r.leader = true)
    (hf : n.replicas[j]? = some f) (data : List UInt8) :
    Log.Matches (r.pushed data).log f.log := by
  refine (h i j r f hr hf).concat fun y hy hterm => ?_
  obtain ⟨k, hk⟩ := hattr r.term
  obtain rfl := hk.leads i r hr hl rfl
  -- the leader would hold the entry behind the end of its log
  have hheld := hk.holds r hr hl rfl r.log.length y ⟨j, f, hf, hy⟩ hterm
  rw [List.getElem?_eq_none (Nat.le_refl _)] at hheld
  cases hheld

omit [StateMachine σ] in
theorem Source.matches (h : n.Matched) (hattr : ∀ term, ∃ i, n.Attributed term i) {op : Op σ}
    {a b : Log} (ha : n.Source op a) (hb : n.Source op b) : Log.Matches a b := by
  cases ha with
  | empty => exact (Log.matches_nil b).symm
  | held hr =>
    cases hb with
    | empty => exact Log.matches_nil _
    | held hf => exact h _ _ _ _ hr hf
    | pushed hop hf hl => exact (h.pushed hattr (replica?_eq_some.mp hf).1 hl hr _).symm
  | pushed hop hr hl =>
    cases hb with
    | empty => exact Log.matches_nil _
    | held hf => exact h.pushed hattr (replica?_eq_some.mp hr).1 hl hf _
    | pushed hop' hr' =>
      rw [hop] at hop'
      cases hop'
      rw [hr] at hr'
      cases hr'
      exact Log.Matches.refl _

theorem matched_step (hw : n.Wired) (hb : n.Everywhere Bounded) (h : n.Matched)
    (hattr : ∀ term, ∃ i, n.Attributed term i) (op : Op σ) : (n.step op).network.Matched := by
  have hmerge : ∀ a b, n.Source op a → n.Source op b → n.Source op (Log.merge a b) := by
    intro a b ha hb
    rcases (hb.matches h hattr ha).merge.1 with e | e <;> rw [e]
    · exact ha
    · exact hb
  have hall := logged_step hw hmerge (fun j r hr => ⟨hb j r hr, .held hr⟩) .empty op
    fun i data r hop hr hl => .pushed hop hr hl
  intro i j r f hr hf
  exact (hall i r hr).2.matches h hattr (hall j f hf).2

/-! ## Runs -/

/-- No two replicas ever come to lead at one term. -/
def UniqueLeaders (ops : List (Op σ)) : Prop :=
  ∀ c ∈ crownings {} ops, ∀ d ∈ crownings {} ops, c.term = d.term → c.replica = d.replica

/-- All entries of a term come from one replica. -/
theorem UniqueLeaders.attributed {ops : List (Op σ)} (h : UniqueLeaders ops) (term : Nat) :
    ∃ i, (run {} ops).Attributed term i := by
  by_cases hc : ∃ c ∈ crownings {} ops, c.term = term
  · obtain ⟨c, hc, rfl⟩ := hc
    exact ⟨c.replica, run_attributed wired_empty everywhere_empty (attributed_empty ..)
      fun d hd hterm => h d hd c hc hterm⟩
  · exact ⟨0, run_attributed wired_empty everywhere_empty (attributed_empty ..)
      fun d hd hterm => absurd ⟨d, hd, hterm⟩ hc⟩

/-- If no two replicas ever come to lead at one term, then all logs match. -/
theorem run_matched {ops : List (Op σ)} (h : UniqueLeaders ops) : (run {} ops).Matched := by
  induction ops using List.reverseRecOn with
  | nil => exact fun i j r f hr => by simp [run] at hr
  | append_singleton ops op ih =>
    have hbefore : UniqueLeaders ops := fun c hc d hd =>
      h c (by rw [crownings_append]; exact List.mem_append_left _ hc)
        d (by rw [crownings_append]; exact List.mem_append_left _ hd)
    rw [run_concat]
    exact matched_step (wired_run wired_empty ops) (run_bounded ops) (ih hbefore)
      hbefore.attributed op

end Network

end ReplicatedTable.Raft
