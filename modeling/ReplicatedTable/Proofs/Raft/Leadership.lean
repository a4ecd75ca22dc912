import Mathlib.Data.List.Induction
import ReplicatedTable.Leadership
import ReplicatedTable.Proofs.Raft.Evolution
import ReplicatedTable.Raft.Recorder

/-!
# What a replica announces of its leadership

Every change of a replica sets the leader flag at most once, and announces it if it is then another one
(`Change.notices`). So the notices alternate, the first one is of leadership, and the last one is the flag
(`Mirrored`). A tracker takes them one by one, at any time; once it has taken all of them it has the flag.

Whether a replica leads is the flag as long as nobody forms a group with a replica that was shut down. Forming
a group is the one thing that does not ask whether the replica still runs: the flag is then set and announced
by a replica that does not lead (`founded_after_shutdown`). `notices_mirror` is what holds in every run.
-/
namespace ReplicatedTable.Raft

variable {σ : Type}

/-! ## Notices -/

namespace Replica

section
variable (r : Replica σ)

theorem setLeader_notices (b : Bool) :
    (r.setLeader b).notices = if r.leader = b then r.notices else r.notices ++ [b] := by
  unfold setLeader
  split <;> rfl

@[simp] theorem setLeader_self : r.setLeader r.leader = r := if_pos rfl

theorem follow_notices (term : Nat) (leader : String) :
    (r.follow term leader).notices = (r.setLeader (r.follow term leader).leader).notices := by
  unfold follow
  split
  · split
    · simp
    · simp [setLeader_notices]
  · simp

end

/-- The notices alternate, beginning with one of leadership, and the last one is the leader flag. -/
structure Mirrored (r : Replica σ) : Prop where
  alternate : ∀ (k : Nat) (b : Bool), r.notices[k]? = some b → b = (k % 2 == 0)
  last : (r.notices.getLast?).getD false = r.leader

/-- After an odd number of notices a replica has the leader flag. -/
theorem Mirrored.leader_eq {r : Replica σ} (h : r.Mirrored) :
    r.leader = (r.notices.length % 2 == 1) := by
  rw [← h.last, List.getLast?_eq_getElem?]
  cases hn : r.notices.length with
  | zero => simp [List.length_eq_zero_iff.mp hn]
  | succ m =>
    have hlt : m < r.notices.length := by omega
    have hget : r.notices[m]? = some r.notices[m] := List.getElem?_eq_getElem hlt
    rw [Nat.add_sub_cancel, hget, Option.getD_some, h.alternate m _ hget]
    rcases Nat.mod_two_eq_zero_or_one m with hm | hm <;> simp [hm, Nat.add_mod]

/-- Setting the flag and announcing that keeps the notices in step with it. -/
theorem Mirrored.set {r r' : Replica σ} (h : r.Mirrored)
    (hn : r'.notices = (r.setLeader r'.leader).notices) : r'.Mirrored := by
  rw [setLeader_notices] at hn
  split at hn
  · rename_i hsame
    exact ⟨by rw [hn]; exact h.alternate, by rw [hn, h.last, hsame]⟩
  · rename_i hother
    refine ⟨fun k b hb => ?_, by rw [hn, List.getLast?_concat, Option.getD_some]⟩
    rw [hn, List.getElem?_append] at hb
    split at hb
    · exact h.alternate k b hb
    · rw [List.getElem?_singleton] at hb
      split at hb
      · obtain rfl : k = r.notices.length := by omega
        rw [← Option.some.inj hb, Bool.eq_not_of_ne (Ne.symm hother), h.leader_eq]
        rcases Nat.mod_two_eq_zero_or_one r.notices.length with hm | hm <;> simp [hm]
      · cases hb

variable [StateMachine σ] {R : Rules σ} {r r' : Replica σ}

theorem applyUpTo_notices (r : Replica σ) (index : Nat) :
    (r.applyUpTo index).1.notices = r.notices := by
  obtain ⟨_, _, _, e⟩ := applyUpTo_eq r index
  rw [e]

/-- Every change sets the flag once at most, and announces it. -/
theorem Change.notices (h : Change R r r') : r'.notices = (r.setLeader r'.leader).notices := by
  cases h with
  | found hf hv => simp [founded, setLeader_notices]
  | elect ht hv hs => simp [elected, setLeader_notices]
  | resign => simp
  | stop => simp [ended, setLeader_notices]
  | depose ht hl => simp [deposed, setLeader_notices]
  | drop => simp
  | widen hv hl => simp [widened]
  | push data => simp [pushed]
  | apply index => simp [applyUpTo_notices]
  | @receive leader hs hl term =>
    rcases receive_eq r leader term with ⟨e, -⟩ | ⟨-, -, _, _, _, _, e⟩ <;> rw [e]
    · simp
    · exact follow_notices r term leader.address
  | @acceptVoters leader hs hl =>
    rcases acceptVoters_eq r leader.term leader.address leader.voters leader.votersIndex with
      ⟨e, -⟩ | ⟨-, -, e⟩ <;> rw [e]
    · simp
    · exact follow_notices r leader.term leader.address

theorem Change.notices_prefix (h : Change R r r') : r.notices <+: r'.notices := by
  rw [h.notices, setLeader_notices]
  split
  · exact List.prefix_rfl
  · exact List.prefix_append ..

theorem Becomes.notices_prefix (h : Becomes R r r') : r.notices <+: r'.notices :=
  Becomes.induction (P := fun x => r.notices <+: x.notices) (fun hc hp => hp.trans hc.notices_prefix)
    h List.prefix_rfl

theorem mirrored_lasting : Network.Lasting (σ := σ) { sender := Mirrored } := fun hc h =>
  h.set hc.notices

omit [StateMachine σ] in
theorem mirrored_fresh (id address : String) (machine : σ) : (fresh id address machine).Mirrored :=
  ⟨fun k b h => by simp [fresh] at h, rfl⟩

/-! ## Replicas that were shut down -/

/-- A replica that was shut down does not have the leader flag. -/
def Retired (r : Replica σ) : Prop := r.stopped = true → r.leader = false

/-- As long as no group is formed, a replica that was shut down stays without the flag. -/
theorem Change.retired (h : Change R r r') (hf : ¬R.founding) (hr : r.Retired) : r'.Retired := by
  unfold Retired at hr ⊢
  cases h with
  | found hf' hv => exact absurd hf' hf
  | elect ht hv hs => simp [elected, hs]
  | resign => simp
  | stop => simp [ended]
  | depose ht hl => simp [deposed]
  | drop => exact hr
  | widen hv hl => exact hr
  | push data => exact hr
  | apply index => simpa using hr
  | @receive leader hs hl term =>
    intro hstop
    rw [receive_stopped] at hstop
    cases hlead : (r.receive leader term).1.leader with
    | false => rfl
    | true => exact ((hr hstop).symm.trans (leader_of_receive hlead)).symm
  | @acceptVoters leader hs hl =>
    rcases acceptVoters_eq r leader.term leader.address leader.voters leader.votersIndex with
      ⟨e, -⟩ | ⟨hs', -, e⟩ <;> rw [e]
    · exact hr
    · simp [hs']

omit [StateMachine σ] in
theorem retired_iff (r : Replica σ) : r.Retired ↔ r.leads = r.leader := by
  unfold Retired leads
  cases r.stopped <;> cases r.leader <;> simp

end Replica

namespace Network
open Replica

variable [StateMachine σ] {n : Network σ} {i : Nat} {r : Replica σ}

/-- Nobody leads whom shutting down has ended, unless a group is formed with such a replica. -/
theorem retired_step (hw : n.Wired) (op : Op σ)
    (hn : ∀ r, n.replicas[i]? = some r → r.Retired)
    (hfound : ∀ r, op = .bootstrap i → n.replica? i = some r → r.voters = ∅ → r.stopped = false)
    (hr : (n.step op).network.replicas[i]? = some r) : r.Retired := by
  by_cases hop : op.Obeys { founding := False }
  · rcases step_evolves hw (fun _ _ => trivial) (fun _ _ _ => trivial) hop with h | ⟨id, a, m, -, e⟩
    · have hlt : i < n.replicas.length := by
        rw [← h.length]; exact (List.getElem?_eq_some_iff.mp hr).1
      obtain ⟨x, hx, hb⟩ := h.becomes i _ (List.getElem?_eq_getElem hlt)
      rw [hr] at hx
      cases hx
      exact Becomes.induction (fun hc hp => hc.retired not_false hp) hb
        (hn _ (List.getElem?_eq_getElem hlt))
    · rw [e] at hr
      rcases getElem?_concat_cases hr with hr | ⟨-, rfl⟩
      · exact hn r hr
      · exact fun _ => rfl
  · cases op with
    | bootstrap k =>
      have hc := bootstrap_founding n k
      have hnet : (n.step (.bootstrap k)).network = (n.bootstrap k).network := rfl
      rw [hnet] at hr
      generalize (n.bootstrap k).network = m, (n.bootstrap k).answer = ans at hc hr
      cases hc with
      | refused e => exact hn r hr
      | @done x hx hv =>
        rcases put_getElem?_cases _ hr with ⟨rfl, rfl⟩ | ⟨-, hr⟩
        · intro hs
          simp only [founded, setLeader_stopped] at hs
          rw [hfound x rfl hx hv] at hs
          cases hs
        · exact hn r hr
    | _ => exact absurd trivial hop

/-- In the course of the run a group is formed with the replica, which was shut down before. -/
def FoundedEnded (i : Nat) (ops : List (Op σ)) : Prop :=
  ∃ before after r, ops = before ++ .bootstrap i :: after ∧ (run {} before).replica? i = some r ∧
    r.voters = ∅ ∧ r.stopped = true

theorem FoundedEnded.append {ops : List (Op σ)} (h : FoundedEnded i ops) (later : List (Op σ)) :
    FoundedEnded i (ops ++ later) := by
  obtain ⟨before, after, r, rfl, hr⟩ := h
  exact ⟨before, after ++ later, r, by simp, hr⟩

theorem run_retired (ops : List (Op σ)) (h : ¬FoundedEnded i ops)
    (hr : (run {} ops).replicas[i]? = some r) : r.Retired := by
  induction ops using List.reverseRecOn generalizing r with
  | nil => simp [run] at hr
  | append_singleton ops op ih =>
    rw [run_concat] at hr
    refine retired_step (wired_run wired_empty ops) op
      (fun x hx => ih (fun hf => h (hf.append [op])) hx) (fun x hop hx hv => ?_) hr
    cases hs : x.stopped with
    | false => rfl
    | true => exact absurd ⟨ops, [], x, by rw [hop], hx, hv, hs⟩ h

theorem run_mirrored (ops : List (Op σ)) : (run {} ops).Everywhere Mirrored :=
  run_everywhere wired_empty mirrored_lasting everywhere_empty (fun op _ => op.obeys_sender _)
    fun id address machine _ => mirrored_fresh id address machine

end Network

end ReplicatedTable.Raft

/-! ## Trackers -/

namespace ReplicatedTable.Tracker

/-- The flag of the tracker is the last of the notices that it has taken. -/
structure Keeps (t : Tracker) (notices : List Bool) : Prop where
  taken : t.taken ≤ notices.length
  leader : t.leader = ((notices.take t.taken).getLast?).getD false

theorem keeps_new (notices : List Bool) : Keeps {} notices := ⟨Nat.zero_le _, rfl⟩

theorem Keeps.later {t : Tracker} {notices later : List Bool} (h : t.Keeps notices)
    (hp : notices <+: later) : t.Keeps later := by
  obtain ⟨rest, rfl⟩ := hp
  refine ⟨by rw [List.length_append]; exact Nat.le_add_right_of_le h.taken, ?_⟩
  rw [List.take_append_of_le_length h.taken]
  exact h.leader

theorem keeps_of_receive? {t t' : Tracker} {notices : List Bool} (ht : t.receive? notices = some t') :
    t'.Keeps notices := by
  unfold receive? at ht
  split at ht
  · cases ht
  · obtain ⟨b, hb, rfl⟩ := Option.map_eq_some_iff.mp ht
    refine ⟨(List.getElem?_eq_some_iff.mp hb).1, ?_⟩
    simp only [List.take_add_one, hb, Option.toList_some, List.getLast?_concat, Option.getD_some]

theorem Keeps.stop {t : Tracker} {notices : List Bool} (h : t.Keeps notices) :
    t.stop.Keeps notices := ⟨h.taken, h.leader⟩

/-- A tracker that runs has the last notice as its flag once it has taken all of them. -/
theorem Keeps.drain_leader {t : Tracker} {notices : List Bool} (h : t.Keeps notices)
    (hrun : t.finished = false) : (t.drain notices).leader = (notices.getLast?).getD false := by
  have htaken := h.taken
  simp only [drain, hrun, Bool.false_eq_true, if_false, List.getLast?_drop]
  split
  · rw [Option.getD_none, h.leader, List.take_of_length_le (by omega)]
  · rename_i hmore
    have hne : notices ≠ [] := by
      rintro rfl
      exact hmore (Nat.zero_le _)
    rw [List.getLast?_eq_some_getLast hne, Option.getD_some, Option.getD_some]

end ReplicatedTable.Tracker

namespace ReplicatedTable.Raft

variable {σ : Type}

/-- What the replica with a number has announced, nothing if there is no such replica. -/
def Network.announced (n : Network σ) (i : Nat) : List Bool :=
  ((n.replicas[i]?).map Replica.notices).getD []

theorem Network.announced_eq {n : Network σ} {i : Nat} {r : Replica σ}
    (hr : n.replicas[i]? = some r) : n.announced i = r.notices := by
  simp [announced, hr]

/-- A network, and a tracker that follows one of its replicas. -/
structure Watch (σ : Type) where
  network : Network σ := {}
  tracker : Tracker := {}

/-- One thing that happens: an operation on the network, or the tracker takes a notice or is told to stop. -/
inductive Watch.Turn (σ : Type) where
  | operate (op : Network.Op σ)
  | receive
  | stop

variable [StateMachine σ]

/-- What was announced stays, and more may follow. -/
theorem Network.announced_step {n : Network σ} (hw : n.Wired) (op : Network.Op σ) (i : Nat) :
    n.announced i <+: (n.step op).network.announced i := by
  cases hr : n.replicas[i]? with
  | none =>
    simp only [announced, hr, Option.map_none, Option.getD_none]
    exact List.nil_prefix
  | some r =>
    obtain ⟨r', hr', hb⟩ := step_later hw op hr
    rw [announced_eq hr, announced_eq hr']
    exact hb.notices_prefix

namespace Watch
open Network Replica

/-- One turn of a network and a tracker that follows the replica with a number. -/
def turn (i : Nat) (w : Watch σ) : Turn σ → Watch σ
  | .operate op => { w with network := (w.network.step op).network }
  | .receive => { w with tracker := (w.tracker.receive? (w.network.announced i)).getD w.tracker }
  | .stop => { w with tracker := w.tracker.stop }

def run (i : Nat) (turns : List (Turn σ)) : Watch σ := turns.foldl (turn i) {}

/-- The operations among the turns. -/
def operations (turns : List (Turn σ)) : List (Op σ) :=
  turns.filterMap fun
    | .operate op => some op
    | _ => none

variable {i : Nat}

theorem run_concat (turns : List (Turn σ)) (t : Turn σ) :
    run i (turns ++ [t]) = (run i turns).turn i t := List.foldl_append ..

/-- The network goes its way whatever the tracker does. -/
theorem run_network (turns : List (Turn σ)) :
    (run i turns).network = Network.run {} (operations turns) := by
  induction turns using List.reverseRecOn with
  | nil => rfl
  | append_singleton turns t ih =>
    rw [run_concat, operations, List.filterMap_append, ← operations]
    cases t with
    | operate op =>
      show ((run i turns).network.step op).network = Network.run {} (operations turns ++ [op])
      rw [ih, Network.run_concat]
    | receive => simpa [turn] using ih
    | stop => simpa [turn] using ih

/-- The flag of the tracker is the last of the notices that it has taken. -/
theorem run_keeps (turns : List (Turn σ)) :
    (run i turns).tracker.Keeps ((run i turns).network.announced i) := by
  induction turns using List.reverseRecOn with
  | nil => exact Tracker.keeps_new _
  | append_singleton turns t ih =>
    have hw : (run i turns).network.Wired := by
      rw [run_network]
      exact wired_run wired_empty _
    rw [run_concat]
    generalize run i turns = w at ih hw ⊢
    cases t with
    | operate op => exact ih.later (announced_step hw op i)
    | receive =>
      show ((w.tracker.receive? (w.network.announced i)).getD w.tracker).Keeps _
      cases ht : w.tracker.receive? (w.network.announced i) with
      | none => exact ih
      | some t' => exact Tracker.keeps_of_receive? ht
    | stop => exact ih.stop

/-- The notices of a replica alternate, beginning with one of leadership, and the last one is the leader flag.
Whoever has followed the notices has the flag after the last one. It tells whether the replica leads, unless a
group was formed with a replica that had been shut down. -/
theorem notices_mirror (turns : List (Turn σ)) {r : Replica σ}
    (hr : (run i turns).network.replicas[i]? = some r) :
    (∀ (k : Nat) (b : Bool), r.notices[k]? = some b → b = (k % 2 == 0)) ∧
      (r.notices.getLast?).getD false = r.leader ∧
      ((run i turns).tracker.finished = false →
        ((run i turns).tracker.drain r.notices).leader = r.leader) ∧
      (¬FoundedEnded i (operations turns) → r.leader = r.leads) := by
  have hkeeps := run_keeps (i := i) turns
  rw [announced_eq hr] at hkeeps
  rw [run_network] at hr
  have hmirror := run_mirrored (operations turns) i r hr
  refine ⟨hmirror.alternate, hmirror.last, fun hrun => ?_, fun h => ?_⟩
  · rw [hkeeps.drain_leader hrun]
    exact hmirror.last
  · exact ((retired_iff r).mp (run_retired _ h hr)).symm

/-- Two replicas, of which the second takes over, while a tracker follows the first. -/
def takeover : List (Turn Recorder) :=
  [.operate (.register "n1" "a1" {}), .operate (.register "n2" "a2" {}), .operate (.bootstrap 0), .receive,
    .operate (.addVoter 0 "n2" "a2" 0), .operate (.campaign 1)]

/-- A tracker that has not heard of the takeover yet does so from the notices. -/
theorem notices_mirror_takeover : ∃ r, (run 0 takeover).network.replicas[0]? = some r ∧
    r.notices = [true, false] ∧ (run 0 takeover).tracker.leader = true ∧
    (run 0 takeover).tracker.finished = false ∧ ¬FoundedEnded 0 (operations takeover) ∧
    ((run 0 takeover).tracker.drain r.notices).leader = r.leads ∧ r.leads = false := by
  have hnotices : ((run 0 takeover).network.replicas[0]?).map Replica.notices = some [true, false] := by
    decide +kernel
  have hflag : (run 0 takeover).tracker.leader = true ∧ (run 0 takeover).tracker.finished = false := by
    decide +kernel
  have hrunning : ∀ k < 5, ((Network.run {} ((operations takeover).take k)).replica? 0).all
      (fun r => !r.stopped) = true := by decide +kernel
  have hfound : ¬FoundedEnded 0 (operations takeover) := by
    rintro ⟨before, after, x, hops, hx, -, hs⟩
    have hlen : (operations takeover).length = 5 := rfl
    rw [hops, List.length_append, List.length_cons] at hlen
    have hnever := hrunning before.length (by omega)
    rw [hops, List.take_left, hx, Option.all_some, hs] at hnever
    cases hnever
  obtain ⟨r, hr, hnotices⟩ := Option.map_eq_some_iff.mp hnotices
  obtain ⟨-, hlast, hdrain, hleads⟩ := notices_mirror takeover hr
  have hdeposed : r.leads = false := by rw [← hleads hfound, ← hlast, hnotices]; rfl
  exact ⟨r, hr, hnotices, hflag.1, hflag.2, hfound, (hdrain hflag.2).trans (hleads hfound), hdeposed⟩

/-- A replica that forms a group after it was shut down. -/
def revenant : List (Op Recorder) := [.register "n1" "a1" {}, .shutdown 0, .bootstrap 0]

/-- It is not so that the last notice always tells whether a replica leads. One that was shut down can still
form a group. -/
theorem founded_after_shutdown : ¬∀ (ops : List (Op Recorder)) (j : Nat) (r : Replica Recorder),
    (Network.run {} ops).replicas[j]? = some r → (r.notices.getLast?).getD false = r.leads := by
  intro h
  have hfacts : ((Network.run {} revenant).replicas[0]?).map (fun r => (r.notices, r.leads)) =
      some ([true], false) := by decide +kernel
  obtain ⟨r, hr, hfacts⟩ := Option.map_eq_some_iff.mp hfacts
  have hlast := h revenant 0 r hr
  rw [(Prod.mk.inj hfacts).1, (Prod.mk.inj hfacts).2] at hlast
  cases hlast

end Watch

end ReplicatedTable.Raft
