import ReplicatedTable.Cluster.Basic
import ReplicatedTable.Proofs.Raft.Evolution
import ReplicatedTable.Raft.Recorder

/-!
# What machines are given

A machine is given the entries of its replica's log from the first on, each with its index, and nothing
more once it has failed.

A `Journal` is a machine together with every call that was made of it. `applied_once_in_order` says of
journals of any machines, in any run: the calls that succeeded are the applied entries of the log as it is
now, and a call that failed was the last one. What is applied stays at the front of the log for good, and so
do the calls in the journal.

`Account` is what makes this an induction: a relation between the entries that a machine has taken and its
state, which the next entry keeps. `Change.work` reduces every change of a replica to two parts, one that
rewrites the log behind the applied entries and one that applies more of it.
-/
namespace ReplicatedTable.Raft

variable {σ : Type}

/-! ## Journals -/

/-- The data of a log with the indices. -/
def Log.numbered (log : Log) : List (Nat × List UInt8) := log.mapIdx fun k e => (k + 1, e.data)

theorem Log.numbered_concat (log : Log) (e : Entry) :
    Log.numbered (log ++ [e]) = log.numbered ++ [(log.length + 1, e.data)] := by
  simp [numbered, List.mapIdx_append]

namespace Journal

/-- The machine has taken these entries, and has been left alone since it failed. -/
structure Records (log : Log) (j : Journal σ) (halted : Option String) : Prop where
  accepted : j.accepted = log.numbered
  last : ∀ k c, j.calls[k]? = some c → c.answer.isOk = false →
    k + 1 = j.calls.length ∧ halted.isSome

theorem records_opened (machine : σ) : Records [] (opened machine) none :=
  ⟨rfl, fun k c h => by simp [opened] at h⟩

/-- As long as the machine has not failed, a call that fails is a new one. -/
theorem Records.last_concat {log : Log} {j : Journal σ} (h : Records log j none) {c c' : Call}
    {k : Nat} (hc : (j.calls ++ [c'])[k]? = some c) (hf : c.answer.isOk = false) :
    k = j.calls.length ∧ c = c' := by
  rw [List.getElem?_append] at hc
  split at hc
  · have := (h.last k c hc hf).2
    simp at this
  · rw [List.getElem?_singleton] at hc
    split at hc
    · exact ⟨by omega, (Option.some.inj hc).symm⟩
    · cases hc

end Journal

/-- The same operation with machines of another kind. -/
def Network.Op.map {τ : Type} (f : σ → τ) : Network.Op σ → Network.Op τ
  | .register id address machine => .register id address (f machine)
  | .drop i => .drop i
  | .isolate address => .isolate address
  | .heal address => .heal address
  | .bootstrap i => .bootstrap i
  | .campaign i => .campaign i
  | .stepDown i => .stepDown i
  | .shutdown i => .shutdown i
  | .addVoter i id address prev => .addVoter i id address prev
  | .submit i data => .submit i data

theorem Network.Op.register_mem_map {τ : Type} {f : σ → τ} {ops : List (Network.Op σ)}
    {id address : String} {machine : τ} (h : .register id address machine ∈ ops.map (Op.map f)) :
    ∃ m, machine = f m := by
  obtain ⟨op, -, e⟩ := List.mem_map.mp h
  cases op <;> cases e
  exact ⟨_, rfl⟩

variable [StateMachine σ]

/-! ## Accounts -/

/-- A relation between the entries that a machine has taken, its state and the reason for which it has
failed, that every entry keeps. -/
structure Account (I : Log → σ → Option String → Prop) : Prop where
  taken : ∀ {log : Log} {m m' : σ} {e : Entry}, I log m none →
    StateMachine.apply m (log.length + 1) e.data = (m', .ok ()) → I (log ++ [e]) m' none
  failed : ∀ {log : Log} {m m' : σ} {e : Entry} {err : Error}, I log m none →
    StateMachine.apply m (log.length + 1) e.data = (m', .error err) → I log m' (some err.message)

namespace Replica

variable {R : Rules σ}

/-- The machine of the replica has taken the applied entries of its log. -/
structure Balanced (I : Log → σ → Option String → Prop) (r : Replica σ) : Prop where
  bound : r.applied ≤ r.log.length
  account : I (r.log.take r.applied) r.machine r.halted

theorem applyEntries_balanced {I : Log → σ → Option String → Prop} (hI : Account I) :
    ∀ {es : Log} {r : Replica σ}, r.halted = none → es <+: r.log.drop r.applied → r.Balanced I →
      (r.applyEntries es).1.Balanced I
  | [], _, _, _, hb => hb
  | e :: es, r, hrun, hes, hb => by
    have hlt : r.applied < r.log.length := by
      have := hes.length_le
      simp only [List.length_cons, List.length_drop] at this
      omega
    rw [List.drop_eq_getElem_cons hlt, List.cons_prefix_cons] at hes
    obtain ⟨he, hes⟩ := hes
    have htake : r.log.take (r.applied + 1) = r.log.take r.applied ++ [e] := by
      rw [List.take_add_one, List.getElem?_eq_getElem hlt, ← he, Option.toList_some]
    have hlen : (r.log.take r.applied).length = r.applied := by
      rw [List.length_take]; omega
    have haccount := hb.account
    rw [hrun] at haccount
    unfold applyEntries
    split
    · rename_i machine hok
      rw [← hlen] at hok
      refine applyEntries_balanced hI hrun hes ⟨hlt, ?_⟩
      rw [hrun, htake]
      exact hI.taken haccount hok
    · rename_i machine err hfail
      rw [← hlen] at hfail
      exact ⟨hb.bound, hI.failed haccount hfail⟩

theorem applyUpTo_balanced {I : Log → σ → Option String → Prop} (hI : Account I) {r : Replica σ}
    (hb : r.Balanced I) (index : Nat) : (r.applyUpTo index).1.Balanced I := by
  unfold applyUpTo
  split
  · exact hb
  · rename_i hrun
    exact applyEntries_balanced hI hrun (by rw [List.drop_take]; exact List.take_prefix ..) hb

/-! ## The two parts of a change -/

/-- A replica after its log was rewritten behind the applied entries. -/
structure Rewritten (r x : Replica σ) : Prop where
  machine : x.machine = r.machine
  halted : x.halted = r.halted
  applied : x.applied = r.applied
  bound : x.applied ≤ x.log.length
  front : x.log.take r.applied = r.log.take r.applied

omit [StateMachine σ] in
theorem Rewritten.of_log {r x : Replica σ} (hb : r.applied ≤ r.log.length)
    (hm : x.machine = r.machine) (hh : x.halted = r.halted) (ha : x.applied = r.applied)
    (hl : x.log = r.log) : Rewritten r x :=
  ⟨hm, hh, ha, by rw [ha, hl]; exact hb, by rw [hl]⟩

omit [StateMachine σ] in
theorem Rewritten.follow {r : Replica σ} (hb : r.applied ≤ r.log.length) (term : Nat)
    (leader : String) : Rewritten r (r.follow term leader) :=
  .of_log hb (follow_machine ..) (follow_halted ..) (follow_applied ..) (follow_log ..)

theorem Rewritten.receive {f : Replica σ} (hb : f.applied ≤ f.log.length) (leader : Replica σ)
    (term : Nat) : ∃ x, Rewritten f x ∧
      ((f.receive leader term).1 = x ∨ ∃ index, (f.receive leader term).1 = (x.applyUpTo index).1) := by
  have hc := receive_receipt f leader term hb
  generalize (f.receive leader term).1 = r, (f.receive leader term).2 = ans at hc ⊢
  cases hc with
  | down hs => exact ⟨f, .of_log hb rfl rfl rfl rfl, Or.inl rfl⟩
  | stale hs ht => exact ⟨f, .of_log hb rfl rfl rfl rfl, Or.inl rfl⟩
  | halted hs ht hh => exact ⟨_, .follow hb term leader.address, Or.inl rfl⟩
  | conflict hs ht hh hc hl => exact ⟨_, .follow hb term leader.address, Or.inl rfl⟩
  | taken hs ht hh hc hr =>
    obtain ⟨hbound, hfront⟩ := Log.merge_front hb hc
    have hx : Rewritten f (f.taking leader term) :=
      ⟨follow_machine .., follow_halted .., follow_applied ..,
        by simpa [taking] using hbound, by simpa [taking] using hfront⟩
    exact ⟨_, hx, Or.inr ⟨_, hr⟩⟩

/-- A change rewrites the log behind the applied entries, and may then apply more. -/
theorem Change.work {r r' : Replica σ} (h : Change R r r') (hb : r.applied ≤ r.log.length) :
    ∃ x, Rewritten r x ∧ (r' = x ∨ ∃ index, r' = (x.applyUpTo index).1) := by
  have hsame : ∀ {y : Replica σ}, y.machine = r.machine → y.halted = r.halted →
      y.applied = r.applied → y.log = r.log →
      ∃ x, Rewritten r x ∧ (y = x ∨ ∃ index, y = (x.applyUpTo index).1) :=
    fun hm hh ha hl => ⟨_, .of_log hb hm hh ha hl, Or.inl rfl⟩
  have hflag : ∀ (y : Replica σ) (b : Bool), y.machine = r.machine → y.halted = r.halted →
      y.applied = r.applied → y.log = r.log →
      ∃ x, Rewritten r x ∧ (y.setLeader b = x ∨ ∃ index, y.setLeader b = (x.applyUpTo index).1) :=
    fun y b hm hh ha hl => hsame ((setLeader_machine y b).trans hm) ((setLeader_halted y b).trans hh)
      ((setLeader_applied y b).trans ha) ((setLeader_log y b).trans hl)
  cases h with
  | found hf hv => exact hflag _ true rfl rfl rfl rfl
  | elect ht hv => exact hflag _ true rfl rfl rfl rfl
  | resign => exact hflag r false rfl rfl rfl rfl
  | stop => exact hflag _ false rfl rfl rfl rfl
  | depose ht hl => exact hflag _ false rfl rfl rfl rfl
  | drop => exact hsame rfl rfl rfl rfl
  | widen hv hl => exact hsame rfl rfl rfl rfl
  | push data =>
    refine ⟨r.pushed data, ⟨rfl, rfl, rfl, ?_, ?_⟩, Or.inl rfl⟩
    · simp only [pushed, List.length_append]; omega
    · exact List.take_append_of_le_length hb
  | apply index => exact ⟨r, .of_log hb rfl rfl rfl rfl, Or.inr ⟨index, rfl⟩⟩
  | @receive leader hs hl term => exact Rewritten.receive hb leader term
  | @acceptVoters leader hs hl =>
    rcases acceptVoters_eq r leader.term leader.address leader.voters leader.votersIndex with
      ⟨e, -⟩ | ⟨-, -, e⟩ <;> rw [e]
    · exact hsame rfl rfl rfl rfl
    · exact hsame (follow_machine ..) (follow_halted ..) (follow_applied ..) (follow_log ..)

theorem balanced_lasting {I : Log → σ → Option String → Prop} (hI : Account I) :
    Network.Lasting { sender := Balanced I } := by
  intro r r' h hb
  obtain ⟨x, hx, hr'⟩ := h.work hb.bound
  have hbx : x.Balanced I := by
    refine ⟨hx.bound, ?_⟩
    rw [hx.applied, hx.front, hx.machine, hx.halted]
    exact hb.account
  rcases hr' with rfl | ⟨index, rfl⟩
  · exact hbx
  · exact applyUpTo_balanced hI hbx index

/-! ## What lasts -/

/-- The applied entries stay where they are, and a machine that has failed is left alone. -/
structure Lasts (r r' : Replica σ) : Prop where
  bound : r'.applied ≤ r'.log.length
  front : r.log.take r.applied <+: r'.log.take r'.applied
  halted : r.halted.isSome → r'.halted = r.halted ∧ r'.machine = r.machine

omit [StateMachine σ] in
theorem Lasts.refl {r : Replica σ} (hb : r.applied ≤ r.log.length) : Lasts r r :=
  ⟨hb, List.prefix_rfl, fun _ => ⟨rfl, rfl⟩⟩

omit [StateMachine σ] in
theorem Lasts.trans {r x r' : Replica σ} (h : Lasts r x) (h' : Lasts x r') : Lasts r r' where
  bound := h'.bound
  front := h.front.trans h'.front
  halted hh := by
    obtain ⟨h1, h2⟩ := h.halted hh
    obtain ⟨h3, h4⟩ := h'.halted (h1 ▸ hh)
    exact ⟨h3.trans h1, h4.trans h2⟩

theorem Lasts.applyUpTo {r : Replica σ} (hb : r.applied ≤ r.log.length) (index : Nat) :
    Lasts r (r.applyUpTo index).1 where
  bound := by
    have := applyUpTo_applied_le r index
    rw [applyUpTo_log]
    omega
  front := by
    rw [applyUpTo_log]
    exact List.take_prefix_take_left (applied_le_applyUpTo r index)
  halted hh := by
    obtain ⟨reason, hreason⟩ := Option.isSome_iff_exists.mp hh
    simp [Replica.applyUpTo, hreason]

theorem Change.lasts {r r' : Replica σ} (h : Change R r r') (hb : r.applied ≤ r.log.length) :
    Lasts r r' := by
  obtain ⟨x, hx, hr'⟩ := h.work hb
  have hrx : Lasts r x :=
    ⟨hx.bound, Log.prefix_of_eq (by rw [hx.applied, hx.front]), fun _ => ⟨hx.halted, hx.machine⟩⟩
  rcases hr' with rfl | ⟨index, rfl⟩
  · exact hrx
  · exact hrx.trans (.applyUpTo hx.bound index)

theorem Becomes.lasts {r r' : Replica σ} (h : Becomes R r r') (hb : r.applied ≤ r.log.length) :
    Lasts r r' :=
  Becomes.induction (P := Lasts r) (fun hc hl => hl.trans (hc.lasts hl.bound)) h (.refl hb)

omit [StateMachine σ] in
/-- No more is applied than there is in the log. -/
def Bounded (r : Replica σ) : Prop := r.applied ≤ r.log.length

theorem bounded_lasting : Network.Lasting (σ := σ) { sender := Bounded } := fun hc hb =>
  (hc.lasts hb).bound

omit [StateMachine σ] in
theorem Bounded.pushed {r : Replica σ} (h : r.Bounded) (data : List UInt8) : (r.pushed data).Bounded := by
  show r.applied ≤ (r.log ++ [_]).length
  rw [List.length_append]
  exact Nat.le_add_right_of_le h

end Replica

namespace Network

/-- What an account says of the machines of all replicas, if it says so of those that are registered. -/
theorem run_balanced {I : Log → σ → Option String → Prop} (hI : Account I) {ops : List (Op σ)}
    (hnew : ∀ id address machine, .register id address machine ∈ ops → I [] machine none)
    {j : Nat} {r : Replica σ} (hr : (run {} ops).replicas[j]? = some r) : r.Balanced I :=
  run_everywhere wired_empty (Replica.balanced_lasting hI) everywhere_empty
    (fun op _ => op.obeys_sender _)
    (fun id address machine h => ⟨Nat.zero_le _, hnew id address machine h⟩) j r hr

end Network

theorem Network.run_bounded (ops : List (Network.Op σ)) :
    (Network.run {} ops).Everywhere Replica.Bounded :=
  Network.run_everywhere Network.wired_empty Replica.bounded_lasting Network.everywhere_empty
    (fun op _ => op.obeys_sender _) fun _ _ _ _ => Nat.le_refl 0

/-! ## What journals show -/

theorem Journal.records_account : Account (Records (σ := σ)) where
  taken := by
    intro log j j' e h happ
    have happ' : (⟨(StateMachine.apply j.machine (log.length + 1) e.data).1, j.calls ++
        [⟨log.length + 1, e.data, (StateMachine.apply j.machine (log.length + 1) e.data).2⟩]⟩,
        (StateMachine.apply j.machine (log.length + 1) e.data).2) = (j', .ok ()) := happ
    obtain ⟨rfl, hok⟩ := Prod.mk.inj happ'
    rw [hok]
    refine ⟨?_, fun k c hc hf => ?_⟩
    · rw [accepted_concat j.machine, Log.numbered_concat, ← h.accepted]
      rfl
    · obtain ⟨-, rfl⟩ := h.last_concat hc hf
      cases hf
  failed := by
    intro log j j' e err h happ
    have happ' : (⟨(StateMachine.apply j.machine (log.length + 1) e.data).1, j.calls ++
        [⟨log.length + 1, e.data, (StateMachine.apply j.machine (log.length + 1) e.data).2⟩]⟩,
        (StateMachine.apply j.machine (log.length + 1) e.data).2) = (j', .error err) := happ
    obtain ⟨rfl, herr⟩ := Prod.mk.inj happ'
    rw [herr]
    refine ⟨?_, fun k c hc hf => ?_⟩
    · rw [accepted_concat j.machine, ← h.accepted]
      exact List.append_nil _
    · obtain ⟨rfl, -⟩ := h.last_concat hc hf
      exact ⟨by simp, rfl⟩

namespace Replica

theorem applyEntries_calls : ∀ (es : Log) (r : Replica (Journal σ)),
    r.machine.calls <+: (r.applyEntries es).1.machine.calls
  | [], _ => List.prefix_rfl
  | e :: es, r => by
    unfold applyEntries
    have hcall : ∀ {j : Journal σ} {ans : Except Error Unit},
        StateMachine.apply r.machine (r.applied + 1) e.data = (j, ans) →
          r.machine.calls <+: j.calls := by
      rintro j ans h
      have hj := congrArg (fun p => p.1.calls) h
      exact hj ▸ List.prefix_append ..
    split
    · rename_i j hok
      exact (hcall hok).trans (applyEntries_calls es { r with machine := j, applied := r.applied + 1 })
    · rename_i j err hfail
      exact hcall hfail

theorem Change.calls {R : Rules (Journal σ)} {r r' : Replica (Journal σ)} (h : Change R r r')
    (hb : r.applied ≤ r.log.length) : r.machine.calls <+: r'.machine.calls := by
  obtain ⟨x, hx, rfl | ⟨index, rfl⟩⟩ := h.work hb
  · exact Log.prefix_of_eq (congrArg Journal.calls hx.machine).symm
  · rw [← hx.machine, applyUpTo]
    split
    · exact List.prefix_rfl
    · exact applyEntries_calls _ x

/-- The calls that succeeded are the applied entries, and a call that failed is the last one. -/
structure InOrder (r : Replica (Journal σ)) : Prop where
  bound : r.applied ≤ r.log.length
  accepted : r.machine.accepted = Log.numbered (r.log.take r.applied)
  last : ∀ k c, r.machine.calls[k]? = some c → c.answer.isOk = false →
    k + 1 = r.machine.calls.length

/-- Calls and applied entries stay, and nothing is called after a failure. -/
structure Continues (r r' : Replica (Journal σ)) : Prop where
  calls : r.machine.calls <+: r'.machine.calls
  front : r.log.take r.applied <+: r'.log.take r'.applied
  failed : (∃ c ∈ r.machine.calls, c.answer.isOk = false) → r'.machine.calls = r.machine.calls

omit [StateMachine σ] in
theorem Balanced.inOrder {r : Replica (Journal σ)} (h : r.Balanced Journal.Records) : r.InOrder :=
  ⟨h.bound, h.account.accepted, fun k c hc hf => (h.account.last k c hc hf).1⟩

theorem Balanced.continues {R : Rules (Journal σ)} {r r' : Replica (Journal σ)}
    (h : r.Balanced Journal.Records) (hb : Becomes R r r') : r.Continues r' where
  calls := (Becomes.induction
    (P := fun x => x.applied ≤ x.log.length ∧ r.machine.calls <+: x.machine.calls)
    (fun hc hx => ⟨(hc.lasts hx.1).bound, hx.2.trans (hc.calls hx.1)⟩) hb
    ⟨h.bound, List.prefix_rfl⟩).2
  front := (hb.lasts h.bound).front
  failed := by
    rintro ⟨c, hc, hf⟩
    obtain ⟨k, hk⟩ := List.mem_iff_getElem?.mp hc
    rw [((hb.lasts h.bound).halted (h.account.last k c hk hf).2).2]

end Replica

/-! ## What tables hold -/

/-- The table that comes of an empty one through these entries. -/
def replay (entries : List (Nat × List UInt8)) : Except Error Table.Machine :=
  entries.foldlM (fun m e => m.apply e.1 e.2) {}

theorem replay_concat (entries : List (Nat × List UInt8)) (p : Nat × List UInt8) :
    replay (entries ++ [p]) = (replay entries).bind fun m => m.apply p.1 p.2 := by
  rw [replay, List.foldlM_append, ← replay]
  simp only [List.foldlM_cons, List.foldlM_nil, bind_pure]
  rfl

theorem replay_account : Account fun log (m : Table.Machine) _ =>
    replay log.numbered = .ok m ∧ m.lastApplied = log.length where
  taken := by
    rintro log m m' e ⟨hm, -⟩ happ
    simp only [StateMachine.apply] at happ
    have hstep : m.apply (log.length + 1) e.data = .ok m' := by
      split at happ <;> simp_all
    refine ⟨?_, ?_⟩
    · rw [Log.numbered_concat, replay_concat, hm]
      exact hstep
    · unfold Table.Machine.apply at hstep
      split at hstep
      · cases hstep
      · cases hstep
        simp
  failed := by
    rintro log m m' e err ⟨hm, hlast⟩ happ
    simp only [StateMachine.apply] at happ
    have hsame : m' = m := by
      split at happ <;> simp_all
    exact hsame ▸ ⟨hm, hlast⟩

namespace Network

/-- The run of operations on replicas whose machines keep journals. -/
def journaled (ops : List (Op σ)) : Network (Journal σ) := run {} (ops.map (Op.map Journal.opened))

theorem journaled_append (ops later : List (Op σ)) :
    journaled (ops ++ later) = (journaled ops).run (later.map (Op.map Journal.opened)) := by
  rw [journaled, List.map_append, run_append, journaled]

theorem wired_journaled (ops : List (Op σ)) : (journaled ops).Wired := wired_run wired_empty _

theorem journaled_balanced {ops : List (Op σ)} {j : Nat} {r : Replica (Journal σ)}
    (hr : (journaled ops).replicas[j]? = some r) : r.Balanced Journal.Records := by
  refine run_balanced Journal.records_account (fun id address machine hmem => ?_) hr
  obtain ⟨m, rfl⟩ := Op.register_mem_map hmem
  exact Journal.records_opened m

/-- The run of operations on replicas whose machines are tables, empty at first. -/
def tabled (ops : List (Op Unit)) : Network Table.Machine :=
  run {} (ops.map (Op.map fun _ => {}))

/-- Every machine is given the entries of the log in order, each once, and none after a failure. What is
applied stays in the log. Tables are the outcome of what is applied. -/
theorem applied_once_in_order :
    (∀ (ops later : List (Op σ)) (j : Nat) (r : Replica (Journal σ)),
      (journaled ops).replicas[j]? = some r → r.InOrder ∧
        ∃ r', (journaled (ops ++ later)).replicas[j]? = some r' ∧ r'.InOrder ∧ r.Continues r') ∧
    ∀ (ops : List (Op Unit)) (j : Nat) (r : Replica Table.Machine),
      (tabled ops).replicas[j]? = some r →
        replay (Log.numbered (r.log.take r.applied)) = .ok r.machine ∧
          r.machine.lastApplied = r.applied := by
  refine ⟨fun ops later j r hr => ?_, fun ops j r hr => ?_⟩
  · rw [journaled_append]
    obtain ⟨r', hr', hb⟩ := run_later (wired_journaled ops) (later.map (Op.map Journal.opened)) hr
    have hr'' := hr'
    rw [← journaled_append] at hr''
    exact ⟨(journaled_balanced hr).inOrder, r', hr', (journaled_balanced hr'').inOrder,
      (journaled_balanced hr).continues hb⟩
  · have hr' := run_balanced replay_account (fun id address machine hmem => by
      obtain ⟨m, rfl⟩ := Op.register_mem_map hmem
      exact ⟨rfl, rfl⟩) hr
    obtain ⟨hreplay, hlast⟩ := hr'.account
    refine ⟨hreplay, hlast.trans ?_⟩
    rw [List.length_take]
    exact Nat.min_eq_left hr'.bound

/-- Three replicas, of which one misses the second entry while it is cut off. -/
def threeWrites {σ : Type} (machine : σ) (a b c : List UInt8) : List (Op σ) :=
  [.register "n1" "a1" machine, .register "n2" "a2" machine, .register "n3" "a3" machine,
    .bootstrap 0, .addVoter 0 "n2" "a2" 0, .addVoter 0 "n3" "a3" 0, .submit 0 a, .isolate "a3",
    .submit 0 b, .heal "a3", .submit 0 c]

/-- A recorder that fails on one entry. -/
def pickyRecorder : Recorder where
  fault _ data := if data = [2] then some (.consensus .noQuorum) else none

def cellWrite (value : String) : List UInt8 := Table.Entry.encode ⟨"t", "r", "c", value⟩

/-- The leader's machine fails on the second of three entries; a table takes all three. -/
theorem applied_once_in_order_three_writes :
    (∃ r r', (journaled (threeWrites pickyRecorder [1] [2] [3])).replicas[0]? = some r ∧
      (journaled (threeWrites pickyRecorder [1] [2] [3] ++ [.campaign 1])).replicas[0]? = some r' ∧
      r.applied = 1 ∧ r.log.length = 2 ∧ r.machine.calls.length = 2 ∧ r.InOrder ∧ r.Continues r') ∧
    ∃ t, (tabled (threeWrites () (cellWrite "x") (cellWrite "y") (cellWrite "z"))).replicas[2]? =
        some t ∧ t.applied = 3 ∧
      replay (Log.numbered (t.log.take t.applied)) = .ok t.machine ∧ t.machine.lastApplied = 3 := by
  have hr : (((journaled (threeWrites pickyRecorder [1] [2] [3])).replicas[0]?).map
      fun r => (r.applied, r.log.length, r.machine.calls.length)) = some (1, 2, 2) := by
    decide +kernel
  have ht : (((tabled (threeWrites () (cellWrite "x") (cellWrite "y") (cellWrite "z"))).replicas[2]?).map
      Replica.applied) = some 3 := by
    decide +kernel
  obtain ⟨r, hr, hcounts⟩ := Option.map_eq_some_iff.mp hr
  obtain ⟨t, ht, happ⟩ := Option.map_eq_some_iff.mp ht
  obtain ⟨hin, r', hr', -, hcont⟩ := applied_once_in_order.1 _ [.campaign 1] 0 r hr
  obtain ⟨hreplay, hlast⟩ := (applied_once_in_order (σ := Recorder)).2 _ 2 t ht
  simp only [Prod.mk.injEq] at hcounts
  obtain ⟨happlied, hlength, hcalls⟩ := hcounts
  exact ⟨⟨r, r', hr, hr', happlied, hlength, hcalls, hin, hcont⟩, t, ht, happ, hreplay,
    hlast.trans happ⟩

end Network

end ReplicatedTable.Raft
