import ReplicatedTable.Proofs.Raft.Adoption

/-!
# Voters and the index of their last change

A caller that wants to change the voters may name the index of the last change that it knows of, and is refused
if there was another one since. The index is the length of the leader's log at the time of the change. So it
tells two changes apart if an entry was written between them, and only then.

`Onward` is what any number of writes and changes on one leader leads to: the log grows, and voters that were
changed have an index from then on. Hence an index that lies within the log belongs to the voters that were read
along with it (`voters_of_index`). An index at the end of the log may be given to the next voters as well, and
then a caller who has read the former ones overwrites a change that it does not know of (`Widens.again`,
`lost_change`).
-/
namespace ReplicatedTable.Raft

variable {σ : Type}

namespace Replica

/-- A leader after some writes and some changes of voters. -/
structure Onward (r r' : Replica σ) : Prop where
  log : r.log <+: r'.log
  voters : r'.voters = r.voters ∧ r'.votersIndex = r.votersIndex ∨
    r.log.length ≤ r'.votersIndex ∧ r'.votersIndex ≤ r'.log.length

theorem Onward.refl (r : Replica σ) : Onward r r := ⟨List.prefix_rfl, Or.inl ⟨rfl, rfl⟩⟩

theorem Onward.trans {r x r' : Replica σ} (h : Onward r x) (h' : Onward x r') : Onward r r' where
  log := h.log.trans h'.log
  voters := by
    have hlen := h.log.length_le
    have hlen' := h'.log.length_le
    rcases h'.voters with ⟨hv', hi'⟩ | ⟨hlow', hhigh'⟩
    · rcases h.voters with ⟨hv, hi⟩ | ⟨hlow, hhigh⟩
      · exact Or.inl ⟨hv'.trans hv, hi'.trans hi⟩
      · exact Or.inr ⟨by omega, by omega⟩
    · exact Or.inr ⟨by omega, hhigh'⟩

/-- Voters stay as they are while the log grows. -/
theorem Onward.of_voters {r r' : Replica σ} (hlog : r.log <+: r'.log) (hv : r'.voters = r.voters)
    (hi : r'.votersIndex = r.votersIndex) : Onward r r' := ⟨hlog, Or.inl ⟨hv, hi⟩⟩

theorem Onward.widened (r : Replica σ) (id address : String) : Onward r (r.widened id address) :=
  ⟨List.prefix_rfl, Or.inr ⟨Nat.le_refl _, Nat.le_refl _⟩⟩

/-- An index that lies within the log is not given to other voters any more. -/
theorem Onward.voters_eq {r r' : Replica σ} (h : Onward r r') (hi : r'.votersIndex = r.votersIndex)
    (hlt : r.votersIndex < r.log.length) : r'.voters = r.voters := by
  rcases h.voters with ⟨hv, -⟩ | ⟨hlow, -⟩
  · exact hv
  · omega

end Replica

namespace Network
open Log Replica

/-- A write or a change of voters on one replica, or a change of who reaches whom. -/
def Op.Calls (i : Nat) : Op σ → Prop
  | .addVoter j _ _ _ => j = i
  | .submit j _ => j = i
  | .isolate _ => True
  | .heal _ => True
  | _ => False

instance (i : Nat) : DecidablePred (Op.Calls i (σ := σ))
  | .addVoter j _ _ _ => inferInstanceAs (Decidable (j = i))
  | .submit j _ => inferInstanceAs (Decidable (j = i))
  | .isolate _ => isTrue trivial
  | .heal _ => isTrue trivial
  | .register _ _ _ | .drop _ | .bootstrap _ | .campaign _ | .stepDown _ | .shutdown _ =>
    isFalse not_false

variable [StateMachine σ] {n : Network σ} {i : Nat} {r r' : Replica σ}

theorem onward_addVoter (hw : n.Wired) (hr : n.replica? i = some r) (id address : String)
    (prev : Nat) : ∃ r', (n.addVoter i id address prev).network.replica? i = some r' ∧ Onward r r' := by
  rcases widens_or_idle hw hr id address prev with h | ⟨e, -⟩
  · exact ⟨_, h.addVoter_self hw, .widened r id address⟩
  · exact ⟨r, by rw [e]; exact hr, .refl r⟩

theorem onward_submit (hw : n.Wired) (hr : n.replica? i = some r) (data : List UInt8) :
    ∃ r', (n.submit i data).network.replica? i = some r' ∧ Onward r r' := by
  have hpushed : Onward r (r.pushed data) := .of_voters (List.prefix_append ..) rfl rfl
  have happlied : ∀ {r' : Replica σ} {ans : Except Error Unit},
      (r.pushed data).applyUpTo (r.pushed data).log.length = (r', ans) → Onward r r' := by
    intro r' ans e
    have hr' : r' = ((r.pushed data).applyUpTo (r.pushed data).log.length).1 := by rw [e]
    rw [hr']
    exact hpushed.trans (.of_voters (prefix_of_eq (applyUpTo_log ..).symm) (applyUpTo_voters ..)
      (applyUpTo_votersIndex ..))
  have hc := submit_write hw i data
  generalize (n.submit i data).network = m, (n.submit i data).answer = ans at hc ⊢
  cases hc with
  | refused e => exact ⟨r, hr, .refl r⟩
  | @conceded x newer hx =>
    rw [hr] at hx
    cases hx
    refine ⟨_, replica?_put_self _ hr ((setLeader_dropped ..).trans (replica?_eq_some.mp hr).2), ?_⟩
    exact .of_voters (by simp [deposed]) (by simp [deposed]) (by simp [deposed])
  | @unacknowledged x hx =>
    rw [hr] at hx
    cases hx
    exact ⟨_, replica?_spread hw hr data, hpushed⟩
  | @failed x r' e hx hwr ha hf =>
    rw [hr] at hx
    cases hx
    exact ⟨r', replica?_applied hw hr hf, happlied hf⟩
  | @committed x r' hx hwr ha hc =>
    rw [hr] at hx
    cases hx
    refine ⟨r', ?_, happlied hc⟩
    rw [replica?_mapAt_of_not_mem (hw.not_mem_reachable (replica?_eq_some.mp hr).1 rfl)]
    exact replica?_applied hw hr hc

theorem onward_step (hw : n.Wired) (hr : n.replica? i = some r) {op : Op σ} (hop : op.Calls i) :
    ∃ r', (n.step op).network.replica? i = some r' ∧ Onward r r' := by
  cases op with
  | addVoter j id address prev =>
    obtain rfl : j = i := hop
    exact onward_addVoter hw hr id address prev
  | submit j data =>
    obtain rfl : j = i := hop
    exact onward_submit hw hr data
  | isolate address => exact ⟨r, hr, .refl r⟩
  | heal address => exact ⟨r, hr, .refl r⟩
  | _ => exact hop.elim

theorem onward_run (hw : n.Wired) (hr : n.replica? i = some r) {calls : List (Op σ)}
    (hcalls : ∀ op ∈ calls, op.Calls i) :
    ∃ r', (n.run calls).replica? i = some r' ∧ Onward r r' := by
  induction calls generalizing n r with
  | nil => exact ⟨r, hr, .refl r⟩
  | cons op calls ih =>
    obtain ⟨x, hx, hon⟩ := onward_step hw hr (hcalls op (List.mem_cons_self ..))
    obtain ⟨r', hr', hon'⟩ := ih (wired_step hw op) hx fun o ho => hcalls o (List.mem_cons_of_mem _ ho)
    exact ⟨r', hr', hon.trans hon'⟩

/-- A change that expects an index is made only if the last one has this index. -/
theorem index_of_change (hw : n.Wired) (hr : n.replica? i = some r) {id address : String} {prev : Nat}
    (hprev : prev ≠ 0) (hr' : (n.addVoter i id address prev).network.replica? i = some r')
    (hne : r'.voters ≠ r.voters) : prev = r.votersIndex := by
  rcases widens_or_idle hw hr id address prev with h | ⟨e, -⟩
  · exact h.current.resolve_left hprev
  · rw [e, hr] at hr'
    cases hr'
    exact absurd rfl hne

/-- A change at the end of the log leaves the index there, so that another one that expects the same index is
made as well. -/
theorem Widens.again {id address : String} {prev : Nat} (h : n.Widens i r id address prev)
    (hw : n.Wired) (hend : prev = r.log.length) {other home : String}
    (hnew : (r.widened id address).voters[other]? ≠ some home) :
    (n.addVoter i id address prev).network.Widens i (r.widened id address) other home prev :=
  ⟨h.addVoter_self hw, h.running, h.leads, Or.inr hend, hnew⟩

/-- However many callers write to a leader and change its voters, the log grows, and a change of voters has an
index between the lengths of the log before and after. An index that lay within the log when it was read belongs
to the voters that were read along with it. A change that expects an index is made if the last one has it, and
only then, hence only on these voters. -/
theorem voters_of_index {before calls : List (Op σ)} (hr : (run {} before).replica? i = some r)
    (hcalls : ∀ op ∈ calls, op.Calls i) :
    ∃ r', (run {} (before ++ calls)).replica? i = some r' ∧ r.log <+: r'.log ∧
      (r'.voters ≠ r.voters → r.log.length ≤ r'.votersIndex ∧ r'.votersIndex ≤ r'.log.length) ∧
      (r'.votersIndex = r.votersIndex → r.votersIndex < r.log.length → r'.voters = r.voters) ∧
      ∀ (id address : String) (prev : Nat), prev ≠ 0 →
        (prev = r'.votersIndex → r'.stopped = false → r'.leader = true →
          r'.voters[id]? ≠ some address →
          ((run {} (before ++ calls)).addVoter i id address prev).answer = .ok () ∧
          ((run {} (before ++ calls)).addVoter i id address prev).network.replica? i =
            some (r'.widened id address)) ∧
        ∀ r'', ((run {} (before ++ calls)).addVoter i id address prev).network.replica? i = some r'' →
          r''.voters ≠ r'.voters → prev = r'.votersIndex ∧
            (prev = r.votersIndex → prev < r.log.length → r'.voters = r.voters) := by
  have hw : (run {} (before ++ calls)).Wired := wired_run wired_empty _
  rw [run_append] at hw ⊢
  obtain ⟨r', hr', hon⟩ := onward_run (wired_run wired_empty before) hr hcalls
  refine ⟨r', hr', hon.log, fun hne => ?_, hon.voters_eq, fun id address prev hprev =>
    ⟨fun hindex hs hl hnew => ?_, fun r'' hr'' hne => ?_⟩⟩
  · exact hon.voters.resolve_left fun h => hne h.1
  · have hwiden := Widens.mk hr' hs hl (Or.inr hindex) hnew
    exact ⟨hwiden.answer, hwiden.addVoter_self hw⟩
  · have hindex := index_of_change hw hr' hprev hr'' hne
    exact ⟨hindex, fun hread hlt => hon.voters_eq (hindex.symm.trans hread) (hread ▸ hlt)⟩

/-- A leader with a voter that was added at the first entry. -/
def oneChange : List (Op Recorder) :=
  [.register "n1" "a1" {}, .register "n2" "a2" {}, .bootstrap 0, .submit 0 [1], .addVoter 0 "n2" "a2" 0]

/-- Once a second entry is written, the next change has another index, and a caller who has read the first one
is refused. -/
theorem voters_of_index_second : ∃ r r', (run {} (oneChange ++ [.submit 0 [2]])).replica? 0 = some r ∧
    r.votersIndex = 1 ∧
    (run {} (oneChange ++ [.submit 0 [2]] ++ [.addVoter 0 "n3" "a3" 1])).replica? 0 = some r' ∧
    r'.votersIndex = 2 ∧ ∀ r'', ((run {} (oneChange ++ [.submit 0 [2]] ++
      [.addVoter 0 "n3" "a3" 1])).addVoter 0 "n4" "a4" 1).network.replica? 0 = some r'' →
      r''.voters = r'.voters := by
  have hread : ((run {} (oneChange ++ [.submit 0 [2]])).replica? 0).map Replica.votersIndex = some 1 := by
    decide +kernel
  have hnow : ((run {} (oneChange ++ [.submit 0 [2]] ++ [.addVoter 0 "n3" "a3" 1])).replica? 0).map
      Replica.votersIndex = some 2 := by decide +kernel
  obtain ⟨r, hr, hread⟩ := Option.map_eq_some_iff.mp hread
  obtain ⟨r', hr', -, -, -, hchange⟩ := voters_of_index hr
    (show ∀ op ∈ [Op.addVoter 0 "n3" "a3" 1], op.Calls 0 by decide)
  rw [hr', Option.map_some, Option.some_inj] at hnow
  refine ⟨r, r', hr, hread, hr', hnow, fun r'' hr'' => ?_⟩
  by_contra hne
  have hindex := ((hchange "n4" "a4" 1 (by decide)).2 r'' hr'' hne).1
  omega

/-- It is not so that voters of one leader with one index are the same, nor that a change that expects an index
is made only on the voters that were read along with it. Two callers who have read the voters at the end of the
log both change them. -/
theorem lost_change :
    (¬∀ (before calls : List (Op Recorder)) (i : Nat) (r r' : Replica Recorder),
      (run {} before).replica? i = some r → r.leader = true → (∀ op ∈ calls, op.Calls i) →
      (run {} (before ++ calls)).replica? i = some r' → r.votersIndex ≠ 0 →
      r'.votersIndex = r.votersIndex → r'.voters = r.voters) ∧
    ¬∀ (before calls : List (Op Recorder)) (i : Nat) (r r' r'' : Replica Recorder)
      (id address : String), (run {} before).replica? i = some r → r.leader = true →
      (∀ op ∈ calls, op.Calls i) → (run {} (before ++ calls)).replica? i = some r' →
      r.votersIndex ≠ 0 → ((run {} (before ++ calls)).addVoter i id address
        r.votersIndex).network.replica? i = some r'' → r''.voters ≠ r'.voters →
      r'.voters = r.voters := by
  have hread : ((run {} oneChange).replica? 0).map
      (fun r => (r.leader, r.votersIndex, r.voters.size)) = some (true, 1, 2) := by decide +kernel
  have hfirst : ((run {} (oneChange ++ [.addVoter 0 "n3" "a3" 1])).replica? 0).map
      (fun r => (r.votersIndex, r.voters.size)) = some (1, 3) := by decide +kernel
  have hsecond : (((run {} (oneChange ++ [.addVoter 0 "n3" "a3" 1])).addVoter 0 "n4" "a4"
      1).network.replica? 0).map (fun r => r.voters.size) = some 4 := by decide +kernel
  obtain ⟨r, hr, hread⟩ := Option.map_eq_some_iff.mp hread
  obtain ⟨r', hr', hfirst⟩ := Option.map_eq_some_iff.mp hfirst
  obtain ⟨r'', hr'', hsecond⟩ := Option.map_eq_some_iff.mp hsecond
  rw [Prod.mk.injEq, Prod.mk.injEq] at hread
  rw [Prod.mk.injEq] at hfirst
  obtain ⟨hl, hindex, hsize⟩ := hread
  have hcalls : ∀ op ∈ [Op.addVoter 0 "n3" "a3" 1], op.Calls (σ := Recorder) 0 := by decide
  refine ⟨fun h => ?_, fun h => ?_⟩
  · have hsame := h oneChange _ 0 r r' hr hl hcalls hr' (by omega) (by omega)
    rw [hsame] at hfirst
    omega
  · have hne : r''.voters ≠ r'.voters := fun e => by
      rw [e] at hsecond
      omega
    have hsame := h oneChange _ 0 r r' r'' "n4" "a4" hr hl hcalls hr' (by omega)
      (by rw [hindex]; exact hr'') hne
    rw [hsame] at hfirst
    omega

end Network

end ReplicatedTable.Raft
