import ReplicatedTable.Proofs.Raft.Attribution

/-!
# What an acknowledgement is worth

A leader counts the peers that take its entry in the first round of a write. `replicate_acks` says what the
count is worth once the round is over: at least as many peers hold a log that covers the leader's, and if
some peer was not counted, then there is one that is unable to take entries, as it has halted or would have to
give up an applied one.

The leader counts itself without looking, and peers by their addresses. `voters_hold_committed` is what
follows for voters in every run: besides the leader itself, enough voters at other addresses for a majority
hold an entry of the leader's term where the write was acknowledged. A majority of voters hold the leader's
own entry if nobody else led at this term and the leader's id is still at its address. Neither can be left
out: an id that was moved counts twice (`moved_voter_counts_twice`), and entries of two founders look alike
(`equal_terms_pass_for_equal_entries`).
-/
namespace ReplicatedTable.Raft

open Log

variable {σ : Type}

namespace Replica

/-- The replica takes no entries of a log: it has halted, or would have to give up an applied entry. -/
def Unable (log : Log) (f : Replica σ) : Prop :=
  f.halted.isSome ∨ agreement log f.log < f.applied ∧ agreement log f.log < log.length

variable [StateMachine σ] {f leader : Replica σ} {term : Nat}

theorem Bounded.receive (hb : f.Bounded) (leader : Replica σ) (term : Nat) :
    (f.receive leader term).1.Bounded := by
  obtain ⟨x, hx, e | ⟨index, e⟩⟩ := Rewritten.receive hb leader term <;> rw [e]
  · exact hx.bound
  · exact (Lasts.applyUpTo hx.bound index).bound

/-- A follower that was told of a leader holds its entries, or is unable to. -/
theorem receive_verdict (leader : Replica σ) (hs : f.stopped = false) (ht : f.term ≤ term)
    (hb : f.Bounded) :
    ((f.receive leader term).2.isOk = true → Covers (f.receive leader term).1.log leader.log) ∧
      ((f.receive leader term).2.isOk = false → (f.receive leader term).1.Unable leader.log) := by
  have hc := receive_receipt f leader term hb
  generalize (f.receive leader term).1 = r, (f.receive leader term).2 = ans at hc ⊢
  cases hc with
  | down hs' => rw [hs] at hs'; cases hs'
  | stale hs' ht' => omega
  | halted hs' ht' hh => exact ⟨fun h => (by cases h), fun _ => Or.inl (by rw [follow_halted]; exact hh)⟩
  | conflict hs' ht' hh hc hl =>
    refine ⟨fun h => (by cases h), fun _ => Or.inr ?_⟩
    rw [follow_log, follow_applied]
    exact ⟨hc, hl⟩
  | taken hs' ht' hh hc hr =>
    refine ⟨fun _ => ?_, fun h => Or.inl ?_⟩
    · rw [hr, applyUpTo_log]
      exact covers_merge f.log leader.log
    · by_cases hh : r.halted = none
      · rw [if_pos hh] at h
        cases h
      · exact Option.isSome_iff_ne_none.mpr hh

/-- The entries of a leader stay with whoever holds them. -/
theorem covers_receive (hb : f.Bounded) (h : Covers f.log leader.log) (term : Nat) :
    Covers (f.receive leader term).1.log leader.log := by
  rcases receive_log_cases hb leader term with e | e <;> rw [e]
  · exact h
  · exact covers_merge f.log leader.log

/-- Who was unable to take entries of a leader stays so. -/
theorem Unable.receive (hb : f.Bounded) (h : f.Unable leader.log) (term : Nat) :
    (f.receive leader term).1.Unable leader.log := by
  have hc := receive_receipt f leader term hb
  generalize (f.receive leader term).1 = r, (f.receive leader term).2 = ans at hc ⊢
  cases hc with
  | down hs => exact h
  | stale hs ht => exact h
  | halted hs ht hh => exact Or.inl (by rw [follow_halted]; exact hh)
  | conflict hs ht hh hc hl => exact Or.inr (by rw [follow_log, follow_applied]; exact ⟨hc, hl⟩)
  | taken hs ht hh hc hr =>
    rcases h with h | ⟨h1, h2⟩
    · rw [hh] at h
      cases h
    · omega

end Replica

namespace Network
open Replica

/-! ## After the round -/

/-- Whether the log of a replica covers another one. -/
def covering (n : Network σ) (log : Log) (j : Nat) : Bool :=
  (n.replica? j).any fun r => agreement log r.log == log.length

theorem covering_iff {n : Network σ} {log : Log} {j : Nat} :
    n.covering log j = true ↔ ∃ r, n.replica? j = some r ∧ Covers r.log log := by
  simp [covering, Covers, Option.any_eq_true]

/-- What every change keeps of a replica that has it. -/
theorem mapAt_later {P : Replica σ → Prop} {f : Replica σ → Replica σ} (hP : ∀ r, P r → P (f r))
    (hd : ∀ r, (f r).dropped = r.dropped) {n : Network σ} {j : Nat} {r : Replica σ}
    (hr : n.replica? j = some r) (h : P r) (js : List Nat) :
    ∃ r', (n.mapAt f js).replica? j = some r' ∧ P r' := by
  refine mapAt_induction (P := fun m => ∃ r', m.replica? j = some r' ∧ P r')
    (fun m k x _ hm hx => ?_) ⟨r, hr, h⟩
  obtain ⟨r', hr', hp⟩ := hm
  by_cases hkj : k = j
  · subst hkj
    rw [hx] at hr'
    cases hr'
    exact ⟨f x, replica?_put_self _ hx ((hd x).trans (replica?_eq_some.mp hx).2), hP x hp⟩
  · exact ⟨r', (replica?_put_ne _ hkj).trans hr', hp⟩

/-- What the first change gives to a replica and every further one keeps. -/
theorem mapAt_reached {P : Replica σ → Prop} {f : Replica σ → Replica σ} (hP : ∀ r, P r → P (f r))
    (hd : ∀ r, (f r).dropped = r.dropped) : ∀ {js : List Nat} {n : Network σ} {j : Nat} {r : Replica σ},
    j ∈ js → n.replica? j = some r → P (f r) → ∃ r', (n.mapAt f js).replica? j = some r' ∧ P r'
  | k :: js, n, j, r, hj, hr, h => by
    by_cases hkj : k = j
    · subst hkj
      have hput : (n.put k (f r)).replica? k = some (f r) :=
        replica?_put_self _ hr ((hd r).trans (replica?_eq_some.mp hr).2)
      rw [mapAt_cons_some hr]
      exact mapAt_later hP hd hput h js
    · have hjs := (List.mem_cons.mp hj).resolve_left (Ne.symm hkj)
      cases hx : n.replica? k with
      | none =>
        rw [mapAt_cons_none hx]
        exact mapAt_reached hP hd hjs hr h
      | some x =>
        rw [mapAt_cons_some hx]
        exact mapAt_reached hP hd hjs ((replica?_put_ne _ hkj).trans hr) h

variable [StateMachine σ] {n : Network σ} {i : Nat} {leader r : Replica σ} {term : Nat}

/-- What a leader does to one peer after another. -/
abbrev told (n : Network σ) (leader : Replica σ) (term : Nat) (js : List Nat) : Network σ :=
  n.mapAt (fun f => (f.receive leader term).1) js

theorem covering_told {log : Log} (hlog : leader.log = log) (hb : n.Everywhere Bounded) {j : Nat}
    (h : n.covering log j = true) (js : List Nat) : (n.told leader term js).covering log j = true := by
  subst hlog
  obtain ⟨x, hx, hcov⟩ := covering_iff.mp h
  obtain ⟨y, hy, -, hcov'⟩ := mapAt_later (P := fun f => f.Bounded ∧ Covers f.log leader.log)
    (fun f hf => ⟨hf.1.receive leader term, covers_receive hf.1 hf.2 term⟩)
    (fun f => receive_dropped f leader term) hx ⟨hb j x (replica?_eq_some.mp hx).1, hcov⟩ js
  exact covering_iff.mpr ⟨y, hy, hcov'⟩

/-- A peer that a leader can turn to. -/
structure Attends (n : Network σ) (term j : Nat) (f : Replica σ) : Prop where
  here : n.replica? j = some f
  running : f.stopped = false
  behind : f.term ≤ term
  bound : f.Bounded

theorem Attends.step {j k : Nat} {f x : Replica σ} (h : n.Attends term j f) (hx : n.Attends term k x)
    (leader : Replica σ) : ∃ y, (n.put j (f.receive leader term).1).Attends term k y := by
  by_cases hjk : j = k
  · subst hjk
    exact ⟨_, replica?_put_self _ h.here ((receive_dropped f leader term).trans
      (replica?_eq_some.mp h.here).2), (receive_stopped f leader term).trans h.running,
      receive_term_le leader h.behind, h.bound.receive leader term⟩
  · exact ⟨x, (replica?_put_ne _ hjk).trans hx.here, hx.running, hx.behind, hx.bound⟩

/-- No more is counted than hold the leader's log afterwards, and if not all are counted, then one of them is
unable to. -/
theorem replicate_acks : ∀ {js : List Nat} {n : Network σ} {acks : Nat},
    n.replica? i = some leader → i ∉ js → (∀ j ∈ js, ∃ f, n.Attends term j f) →
    (n.replicate i term js).2.2 = .ok acks →
    acks ≤ js.countP ((n.told leader term js).covering leader.log) ∧
      (acks < js.length → ∃ j ∈ js, ∃ f, (n.told leader term js).replica? j = some f ∧
        f.Unable leader.log)
  | [], n, acks, _, _, _, h => by
    cases h
    exact ⟨Nat.le_refl 0, fun h => absurd h (Nat.lt_irrefl 0)⟩
  | j :: js, n, acks, hi, hjs, hatt, h => by
    rw [List.mem_cons, not_or] at hjs
    obtain ⟨f, hf⟩ := hatt j (List.mem_cons_self ..)
    let n' := n.put j (f.receive leader term).1
    have hi' : n'.replica? i = some leader := by
      rw [replica?_put_ne _ (Ne.symm hjs.1)]; exact hi
    have hhere : n'.replica? j = some (f.receive leader term).1 := replica?_put_self _ hf.here
      ((receive_dropped f leader term).trans (replica?_eq_some.mp hf.here).2)
    have hatt' : ∀ k ∈ js, ∃ x, n'.Attends term k x := fun k hk =>
      (hatt k (List.mem_cons_of_mem j hk)).elim fun x hx => hf.step hx leader
    obtain ⟨hcovers, hunable⟩ := receive_verdict leader hf.running hf.behind hf.bound
    have hbound := hf.bound.receive leader term
    have htold : n.told leader term (j :: js) = n'.told leader term js := mapAt_cons_some hf.here
    unfold replicate at h
    rw [sync_eq hi, hf.here] at h
    rw [htold]
    cases hans : (f.receive leader term).2 with
    | ok len =>
      rw [hans] at hcovers
      simp only [hans] at h
      obtain ⟨rest, hrest, rfl⟩ : ∃ rest, (n'.replicate i term js).2.2 = .ok rest ∧ rest + 1 = acks := by
        cases hr : (n'.replicate i term js).2.2 with
        | error newer => simp [n', hr, Except.map] at h
        | ok rest => exact ⟨rest, rfl, by simpa [n', hr, Except.map] using h⟩
      obtain ⟨hle, hless⟩ := replicate_acks hi' hjs.2 hatt' hrest
      obtain ⟨y, hy, -, hcov⟩ := mapAt_later (P := fun f => f.Bounded ∧ Covers f.log leader.log)
        (fun f hf => ⟨hf.1.receive leader term, covers_receive hf.1 hf.2 term⟩)
        (fun f => receive_dropped f leader term) hhere ⟨hbound, hcovers rfl⟩ js
      refine ⟨?_, fun hlt => ?_⟩
      · rw [List.countP_cons_of_pos (covering_iff.mpr ⟨y, hy, hcov⟩)]
        exact Nat.succ_le_succ hle
      · obtain ⟨k, hk, hx⟩ := hless (by simpa using hlt)
        exact ⟨k, List.mem_cons_of_mem j hk, hx⟩
    | error reject =>
      rw [hans] at hunable
      have hrest : (n'.replicate i term js).2.2 = .ok acks := by
        cases reject with
        | staleTerm newer => exact absurd hans (receive_ne_staleTerm hf.behind leader newer)
        | _ => simpa only [hans] using h
      obtain ⟨hle, -⟩ := replicate_acks hi' hjs.2 hatt' hrest
      obtain ⟨y, hy, -, hun⟩ := mapAt_later (P := fun f => f.Bounded ∧ f.Unable leader.log)
        (fun f hf => ⟨hf.1.receive leader term, hf.2.receive hf.1 term⟩)
        (fun f => receive_dropped f leader term) hhere ⟨hbound, hunable rfl⟩ js
      refine ⟨?_, fun _ => ⟨j, List.mem_cons_self .., y, hy, hun⟩⟩
      rw [List.countP_cons]
      omega

omit [StateMachine σ] in
/-- The peers of a replica that can append an entry attend. -/
theorem Writable.attends (hw : n.Wired) (hb : n.Everywhere Bounded) (hr : n.replica? i = some r)
    (h : n.Writable r) (data : List UInt8) :
    ∀ j ∈ n.reachable r, ∃ f, (n.put i (r.pushed data)).Attends r.term j f := by
  intro j hj
  obtain ⟨f, id, hf, hs, -⟩ := hw.peer hj
  have hij : i ≠ j := by
    rintro rfl
    exact hw.not_mem_reachable (replica?_eq_some.mp hr).1 rfl hj
  exact ⟨f, (replica?_put_ne _ hij).trans hf, hs, h.newest j hj f hf,
    hb j f (replica?_eq_some.mp hf).1⟩

/-- What the number of acknowledgements says of the peers after the round. -/
theorem acknowledged_spread (hw : n.Wired) (hb : n.Everywhere Bounded) (hr : n.replica? i = some r)
    (hwr : n.Writable r) {data : List UInt8} {acks : Nat} (h : n.acknowledged i r data = .ok acks) :
    acks ≤ (n.reachable r).countP ((n.spread i r data).covering (r.pushed data).log) ∧
      (acks < (n.reachable r).length → ∃ j ∈ n.reachable r, ∃ f,
        (n.spread i r data).replica? j = some f ∧ f.Unable (r.pushed data).log) := by
  obtain ⟨hat, hd⟩ := replica?_eq_some.mp hr
  exact replicate_acks (replica?_put_self _ hr hd) (hw.not_mem_reachable hat rfl)
    (hwr.attends hw hb hr data) h

/-! ## Voters that hold an entry -/

/-- What the replica that answers for a voter has at an index. -/
def entryAt? (n : Network σ) (voters : Voters) (id : String) (index : Nat) : Option Entry := do
  let address ← voters[id]?
  let j ← n.resolve? address
  let r ← n.replica? j
  r.log.at? index

omit [StateMachine σ] in
theorem entryAt?_eq {voters : Voters} {id address : String} {j index : Nat}
    (hv : voters[id]? = some address) (hreg : n.registry[address]? = some j)
    (hr : n.replica? j = some r) : n.entryAt? voters id index = r.log.at? index := by
  simp [entryAt?, resolve?, hv, hreg, Option.filter_some, hr]

/-- What an acknowledged write leaves behind: the leader has its entry, and the peers that were counted hold
the leader's log. -/
theorem submit_acknowledged (hw : n.Wired) (hb : n.Everywhere Bounded) (hr : n.replica? i = some r)
    {data : List UInt8} {index : Nat} (h : (n.submit i data).answer = .ok index) :
    index = r.log.length + 1 ∧ r.stopped = false ∧
      (n.submit i data).network.registry = n.registry ∧
      (∃ r', (n.submit i data).network.replica? i = some r' ∧ r'.log = (r.pushed data).log ∧
        r'.leader = true ∧ r'.term = r.term) ∧
      majority r.voters ≤
        (n.reachable r).countP ((n.submit i data).network.covering (r.pushed data).log) + 1 := by
  have hc := submit_write hw i data
  generalize (n.submit i data).network = m, (n.submit i data).answer = ans at hc h ⊢
  subst h
  cases hc with
  | @committed x r' hx hwr ha hcommit hacks =>
    rw [hr] at hx
    cases hx
    obtain ⟨acks, hacks, hmaj⟩ := hacks
    obtain ⟨hle, -⟩ := acknowledged_spread hw hb hr hwr hacks
    obtain ⟨hev, -, hl'⟩ := applied_evolves hw bounded_lasting hb trivial hr hwr.leads hcommit
    have hr' : r' = ((r.pushed data).applyUpTo (r.pushed data).log.length).1 := by rw [hcommit]
    have hlog : r'.log = (r.pushed data).log := by rw [hr', applyUpTo_log]
    have hnot : i ∉ n.reachable r := hw.not_mem_reachable (replica?_eq_some.mp hr).1 rfl
    refine ⟨by simp [pushed], hwr.running, by simp [Network.spread], ⟨r', ?_, hlog, hl', ?_⟩, ?_⟩
    · rw [replica?_mapAt_of_not_mem hnot]
      exact replica?_applied hw hr hcommit
    · rw [hr', applyUpTo_term]
      rfl
    · refine Nat.le_trans hmaj (Nat.succ_le_succ (Nat.le_trans hle ?_))
      refine List.countP_mono_left fun j hj hcov => ?_
      refine covering_told hlog (hev.everywhere bounded_lasting hb) ?_ _
      have hij : i ≠ j := fun e => hnot (e ▸ hj)
      obtain ⟨x, hx, hcov⟩ := covering_iff.mp hcov
      exact covering_iff.mpr ⟨x, (replica?_put_ne _ hij).trans hx, hcov⟩

omit [StateMachine σ] in
/-- A voter whose address leads to a log that covers another one has an entry of the same term there. -/
theorem entryAt?_of_covers {log : Log} {k : Nat} {e : Entry} (he : log[k]? = some e) {voters : Voters}
    {id address : String} {j : Nat} {f : Replica σ} (hv : voters[id]? = some address)
    (hreg : n.registry[address]? = some j) (hf : n.replica? j = some f) (hcov : Covers f.log log) :
    ∃ x, n.entryAt? voters id (k + 1) = some x ∧ x.term = e.term ∧ n.Written k x := by
  obtain ⟨x, hx, hterm⟩ := hcov.term he
  exact ⟨x, (entryAt?_eq hv hreg hf).trans hx, hterm, j, f, (replica?_eq_some.mp hf).1, hx⟩

theorem crownings_append : ∀ (ops later : List (Op σ)) (n : Network σ),
    n.crownings (ops ++ later) = n.crownings ops ++ (n.run ops).crownings later
  | [], _, _ => rfl
  | op :: ops, later, n => by
    rw [List.cons_append, crownings, crownings_append ops, crownings, List.append_assoc]
    rfl

/-- If a write is acknowledged, then besides the leader enough voters at other addresses for a majority hold
an entry of the leader's term. It is the leader's entry if nobody else led at this term, and then a majority of
voters hold it if the leader's id is at the leader's address. -/
theorem voters_hold_committed {ops : List (Op σ)} {i index : Nat} {data : List UInt8}
    (hr : (run {} ops).replica? i = some r)
    (hans : ((run {} ops).submit i data).answer = .ok index) :
    ∃ others : List String, others.Nodup ∧ majority r.voters ≤ others.length + 1 ∧
      (∀ id ∈ others, r.voters[id]? ≠ some r.address ∧ ∃ e,
        ((run {} ops).submit i data).network.entryAt? r.voters id index = some e ∧ e.term = r.term) ∧
      ((∀ c ∈ crownings {} ops, c.term = r.term → c.replica = i) →
        (∀ id ∈ others, ((run {} ops).submit i data).network.entryAt? r.voters id index =
          some ⟨r.term, data⟩) ∧
        (r.voters[r.id]? = some r.address → ∃ ids, Majority r.voters ids ∧
          ∀ id ∈ ids, ((run {} ops).submit i data).network.entryAt? r.voters id index =
            some ⟨r.term, data⟩)) := by
  have hw : (run {} ops).Wired := wired_run wired_empty ops
  have hnext : run {} (ops ++ [.submit i data]) = ((run {} ops).submit i data).network :=
    run_concat ..
  have hattributed : (∀ c ∈ crownings {} ops, c.term = r.term → c.replica = i) →
      ((run {} ops).submit i data).network.Attributed r.term i := by
    intro hone
    rw [← hnext]
    refine run_attributed wired_empty everywhere_empty (attributed_empty ..) fun c hc => ?_
    rw [crownings_append, List.mem_append] at hc
    exact hone c (hc.resolve_right (by simp [crownings, crowning?]))
  obtain ⟨rfl, hrun, hreg, ⟨r', hr', hlog, hl', ht'⟩, hmaj⟩ :=
    submit_acknowledged hw (run_bounded ops) hr hans
  generalize ((run {} ops).submit i data).network = m at hattributed hreg hr' hmaj ⊢
  generalize run {} ops = n at hr hw hreg hmaj
  obtain ⟨others, hnodup, hlen, hothers⟩ := voters_counted n r
    (m.covering (r.pushed data).log)
  rw [← hlen] at hmaj
  have hentry : (r.pushed data).log[r.log.length]? = some ⟨r.term, data⟩ := List.getElem?_concat_length
  have hheld : ∀ id ∈ others, r.voters[id]? ≠ some r.address ∧ ∃ e,
      m.entryAt? r.voters id (r.log.length + 1) = some e ∧ e.term = r.term ∧
        m.Written r.log.length e := by
    intro id hid
    obtain ⟨address, j, hv, hne, hpeer, hcov⟩ := hothers id hid
    obtain ⟨-, -, hat, -⟩ := peer?_eq_some.mp hpeer
    obtain ⟨f, hf, hcov⟩ := covering_iff.mp hcov
    refine ⟨by rw [hv]; simpa using hne, ?_⟩
    exact entryAt?_of_covers hentry hv (hreg ▸ hat) hf hcov
  refine ⟨others, hnodup, hmaj, fun id hid => ?_, fun hone => ?_⟩
  · obtain ⟨hne, e, he, hterm, -⟩ := hheld id hid
    exact ⟨hne, e, he, hterm⟩
  · have hdata : ∀ id ∈ others, m.entryAt? r.voters id (r.log.length + 1) = some ⟨r.term, data⟩ := by
      intro id hid
      obtain ⟨-, e, he, hterm, hwritten⟩ := hheld id hid
      have hsame := (hattributed hone).holds r' (replica?_eq_some.mp hr').1 hl' ht' _ _ hwritten hterm
      rw [hlog, hentry] at hsame
      rw [he, hsame]
    refine ⟨hdata, fun hself => ⟨r.id :: others, ⟨?_, fun id hid => ?_, hmaj⟩, fun id hid => ?_⟩⟩
    · exact List.nodup_cons.mpr ⟨fun hid => (hheld _ hid).1 hself, hnodup⟩
    · rcases List.mem_cons.mp hid with rfl | hid
      · exact Std.ExtTreeMap.mem_iff_isSome_getElem?.mpr (by rw [hself]; rfl)
      · obtain ⟨address, j, hv, -⟩ := hothers id hid
        exact Std.ExtTreeMap.mem_iff_isSome_getElem?.mpr (by rw [hv]; rfl)
    · rcases List.mem_cons.mp hid with rfl | hid
      · obtain ⟨hat, hd⟩ := replica?_eq_some.mp hr
        have hhome := hw.listed i r hat hrun hd
        rw [entryAt?_eq hself (hreg ▸ hhome) hr', hlog]
        exact hentry
      · exact hdata id hid

/-- Three replicas, of which one is cut off. -/
def threeVoters : List (Op Recorder) :=
  [.register "n1" "a1" {}, .register "n2" "a2" {}, .register "n3" "a3" {}, .bootstrap 0,
    .addVoter 0 "n2" "a2" 0, .addVoter 0 "n3" "a3" 0, .isolate "a3"]

/-- The leader and the replica that it still reaches are a majority of three. -/
theorem voters_hold_committed_three_voters : ∃ r, (run {} threeVoters).replica? 0 = some r ∧
    ((run {} threeVoters).submit 0 [1]).answer = .ok 1 ∧ majority r.voters = 2 ∧
    ∃ ids, Majority r.voters ids ∧ ∀ id ∈ ids,
      ((run {} threeVoters).submit 0 [1]).network.entryAt? r.voters id 1 = some ⟨1, [1]⟩ := by
  have hans : ((run {} threeVoters).submit 0 [1]).answer = .ok 1 := by decide +kernel
  have hone : ∀ c ∈ crownings {} threeVoters, c.replica = 0 := by decide +kernel
  have hfacts : ((run {} threeVoters).replica? 0).any (fun r => r.term == 1 &&
      majority r.voters == 2 && r.voters[r.id]? == some r.address) = true := by decide +kernel
  obtain ⟨r, hr, hfacts⟩ := Option.any_eq_true _ _ |>.mp hfacts
  simp only [Bool.and_eq_true, beq_iff_eq] at hfacts
  obtain ⟨⟨hterm, hmaj⟩, hself⟩ := hfacts
  obtain ⟨others, -, -, -, hrest⟩ := voters_hold_committed hr hans
  have hheld := (hrest fun c hc _ => hone c hc).2 hself
  rw [hterm] at hheld
  exact ⟨r, hr, hans, hmaj, hheld⟩

/-! ## Runs in which a majority falls short -/

omit [StateMachine σ] in
/-- A majority has no more voters than there are with a property that all of it have. -/
theorem Majority.le_countP {voters : Voters} {ids : List String} (h : Majority voters ids)
    {p : String → Bool} (hp : ∀ id ∈ ids, p id = true) : majority voters ≤ voters.keys.countP p := by
  rw [List.countP_eq_length_filter]
  refine Nat.le_trans h.size (h.nodup.length_le_of_subset fun id hid => List.mem_filter.mpr ⟨?_, hp id hid⟩)
  exact Std.ExtTreeMap.mem_keys.mpr (h.voter id hid)

/-- A count that shows that no majority of the leader's voters holds an entry. -/
theorem short_of_majority (ops : List (Op σ)) (i index : Nat) (data : List UInt8)
    (h : ((run {} ops).replica? i).any (fun r => decide (r.voters.keys.countP (fun id =>
      ((run {} ops).submit i data).network.entryAt? r.voters id index == some ⟨r.term, data⟩) <
        majority r.voters)) = true) :
    ∃ r, (run {} ops).replica? i = some r ∧ ¬∃ ids, Majority r.voters ids ∧
      ∀ id ∈ ids, ((run {} ops).submit i data).network.entryAt? r.voters id index =
        some ⟨r.term, data⟩ := by
  obtain ⟨r, hr, hshort⟩ := Option.any_eq_true _ _ |>.mp h
  rw [decide_eq_true_eq] at hshort
  refine ⟨r, hr, fun ⟨ids, hmaj, hheld⟩ => ?_⟩
  exact Nat.not_le_of_lt hshort (hmaj.le_countP fun id hid => beq_iff_eq.mpr (hheld id hid))

/-- Four replicas. The leader's id is moved to the address of another one, and the other two are cut off. -/
def movedVoter : List (Op Recorder) :=
  [.register "n1" "a1" {}, .register "n2" "a2" {}, .register "n3" "a3" {}, .register "n4" "a4" {},
    .bootstrap 0, .addVoter 0 "n2" "a2" 0, .addVoter 0 "n3" "a3" 0, .addVoter 0 "n4" "a4" 0,
    .addVoter 0 "n1" "a2" 0, .isolate "a3", .isolate "a4"]

/-- It is not so that a majority of voters holds what is acknowledged. With an id that was moved, two of four
voters are enough. -/
theorem moved_voter_counts_twice : ¬∀ (ops : List (Op Recorder)) (i index : Nat) (data : List UInt8)
    (r : Replica Recorder), (run {} ops).replica? i = some r →
    ((run {} ops).submit i data).answer = .ok index → ∃ ids, Majority r.voters ids ∧
      ∀ id ∈ ids, ((run {} ops).submit i data).network.entryAt? r.voters id index =
        some ⟨r.term, data⟩ := by
  intro h
  obtain ⟨r, hr, hno⟩ := short_of_majority movedVoter 0 1 [1] (by decide +kernel)
  exact hno (h movedVoter 0 1 [1] r hr (by decide +kernel))

/-- Two replicas that have each formed a group of its own. The first adds the second, which has written an
entry. -/
def twoFounders : List (Op Recorder) :=
  [.register "n1" "a1" {}, .register "n2" "a2" {}, .bootstrap 0, .bootstrap 1, .submit 1 [1],
    .addVoter 0 "n2" "a2" 0]

/-- Nor is it so if all voters are where they say. What another leader of the term has written passes for the
entry. -/
theorem equal_terms_pass_for_equal_entries : ¬∀ (ops : List (Op Recorder)) (i index : Nat)
    (data : List UInt8) (r : Replica Recorder), (run {} ops).replica? i = some r →
    r.voters[r.id]? = some r.address →
    ((run {} ops).submit i data).answer = .ok index → ∃ ids, Majority r.voters ids ∧
      ∀ id ∈ ids, ((run {} ops).submit i data).network.entryAt? r.voters id index =
        some ⟨r.term, data⟩ := by
  intro h
  obtain ⟨r, hr, hno⟩ := short_of_majority twoFounders 0 1 [2] (by decide +kernel)
  have hself : ((run {} twoFounders).replica? 0).all
      (fun r => r.voters[r.id]? == some r.address) = true := by decide +kernel
  rw [hr, Option.all_some, beq_iff_eq] at hself
  exact hno (h twoFounders 0 1 [2] r hr hself (by decide +kernel))

end Network

end ReplicatedTable.Raft
