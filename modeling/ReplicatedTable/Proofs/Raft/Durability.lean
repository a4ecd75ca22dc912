import ReplicatedTable.Proofs.Raft.Formation

/-!
# What a closed group never loses

A run of a closed group (`ClosedRun`) starts with a set-up in which a group is formed, and goes on with
whatever can happen to a group that nobody joins any more: writes, elections, partitions, replicas that
step down, shut down or are dropped, machines that fail.

At each point of such a run some log is secured (`Secured`): it is what the members share while the group is
formed, and what the chronicle has decided afterwards. `ClosedRun.guarded` says what one operation does about
a secured log: it stays secured, replicas that hold it keep it, whoever wins an election holds it, and an
entry that is acknowledged was appended to it and is secured in turn. From this follow
`applied_prefix_of_closed` (no two replicas apply different entries) and `acknowledged_of_closed`
(no acknowledged entry is lost).
-/
namespace ReplicatedTable.Raft.Network

open Replica Log

variable {σ : Type} [StateMachine σ]

/-! ## Runs, operation by operation -/

/-- The network after the first operations of a run. -/
def after (ops : List (Op σ)) (k : Nat) : Network σ := run {} (ops.take k)

theorem after_succ {ops : List (Op σ)} {k : Nat} {op : Op σ} (h : ops[k]? = some op) :
    after ops (k + 1) = ((after ops k).step op).network := by
  rw [after, List.take_add_one, h, Option.toList_some, run_concat, after]

theorem after_succ_of_none {ops : List (Op σ)} {k : Nat} (h : ops[k]? = none) :
    after ops (k + 1) = after ops k := by
  rw [after, List.take_add_one, h, Option.toList_none, List.append_nil, after]

theorem wired_after (ops : List (Op σ)) (k : Nat) : (after ops k).Wired := wired_run wired_empty _

theorem after_append {setup : List (Op σ)} (work : List (Op σ)) {k : Nat} (hk : k ≤ setup.length) :
    after (setup ++ work) k = after setup k := by
  rw [after, List.take_append_of_le_length hk, after]

theorem after_length (ops : List (Op σ)) : after ops ops.length = run {} ops := by
  rw [after, List.take_length]

/-! ## Runs of closed groups -/

/-- A run in which a group is formed and is then left to itself. -/
structure ClosedRun (founder : Nat) (setup work : List (Op σ)) : Prop where
  forms : ∀ k op, setup[k]? = some op → (after setup k).Forms founder op
  unhalted : (run {} setup).Unhalted
  /-- Everybody is a member before anything but the set-up happens. -/
  closed : work ≠ [] → ∃ f, (run {} setup).replicas[founder]? = some f ∧
    ∀ r ∈ (run {} setup).replicas, r.id ∈ f.voters
  works : ∀ op ∈ work, op.Works

theorem closedRun_iff {founder : Nat} {setup work : List (Op σ)} : ClosedRun founder setup work ↔
    (∀ k : Fin setup.length, (after setup k).Forms founder setup[k]) ∧
    (run {} setup).Unhalted ∧
    (work = [] ∨ ∃ f ∈ (run {} setup).replicas[founder]?,
      ∀ r ∈ (run {} setup).replicas, r.id ∈ f.voters) ∧
    ∀ op ∈ work, op.Works := by
  constructor
  · intro h
    refine ⟨fun k => h.forms k _ (List.getElem?_eq_getElem k.isLt), h.unhalted, ?_, h.works⟩
    by_cases hne : work = []
    · exact Or.inl hne
    · exact Or.inr (h.closed hne)
  · rintro ⟨hforms, hun, hclosed, hworks⟩
    refine ⟨fun k op hk => ?_, hun, fun hne => hclosed.resolve_left hne, hworks⟩
    obtain ⟨hlt, rfl⟩ := List.getElem?_eq_some_iff.mp hk
    exact hforms ⟨k, hlt⟩

instance (founder : Nat) (setup work : List (Op σ)) : Decidable (ClosedRun founder setup work) :=
  decidable_of_iff' _ closedRun_iff

/-- All members share a log while the group is formed, or it is decided afterwards. -/
inductive Secured (founder : Nat) (setup work : List (Op σ)) (k : Nat) (log : Log) : Prop where
  | forming {voters : Voters} {whole : Log} (hk : k < setup.length ∨ work = [])
    (h : (after (setup ++ work) k).Forming founder voters whole) (hlog : log <+: whole)
  | closed {voters : Voters} {g : Chronicle} (hk : setup.length ≤ k)
    (h : (after (setup ++ work) k).Sound voters g) (hp : (after (setup ++ work) k).Presided g)
    (hlog : log <+: g.decided)

/-- What an operation does about a log that is secured, as `later` says what is secured after it. -/
structure Guarded (log : Log) (n : Network σ) (op : Op σ) (later : Log → Prop) : Prop where
  goes : later log
  keeps : ∀ (j : Nat) (r : Replica σ), n.replicas[j]? = some r → log <+: r.log →
    ∃ r', (n.step op).network.replicas[j]? = some r' ∧ log <+: r'.log
  wins : ∀ i term, op = .campaign i → (n.campaign i).answer = .ok term →
    ∃ r, (n.step op).network.replicas[i]? = some r ∧ log <+: r.log
  writes : ∀ i data index, op = .submit i data → (n.submit i data).answer = .ok index →
    ∃ r, n.replicas[i]? = some r ∧ log <+: r.log ∧ index = r.log.length + 1 ∧
      later (r.log ++ [⟨r.term, data⟩])

variable {founder : Nat} {setup work : List (Op σ)} {voters : Voters} {log : Log} {n : Network σ}
  {later : Log → Prop}

theorem Sound.guarded {g : Chronicle} (h : n.Sound voters g) (hp : n.Presided g) (hw : n.Wired)
    {op : Op σ} (hop : op.Works) (hlog : log <+: g.decided)
    (hlater : ∀ g' log', (n.step op).network.Sound voters g' → (n.step op).network.Presided g' →
      log' <+: g'.decided → later log') : Guarded log n op later := by
  obtain ⟨g', hag, hpres⟩ := step_agrees h hp hw hop
  refine ⟨hlater g' log hag.sound hpres (hlog.trans hag.going.decided), fun j r hr hpre => ?_, ?_, ?_⟩
  · obtain ⟨r', hr', -, hkeeps⟩ := hag.keeps j r hr
    exact ⟨r', hr', hkeeps log hlog hpre⟩
  · rintro i term rfl hans
    obtain ⟨_, -, -, hwon⟩ := campaign_agrees h hp hw i
    obtain ⟨r, hr, hdec⟩ := hwon term hans
    exact ⟨r, hr, hlog.trans hdec⟩
  · rintro i data index rfl hans
    obtain ⟨g'', hag', hpres', hdone⟩ := submit_agrees h hp hw i data
    obtain ⟨r, hr, hdec, hindex, hnew⟩ := hdone index hans
    exact ⟨r, hr, hlog.trans hdec, hindex,
      hlater g'' _ hag'.sound hpres' (hnew ▸ List.prefix_rfl)⟩

theorem Forming.guarded {whole : Log} (h : n.Forming founder voters whole) (hun : n.Unhalted)
    {op : Op σ} (hop : n.Forms founder op) (hlog : log <+: whole)
    (hlater : ∀ voters' whole' log', (n.step op).network.Forming founder voters' whole' →
      log' <+: whole' → later log') : Guarded log n op later := by
  obtain ⟨voters', whole', h', hpre, hgrow⟩ := forming_step h hun hop
  refine ⟨hlater voters' whole' log h' (hlog.trans hpre), fun j r hr hr' => ?_, ?_, ?_⟩
  · obtain ⟨x, hx, hb⟩ := step_later h.wired op hr
    refine ⟨x, hx, ?_⟩
    by_cases hm : x.id ∈ voters'
    · rw [((h'.seated j x hx).member hm).2.2]
      exact hlog.trans hpre
    · -- whoever is no member afterwards was none before, and has an empty log
      have hout : r.id ∉ voters := fun hm' => hm (hb.name.1 ▸ hgrow _ hm')
      rw [((h.seated j r hr).outsider hout).2, List.prefix_nil] at hr'
      rw [hr']
      exact List.nil_prefix
  · rintro i term rfl
    exact hop.elim
  · rintro i data index rfl hans
    obtain ⟨whole'', h'', -, hdone⟩ := h.submit hun i data
    obtain ⟨r, hr, hsame, hnew, hindex⟩ := hdone index hans
    rw [← hsame] at hlog hindex hnew
    exact ⟨r, hr, hlog, hindex, hlater voters whole'' _ h'' (hnew ▸ List.prefix_rfl)⟩

/-! ## What is secured -/

theorem ClosedRun.secured (h : ClosedRun founder setup work) {k : Nat} (hk : k ≤ setup.length)
    {whole : Log} (hf : (after (setup ++ work) k).Forming founder voters whole)
    (hlog : log <+: whole) : Secured founder setup work k log := by
  by_cases hlt : k < setup.length ∨ work = []
  · exact .forming hlt hf hlog
  rw [not_or, Nat.not_lt] at hlt
  obtain ⟨f, hat, hvoters⟩ := h.closed hlt.2
  have hend : after (setup ++ work) k = run {} setup := by
    rw [Nat.le_antisymm hk hlt.1, after_append work (Nat.le_refl _), after_length]
  have hf' := hf
  rw [hend] at hf'
  obtain ⟨hsound, hpres⟩ := hf'.sound (fun e => by simp [e] at hat) (hf'.members hat hvoters)
  rw [← hend] at hsound hpres
  exact .closed hlt.1 hsound hpres hlog

/-- Whoever has not halted by the end of the set-up has never halted. -/
theorem ClosedRun.unhalted_after (h : ClosedRun founder setup work) {k : Nat} (hk : k ≤ setup.length)
    {whole : Log} (hf : (after (setup ++ work) k).Forming founder voters whole) :
    (after (setup ++ work) k).Unhalted := by
  have hend : (after setup k).run (setup.drop k) = run {} setup := by
    rw [after, ← run_append, List.take_append_drop]
  rw [after_append work hk] at hf ⊢
  exact unhalted_of_run hf.wired (fun j r hr => (hf.seated j r hr).bound) (setup.drop k)
    (hend ▸ h.unhalted)

theorem ClosedRun.guarded (h : ClosedRun founder setup work) {k : Nat} {op : Op σ}
    (hop : (setup ++ work)[k]? = some op) (hs : Secured founder setup work k log) :
    Guarded log (after (setup ++ work) k) op (Secured founder setup work (k + 1)) := by
  cases hs with
  | forming hk hf hlog =>
    have hlt : k < setup.length := by
      rcases hk with hk | rfl
      · exact hk
      · rw [List.append_nil] at hop
        exact (List.getElem?_eq_some_iff.mp hop).1
    have hsucc := after_succ hop
    rw [List.getElem?_append_left hlt] at hop
    have hforms := h.forms k op hop
    rw [← after_append work (Nat.le_of_lt hlt)] at hforms
    refine hf.guarded (h.unhalted_after (Nat.le_of_lt hlt) hf) hforms hlog
      fun voters' whole' log' hf' hlog' => ?_
    rw [← hsucc] at hf'
    exact h.secured hlt hf' hlog'
  | closed hk hs hp hlog =>
    have hmem := hop
    rw [List.getElem?_append_right hk] at hmem
    refine hs.guarded hp (wired_after _ k) (h.works op (List.mem_of_getElem? hmem)) hlog
      fun g' log' hs' hp' hlog' => ?_
    rw [← after_succ hop] at hs' hp'
    exact .closed (Nat.le_succ_of_le hk) hs' hp' hlog'

theorem ClosedRun.secured_succ (h : ClosedRun founder setup work) {k : Nat}
    (hs : Secured founder setup work k log) : Secured founder setup work (k + 1) log := by
  cases hop : (setup ++ work)[k]? with
  | some op => exact (h.guarded hop hs).goes
  | none =>
    have hend := List.getElem?_eq_none_iff.mp hop
    rw [List.length_append] at hend
    have hsame := after_succ_of_none hop
    cases hs with
    | forming hk hf hlog =>
      exact .forming (hk.imp (fun hk => by omega) id) (hsame ▸ hf) hlog
    | closed hk hs hp hlog => exact .closed (by omega) (hsame ▸ hs) (hsame ▸ hp) hlog

theorem ClosedRun.secured_later (h : ClosedRun founder setup work) {k m : Nat} (hkm : k ≤ m)
    (hs : Secured founder setup work k log) : Secured founder setup work m log := by
  induction hkm with
  | refl => exact hs
  | step _ ih => exact h.secured_succ ih

theorem ClosedRun.secured_nil (h : ClosedRun founder setup work) (k : Nat) :
    Secured founder setup work k [] :=
  h.secured_later (Nat.zero_le k) (h.secured (Nat.zero_le _) forming_empty List.prefix_rfl)

/-- Replicas that hold what is secured keep it. -/
theorem ClosedRun.keeps (h : ClosedRun founder setup work) {k m j : Nat} (hkm : k ≤ m)
    (hs : Secured founder setup work k log)
    (hr : ∃ r, (after (setup ++ work) k).replicas[j]? = some r ∧ log <+: r.log) :
    ∃ r, (after (setup ++ work) m).replicas[j]? = some r ∧ log <+: r.log := by
  induction hkm with
  | refl => exact hr
  | @step m hkm ih =>
    obtain ⟨r, hr, hpre⟩ := ih
    cases hop : (setup ++ work)[m]? with
    | some op =>
      rw [after_succ hop]
      exact (h.guarded hop (h.secured_later hkm hs)).keeps j r hr hpre
    | none =>
      rw [after_succ_of_none hop]
      exact ⟨r, hr, hpre⟩

/-! ## A run of three replicas -/

omit [StateMachine σ] in
/-- Three replicas form a group and share an entry. -/
def formation (first other : σ) : List (Op σ) :=
  [.register "n1" "a1" first, .register "n2" "a2" other, .register "n3" "a3" other, .bootstrap 0,
    .addVoter 0 "n2" "a2" 0, .addVoter 0 "n3" "a3" 0, .submit 0 [1]]

omit [StateMachine σ] in
/-- The third replica misses an entry and loses the election after the leader is cut off; the second one
wins and goes on. -/
def failover : List (Op σ) :=
  [.isolate "a3", .submit 0 [2], .heal "a3", .isolate "a1", .campaign 2, .campaign 1, .submit 1 [3]]

/-! ## Applied entries -/

/-- What anybody has applied is a front of one log. -/
theorem Secured.front {k : Nat} (hs : Secured founder setup work k log) : ∃ whole : Log,
    ∀ (j : Nat) (r : Replica σ), (after (setup ++ work) k).replicas[j]? = some r →
      r.log.take r.applied <+: whole := by
  cases hs with
  | @forming _ whole hk hf hlog =>
    exact ⟨whole, fun j r hr => (List.take_prefix ..).trans (hf.seated j r hr).log_front⟩
  | @closed _ g hk hs hp hlog => exact ⟨g.decided, fun j r hr => (hs.fits j r hr).front⟩

theorem numbered_prefix {a b : Log} (h : a <+: b) : Log.numbered a <+: Log.numbered b := by
  obtain ⟨rest, rfl⟩ := h
  rw [Log.numbered, Log.numbered, List.mapIdx_append]
  exact List.prefix_append ..

/-- At any point of a run of a closed group, what one machine has accepted is a front of what another one
has, or the other way round. -/
theorem applied_prefix_of_closed {setup work : List (Op σ)}
    (h : ClosedRun founder (setup.map (Op.map Journal.opened)) (work.map (Op.map Journal.opened)))
    (k : Nat) {i j : Nat} {r s : Replica (Journal σ)}
    (hr : (journaled ((setup ++ work).take k)).replicas[i]? = some r)
    (hs : (journaled ((setup ++ work).take k)).replicas[j]? = some s) :
    r.machine.accepted <+: s.machine.accepted ∨ s.machine.accepted <+: r.machine.accepted := by
  have hrun : journaled ((setup ++ work).take k) = after
      (setup.map (Op.map Journal.opened) ++ work.map (Op.map Journal.opened)) k := by
    rw [journaled, List.map_take, List.map_append, after]
  have hra := (journaled_balanced hr).account.accepted
  have hsa := (journaled_balanced hs).account.accepted
  rw [hrun] at hr hs
  obtain ⟨whole, hfront⟩ := (h.secured_nil k).front
  rw [hra, hsa]
  exact (List.prefix_or_prefix_of_prefix (hfront i r hr) (hfront j s hs)).imp numbered_prefix
    numbered_prefix

/-- The first machine fails on the second entry, and the other replicas go on without it. -/
theorem applied_prefix_of_closed_failover :
    ClosedRun 0 ((formation pickyRecorder {}).map (Op.map Journal.opened))
      (failover.map (Op.map Journal.opened)) ∧
    ∃ r s, (journaled ((formation pickyRecorder {} ++ failover).take 14)).replicas[0]? = some r ∧
      (journaled ((formation pickyRecorder {} ++ failover).take 14)).replicas[1]? = some s ∧
      r.machine.accepted.length = 1 ∧ s.machine.accepted.length = 3 ∧
      (r.machine.accepted <+: s.machine.accepted ∨ s.machine.accepted <+: r.machine.accepted) := by
  have hclosed : ClosedRun 0 ((formation pickyRecorder {}).map (Op.map Journal.opened))
      (failover.map (Op.map Journal.opened)) := by decide +kernel
  have hr : ((journaled ((formation pickyRecorder {} ++ failover).take 14)).replicas[0]?.map
      fun r => r.machine.accepted.length) = some 1 := by decide +kernel
  have hs : ((journaled ((formation pickyRecorder {} ++ failover).take 14)).replicas[1]?.map
      fun r => r.machine.accepted.length) = some 3 := by decide +kernel
  obtain ⟨r, hr, hrlen⟩ := Option.map_eq_some_iff.mp hr
  obtain ⟨s, hs, hslen⟩ := Option.map_eq_some_iff.mp hs
  exact ⟨hclosed, r, s, hr, hs, hrlen, hslen, applied_prefix_of_closed hclosed 14 hr hs⟩

/-! ## Acknowledged entries -/

/-- An operation of a run succeeds, with this number for an answer. -/
def Succeeds (ops : List (Op σ)) (k : Nat) (op : Op σ) (number : Nat) : Prop :=
  ops[k]? = some op ∧ ((after ops k).step op).answer = .ok (some number)

/-- A replica has an entry with this data at an index. -/
def HoldsAt (n : Network σ) (i index : Nat) (data : List UInt8) : Prop :=
  ∃ r e, n.replicas[i]? = some r ∧ r.log.at? index = some e ∧ e.data = data

omit [StateMachine σ] in
theorem holdsAt_of_prefix {i : Nat} {e : Entry}
    (h : ∃ r, n.replicas[i]? = some r ∧ log ++ [e] <+: r.log) :
    n.HoldsAt i (log.length + 1) e.data := by
  obtain ⟨r, hr, rest, hlog⟩ := h
  refine ⟨r, e, hr, ?_, rfl⟩
  rw [← hlog]
  simp [at?]

theorem campaign_ok {i term : Nat} (h : (n.step (.campaign i)).answer = .ok (some term)) :
    (n.campaign i).answer = .ok term := by
  have hstep : (n.step (.campaign i)).answer = (n.campaign i).answer.map some := rfl
  rw [hstep] at h
  cases hans : (n.campaign i).answer with
  | error e => rw [hans] at h; cases h
  | ok t => rw [hans] at h; cases h; rfl

theorem submit_ok {i index : Nat} {data : List UInt8}
    (h : (n.step (.submit i data)).answer = .ok (some index)) :
    (n.submit i data).answer = .ok index := by
  have hstep : (n.step (.submit i data)).answer = (n.submit i data).answer.map some := rfl
  rw [hstep] at h
  cases hans : (n.submit i data).answer with
  | error e => rw [hans] at h; cases h
  | ok t => rw [hans] at h; cases h; rfl

/-- Once a write is acknowledged, whoever wins an election holds its entry from then on, and whatever is
acknowledged later was written behind it, by a replica that held it. -/
theorem acknowledged_of_closed (h : ClosedRun founder setup work) {k i index : Nat} {data : List UInt8}
    (hk : Succeeds (setup ++ work) k (.submit i data) index) :
    (∀ l j term, k < l → Succeeds (setup ++ work) l (.campaign j) term →
      ∀ m, l < m → (after (setup ++ work) m).HoldsAt j index data) ∧
    ∀ l j data' index', k < l → Succeeds (setup ++ work) l (.submit j data') index' →
      index < index' ∧ (after (setup ++ work) l).HoldsAt j index data := by
  obtain ⟨hop, hans⟩ := hk
  obtain ⟨r, hr, -, rfl, hs⟩ := (h.guarded hop (h.secured_nil k)).writes i data index rfl
    (submit_ok hans)
  refine ⟨fun l j term hkl hl m hlm => ?_, fun l j data' index' hkl hl => ?_⟩
  · obtain ⟨hop', hans'⟩ := hl
    have hs' := h.secured_later (Nat.succ_le_of_lt hkl) hs
    have hwon := (h.guarded hop' hs').wins j term rfl (campaign_ok hans')
    rw [← after_succ hop'] at hwon
    exact holdsAt_of_prefix (h.keeps hlm (h.secured_succ hs') hwon)
  · obtain ⟨hop', hans'⟩ := hl
    have hs' := h.secured_later (Nat.succ_le_of_lt hkl) hs
    obtain ⟨x, hx, hpre, hindex, -⟩ := (h.guarded hop' hs').writes j data' index' rfl
      (submit_ok hans')
    refine ⟨?_, holdsAt_of_prefix ⟨x, hx, hpre⟩⟩
    have := hpre.length_le
    rw [List.length_append, List.length_singleton] at this
    omega

/-- The second entry is acknowledged by the first leader, held by the next one, and the third entry comes
behind it. -/
theorem acknowledged_of_closed_failover :
    ClosedRun 0 (formation ({} : Recorder) {}) failover ∧
      Succeeds (formation ({} : Recorder) {} ++ failover) 8 (.submit 0 [2]) 2 ∧
      Succeeds (formation ({} : Recorder) {} ++ failover) 12 (.campaign 1) 2 ∧
      Succeeds (formation ({} : Recorder) {} ++ failover) 13 (.submit 1 [3]) 3 ∧
      (after (formation ({} : Recorder) {} ++ failover) 14).HoldsAt 1 2 [2] ∧ 2 < 3 ∧
      (after (formation ({} : Recorder) {} ++ failover) 13).HoldsAt 1 2 [2] := by
  have hclosed : ClosedRun 0 (formation ({} : Recorder) {}) failover := by decide +kernel
  have hwrite : Succeeds (formation ({} : Recorder) {} ++ failover) 8 (.submit 0 [2]) 2 :=
    ⟨rfl, by decide +kernel⟩
  have hwin : Succeeds (formation ({} : Recorder) {} ++ failover) 12 (.campaign 1) 2 :=
    ⟨rfl, by decide +kernel⟩
  have hnext : Succeeds (formation ({} : Recorder) {} ++ failover) 13 (.submit 1 [3]) 3 :=
    ⟨rfl, by decide +kernel⟩
  obtain ⟨hholds, hlater⟩ := acknowledged_of_closed hclosed hwrite
  exact ⟨hclosed, hwrite, hwin, hnext, hholds 12 1 2 (by decide) hwin 14 (by decide),
    hlater 13 1 [3] 3 (by decide) hnext⟩

end ReplicatedTable.Raft.Network
