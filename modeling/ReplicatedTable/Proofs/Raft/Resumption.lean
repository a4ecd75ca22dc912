import Mathlib.Data.Finset.Max
import Mathlib.Data.Prod.Lex
import ReplicatedTable.Proofs.Raft.Catchup

/-!
# How a closed group goes on

Whatever a closed group has gone through, it goes on as soon as a majority of it is present: held by
somebody, running and not cut off. Replicas that are present reach each other
(`Grouped.mem_reachable_iff`). One of them has the newest log of all, so that every other one grants its vote
(`exists_newest`), and it is elected. Nobody within its reach is at a later term then, and nobody refuses the
next entry, unless a machine fails (`Sound.submit_succeeds`). That write brings all of them to one log
(`write_resumes`).
-/
namespace ReplicatedTable.Raft

open Log

variable {σ : Type}

/-- Logs in the order in which votes compare them. -/
def Log.rank (log : Log) : Nat ×ₗ Nat := toLex (lastTerm log, log.length)

theorem Log.upToDate_iff_rank {log other : Log} : upToDate log other = true ↔ rank log ≤ rank other := by
  rw [upToDate_iff, rank, rank, Prod.Lex.toLex_le_toLex]

namespace Network
open Replica

variable {founder : Nat} {setup work : List (Op σ)} {voters : Voters} {g : Chronicle} {n : Network σ}
  {i j : Nat} {r : Replica σ}

/-! ## Who is present -/

/-- The replicas that somebody holds, that run and that are not cut off. -/
def present (n : Network σ) : List Nat := (List.range n.replicas.length).filter fun j =>
  (n.replica? j).any fun r => !r.stopped && decide (r.address ∉ n.isolated)

theorem mem_present : j ∈ n.present ↔
    ∃ r, n.replica? j = some r ∧ r.stopped = false ∧ r.address ∉ n.isolated := by
  simp only [present, List.mem_filter, List.mem_range, Option.any_eq_true, Bool.and_eq_true,
    Bool.not_eq_true', decide_eq_true_eq]
  refine ⟨fun h => h.2, fun ⟨r, hr, h⟩ => ⟨?_, r, hr, h⟩⟩
  exact (List.getElem?_eq_some_iff.mp (replica?_eq_some.mp hr).1).1

theorem nodup_present (n : Network σ) : n.present.Nodup := List.nodup_range.filter _

theorem present_put {x y : Replica σ} (hy : n.replica? i = some y) (hd : x.dropped = false)
    (hs : x.stopped = y.stopped) (ha : x.address = y.address) : (n.put i x).present = n.present := by
  have hlen : (n.put i x).replicas.length = n.replicas.length := List.length_set ..
  rw [present, present, hlen]
  refine List.filter_congr fun j _ => ?_
  by_cases hij : i = j
  · subst hij
    rw [replica?_put_self x hy hd, hy, isolated_put, Option.any_some, Option.any_some, hs, ha]
  · rw [replica?_put_ne x hij, isolated_put]

/-- In a closed group a replica that is present reaches all others that are. -/
theorem Grouped.mem_reachable_iff (h : n.Grouped voters) (hw : n.Wired) (hr : n.replica? i = some r)
    (hi : i ∈ n.present) : j ∈ n.reachable r ↔ j ∈ n.present ∧ j ≠ i := by
  obtain ⟨hat, hd⟩ := replica?_eq_some.mp hr
  obtain ⟨r', hr', hrun, hfree⟩ := mem_present.mp hi
  rw [hr] at hr'
  cases hr'
  rw [mem_reachable]
  constructor
  · rintro ⟨id, a, hv, hne, hp⟩
    obtain ⟨-, hafree, hreg, x, hx⟩ := peer?_eq_some.mp hp
    obtain ⟨y, hy, rfl, hs⟩ := hw.leads a j hreg
    rw [(replica?_eq_some.mp hx).1] at hy
    cases hy
    refine ⟨mem_present.mpr ⟨x, hx, hs, hafree⟩, ?_⟩
    rintro rfl
    rw [hr] at hx
    cases hx
    exact hne rfl
  · rintro ⟨hj, hji⟩
    obtain ⟨x, hx, hs, hxfree⟩ := mem_present.mp hj
    obtain ⟨hxat, hxd⟩ := replica?_eq_some.mp hx
    obtain ⟨-, hvoter⟩ := h.knows j x hxat
    have hreg := hw.listed j x hxat hs hxd
    refine ⟨x.id, x.address, by rw [(h.knows i r hat).1]; exact hvoter, fun ha => ?_,
      peer?_eq_some.mpr ⟨hfree, hxfree, hreg, x, hx⟩⟩
    rw [ha, hw.listed i r hat hrun hd] at hreg
    exact hji (Option.some.inj hreg).symm

/-- Those who are present are the replica and the peers that it reaches. -/
theorem Grouped.mem_present_iff (h : n.Grouped voters) (hw : n.Wired) (hr : n.replica? i = some r)
    (hi : i ∈ n.present) : j ∈ n.present ↔ j ∈ i :: n.reachable r := by
  rw [List.mem_cons, h.mem_reachable_iff hw hr hi]
  constructor
  · intro hj
    by_cases hji : j = i
    · exact Or.inl hji
    · exact Or.inr ⟨hj, hji⟩
  · rintro (rfl | ⟨hj, -⟩)
    · exact hi
    · exact hj

theorem Grouped.length_present (h : n.Grouped voters) (hw : n.Wired) (hr : n.replica? i = some r)
    (hi : i ∈ n.present) : n.present.length = (n.reachable r).length + 1 :=
  ((List.perm_ext_iff_of_nodup (nodup_present n) (h.nodup_electorate hw hr)).mpr fun _ =>
    h.mem_present_iff hw hr hi).length_eq

/-! ## Who is elected -/

/-- Somebody who is present has the newest log of those who are. -/
theorem exists_newest (h : n.present ≠ []) : ∃ i ∈ n.present, ∃ r, n.replica? i = some r ∧
    ∀ j ∈ n.present, n.grants r j = true := by
  let log : Nat → Log := fun j => (n.replica? j).elim [] Replica.log
  obtain ⟨i, hi, hmax⟩ := Finset.exists_max_image n.present.toFinset (fun j => rank (log j))
    ⟨_, List.mem_toFinset.mpr (List.getLast_mem h)⟩
  rw [List.mem_toFinset] at hi
  obtain ⟨r, hr, -⟩ := mem_present.mp hi
  refine ⟨i, hi, r, hr, fun j hj => ?_⟩
  obtain ⟨x, hx, -⟩ := mem_present.mp hj
  have hle := hmax j (List.mem_toFinset.mpr hj)
  simp only [log, hr, hx, Option.elim_some] at hle
  simpa only [grants, hx] using upToDate_iff_rank.mpr hle

/-- Whoever has the newest log of a majority can be elected. -/
theorem Grouped.electable (h : n.Grouped voters) (hw : n.Wired) (hr : n.replica? i = some r)
    (hi : i ∈ n.present) (hmaj : majority voters ≤ n.present.length)
    (hnewest : ∀ j ∈ n.present, n.grants r j = true) : n.Electable r := by
  obtain ⟨hknows, hvoter⟩ := h.knows i r (replica?_eq_some.mp hr).1
  obtain ⟨r', hr', hrun, -⟩ := mem_present.mp hi
  rw [hr] at hr'
  cases hr'
  refine ⟨hrun, ?_, ?_⟩
  · rw [hknows]
    exact Std.ExtTreeMap.mem_iff_isSome_getElem?.mpr (by rw [hvoter]; rfl)
  · rw [List.filter_eq_self.mpr fun j hj => hnewest j ((h.mem_reachable_iff hw hr hi).mp hj).1, hknows,
      ← h.length_present hw hr hi]
    exact hmaj

variable [StateMachine σ]

/-- Messages do not change who is present. -/
theorem present_told (n : Network σ) (leader : Replica σ) (term : Nat) (js : List Nat) :
    (n.told leader term js).present = n.present := by
  refine mapAt_induction (P := fun m => m.present = n.present) (fun m j x _ hm hx => ?_) rfl
  exact (present_put hx ((receive_dropped ..).trans (replica?_eq_some.mp hx).2)
    (receive_stopped ..) (receive_address ..)).trans hm

/-- A write does not change who is present. -/
theorem present_submit (hw : n.Wired) (i : Nat) (data : List UInt8) :
    (n.submit i data).network.present = n.present := by
  have hspread : ∀ {r : Replica σ}, n.replica? i = some r →
      (n.spread i r data).present = n.present := fun hr =>
    (present_told ..).trans (present_put hr (replica?_eq_some.mp hr).2 rfl rfl)
  have happlied : ∀ {r r' : Replica σ} {ans : Except Error Unit}, n.replica? i = some r →
      (r.pushed data).applyUpTo (r.pushed data).log.length = (r', ans) →
      ((n.spread i r data).put i r').present = n.present := by
    intro r r' ans hr h
    have hr' : r' = ((r.pushed data).applyUpTo (r.pushed data).log.length).1 := by rw [h]
    refine (present_put (replica?_spread hw hr data) ?_ ?_ ?_).trans (hspread hr)
    · rw [hr', applyUpTo_dropped]
      exact (replica?_eq_some.mp hr).2
    · rw [hr', applyUpTo_stopped]
    · rw [hr', applyUpTo_address]
  have hc := submit_write hw i data
  generalize (n.submit i data).network = m, (n.submit i data).answer = ans at hc ⊢
  cases hc with
  | refused => rfl
  | conceded hr =>
    have hd := (replica?_eq_some.mp hr).2
    exact present_put hr (by simpa [deposed] using hd) (by simp [deposed]) (by simp [deposed])
  | unacknowledged hr => exact hspread hr
  | failed hr _ _ hf => exact happlied hr hf
  | committed hr _ _ hc => exact (present_told ..).trans (happlied hr hc)

theorem campaign_of_electable (hw : n.Wired) (hr : n.replica? i = some r) (he : n.Electable r) :
    (n.campaign i).answer = .ok (n.nextTerm r) ∧ (n.campaign i).network =
      (n.put i (r.elected (n.nextTerm r))).told (r.elected (n.nextTerm r)) (n.nextTerm r)
        (n.reachable r) := by
  have hc := campaign_election hw i
  generalize (n.campaign i).network = m, (n.campaign i).answer = ans at hc ⊢
  cases hc with
  | refused e h => exact absurd he (h r hr)
  | won hr' _ =>
    rw [hr] at hr'
    cases hr'
    exact ⟨rfl, rfl⟩

/-- Messages do not change whom a replica reaches. -/
theorem reachable_told (n : Network σ) (leader : Replica σ) (term : Nat) (js : List Nat)
    (r : Replica σ) : (n.told leader term js).reachable r = n.reachable r := by
  refine mapAt_induction (P := fun m => m.reachable r = n.reachable r) (fun m j x _ hm hx => ?_) rfl
  exact (reachable_put hx ((receive_dropped ..).trans (replica?_eq_some.mp hx).2) r).trans hm

/-- Whoever was elected can append an entry, unless its machine has failed. -/
theorem Grouped.writable_elected (h : n.Grouped voters) (hw : n.Wired) (hr : n.replica? i = some r)
    (he : n.Electable r) (hrun : r.halted = none) :
    (n.campaign i).network.replica? i = some (r.elected (n.nextTerm r)) ∧
      (n.campaign i).network.reachable (r.elected (n.nextTerm r)) = n.reachable r ∧
      (n.campaign i).network.Writable (r.elected (n.nextTerm r)) := by
  obtain ⟨hat, hd⟩ := replica?_eq_some.mp hr
  obtain ⟨hnot, hnodup⟩ := List.nodup_cons.mp (h.nodup_electorate hw hr)
  have hd' : (r.elected (n.nextTerm r)).dropped = false := by simpa [elected] using hd
  have hreach : (n.campaign i).network.reachable (r.elected (n.nextTerm r)) = n.reachable r := by
    rw [(campaign_of_electable hw hr he).2, reachable_told, reachable_put hr hd', reachable,
      elected_voters, elected_address, reachable]
  rw [hreach]
  rw [(campaign_of_electable hw hr he).2] at hreach ⊢
  refine ⟨?_, rfl, by simpa [elected] using he.running, by simpa [elected] using hrun,
    elected_leader .., ?_, ?_⟩
  · rw [replica?_mapAt_of_not_mem hnot]
    exact replica?_put_self _ hr hd'
  · have := List.length_filter_le (n.grants r) (n.reachable r)
    have := he.votes
    rw [hreach, elected_voters]
    omega
  · rw [hreach, elected_term]
    intro j hj f hf
    obtain ⟨x, id, hx, -⟩ := hw.peer hj
    have hij : i ≠ j := fun e => hnot (e ▸ hj)
    have hfat := mapAt_getElem?_of_mem (f := fun f => (f.receive (r.elected (n.nextTerm r))
      (n.nextTerm r)).1) hnodup hj ((replica?_put_ne (r.elected (n.nextTerm r)) hij).trans hx)
    rw [(replica?_eq_some.mp hf).1] at hfat
    cases hfat
    exact receive_term_le _ (Nat.le_of_lt
      (lt_nextTerm hw hr (List.mem_cons_of_mem i hj) (replica?_eq_some.mp hx).1))

/-! ## The next write -/

/-- A leader that can append an entry has it acknowledged and applied, unless a machine fails. -/
theorem Sound.submit_succeeds (h : n.Sound voters g) (hp : n.Presided g) (hw : n.Wired)
    (hr : n.replica? i = some r) (hwr : n.Writable r) (data : List UInt8)
    (hun : (n.submit i data).network.Unhalted) : ∃ index, (n.submit i data).answer = .ok index := by
  have hc := submit_write hw i data
  generalize (n.submit i data).network = m, (n.submit i data).answer = ans at hc hun ⊢
  cases hc with
  | refused e hno => exact absurd hwr (hno r hr)
  | @conceded x newer hx hl hn hpeer =>
    rw [hr] at hx
    cases hx
    obtain ⟨j, hj, f, hf, rfl⟩ := hpeer
    exact absurd hn (Nat.not_lt_of_le (hwr.newest j hj f hf))
  | @unacknowledged x hx _ ha hacks =>
    rw [hr] at hx
    cases hx
    obtain ⟨acks, hacks, hshort⟩ := hacks
    have hquorum := hwr.quorum
    have hb : n.Everywhere Bounded := fun j f hf => (h.fits j f hf).bound
    obtain ⟨j, hj, f, hf, hunable⟩ := (acknowledged_spread hw hb hr hwr hacks).2 (by omega)
    have hfat := (replica?_eq_some.mp hf).1
    obtain ⟨hag, -⟩ := h.spread hp hw hr hwr data
    have hdecided : g.decided <+: (r.pushed data).log :=
      (hp.writer h hw hr hwr).trans (List.prefix_append ..)
    rcases hunable with hhalted | ⟨hconflict, -⟩
    · rw [hun j f hfat] at hhalted
      cases hhalted
    · -- what the peer has applied is decided, and so it agrees with the leader's log
      have hle := (hag.sound.fits j f hfat).applied_le_agreement hdecided
      omega
  | @failed x r' e hx hwx ha hf hacks =>
    have hat := (replica?_eq_some.mp (replica?_applied hw hx hf)).1
    have hhalted := applyUpTo_of_error (x.pushed data) (x.pushed data).log.length hwx.sound
      (congrArg Prod.snd hf)
    rw [hf, hun i r' hat] at hhalted
    cases hhalted
  | committed => exact ⟨_, rfl⟩

/-! ## Groups that are formed -/

/-- A set-up after which everybody is a member. -/
structure Formed (founder : Nat) (setup : List (Op σ)) : Prop where
  forms : ∀ k op, setup[k]? = some op → (after setup k).Forms founder op
  unhalted : (run {} setup).Unhalted
  complete : ∃ f, (run {} setup).replicas[founder]? = some f ∧
    ∀ r ∈ (run {} setup).replicas, r.id ∈ f.voters

theorem Formed.closedRun (h : Formed founder setup) (hworks : ∀ op ∈ work, op.Works) :
    ClosedRun founder setup work :=
  ⟨h.forms, h.unhalted, fun _ => h.complete, hworks⟩

theorem formed_iff : Formed founder setup ↔ ClosedRun founder setup [] ∧
    ∃ f ∈ (run {} setup).replicas[founder]?, ∀ r ∈ (run {} setup).replicas, r.id ∈ f.voters :=
  ⟨fun h => ⟨h.closedRun fun _ hop => absurd hop List.not_mem_nil, h.complete⟩,
    fun ⟨h, hcomplete⟩ => ⟨h.forms, h.unhalted, hcomplete⟩⟩

instance (founder : Nat) (setup : List (Op σ)) : Decidable (Formed founder setup) :=
  decidable_of_iff' _ formed_iff

/-- Whatever a group goes through once it is formed, its state fits a chronicle. -/
theorem Formed.sound (h : Formed founder setup) (hworks : ∀ op ∈ work, op.Works) :
    ∃ voters g, (run {} (setup ++ work)).Sound voters g ∧ (run {} (setup ++ work)).Presided g := by
  have hclosed : ClosedRun founder setup [] := h.closedRun fun _ hop => absurd hop List.not_mem_nil
  have hend : after (setup ++ []) setup.length = run {} setup := by
    rw [after_append [] (Nat.le_refl _), after_length]
  obtain ⟨voters, g, hs, hp⟩ :
      ∃ voters g, (run {} setup).Sound voters g ∧ (run {} setup).Presided g := by
    cases hclosed.secured_nil setup.length with
    | @forming voters whole hk hf hlog =>
      rw [hend] at hf
      obtain ⟨f, hat, hall⟩ := h.complete
      exact ⟨_, _, hf.sound (fun e => by simp [e] at hat) (hf.members hat hall)⟩
    | @closed voters g hk hs hp hlog => exact ⟨voters, g, hend ▸ hs, hend ▸ hp⟩
  obtain ⟨g', hag, hp'⟩ := run_agrees hs hp (wired_run wired_empty setup) hworks
  rw [← run_append] at hag hp'
  exact ⟨voters, g', hag.sound, hp'⟩

/-- If a majority of a closed group is present, then somebody who is present is elected, and the next write on
it succeeds and leaves all who are present with one log, all of it applied, as long as no machine fails. -/
theorem write_resumes (h : Formed founder setup) (hworks : ∀ op ∈ work, op.Works)
    (hmaj : ∃ r ∈ (run {} (setup ++ work)).replicas,
      majority r.voters ≤ (run {} (setup ++ work)).present.length) :
    ∃ i ∈ (run {} (setup ++ work)).present, ∃ term,
      ((run {} (setup ++ work)).campaign i).answer = .ok term ∧
      ∀ data, (((run {} (setup ++ work)).campaign i).network.submit i data).network.Unhalted →
        ∃ log : Log, (((run {} (setup ++ work)).campaign i).network.submit i data).answer =
            .ok (log.length + 1) ∧
          ∀ j ∈ (run {} (setup ++ work)).present, ∃ s,
            (((run {} (setup ++ work)).campaign i).network.submit i data).network.replica? j =
              some s ∧ s.log = log ++ [⟨term, data⟩] ∧ s.applied = s.log.length := by
  obtain ⟨voters, g, hs, hp⟩ := h.sound hworks
  have hw : (run {} (setup ++ work)).Wired := wired_run wired_empty _
  generalize run {} (setup ++ work) = n at hmaj hs hp hw ⊢
  obtain ⟨x, hx, hmaj⟩ := hmaj
  obtain ⟨k, hk⟩ := List.mem_iff_getElem?.mp hx
  rw [(hs.grouped.knows k x hk).1] at hmaj
  obtain ⟨i, hi, r, hr, hnewest⟩ := exists_newest (n := n) fun e => by
    rw [e, majority, List.length_nil] at hmaj
    omega
  have he := hs.grouped.electable hw hr hi hmaj hnewest
  refine ⟨i, hi, n.nextTerm r, (campaign_of_electable hw hr he).1, fun data hun => ?_⟩
  obtain ⟨g', hag, hp', -⟩ := campaign_agrees hs hp hw i
  have hw' : (n.campaign i).network.Wired := hw.campaign i
  have hrun : r.halted = none := by
    have hb : n.Everywhere Bounded := fun j f hf => (hs.fits j f hf).bound
    exact unhalted_of_run hw hb [.campaign i, .submit i data] hun i r (replica?_eq_some.mp hr).1
  obtain ⟨hself, hreach, hwr⟩ := hs.grouped.writable_elected hw hr he hrun
  obtain ⟨index, hans⟩ := hag.sound.submit_succeeds hp' hw' hself hwr data hun
  obtain ⟨r', hr', rfl, -, hall⟩ := hag.sound.caught_up hp' hw' hans
  rw [hself] at hr'
  cases hr'
  rw [hreach, elected_log, elected_term] at hall
  refine ⟨r.log, by rw [hans, elected_log], fun j hj => ?_⟩
  obtain ⟨s, hs', hdone⟩ := hall j ((hs.grouped.mem_present_iff hw hr hi).mp hj)
  obtain ⟨hlog, happlied⟩ := hdone (hun j s (replica?_eq_some.mp hs').1)
  refine ⟨s, hs', hlog, ?_⟩
  rw [happlied, hlog, List.length_append, List.length_singleton]

/-- The three replicas after the failover, with the first leader back. -/
def reunited : Network Recorder :=
  run {} (formation ({} : Recorder) {} ++ (failover ++ [.heal "a1"]))

/-- All three are present, and whichever of them wins brings the others to its log. -/
theorem write_resumes_reunited : Formed 0 (formation ({} : Recorder) {}) ∧
    reunited.present = [0, 1, 2] ∧ ∃ i ∈ [0, 1, 2], ∃ term,
      (reunited.campaign i).answer = .ok term ∧ ∃ log : Log,
        ((reunited.campaign i).network.submit i [4]).answer = .ok (log.length + 1) ∧
        ∀ j ∈ [0, 1, 2], ∃ s,
          ((reunited.campaign i).network.submit i [4]).network.replica? j = some s ∧
            s.log = log ++ [⟨term, [4]⟩] ∧ s.applied = s.log.length := by
  have hformed : Formed 0 (formation ({} : Recorder) {}) := by decide +kernel
  have hpresent : reunited.present = [0, 1, 2] := by decide +kernel
  have hworks : ∀ op ∈ failover (σ := Recorder) ++ [.heal "a1"], op.Works := by decide
  have hmaj : ∃ r ∈ reunited.replicas, majority r.voters ≤ reunited.present.length := by
    decide +kernel
  have hun : ∀ i ∈ [0, 1, 2], ((reunited.campaign i).network.submit i [4]).network.Unhalted := by
    decide +kernel
  obtain ⟨i, hi, term, hwon, hwrite⟩ := write_resumes hformed hworks hmaj
  rw [← reunited, hpresent] at hi hwrite
  exact ⟨hformed, hpresent, i, hi, term, hwon, hwrite [4] (hun i hi)⟩

end Network

end ReplicatedTable.Raft
